import TierAlloc.Static.Geometry

/-!
# Configuration

`Config` is all that one allocator is told: its name, the two thresholds between
its tiers, the geometry of its batches, and how its cache works. `Config.check`
refuses what cannot work, and names the first thing that is wrong.
-/
namespace TierAlloc

/-- How a cache works: in process memory alone, or with exchange areas beside it
through which payloads move to and from other processes.
mirrors `CacheMode` -/
inductive CacheMode where
  | inProcess
  | handoff (areaCount areaSize : Nat)
  deriving DecidableEq, Repr

/-- Eight areas of one KiB.
mirrors `CacheMode.handoff` -/
def CacheMode.standardHandoff : CacheMode := .handoff 8 1024

/-- What one allocator is told.
mirrors `ManagerConfig` -/
structure Config where
  /-- The first part of the name of every region of this allocator. -/
  name : String
  /-- Requests of at most this size go to the cache. -/
  cacheThreshold : Nat
  /-- Requests of at least this size get a region of their own. -/
  instantThreshold : Nat
  geometry : Geometry
  cacheMode : CacheMode
  /-- Most bytes of process memory the cache may hold; none for no bound. -/
  cacheCapacity : Option Nat
  deriving DecidableEq, Repr

namespace Config

/-- What an allocator is told if nothing else is said.
mirrors `ManagerConfig.default` -/
def standard : Config where
  name := "shmalloc"
  cacheThreshold := 1024
  instantThreshold := 1 <<< 20
  geometry := .standard
  cacheMode := .inProcess
  cacheCapacity := none

/-- Mirrors `CacheMode`, as `ManagerConfig.validate` checks it. -/
def checkAreas : CacheMode → Except Error Unit
  | .inProcess => .ok ()
  | .handoff count size =>
    if count = 0 ∨ size = 0 ∨ size % alignment ≠ 0 then
      .error (.invalidConfig (.areas count size))
    else .ok ()

/-- Refuses a configuration that cannot work.
mirrors `ManagerConfig.validate` -/
def check (c : Config) : Except Error Unit :=
  if c.name.isEmpty || c.name.toList.contains '/' then
    .error (.invalidConfig (.managerName c.name))
  else if c.instantThreshold ≤ c.cacheThreshold then
    .error (.invalidConfig (.thresholds c.cacheThreshold c.instantThreshold))
  else do
    c.geometry.check
    checkAreas c.cacheMode

end Config
end TierAlloc
