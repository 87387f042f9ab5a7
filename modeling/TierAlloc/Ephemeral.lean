import TierAlloc.Memory.Shm

/-!
# Ephemeral segments

Requests too large for chunks get a region to themselves, named after the id of
the segment. There is nothing to search and nothing to reuse: freeing the segment
lets the region go, and its name with it unless someone else still holds it.
-/
namespace TierAlloc

/-- The regions of live segments, by id.
mirrors `EphemeralPool` -/
structure Ephemeral where
  manager : String
  regions : Table Nat Region

namespace Ephemeral

/-- No region yet.
mirrors `EphemeralPool.new` -/
def ofManager (manager : String) : Ephemeral := ⟨manager, .empty⟩

/-- A region of `n` bytes under the id `id`. -/
def serve (e : Ephemeral) (id n : Nat) (shm : Shm) :
    Except Error (Segment × Ephemeral) × Shm :=
  if n = 0 then (.error .zeroSize, shm)
  else
    match shm.create (ephemeralRegionName e.manager id) n with
    | (.error err, shm) => (.error err, shm)
    | (.ok region, shm) =>
      if e.regions.contains id then (.error (.duplicatedKey id), shm.release region)
      else
        (.ok ({ id, size := n, manager := e.manager, kind := .ephemeral },
          { e with regions := e.regions.insert id region }), shm)

/-- Draws an id and serves `n` bytes under it. The id is used up either way.
mirrors `EphemeralPool.allocate` -/
def allocate (e : Ephemeral) (ids : Counter) (n : Nat) (shm : Shm) :
    Except Error (Segment × Ephemeral) × Counter × Shm :=
  let (answer, shm) := e.serve ids.draw.1 n shm
  (answer, ids.draw.2, shm)

/-- Lets the region of an ephemeral segment go.
mirrors `EphemeralPool.free` -/
def free (e : Ephemeral) (s : Segment) (shm : Shm) : Except Error (Ephemeral × Shm) :=
  if s.tier ≠ .ephemeral then .error (.typeMismatch s.id .ephemeral s.tier)
  else
    match e.regions.get? s.id with
    | none => .error (.segmentNotFound s.id)
    | some region => .ok ({ e with regions := e.regions.erase s.id }, shm.release region)

/-- The mapping of segment `id`.
mirrors `EphemeralPool.region` -/
def region? (e : Ephemeral) (id : Nat) : Option Region := e.regions.get? id

/-- Live segments.
mirrors `EphemeralPool.segment_count` -/
def count (e : Ephemeral) : Nat := e.regions.size

/-- Lets every region go.
mirrors `EphemeralPool.clear` -/
def clear (e : Ephemeral) (shm : Shm) : Ephemeral × Shm :=
  ({ e with regions := .empty }, e.regions.values.foldl Shm.release shm)

end Ephemeral
end TierAlloc
