import TierAlloc.Exchange.Layout
import TierAlloc.Exchange.Signal
import TierAlloc.Memory.Shm

/-!
# Exchange regions

The region `{manager}#cachbin`, through which payloads pass between the owner of a
cache and its peers. `create` writes every header and control word and the mark
last; `attach` believes a region only if it has the mark and is long enough for
the geometry in its header. Where that length is no 64-bit number both end in an
overflow. Nothing else about the words is believed: whoever maps the region may have
changed them.

The lock word alone says whether an area is taken. `reserve?` takes the lowest
free one and has no answer if there is none: the owner then sleeps until one is
released.
-/
namespace TierAlloc

/-- A mapped exchange region with the layout that its header announces.
mirrors `HandoffRegion` -/
structure Exchange where
  region : Region
  layout : Layout
  deriving DecidableEq, Repr

namespace Exchange

/-- The mark of an initialised region: "shmcache" in ASCII. -/
def mark : Nat := 0x73686d6361636865

def unlocked : Nat := 0
def locked : Nat := 1

/-- The segment word of a free area. -/
def noSegment : Nat := wordRange - 1

/-! Words of an area. -/

def lock (x : Exchange) (shm : Shm) (area : Nat) : Nat :=
  shm.word32 x.region (Layout.lockOffset area)

def signal (x : Exchange) (shm : Shm) (area : Nat) : Nat :=
  shm.word32 x.region (Layout.signalOffset area)

def payloadLength (x : Exchange) (shm : Shm) (area : Nat) : Nat :=
  shm.word64 x.region (Layout.lengthOffset area)

def segment (x : Exchange) (shm : Shm) (area : Nat) : Nat :=
  shm.word64 x.region (Layout.segmentOffset area)

def setLock (x : Exchange) (area n : Nat) (shm : Shm) : Shm :=
  shm.setWord32 x.region (Layout.lockOffset area) n

def setSignal (x : Exchange) (area n : Nat) (shm : Shm) : Shm :=
  shm.setWord32 x.region (Layout.signalOffset area) n

def setPayloadLength (x : Exchange) (area n : Nat) (shm : Shm) : Shm :=
  shm.setWord64 x.region (Layout.lengthOffset area) n

def setSegment (x : Exchange) (area n : Nat) (shm : Shm) : Shm :=
  shm.setWord64 x.region (Layout.segmentOffset area) n

/-- Puts the words of an area to those of a free one, the lock last. -/
def freeArea (x : Exchange) (area : Nat) (shm : Shm) : Shm :=
  x.setLock area unlocked <| x.setSignal area Signal.idle <| x.setPayloadLength area 0 <|
    x.setSegment area noSegment shm

/-- Writes the header and frees every area. -/
def initialise (x : Exchange) (shm : Shm) : Shm :=
  let r := x.region
  let shm := shm.setWord64 r Layout.markOffset 0
  let shm := shm.setWord32 r Layout.areaCountOffset x.layout.areaCount
  let shm := shm.setWord32 r Layout.areaSizeOffset x.layout.areaSize
  let shm := shm.setWord32 r Layout.releasesOffset 0
  let shm := (List.range x.layout.areaCount).foldl (fun shm area => x.freeArea area shm) shm
  shm.setWord64 r Layout.markOffset mark

/-- Creates the exchange region of `manager`. Number and size of the areas must fit
in the header.
mirrors `HandoffRegion.create` -/
def create (manager : String) (layout : Layout) (shm : Shm) : Except Error Exchange × Shm :=
  if halfRange ≤ layout.areaCount ∨ halfRange ≤ layout.areaSize then
    (.error (.invalidConfig (.areasTooLarge layout.areaCount layout.areaSize)), shm)
  else
    match layout.total with
    | .error e => (.error e, shm)
    | .ok total =>
      match shm.create (cacheRegionName manager) total with
      | (.error e, shm) => (.error e, shm)
      | (.ok region, shm) =>
        let x : Exchange := { region, layout }
        (.ok x, x.initialise shm)

/-- The layout that the header of a region announces. -/
def announced (region : Region) (shm : Shm) : Layout where
  areaCount := shm.word32 region Layout.areaCountOffset
  areaSize := shm.word32 region Layout.areaSizeOffset

/-- Maps the exchange region of `manager`, if it is one.
mirrors `HandoffRegion.attach` -/
def attach (manager : String) (shm : Shm) : Except Error Exchange := do
  let region ← shm.attach (cacheRegionName manager)
  let layout := announced region shm
  if region.size < Layout.blockSize then
    .error (.invalidDescriptor (.truncatedExchange manager))
  else if shm.word64 region Layout.markOffset ≠ mark then
    .error (.invalidDescriptor (.noExchange manager))
  else if layout.areaCount = 0 ∨ layout.areaSize = 0 then
    .error (.invalidDescriptor (.exchangeGeometry manager))
  else do
    let total ← layout.total
    if region.size < total then .error (.invalidDescriptor (.exchangeGeometry manager))
    else pure { region, layout }

/-- Takes the lowest area that is not locked.
mirrors `HandoffRegion.try_acquire` -/
def reserve? (x : Exchange) (shm : Shm) : Option (Nat × Shm) :=
  match (List.range x.layout.areaCount).find? fun area => x.lock shm area = unlocked with
  | none => none
  | some area => some (area, x.setLock area locked shm)

/-- Frees an area and counts the release, for those who wait for one.
mirrors `HandoffRegion.release` -/
def release (x : Exchange) (area : Nat) (shm : Shm) : Shm :=
  let shm := x.freeArea area shm
  let releases := shm.word32 x.region Layout.releasesOffset
  shm.setWord32 x.region Layout.releasesOffset ((releases + 1) % halfRange)

/-- Number of areas taken.
mirrors `HandoffRegion.busy_areas` -/
def busy (x : Exchange) (shm : Shm) : Nat :=
  (List.range x.layout.areaCount).countP fun area => x.lock shm area = locked

/-- The area that a descriptor names.
mirrors `HandoffRegion.locate` -/
def locate (x : Exchange) (d : Descriptor) : Except Error Nat :=
  match d.kind with
  | .cache (.area data signal) =>
    match x.layout.areaAt? data signal with
    | some area => .ok area
    | none => .error (.invalidDescriptor (.noArea data signal))
  | _ => .error (.invalidDescriptor (.notHandoff d.id))

end Exchange
end TierAlloc
