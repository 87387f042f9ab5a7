import TierAlloc.Memory.BufferPool
import TierAlloc.Memory.Shm

/-!
# Consumers

A `Consumer` is the other process's table of the segments that it was told about.
Registering a descriptor maps the region that it names, once for all segments of
one region, and counts the segments that use the mapping; the last one to leave
unmaps it. Cache segments are not shared: they get a buffer of process memory.

Regions are found by name. A region that is mapped already is used as it is, even
if its name has come to mean another object since.
-/
namespace TierAlloc

/-- A registered segment as its consumer sees it.
mirrors `LocalSegment` -/
structure LocalSegment where
  id : Nat
  size : Nat
  tier : Tier
  /-- Offset in the mapped region; zero for process memory. -/
  offset : Nat
  /-- The mapped region; none for process memory. -/
  regionName : Option String
  deriving DecidableEq, Repr

/-- Where the bytes of a registered segment are.
mirrors `Backing` -/
inductive Backing where
  | mapped (region : Region)
  | buffer (b : Buffer)
  deriving DecidableEq, Repr

/-- A registered segment with its bytes.
mirrors `RegistryEntry` -/
structure Registration where
  segment : LocalSegment
  backing : Backing
  deriving DecidableEq, Repr

/-- A mapping and the number of segments that use it.
mirrors `AttachedRegion` -/
structure Attachment where
  region : Region
  count : Nat
  deriving DecidableEq, Repr

/-- The segments that one process was told about, and the regions it has mapped for them.
mirrors `SegmentManager` -/
structure Consumer where
  name : String
  regions : Table String Attachment
  entries : Table Nat Registration
  heap : BufferPool

/-- The bytes that a pointer to a registered segment shows: where they are, and how
many. The place is an object and an offset in it, or none in process memory. -/
structure View where
  size : Nat
  place : Option (Nat × Nat)
  bytes : Bytes
  deriving DecidableEq, Repr

/-- What the pointer to a registered segment shows.
mirrors `RegistryEntry.pointer` -/
def Registration.view (e : Registration) (shm : Shm) : Except Error View :=
  match e.backing with
  | .mapped r =>
    if r.covers e.segment.offset e.segment.size then
      .ok { size := e.segment.size, place := some (r.object, e.segment.offset),
            bytes := shm.bytes r e.segment.offset e.segment.size }
    else .error (.rangeError e.segment.offset e.segment.size)
  | .buffer b => .ok { size := e.segment.size, place := none, bytes := b.bytes }

namespace Consumer

/-- A consumer that was told of nothing yet.
mirrors `SegmentManager.new` -/
def ofName (name : String) : Consumer := ⟨name, .empty, .empty, .create none⟩

/-- The mapping of the region, made if there is none, with one more user.
mirrors `SegmentManager.attach_region` -/
def attachRegion (c : Consumer) (region : String) (shm : Shm) :
    Except Error (Region × Consumer) :=
  match c.regions.get? region with
  | some a =>
    .ok (a.region, { c with regions := c.regions.insert region { a with count := a.count + 1 } })
  | none => do
    let r ← shm.attach region
    pure (r, { c with regions := c.regions.insert region { region := r, count := 1 } })

/-- One user less; the last one unmaps the region.
mirrors `SegmentManager.detach_region` -/
def detachRegion (c : Consumer) (region : String) : Consumer :=
  match c.regions.get? region with
  | none => c
  | some a =>
    if a.count ≤ 1 then { c with regions := c.regions.erase region }
    else { c with regions := c.regions.insert region { a with count := a.count - 1 } }

/-- Enters a segment. -/
def enter (c : Consumer) (segment : LocalSegment) (backing : Backing) : Consumer :=
  { c with entries := c.entries.insert segment.id { segment, backing } }

/-- Registers a segment in process memory. -/
def registerBuffer (c : Consumer) (d : Descriptor) : Except Error LocalSegment × Consumer :=
  match c.heap.acquire d.size with
  | (.error e, heap) => (.error e, { c with heap })
  | (.ok b, heap) =>
    let s : LocalSegment :=
      { id := d.id, size := d.size, tier := .cache, offset := 0, regionName := none }
    (.ok s, { c with heap }.enter s (.buffer b))

/-- Registers a segment in the shared region `region`. -/
def registerMapped (c : Consumer) (d : Descriptor) (region : String) (shm : Shm) :
    Except Error LocalSegment × Consumer :=
  match c.attachRegion region shm with
  | .error e => (.error e, c)
  | .ok (r, c) =>
    if r.covers d.offset d.size then
      let s : LocalSegment :=
        { id := d.id, size := d.size, tier := d.tier, offset := d.offset,
          regionName := some region }
      (.ok s, c.enter s (.mapped r))
    else (.error (.rangeError d.offset d.size), c.detachRegion region)

/-- Registers the segment that a descriptor is about.
mirrors `SegmentManager.register` -/
def register (c : Consumer) (d : Descriptor) (shm : Shm) :
    Except Error LocalSegment × Consumer :=
  if d.size = 0 ∨ d.manager.isEmpty then (.error .noSegment, c)
  else if c.entries.contains d.id then (.error (.alreadyExists d.id), c)
  else
    match d.kind with
    | .cache _ => c.registerBuffer d
    | .static batch _ _ => c.registerMapped d (staticRegionName d.manager batch) shm
    | .ephemeral => c.registerMapped d (ephemeralRegionName d.manager d.id) shm

/-- Forgets a segment.
mirrors `SegmentManager.unregister` -/
def unregister (c : Consumer) (id : Nat) : Except Error Consumer :=
  match c.entries.get? id with
  | none => .error (.segmentNotFound id)
  | some e =>
    let c := { c with entries := c.entries.erase id }
    match e.backing with
    | .buffer b => .ok { c with heap := c.heap.recycle b }
    | .mapped _ =>
      match e.segment.regionName with
      | some region => .ok (c.detachRegion region)
      | none => .ok c

/-- A registered segment. -/
def entry (c : Consumer) (id : Nat) : Except Error Registration :=
  match c.entries.get? id with
  | some e => .ok e
  | none => .error (.segmentNotFound id)

/-- The view of the segment with this id.
mirrors `SegmentManager.bufferize` -/
def bufferize (c : Consumer) (id : Nat) (shm : Shm) : Except Error View := do
  let e ← c.entry id
  e.view shm

/-- The view of a segment as `register` gave it; one that has been replaced by
another under its id is not found.
mirrors `SegmentManager.bufferize_segment` -/
def bufferizeSegment (c : Consumer) (s : LocalSegment) (shm : Shm) : Except Error View := do
  let e ← c.entry s.id
  if e.segment = s then e.view shm else .error (.segmentNotFound s.id)

/-- A copy of the bytes of a registered segment.
mirrors `SegmentManager.read` -/
def read (c : Consumer) (id : Nat) (shm : Shm) : Except Error Bytes := do
  let e ← c.entry id
  match e.backing with
  | .mapped r => shm.read r e.segment.offset e.segment.size
  | .buffer b => pure b.bytes

/-- Copies `data` into a registered segment from `offset` on.
mirrors `SegmentManager.write` -/
def write (c : Consumer) (id offset : Nat) (data : Bytes) (shm : Shm) :
    Except Error (Consumer × Shm) := do
  let e ← c.entry id
  if e.segment.size < offset + data.length then .error (.rangeError offset data.length)
  else
    match e.backing with
    | .mapped r => do
      let shm ← shm.write r (e.segment.offset + offset) data
      pure (c, shm)
    | .buffer b =>
      pure (c.enter e.segment (.buffer { b with bytes := b.bytes.splice offset data }), shm)

/-- Mirrors `SegmentManager.is_registered`. -/
def isRegistered (c : Consumer) (id : Nat) : Bool := c.entries.contains id

/-- Number of segments that use the region.
mirrors `SegmentManager.attach_count` -/
def attachCount (c : Consumer) (region : String) : Nat :=
  match c.regions.get? region with
  | some a => a.count
  | none => 0

end Consumer
end TierAlloc
