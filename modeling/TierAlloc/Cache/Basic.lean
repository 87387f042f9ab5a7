import TierAlloc.Memory.BufferPool
import TierAlloc.Config
import TierAlloc.Exchange.Basic
import TierAlloc.Table

/-!
# The cache

Small segments are kept in process memory, one buffer under each id. In handoff
mode a cache also has an exchange region, through which payloads move to and from
other processes; `TierAlloc.Cache.Handoff` is about that.

The view is `contents?`: the bytes under an id. Storing draws an id first, so a
refused store uses one up; replacing takes the new buffer before it gives the old
one back, so a replacement that is refused leaves the old bytes.
-/
namespace TierAlloc

/-- The buffers under their ids, the process memory they are from, and the exchange region if there is one.
mirrors `CacheChannel` -/
structure Cache where
  manager : String
  heap : BufferPool
  entries : Table Nat Buffer
  exchange : Option Exchange

namespace Cache

/-- A cache without exchange region.
mirrors `CacheChannel.local` -/
def inProcess (manager : String) (capacity : Option Nat) : Cache where
  manager
  heap := .create capacity
  entries := .empty
  exchange := none

/-- A cache in the given mode.
mirrors `CacheChannel.new` -/
def create (manager : String) (mode : CacheMode) (capacity : Option Nat) (shm : Shm) :
    Except Error Cache × Shm :=
  match mode with
  | .inProcess => (.ok (inProcess manager capacity), shm)
  | .handoff areaCount areaSize =>
    match Exchange.create manager { areaCount, areaSize } shm with
    | (.error e, shm) => (.error e, shm)
    | (.ok x, shm) => (.ok { inProcess manager capacity with exchange := some x }, shm)

/-- Lets the exchange region go. -/
def drop (c : Cache) (shm : Shm) : Shm :=
  match c.exchange with
  | some x => shm.release x.region
  | none => shm

/-- The bytes under an id. -/
def contents? (c : Cache) (id : Nat) : Option Bytes := (c.entries.get? id).map Buffer.bytes

def contains (c : Cache) (id : Nat) : Bool := c.entries.contains id

/-- Mirrors `CacheChannel.size_of`. -/
def size? (c : Cache) (id : Nat) : Option Nat := (c.contents? id).map List.length

/-- Number of entries.
mirrors `CacheChannel.segment_count` -/
def count (c : Cache) : Nat := c.entries.size

/-- Puts a buffer under a new id. One under an id that is taken goes back.
mirrors `CacheChannel.insert_local` -/
def insert (c : Cache) (id : Nat) (b : Buffer) : Except Error Unit × Cache :=
  if c.contains id then (.error (.duplicatedKey id), { c with heap := c.heap.recycle b })
  else (.ok (), { c with entries := c.entries.insert id b })

/-- The segment of an entry. -/
def entrySegment (c : Cache) (id size : Nat) : Segment :=
  { id, size, manager := c.manager, kind := .cache .inProcess }

/-- A new entry of `size` bytes under the id `id`: `content` from the start on, cut
to the size, and zeros after it. -/
def place (c : Cache) (id size : Nat) (content : Bytes) : Except Error Segment × Cache :=
  if size = 0 then (.error .zeroSize, c)
  else
    match c.heap.acquire size with
    | (.error e, heap) => (.error e, { c with heap })
    | (.ok b, heap) =>
      let c := { c with heap }
      match c.insert id { b with bytes := b.bytes.overlay content } with
      | (.error e, c) => (.error e, c)
      | (.ok (), c) => (.ok (c.entrySegment id size), c)

/-- Draws an id and makes an entry of `size` bytes under it.
mirrors `CacheChannel.store_with` -/
def storeWith (c : Cache) (ids : Counter) (size : Nat) (content : Bytes) :
    Except Error Segment × Cache × Counter :=
  let (answer, c) := c.place ids.draw.1 size content
  (answer, c, ids.draw.2)

/-- A new entry of zeros.
mirrors `CacheChannel.malloc` -/
def malloc (c : Cache) (ids : Counter) (size : Nat) : Except Error Segment × Cache × Counter :=
  c.storeWith ids size []

/-- A new entry that holds `data`.
mirrors `CacheChannel.store` -/
def store (c : Cache) (ids : Counter) (data : Bytes) : Except Error Segment × Cache × Counter :=
  if data.isEmpty then (.error .noBuffer, c, ids.draw.2)
  else c.storeWith ids data.length data

/-- A copy of the bytes under `id`.
mirrors `CacheChannel.retrieve` -/
def retrieve (c : Cache) (id : Nat) : Except Error Bytes :=
  match c.contents? id with
  | some bytes => .ok bytes
  | none => .error (.segmentNotFound id)

/-- Overwrites bytes of an entry from `offset` on, as far as the entry reaches.
mirrors `CacheChannel.with_mut` -/
def modify (c : Cache) (id offset : Nat) (data : Bytes) : Except Error Cache :=
  match c.entries.get? id with
  | none => .error (.segmentNotFound id)
  | some b =>
    .ok { c with entries := c.entries.insert id { b with bytes := b.bytes.splice offset data } }

/-- Gives the buffer under `id` back.
mirrors `CacheChannel.free` -/
def free (c : Cache) (id : Nat) : Except Error Cache :=
  match c.entries.get? id with
  | none => .error (.segmentNotFound id)
  | some b => .ok { c with heap := c.heap.recycle b, entries := c.entries.erase id }

/-- Gives back the buffer of a cache segment.
mirrors `CacheChannel.free_segment` -/
def freeSegment (c : Cache) (s : Segment) : Except Error Cache :=
  if s.tier ≠ .cache then .error (.typeMismatch s.id .cache s.tier) else c.free s.id

/-- Puts a buffer in place of the one under `id`, which goes back; without one
there, the new buffer goes back. -/
def swap (c : Cache) (id : Nat) (b : Buffer) : Except Error Unit × Cache :=
  match c.entries.get? id with
  | none => (.error (.segmentNotFound id), { c with heap := c.heap.recycle b })
  | some old =>
    (.ok (), { c with heap := c.heap.recycle old, entries := c.entries.insert id b })

/-- Replaces the entry under `id` by one of `size` bytes. What is to stand in it is
asked for while the new buffer is held and the old one still in place; `fill` may
change the cache meanwhile. -/
def replaceBy (c : Cache) (id size : Nat) (fill : Cache → Bytes × Cache) :
    Except Error Unit × Cache :=
  if size = 0 then (.error .zeroSize, c)
  else if !c.contains id then (.error (.segmentNotFound id), c)
  else
    match c.heap.acquire size with
    | (.error e, heap) => (.error e, { c with heap })
    | (.ok b, heap) =>
      let (content, c) := fill { c with heap }
      c.swap id { b with bytes := b.bytes.overlay content }

/-- Replaces the entry under `id` by `content`, cut or filled up to `size` bytes.
mirrors `CacheChannel.set_with` -/
def setWith (c : Cache) (id size : Nat) (content : Bytes) : Except Error Unit × Cache :=
  c.replaceBy id size fun c => (content, c)

/-- Replaces the entry under `id` by `data`.
mirrors `CacheChannel.set` -/
def set (c : Cache) (id : Nat) (data : Bytes) : Except Error Unit × Cache :=
  if data.isEmpty then (.error .noBuffer, c) else c.setWith id data.length data

/-- Gives every buffer back.
mirrors `CacheChannel.clear` -/
def clear (c : Cache) : Cache :=
  { c with heap := c.entries.values.foldl BufferPool.recycle c.heap, entries := .empty }

/-- Exchange areas taken at the moment.
mirrors `CacheChannel.busy_areas` -/
def busyAreas (c : Cache) (shm : Shm) : Nat :=
  match c.exchange with
  | some x => x.busy shm
  | none => 0

end Cache
end TierAlloc
