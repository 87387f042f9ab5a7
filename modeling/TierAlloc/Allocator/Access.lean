import TierAlloc.Allocator.Basic

/-!
# Reading and writing segments

The owner's side of a segment's bytes, whatever its tier. A write is bounded by
the size in the table, and for a cache segment also by the buffer that is stored,
which may have been replaced behind the allocator's back.

Replacing a cache entry through the allocator keeps the size in the table and the
stored buffer equal.
-/
namespace TierAlloc.Allocator

/-- Overwrites part of a cache entry. -/
def writeCached (a : Allocator) (id offset : Nat) (data : Bytes) : Except Error Allocator :=
  match a.cache.contents? id with
  | none => .error (.segmentNotFound id)
  | some bytes =>
    if offset + data.length ≤ bytes.length then do
      let cache ← a.cache.modify id offset data
      pure { a with cache }
    else .error (.rangeError offset data.length)

/-- Copies `data` into a live segment from `offset` on.
mirrors `PoolRouter.write` -/
def write (a : Allocator) (id offset : Nat) (data : Bytes) (shm : Shm) :
    Except Error (Allocator × Shm) := do
  let s ← a.get id
  if s.size < offset + data.length then .error (.rangeError offset data.length)
  else
    match s.kind with
    | .static batch _ _ =>
      match a.batch? batch with
      | none => .error (.segmentNotFound id)
      | some b => do
        let shm ← shm.write b.region (s.offset + offset) data
        pure (a, shm)
    | .ephemeral =>
      match a.ephemeral.region? id with
      | none => .error (.segmentNotFound id)
      | some region => do
        let shm ← shm.write region offset data
        pure (a, shm)
    | .cache _ => do
      let a ← a.writeCached id offset data
      pure (a, shm)

/-- A copy of the bytes of a live segment.
mirrors `PoolRouter.read` -/
def read (a : Allocator) (id : Nat) (shm : Shm) : Except Error Bytes := do
  let s ← a.get id
  match s.kind with
  | .static batch _ _ =>
    match a.batch? batch with
    | none => .error (.segmentNotFound id)
    | some b => shm.read b.region s.offset s.size
  | .ephemeral =>
    match a.ephemeral.region? id with
    | none => .error (.segmentNotFound id)
    | some region => shm.read region 0 s.size
  | .cache _ => a.cache.retrieve id

/-- A copy of the bytes of a cache segment.
mirrors `PoolRouter.cache_retrieve` -/
def cacheRetrieve (a : Allocator) (id : Nat) : Except Error Bytes := do
  let _ ← a.getIn .cache id
  a.cache.retrieve id

/-- Has the cache replace an entry, and records its new size.
mirrors `PoolRouter.replace_cache_entry` -/
def replaceEntry (a : Allocator) (id size : Nat)
    (replace : Cache → Except Error Unit × Cache) : Except Error Unit × Allocator :=
  match a.getIn .cache id with
  | .error e => (.error e, a)
  | .ok s =>
    match replace a.cache with
    | (.error e, cache) => (.error e, { a with cache })
    | (.ok (), cache) =>
      (.ok (), { a with cache, segments := a.segments.insert id { s with size } })

/-- Replaces a cache segment by `data`.
mirrors `PoolRouter.cache_set` -/
def cacheSet (a : Allocator) (id : Nat) (data : Bytes) : Except Error Unit × Allocator :=
  a.replaceEntry id data.length fun c => c.set id data

/-- Replaces a cache segment by one of `size` bytes, with `content` from the start
on.
mirrors `PoolRouter.cache_set_with` -/
def cacheSetWith (a : Allocator) (id size : Nat) (content : Bytes) :
    Except Error Unit × Allocator :=
  a.replaceEntry id size fun c => c.setWith id size content

end TierAlloc.Allocator
