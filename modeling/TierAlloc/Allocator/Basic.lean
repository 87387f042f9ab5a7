import TierAlloc.Static.Batch
import TierAlloc.Cache.Basic
import TierAlloc.Ephemeral

/-!
# The allocator

An `Allocator` sends each request to a tier by its size and keeps the table of
live segments, through which they are found and freed by id alone. All tiers draw
their ids from the one counter of the allocator.

Small requests go to the cache, very large ones get a region of their own, and the
rest is served in chunks by the first batch with room. When no batch has room the
static tier grows by one batch.

Every operation gives the allocator after it, also when it fails: a failed request
has used up ids and may have added a batch. It changes no live segment.
-/
namespace TierAlloc

/-- The three tiers and the table of live segments.
mirrors `PoolRouter` -/
structure Allocator where
  config : Config
  ids : Counter
  /-- Batch `i` has id `i`. -/
  batches : List Batch
  ephemeral : Ephemeral
  cache : Cache
  /-- The live segments by id. -/
  segments : Table Nat Segment

namespace Allocator

def name (a : Allocator) : String := a.config.name

/-- Checks the configuration and builds the tiers, with one batch to begin with.
mirrors `PoolRouter.new` -/
def create (config : Config) (shm : Shm) : Except Error Allocator × Shm :=
  match config.check with
  | .error e => (.error e, shm)
  | .ok () =>
    match Batch.create config.name 0 config.geometry shm with
    | (.error e, shm) => (.error e, shm)
    | (.ok first, shm) =>
      match Cache.create config.name config.cacheMode config.cacheCapacity shm with
      | (.error e, shm) => (.error e, first.drop shm)
      | (.ok cache, shm) =>
        (.ok { config, ids := {}, batches := [first], ephemeral := .ofManager config.name,
               cache, segments := .empty }, shm)

/-- Lets every region go.
mirrors `PoolRouter.drop` -/
def drop (a : Allocator) (shm : Shm) : Shm :=
  let shm := a.batches.foldl (fun shm b => b.drop shm) shm
  let shm := (a.ephemeral.clear shm).2
  a.cache.drop shm

/-- The tier for a request of `n` bytes.
mirrors `PoolRouter.classify` -/
def classify (a : Allocator) (n : Nat) : Tier :=
  if n ≤ a.config.cacheThreshold then .cache
  else if a.config.instantThreshold ≤ n then .ephemeral
  else .static

/-! ## The table of segments -/

/-- A live segment.
mirrors `PoolRouter.get` -/
def get (a : Allocator) (id : Nat) : Except Error Segment :=
  match a.segments.get? id with
  | some s => .ok s
  | none => .error (.segmentNotFound id)

/-- A live segment, which must be of the tier `expected`.
mirrors `PoolRouter.expect_tier` -/
def getIn (a : Allocator) (expected : Tier) (id : Nat) : Except Error Segment := do
  let s ← a.get id
  if s.tier = expected then pure s else .error (.typeMismatch id expected s.tier)

/-- The batch with the id `batch`. -/
def batch? (a : Allocator) (batch : Nat) : Option Batch := a.batches[batch]?

def putBatch (a : Allocator) (batch : Nat) (b : Batch) : Allocator :=
  { a with batches := a.batches.set batch b }

/-- Frees a segment in the tier that it came from.
mirrors `PoolRouter.free_in_tier` -/
def freeInTier (a : Allocator) (s : Segment) (shm : Shm) : Except Error (Allocator × Shm) :=
  match s.kind with
  | .static batch _ _ =>
    match a.batch? batch with
    | none => .error (.segmentNotFound s.id)
    | some b => do
      let b ← b.free s
      pure (a.putBatch batch b, shm)
  | .ephemeral => do
    let (ephemeral, shm) ← a.ephemeral.free s shm
    pure ({ a with ephemeral }, shm)
  | .cache _ => do
    let cache ← a.cache.freeSegment s
    pure ({ a with cache }, shm)

/-- Records a new segment under the allocator's name. If its id is taken, the
segment is freed again.
mirrors `PoolRouter.register` -/
def register (a : Allocator) (s : Segment) (shm : Shm) :
    Except Error Segment × Allocator × Shm :=
  let s := s.stamp a.name
  if a.segments.contains s.id then
    match a.freeInTier s shm with
    | .ok (a, shm) => (.error (.registrationFailed s.id), a, shm)
    | .error _ => (.error (.registrationFailed s.id), a, shm)
  else (.ok s, { a with segments := a.segments.insert s.id s }, shm)

/-! ## Allocating -/

/-- Asks batches in turn and passes over those without room. With the segment comes
the batch that serves it, as it is then.
mirrors `PoolRouter.first_batch_fit` -/
def askBatches (n : Nat) : List Batch → Counter → Except Error (Segment × Batch) × Counter
  | [], ids => (.error (.noMemory n), ids)
  | b :: rest, ids =>
    match b.allocate ids n with
    | (.error (.noMemory _), ids) => askBatches n rest ids
    | answer => answer

/-- Serves `n` bytes from the batches given, which are some of the allocator's. -/
def serveStatic (a : Allocator) (batches : List Batch) (n : Nat) (shm : Shm) :
    Except Error Segment × Allocator × Shm :=
  match askBatches n batches a.ids with
  | (.error e, ids) => (.error e, { a with ids }, shm)
  | (.ok (s, b), ids) => ({ a with ids }.putBatch b.id b).register s shm

/-- Adds a batch to the static tier. -/
def grow (a : Allocator) (shm : Shm) : Except Error Batch × Allocator × Shm :=
  match Batch.create a.name a.batches.length a.config.geometry shm with
  | (.error e, shm) => (.error e, a, shm)
  | (.ok b, shm) => (.ok b, { a with batches := a.batches ++ [b] }, shm)

/-- Allocates chunks, from a new batch if no batch has room.
mirrors `PoolRouter.static_alloc` -/
def staticAlloc (a : Allocator) (n : Nat) (shm : Shm) :
    Except Error Segment × Allocator × Shm :=
  match a.serveStatic a.batches n shm with
  | (.error (.noMemory _), a, shm) =>
    match a.grow shm with
    | (.error e, a, shm) => (.error e, a, shm)
    | (.ok b, a, shm) => a.serveStatic [b] n shm
  | answer => answer

/-- Allocates a region of its own.
mirrors `PoolRouter.instant_alloc` -/
def instantAlloc (a : Allocator) (n : Nat) (shm : Shm) :
    Except Error Segment × Allocator × Shm :=
  match a.ephemeral.allocate a.ids n shm with
  | (.error e, ids, shm) => (.error e, { a with ids }, shm)
  | (.ok (s, ephemeral), ids, shm) => { a with ids, ephemeral }.register s shm

/-- Records what the cache answered. -/
def registerCached (a : Allocator) (answer : Except Error Segment × Cache × Counter)
    (shm : Shm) : Except Error Segment × Allocator × Shm :=
  match answer with
  | (.error e, cache, ids) => (.error e, { a with cache, ids }, shm)
  | (.ok s, cache, ids) => { a with cache, ids }.register s shm

/-- Allocates a cache entry of zeros.
mirrors `PoolRouter.cache_malloc` -/
def cacheMalloc (a : Allocator) (n : Nat) (shm : Shm) :
    Except Error Segment × Allocator × Shm :=
  a.registerCached (a.cache.malloc a.ids n) shm

/-- Allocates a cache entry that holds `data`.
mirrors `PoolRouter.cache_store` -/
def cacheStore (a : Allocator) (data : Bytes) (shm : Shm) :
    Except Error Segment × Allocator × Shm :=
  a.registerCached (a.cache.store a.ids data) shm

/-- Allocates a cache entry of `n` bytes, with `content` from the start on.
mirrors `PoolRouter.cache_store_with` -/
def cacheStoreWith (a : Allocator) (n : Nat) (content : Bytes) (shm : Shm) :
    Except Error Segment × Allocator × Shm :=
  a.registerCached (a.cache.storeWith a.ids n content) shm

/-- Allocates `n` bytes in the tier that the size selects.
mirrors `PoolRouter.allocate` -/
def allocate (a : Allocator) (n : Nat) (shm : Shm) : Except Error Segment × Allocator × Shm :=
  match a.classify n with
  | .cache => a.cacheMalloc n shm
  | .static => a.staticAlloc n shm
  | .ephemeral => a.instantAlloc n shm

/-! ## Freeing -/

/-- Frees a live segment, which must be of the tier `expected` if one is given. The
table forgets it only when its tier has freed it.
mirrors `PoolRouter.release` -/
def release (a : Allocator) (id : Nat) (expected : Option Tier) (shm : Shm) :
    Except Error (Allocator × Shm) := do
  let s ←
    match expected with
    | some tier => a.getIn tier id
    | none => a.get id
  let (a, shm) ← a.freeInTier s shm
  pure ({ a with segments := a.segments.erase id }, shm)

/-- Frees a live segment of any tier.
mirrors `PoolRouter.deallocate` -/
def deallocate (a : Allocator) (id : Nat) (shm : Shm) : Except Error (Allocator × Shm) :=
  a.release id none shm

/-- Mirrors `PoolRouter.static_dealloc`. -/
def staticDealloc (a : Allocator) (id : Nat) (shm : Shm) : Except Error (Allocator × Shm) :=
  a.release id (some .static) shm

/-- Mirrors `PoolRouter.instant_dealloc`. -/
def instantDealloc (a : Allocator) (id : Nat) (shm : Shm) : Except Error (Allocator × Shm) :=
  a.release id (some .ephemeral) shm

/-- Mirrors `PoolRouter.cache_dealloc`. -/
def cacheDealloc (a : Allocator) (id : Nat) (shm : Shm) : Except Error (Allocator × Shm) :=
  a.release id (some .cache) shm

/-! ## Counts -/

/-- Live segments of all tiers.
mirrors `PoolRouter.segment_count` -/
def segmentCount (a : Allocator) : Nat := a.segments.size

/-- Free chunks of all batches.
mirrors `PoolRouter.static_chunk_left` -/
def staticChunksLeft (a : Allocator) : Nat := a.batches.foldr (fun b n => b.chunksLeft + n) 0

end Allocator
end TierAlloc
