import TierAlloc.Allocator.Basic
import TierAlloc.Cache.Handoff

/-!
# Handoffs of an allocator

Taking bytes from a peer, and giving a cache segment to one, as the allocator does
it: an offer is made, its descriptor published, and the wait for the peer follows.
Between the two the allocator is free for other work. What a peer delivered is
recorded as a cache segment when the wait succeeds.
-/
namespace TierAlloc.Allocator

/-- Offers to take `n` bytes from a peer.
mirrors `PoolRouter.async_malloc`, up to the wait -/
def offerMalloc (a : Allocator) (n : Nat) : Except Error Offer × Allocator :=
  let (answer, ids) := a.cache.offerMalloc a.ids n
  (answer, { a with ids })

/-- Offers a live cache segment to a peer.
mirrors `PoolRouter.async_retrieve`, up to the wait -/
def offerRetrieve (a : Allocator) (id : Nat) : Except Error Offer := do
  let _ ← a.getIn .cache id
  a.cache.offerRetrieve id

/-- Waits for the peer of a handoff. Bytes that it delivered are recorded as a
segment; a handoff to the peer leaves the table as it is.
mirrors `PoolRouter.async_malloc` and `PoolRouter.async_retrieve`, the wait -/
def await? (a : Allocator) (p : Pending) (shm : Shm) :
    Option (Except Error Segment × Allocator × Shm) :=
  match p.wait? a.cache shm with
  | none => none
  | some (.error e, cache, shm) => some (.error e, { a with cache }, shm)
  | some (.ok s, cache, shm) =>
    match p.direction with
    | .inbound => some ({ a with cache }.register s shm)
    | .outbound => some (.ok s, { a with cache }, shm)

end TierAlloc.Allocator
