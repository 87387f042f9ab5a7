import TierAlloc.Memory.Shm
import TierAlloc.Static.Geometry
import TierAlloc.Static.Pool

/-!
# Batches

A batch is one shared region cut into pools, one for each bin of a geometry, each
starting where the one before it ends. Pools are kept, and searched, by descending
chunk size; bins of one size stay in the order of their ids.

A request goes to the pools whose chunk size divides it, the largest first, and
then to the others by ascending remainder (`searchOrder`). The first pool with
room serves it. Every pool that is asked uses up an id.

The offsets of a batch are 64-bit numbers: its region could not be made otherwise, and
where the bins need more, laying them out overflows.

**Results.**
* `layOut_cons_eq_ok`, `layOut_cons_eq_error`: one bin after the other is laid out.
-/
namespace TierAlloc

/-- A region and the pools that it is cut into.
mirrors `Batch` -/
structure Batch where
  id : Nat
  manager : String
  /-- By descending chunk size. -/
  pools : List Pool
  region : Region
  totalBytes : Nat
  maxChunkSize : Nat
  deriving DecidableEq, Repr

namespace Batch

/-- The pools of the bins from `bin` on, the first one at `offset`, and the offset
where the last one ends. -/
def layOut : List Bin → (bin offset : Nat) → Except Error (List Pool × Nat)
  | [], _, offset => .ok ([], offset)
  | b :: rest, bin, offset => do
    let pool ← Pool.create bin b.chunkSize b.chunkCount offset
    let span ← Word.mul b.chunkSize b.chunkCount
    let next ← Word.add offset span
    let (pools, stop) ← layOut rest (bin + 1) next
    pure (pool :: pools, stop)

/-- Largest chunks first; the order of equal ones stays. -/
def bySize (pools : List Pool) : List Pool :=
  pools.mergeSort fun p q => q.chunkSize ≤ p.chunkSize

/-- The pools of a usable geometry, and the bytes that they span. -/
def plan (g : Geometry) : Except Error (List Pool × Nat) := do
  g.check
  layOut g.bins 0 0

/-- Lays out the pools and creates the region behind them.
mirrors `Batch.new` -/
def create (manager : String) (id : Nat) (g : Geometry) (shm : Shm) :
    Except Error Batch × Shm :=
  match plan g with
  | .error e => (.error e, shm)
  | .ok (pools, totalBytes) =>
    match shm.create (staticRegionName manager id) totalBytes with
    | (.error e, shm) => (.error e, shm)
    | (.ok region, shm) =>
      (.ok { id, manager, pools := bySize pools, region, totalBytes,
             maxChunkSize := g.maxChunkSize }, shm)

/-- Lets the region go. -/
def drop (b : Batch) (shm : Shm) : Shm := shm.release b.region

/-- The largest request that the batch accepts.
mirrors `Batch.size_limit` -/
def sizeLimit (b : Batch) : Nat := b.maxChunkSize * oversizeFactor

/-- The pools in the order in which they are asked for `n` bytes. -/
def searchOrder (b : Batch) (n : Nat) : List Pool :=
  let exact := b.pools.filter fun p => n % p.chunkSize = 0
  let rest := b.pools.filter fun p => n % p.chunkSize ≠ 0
  exact ++ rest.mergeSort fun p q => n % p.chunkSize ≤ n % q.chunkSize

/-- Asks the pools in turn and passes over those without room.
mirrors `Batch.try_pool`, pool after pool -/
def askPools (n : Nat) : List Pool → Counter → Except Error (Segment × Pool) × Counter
  | [], ids => (.error (.noMemory n), ids)
  | p :: rest, ids =>
    match p.allocate ids n with
    | (.error (.noMemory _), ids) => askPools n rest ids
    | answer => answer

/-- The batch with the pool that has the bin id of `p` replaced by `p`. -/
def putPool (b : Batch) (p : Pool) : Batch :=
  { b with pools := b.pools.map fun q => if q.id = p.id then p else q }

/-- Serves `n` bytes from the pool that comes first in the search order.
mirrors `Batch.allocate` -/
def allocate (b : Batch) (ids : Counter) (n : Nat) :
    Except Error (Segment × Batch) × Counter :=
  if b.sizeLimit < n then (.error (.oversizedRequest n b.sizeLimit), ids)
  else
    match askPools n (b.searchOrder n) ids with
    | (.error e, ids) => (.error e, ids)
    | (.ok (s, p), ids) => (.ok ((s.inBatch b.id).stamp b.manager, b.putPool p), ids)

/-- The pool of bin `bin`.
mirrors `Batch.pool` -/
def pool? (b : Batch) (bin : Nat) : Option Pool := b.pools.find? (·.id = bin)

/-- The bin of a segment of this batch.
mirrors `Batch.locate` -/
def locate (b : Batch) (s : Segment) : Except Error Nat :=
  match s.kind with
  | .static batch bin _ => if batch = b.id then .ok bin else .error (.segmentNotFound s.id)
  | _ => .error (.typeMismatch s.id .static s.tier)

/-- Gives a segment back to the pool that it came from.
mirrors `Batch.free` -/
def free (b : Batch) (s : Segment) : Except Error Batch := do
  let bin ← b.locate s
  match b.pool? bin with
  | none => .error (.segmentNotFound s.id)
  | some p => do
    let p ← p.freeSegment s
    pure (b.putPool p)

/-- The offset in the region of the first byte of a segment of this batch.
mirrors `Batch.segment_ptr` -/
def segmentStart (b : Batch) (s : Segment) : Except Error Nat := do
  let _ ← b.locate s
  if b.region.covers s.offset s.size then pure s.offset
  else .error (.rangeError s.offset s.size)

/-- A bin is laid out before the others, which start where it ends. -/
theorem layOut_cons_eq_ok {b : Bin} {rest : List Bin} {bin offset stop : Nat} {pools : List Pool} :
    layOut (b :: rest) bin offset = .ok (pools, stop) ↔ ∃ p others,
      Pool.create bin b.chunkSize b.chunkCount offset = .ok p ∧
        offset + b.chunkSize * b.chunkCount < wordRange ∧
        layOut rest (bin + 1) (offset + b.chunkSize * b.chunkCount) = .ok (others, stop) ∧
        pools = p :: others := by
  rw [layOut]
  simp only [bind_eq_ok, Word.mul_eq_ok, Word.add_eq_ok, Prod.exists]
  constructor
  · rintro ⟨p, hp, _, ⟨-, rfl⟩, _, ⟨hlt, rfl⟩, others, last, hl, hanswer⟩
    obtain ⟨rfl, rfl⟩ := Prod.mk.inj (Except.ok.inj hanswer)
    exact ⟨p, others, hp, hlt, hl, rfl⟩
  · rintro ⟨p, others, hp, hlt, hl, rfl⟩
    exact ⟨p, hp, _, ⟨by omega, rfl⟩, _, ⟨hlt, rfl⟩, others, stop, hl, rfl⟩

theorem layOut_cons_eq_error {b : Bin} {rest : List Bin} {bin offset : Nat} {e : Error}
    (h : layOut (b :: rest) bin offset = .error e) :
    Pool.create bin b.chunkSize b.chunkCount offset = .error e ∨
      (wordRange ≤ offset + b.chunkSize * b.chunkCount ∧ ∃ fault, e = .overflow fault) ∨
      layOut rest (bin + 1) (offset + b.chunkSize * b.chunkCount) = .error e := by
  rw [layOut] at h
  simp only [bind_eq_error, Word.mul_eq_ok, Word.mul_eq_error, Word.add_eq_ok, Word.add_eq_error] at h
  rcases h with hp | ⟨p, -, ⟨hwide, rfl⟩ | ⟨_, ⟨-, rfl⟩, ⟨hwide, rfl⟩ | ⟨_, ⟨-, rfl⟩, hl | ⟨laid, -, hnone⟩⟩⟩⟩
  · exact Or.inl hp
  · exact Or.inr (Or.inl ⟨Nat.le_add_left_of_le hwide, _, rfl⟩)
  · exact Or.inr (Or.inl ⟨hwide, _, rfl⟩)
  · exact Or.inr (Or.inr hl)
  · cases hnone

/-- Free chunks of all pools together.
mirrors `Batch.chunk_left` -/
def chunksLeft (b : Batch) : Nat := b.pools.foldr (fun p n => p.free + n) 0

/-- The same batch with every chunk free.
mirrors `Batch.clear` -/
def clear (b : Batch) : Batch := { b with pools := b.pools.map Pool.clear }

end Batch
end TierAlloc
