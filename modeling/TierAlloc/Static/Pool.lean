import TierAlloc.Static.Bitmap

/-!
# Chunk pools

A pool is `chunkCount` equal chunks from offset `base` on. A request takes the
lowest run of free chunks that covers it; giving back takes the place and size
of the segment and works the run out again. The pool only keeps books: the bytes
are in the region of the batch that the pool is part of.

`free` is the number of free chunks, kept beside the bitmap so that a hopeless
request is refused without a search.

A request first takes its chunks (`reserve`), and then the offset of the first of them is
worked out (`offsetOf`). In a pool that reaches beyond the 64-bit offsets this can fail, and
the chunks stay taken then (`afterFailure`).

**Results.**
* `offsetOf_eq_ok`, `offsetOf_eq_error`: the chunks that have an offset.
* `reserve_eq_ok`, `serve_eq_ok`, `serve_eq_error`: how a request is served.
-/
namespace TierAlloc

/-- `chunkCount` chunks of `chunkSize` bytes from `base` on, and which of them are free.
mirrors `ChunkPool` -/
structure Pool where
  id : Nat
  chunkSize : Nat
  chunkCount : Nat
  base : Nat
  chunks : Bitmap
  free : Nat
  deriving DecidableEq, Repr

namespace Pool

/-- A pool of free chunks. Its chunks are not empty, it has at least one, and
size and base are aligned.
mirrors `ChunkPool.new` -/
def create (id chunkSize chunkCount base : Nat) : Except Error Pool :=
  if chunkSize = 0 ∨ chunkCount = 0 then
    .error (.invalidConfig (.poolEmpty id))
  else if chunkSize % alignment ≠ 0 then
    .error (.invalidConfig (.poolChunkSize id chunkSize))
  else if base % alignment ≠ 0 then
    .error (.invalidConfig (.poolBase id base))
  else
    .ok { id, chunkSize, chunkCount, base,
          chunks := Bitmap.ofLength chunkCount, free := chunkCount }

/-- Number of chunks that `n` bytes take.
mirrors `ChunkPool.chunks_for` -/
def chunksFor (p : Pool) (n : Nat) : Nat := (n + (p.chunkSize - 1)) / p.chunkSize

/-- Number of bytes from `base` on. -/
def span (p : Pool) : Nat := p.chunkSize * p.chunkCount

/-- The span as a 64-bit number.
mirrors `ChunkPool.span` -/
def spanWord (p : Pool) : Except Error Nat := Word.mul p.chunkSize p.chunkCount

/-- Takes the lowest run of free chunks for `n` bytes, and says where it starts. -/
def reserve (p : Pool) (n : Nat) : Except Error (Nat × Pool) :=
  if n = 0 then .error .zeroSize
  else
    let run := p.chunksFor n
    if p.free < run then .error (.noMemory n)
    else
      match p.chunks.fit? run with
      | none => .error (.noMemory n)
      | some start => do
        let chunks ← p.chunks.occupy start run
        pure (start, { p with chunks, free := p.free - run })

/-- The offset at which a chunk starts. -/
def offsetOf (p : Pool) (chunk : Nat) : Except Error Nat := do
  let rel ← Word.mul chunk p.chunkSize
  Word.add rel p.base

/-- A segment of `n` bytes under the id `id`, in the lowest free run. -/
def serve (p : Pool) (id n : Nat) : Except Error (Segment × Pool) := do
  let (start, reserved) ← p.reserve n
  let offset ← p.offsetOf start
  pure ({ id, size := n, manager := "", kind := .static 0 p.id offset }, reserved)

/-- What a request for `n` bytes that failed leaves behind. -/
def afterFailure (p : Pool) (n : Nat) : Pool :=
  match p.reserve n with
  | .ok (_, reserved) => reserved
  | .error _ => p

/-- Draws an id and serves `n` bytes under it. The id is used up either way.
mirrors `ChunkPool.allocate` -/
def allocate (p : Pool) (ids : Counter) (n : Nat) :
    Except Error (Segment × Pool) × Counter :=
  (p.serve ids.draw.1 n, ids.draw.2)

/-- Gives back the chunks that cover `size` bytes at `offset`: a run of whole
chunks of this pool, all of them taken.
mirrors `ChunkPool.free_range` -/
def freeRange (p : Pool) (offset size : Nat) : Except Error Pool :=
  let start := (offset - p.base) / p.chunkSize
  let run := max (p.chunksFor size) 1
  if offset < p.base ∨ (offset - p.base) % p.chunkSize ≠ 0 ∨
      p.chunkCount ≤ start ∨ p.chunkCount - start < run then
    .error (.rangeError offset size)
  else do
    if !(← p.chunks.allOccupied start run) then .error (.doubleFree offset size)
    else
      let chunks ← p.chunks.release start run
      pure { p with chunks, free := p.free + run }

/-- Gives back the chunks of a segment of this bin.
mirrors `ChunkPool.free` -/
def freeSegment (p : Pool) (s : Segment) : Except Error Pool :=
  match s.kind with
  | .static _ bin offset =>
    if bin ≠ p.id then .error (.segmentNotFound s.id) else p.freeRange offset s.size
  | _ => .error (.typeMismatch s.id .static s.tier)

/-- The same pool with every chunk free.
mirrors `ChunkPool.clear` -/
def clear (p : Pool) : Pool := { p with chunks := p.chunks.reset, free := p.chunkCount }

variable {p p' : Pool} {id n chunk offset start : Nat} {s : Segment} {e : Error}

theorem offsetOf_eq_ok : p.offsetOf chunk = .ok offset ↔
    chunk * p.chunkSize + p.base < wordRange ∧ offset = chunk * p.chunkSize + p.base := by
  unfold offsetOf
  simp only [bind_eq_ok, Word.mul_eq_ok, Word.add_eq_ok]
  constructor
  · rintro ⟨_, ⟨-, rfl⟩, h⟩
    exact h
  · rintro ⟨hlt, rfl⟩
    exact ⟨_, ⟨by omega, rfl⟩, hlt, rfl⟩

/-- How the offset of a chunk overflows. -/
def offsetFault (p : Pool) (chunk : Nat) : Overflow :=
  if wordRange ≤ chunk * p.chunkSize then .product else .sum

theorem offsetOf_eq_error : p.offsetOf chunk = .error e ↔
    wordRange ≤ chunk * p.chunkSize + p.base ∧ e = .overflow (p.offsetFault chunk) := by
  unfold offsetOf offsetFault
  simp only [bind_eq_error, Word.mul_eq_ok, Word.mul_eq_error, Word.add_eq_error]
  split
  · next h => simp [h, Nat.not_lt.mpr h, Nat.le_add_right_of_le h]
  · next h => simp [h, Nat.not_le.mp h]

theorem reserve_zero (p : Pool) : p.reserve 0 = .error .zeroSize := rfl

/-- The pool with a run of its chunks taken. -/
theorem reserve_eq_ok : p.reserve n = .ok (start, p') ↔ 0 < n ∧ p.chunksFor n ≤ p.free ∧
    p.chunks.fit? (p.chunksFor n) = some start ∧ ∃ chunks,
      p.chunks.occupy start (p.chunksFor n) = .ok chunks ∧
        p' = { p with chunks, free := p.free - p.chunksFor n } := by
  unfold reserve
  by_cases hn : n = 0
  · simp [hn]
  by_cases hfree : p.free < p.chunksFor n
  · simp [hn, hfree, Nat.not_le.mpr hfree]
  rw [if_neg hn]
  simp only [if_neg hfree, Nat.pos_of_ne_zero hn, Nat.not_lt.mp hfree, true_and]
  cases p.chunks.fit? (p.chunksFor n) with
  | none => simp
  | some first =>
    simp only [bind_eq_ok, Option.some.injEq]
    constructor
    · rintro ⟨chunks, hc, hanswer⟩
      obtain ⟨rfl, rfl⟩ := Prod.mk.inj (Except.ok.inj hanswer)
      exact ⟨rfl, chunks, hc, rfl⟩
    · rintro ⟨rfl, chunks, hc, rfl⟩
      exact ⟨chunks, hc, rfl⟩

/-- A request is served once its chunks are taken, if the first of them has an offset. -/
theorem serve_eq_ok : p.serve id n = .ok (s, p') ↔ ∃ start, p.reserve n = .ok (start, p') ∧
    start * p.chunkSize + p.base < wordRange ∧
      s = ⟨id, n, "", .static 0 p.id (start * p.chunkSize + p.base)⟩ := by
  unfold serve
  simp only [bind_eq_ok, offsetOf_eq_ok, Prod.exists]
  constructor
  · rintro ⟨start, q, hr, _, ⟨hlt, rfl⟩, hanswer⟩
    obtain ⟨rfl, rfl⟩ := Prod.mk.inj (Except.ok.inj hanswer)
    exact ⟨start, hr, hlt, rfl⟩
  · rintro ⟨start, hr, hlt, rfl⟩
    exact ⟨start, p', hr, _, ⟨hlt, rfl⟩, rfl⟩

theorem serve_eq_error : p.serve id n = .error e ↔ p.reserve n = .error e ∨ ∃ start p',
    p.reserve n = .ok (start, p') ∧ wordRange ≤ start * p.chunkSize + p.base ∧
      e = .overflow (p.offsetFault start) := by
  unfold serve
  simp only [bind_eq_error, offsetOf_eq_error, Prod.exists]
  refine or_congr_right ⟨?_, ?_⟩
  · rintro ⟨start, q, hr, hwide | ⟨offset, -, hnone⟩⟩
    · exact ⟨start, q, hr, hwide⟩
    · cases hnone
  · rintro ⟨start, q, hr, hwide⟩
    exact ⟨start, q, hr, Or.inl hwide⟩

end Pool
end TierAlloc
