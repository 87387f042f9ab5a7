import Mathlib.Tactic.ByContra
import TierAlloc.Static.Batch

/-!
# Chunks and runs

What the operations of a bitmap and of a pool say about single chunks. A pool is
`Sound` if its numbers fit together; the chunks that a segment covers are worked out
from its offset and size alone (`Pool.InRun`), both when it is served and when it is
given back.

**Results.**
* `Bitmap.fit?_free`: the chunks of a run that was found exist and are free.
* `Bitmap.isFree_of_release`, `Bitmap.allTaken_iff`: giving a run back.
* `Pool.reserve_ok`, `Pool.serve_ok`: a pool takes exactly the run that covers the new segment.
* `Pool.freeRange_ok`, `Pool.freeRange_of_taken`: it gives exactly that run back.
* `Pool.Fits.inside`, `Pool.Fits.apart`: where the bytes are that the chunks cover.
-/
namespace TierAlloc

namespace Bitmap

/-- Every chunk has a bit in some word. -/
def Sized (b : Bitmap) : Prop := b.length ≤ b.words.size * wordBits

theorem Sized.word_lt {b : Bitmap} (h : b.Sized) {i : Nat} (hi : i < b.length) :
    i / wordBits < b.words.size := by
  unfold Sized wordBits at *
  omega

theorem sized_setWord {b : Bitmap} (h : b.Sized) (i : Nat) (f : UInt64 → UInt64) :
    (b.setWord i f).Sized := by
  unfold Sized setWord at *
  simpa using h

theorem sized_onRun {f : Bitmap → Nat → Bitmap} (hf : ∀ b i, b.Sized → (f b i).Sized) (b : Bitmap)
    (start run : Nat) (h : b.Sized) : (onRun f b start run).Sized := by
  induction run generalizing b start with
  | zero => exact h
  | succ run ih => exact ih _ _ (hf b start h)

theorem toNat_lowMask {n : Nat} (h : n ≤ wordBits) : (lowMask n).toNat = 1 <<< n - 1 := by
  have hp : 2 ^ n ≤ 2 ^ 64 := Nat.pow_le_pow_right (by decide) h
  have : 0 < 2 ^ n := Nat.two_pow_pos n
  rw [lowMask, Nat.one_shiftLeft, UInt64.toNat_ofNat', Nat.mod_eq_of_lt (by omega)]

theorem sized_ofLength (n : Nat) : (ofLength n).Sized := by
  unfold Sized ofLength
  simp only [Array.size_ofFn, wordBits]
  omega

/-- A new bitmap has exactly its chunks free. -/
theorem isFree_ofLength (n i : Nat) : (ofLength n).isFree i = decide (i < n) := by
  rw [isFree_eq]
  by_cases hi : i < n
  · have hw : i / wordBits < (ofLength n).words.size := (sized_ofLength n).word_lt hi
    have hword : (ofLength n).word i = lowMask (min wordBits (n - i / wordBits * wordBits)) := by
      unfold word
      rw [Array.getD_eq_getD_getElem?, Array.getElem?_eq_getElem hw, Option.getD_some]
      simp [ofLength]
    rw [hword, toNat_lowMask (Nat.min_le_left _ _), Nat.one_shiftLeft, Nat.testBit_two_pow_sub_one]
    have hlt : i % wordBits < min wordBits (n - i / wordBits * wordBits) := by
      unfold wordBits
      omega
    simp [hi, hlt, ofLength]
  · simp [hi, ofLength]

theorem isFree_onRun_give {b : Bitmap} (hs : b.Sized) {start run : Nat}
    (h : start + run ≤ b.length) (j : Nat) :
    (onRun give b start run).isFree j = (b.isFree j || decide (start ≤ j ∧ j < start + run)) := by
  induction run generalizing b start with
  | zero =>
    have hn : ¬(start ≤ j ∧ j < start + 0) := by omega
    rw [onRun, decide_eq_false hn, Bool.or_false]
  | succ run ih =>
    have hlt : start < b.length := by omega
    have hsized : (b.give start).Sized := sized_setWord hs start _
    have hlen : start + 1 + run ≤ (b.give start).length := by
      rw [length_give]
      omega
    rw [onRun, ih hsized hlen, isFree_give b hlt (hs.word_lt hlt), Bool.or_assoc]
    congr 1
    rw [Bool.eq_iff_iff]
    simp only [Bool.or_eq_true, beq_iff_eq, decide_eq_true_eq]
    omega

/-- Releasing a run frees its chunks and no others. -/
theorem isFree_of_release {b b' : Bitmap} (hs : b.Sized) {start run : Nat}
    (h : b.release start run = .ok b') (j : Nat) :
    b'.isFree j = (b.isFree j || decide (start ≤ j ∧ j < start + run)) := by
  obtain ⟨hle, rfl⟩ := release_eq_ok.mp h
  rw [isFree_onRun_give hs hle]

theorem sized_of_release {b b' : Bitmap} (hs : b.Sized) {start run : Nat}
    (h : b.release start run = .ok b') : b'.Sized := by
  rw [(release_eq_ok.mp h).2]
  exact sized_onRun (fun b i hb => sized_setWord hb i _) b start run hs

theorem sized_of_occupy {b b' : Bitmap} (hs : b.Sized) {start run : Nat}
    (h : b.occupy start run = .ok b') : b'.Sized := by
  rw [(occupy_eq_ok.mp h).2]
  exact sized_onRun (fun b i hb => sized_setWord hb i _) b start run hs

theorem allTaken_iff (b : Bitmap) (start run : Nat) : b.allTaken start run = true ↔
    ∀ j, start ≤ j → j < start + run → j < b.length ∧ b.isFree j = false := by
  induction run generalizing start with
  | zero =>
    simp only [allTaken, true_iff]
    intro j hl hu
    omega
  | succ run ih =>
    simp only [allTaken, Bool.and_eq_true, decide_eq_true_eq, Bool.not_eq_true', ih]
    constructor
    · rintro ⟨⟨hlt, hfree⟩, hrest⟩ j hl hu
      by_cases hj : j = start
      · rw [hj]
        exact ⟨hlt, hfree⟩
      · exact hrest j (by omega) (by omega)
    · intro h
      exact ⟨h start (Nat.le_refl _) (by omega), fun j hl hu => h j (by omega) (by omega)⟩

/-- A run whose end is a 64-bit number is answered for. -/
theorem allOccupied_of_stop {b : Bitmap} {start run stop : Nat} (h : b.stop start run = .ok stop) :
    b.allOccupied start run = .ok (b.allTaken start run) := by
  rw [allOccupied, h]
  rfl

/-- The search keeps that the `found` chunks before the current one are free. -/
theorem fitFrom_free {b : Bitmap} {run s : Nat} (start found i : Nat) (hle : found ≤ i)
    (hrun : found < run) (hstart : found ≠ 0 → start = i - found)
    (hfree : ∀ j, i - found ≤ j → j < i → b.isFree j = true)
    (h : b.fitFrom run start found i = some s) :
    ∀ j, s ≤ j → j < s + run → b.isFree j = true := by
  induction start, found, i using fitFrom.induct b run with
  | case1 start found i hi hjump ih =>
    rw [fitFrom, dif_pos hi, if_pos hjump] at h
    exact ih (Nat.zero_le _) (by omega) (fun h0 => absurd rfl h0) (fun j hl hu => by omega) h
  | case2 start found i hi hjump hf hdone =>
    rw [fitFrom, dif_pos hi, if_neg hjump, if_pos hf] at h
    simp only [hdone, if_true] at h
    have hs : s = i - found := by
      rw [← Option.some.inj h]
      split
      · omega
      · exact hstart ‹_›
    intro j hl hu
    by_cases hj : j = i
    · rw [hj]
      exact hf
    · exact hfree j (by omega) (by omega)
  | case3 start found i hi hjump hf start' hdone ih =>
    rw [fitFrom, dif_pos hi, if_neg hjump, if_pos hf] at h
    simp only [hdone, if_false] at h
    refine ih (by omega) (by omega) (fun _ => ?_) (fun j hl hu => ?_) h
    · have : start' = i - found := by
        simp only [start']
        split
        · omega
        · exact hstart ‹_›
      omega
    · by_cases hj : j = i
      · rw [hj]
        exact hf
      · exact hfree j (by omega) (by omega)
  | case4 start found i hi hjump hf ih =>
    rw [fitFrom, dif_pos hi, if_neg hjump, if_neg hf] at h
    exact ih (Nat.zero_le _) (by omega) (fun h0 => absurd rfl h0) (fun j hl hu => by omega) h
  | case5 start found i hi =>
    rw [fitFrom, dif_neg hi] at h
    cases h

/-- The chunks of a run that was found are free. -/
theorem fit?_free {b : Bitmap} {run s : Nat} (h : b.fit? run = some s) :
    ∀ j, s ≤ j → j < s + run → b.isFree j = true := by
  unfold fit? at h
  split at h
  · cases h
  · rename_i hn
    exact fitFrom_free 0 0 0 (Nat.le_refl _) (by omega) (fun h0 => absurd rfl h0)
      (fun j hl hu => by omega) h

end Bitmap

namespace Pool

/-- The numbers of a pool fit together. -/
structure Sound (p : Pool) : Prop where
  chunk_pos : 0 < p.chunkSize
  length : p.chunks.length = p.chunkCount
  sized : p.chunks.Sized

/-- `p'` is a later state of `p`. -/
structure Same (p p' : Pool) : Prop where
  id : p'.id = p.id
  chunkSize : p'.chunkSize = p.chunkSize
  chunkCount : p'.chunkCount = p.chunkCount
  base : p'.base = p.base

/-- Chunk `j` is there and taken. -/
def Taken (p : Pool) (j : Nat) : Prop := j < p.chunkCount ∧ p.chunks.isFree j = false

/-- The chunk that starts at `offset`. -/
def chunkAt (p : Pool) (offset : Nat) : Nat := (offset - p.base) / p.chunkSize

/-- Chunk `j` is one of those that cover `size` bytes at `offset`. -/
def InRun (p : Pool) (offset size j : Nat) : Prop :=
  p.chunkAt offset ≤ j ∧ j < p.chunkAt offset + p.chunksFor size

/-- There are whole chunks of this pool for `size` bytes at `offset`. -/
structure Fits (p : Pool) (offset size : Nat) : Prop where
  pos : 0 < size
  base_le : p.base ≤ offset
  aligned : (offset - p.base) % p.chunkSize = 0
  run_le : p.chunkAt offset + p.chunksFor size ≤ p.chunkCount

variable {p p' : Pool} {offset size n id : Nat}

theorem Same.chunksFor (h : p.Same p') (n : Nat) : p'.chunksFor n = p.chunksFor n := by
  rw [Pool.chunksFor, h.chunkSize, Pool.chunksFor]

theorem Same.chunkAt (h : p.Same p') (offset : Nat) : p'.chunkAt offset = p.chunkAt offset := by
  rw [Pool.chunkAt, h.chunkSize, h.base, Pool.chunkAt]

theorem Same.inRun (h : p.Same p') {j : Nat} : p'.InRun offset size j ↔ p.InRun offset size j := by
  rw [InRun, h.chunkAt, h.chunksFor, InRun]

theorem Same.fits (h : p.Same p') : p'.Fits offset size ↔ p.Fits offset size := by
  constructor
  · rintro ⟨hpos, hbase, halign, hrun⟩
    rw [h.base] at hbase halign
    rw [h.chunkSize] at halign
    rw [h.chunkAt, h.chunksFor, h.chunkCount] at hrun
    exact ⟨hpos, hbase, halign, hrun⟩
  · rintro ⟨hpos, hbase, halign, hrun⟩
    refine ⟨hpos, ?_, ?_, ?_⟩
    · rwa [h.base]
    · rwa [h.base, h.chunkSize]
    · rwa [h.chunkAt, h.chunksFor, h.chunkCount]

theorem chunksFor_pos (hp : p.Sound) (hn : 0 < n) : 0 < p.chunksFor n := by
  have := hp.chunk_pos
  exact Nat.div_pos (by omega) hp.chunk_pos

/-- The chunks of a run reach over the bytes they are for. -/
theorem le_chunksFor_mul (hp : p.Sound) (n : Nat) : n ≤ p.chunksFor n * p.chunkSize := by
  have hc := hp.chunk_pos
  have hdiv := Nat.div_add_mod' (n + (p.chunkSize - 1)) p.chunkSize
  have hmod := Nat.mod_lt (n + (p.chunkSize - 1)) hc
  unfold chunksFor
  omega

/-- Bytes that fit start where their first chunk does, and end with their last one at most. -/
theorem Fits.within (hp : p.Sound) (h : p.Fits offset size) :
    offset = p.base + p.chunkAt offset * p.chunkSize ∧
      offset + size ≤ p.base + (p.chunkAt offset + p.chunksFor size) * p.chunkSize := by
  have hdiv : (offset - p.base) / p.chunkSize * p.chunkSize = offset - p.base := by
    have := Nat.div_add_mod' (offset - p.base) p.chunkSize
    have := h.aligned
    omega
  have hstart : offset = p.base + p.chunkAt offset * p.chunkSize := by
    have := h.base_le
    rw [chunkAt, hdiv]
    omega
  have hsize := le_chunksFor_mul hp size
  refine ⟨hstart, ?_⟩
  rw [Nat.add_mul]
  omega

theorem Fits.inside (hp : p.Sound) (h : p.Fits offset size) : offset + size ≤ p.base + p.span := by
  have hend := (h.within hp).2
  have hle := Nat.mul_le_mul_right p.chunkSize h.run_le
  rw [span, Nat.mul_comm]
  omega

/-- Bytes that share no chunk are apart. -/
theorem Fits.apart (hp : p.Sound) {offset' size' : Nat} (h : p.Fits offset size)
    (h' : p.Fits offset' size') (hn : ∀ j, p.InRun offset size j → ¬p.InRun offset' size' j) :
    offset + size ≤ offset' ∨ offset' + size' ≤ offset := by
  have hpos := chunksFor_pos hp h.pos
  have hpos' := chunksFor_pos hp h'.pos
  have hruns : p.chunkAt offset + p.chunksFor size ≤ p.chunkAt offset' ∨
      p.chunkAt offset' + p.chunksFor size' ≤ p.chunkAt offset := by
    by_contra hno
    refine hn (max (p.chunkAt offset) (p.chunkAt offset')) ⟨?_, ?_⟩ ⟨?_, ?_⟩ <;> omega
  obtain ⟨hstart, hend⟩ := h.within hp
  obtain ⟨hstart', hend'⟩ := h'.within hp
  rcases hruns with hle | hle
  · have := Nat.mul_le_mul_right p.chunkSize hle
    omega
  · have := Nat.mul_le_mul_right p.chunkSize hle
    omega

theorem sound_create {chunkSize chunkCount base : Nat}
    (h : create id chunkSize chunkCount base = .ok p) :
    p.Sound ∧ p.id = id ∧ p.chunkSize = chunkSize ∧ p.chunkCount = chunkCount ∧ p.base = base ∧
      ∀ j, ¬p.Taken j := by
  unfold create at h
  split at h
  · cases h
  rename_i hz
  split at h
  · cases h
  split at h
  · cases h
  injection h with h
  subst h
  refine ⟨⟨by simp only; omega, rfl, Bitmap.sized_ofLength _⟩, rfl, rfl, rfl, rfl, ?_⟩
  rintro j ⟨hlt, hfree⟩
  rw [Bitmap.isFree_ofLength] at hfree
  simp only [decide_eq_false_iff_not] at hfree
  exact hfree hlt

/-- What a pool that takes chunks for `n` bytes has done: it took exactly the run of them from
`start` on, which were free. -/
structure Reserved (p p' : Pool) (n start : Nat) : Prop where
  pos : 0 < n
  run_le : start + p.chunksFor n ≤ p.chunkCount
  same : p.Same p'
  sound : p'.Sound
  free : ∀ j, start ≤ j → j < start + p.chunksFor n → ¬p.Taken j
  taken : ∀ j, p'.Taken j ↔ p.Taken j ∨ start ≤ j ∧ j < start + p.chunksFor n

theorem reserve_ok (hp : p.Sound) {start : Nat} (h : p.reserve n = .ok (start, p')) :
    p.Reserved p' n start := by
  obtain ⟨hn, -, hfit, chunks, ho, rfl⟩ := reserve_eq_ok.mp h
  have hrun : start + p.chunksFor n ≤ p.chunkCount := by
    rw [← hp.length]
    exact (Bitmap.occupy_eq_ok.mp ho).1
  refine ⟨hn, hrun, ⟨rfl, rfl, rfl, rfl⟩, ⟨hp.chunk_pos, (Bitmap.length_of_occupy ho).trans hp.length,
    Bitmap.sized_of_occupy hp.sized ho⟩, fun j hl hu ht => ?_, fun j => ?_⟩
  · have hfree := Bitmap.fit?_free hfit j hl hu
    rw [ht.2] at hfree
    cases hfree
  · simp only [Taken, Bitmap.isFree_of_occupy ho, Bool.and_eq_false_iff, Bool.not_eq_false',
      decide_eq_true_eq]
    constructor
    · rintro ⟨hlt, hf | hr⟩
      · exact Or.inl ⟨hlt, hf⟩
      · exact Or.inr hr
    · rintro (⟨hlt, hf⟩ | hr)
      · exact ⟨hlt, Or.inl hf⟩
      · exact ⟨by omega, Or.inr hr⟩

/-- What a pool that serves `n` bytes has done: it took exactly the chunks that cover the
new segment, which were free. -/
structure Served (p p' : Pool) (s : Segment) (offset : Nat) : Prop where
  kind : s.kind = .static 0 p.id offset
  fits : p.Fits offset s.size
  same : p.Same p'
  sound : p'.Sound
  free : ∀ j, p.InRun offset s.size j → ¬p.Taken j
  taken : ∀ j, p'.Taken j ↔ p.Taken j ∨ p.InRun offset s.size j

theorem serve_ok (hp : p.Sound) {s : Segment} (h : p.serve id n = .ok (s, p')) :
    s.id = id ∧ s.size = n ∧ ∃ offset, p.Served p' s offset := by
  obtain ⟨start, hr, -, rfl⟩ := serve_eq_ok.mp h
  have hres := reserve_ok hp hr
  have hat : p.chunkAt (start * p.chunkSize + p.base) = start := by
    rw [chunkAt, Nat.add_sub_cancel, Nat.mul_div_cancel _ hp.chunk_pos]
  refine ⟨rfl, rfl, start * p.chunkSize + p.base, rfl, ⟨hres.pos, Nat.le_add_left .., ?_, ?_⟩,
    hres.same, hres.sound, fun j hj => ?_, fun j => ?_⟩
  · rw [Nat.add_sub_cancel, Nat.mul_mod_left]
  · rw [hat]
    exact hres.run_le
  · rw [InRun, hat] at hj
    exact hres.free j hj.1 hj.2
  · rw [InRun, hat]
    exact hres.taken j

/-- Giving bytes back releases a run of the bitmap that was taken. -/
theorem freeRange_release (h : p.freeRange offset size = .ok p') : ∃ chunks,
    p.chunks.allTaken ((offset - p.base) / p.chunkSize) (max (p.chunksFor size) 1) = true ∧
    p.chunks.release ((offset - p.base) / p.chunkSize) (max (p.chunksFor size) 1) = .ok chunks ∧
      p' = { p with chunks, free := p.free + max (p.chunksFor size) 1 } := by
  unfold freeRange Bitmap.allOccupied at h
  simp only at h
  split at h
  · cases h
  obtain ⟨taken, ht, h⟩ := bind_eq_ok.mp h
  obtain ⟨stop, -, ht⟩ := bind_eq_ok.mp ht
  obtain rfl := Except.ok.inj ht
  split at h
  · cases h
  rename_i hocc
  obtain ⟨chunks, hr, h⟩ := bind_eq_ok.mp h
  exact ⟨chunks, by simpa using hocc, hr, (Except.ok.inj h).symm⟩

theorem freeRange_sound (hp : p.Sound) (h : p.freeRange offset size = .ok p') : p.Same p' ∧ p'.Sound := by
  obtain ⟨chunks, -, hr, rfl⟩ := freeRange_release h
  exact ⟨⟨rfl, rfl, rfl, rfl⟩, hp.chunk_pos, (Bitmap.length_of_release hr).trans hp.length,
    Bitmap.sized_of_release hp.sized hr⟩

/-- Giving bytes back frees exactly the chunks that cover them. -/
theorem freeRange_ok (hp : p.Sound) (hsize : 0 < size) (h : p.freeRange offset size = .ok p') :
    p.Same p' ∧ p'.Sound ∧ ∀ j, p'.Taken j ↔ p.Taken j ∧ ¬p.InRun offset size j := by
  obtain ⟨hsame, hsound⟩ := freeRange_sound hp h
  obtain ⟨chunks, -, hr, rfl⟩ := freeRange_release h
  rw [Nat.max_eq_left (chunksFor_pos hp hsize)] at hr
  refine ⟨hsame, hsound, fun j => ?_⟩
  simp only [Taken, InRun, chunkAt, Bitmap.isFree_of_release hp.sized hr, Bool.or_eq_false_iff,
    decide_eq_false_iff_not, and_assoc]

/-- Chunks that are all taken can be given back. -/
theorem freeRange_of_taken (hp : p.Sound) (hf : p.Fits offset size)
    (ht : ∀ j, p.InRun offset size j → p.Taken j) : ∃ p', p.freeRange offset size = .ok p' := by
  have hpos := chunksFor_pos hp hf.pos
  have hrun : max (p.chunksFor size) 1 = p.chunksFor size := Nat.max_eq_left hpos
  have hle : (offset - p.base) / p.chunkSize + p.chunksFor size ≤ p.chunkCount := hf.run_le
  have hocc : p.chunks.allTaken ((offset - p.base) / p.chunkSize) (p.chunksFor size) = true := by
    refine (Bitmap.allTaken_iff ..).mpr fun j hl hu => ?_
    rw [hp.length]
    exact ht j ⟨hl, hu⟩
  rw [← hp.length] at hle
  unfold freeRange
  simp only [hrun]
  rw [if_neg]
  · rw [Bitmap.allOccupied_of_stop (Bitmap.stop_of_le hle), Bitmap.release_of_le hle, hocc]
    exact ⟨_, rfl⟩
  · rw [hp.length] at hle
    have := hf.base_le
    have := hf.aligned
    omega

theorem freeSegment_eq {s : Segment} {batch : Nat} (h : s.kind = .static batch p.id offset) :
    p.freeSegment s = p.freeRange offset s.size := by
  unfold freeSegment
  rw [h]
  simp

end Pool
end TierAlloc
