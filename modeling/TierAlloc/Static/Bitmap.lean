import TierAlloc.Word

/-!
# Chunk bitmaps

Which chunks of a pool are free, one bit a chunk (set = free), 64 to a word, the
least significant bit first. The bits of the last word beyond `length` are zero.

The view is `isFree`. `fit?` is the first fit: it walks the chunks in order,
keeps the length of the free run that ends at the current one, and jumps over
words with no free chunk. `occupy` and `release` refuse a run that ends beyond
the bitmap and otherwise change exactly the run. They and `allOccupied` first work
out where the run ends (`stop`), which a run far beyond the bitmap does at no 64-bit
number.

**Results.**
* `stop_of_le`, `stop_of_lt`, `stop_of_wide`, `stop_eq_add`: the end of a run.
* `occupy_eq_ok`, `release_eq_ok`: the runs that can be marked are those in the bitmap.
* `isFree_take`, `isFree_give`: marking one chunk, through the view.
* `isFree_of_occupy`: what is free after a run was occupied.
* `length_of_occupy`, `length_of_release`: no operation changes the length.
-/
namespace TierAlloc

/-- Chunks tracked by one word. -/
def wordBits : Nat := 64

/-- One bit for each of `length` chunks.
mirrors `ChunkBitmap` -/
structure Bitmap where
  length : Nat
  words : Array UInt64
  deriving DecidableEq, Repr

namespace Bitmap

/-- The word whose lowest `n` bits are set, of at most 64. -/
def lowMask (n : Nat) : UInt64 := UInt64.ofNat (1 <<< n - 1)

def bit (i : Nat) : UInt64 := 1 <<< UInt64.ofNat (i % wordBits)

/-- `length` chunks, all free.
mirrors `ChunkBitmap.new` -/
def ofLength (length : Nat) : Bitmap where
  length
  words := Array.ofFn fun i : Fin ((length + 63) / wordBits) =>
    lowMask (min wordBits (length - i * wordBits))

/-- The same chunks, all free.
mirrors `ChunkBitmap.reset` -/
def reset (b : Bitmap) : Bitmap := ofLength b.length

def word (b : Bitmap) (i : Nat) : UInt64 := b.words.getD (i / wordBits) 0

/-- Chunk `i` is free; a chunk past the end never is.
mirrors `ChunkBitmap.is_free` -/
def isFree (b : Bitmap) (i : Nat) : Bool := i < b.length && b.word i &&& bit i != 0

theorem toNat_bit (i : Nat) : (bit i).toNat = 1 <<< (i % wordBits) := by
  have h : i % wordBits < 64 := Nat.mod_lt i (by decide)
  have hp : 2 ^ (i % wordBits) < 2 ^ 64 := Nat.pow_lt_pow_right (by decide) h
  have hm : i % wordBits % 2 ^ 64 % 64 = i % wordBits := by omega
  rw [bit, UInt64.toNat_shiftLeft, UInt64.toNat_ofNat', hm, Nat.shiftLeft_eq, Nat.shiftLeft_eq]
  simpa using Nat.mod_eq_of_lt hp

theorem and_bit_ne_zero (w : UInt64) (i : Nat) :
    (w &&& bit i != 0) = w.toNat.testBit (i % wordBits) := by
  have h : (w &&& bit i = 0) ↔ w.toNat.testBit (i % wordBits) = false := by
    rw [← UInt64.toNat_inj, UInt64.toNat_and, toNat_bit, Nat.one_shiftLeft, UInt64.toNat_zero]
    constructor
    · intro h
      have := congrArg (·.testBit (i % wordBits)) h
      simpa using this
    · intro h
      apply Nat.eq_of_testBit_eq
      intro k
      by_cases hk : i % wordBits = k
      · subst hk
        simp [h]
      · simp [hk]
  cases hb : w.toNat.testBit (i % wordBits) <;> simp [h, hb]

theorem testBit_or_bit (w : UInt64) (i j : Nat) :
    (w ||| bit i).toNat.testBit j = (w.toNat.testBit j || decide (i % wordBits = j)) := by
  rw [UInt64.toNat_or, toNat_bit, Nat.one_shiftLeft, Nat.testBit_or, Nat.testBit_two_pow]

theorem testBit_and_not_bit (w : UInt64) (i j : Nat) :
    (w &&& ~~~(bit i)).toNat.testBit j = (w.toNat.testBit j && !decide (i % wordBits = j)) := by
  rw [UInt64.toNat_and, UInt64.toNat_not, Nat.testBit_and]
  by_cases hj : j < 64
  · have hx := (bit i).toNat_lt
    have he : UInt64.size - 1 - (bit i).toNat = 2 ^ 64 - ((bit i).toNat + 1) := by
      have : UInt64.size = 2 ^ 64 := rfl
      omega
    rw [he, Nat.testBit_two_pow_sub_succ hx, toNat_bit, Nat.one_shiftLeft, Nat.testBit_two_pow]
    simp [hj]
  · have : w.toNat.testBit j = false :=
      Nat.testBit_lt_two_pow (Nat.lt_of_lt_of_le w.toNat_lt
        (Nat.pow_le_pow_right (by decide) (by omega)))
    simp [this]

/-- A chunk is free when its bit is set. -/
theorem isFree_eq (b : Bitmap) (i : Nat) :
    b.isFree i = (decide (i < b.length) && (b.word i).toNat.testBit (i % wordBits)) := by
  rw [isFree, and_bit_ne_zero]

/-- Number of set bits. -/
def popCount (w : UInt64) : Nat := (List.range wordBits).countP fun i => w &&& bit i != 0

/-- Mirrors `ChunkBitmap.count_free`. -/
def freeCount (b : Bitmap) : Nat := b.words.toList.foldr (fun w n => popCount w + n) 0

/-- The search of `fit?` at chunk `i`, with `found` free chunks from `start` on
directly before it. -/
def fitFrom (b : Bitmap) (run start found i : Nat) : Option Nat :=
  if h : i < b.length then
    if i % wordBits = 0 ∧ b.word i = 0 then
      b.fitFrom run (i + wordBits) 0 (i + wordBits)
    else if b.isFree i then
      let start := if found = 0 then i else start
      if found + 1 = run then some start else b.fitFrom run start (found + 1) (i + 1)
    else b.fitFrom run start 0 (i + 1)
  else none
termination_by b.length - i
decreasing_by all_goals have hw : wordBits = 64 := rfl; omega

/-- Start of the first run of `run` free chunks.
mirrors `ChunkBitmap.first_fit` -/
def fit? (b : Bitmap) (run : Nat) : Option Nat :=
  if run = 0 ∨ b.length < run then none else b.fitFrom run 0 0 0

/-- Where a run of chunks ends. In the bitmap this is a 64-bit number, since the length is one. -/
def stop (b : Bitmap) (start run : Nat) : Except Error Nat :=
  if start + run ≤ b.length then .ok (start + run) else Word.add start run

/-- Every chunk of the run exists and is taken; decided at the first that is not. -/
def allTaken (b : Bitmap) (start : Nat) : Nat → Bool
  | 0 => true
  | run + 1 => start < b.length && !b.isFree start && b.allTaken (start + 1) run

/-- Whether every chunk of the run exists and is taken.
mirrors `ChunkBitmap.all_occupied` -/
def allOccupied (b : Bitmap) (start run : Nat) : Except Error Bool := do
  let _ ← b.stop start run
  pure (b.allTaken start run)

def setWord (b : Bitmap) (i : Nat) (f : UInt64 → UInt64) : Bitmap :=
  { b with words := b.words.modify (i / wordBits) f }

/-- Marks chunk `i` taken. -/
def take (b : Bitmap) (i : Nat) : Bitmap := b.setWord i fun w => w &&& ~~~(bit i)

/-- Marks chunk `i` free. -/
def give (b : Bitmap) (i : Nat) : Bitmap := b.setWord i fun w => w ||| bit i

/-- Applies `f` to each chunk of a run. -/
def onRun (f : Bitmap → Nat → Bitmap) (b : Bitmap) (start : Nat) : Nat → Bitmap
  | 0 => b
  | run + 1 => onRun f (f b start) (start + 1) run

/-- Applies `f` to each chunk of a run of the bitmap. -/
def mark (f : Bitmap → Nat → Bitmap) (b : Bitmap) (start run : Nat) : Except Error Bitmap := do
  let stop ← b.stop start run
  if stop ≤ b.length then .ok (onRun f b start run) else .error .runOutOfBounds

/-- Marks a run taken.
mirrors `ChunkBitmap.occupy` -/
def occupy (b : Bitmap) (start run : Nat) : Except Error Bitmap := b.mark take start run

/-- Marks a run free.
mirrors `ChunkBitmap.release` -/
def release (b : Bitmap) (start run : Nat) : Except Error Bitmap := b.mark give start run

def toList (b : Bitmap) : List Bool := (List.range b.length).map b.isFree

/-- The maximal runs of equal chunks, in order, each with its state and length. -/
def runs (b : Bitmap) : List (Bool × Nat) :=
  b.toList.foldr (fun free rs =>
    match rs with
    | (state, n) :: rest => if state = free then (state, n + 1) :: rest else (free, 1) :: rs
    | [] => [(free, 1)]) []

@[simp] theorem length_take (b : Bitmap) (i : Nat) : (b.take i).length = b.length := rfl

@[simp] theorem length_give (b : Bitmap) (i : Nat) : (b.give i).length = b.length := rfl

@[simp] theorem length_reset (b : Bitmap) : b.reset.length = b.length := rfl

theorem word_setWord (b : Bitmap) (i j : Nat) (f : UInt64 → UInt64) :
    (b.setWord i f).word j =
      if i / wordBits = j / wordBits ∧ j / wordBits < b.words.size then f (b.word j)
      else b.word j := by
  unfold setWord word
  by_cases hs : j / wordBits < b.words.size
  · by_cases h : i / wordBits = j / wordBits
    · simp [Array.getD, hs, h, Array.getElem_modify]
    · simp [Array.getD, hs, h, Array.getElem_modify]
  · simp [Array.getD, hs]

theorem mod_eq_iff_of_div_eq {i j : Nat} (h : i / wordBits = j / wordBits) :
    i % wordBits = j % wordBits ↔ j = i := by
  have hi := Nat.div_add_mod i wordBits
  have hj := Nat.div_add_mod j wordBits
  rw [h] at hi
  omega

/-- Taking a chunk makes it not free, and changes no other. -/
theorem isFree_take (b : Bitmap) (i j : Nat) :
    (b.take i).isFree j = (b.isFree j && j != i) := by
  rw [isFree_eq, isFree_eq, length_take, take, word_setWord]
  split
  · next h =>
    rw [testBit_and_not_bit, Bool.and_assoc]
    simp only [mod_eq_iff_of_div_eq h.1]
    rfl
  · next h =>
    by_cases hj : j = i
    · subst hj
      have hs : ¬ j / wordBits < b.words.size := fun hs => h ⟨rfl, hs⟩
      simp [word, Array.getD, hs]
    · simp [hj]

/-- Giving a chunk of the bitmap makes it free, and changes no other. -/
theorem isFree_give (b : Bitmap) {i : Nat} (hi : i < b.length)
    (hw : i / wordBits < b.words.size) (j : Nat) :
    (b.give i).isFree j = (b.isFree j || j == i) := by
  rw [isFree_eq, isFree_eq, length_give, give, word_setWord]
  split
  · next h =>
    rw [testBit_or_bit]
    by_cases hj : j = i
    · subst hj
      simp [hi]
    · simp [mod_eq_iff_of_div_eq h.1, hj]
  · next h =>
    by_cases hj : j = i
    · subst hj
      exact absurd ⟨rfl, hw⟩ h
    · simp [hj]

theorem length_onRun (f : Bitmap → Nat → Bitmap) (hf : ∀ b i, (f b i).length = b.length)
    (b : Bitmap) (start run : Nat) : (onRun f b start run).length = b.length := by
  induction run generalizing b start with
  | zero => rfl
  | succ run ih => rw [onRun, ih, hf]

theorem stop_of_le {b : Bitmap} {start run : Nat} (h : start + run ≤ b.length) :
    b.stop start run = .ok (start + run) := if_pos h

theorem stop_of_lt {b : Bitmap} {start run : Nat} (h : start + run < wordRange) :
    b.stop start run = .ok (start + run) := by
  rw [stop, Word.add_of_lt h, ite_self]

theorem stop_of_wide {b : Bitmap} {start run : Nat} (hb : b.length < start + run)
    (h : wordRange ≤ start + run) : b.stop start run = .error (.overflow .sum) := by
  rw [stop, if_neg (Nat.not_le.mpr hb), Word.add_of_le h]

/-- The end of a run is the sum of two 64-bit numbers, if the length of the bitmap is one. -/
theorem stop_eq_add {b : Bitmap} (hb : b.length < wordRange) (start run : Nat) :
    b.stop start run = Word.add start run := by
  unfold stop
  split
  · next h => rw [Word.add_of_lt (Nat.lt_of_le_of_lt h hb)]
  · rfl

theorem mark_eq_ok {f : Bitmap → Nat → Bitmap} {b b' : Bitmap} {start run : Nat} :
    b.mark f start run = .ok b' ↔ start + run ≤ b.length ∧ b' = onRun f b start run := by
  unfold mark
  by_cases h : start + run ≤ b.length
  · simp only [stop_of_le h, h, true_and, bind, Except.bind, if_true, Except.ok.injEq, eq_comm]
  · by_cases hw : start + run < wordRange
    · simp [stop_of_lt hw, h, bind, Except.bind]
    · simp [stop_of_wide (Nat.not_le.mp h) (Nat.not_lt.mp hw), h, bind, Except.bind]

/-- A run that can be marked ends in the bitmap. -/
theorem occupy_eq_ok {b b' : Bitmap} {start run : Nat} :
    b.occupy start run = .ok b' ↔ start + run ≤ b.length ∧ b' = onRun take b start run := mark_eq_ok

theorem release_eq_ok {b b' : Bitmap} {start run : Nat} :
    b.release start run = .ok b' ↔ start + run ≤ b.length ∧ b' = onRun give b start run := mark_eq_ok

theorem occupy_of_le {b : Bitmap} {start run : Nat} (h : start + run ≤ b.length) :
    b.occupy start run = .ok (onRun take b start run) := occupy_eq_ok.mpr ⟨h, rfl⟩

theorem release_of_le {b : Bitmap} {start run : Nat} (h : start + run ≤ b.length) :
    b.release start run = .ok (onRun give b start run) := release_eq_ok.mpr ⟨h, rfl⟩

theorem length_of_occupy {b b' : Bitmap} {start run : Nat} (h : b.occupy start run = .ok b') :
    b'.length = b.length := by
  rw [(occupy_eq_ok.mp h).2, length_onRun _ length_take]

theorem isFree_onRun_take (b : Bitmap) (start run j : Nat) :
    (onRun take b start run).isFree j = (b.isFree j && !decide (start ≤ j ∧ j < start + run)) := by
  induction run generalizing b start with
  | zero =>
    have h : ¬(start ≤ j ∧ j < start + 0) := by omega
    rw [onRun, decide_eq_false h, Bool.not_false, Bool.and_true]
  | succ run ih =>
    rw [onRun, ih, isFree_take, Bool.and_assoc]
    congr 1
    rw [Bool.eq_iff_iff]
    simp only [Bool.and_eq_true, bne_iff_ne, Bool.not_eq_true', decide_eq_false_iff_not]
    omega

/-- Occupying a run takes its chunks and no others. -/
theorem isFree_of_occupy {b b' : Bitmap} {start run : Nat} (h : b.occupy start run = .ok b')
    (j : Nat) : b'.isFree j = (b.isFree j && !decide (start ≤ j ∧ j < start + run)) := by
  rw [(occupy_eq_ok.mp h).2, isFree_onRun_take]

theorem length_of_release {b b' : Bitmap} {start run : Nat} (h : b.release start run = .ok b') :
    b'.length = b.length := by
  rw [(release_eq_ok.mp h).2, length_onRun _ length_give]

end Bitmap
end TierAlloc
