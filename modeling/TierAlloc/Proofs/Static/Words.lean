import TierAlloc.Proofs.Static.Room

/-!
# The words of a bitmap

A bitmap is read chunk by chunk, but it is kept, and its free chunks are counted, word by
word. The two agree as long as it is `Trim`: it has just the words that its chunks need,
and the bits beyond its length are zero. Then its set bits are its free chunks, and what is
free says everything about it, so that a run that is taken and given back leaves nothing
behind.

**Results.**
* `trim_ofLength`, `trim_of_occupy`, `trim_of_release`: every bitmap stays trim.
* `freeCount_eq`: the set bits of all words are as many as the free chunks.
* `Trim.ext`: trim bitmaps with the same chunks free are equal.
* `release_of_occupy`: giving back a run that was free restores the bitmap.
-/
namespace TierAlloc.Bitmap

/-- There is a word for every chunk, no other word, and no bit set beyond the chunks. -/
structure Trim (b : Bitmap) : Prop where
  size : b.words.size = (b.length + 63) / wordBits
  beyond : ∀ i, b.length ≤ i → (b.word i).toNat.testBit (i % wordBits) = false

variable {b b' : Bitmap} {start run : Nat}

theorem Trim.sized (h : b.Trim) : b.Sized := by
  unfold Sized
  rw [h.size, wordBits]
  omega

/-- The bit of a chunk is set when the chunk is free, for every bit that there is. -/
theorem Trim.testBit (h : b.Trim) (i : Nat) : (b.word i).toNat.testBit (i % wordBits) = b.isFree i := by
  rw [isFree_eq]
  by_cases hi : i < b.length
  · simp [hi]
  · simp [hi, h.beyond i (Nat.le_of_not_lt hi)]

/-! ## Every bitmap is trim -/

theorem trim_ofLength (n : Nat) : (ofLength n).Trim := by
  refine ⟨Array.size_ofFn, fun i hi => ?_⟩
  change n ≤ i at hi
  unfold word
  rw [Array.getD_eq_getD_getElem?]
  by_cases hw : i / wordBits < (ofLength n).words.size
  · rw [Array.getElem?_eq_getElem hw, Option.getD_some]
    have hmask : ¬i % wordBits < min wordBits (n - i / wordBits * wordBits) := by
      unfold wordBits
      omega
    simp only [ofLength, Array.getElem_ofFn]
    rw [toNat_lowMask (Nat.min_le_left _ _), Nat.one_shiftLeft, Nat.testBit_two_pow_sub_one,
      decide_eq_false hmask]
  · rw [Array.getElem?_eq_none (Nat.le_of_not_lt hw)]
    simp

/-- Changing one word leaves a bitmap trim if it sets no bit beyond the chunks. -/
theorem trim_setWord (h : b.Trim) {i : Nat} {f : UInt64 → UInt64}
    (hf : ∀ j, b.length ≤ j → i / wordBits = j / wordBits →
      (f (b.word j)).toNat.testBit (j % wordBits) = false) : (b.setWord i f).Trim := by
  refine ⟨(Array.size_modify ..).trans h.size, fun j hj => ?_⟩
  rw [word_setWord]
  split
  · rename_i hw
    exact hf j hj hw.1
  · exact h.beyond j hj

theorem trim_take (h : b.Trim) (i : Nat) : (b.take i).Trim := by
  refine trim_setWord h fun j hj _ => ?_
  rw [testBit_and_not_bit, h.beyond j hj, Bool.false_and]

theorem trim_give (h : b.Trim) {i : Nat} (hi : i < b.length) : (b.give i).Trim := by
  refine trim_setWord h fun j hj hw => ?_
  have hne : ¬i % wordBits = j % wordBits := by
    rw [mod_eq_iff_of_div_eq hw]
    omega
  rw [testBit_or_bit, h.beyond j hj, Bool.false_or, decide_eq_false hne]

/-- Marking a run of the bitmap leaves it trim, if marking a single chunk does. -/
theorem trim_onRun {f : Bitmap → Nat → Bitmap} (hf : ∀ b i, b.Trim → i < b.length → (f b i).Trim)
    (hlength : ∀ b i, (f b i).length = b.length) (h : b.Trim) (hle : start + run ≤ b.length) :
    (onRun f b start run).Trim := by
  induction run generalizing b start with
  | zero => exact h
  | succ run ih => exact ih (hf b start h (by omega)) (by rw [hlength]; omega)

theorem trim_of_occupy (h : b.Trim) (ho : b.occupy start run = .ok b') : b'.Trim := by
  obtain ⟨hle, rfl⟩ := occupy_eq_ok.mp ho
  exact trim_onRun (fun _ i hb _ => trim_take hb i) length_take h hle

theorem trim_of_release (h : b.Trim) (hr : b.release start run = .ok b') : b'.Trim := by
  obtain ⟨hle, rfl⟩ := release_eq_ok.mp hr
  exact trim_onRun (fun _ _ hb hi => trim_give hb hi) length_give h hle

/-! ## Counting -/

/-- The set bits of a list of words, counted in one row. -/
theorem foldr_popCount (words : List UInt64) :
    words.foldr (fun w n => popCount w + n) 0 =
      (List.range (words.length * wordBits)).countP fun i => words.getD (i / wordBits) 0 &&& bit i != 0 := by
  induction words with
  | nil => rfl
  | cons w rest ih =>
    have hfirst : ∀ i ∈ List.range wordBits, i / wordBits = 0 := fun i hi =>
      Nat.div_eq_of_lt (List.mem_range.mp hi)
    have hnext : ∀ i, (wordBits + i) / wordBits = i / wordBits + 1 := fun i => by
      rw [Nat.add_div_left _ (by decide)]
    have hbit : ∀ i, bit (wordBits + i) = bit i := fun i => by
      rw [bit, Nat.add_mod_left, bit]
    rw [List.foldr_cons, ih, List.length_cons, Nat.succ_mul, Nat.add_comm (rest.length * wordBits),
      List.range_add, List.countP_append, List.countP_map]
    refine congrArg₂ (· + ·) (List.countP_congr fun i hi => ?_) (List.countP_congr fun i _ => ?_)
    · rw [hfirst i hi, List.getD_cons_zero]
    · rw [Function.comp, hnext, hbit, List.getD_cons_succ]

theorem card_filter_range (p : Nat → Bool) (n : Nat) :
    ((Finset.range n).filter fun i => p i = true).card = (List.range n).countP p := by
  rw [List.countP_eq_length_filter, Finset.card_def, Finset.filter_val, Finset.range_val, Multiset.range,
    Multiset.filter_coe, Multiset.coe_card]
  simp

/-- The set bits are as many as the free chunks. -/
theorem freeCount_eq (h : b.Trim) : b.freeCount = b.vacant.card := by
  have hbits : ∀ i, (b.words.toList.getD (i / wordBits) 0 &&& bit i != 0) = b.isFree i := by
    intro i
    rw [← h.testBit, ← and_bit_ne_zero, word, Array.getD_eq_getD_getElem?, List.getD_eq_getElem?_getD,
      Array.getElem?_toList]
  have hvacant : b.vacant = (Finset.range (b.words.size * wordBits)).filter fun i => b.isFree i = true := by
    ext i
    have hlt := fun hf : b.isFree i = true => Nat.lt_of_lt_of_le (lt_of_isFree hf) h.sized
    simp only [mem_vacant, Finset.mem_filter, Finset.mem_range]
    exact ⟨fun hf => ⟨hlt hf, hf⟩, fun hf => hf.2⟩
  rw [freeCount, foldr_popCount, hvacant, Array.length_toList, card_filter_range]
  simp only [hbits]

/-! ## What is free says everything -/

theorem Trim.ext (h : b.Trim) (h' : b'.Trim) (hlength : b'.length = b.length)
    (hfree : ∀ i, b'.isFree i = b.isFree i) : b' = b := by
  have hsize : b'.words.size = b.words.size := by rw [h.size, h'.size, hlength]
  have hwords : b'.words = b.words := by
    refine Array.ext hsize fun k hk' hk => ?_
    rw [← UInt64.toNat_inj]
    apply Nat.eq_of_testBit_eq
    intro j
    by_cases hj : j < wordBits
    · -- bit `j` of word `k` is that of one chunk, or of none
      have hdiv : (k * wordBits + j) / wordBits = k := by
        unfold wordBits at *
        omega
      have hmod : (k * wordBits + j) % wordBits = j := by
        unfold wordBits at *
        omega
      have hbit := h.testBit (k * wordBits + j)
      rw [← hfree, ← h'.testBit, word, word, hdiv, hmod, Array.getD_eq_getD_getElem?,
        Array.getD_eq_getD_getElem?, Array.getElem?_eq_getElem hk, Array.getElem?_eq_getElem hk'] at hbit
      exact hbit.symm
    · have hlow : ∀ w : UInt64, w.toNat.testBit j = false := fun w =>
        Nat.testBit_lt_two_pow (Nat.lt_of_lt_of_le w.toNat_lt
          (Nat.pow_le_pow_right (by decide) (Nat.le_of_not_lt hj)))
      rw [hlow, hlow]
  cases b
  cases b'
  simp only at hlength hwords
  rw [hlength, hwords]

/-- Giving back a run that was free before it was taken restores the bitmap. -/
theorem release_of_occupy (h : b.Trim) (hrun : b.FreeRun start run) (ho : b.occupy start run = .ok b') :
    b'.release start run = .ok b := by
  have htrim := trim_of_occupy h ho
  have hlength := length_of_occupy ho
  have hle : start + run ≤ b'.length := by
    rw [hlength]
    exact (occupy_eq_ok.mp ho).1
  have hr := release_of_le hle
  rw [hr]
  congr 1
  refine h.ext (trim_of_release htrim hr) ((length_of_release hr).trans hlength) fun i => ?_
  rw [isFree_of_release htrim.sized hr, isFree_of_occupy ho]
  by_cases hi : start ≤ i ∧ i < start + run
  · rw [decide_eq_true hi, Bool.or_true, hrun i hi.1 hi.2]
  · rw [decide_eq_false hi, Bool.or_false, Bool.not_false, Bool.and_true]

end TierAlloc.Bitmap
