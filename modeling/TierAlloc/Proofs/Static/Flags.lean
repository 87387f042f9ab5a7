import TierAlloc.Proofs.Memory.Patch
import TierAlloc.Proofs.Static.Words

/-!
# Bitmaps as lists

A bitmap stands for a list of flags, one for each chunk, `true` for a chunk that is free. How it is
kept is not to be seen from outside: words and masks, the unused bits of the last word, and
the search that jumps from word to word. Every change does to the list what it says, or is
refused and does nothing, and every answer is what the list says. Only a run whose end is no
64-bit number is not answered for: such a run cannot even be asked about.

**Results.**
* `getElem?_toList`: the list that a bitmap stands for.
* `toList_apply`: one change, to the bitmap and to the list.
* `refines_flags`: a new bitmap and the list it stands for, after any changes.
* `end_of_run_overflows`: the run for which there is no answer.
-/
namespace TierAlloc.Bitmap

variable {b b' : Bitmap} {start run s i : Nat} {flag : Bool} {flags : List Bool}

/-! ## Lists of flags -/

/-- The list with the flags of a run replaced, if the run is in the list. -/
def paint (flag : Bool) (start run : Nat) (flags : List Bool) : Except Error (List Bool) :=
  if start + run ≤ flags.length then
    .ok (flags.take start ++ List.replicate run flag ++ flags.drop (start + run))
  else .error (if start + run < wordRange then .runOutOfBounds else .overflow .sum)

/-- The run is in the list, and all of it is free. -/
def Spare (flags : List Bool) (run start : Nat) : Prop :=
  start + run ≤ flags.length ∧ ∀ i, start ≤ i → i < start + run → flags[i]? = some true

theorem getElem?_painted (h : start + run ≤ flags.length) (i : Nat) :
    (flags.take start ++ List.replicate run flag ++ flags.drop (start + run))[i]? =
      if start ≤ i ∧ i < start + run then some flag else flags[i]? := by
  have hpart : start + (List.replicate run flag).length ≤ flags.length := by rwa [List.length_replicate]
  have hget := getElem?_replaced hpart i
  rw [List.length_replicate, ← List.append_assoc] at hget
  rw [hget]
  split
  · rw [List.getElem?_replicate, if_pos (by omega)]
  · rfl

theorem length_toList (b : Bitmap) : b.toList.length = b.length := by
  rw [toList, List.length_map, List.length_range]

theorem getElem?_toList (b : Bitmap) (i : Nat) :
    b.toList[i]? = if i < b.length then some (b.isFree i) else none := by
  rw [toList, List.getElem?_map]
  split
  · next h => rw [List.getElem?_range h, Option.map_some]
  · next h => rw [List.getElem?_eq_none (by simpa using h), Option.map_none]

theorem isFree_eq_getD (b : Bitmap) (i : Nat) : b.isFree i = b.toList[i]?.getD false := by
  rw [getElem?_toList]
  split
  · rfl
  · next h =>
    rw [Option.getD_none, ← Bool.not_eq_true]
    exact mt lt_of_isFree h

/-! ## What the list says -/

theorem toList_ofLength (n : Nat) : (ofLength n).toList = List.replicate n true := by
  apply List.ext_getElem?
  intro i
  rw [getElem?_toList, List.getElem?_replicate, isFree_ofLength]
  change (if i < n then _ else _) = _
  split
  · next h => rw [decide_eq_true h]
  · rfl

theorem allTaken_iff_toList : b.allTaken start run = true ↔
    ∀ i, start ≤ i → i < start + run → b.toList[i]? = some false := by
  rw [allTaken_iff]
  simp only [getElem?_toList, Option.ite_none_right_eq_some, Option.some.injEq]

theorem spare_toList_iff (hr : 0 < run) : Spare b.toList run s ↔ b.FreeRun s run := by
  have hflag : ∀ i, b.toList[i]? = some true ↔ b.isFree i = true := fun i => by
    rw [getElem?_toList, Option.ite_none_right_eq_some, Option.some.injEq]
    exact ⟨And.right, fun h => ⟨lt_of_isFree h, h⟩⟩
  unfold Spare
  simp only [hflag, length_toList]
  exact ⟨And.right, fun h => ⟨FreeRun.le_length h hr, h⟩⟩

theorem freeCount_eq_count (h : b.Trim) : b.freeCount = b.toList.count true := by
  rw [freeCount_eq h, vacant, card_filter_range, List.count_eq_countP, toList, List.countP_map]
  refine List.countP_congr fun i _ => ?_
  simp

/-! ## Changes -/

inductive Change where
  | reset
  | occupy (start run : Nat)
  | release (start run : Nat)
  deriving DecidableEq, Repr

namespace Change

/-- What the bitmap becomes. -/
def apply (b : Bitmap) : Change → Except Error Bitmap
  | reset => .ok b.reset
  | occupy start run => b.occupy start run
  | release start run => b.release start run

/-- What the list becomes. -/
def applyFlags (flags : List Bool) : Change → Except Error (List Bool)
  | reset => .ok (List.replicate flags.length true)
  | occupy start run => paint false start run flags
  | release start run => paint true start run flags

end Change

/-- A new bitmap after changes, of which those that are refused do nothing. -/
def after (length : Nat) (changes : List Change) : Bitmap :=
  changes.foldl (fun b c => (c.apply b).toOption.getD b) (ofLength length)

/-- The list for a new bitmap after changes. -/
def flagsAfter (length : Nat) (changes : List Change) : List Bool :=
  changes.foldl (fun flags c => (c.applyFlags flags).toOption.getD flags) (List.replicate length true)

/-- What is free in a run was set to `flag`, and nothing else was changed. -/
theorem toList_painted (hlength : b'.length = b.length) (hle : start + run ≤ b.length)
    (hfree : ∀ i, b'.isFree i = if start ≤ i ∧ i < start + run then flag else b.isFree i) :
    b'.toList = b.toList.take start ++ List.replicate run flag ++ b.toList.drop (start + run) := by
  apply List.ext_getElem?
  intro i
  rw [getElem?_painted (by rwa [length_toList]), getElem?_toList, getElem?_toList, hlength, hfree]
  by_cases hi : start ≤ i ∧ i < start + run
  · rw [if_pos (by omega), if_pos hi, if_pos hi]
  · rw [if_neg hi, if_neg hi]

/-- Marking chunks as `flag`, one after the other, does so to the list. -/
theorem toList_mark {f : Bitmap → Nat → Bitmap} (hlength : ∀ b i, (f b i).length = b.length)
    (hfree : start + run ≤ b.length →
      ∀ i, (onRun f b start run).isFree i = if start ≤ i ∧ i < start + run then flag else b.isFree i) :
    (b.mark f start run).map toList = paint flag start run b.toList := by
  unfold paint
  rw [length_toList]
  by_cases hle : start + run ≤ b.length
  · rw [mark_eq_ok.mpr ⟨hle, rfl⟩, if_pos hle]
    exact congrArg Except.ok (toList_painted (length_onRun f hlength b start run) hle (hfree hle))
  · rw [if_neg hle, mark]
    by_cases hlt : start + run < wordRange
    · simp [stop_of_lt hlt, hle, hlt, bind, Except.bind, Except.map]
    · simp [stop_of_wide (Nat.not_le.mp hle) (Nat.not_lt.mp hlt), hlt, bind, Except.bind, Except.map]

theorem toList_occupy (b : Bitmap) (start run : Nat) :
    (b.occupy start run).map toList = paint false start run b.toList := by
  refine toList_mark length_take fun _ i => ?_
  rw [isFree_onRun_take]
  split <;> simp [*]

theorem toList_release (hs : b.Sized) (start run : Nat) :
    (b.release start run).map toList = paint true start run b.toList := by
  refine toList_mark length_give fun hle i => ?_
  rw [isFree_onRun_give hs hle]
  split <;> simp [*]

/-- A change does to the list what it does to the bitmap, and is refused by both or by none. -/
theorem toList_apply (h : b.Trim) (c : Change) : (c.apply b).map toList = c.applyFlags b.toList := by
  cases c with
  | reset =>
    change Except.ok (ofLength b.length).toList = Except.ok (List.replicate b.toList.length true)
    rw [toList_ofLength, length_toList]
  | occupy start run => exact toList_occupy b start run
  | release start run => exact toList_release h.sized start run

theorem trim_apply (h : b.Trim) {c : Change} (ha : c.apply b = .ok b') : b'.Trim := by
  cases c with
  | reset =>
    rw [← Except.ok.inj ha]
    exact trim_ofLength _
  | occupy start run => exact trim_of_occupy h ha
  | release start run => exact trim_of_release h ha

/-- One change, refused or not. -/
theorem trim_next (h : b.Trim) (c : Change) : ((c.apply b).toOption.getD b).Trim := by
  cases ha : c.apply b with
  | ok b' => exact trim_apply h ha
  | error e => exact h

theorem toList_next (h : b.Trim) (c : Change) :
    ((c.apply b).toOption.getD b).toList = (c.applyFlags b.toList).toOption.getD b.toList := by
  rw [← toList_apply h]
  cases c.apply b <;> rfl

theorem after_spec (length : Nat) (changes : List Change) :
    (after length changes).Trim ∧ (after length changes).toList = flagsAfter length changes := by
  unfold after flagsAfter
  rw [← toList_ofLength]
  have htrim := trim_ofLength length
  -- the later changes find a bitmap that is no longer new, but still trim
  generalize ofLength length = b at htrim
  induction changes generalizing b with
  | nil => exact ⟨htrim, rfl⟩
  | cons c rest ih =>
    rw [List.foldl_cons, List.foldl_cons, ← toList_next htrim c]
    exact ih _ (trim_next htrim c)

/-! ## Answers -/

/-- Whatever is asked of the bitmap, the answer is what the list says. -/
structure Refines (b : Bitmap) (flags : List Bool) : Prop where
  length : b.length = flags.length
  words : b.words.size = (flags.length + 63) / wordBits
  /-- The bits beyond the last chunk are zero. -/
  beyond : ∀ i, flags.length ≤ i → (b.word i).toNat.testBit (i % wordBits) = false
  isFree : ∀ i, b.isFree i = flags[i]?.getD false
  freeCount : b.freeCount = flags.count true
  allOccupied : ∀ start run, start + run < wordRange → ∃ answer, b.allOccupied start run = .ok answer ∧
    (answer = true ↔ ∀ i, start ≤ i → i < start + run → flags[i]? = some false)
  /-- There is no answer for a run far beyond the bitmap. -/
  unanswered : ∀ start run, flags.length < start + run → wordRange ≤ start + run →
    b.allOccupied start run = .error (.overflow .sum)
  found : ∀ run start, b.fit? run = some start ↔ 0 < run ∧ IsLeast {s | Spare flags run s} start
  unfound : ∀ run, b.fit? run = none ↔ run = 0 ∨ ∀ start, ¬Spare flags run start
  /-- A change is answered as by the list, and refused as by the list. -/
  changed : ∀ c : Change, (c.apply b).map toList = c.applyFlags flags

theorem Trim.refines (h : b.Trim) : b.Refines b.toList where
  length := (length_toList b).symm
  words := by rw [h.size, length_toList]
  beyond i hi := h.beyond i (by rwa [length_toList] at hi)
  isFree := isFree_eq_getD b
  freeCount := freeCount_eq_count h
  allOccupied _ _ h := ⟨_, allOccupied_of_stop (stop_of_lt h), allTaken_iff_toList⟩
  unanswered start run h hwide := by
    rw [length_toList] at h
    rw [Bitmap.allOccupied, stop_of_wide h hwide]
    rfl
  found run start := by
    rw [fit?_eq_some_iff]
    refine and_congr_right fun hr => ?_
    simp only [spare_toList_iff hr]
  unfound run := by
    rw [fit?_eq_none_iff]
    rcases Nat.eq_zero_or_pos run with rfl | hr
    · simp
    · simp only [spare_toList_iff hr]
  changed := toList_apply h

/-- **Bitmaps as lists.** A new bitmap, after any changes in any order, answers as the list of
its chunks after these changes does, wherever it answers at all. -/
theorem refines_flags (length : Nat) (changes : List Change) :
    (after length changes).Refines (flagsAfter length changes) := by
  obtain ⟨htrim, hlist⟩ := after_spec length changes
  rw [← hlist]
  exact htrim.refines

/-- **Counterexample**: the chunk is not there, so it is not taken, and this is not what one gets to hear
when asking for it. -/
theorem end_of_run_overflows :
    (¬∀ i, wordRange - 1 ≤ i → i < wordRange - 1 + 1 → (flagsAfter 1 [])[i]? = some false) ∧
      (after 1 []).allOccupied (wordRange - 1) 1 = .error (.overflow .sum) :=
  ⟨fun h => absurd (h (wordRange - 1) (Nat.le_refl _) (Nat.lt_succ_self _)) (by decide),
    by decide +kernel⟩

/-- A run that begins in one word and ends in the next is found, and a word that is all taken is
passed over. -/
example : (after 200 [.occupy 0 60]).fit? 10 = some 60 ∧
    (after 200 [.occupy 0 60, .occupy 60 68]).fit? 1 = some 128 := by decide +kernel

end TierAlloc.Bitmap
