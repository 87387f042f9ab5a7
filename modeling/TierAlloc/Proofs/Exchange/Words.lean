import Mathlib.Logic.Function.Basic
import TierAlloc.Proofs.Memory.Patch
import TierAlloc.Cache.Handoff

/-!
# The words of an exchange region

All that owner and peers tell each other stands in the header and in the control
blocks. `Exchange.words` shows the four words of each control block at once and
`Exchange.header` the three words of the header that are written once. What an
operation does to the region is an equation about these two and a `Patch`.

**Results.**
* `words_setLock`, `words_setSignal`, `words_setPayloadLength`, `words_setSegment`:
  a setter changes its own word of its own area.
* `words_freeArea`, `words_release`: an area that is given back has the words of a
  free one.
* `words_store_data`: data never reaches a word.
-/
namespace TierAlloc

/-- The words of a control block. -/
structure AreaWords where
  lock : Nat
  signal : Nat
  length : Nat
  segment : Nat

/-- What the words of a free area are. -/
def AreaWords.free : AreaWords := ⟨Exchange.unlocked, Signal.idle, 0, Exchange.noSegment⟩

/-- The words of the header that nobody changes once the region is made. -/
structure ExchangeHeader where
  mark : Nat
  areaCount : Nat
  areaSize : Nat

namespace Exchange

variable (x : Exchange)

def words (shm : Shm) (area : Nat) : AreaWords :=
  ⟨x.lock shm area, x.signal shm area, x.payloadLength shm area, x.segment shm area⟩

def header (shm : Shm) : ExchangeHeader :=
  ⟨shm.word64 x.region Layout.markOffset, shm.word32 x.region Layout.areaCountOffset,
    shm.word32 x.region Layout.areaSizeOffset⟩

/-- The header of an exchange region with this layout. -/
def announcement (l : Layout) : ExchangeHeader := ⟨mark, l.areaCount, l.areaSize⟩

/-- Position `k` of the region is in the control block of the area. -/
def InControl (area k : Nat) : Prop :=
  Layout.controlOffset area ≤ k ∧ k < Layout.controlOffset (area + 1)

/-- Position `k` of the region is in the data of the area. -/
def InArea (area k : Nat) : Prop :=
  x.layout.areaOffset area ≤ k ∧ k < x.layout.areaOffset (area + 1)

variable {x} {shm shm' : Shm} {P : Nat → Prop}

section
variable {area : Nat} {w : AreaWords} (h : x.words shm area = w)

include h

theorem lock_of_words : x.lock shm area = w.lock := by rw [← h, words]

theorem signal_of_words : x.signal shm area = w.signal := by rw [← h, words]

theorem payloadLength_of_words : x.payloadLength shm area = w.length := by rw [← h, words]

theorem segment_of_words : x.segment shm area = w.segment := by rw [← h, words]

end

theorem words_eq_of_patch (h : Shm.Patch x.region.object P shm shm') (area : Nat)
    (hp : ∀ k, InControl area k → ¬P k) : x.words shm' area = x.words shm area := by
  have hc : ∀ k, Layout.controlOffset area ≤ k → k < Layout.controlOffset area + 24 → ¬P k := by
    intro k hl hu
    apply hp k ⟨hl, _⟩
    simp only [Layout.controlOffset, Layout.blockSize] at hu ⊢
    omega
  unfold words lock signal payloadLength segment
  rw [h.word32_eq x.region (Layout.lockOffset area), h.word32_eq x.region (Layout.signalOffset area),
    h.word64_eq x.region (Layout.lengthOffset area), h.word64_eq x.region (Layout.segmentOffset area)]
  all_goals
    right
    intro k hl hu
    simp only [Layout.lockOffset, Layout.signalOffset, Layout.lengthOffset,
      Layout.segmentOffset] at hl hu
    exact hc k (by omega) (by omega)

theorem header_eq_of_patch (h : Shm.Patch x.region.object P shm shm')
    (hp : ∀ k, k < Layout.releasesOffset → ¬P k) : x.header shm' = x.header shm := by
  unfold header
  rw [h.word64_eq x.region Layout.markOffset, h.word32_eq x.region Layout.areaCountOffset,
    h.word32_eq x.region Layout.areaSizeOffset]
  all_goals
    right
    intro k _ hu
    simp only [Layout.markOffset, Layout.areaCountOffset, Layout.areaSizeOffset] at hu
    exact hp k (by simp only [Layout.releasesOffset]; omega)

theorem not_inControl_of_ne {area b k : Nat} (hb : b ≠ area) (hk : InControl b k) :
    ¬InControl area k := by
  simp only [InControl, Layout.controlOffset, Layout.blockSize] at hk ⊢
  rcases Nat.lt_or_gt_of_ne hb with h | h <;> omega

/-! ## Setters -/

section
variable (x) (area n : Nat) (shm : Shm)

theorem patch_setLock : Shm.Patch x.region.object (InControl area) shm (x.setLock area n shm) := by
  refine (shm.patch_store ..).mono fun k hk => ?_
  simp only [Bytes.length_ofNat, Layout.lockOffset] at hk
  simp only [InControl, Layout.controlOffset, Layout.blockSize] at hk ⊢
  omega

theorem patch_setSignal :
    Shm.Patch x.region.object (InControl area) shm (x.setSignal area n shm) := by
  refine (shm.patch_store ..).mono fun k hk => ?_
  simp only [Bytes.length_ofNat, Layout.signalOffset] at hk
  simp only [InControl, Layout.controlOffset, Layout.blockSize] at hk ⊢
  omega

theorem patch_setPayloadLength :
    Shm.Patch x.region.object (InControl area) shm (x.setPayloadLength area n shm) := by
  refine (shm.patch_store ..).mono fun k hk => ?_
  simp only [Bytes.length_ofNat, Layout.lengthOffset] at hk
  simp only [InControl, Layout.controlOffset, Layout.blockSize] at hk ⊢
  omega

theorem patch_setSegment :
    Shm.Patch x.region.object (InControl area) shm (x.setSegment area n shm) := by
  refine (shm.patch_store ..).mono fun k hk => ?_
  simp only [Bytes.length_ofNat, Layout.segmentOffset] at hk
  simp only [InControl, Layout.controlOffset, Layout.blockSize] at hk ⊢
  omega

@[simp] theorem size_setLock : (x.setLock area n shm).objects.size = shm.objects.size :=
  Shm.size_store ..

@[simp] theorem size_setSignal : (x.setSignal area n shm).objects.size = shm.objects.size :=
  Shm.size_store ..

@[simp] theorem size_setPayloadLength :
    (x.setPayloadLength area n shm).objects.size = shm.objects.size := Shm.size_store ..

@[simp] theorem size_setSegment : (x.setSegment area n shm).objects.size = shm.objects.size :=
  Shm.size_store ..

end

/-- Storing in one control block, through its own words. -/
theorem words_eq_update {area : Nat} {w : AreaWords}
    (h : Shm.Patch x.region.object (InControl area) shm shm') (hw : x.words shm' area = w) :
    x.words shm' = Function.update (x.words shm) area w := by
  funext b
  by_cases hb : b = area
  · rw [hb, Function.update_self, hw]
  · rw [Function.update_of_ne hb]
    exact words_eq_of_patch h b fun k hk => not_inControl_of_ne hb hk

section
variable (hx : x.region.object < shm.objects.size) (area n : Nat)

include hx

theorem words_setLock : x.words (x.setLock area n shm) =
    Function.update (x.words shm) area { x.words shm area with lock := n % halfRange } := by
  refine words_eq_update (x.patch_setLock area n shm) ?_
  rw [words, words, AreaWords.mk.injEq]
  refine ⟨shm.word32_setWord32 hx _ _, ?_, ?_, ?_⟩
  · exact shm.word32_store_of_disjoint _ _ _ _ (Or.inr (by simp [Layout.lockOffset, Layout.signalOffset]))
  · exact shm.word64_store_of_disjoint _ _ _ _ (Or.inr (by simp [Layout.lockOffset, Layout.lengthOffset]))
  · exact shm.word64_store_of_disjoint _ _ _ _ (Or.inr (by simp [Layout.lockOffset, Layout.segmentOffset]))

theorem words_setSignal : x.words (x.setSignal area n shm) =
    Function.update (x.words shm) area { x.words shm area with signal := n % halfRange } := by
  refine words_eq_update (x.patch_setSignal area n shm) ?_
  rw [words, words, AreaWords.mk.injEq]
  refine ⟨?_, shm.word32_setWord32 hx _ _, ?_, ?_⟩
  · exact shm.word32_store_of_disjoint _ _ _ _ (Or.inl (by simp [Layout.lockOffset, Layout.signalOffset]))
  · exact shm.word64_store_of_disjoint _ _ _ _ (Or.inr (by simp [Layout.signalOffset, Layout.lengthOffset]))
  · exact shm.word64_store_of_disjoint _ _ _ _ (Or.inr (by simp [Layout.signalOffset, Layout.segmentOffset]))

theorem words_setPayloadLength : x.words (x.setPayloadLength area n shm) =
    Function.update (x.words shm) area { x.words shm area with length := n % wordRange } := by
  refine words_eq_update (x.patch_setPayloadLength area n shm) ?_
  rw [words, words, AreaWords.mk.injEq]
  refine ⟨?_, ?_, shm.word64_setWord64 hx _ _, ?_⟩
  · exact shm.word32_store_of_disjoint _ _ _ _ (Or.inl (by simp [Layout.lockOffset, Layout.lengthOffset]))
  · exact shm.word32_store_of_disjoint _ _ _ _ (Or.inl (by simp [Layout.signalOffset, Layout.lengthOffset]))
  · exact shm.word64_store_of_disjoint _ _ _ _ (Or.inr (by simp [Layout.lengthOffset, Layout.segmentOffset]))

theorem words_setSegment : x.words (x.setSegment area n shm) =
    Function.update (x.words shm) area { x.words shm area with segment := n % wordRange } := by
  refine words_eq_update (x.patch_setSegment area n shm) ?_
  rw [words, words, AreaWords.mk.injEq]
  refine ⟨?_, ?_, ?_, shm.word64_setWord64 hx _ _⟩
  · exact shm.word32_store_of_disjoint _ _ _ _ (Or.inl (by simp [Layout.lockOffset, Layout.segmentOffset]))
  · exact shm.word32_store_of_disjoint _ _ _ _ (Or.inl (by simp [Layout.signalOffset, Layout.segmentOffset]))
  · exact shm.word64_store_of_disjoint _ _ _ _ (Or.inl (by simp [Layout.lengthOffset, Layout.segmentOffset]))

end

theorem segment_setSignal (x : Exchange) (area n : Nat) (shm : Shm) :
    x.segment (x.setSignal area n shm) area = x.segment shm area :=
  shm.word64_store_of_disjoint _ _ _ _
    (Or.inr (by simp [Layout.signalOffset, Layout.segmentOffset]))

theorem length_setSignal (x : Exchange) (area n : Nat) (shm : Shm) :
    x.payloadLength (x.setSignal area n shm) area = x.payloadLength shm area :=
  shm.word64_store_of_disjoint _ _ _ _
    (Or.inr (by simp [Layout.signalOffset, Layout.lengthOffset]))

/-! ## Operations of the owner -/

theorem not_inControl_header {area k : Nat} (hk : k < Layout.releasesOffset + 4) :
    ¬InControl area k := by
  simp only [Layout.releasesOffset] at hk
  simp only [InControl, Layout.controlOffset, Layout.blockSize]
  omega

theorem header_eq_of_control {area : Nat} (h : Shm.Patch x.region.object (InControl area) shm shm') :
    x.header shm' = x.header shm :=
  header_eq_of_patch h fun _ hk => not_inControl_header (by omega)

section
variable (x) (area : Nat) (shm : Shm)

theorem patch_freeArea : Shm.Patch x.region.object (InControl area) shm (x.freeArea area shm) :=
  (((x.patch_setSegment area _ shm).trans (x.patch_setPayloadLength area _ _)).trans
    (x.patch_setSignal area _ _)).trans (x.patch_setLock area _ _)

/-- Positions that giving an area back may change: its control block and the
counter of releases. -/
def InRelease (k : Nat) : Prop :=
  InControl area k ∨ Layout.releasesOffset ≤ k ∧ k < Layout.releasesOffset + 4

theorem patch_release : Shm.Patch x.region.object (InRelease area) shm (x.release area shm) := by
  refine ((x.patch_freeArea area shm).mono fun k hk => Or.inl hk).trans ?_
  refine (Shm.patch_store _ _ _ _).mono fun k hk => Or.inr ?_
  rwa [Bytes.length_ofNat] at hk

theorem header_release : x.header (x.release area shm) = x.header shm := by
  refine header_eq_of_patch (x.patch_release area shm) fun k hk => ?_
  rintro (h | h)
  · exact not_inControl_header (by omega) h
  · omega

@[simp] theorem size_release : (x.release area shm).objects.size = shm.objects.size :=
  (x.patch_release area shm).count

end

section
variable (hx : x.region.object < shm.objects.size)

include hx

theorem words_freeArea (area : Nat) :
    x.words (x.freeArea area shm) = Function.update (x.words shm) area .free := by
  unfold freeArea
  rw [words_setLock (by simpa using hx), words_setSignal (by simpa using hx),
    words_setPayloadLength (by simpa using hx), words_setSegment hx]
  simp only [Function.update_idem, Function.update_self]
  congr 1

theorem words_release (area : Nat) :
    x.words (x.release area shm) = Function.update (x.words shm) area .free := by
  rw [← words_freeArea hx]
  funext b
  refine words_eq_of_patch (Shm.patch_store _ _ _ _) b fun k hk h => ?_
  rw [Bytes.length_ofNat] at h
  exact not_inControl_header h.2 hk

end

/-! ## Data -/

/-- No control block of the region reaches into its data. -/
theorem inControl_lt_dataStart {area k : Nat} (ha : area < x.layout.areaCount)
    (hk : InControl area k) : k < x.layout.dataStart := by
  simp only [InControl, Layout.controlOffset, Layout.blockSize] at hk
  simp only [Layout.dataStart, Layout.controlOffset, Layout.blockSize]
  omega

theorem releases_lt_dataStart (l : Layout) : Layout.releasesOffset + 4 ≤ l.dataStart := by
  simp only [Layout.releasesOffset, Layout.dataStart, Layout.controlOffset, Layout.blockSize]
  omega

theorem dataStart_le_areaOffset (l : Layout) (area : Nat) : l.dataStart ≤ l.areaOffset area :=
  Nat.le_add_right ..

theorem areaOffset_succ (l : Layout) (area : Nat) :
    l.areaOffset (area + 1) = l.areaOffset area + l.areaSize := by
  simp only [Layout.areaOffset, Nat.succ_mul, Nat.add_assoc]

theorem areaOffset_mono (l : Layout) {area b : Nat} (h : area ≤ b) :
    l.areaOffset area ≤ l.areaOffset b :=
  Nat.add_le_add_left (Nat.mul_le_mul_right _ h) _

/-- Data of different areas is apart. -/
theorem areaOffset_apart (l : Layout) {area b : Nat} (h : b ≠ area) :
    l.areaOffset area + l.areaSize ≤ l.areaOffset b ∨
      l.areaOffset b + l.areaSize ≤ l.areaOffset area := by
  rw [← areaOffset_succ, ← areaOffset_succ]
  rcases Nat.lt_or_gt_of_ne h with h | h
  · exact Or.inr (areaOffset_mono l h)
  · exact Or.inl (areaOffset_mono l h)

theorem words_store_data {offset : Nat} (data : Bytes) (ho : x.layout.dataStart ≤ offset)
    {area : Nat} (ha : area < x.layout.areaCount) :
    x.words (shm.store x.region offset data) area = x.words shm area := by
  refine words_eq_of_patch (Shm.patch_store _ _ _ _) area fun k hk h => ?_
  have := inControl_lt_dataStart ha hk
  omega

/-- What an area shows of its data after words of a control block have changed. -/
theorem data_eq_of_control {area : Nat} (ha : area < x.layout.areaCount)
    (h : Shm.Patch x.region.object (InControl area) shm shm') (b length : Nat) :
    shm'.bytes x.region (x.layout.areaOffset b) length =
      shm.bytes x.region (x.layout.areaOffset b) length := by
  refine h.bytes_eq _ _ _ (Or.inr fun k hk _ hc => ?_)
  have := inControl_lt_dataStart ha hc
  have := dataStart_le_areaOffset x.layout b
  omega

/-! ## The part of an area -/

/-- Position `k` belongs to the area: it is in its control block or in its data. -/
def InPart (x : Exchange) (area k : Nat) : Prop := InControl area k ∨ x.InArea area k

theorem words_eq_of_part {area b : Nat} (h : Shm.Patch x.region.object (x.InPart area) shm shm')
    (hb : b ≠ area) (hlt : b < x.layout.areaCount) : x.words shm' b = x.words shm b := by
  refine words_eq_of_patch h b fun k hk hp => ?_
  rcases hp with hp | hp
  · exact not_inControl_of_ne hb hk hp
  · have := inControl_lt_dataStart hlt hk
    have := dataStart_le_areaOffset x.layout area
    have := hp.1
    omega

theorem header_eq_of_part {area : Nat} (h : Shm.Patch x.region.object (x.InPart area) shm shm') :
    x.header shm' = x.header shm := by
  refine header_eq_of_patch h fun k hk hp => ?_
  rcases hp with hp | hp
  · exact not_inControl_header (by omega) hp
  · have := releases_lt_dataStart x.layout
    have := dataStart_le_areaOffset x.layout area
    have := hp.1
    omega

theorem data_eq_of_part {area b length : Nat}
    (h : Shm.Patch x.region.object (x.InPart area) shm shm') (hb : b ≠ area)
    (ha : area < x.layout.areaCount) (hl : length ≤ x.layout.areaSize) :
    shm'.bytes x.region (x.layout.areaOffset b) length =
      shm.bytes x.region (x.layout.areaOffset b) length := by
  refine h.bytes_eq _ _ _ (Or.inr fun k hk hk' hp => ?_)
  rcases hp with hp | hp
  · have := inControl_lt_dataStart ha hp
    have := dataStart_le_areaOffset x.layout b
    omega
  · have := areaOffset_apart x.layout hb
    have := areaOffset_succ x.layout area
    have := hp.1
    have := hp.2
    omega

end Exchange
end TierAlloc
