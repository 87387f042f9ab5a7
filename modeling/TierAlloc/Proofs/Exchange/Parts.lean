import Mathlib.Order.Bounds.Defs
import TierAlloc.Proofs.Exchange.Peers

/-!
# The parts of an exchange region

A header, a block of control words for each area, and the areas: these parts divide the region.
Every byte of it is in one of them and in no other, and nothing of them is beyond its end, so that
no offset of a region whose length has 64 bits needs more. An area is named by where its
data and its signal word are, and the two offsets name it only together.

**Results.**
* `Part.inside`, `Part.apart`, `exists_part`: the parts divide the region.
* `areaAt?_eq_some_iff`: the offsets that name an area.
* `division_exact`: all of this, for every layout.
-/
namespace TierAlloc.Layout

/-- A part of an exchange region. -/
inductive Part where
  | header
  | control (area : Nat)
  | data (area : Nat)
  deriving DecidableEq, Repr

variable {l : Layout} {area k : Nat}

namespace Part

/-- A region of this layout has this part. -/
def In (l : Layout) : Part → Prop
  | header => True
  | control area | data area => area < l.areaCount

def start (l : Layout) : Part → Nat
  | header => 0
  | control area => controlOffset area
  | data area => l.areaOffset area

def size (l : Layout) : Part → Nat
  | header | control _ => blockSize
  | data _ => l.areaSize

def stop (l : Layout) (p : Part) : Nat := p.start l + p.size l

variable {p q : Part}

/-! ## Where the parts are -/

theorem stop_header (l : Layout) : header.stop l = controlOffset 0 := rfl

theorem stop_control (l : Layout) (area : Nat) : (control area).stop l = controlOffset (area + 1) := by
  simp only [stop, start, size, controlOffset, Nat.succ_mul, Nat.add_assoc]

theorem stop_data (l : Layout) (area : Nat) : (data area).stop l = l.areaOffset (area + 1) :=
  (Exchange.areaOffset_succ l area).symm

theorem controlOffset_mono {b : Nat} (h : area ≤ b) : controlOffset area ≤ controlOffset b :=
  Nat.add_le_add_left (Nat.mul_le_mul_right _ h) _

/-- What is not data ends before the data starts. -/
theorem stop_le_dataStart (hp : p.In l) (h : ∀ area, p ≠ data area) : p.stop l ≤ l.dataStart := by
  cases p with
  | header => exact controlOffset_mono (Nat.zero_le _)
  | control area =>
    rw [stop_control]
    exact controlOffset_mono hp
  | data area => exact absurd rfl (h area)

/-- No part reaches beyond the end of the region. -/
theorem inside (hp : p.In l) : p.stop l ≤ l.totalBytes := by
  have hdata : l.dataStart ≤ l.totalBytes := Exchange.dataStart_le_areaOffset l l.areaCount
  cases p with
  | header => exact Nat.le_trans (stop_le_dataStart hp nofun) hdata
  | control area => exact Nat.le_trans (stop_le_dataStart hp nofun) hdata
  | data area =>
    rw [stop_data]
    exact Exchange.areaOffset_mono l hp

/-- Two different parts share no byte. -/
theorem apart (hp : p.In l) (hq : q.In l) (h : p ≠ q) : p.stop l ≤ q.start l ∨ q.stop l ≤ p.start l := by
  have hdata : ∀ {p : Part} {area}, p.In l → (∀ b, p ≠ data b) → p.stop l ≤ (data area).start l :=
    fun hp hne => Nat.le_trans (stop_le_dataStart hp hne) (Exchange.dataStart_le_areaOffset l _)
  cases p with
  | header =>
    cases q with
    | header => exact absurd rfl h
    | control b => exact Or.inl (controlOffset_mono (Nat.zero_le b))
    | data b => exact Or.inl (hdata hp nofun)
  | control area =>
    cases q with
    | header => exact Or.inr (controlOffset_mono (Nat.zero_le area))
    | control b =>
      rw [stop_control, stop_control]
      rcases Nat.lt_or_gt_of_ne (fun he : area = b => h (congrArg control he)) with hlt | hlt
      · exact Or.inl (controlOffset_mono hlt)
      · exact Or.inr (controlOffset_mono hlt)
    | data b => exact Or.inl (hdata hp nofun)
  | data area =>
    cases q with
    | header => exact Or.inr (hdata hq nofun)
    | control b => exact Or.inr (hdata hq nofun)
    | data b => exact Exchange.areaOffset_apart l fun he => h (congrArg data he.symm)

end Part

/-- Every byte of the region is in a part. -/
theorem exists_part (h : k < l.totalBytes) : ∃ p : Part, p.In l ∧ p.start l ≤ k ∧ k < p.stop l := by
  by_cases hheader : k < blockSize
  · exact ⟨.header, trivial, Nat.zero_le k, by rwa [Part.stop_header]⟩
  by_cases hcontrol : k < l.dataStart
  · refine ⟨.control ((k - blockSize) / blockSize), ?_, ?_, ?_⟩
    · show _ < _
      simp only [dataStart, controlOffset, blockSize] at *
      omega
    · simp only [Part.start, controlOffset, blockSize] at *
      omega
    · rw [Part.stop_control]
      simp only [controlOffset, blockSize] at *
      omega
  · -- the areas are of one size, and of none if there are no bytes in them
    have hlt : k - l.dataStart < l.areaCount * l.areaSize := by
      unfold totalBytes areaOffset at h
      omega
    have hpos : 0 < l.areaSize := Nat.pos_of_mul_pos_left (Nat.zero_lt_of_lt hlt)
    have hdiv := Nat.div_add_mod' (k - l.dataStart) l.areaSize
    have hmod := Nat.mod_lt (k - l.dataStart) hpos
    refine ⟨.data ((k - l.dataStart) / l.areaSize), (Nat.div_lt_iff_lt_mul hpos).mpr hlt, ?_, ?_⟩
    · simp only [Part.start, areaOffset]
      omega
    · simp only [Part.stop, Part.start, Part.size, areaOffset]
      omega

/-- The data starts at the first multiple of the block size behind the control blocks. -/
theorem dataStart_rounded (l : Layout) :
    IsLeast {k | controlOffset l.areaCount ≤ k ∧ blockSize ∣ k} l.dataStart := by
  refine ⟨⟨Nat.le_refl _, ?_⟩, fun k hk => hk.1⟩
  exact Nat.dvd_add (Nat.dvd_refl _) (Nat.dvd_mul_left ..)

/-- The offsets of its data and of its signal word name an area, and no others do. -/
theorem areaAt?_eq_some_iff {data signal : Nat} (hs : 0 < l.areaSize) : l.areaAt? data signal = some area ↔
    area < l.areaCount ∧ data = l.areaOffset area ∧ signal = signalOffset area := by
  refine ⟨areaAt?_eq_some, ?_⟩
  rintro ⟨ha, rfl, rfl⟩
  exact areaAt?_locator ha hs

/-- How the parts divide a region, and how its areas are named. -/
structure Divided (l : Layout) : Prop where
  inside : ∀ p : Part, p.In l → p.stop l ≤ l.totalBytes
  apart : ∀ p q : Part, p.In l → q.In l → p ≠ q → p.stop l ≤ q.start l ∨ q.stop l ≤ p.start l
  covered : ∀ k, k < l.totalBytes → ∃ p : Part, p.In l ∧ p.start l ≤ k ∧ k < p.stop l
  rounded : IsLeast {k | controlOffset l.areaCount ≤ k ∧ blockSize ∣ k} l.dataStart
  /-- The four bytes of the signal word are in the control block of its area. -/
  signal : ∀ area, (Part.control area).start l ≤ signalOffset area ∧
    signalOffset area + 4 ≤ (Part.control area).stop l
  /-- The length does not overflow, and no part ends beyond the 64-bit numbers. -/
  word : l.total = .ok l.totalBytes ∧ ∀ p : Part, p.In l → p.stop l < wordRange
  located : ∀ data signal area, l.areaAt? data signal = some area ↔
    area < l.areaCount ∧ data = l.areaOffset area ∧ signal = signalOffset area

/-- **The parts of an exchange region.** For every number of areas that are not empty, as long as
the length of the region is a 64-bit number. -/
theorem division_exact (hs : 0 < l.areaSize) (hw : l.totalBytes < wordRange) : l.Divided where
  inside _ := Part.inside
  apart _ _ := Part.apart
  covered _ := exists_part
  rounded := dataStart_rounded l
  signal area := by
    rw [Part.stop_control]
    simp only [Part.start, signalOffset, controlOffset, blockSize]
    omega
  word := ⟨total_of_lt hw, fun _ hp => Nat.lt_of_le_of_lt (Part.inside hp) hw⟩
  located _ _ _ := areaAt?_eq_some_iff hs

/-- Three areas, of which two start at odd offsets. -/
theorem division_of_three_areas : 0 < (⟨3, 37⟩ : Layout).areaSize ∧ totalBytes ⟨3, 37⟩ < wordRange ∧
    totalBytes ⟨3, 37⟩ = 367 ∧ Divided ⟨3, 37⟩ :=
  ⟨by decide, by decide, by decide, division_exact (by decide) (by decide)⟩

end TierAlloc.Layout
