import TierAlloc.Word

/-!
# Layout of an exchange region

A header of 64 bytes, a control block of 64 bytes for each area, and then the
areas themselves, back to back:

    header | control 0 | ... | control n-1 | area 0 | ... | area n-1

The header holds a mark, the number and size of the areas, and a counter of
releases. A control block holds the lock word, the signal word, the length of the
payload and the id of the segment that the area serves.

An area is named from outside by the offsets of its data and of its signal word
(`locator`). `areaAt?` accepts exactly those pairs.

A region has a layout only if `total` does not overflow, so that all its offsets are 64-bit
numbers.

**Results.**
* `total_eq_ok`, `total_of_lt`, `total_of_wide`: the bytes of a layout as a 64-bit number.
-/
namespace TierAlloc

/-- Number and size of the areas of an exchange region.
mirrors `AreaLayout` -/
structure Layout where
  areaCount : Nat
  areaSize : Nat
  deriving DecidableEq, Repr

namespace Layout

/-- Size of the header, and of each control block. -/
def blockSize : Nat := 64

/-! Offsets in the header. -/

def markOffset : Nat := 0
def areaCountOffset : Nat := 8
def areaSizeOffset : Nat := 12
def releasesOffset : Nat := 16

/-- Start of the control block of an area.
mirrors `AreaLayout.control_offset` -/
def controlOffset (area : Nat) : Nat := blockSize + area * blockSize

/-! Offsets of the words of a control block. -/

def lockOffset (area : Nat) : Nat := controlOffset area
def signalOffset (area : Nat) : Nat := controlOffset area + 4
def lengthOffset (area : Nat) : Nat := controlOffset area + 8
def segmentOffset (area : Nat) : Nat := controlOffset area + 16

/-- Start of the first area.
mirrors `AreaLayout.data_start` -/
def dataStart (l : Layout) : Nat := controlOffset l.areaCount

/-- Start of an area.
mirrors `AreaLayout.area_offset` -/
def areaOffset (l : Layout) (area : Nat) : Nat := l.dataStart + area * l.areaSize

/-- Bytes of the whole region. -/
def totalBytes (l : Layout) : Nat := l.areaOffset l.areaCount

/-- Bytes of the whole region as a 64-bit number.
mirrors `AreaLayout.total_bytes` -/
def total (l : Layout) : Except Error Nat := do
  let controls ← Word.mul l.areaCount blockSize
  let start ← Word.add blockSize controls
  let areas ← Word.mul l.areaCount l.areaSize
  Word.add start areas

/-- The area whose data and signal word are at these offsets.
mirrors `AreaLayout.area_at` -/
def areaAt? (l : Layout) (data signal : Nat) : Option Nat :=
  let area := (data - l.dataStart) / l.areaSize
  if l.dataStart ≤ data ∧ (data - l.dataStart) % l.areaSize = 0 ∧ area < l.areaCount ∧
      signalOffset area = signal then some area
  else none

/-- How a descriptor names the area.
mirrors `AreaLayout.locator` -/
def locator (l : Layout) (area : Nat) : Locator :=
  .area (l.areaOffset area) (signalOffset area)

theorem totalBytes_eq (l : Layout) :
    l.totalBytes = blockSize + l.areaCount * blockSize + l.areaCount * l.areaSize := rfl

theorem total_eq_ok {l : Layout} {n : Nat} :
    l.total = .ok n ↔ l.totalBytes < wordRange ∧ n = l.totalBytes := by
  rw [total, totalBytes_eq]
  simp only [bind_eq_ok, Word.mul_eq_ok, Word.add_eq_ok]
  constructor
  · rintro ⟨_, ⟨-, rfl⟩, _, ⟨-, rfl⟩, _, ⟨-, rfl⟩, hlt, rfl⟩
    exact ⟨hlt, rfl⟩
  · rintro ⟨hlt, rfl⟩
    exact ⟨_, ⟨by omega, rfl⟩, _, ⟨by omega, rfl⟩, _, ⟨by omega, rfl⟩, hlt, rfl⟩

theorem total_of_lt {l : Layout} (h : l.totalBytes < wordRange) : l.total = .ok l.totalBytes :=
  total_eq_ok.mpr ⟨h, rfl⟩

/-- With 32-bit numbers in the header, only the last sum can leave the range. -/
theorem total_of_wide {l : Layout} (hcount : l.areaCount < halfRange) (hsize : l.areaSize < halfRange)
    (h : wordRange ≤ l.totalBytes) : l.total = .error (.overflow .sum) := by
  have hrange : halfRange * halfRange = wordRange := rfl
  have hblocks : blockSize + l.areaCount * blockSize < wordRange := by
    have hblock : blockSize + halfRange * blockSize < wordRange := by decide
    have := Nat.mul_le_mul_right blockSize (Nat.le_of_lt hcount)
    omega
  have hareas : l.areaCount * l.areaSize < wordRange := by
    rw [← hrange]
    exact Nat.mul_lt_mul_of_lt_of_le hcount (Nat.le_of_lt hsize) (by decide)
  rw [totalBytes_eq] at h
  rw [total, Word.mul_of_lt (by omega)]
  simp only [bind, Except.bind, Word.add_of_lt hblocks, Word.mul_of_lt hareas, Word.add_of_le h]

end Layout
end TierAlloc
