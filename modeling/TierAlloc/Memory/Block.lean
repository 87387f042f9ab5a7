import Std.Data.TreeMap.Lemmas
import TierAlloc.Memory.Bytes

/-!
# Shared objects

A `Block` is the memory behind a shared region: a size and one byte at every
position, zero where nothing was written. Only written bytes take up room, so a
block of many gigabytes costs nothing until it is used.

The view is `byte`; what a write or a resize does to the block is one equation
about it.

**Results.**
* `byte_write`: a write changes exactly the bytes it covers.
* `length_read`, `getElem_read`: a read lists the bytes of its range.
* `read_write`, `read_write_of_disjoint`: what a read sees of a write.
-/
namespace TierAlloc

structure Block where
  size : Nat
  written : Std.TreeMap Nat UInt8

namespace Block

/-- The object without bytes. -/
def empty : Block := ⟨0, ∅⟩

instance : Inhabited Block := ⟨empty⟩

def byte (b : Block) (i : Nat) : UInt8 := b.written.getD i 0

def setByte (b : Block) (i : Nat) (v : UInt8) : Block :=
  { b with written := b.written.insert i v }

/-- Stores `data` from `offset` on. -/
def write (b : Block) (offset : Nat) : Bytes → Block
  | [] => b
  | v :: rest => (b.setByte offset v).write (offset + 1) rest

/-- The `length` bytes from `offset` on. -/
def read (b : Block) (offset length : Nat) : Bytes :=
  (List.range length).map fun i => b.byte (offset + i)

/-- The object with a new size; bytes beyond it are lost. -/
def resize (b : Block) (size : Nat) : Block where
  size
  written := if size < b.size then b.written.filter fun i _ => i < size else b.written

@[simp] theorem byte_empty (i : Nat) : empty.byte i = 0 := by
  simp [empty, byte]

theorem byte_setByte (b : Block) (i j : Nat) (v : UInt8) :
    (b.setByte i v).byte j = if i = j then v else b.byte j := by
  simp [byte, setByte, Std.TreeMap.getD_insert]

theorem byte_write (b : Block) (offset : Nat) (data : Bytes) (j : Nat) :
    (b.write offset data).byte j =
      if offset ≤ j then data.getD (j - offset) (b.byte j) else b.byte j := by
  induction data generalizing b offset with
  | nil => simp [write]
  | cons v rest ih =>
    rw [write, ih]
    simp only [byte_setByte]
    by_cases h : offset ≤ j
    · by_cases he : offset = j
      · subst he
        rw [if_pos h, if_neg (Nat.not_succ_le_self offset)]
        simp
      · have h1 : offset + 1 ≤ j := by omega
        have h2 : j - offset = (j - (offset + 1)) + 1 := by omega
        simp [h, h1, he, h2]
    · have h1 : ¬offset + 1 ≤ j := by omega
      have h2 : offset ≠ j := by omega
      simp [h, h1, h2]

@[simp] theorem size_write (b : Block) (offset : Nat) (data : Bytes) :
    (b.write offset data).size = b.size := by
  induction data generalizing b offset with
  | nil => rfl
  | cons v rest ih => rw [write, ih]; rfl

@[simp] theorem size_resize (b : Block) (size : Nat) : (b.resize size).size = size := rfl

@[simp] theorem length_read (b : Block) (offset length : Nat) :
    (b.read offset length).length = length := by
  simp [read]

theorem getElem_read (b : Block) (offset length i : Nat) (h : i < (b.read offset length).length) :
    (b.read offset length)[i] = b.byte (offset + i) := by
  simp [read]

/-- A read of exactly what was written gives it back. -/
theorem read_write (b : Block) (offset : Nat) (data : Bytes) :
    (b.write offset data).read offset data.length = data := by
  apply List.ext_getElem
  · simp
  · intro i h₁ h₂
    rw [getElem_read, byte_write, if_pos (Nat.le_add_right offset i)]
    simp [h₂]

/-- A read that shares no position with a write does not see it. -/
theorem read_write_of_disjoint (b : Block) (offset : Nat) (data : Bytes) (start length : Nat)
    (h : start + length ≤ offset ∨ offset + data.length ≤ start) :
    (b.write offset data).read start length = b.read start length := by
  apply List.ext_getElem
  · simp
  · intro i h₁ h₂
    rw [length_read] at h₁
    rw [getElem_read, getElem_read, byte_write]
    by_cases hi : offset ≤ start + i
    · have : data.length ≤ start + i - offset := by omega
      simp [hi, this]
    · rw [if_neg hi]

end Block
end TierAlloc
