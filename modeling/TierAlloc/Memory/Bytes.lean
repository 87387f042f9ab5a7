import TierAlloc.Limits

/-!
# Byte strings

Payloads are lists of bytes. `overlay` is what copying into a buffer does: the
buffer keeps its length and what does not fit is left out. Numbers are stored
with the least significant byte first: `ofNat width n` has `width` bytes and keeps
`n` modulo `2 ^ (8 * width)`; `toNat` reads it back.

**Results.**
* `length_ofNat`, `toNat_ofNat`: a stored number has its width and reads back.
* `toNat_lt`: what is read from `k` bytes has `8 * k` bits.
* `length_overlay`: copying never changes the length of the buffer.
-/
namespace TierAlloc

abbrev Bytes := List UInt8

namespace Bytes

def zeros (n : Nat) : Bytes := List.replicate n 0

/-- The buffer with `data` copied to its start, as far as it fits. -/
def overlay (buffer data : Bytes) : Bytes :=
  data.take buffer.length ++ buffer.drop data.length

/-- The buffer with the bytes from `offset` on replaced by `data`. -/
def splice (buffer : Bytes) (offset : Nat) (data : Bytes) : Bytes :=
  buffer.take offset ++ overlay (buffer.drop offset) data

/-- The `width` low bytes of `n`, least significant first. -/
def ofNat : (width n : Nat) → Bytes
  | 0, _ => []
  | width + 1, n => UInt8.ofNat n :: ofNat width (n / 256)

def toNat : Bytes → Nat
  | [] => 0
  | b :: rest => b.toNat + 256 * toNat rest

@[simp] theorem length_zeros (n : Nat) : (zeros n).length = n := by simp [zeros]

@[simp] theorem length_overlay (buffer data : Bytes) :
    (overlay buffer data).length = buffer.length := by
  simp only [overlay, List.length_append, List.length_take, List.length_drop]
  omega

@[simp] theorem length_splice (buffer : Bytes) (offset : Nat) (data : Bytes) :
    (splice buffer offset data).length = buffer.length := by
  simp only [splice, List.length_append, List.length_take, length_overlay, List.length_drop]
  omega

theorem overlay_eq_self {buffer data : Bytes} (h : data.length = buffer.length) :
    overlay buffer data = data := by
  rw [overlay, ← h, List.take_length, List.drop_eq_nil_of_le (by omega), List.append_nil]

theorem overlay_nil (buffer : Bytes) : overlay buffer [] = buffer := by simp [overlay]

@[simp] theorem length_ofNat (width n : Nat) : (ofNat width n).length = width := by
  induction width generalizing n with
  | zero => rfl
  | succ width ih => simp [ofNat, ih]

theorem shiftLeft_bytes (width : Nat) : 1 <<< (8 * (width + 1)) = 256 * 1 <<< (8 * width) := by
  rw [Nat.one_shiftLeft, Nat.one_shiftLeft, Nat.mul_succ, Nat.pow_add, Nat.mul_comm]

theorem toNat_ofNat (width n : Nat) : toNat (ofNat width n) = n % 1 <<< (8 * width) := by
  induction width generalizing n with
  | zero => simp [ofNat, toNat, Nat.mod_one]
  | succ width ih =>
    have hb : (UInt8.ofNat n).toNat = n % 256 := by simp
    rw [ofNat, toNat, ih, hb, shiftLeft_bytes, Nat.mod_mul]

theorem toNat_lt (b : Bytes) : toNat b < 1 <<< (8 * b.length) := by
  induction b with
  | nil => simp [toNat]
  | cons x rest ih =>
    have := x.toNat_lt
    rw [toNat, List.length_cons, shiftLeft_bytes]
    omega

end Bytes
end TierAlloc
