import TierAlloc.Error

/-!
# Sums and products of 64 bits

Sizes, offsets and numbers of chunks are 64-bit numbers. They are written as naturals, and
where nothing that was checked before bounds a sum or product of them, it is `Word.add` or
`Word.mul`: a result that is no 64-bit number ends the operation, it never wraps. These places
are the end of a run of chunks, the offset of a chunk and the span of a pool, the bytes of a
geometry and of a batch that is laid out, and the bytes of an exchange region.

**Results.**
* `add_eq_ok`, `mul_eq_ok`: what succeeds is the natural sum or product, below 2^64.
* `add_eq_error`, `mul_eq_error`: what fails is not below 2^64.
-/
namespace TierAlloc.Word

variable {a b c : Nat}

def add (a b : Nat) : Except Error Nat :=
  if a + b < wordRange then .ok (a + b) else .error (.overflow .sum)

def mul (a b : Nat) : Except Error Nat :=
  if a * b < wordRange then .ok (a * b) else .error (.overflow .product)

theorem add_of_lt (h : a + b < wordRange) : add a b = .ok (a + b) := if_pos h

theorem add_of_le (h : wordRange ≤ a + b) : add a b = .error (.overflow .sum) := if_neg (Nat.not_lt.mpr h)

theorem mul_of_lt (h : a * b < wordRange) : mul a b = .ok (a * b) := if_pos h

theorem add_eq_ok : add a b = .ok c ↔ a + b < wordRange ∧ c = a + b := by
  unfold add
  split
  · next h => simp only [Except.ok.injEq, h, true_and, eq_comm]
  · next h => simp [h]

theorem mul_eq_ok : mul a b = .ok c ↔ a * b < wordRange ∧ c = a * b := by
  unfold mul
  split
  · next h => simp only [Except.ok.injEq, h, true_and, eq_comm]
  · next h => simp [h]

theorem add_eq_error {e : Error} : add a b = .error e ↔ wordRange ≤ a + b ∧ e = .overflow .sum := by
  unfold add
  split
  · next h => simp [Nat.not_le.mpr h]
  · next h => simp only [Except.error.injEq, Nat.not_lt.mp h, true_and, eq_comm]

theorem mul_eq_error {e : Error} : mul a b = .error e ↔ wordRange ≤ a * b ∧ e = .overflow .product := by
  unfold mul
  split
  · next h => simp [Nat.not_le.mpr h]
  · next h => simp only [Except.error.injEq, Nat.not_lt.mp h, true_and, eq_comm]

end TierAlloc.Word
