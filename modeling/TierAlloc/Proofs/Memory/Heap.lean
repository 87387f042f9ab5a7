import TierAlloc.Memory.BufferPool
import Mathlib.Algebra.Ring.Nat
import Mathlib.Data.Nat.Log

/-!
# What a heap has handed out

A heap counts what it hands out by size class. A buffer in use is `Classed`: its capacity
is the class of its length, as it was when it was handed out. As long as only such
buffers come back, each with its own charge still in the total, the total is exact: no
count wraps, and a buffer taken from the idle ones is one of its class.

**Results.**
* `classOf_eq`: the class of `n` bytes is the least power of two that is at least `n`,
  and at least 16.
* `acquire_charged`, `acquire_refused`: a buffer adds its class to the total, a refusal nothing.
* `recycle_ok`: a buffer that comes back takes its class off again.
-/
namespace TierAlloc

/-- The bytes that an entry of `n` bytes counts for. -/
def sizeClass (n : Nat) : Nat := max 16 (2 ^ Nat.clog 2 n)

/-- The capacity is the class of the length. -/
def Buffer.Classed (b : Buffer) : Prop := b.capacity = BufferPool.classOf b.size

/-- Other bytes in a buffer are no matter, as long as they are as many. -/
theorem Buffer.Classed.filled {b : Buffer} (hb : b.Classed) {bytes : Bytes} (hl : bytes.length = b.size) :
    ({ b with bytes } : Buffer).Classed := by
  unfold Classed at hb ⊢
  rw [hb, ← hl, size]

namespace BufferPool

variable {p q : BufferPool} {n : Nat} {b : Buffer}

/-! ## Size classes -/

/-- A class is a power of two, and which one. -/
theorem classOf_eq_pow (n : Nat) : classOf n = 2 ^ Nat.clog 2 (max n 16) := by
  have h16 : 16 ≤ max n 16 := Nat.le_max_right ..
  have hpos : max n 16 - 1 ≠ 0 := by omega
  have hclog : Nat.clog 2 (max n 16) = (max n 16 - 1).log2 + 1 := by
    apply Nat.le_antisymm
    · rw [Nat.clog_le_iff_le_pow Nat.one_lt_two]
      have := @Nat.lt_log2_self (max n 16 - 1)
      omega
    · rw [Nat.succ_le_iff, Nat.lt_clog_iff_pow_lt Nat.one_lt_two]
      have := Nat.log2_self_le hpos
      omega
  rw [classOf, hclog, Nat.one_shiftLeft]
  rfl

theorem four_le_clog (n : Nat) : 4 ≤ Nat.clog 2 (max n 16) := by
  have h := Nat.clog_mono_right 2 (Nat.le_max_right n 16)
  rwa [show Nat.clog 2 16 = 4 from Nat.clog_pow 2 4 Nat.one_lt_two] at h

theorem classOf_eq (n : Nat) : classOf n = sizeClass n := by
  have hclog : Nat.clog 2 16 = 4 := Nat.clog_pow 2 4 Nat.one_lt_two
  rw [classOf_eq_pow, sizeClass]
  rcases Nat.le_total n 16 with h | h
  · have hle := Nat.pow_le_pow_right Nat.zero_lt_two (Nat.clog_mono_right 2 h)
    rw [hclog] at hle
    rw [Nat.max_eq_right h, hclog, Nat.max_eq_left hle]
  · have hle := Nat.pow_le_pow_right Nat.zero_lt_two (Nat.clog_mono_right 2 h)
    rw [hclog] at hle
    rw [Nat.max_eq_left h, Nat.max_eq_right hle]

/-- A class is its own class. -/
theorem classOf_classOf (n : Nat) : classOf (classOf n) = classOf n := by
  have h16 : 16 ≤ classOf n := by
    rw [classOf_eq_pow]
    exact Nat.pow_le_pow_right Nat.zero_lt_two (four_le_clog n)
  rw [classOf_eq_pow (classOf n), Nat.max_eq_left h16, classOf_eq_pow n, Nat.clog_pow 2 _ Nat.one_lt_two]

/-- The buffers at the place of a class are of that class. -/
theorem classIndex_classOf (n : Nat) : minBufferClass * 2 ^ classIndex (classOf n) = classOf n := by
  have h4 := four_le_clog n
  have h16 : minBufferClass = 2 ^ 4 := rfl
  have hlog : minBufferClass.log2 = 4 := rfl
  rw [classIndex, hlog, classOf_eq_pow, Nat.log2_two_pow, h16, ← Nat.pow_add]
  congr 1
  omega

/-! ## Taking and giving back -/

/-- The idle buffers are in their places, and the total is one that fits. -/
structure Sound (p : BufferPool) : Prop where
  places : p.idle.length = pooledClasses
  classed : ∀ i, ∀ b ∈ p.idle.getD i [], b.capacity = minBufferClass * 2 ^ i
  bounded : p.inUse < wordRange
  within : ∀ capacity, p.capacity = some capacity → p.inUse ≤ capacity

theorem sound_create (capacity : Option Nat) : (create capacity).Sound := by
  refine ⟨List.length_replicate .., fun i b hb => ?_, show 0 < wordRange by decide,
    fun _ _ => Nat.zero_le _⟩
  have hnil : (create capacity).idle.getD i [] = [] := by
    rw [create, List.getD_eq_getElem?_getD, List.getElem?_replicate]
    split <;> rfl
  rw [hnil] at hb
  cases hb

/-- Buffers of its class may take the place of those of a class. -/
theorem Sound.setIdle (h : p.Sound) {i : Nat} {bucket : List Buffer}
    (hb : ∀ b ∈ bucket, b.capacity = minBufferClass * 2 ^ i) :
    Sound { p with idle := p.idle.set i bucket } := by
  refine ⟨(List.length_set ..).trans h.places, fun j b hj => ?_, h.bounded, h.within⟩
  rw [List.getD_eq_getElem?_getD, List.getElem?_set] at hj
  split at hj
  · rename_i he
    subst he
    split at hj
    · exact hb b hj
    · cases hj
  · rw [← List.getD_eq_getElem?_getD] at hj
    exact h.classed j b hj

theorem reserve_ok {size total : Nat} (h : p.reserve? size = some total) :
    total = p.inUse + size ∧ total < wordRange ∧ ∀ capacity, p.capacity = some capacity → total ≤ capacity := by
  unfold reserve? at h
  split at h
  · cases h
  rename_i hr
  cases hc : p.capacity with
  | none =>
    simp only [hc, Option.some.injEq] at h
    exact ⟨h.symm, by omega, nofun⟩
  | some capacity =>
    simp only [hc] at h
    split at h
    · cases h
    · obtain rfl := Option.some.inj h
      refine ⟨rfl, by omega, fun k hk => ?_⟩
      obtain rfl := Option.some.inj hk
      omega

theorem takeIdle_ok {size : Nat} (h : p.takeIdle? size = some (b, q)) :
    size ≤ maxPooledClass ∧ ∃ rest, p.idle.getD (classIndex size) [] = b :: rest ∧
      q = { p with idle := p.idle.set (classIndex size) rest } := by
  unfold takeIdle? at h
  split at h
  · cases h
  rename_i hs
  split at h
  · cases h
  · rename_i b' rest hb
    obtain ⟨rfl, rfl⟩ := Prod.mk.inj (Option.some.inj h)
    exact ⟨Nat.le_of_not_lt hs, rest, hb, rfl⟩

/-- Every buffer is handed out with all bytes zero. -/
theorem acquire_ok (h : p.acquire n = (.ok b, q)) : b.bytes = .zeros n := by
  unfold acquire at h
  split at h
  · cases h
  split at h
  · cases h
  split at h
  · simp only [Prod.mk.injEq, Except.ok.injEq] at h
    rw [← h.1]
  · simp only at h
    split at h
    · cases h
    · simp only [Prod.mk.injEq, Except.ok.injEq] at h
      rw [← h.1]

/-- A buffer that is handed out is charged by its class. -/
theorem acquire_charged (hp : p.Sound) (h : p.acquire n = (.ok b, q)) :
    q.Sound ∧ b.capacity = classOf n ∧ q.inUse = p.inUse + classOf n ∧ q.capacity = p.capacity := by
  unfold acquire class? at h
  split at h
  · cases h
  rename_i size hsize
  split at hsize
  swap
  · cases hsize
  obtain rfl := Option.some.inj hsize
  split at h
  · cases h
  rename_i total hr
  obtain ⟨rfl, hlt, hwithin⟩ := reserve_ok hr
  split at h
  · rename_i b₀ q₀ ht
    obtain ⟨hpooled, rest, hidle, rfl⟩ := takeIdle_ok ht
    obtain ⟨hb, rfl⟩ := Prod.mk.inj h
    have hclassed := hp.classed (classIndex (classOf n))
    rw [hidle, classIndex_classOf] at hclassed
    have hset := hp.setIdle (i := classIndex (classOf n)) fun b' hb' => by
      rw [classIndex_classOf]
      exact hclassed b' (List.mem_cons_of_mem _ hb')
    rw [← Except.ok.inj hb]
    exact ⟨⟨hset.places, hset.classed, hlt, hwithin⟩, hclassed b₀ List.mem_cons_self, rfl, rfl⟩
  · simp only at h
    split at h
    · cases h
    · obtain ⟨hb, rfl⟩ := Prod.mk.inj h
      rw [← Except.ok.inj hb]
      exact ⟨⟨hp.places, hp.classed, hlt, hwithin⟩, rfl, rfl, rfl⟩

/-- There is one way to refuse. -/
theorem acquire_error {e : Error} (h : p.acquire n = (.error e, q)) : e = .noMemory n := by
  unfold acquire at h
  split at h
  · exact (Except.error.inj (Prod.mk.inj h).1).symm
  split at h
  · exact (Except.error.inj (Prod.mk.inj h).1).symm
  split at h
  · cases h
  simp only at h
  split at h
  · exact (Except.error.inj (Prod.mk.inj h).1).symm
  · cases h

/-- A refusal is charged nothing. -/
theorem acquire_refused {e : Error} (hp : p.Sound) (h : p.acquire n = (.error e, q)) :
    q.Sound ∧ q.inUse = p.inUse ∧ q.capacity = p.capacity := by
  unfold acquire at h
  split at h
  · obtain rfl := (Prod.mk.inj h).2
    exact ⟨hp, rfl, rfl⟩
  split at h
  · obtain rfl := (Prod.mk.inj h).2
    exact ⟨hp, rfl, rfl⟩
  split at h
  · cases (Prod.mk.inj h).1
  · simp only at h
    split at h
    · obtain rfl := (Prod.mk.inj h).2
      exact ⟨⟨hp.places, hp.classed, hp.bounded, hp.within⟩, rfl, rfl⟩
    · cases (Prod.mk.inj h).1

/-- A buffer that comes back takes its charge off. -/
theorem recycle_ok (hp : p.Sound) (hb : b.capacity = classOf n) (hle : b.capacity ≤ p.inUse) :
    (p.recycle b).Sound ∧ (p.recycle b).inUse + b.capacity = p.inUse ∧
      (p.recycle b).capacity = p.capacity := by
  have hbounded := hp.bounded
  have hsize : (class? b.capacity).getD b.capacity = b.capacity := by
    unfold class?
    rw [hb, classOf_classOf]
    split <;> rfl
  have htotal : (p.inUse + (wordRange - b.capacity % wordRange)) % wordRange = p.inUse - b.capacity := by
    rw [Nat.mod_eq_of_lt (show b.capacity < wordRange by omega)]
    have he : p.inUse + (wordRange - b.capacity) = p.inUse - b.capacity + wordRange := by omega
    rw [he, Nat.add_mod_right, Nat.mod_eq_of_lt (by omega)]
  have hless : Sound { p with inUse := p.inUse - b.capacity } := by
    refine ⟨hp.places, hp.classed, ?_, fun capacity hc => ?_⟩
    · show p.inUse - b.capacity < wordRange
      omega
    · have := hp.within capacity hc
      show p.inUse - b.capacity ≤ capacity
      omega
  unfold recycle
  simp only [hsize, htotal]
  split
  · exact ⟨hless, Nat.sub_add_cancel hle, rfl⟩
  · split
    · refine ⟨hless.setIdle fun b' hb' => ?_, Nat.sub_add_cancel hle, rfl⟩
      rcases List.mem_cons.mp hb' with rfl | hb'
      · rw [hb, classIndex_classOf]
      · exact hp.classed _ b' hb'
    · exact ⟨hless, Nat.sub_add_cancel hle, rfl⟩

end BufferPool
end TierAlloc
