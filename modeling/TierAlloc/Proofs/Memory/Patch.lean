import TierAlloc.Memory.Shm

/-!
# What an operation on shared memory leaves alone

`Patch i P s s'` says that `s'` is `s` but for bytes of object number `i` whose
positions satisfy `P`: names, claims, sizes, the other objects and the other bytes
are as they were. Every operation that only stores is a patch, and patches compose;
what a mapping shows outside the patched bytes is unchanged.

**Results.**
* `getElem?_replaced`: a list of which a part was replaced.
* `patch_store`: a store patches the range that it covers.
* `Patch.bytes_eq`, `Patch.word32_eq`, `Patch.word64_eq`: reading beside a patch.
* `bytes_store_within`: reading a range that holds the stored one.
-/
namespace TierAlloc

/-- A list of which a part was replaced by as many elements. -/
theorem getElem?_replaced {α : Type} {l part : List α} {start : Nat}
    (h : start + part.length ≤ l.length) (i : Nat) :
    (l.take start ++ (part ++ l.drop (start + part.length)))[i]? =
      if start ≤ i ∧ i < start + part.length then part[i - start]? else l[i]? := by
  have ht : (l.take start).length = start := by
    rw [List.length_take]
    omega
  by_cases ho : start ≤ i
  · rw [List.getElem?_append_right (by omega), ht]
    by_cases hd : i < start + part.length
    · rw [if_pos ⟨ho, hd⟩, List.getElem?_append_left (by omega)]
    · rw [if_neg (by omega), List.getElem?_append_right (by omega), List.getElem?_drop]
      congr 1
      omega
  · rw [if_neg (by omega), List.getElem?_append_left (by omega), List.getElem?_take_of_lt (by omega)]

namespace Bytes

theorem ofNat_toNat (b : Bytes) : ofNat b.length b.toNat = b := by
  induction b with
  | nil => rfl
  | cons x rest ih =>
    have hx := x.toNat_lt
    have hb : UInt8.ofNat (toNat (x :: rest)) = x := by
      apply UInt8.toNat_inj.mp
      simp only [toNat, UInt8.toNat_ofNat']
      omega
    have hr : toNat (x :: rest) / 256 = toNat rest := by
      simp only [toNat]
      omega
    rw [List.length_cons, ofNat, hb, hr, ih]

theorem toNat_inj {b b' : Bytes} (hl : b.length = b'.length) (h : b.toNat = b'.toNat) : b = b' := by
  rw [← ofNat_toNat b, ← ofNat_toNat b', hl, h]

theorem splice_eq {buffer data : Bytes} {offset : Nat} (h : offset + data.length ≤ buffer.length) :
    splice buffer offset data =
      buffer.take offset ++ (data ++ buffer.drop (offset + data.length)) := by
  have hd : data.length ≤ (List.drop offset buffer).length := by
    rw [List.length_drop]
    omega
  unfold splice overlay
  rw [List.drop_drop, List.take_of_length_le hd]

theorem getElem?_splice {buffer data : Bytes} {offset : Nat}
    (h : offset + data.length ≤ buffer.length) (i : Nat) :
    (splice buffer offset data)[i]? =
      if offset ≤ i ∧ i < offset + data.length then data[i - offset]? else buffer[i]? := by
  rw [splice_eq h, getElem?_replaced h]

end Bytes

namespace Shm

/-- `s'` is `s` but for bytes of object `i` at positions that satisfy `P`. -/
structure Patch (i : Nat) (P : Nat → Prop) (s s' : Shm) : Prop where
  names : s'.names = s.names
  claims : s'.claims = s.claims
  shared : s'.shared = s.shared
  count : s'.objects.size = s.objects.size
  sizes : ∀ j, (s'.object j).size = (s.object j).size
  bytes : ∀ j k, j ≠ i ∨ ¬P k → (s'.object j).byte k = (s.object j).byte k

/-- Object `i` is of the same size and has the same bytes. -/
structure Same (i : Nat) (s s' : Shm) : Prop where
  size : (s'.object i).size = (s.object i).size
  byte : ∀ k, (s'.object i).byte k = (s.object i).byte k

theorem Same.refl (i : Nat) (s : Shm) : Same i s s := ⟨rfl, fun _ => rfl⟩

theorem Same.trans {i : Nat} {s s' s'' : Shm} (h : Same i s s') (h' : Same i s' s'') : Same i s s'' :=
  ⟨h'.size.trans h.size, fun k => (h'.byte k).trans (h.byte k)⟩

theorem same_of_eq {i : Nat} {s s' : Shm} (h : s'.object i = s.object i) : Same i s s' :=
  ⟨by rw [h], fun k => by rw [h]⟩

theorem Same.bytes_eq {s s' : Shm} {r : Region} (h : Same r.object s s') (offset length : Nat) :
    s'.bytes r offset length = s.bytes r offset length := by
  simp [Shm.bytes, Block.read, h.byte]

namespace Patch

variable {i : Nat} {P Q : Nat → Prop} {s s' s'' : Shm}

theorem refl (i : Nat) (P : Nat → Prop) (s : Shm) : Patch i P s s :=
  ⟨rfl, rfl, rfl, rfl, fun _ => rfl, fun _ _ _ => rfl⟩

theorem trans (h : Patch i P s s') (h' : Patch i P s' s'') : Patch i P s s'' where
  names := h'.names.trans h.names
  claims := h'.claims.trans h.claims
  shared := h'.shared.trans h.shared
  count := h'.count.trans h.count
  sizes j := (h'.sizes j).trans (h.sizes j)
  bytes j k hk := (h'.bytes j k hk).trans (h.bytes j k hk)

theorem mono (h : Patch i P s s') (hq : ∀ k, P k → Q k) : Patch i Q s s' :=
  { h with bytes := fun j k hk => h.bytes j k (hk.imp_right fun hn hp => hn (hq k hp)) }

theorem same (h : Patch i P s s') {j : Nat} (hj : j ≠ i) : Same j s s' :=
  ⟨h.sizes j, fun k => h.bytes j k (Or.inl hj)⟩

/-- What a mapping shows of a range without patched bytes. -/
theorem bytes_eq (h : Patch i P s s') (r : Region) (start length : Nat)
    (hd : r.object ≠ i ∨ ∀ k, start ≤ k → k < start + length → ¬P k) :
    s'.bytes r start length = s.bytes r start length := by
  unfold Shm.bytes Block.read
  apply List.map_congr_left
  intro k hk
  rw [List.mem_range] at hk
  exact h.bytes _ _ (hd.imp_right fun hd => hd _ (by omega) (by omega))

/-- A patched range that shows what it showed before has not been patched. -/
theorem of_bytes_eq {r : Region} {start length : Nat}
    (h : Patch r.object (fun k => start ≤ k ∧ k < start + length) s s')
    (hb : s'.bytes r start length = s.bytes r start length) :
    Patch r.object (fun _ => False) s s' := by
  refine { h with bytes := fun j k _ => ?_ }
  by_cases hk : j ≠ r.object ∨ ¬(start ≤ k ∧ k < start + length)
  · exact h.bytes j k hk
  · simp only [not_or, Decidable.not_not] at hk
    obtain ⟨rfl, hl, hu⟩ := hk
    have := congrArg (·[k - start]?) hb
    simpa [Shm.bytes, Block.read, List.getElem?_map, show k - start < length by omega,
      show start + (k - start) = k by omega] using this

theorem word32_eq (h : Patch i P s s') (r : Region) (offset : Nat)
    (hd : r.object ≠ i ∨ ∀ k, offset ≤ k → k < offset + 4 → ¬P k) :
    s'.word32 r offset = s.word32 r offset := by
  rw [word32, h.bytes_eq r offset 4 hd, word32]

theorem word64_eq (h : Patch i P s s') (r : Region) (offset : Nat)
    (hd : r.object ≠ i ∨ ∀ k, offset ≤ k → k < offset + 8 → ¬P k) :
    s'.word64 r offset = s.word64 r offset := by
  rw [word64, h.bytes_eq r offset 8 hd, word64]

end Patch

@[simp] theorem size_store (s : Shm) (r : Region) (offset : Nat) (data : Bytes) :
    (s.store r offset data).objects.size = s.objects.size := by
  simp [store, setObject]

theorem patch_store (s : Shm) (r : Region) (offset : Nat) (data : Bytes) :
    Patch r.object (fun k => offset ≤ k ∧ k < offset + data.length) s (s.store r offset data) := by
  by_cases hr : r.object < s.objects.size
  · refine ⟨rfl, rfl, rfl, size_store .., ?_, ?_⟩
    · intro j
      rw [object_store s hr]
      split <;> simp
    · intro j k hk
      rw [object_store s hr]
      split
      · next he =>
        have hn := hk.resolve_left (absurd he.symm)
        rw [Block.byte_write]
        split
        · simp [show data.length ≤ k - offset by omega]
        · rfl
      · rfl
  · have hs : ∀ j, (s.store r offset data).object j = s.object j := by
      intro j
      simp only [store, setObject, object, Array.getD_eq_getD_getElem?, Array.getElem?_modify]
      split
      · next he =>
        subst he
        simp [hr]
      · rfl
    exact ⟨rfl, rfl, rfl, size_store .., fun j => by rw [hs], fun j k _ => by rw [hs]⟩

theorem word32_store_of_disjoint (s : Shm) (r : Region) (offset : Nat) (data : Bytes)
    (start : Nat) (h : start + 4 ≤ offset ∨ offset + data.length ≤ start) :
    (s.store r offset data).word32 r start = s.word32 r start :=
  (s.patch_store r offset data).word32_eq r start (Or.inr (by omega))

theorem word64_store_of_disjoint (s : Shm) (r : Region) (offset : Nat) (data : Bytes)
    (start : Nat) (h : start + 8 ≤ offset ∨ offset + data.length ≤ start) :
    (s.store r offset data).word64 r start = s.word64 r start :=
  (s.patch_store r offset data).word64_eq r start (Or.inr (by omega))

/-- A store inside a range, as that range shows it. -/
theorem bytes_store_within (s : Shm) {r : Region} (hr : r.object < s.objects.size)
    (start offset length : Nat) (data : Bytes) (h : offset + data.length ≤ length) :
    (s.store r (start + offset) data).bytes r start length =
      (s.bytes r start length).splice offset data := by
  apply List.ext_getElem?
  intro k
  rw [Bytes.getElem?_splice (by simpa [bytes] using h)]
  simp only [bytes, Block.read, List.getElem?_map, object_store s hr, if_true, Block.byte_write]
  by_cases hk : k < length
  · rw [List.getElem?_range hk, Option.map_some]
    by_cases ho : offset ≤ k
    · rw [if_pos (by omega), show start + k - (start + offset) = k - offset by omega]
      by_cases hd : k < offset + data.length
      · rw [if_pos ⟨ho, hd⟩]
        simp [show k - offset < data.length by omega]
      · rw [if_neg (by omega)]
        simp [show data.length ≤ k - offset by omega]
    · rw [if_neg (by omega), if_neg (by omega), Option.map_some]
  · rw [List.getElem?_eq_none (by simpa using hk), if_neg (by omega)]
    rfl

end Shm
end TierAlloc
