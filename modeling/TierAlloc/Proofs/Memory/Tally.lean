import TierAlloc.Table
import Mathlib.Data.List.Perm.Basic
import Mathlib.Data.List.Dedup
import Mathlib.Logic.Function.Basic

/-!
# Tables as functions and as collections

Two views of a table beside the look-up of one key. As a function an insertion or a
removal is an update; as a collection, with the order of the entries left aside, it adds
the new value and takes the old one away. Counts and sums over the values of a table
follow from the second view.

**Results.**
* `get?_insert_eq`, `get?_erase_eq`: the function after an operation.
* `erase_of_none`, `erase_insert`: operations that change nothing.
* `values_perm`, `values_insert`: the values after an operation.
-/
namespace TierAlloc.Table

open Function (update)

universe u v

variable {κ : Type u} {α : Type v} [DecidableEq κ] {t : Table κ α} {k : κ} {v w : α}

theorem get?_insert_eq (t : Table κ α) (k : κ) (v : α) :
    (t.insert k v).get? = update t.get? k (some v) := by
  funext k'
  rw [get?_insert, Function.update_apply]

theorem get?_erase_eq (t : Table κ α) (k : κ) : (t.erase k).get? = update t.get? k none := by
  funext k'
  rw [get?_erase, Function.update_apply]

/-- What is left was there. -/
theorem get?_of_erase {t : Table κ α} {k k' : κ} {v : α} (h : (t.erase k).get? k' = some v) :
    t.get? k' = some v := by
  rw [get?_erase] at h
  split at h
  · cases h
  · exact h

/-- Dropping a key that has no value changes nothing. -/
theorem erase_of_none (h : t.get? k = none) : t.erase k = t := by
  obtain ⟨l, nd⟩ := t
  simp only [erase, mk.injEq, List.filter_eq_self, decide_eq_true_eq]
  rintro ⟨k', v⟩ hm rfl
  rw [(mem_entries_iff ⟨l, nd⟩ k' v).mp hm] at h
  cases h

/-- Dropping a key that has just got its first value. -/
theorem erase_insert (v : α) (h : t.get? k = none) : (t.insert k v).erase k = t := by
  have htwice : (t.insert k v).erase k = t.erase k := by simp [insert, erase]
  rw [htwice, erase_of_none h]

theorem values_insert (t : Table κ α) (k : κ) (v : α) :
    (t.insert k v).values = v :: (t.erase k).values := rfl

/-- The values are the one under `k` and the others. -/
theorem values_perm (h : t.get? k = some v) : t.values.Perm (v :: (t.erase k).values) := by
  have hp : t.entries.Perm ((k, v) :: (t.erase k).entries) := by
    refine (List.perm_ext_iff_of_nodup (.of_map _ t.nodup) ?_).mpr fun ⟨k', v'⟩ => ?_
    · exact List.nodup_cons.mpr ⟨by simp [erase], .of_map _ (t.erase k).nodup⟩
    · rw [List.mem_cons, mem_entries_iff, mem_entries_iff, get?_erase]
      by_cases hk : k' = k
      · simp [hk, h, eq_comm]
      · simp [hk]
  exact hp.map Prod.snd

theorem mem_values : v ∈ t.values ↔ ∃ k, t.get? k = some v := by
  simp only [values, List.mem_map, Prod.exists, exists_eq_right, mem_entries_iff]

end TierAlloc.Table
