/-!
# Keyed tables

A `Table` holds at most one value per key; every id-to-object map of the
allocator is one (cache entries, ephemeral regions, live segments, attached
regions). The view is `get?`: an insertion or removal changes it at its own key
and nowhere else. The order of the entries is never observable.

**Results.**
* `get?_insert`, `get?_erase`: each operation through the view.
* `contains_eq`: membership is a defined look-up.
* `mem_entries_iff`: the stored pairs are exactly the defined look-ups.
-/
namespace TierAlloc

structure Table (κ : Type u) (α : Type v) where
  entries : List (κ × α)
  nodup : (entries.map Prod.fst).Nodup

namespace Table

variable {κ : Type u} {α : Type v}

def empty : Table κ α := ⟨[], List.nodup_nil⟩

instance : Inhabited (Table κ α) := ⟨empty⟩

/-- Number of keys that have a value. -/
def size (t : Table κ α) : Nat := t.entries.length

def values (t : Table κ α) : List α := t.entries.map Prod.snd

variable [DecidableEq κ]

def get? (t : Table κ α) (k : κ) : Option α := t.entries.lookup k

def contains (t : Table κ α) (k : κ) : Bool := (t.get? k).isSome

theorem nodup_filter (t : Table κ α) (k : κ) :
    ((t.entries.filter (·.1 ≠ k)).map Prod.fst).Nodup :=
  (List.filter_sublist.map _).nodup t.nodup

/-- Drops the value of `k`, if it has one. -/
def erase (t : Table κ α) (k : κ) : Table κ α :=
  ⟨t.entries.filter (·.1 ≠ k), t.nodup_filter k⟩

/-- Gives `k` the value `v`, in place of an earlier one. -/
def insert (t : Table κ α) (k : κ) (v : α) : Table κ α where
  entries := (k, v) :: t.entries.filter (·.1 ≠ k)
  nodup := by
    simp only [List.map_cons, List.nodup_cons]
    exact ⟨by simp, t.nodup_filter k⟩

theorem lookup_filter_ne (l : List (κ × α)) (k k' : κ) :
    (l.filter (·.1 ≠ k)).lookup k' = if k' = k then none else l.lookup k' := by
  induction l with
  | nil => simp
  | cons p l ih =>
    obtain ⟨a, v⟩ := p
    by_cases ha : a = k
    · rw [List.filter_cons_of_neg (by simp [ha]), ih, List.lookup_cons]
      by_cases hk : k' = k
      · simp [hk]
      · have : (k' == a) = false := by simpa [ha] using hk
        simp [hk, this]
    · rw [List.filter_cons_of_pos (by simp [ha]), List.lookup_cons, List.lookup_cons, ih]
      by_cases hk : k' = a
      · simp [hk, ha]
      · have : (k' == a) = false := by simpa using hk
        simp [this]

@[simp] theorem get?_empty (k : κ) : (empty : Table κ α).get? k = none := rfl

theorem get?_insert (t : Table κ α) (k k' : κ) (v : α) :
    (t.insert k v).get? k' = if k' = k then some v else t.get? k' := by
  by_cases h : k' = k
  · simp [get?, insert, h]
  · have hb : (k' == k) = false := by simpa using h
    simp only [get?, insert, List.lookup_cons, hb, lookup_filter_ne, h, if_false]

theorem get?_erase (t : Table κ α) (k k' : κ) :
    (t.erase k).get? k' = if k' = k then none else t.get? k' :=
  lookup_filter_ne t.entries k k'

theorem contains_eq (t : Table κ α) (k : κ) : t.contains k = (t.get? k).isSome := rfl

theorem mem_entries_iff (t : Table κ α) (k : κ) (v : α) :
    (k, v) ∈ t.entries ↔ t.get? k = some v := by
  obtain ⟨l, nd⟩ := t
  simp only [get?]
  induction l with
  | nil => simp
  | cons p l ih =>
    obtain ⟨a, w⟩ := p
    simp only [List.map_cons, List.nodup_cons] at nd
    have hl : ∀ x, (a, x) ∉ l := fun x hx => nd.1 (List.mem_map_of_mem (f := Prod.fst) hx)
    by_cases hk : k = a
    · subst hk
      simp only [List.mem_cons, Prod.mk.injEq, true_and, List.lookup_cons, beq_self_eq_true]
      constructor
      · rintro (rfl | h)
        · rfl
        · exact absurd h (hl v)
      · intro h; exact Or.inl (Option.some.inj h).symm
    · have hb : (k == a) = false := by simpa using hk
      simp only [List.mem_cons, Prod.mk.injEq, hk, false_and, false_or, List.lookup_cons, hb]
      exact ih nd.2

end Table
end TierAlloc
