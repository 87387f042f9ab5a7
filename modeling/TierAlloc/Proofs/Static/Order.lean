import TierAlloc.Proofs.Static.Room

/-!
# The order of the search

The pools of a batch stand by descending chunk size, and those of one size in the order of
their ids (`Pool.Leads`). A request goes first to the pools whose chunks it fills exactly, as
they stand, and then to the others by ascending remainder, where equal ones again stay as
they stand (`Pool.Before`). Both orders come from stable sorts of lists that were in order
before. They leave no two pools of a batch unordered, so they say exactly in which order the
pools are asked.

**Results.**
* `pairwise_mergeSort_stable`: what a stable sort keeps.
* `Batch.leads_bySize`: the pools of a batch as they stand.
* `Batch.inOrder_searchOrder`, `Batch.InOrder.unique`: the order in which they are asked.
-/
namespace TierAlloc

/-- Sorting does not swap elements that compare equal. -/
theorem pairwise_mergeSort_stable {α : Type} {le : α → α → Bool} {R : α → α → Prop} {l : List α}
    (trans : ∀ a b c, le a b = true → le b c = true → le a c = true)
    (total : ∀ a b, (le a b || le b a) = true) (h : l.Pairwise R) :
    (l.mergeSort le).Pairwise fun a b => le a b = true ∧ (le b a = true → R a b) := by
  rw [List.pairwise_iff_forall_sublist]
  intro a b hab
  have hle : le a b = true := List.pairwise_iff_forall_sublist.mp (List.pairwise_mergeSort trans total l) hab
  refine ⟨hle, fun hba => ?_⟩
  -- the elements that compare equal to `a` come out as they went in
  have haa : le a a = true := by simpa using total a a
  let same : α → Bool := fun x => le a x && le x a
  have hsub : (l.filter same).Sublist ((l.mergeSort le).filter same) := by
    have hequal : (l.filter same).Pairwise fun x y => le x y = true := by
      refine List.pairwise_of_forall_mem_list fun x hx y hy => ?_
      have hx := (List.mem_filter.mp hx).2
      have hy := (List.mem_filter.mp hy).2
      simp only [same, Bool.and_eq_true] at hx hy
      exact trans x a y hx.2 hy.1
    have := (List.sublist_mergeSort trans total hequal List.filter_sublist).filter same
    simpa using this
  have heq : l.filter same = (l.mergeSort le).filter same :=
    hsub.eq_of_length ((List.mergeSort_perm l le).symm.filter same).length_eq
  have hpair : [a, b].Sublist (l.filter same) := by
    have := hab.filter same
    rwa [← heq, List.filter_eq_self.mpr (by simp [same, haa, hle, hba])] at this
  exact List.pairwise_iff_forall_sublist.mp (h.filter same) hpair

namespace Pool

/-- `p` stands before `q`: it has larger chunks, or chunks of the same size and the lower id. -/
def Leads (p q : Pool) : Prop := q.chunkSize < p.chunkSize ∨ p.chunkSize = q.chunkSize ∧ p.id < q.id

/-- `p` is asked for `n` bytes before `q`. -/
inductive Before (n : Nat) (p q : Pool) : Prop
  | divides (hp : p.chunkSize ∣ n) (hq : ¬q.chunkSize ∣ n)
  | leads (hp : p.chunkSize ∣ n) (hq : q.chunkSize ∣ n) (h : p.Leads q)
  | less (hp : ¬p.chunkSize ∣ n) (hq : ¬q.chunkSize ∣ n) (h : n % p.chunkSize < n % q.chunkSize)
  | tie (hp : ¬p.chunkSize ∣ n) (hq : ¬q.chunkSize ∣ n) (h : n % p.chunkSize = n % q.chunkSize)
      (hl : p.Leads q)

variable {p q : Pool} {n : Nat}

/-- An exact divisor is one that leaves no remainder, so the remainder alone decides. -/
theorem before_iff : Before n p q ↔
    n % p.chunkSize < n % q.chunkSize ∨ n % p.chunkSize = n % q.chunkSize ∧ p.Leads q := by
  constructor
  · intro h
    cases h with
    | divides hp hq =>
      rw [Nat.dvd_iff_mod_eq_zero] at hp hq
      omega
    | leads hp hq h =>
      rw [Nat.dvd_iff_mod_eq_zero] at hp hq
      exact Or.inr ⟨by omega, h⟩
    | less _ _ h => exact Or.inl h
    | tie _ _ h hl => exact Or.inr ⟨h, hl⟩
  · intro h
    by_cases hp : p.chunkSize ∣ n <;> by_cases hq : q.chunkSize ∣ n
    · have hp' := Nat.dvd_iff_mod_eq_zero.mp hp
      have hq' := Nat.dvd_iff_mod_eq_zero.mp hq
      exact .leads hp hq (h.resolve_left (by omega)).2
    · exact .divides hp hq
    · have hp' := mt Nat.dvd_iff_mod_eq_zero.mpr hp
      have hq' := Nat.dvd_iff_mod_eq_zero.mp hq
      omega
    · rcases h with h | ⟨h, hl⟩
      · exact .less hp hq h
      · exact .tie hp hq h hl

theorem Before.asymm (h : Before n p q) : ¬Before n q p := by
  intro h'
  rw [before_iff] at h h'
  unfold Leads at h h'
  omega

end Pool

namespace Batch

/-- All pools of the batch, in the order in which they are asked for `n` bytes. -/
structure InOrder (b : Batch) (n : Nat) (order : List Pool) : Prop where
  all : order.Perm b.pools
  sorted : order.Pairwise (Pool.Before n)

variable {b : Batch} {n : Nat} {pools order order' : List Pool}

/-- Pools that were laid out in the order of their ids come to stand by size. -/
theorem leads_bySize (h : pools.Pairwise fun p q => p.id < q.id) : (bySize pools).Pairwise Pool.Leads := by
  refine (pairwise_mergeSort_stable ?_ ?_ h).imp fun {p q} hpq => ?_
  · simp only [decide_eq_true_eq]
    omega
  · simp only [Bool.or_eq_true, decide_eq_true_eq]
    omega
  · simp only [decide_eq_true_eq] at hpq
    unfold Pool.Leads
    omega

/-- The pools of a batch are asked in this order. -/
theorem inOrder_searchOrder (h : b.pools.Pairwise Pool.Leads) (n : Nat) : b.InOrder n (b.searchOrder n) := by
  unfold searchOrder
  refine ⟨?_, List.pairwise_append.mpr ⟨?_, ?_, fun p hp q hq => ?_⟩⟩
  · have hsplit := List.filter_append_perm (fun p : Pool => decide (n % p.chunkSize = 0)) b.pools
    simp only [← decide_not] at hsplit
    exact ((List.mergeSort_perm ..).append_left _).trans hsplit
  · refine (h.filter _).imp_of_mem fun {p q} hp hq hl => ?_
    have hp := of_decide_eq_true (List.mem_filter.mp hp).2
    have hq := of_decide_eq_true (List.mem_filter.mp hq).2
    exact .leads (Nat.dvd_of_mod_eq_zero hp) (Nat.dvd_of_mod_eq_zero hq) hl
  · refine (pairwise_mergeSort_stable ?_ ?_ (h.filter _)).imp fun {p q} hpq => ?_
    · simp only [decide_eq_true_eq]
      omega
    · simp only [Bool.or_eq_true, decide_eq_true_eq]
      omega
    · simp only [decide_eq_true_eq] at hpq
      rw [Pool.before_iff]
      by_cases heq : n % p.chunkSize = n % q.chunkSize
      · exact Or.inr ⟨heq, hpq.2 (by omega)⟩
      · exact Or.inl (by omega)
  · have hp := of_decide_eq_true (List.mem_filter.mp hp).2
    have hq := of_decide_eq_true (List.mem_filter.mp (List.mem_mergeSort.mp hq)).2
    exact .divides (Nat.dvd_of_mod_eq_zero hp) (mt Nat.mod_eq_zero_of_dvd hq)

/-- There is only one such order. -/
theorem InOrder.unique (h : b.InOrder n order) (h' : b.InOrder n order') : order = order' :=
  List.Perm.eq_of_pairwise (fun _ _ _ _ hpq hqp => absurd hqp hpq.asymm) h.sorted h'.sorted
    (h.all.trans h'.all.symm)

end Batch
end TierAlloc
