import Mathlib.Data.List.Pairwise
import TierAlloc.Proofs.Exchange.Traffic

/-!
# Ids that wait for a payload

An inbound handoff has an id of its own from the moment it is asked for, and under
that id nothing is stored before its wait succeeds. `Traffic.awaited` lists the ids
of the inbound handoffs that are not over, with and without an area. They are
distinct and drawn from the counter, whatever peers do.

**Results.**
* `Fresh.step`: the traffic keeps the awaited ids; getting an area moves one.
* `Fresh.ask`, `Fresh.offer`, `Fresh.finish`: asking adds an id, the end takes it away.
-/
namespace TierAlloc

/-- The id that the handoff will store its payload under. -/
def Offer.awaits (o : Offer) : Option Nat :=
  match o.transfer with
  | .inbound _ => some o.id
  | .outbound _ => none

def Pending.awaits (p : Pending) : Option Nat :=
  match p.direction with
  | .inbound => some p.segment.id
  | .outbound => none

theorem Offer.awaits_pending (o : Offer) (area : Nat) : (o.pending area).awaits = o.awaits := by
  unfold Pending.awaits Offer.awaits
  cases h : o.transfer <;> simp [h, Transfer.direction]

/-- What gets an area is the offer in that area. -/
theorem Offer.place?_ok {o : Offer} {shm shm' : Shm} {p : Pending}
    (h : o.place? shm = some (.ok p, shm')) : ∃ area, p = o.pending area := by
  unfold place? at h
  split at h
  · cases h
  split at h
  · cases h
  · simp only [Option.some.injEq, Prod.mk.injEq, Except.ok.injEq] at h
    exact ⟨_, h.1.symm⟩

namespace Traffic

/-- The ids of the inbound handoffs that are not over. -/
def awaited (t : Traffic) : List Nat :=
  t.asked.filterMap (·.offer.awaits) ++ t.cycles.filterMap (·.pending.awaits)

theorem mem_awaited {t : Traffic} {id : Nat} : id ∈ t.awaited ↔
    (∃ a ∈ t.asked, a.offer.awaits = some id) ∨ ∃ c ∈ t.cycles, c.pending.awaits = some id := by
  simp only [awaited, List.mem_append, List.mem_filterMap]

theorem awaited_note (t : Traffic) (d : Descriptor) (payload : Bytes) :
    (t.note d payload).awaited = t.awaited := by
  unfold awaited note
  simp only [List.filterMap_map, Function.comp_def]
  congr 1
  apply List.filterMap_congr
  intro c _
  unfold Cycle.note
  split <;> rfl

/-- The awaited ids are distinct and have been drawn. -/
structure Fresh (t : Traffic) (ids : Counter) : Prop where
  nodup : t.awaited.Nodup
  lt : ∀ id ∈ t.awaited, id < ids.issued

namespace Fresh

variable {t t' : Traffic} {ids ids' : Counter}

theorem empty (ids : Counter) : Fresh .empty ids :=
  ⟨List.nodup_nil, fun _ h => absurd h List.not_mem_nil⟩

/-- Only which ids are awaited matters. -/
theorem of_perm (h : Fresh t ids) (hp : t'.awaited.Perm t.awaited)
    (hi : ids.issued ≤ ids'.issued) : Fresh t' ids' :=
  ⟨hp.nodup_iff.mpr h.nodup, fun id hid => Nat.lt_of_lt_of_le (h.lt id (hp.mem_iff.mp hid)) hi⟩

theorem draw (h : Fresh t ids) (hi : ids.issued ≤ ids'.issued) : Fresh t ids' :=
  h.of_perm (.refl _) hi

/-- A handoff that is asked for under a new id awaits it. -/
theorem ask (h : Fresh t ids) {a : Asked} (hid : a.offer.id = ids.issued) :
    Fresh { t with asked := a :: t.asked } ids.draw.2 := by
  cases ha : a.offer.awaits with
  | none => exact h.of_perm (by simp [awaited, ha]) (Nat.le_succ _)
  | some id =>
    have hid : id = ids.issued := by
      rw [← hid]
      unfold Offer.awaits at ha
      split at ha
      · exact (Option.some.inj ha).symm
      · cases ha
    have he : awaited { t with asked := a :: t.asked } = id :: t.awaited := by
      simp [awaited, ha]
    constructor
    · rw [he, List.nodup_cons]
      exact ⟨fun hm => Nat.lt_irrefl _ (hid ▸ h.lt id hm), h.nodup⟩
    · rw [he, List.forall_mem_cons]
      refine ⟨?_, fun k hk => Nat.lt_succ_of_lt (h.lt k hk)⟩
      rw [hid]
      exact Nat.lt_succ_self _

/-- A handoff that gives bytes away awaits nothing. -/
theorem offer (h : Fresh t ids) {a : Asked} (ha : a.offer.awaits = none) :
    Fresh { t with asked := a :: t.asked } ids :=
  h.of_perm (by simp [awaited, ha]) (Nat.le_refl _)

/-- An id that is awaited without an area is not awaited with one. -/
theorem asked_ne (h : Fresh t ids) {a : Asked} {k : Cycle} {id : Nat} (ha : a ∈ t.asked)
    (hk : k ∈ t.cycles) (haw : a.offer.awaits = some id) : k.pending.awaits ≠ some id := by
  intro hkw
  have hn := h.nodup
  rw [awaited, List.nodup_append] at hn
  exact hn.2.2 id (List.mem_filterMap.mpr ⟨a, ha, haw⟩) id (List.mem_filterMap.mpr ⟨k, hk, hkw⟩) rfl

/-- One handoff awaits an id. -/
theorem cycle_unique (h : Fresh t ids) {k k' : Cycle} {id : Nat} (hk : k ∈ t.cycles)
    (hk' : k' ∈ t.cycles) (hw : k.pending.awaits = some id) (hw' : k'.pending.awaits = some id) :
    k = k' := by
  have hn := h.nodup
  rw [awaited, List.nodup_append] at hn
  have hp := List.pairwise_filterMap.mp hn.2.1
  have hsymm : Std.Symm fun k k' : Cycle => ∀ b ∈ k.pending.awaits, ∀ b' ∈ k'.pending.awaits, b ≠ b' :=
    ⟨fun _ _ hr b hb b' hb' he => hr b' hb' b hb he.symm⟩
  by_contra hne
  exact hp.forall hk hk' hne id hw id hw' rfl

theorem awaited_finish {pre post : List Cycle} {c : Cycle} (ht : t.cycles = pre ++ c :: post) :
    t.awaited.Perm (c.pending.awaits.toList ++ awaited { t with cycles := pre ++ post }) := by
  unfold awaited
  rw [ht]
  simp only [List.filterMap_append, List.filterMap_cons]
  cases c.pending.awaits with
  | none => simp
  | some id =>
    simp only [Option.toList_some, List.singleton_append, ← List.append_assoc]
    exact List.perm_middle

/-- An id whose handoff is over is not awaited any more, and the others still are. -/
theorem finish (h : Fresh t ids) {pre post : List Cycle} {c : Cycle}
    (ht : t.cycles = pre ++ c :: post) :
    Fresh { t with cycles := pre ++ post } ids ∧
      (∀ id, c.pending.awaits = some id → id ∉ awaited { t with cycles := pre ++ post }) ∧
      ∀ id ∈ awaited { t with cycles := pre ++ post }, id ∈ t.awaited := by
  have hperm := awaited_finish ht
  have hnodup := hperm.nodup_iff.mp h.nodup
  rw [List.nodup_append] at hnodup
  have hsub : ∀ id ∈ awaited { t with cycles := pre ++ post }, id ∈ t.awaited :=
    fun id hid => hperm.mem_iff.mpr (List.mem_append_right _ hid)
  refine ⟨⟨hnodup.2.1, fun id hid => h.lt id (hsub id hid)⟩, ?_, hsub⟩
  intro id hid hm
  exact hnodup.2.2 id (by simp [hid]) id hm rfl

theorem awaited_placed {pre post : List Asked} {a : Asked} (ht : t.asked = pre ++ a :: post)
    {p : Pending} (hp : p.awaits = a.offer.awaits) (transfer : Transfer) (issued : List Descriptor) :
    (awaited { t with asked := pre ++ post, cycles := ⟨p, transfer, []⟩ :: t.cycles, issued }).Perm
      t.awaited := by
  unfold awaited
  rw [ht]
  simp only [List.filterMap_append, List.filterMap_cons, hp]
  cases a.offer.awaits with
  | none => simp
  | some id =>
    simp only [List.append_assoc, List.cons_append]
    refine List.Perm.append_left _ ?_
    exact List.perm_middle

/-- Whatever happens at the region, the awaited ids stay distinct. An offer that could not
be loaded is not awaited any more. -/
theorem step {manager : String} {allowed : Traffic → Descriptor → Prop} {e : Event}
    {shm shm' : Shm} (h : Fresh t ids) (hs : Step manager allowed (shm, t) e (shm', t')) :
    Fresh t' ids ∧ ∀ id ∈ t'.awaited, id ∈ t.awaited := by
  have hsame : t'.awaited.Perm t.awaited → Fresh t' ids ∧ ∀ id ∈ t'.awaited, id ∈ t.awaited :=
    fun hp => ⟨h.of_perm hp (Nat.le_refl _), fun _ => hp.mem_iff.mp⟩
  cases hs with
  | @placed _ _ _ a pre post p ht hp =>
    obtain ⟨area, rfl⟩ := Offer.place?_ok hp
    exact hsame (awaited_placed ht (a.offer.awaits_pending area) _ _)
  | @refused _ _ _ a pre post e ht hp =>
    have hsub : (awaited { t with asked := pre ++ post }).Sublist t.awaited := by
      unfold awaited
      rw [ht]
      exact (((List.sublist_cons_self a post).append_left pre).filterMap _).append_right _
    exact ⟨⟨hsub.nodup h.nodup, fun id hid => h.lt id (hsub.mem hid)⟩, fun id => hsub.mem⟩
  | attach => exact hsame (.refl _)
  | delivered => exact hsame (.of_eq (awaited_note ..))
  | undelivered => exact hsame (.refl _)
  | collected => exact hsame (.of_eq (awaited_note ..))
  | uncollected => exact hsame (.refl _)

end Fresh
end Traffic
end TierAlloc
