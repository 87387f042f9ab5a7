import TierAlloc.Proofs.Cache.Channel

/-!
# Areas that are held

The words of an area are written at three moments while a handoff holds it: when it gets the
area, when a delivery succeeds, and when a collection does. What these leave true of the handoff
and the words stays true of every handoff that holds an area, whatever else owner and peers do
and in whatever order.

**Results.**
* `EachArea.carry`, `EachArea.finish`: operations at the region, and the end of a handoff.
* `Channel.eachArea_step`: every step of a channel.
-/
namespace TierAlloc

/-- `P` holds of every handoff that holds an area, with the words of that area. -/
def EachArea (P : Pending → AreaWords → Prop) (x : Exchange) (shm : Shm) (t : Traffic) : Prop :=
  ∀ p ∈ t.pendings, P p (x.words shm p.area)

/-- What is written to the words of an area while a handoff holds it leaves `P` true. -/
structure Survives (allowed : Traffic → Descriptor → Prop) (x : Exchange)
    (P : Pending → AreaWords → Prop) : Prop where
  placed : ∀ (o : Offer) (area : Nat), o.transfer.size ≤ x.layout.areaSize →
    P (o.pending area) o.shown
  delivered : ∀ p w t d (data : Bytes), P p w → allowed t d → data.length ≤ d.size →
    P p { w with signal := Signal.dataReady, length := data.length % wordRange }
  collected : ∀ p w, P p w → P p { w with signal := Signal.consumed }

/-- What holds before the event as `P` holds after it as `P'`, with what the event itself tells. -/
structure Carries (allowed : Traffic → Descriptor → Prop) (x : Exchange) (e : Traffic.Event)
    (P P' : Pending → AreaWords → Prop) : Prop where
  kept : ∀ p w, P p w → P' p w
  placed : ∀ (o : Offer) (area : Nat), o.transfer.size ≤ x.layout.areaSize →
    P' (o.pending area) o.shown
  delivered : ∀ p w t q d (data : Bytes), P p w → e = .deliver q d data (.ok ()) → allowed t d →
    d.id = w.segment → data.length ≤ d.size → data.length < regionSizeLimit →
    P' p { w with signal := Signal.dataReady, length := data.length % wordRange }
  collected : ∀ p w, P p w → P' p { w with signal := Signal.consumed }

theorem Survives.carries {allowed : Traffic → Descriptor → Prop} {x : Exchange} {P : Pending → AreaWords → Prop}
    (h : Survives allowed x P) (e : Traffic.Event) : Carries allowed x e P P where
  kept _ _ := id
  placed := h.placed
  delivered p w t _ d data hp _ hd _ hle _ := h.delivered p w t d data hp hd hle
  collected := h.collected

namespace EachArea

variable {P P' : Pending → AreaWords → Prop} {x : Exchange} {shm shm' : Shm} {t t' : Traffic}

theorem mono (h : EachArea P x shm t) (hk : ∀ p w, P p w → P' p w) : EachArea P' x shm t :=
  fun p hp => hk p _ (h p hp)

theorem congr (h : EachArea P x shm t) (ht : ∀ p ∈ t'.pendings, p ∈ t.pendings)
    (hw : ∀ p ∈ t'.pendings, x.words shm' p.area = x.words shm p.area) : EachArea P x shm' t' := by
  intro p hp
  rw [hw p hp]
  exact h p (ht p hp)

/-- An operation that put all bytes back. -/
theorem untouched (h : EachArea P x shm t)
    (hp : Shm.Patch x.region.object (fun _ => False) shm shm') : EachArea P x shm' t :=
  h.congr (fun _ => id) fun p _ => Exchange.words_eq_of_patch hp p.area fun _ _ => id

/-- What happens to other objects and under other names. -/
theorem beside (h : EachArea P x shm t) (hb : Shm.Beside x.region.name x.region.object shm shm') :
    EachArea P x shm' t :=
  h.congr (fun _ => id) fun p _ => congrFun (Exchange.words_congr hb.object.bytes_eq) p.area

/-- A peer that moved an area on, and left words there that `P'` allows. -/
theorem serve (h : EachArea P x shm t) (hheld : Held x shm t) {dir : Direction} {area : Nat}
    (hs : x.Served dir shm shm' area) (hk : ∀ p w, P p w → P' p w)
    (hw : ∀ p, P p (x.words shm area) → P' p (x.words shm' area))
    (ht : t'.pendings = t.pendings) : EachArea P' x shm' t' := by
  intro p hp
  rw [ht] at hp
  by_cases ha : p.area = area
  · rw [ha]
    refine hw p ?_
    rw [← ha]
    exact h p hp
  · rw [hs.others _ (hheld.area_lt p hp) ha]
    exact hk p _ (h p hp)

theorem carry {manager : String} {allowed : Traffic → Descriptor → Prop} {e : Traffic.Event}
    (hP : Carries allowed x e P P') (h : EachArea P x shm t) (hheld : Held x shm t)
    (hs : Traffic.Step manager allowed (shm, t) e (shm', t')) : EachArea P' x shm' t' := by
  cases hs with
  | @placed _ _ _ a pre post p ht hp =>
    have ha : a ∈ t.asked := by simp [ht]
    obtain ⟨-, area, hlow, hr, hpatch, hwords, -⟩ := hheld.asked_place ha hp
    obtain rfl := Except.ok.inj hr
    have hfree := (hheld.unlocked_iff hlow.lt).mp hlow.unlocked
    intro q hq
    rcases List.mem_cons.mp hq with rfl | hq
    · show P' (a.offer.pending area) (x.words shm' area)
      rw [hwords]
      exact hP.placed _ _ (hheld.asked a ha).2
    · rw [Exchange.words_eq_of_part hpatch (hfree q hq) (hheld.area_lt q hq)]
      exact hP.kept q _ (h q hq)
  | refused ht hp => exact absurd hp (hheld.not_refused (by simp [ht]))
  | attach => exact h.mono hP.kept
  | @delivered _ _ _ p d data hp hd hdel =>
    rw [(hheld.peers p hp).deliver_eq] at hdel
    obtain ⟨area, hdel⟩ := Peer.deliver_ok hheld.object_lt hdel
    refine h.serve hheld hdel.served hP.kept (fun q hq => ?_) (t.pendings_note d data)
    have hwords : x.words shm' area = _ := hdel.words
    have hinside : x.layout.areaOffset area + data.length ≤ x.region.size := hdel.inside
    have hbelow := hheld.placed.below
    rw [hwords]
    exact hP.delivered q _ t p d data hq rfl hd hdel.claims.segment.symm hdel.length_le (by omega)
  | undelivered hp _ hdel =>
    rw [(hheld.peers _ hp).deliver_eq] at hdel
    exact (h.untouched (Peer.deliver_error hheld.object_lt hdel)).mono hP.kept
  | @collected _ _ _ p d data hp _ hcol =>
    rw [(hheld.peers p hp).collect_eq] at hcol
    obtain ⟨area, hcol⟩ := Peer.collect_ok hheld.object_lt hcol
    refine h.serve hheld hcol.served hP.kept (fun q hq => ?_) (t.pendings_note d data)
    have hwords : x.words shm' area = _ := hcol.words
    rw [hwords]
    exact hP.collected q _ hq
  | uncollected hp _ hcol =>
    rw [(hheld.peers _ hp).collect_eq] at hcol
    exact (h.untouched (Peer.collect_error hheld.object_lt hcol)).mono hP.kept

theorem step {manager : String} {allowed : Traffic → Descriptor → Prop} {e : Traffic.Event}
    (hP : Survives allowed x P) (h : EachArea P x shm t) (hheld : Held x shm t)
    (hs : Traffic.Step manager allowed (shm, t) e (shm', t')) : EachArea P x shm' t' :=
  h.carry (hP.carries e) hheld hs

/-- The end of a handoff leaves the words of the others. -/
theorem finish (h : EachArea P x shm t) (hheld : Held x shm t) {k : Cycle} {pre post : List Cycle}
    (ht : t.cycles = pre ++ k :: post) (hend : k.pending.Ended shm shm') :
    EachArea P x shm' { t with cycles := pre ++ post } := by
  have hsplit : t.pendings = pre.map Cycle.pending ++ k.pending :: post.map Cycle.pending := by
    rw [Traffic.pendings, ht, List.map_append, List.map_cons]
  have hnew : Traffic.pendings { t with cycles := pre ++ post } =
      pre.map Cycle.pending ++ post.map Cycle.pending := List.map_append ..
  have hwords := hend.words
  rw [hheld.exchange k.pending (by simp [hsplit])] at hwords
  refine h.congr (fun p hp => mem_of_split hsplit (hnew ▸ hp)) fun p hp => ?_
  rw [hwords, Function.update_of_ne (hheld.area_ne hsplit (hnew ▸ hp))]

end EachArea

namespace Channel

variable {manager : String} {allowed : Traffic → Descriptor → Prop} {x : Exchange}
  {P : Pending → AreaWords → Prop} {s s' : Channel} {e : Event}

/-- Every step of a channel, whatever descriptors peers present. -/
theorem eachArea_step (hP : Survives allowed x P) (h : InOrder manager x s)
    (he : EachArea P x s.shm s.traffic) (hs : Step manager allowed s e s') :
    EachArea P x s'.shm s'.traffic := by
  have hsettled : ∀ {goal pre post} {c : Cycle} {r cache shm},
      s.traffic.cycles = pre ++ c :: post →
      c.pending.settle? goal [] s.cache s.shm = some (r, cache, shm) →
      EachArea P x shm (ended s.traffic pre post) := by
    intro goal pre post c r cache shm ht hs
    exact he.finish h.held ht (h.held.settle (Traffic.pending_of_split ht) hs).1
  cases hs with
  | entry => exact he
  | askMalloc => exact he
  | denyMalloc => exact he
  | askRetrieve => exact he
  | denyRetrieve => exact he
  | exchange ht => exact he.step hP h.held ht
  | wait ht hs => exact hsettled ht hs
  | waitTimeout ht hs => exact hsettled ht hs
  | @drop pre c post ht =>
    have hend := h.held.drop (Traffic.pending_of_split ht)
    unfold ended
    generalize Pending.drop _ s.shm = shm at hend ⊢
    exact he.finish h.held ht hend
  | draw => exact he
  | beside hb => exact he.beside (hb x h.exchange)

end Channel
end TierAlloc
