import TierAlloc.Proofs.Cache.Ending

/-!
# Descriptors of handoffs that are over

A peer may keep a descriptor for as long as it likes and present it again. An area is
known to serve it by two words only, the signal and the segment; no word tells one cycle
of an area from the next. Ids of inbound handoffs are drawn anew, so what has such an id
is never served twice. A segment that is offered again in the same area is: whoever has
the old descriptor may collect the new offer with it.

The counter is one of 64-bit numbers, so the statements are about runs that have drawn
no more ids than that.

**Results.**
* `Identified.step`: ids of handoffs, over and not, against the ids that are awaited.
* `Channel.stale_refused`: a descriptor of a handoff that is over is refused, but for a
  collection from an area that offers its segment again.
* `Channel.stale_collected`: that does happen.
-/
namespace TierAlloc

namespace Peer

variable {q : Peer} {d d' : Descriptor} {dir : Direction} {shm : Shm} {area : Nat}

/-- A claim of an area that does not wait for this segment. -/
theorem claim_refused (hm : d.manager = q.manager) (hl : q.exchange.locate d = .ok area)
    (hr : q.exchange.signal shm area ≠ dir.waiting ∨ q.exchange.segment shm area ≠ d.id) :
    (q.claim d dir shm).1 = .error (.segmentNotFound d.id) := by
  unfold claim
  rw [if_neg (not_not_intro hm), hl]
  by_cases hw : q.exchange.signal shm area = dir.waiting
  · simp only
    rw [if_neg (not_not_intro hw), Exchange.segment_setSignal,
      if_pos (hr.resolve_left (not_not_intro hw))]
  · simp only
    rw [if_pos hw]

theorem deliver_refused {e : Error} (h : (q.claim d .inbound shm).1 = .error e) (data : Bytes) :
    (q.deliver d data shm).1 = .error e := by
  unfold deliver
  split
  · rename_i e' shm' hc
    rw [hc] at h
    exact congrArg Except.error (Except.error.inj h)
  · rename_i area shm' hc
    rw [hc] at h
    cases h

theorem collect_refused {e : Error} (h : (q.claim d .outbound shm).1 = .error e) :
    (q.collect d shm).1 = .error e := by
  unfold collect
  split
  · rename_i e' shm' hc
    rw [hc] at h
    exact congrArg Except.error (Except.error.inj h)
  · rename_i area shm' hc
    rw [hc] at h
    cases h

/-- The size of a descriptor does not matter to who collects. -/
theorem collect_congr (hm : d.manager = d'.manager) (hid : d.id = d'.id) (hk : d.kind = d'.kind)
    (q : Peer) (shm : Shm) : q.collect d shm = q.collect d' shm := by
  have hl : q.exchange.locate d = q.exchange.locate d' := by
    unfold Exchange.locate
    rw [hk, hid]
  unfold collect claim
  rw [hm, hid, hl]

end Peer

namespace Channel

/-- The handoff has an id that was drawn, and is named by its area. -/
structure Labelled (manager : String) (x : Exchange) (issued : Nat) (p : Pending) : Prop where
  manager : p.segment.manager = manager
  kind : p.segment.kind = .cache (x.layout.locator p.area)
  lt : p.segment.id < issued

/-- The ids of the handoffs of a channel. Those that an inbound handoff awaits are new: no
entry has them, and no other handoff. -/
structure Identified (manager : String) (x : Exchange) (s : Channel) : Prop where
  order : InOrder manager x s
  owned : s.cache.manager = manager
  fresh : s.traffic.Fresh s.ids
  drawn : ∀ id, s.ids.issued ≤ id → s.cache.contents? id = none
  absent : ∀ id ∈ s.traffic.awaited, s.cache.contents? id = none
  asked : ∀ a ∈ s.traffic.asked, a.offer.manager = manager ∧ a.offer.id < s.ids.issued ∧
    (a.offer.awaits = none → a.offer.id ∉ s.traffic.awaited)
  labelled : ∀ p ∈ s.traffic.pendings, Labelled manager x s.ids.issued p
  other : ∀ p ∈ s.traffic.pendings, p.awaits = none → p.segment.id ∉ s.traffic.awaited
  peers : ∀ q ∈ s.traffic.peers, q.manager = manager ∧ 0 < x.layout.areaSize

/-- The handoff is over: nobody will await its id any more. -/
structure Over (manager : String) (x : Exchange) (s : Channel) (p : Pending) : Prop where
  labelled : Labelled manager x s.ids.issued p
  area_lt : p.area < x.layout.areaCount
  gone : p.segment.id ∉ s.traffic.awaited

section
variable {manager : String} {allowed : Traffic → Descriptor → Prop} {x : Exchange} {s s' : Channel}
  {e : Event} {p : Pending}

theorem Labelled.mono {issued issued' : Nat} (h : Labelled manager x issued p)
    (hle : issued ≤ issued') : Labelled manager x issued' p :=
  { h with lt := Nat.lt_of_lt_of_le h.lt hle }

/-- Its descriptor names its area. -/
theorem Labelled.locate {issued : Nat} (h : Labelled manager x issued p)
    (ha : p.area < x.layout.areaCount) (hpos : 0 < x.layout.areaSize) :
    x.locate p.descriptor = .ok p.area := by
  have hkind : p.descriptor.kind = .cache (.area (x.layout.areaOffset p.area)
      (Layout.signalOffset p.area)) := h.kind
  unfold Exchange.locate
  rw [hkind]
  simp only [Layout.areaAt?_locator ha hpos]

theorem Over.step (h : Over manager x s p) (hfresh : s.traffic.Fresh s.ids)
    (hs : Step manager allowed s e s') : Over manager x s' p where
  labelled := h.labelled.mono hs.ids_le
  area_lt := h.area_lt
  gone hid := by
    rcases hs.awaited hfresh hid with hid | hge
    · exact h.gone hid
    · exact absurd h.labelled.lt (Nat.not_lt_of_le hge)

/-- What adds no handoff and no peer keeps the ids in order, if it stores nothing under an id
that is awaited or was not drawn. -/
theorem Identified.mono (h : Identified manager x s) (hs : Step manager allowed s e s')
    (howned : s'.cache.manager = s.cache.manager) (hfresh : s'.traffic.Fresh s'.ids)
    (hdrawn : ∀ id, s'.ids.issued ≤ id → s'.cache.contents? id = none)
    (habsent : ∀ id ∈ s'.traffic.awaited, s'.cache.contents? id = none)
    (hasked : ∀ a ∈ s'.traffic.asked, a ∈ s.traffic.asked)
    (hpendings : ∀ p ∈ s'.traffic.pendings, p ∈ s.traffic.pendings)
    (hpeers : ∀ q ∈ s'.traffic.peers, q ∈ s.traffic.peers) : Identified manager x s' where
  order := h.order.step hs
  owned := howned.trans h.owned
  fresh := hfresh
  drawn := hdrawn
  absent := habsent
  asked a ha := by
    obtain ⟨hm, hlt, hother⟩ := h.asked a (hasked a ha)
    refine ⟨hm, Nat.lt_of_lt_of_le hlt hs.ids_le, fun hn hid => ?_⟩
    exact (hs.awaited h.fresh hid).elim (hother hn) fun hge => absurd hlt (Nat.not_lt_of_le hge)
  labelled p hp := (h.labelled p (hpendings p hp)).mono hs.ids_le
  other p hp hn hid := by
    have hlt := (h.labelled p (hpendings p hp)).lt
    exact (hs.awaited h.fresh hid).elim (h.other p (hpendings p hp) hn)
      fun hge => absurd hlt (Nat.not_lt_of_le hge)
  peers q hq := h.peers q (hpeers q hq)

/-- Work of the owner on its entries. -/
theorem Identified.kept (h : Identified manager x s) {c : Cache} {ids : Counter}
    (hs : Step manager allowed s e { s with cache := c, ids }) (hk : s.cache.Kept s.ids c ids) :
    Identified manager x { s with cache := c, ids } := by
  refine h.mono hs hk.manager (h.fresh.draw hk.ids_le) (fun id hid => ?_) (fun id hid => ?_)
    (fun _ => id) (fun _ => id) fun _ => id
  · exact hk.absent id (Or.inr hid) (h.drawn id (Nat.le_trans hk.ids_le hid))
  · exact hk.absent id (Or.inl (h.fresh.lt id hid)) (h.absent id hid)

/-- The end of a handoff. Its own id may come to have an entry, if it was awaited. -/
theorem Identified.finish (h : Identified manager x s) {pre post : List Cycle} {k : Cycle}
    {c : Cache} {shm : Shm} (ht : s.traffic.cycles = pre ++ k :: post)
    (hs : Step manager allowed s e { s with cache := c, shm, traffic := ended s.traffic pre post })
    (hm : c.manager = s.cache.manager)
    (hc : c.contents? = s.cache.contents? ∨ k.pending.awaits = some k.pending.segment.id ∧
      ∃ data, c.contents? = Function.update s.cache.contents? k.pending.segment.id (some data)) :
    Identified manager x { s with cache := c, shm, traffic := ended s.traffic pre post } := by
  have hk := Traffic.pending_of_split ht
  obtain ⟨hfresh, hgone, hstill⟩ := h.fresh.finish ht
  have hnone : ∀ id, id ≠ k.pending.segment.id ∨ k.pending.awaits ≠ some id →
      s.cache.contents? id = none → c.contents? id = none := by
    intro id hid hn
    rcases hc with hc | ⟨haw, data, hc⟩
    · rw [hc, hn]
    · have hne : id ≠ k.pending.segment.id := hid.elim (fun hne => hne) fun hne he => hne (he ▸ haw)
      rw [hc, Function.update_of_ne hne, hn]
  refine h.mono hs hm hfresh (fun id hid => ?_) (fun id hid => ?_) (fun _ => id) (fun p hp => ?_)
    fun _ => id
  · have hlt := (h.labelled _ hk).lt
    exact hnone id (Or.inl (Nat.ne_of_gt (Nat.lt_of_lt_of_le hlt hid))) (h.drawn id hid)
  · exact hnone id (Or.inr fun haw => hgone id haw hid) (h.absent id (hstill id hid))
  · rw [Traffic.pendings, List.mem_map] at hp ⊢
    obtain ⟨k', hk', rfl⟩ := hp
    exact ⟨k', mem_of_split ht hk', rfl⟩

theorem Identified.settled (h : Identified manager x s) {goal : Goal} {pre post : List Cycle}
    {k : Cycle} {r : Except Error Segment} {c : Cache} {shm : Shm}
    (ht : s.traffic.cycles = pre ++ k :: post)
    (hs : Step manager allowed s e { s with cache := c, shm, traffic := ended s.traffic pre post })
    (hsettle : k.pending.settle? goal [] s.cache s.shm = some (r, c, shm)) :
    Identified manager x { s with cache := c, shm, traffic := ended s.traffic pre post } := by
  obtain ⟨-, ⟨-, htake⟩ | ⟨-, -, rfl⟩⟩ := h.order.held.settle (Traffic.pending_of_split ht) hsettle
  · cases r with
    | error e =>
      have hb := (Pending.take_error htake).2
      exact h.finish ht hs hb.manager (Or.inl hb.contents)
    | ok seg =>
      rcases Pending.take_ok htake with ⟨-, -, rfl⟩ | ⟨hdir, -, -, hb⟩
      · exact h.finish ht hs rfl (Or.inl rfl)
      · refine h.finish ht hs hb.manager (Or.inr ⟨?_, _, hb.contents⟩)
        rw [Pending.awaits, hdir]
  · exact h.finish ht hs rfl (Or.inl rfl)

/-- Asking for a handoff under an id of its own, or under that of an entry. -/
theorem Identified.ask (h : Identified manager x s) {a : Asked} {ids : Counter}
    (hs : Step manager allowed s e { s with ids, traffic := asking s.traffic a })
    (hfresh : (asking s.traffic a).Fresh ids) (hm : a.offer.manager = manager)
    (hid : a.offer.id < ids.issued)
    (hold : a.offer.awaits = none → a.offer.id < s.ids.issued ∧ a.offer.id ∉ s.traffic.awaited) :
    Identified manager x { s with ids, traffic := asking s.traffic a } := by
  have hle : s.ids.issued ≤ ids.issued := hs.ids_le
  have hnew : ∀ {id}, id < s.ids.issued → id ∉ s.traffic.awaited →
      id ∉ (asking s.traffic a).awaited := fun hlt hn hmem =>
    (hs.awaited h.fresh hmem).elim hn fun hge => absurd hlt (Nat.not_lt_of_le hge)
  refine ⟨h.order.step hs, h.owned, hfresh, fun id hid => h.drawn id (Nat.le_trans hle hid), ?_, ?_,
    fun p hp => (h.labelled p hp).mono hle, fun p hp hn => hnew (h.labelled p hp).lt (h.other p hp hn),
    h.peers⟩
  · intro id hmem
    exact (hs.awaited h.fresh hmem).elim (h.absent id) (h.drawn id)
  · rw [asking, List.forall_mem_cons]
    refine ⟨⟨hm, hid, fun hn => hnew (hold hn).1 (hold hn).2⟩, fun b hb => ?_⟩
    obtain ⟨hbm, hlt, hother⟩ := h.asked b hb
    exact ⟨hbm, Nat.lt_of_lt_of_le hlt hle, fun hn => hnew hlt (hother hn)⟩

/-- The traffic with a handoff that has come to hold an area. -/
def placing (t : Traffic) (asked : List Asked) (k : Cycle) : Traffic :=
  { t with asked, cycles := k :: t.cycles, issued := k.pending.descriptor :: t.issued }

/-- An offer that gets an area keeps its id. -/
theorem Identified.place (h : Identified manager x s) {a : Asked} {pre post : List Asked}
    {shm : Shm} (ht : s.traffic.asked = pre ++ a :: post)
    (hp : a.offer.place? s.shm = some (.ok p, shm))
    (hs : Step manager allowed s e
      { s with shm, traffic := placing s.traffic (pre ++ post) ⟨p, a.transfer, []⟩ }) :
    Identified manager x
      { s with shm, traffic := placing s.traffic (pre ++ post) ⟨p, a.transfer, []⟩ } := by
  have ha : a ∈ s.traffic.asked := by simp [ht]
  obtain ⟨hm, hlt, hother⟩ := h.asked a ha
  obtain ⟨ho, area, -, hr, -⟩ := h.order.held.asked_place ha hp
  obtain rfl := Except.ok.inj hr
  have hperm : (placing s.traffic (pre ++ post) ⟨a.offer.pending area, a.transfer, []⟩).awaited.Perm
      s.traffic.awaited := Traffic.Fresh.awaited_placed ht (a.offer.awaits_pending area) _ _
  have haw : ∀ id, id ∈ Traffic.awaited (placing s.traffic (pre ++ post)
      ⟨a.offer.pending area, a.transfer, []⟩) → id ∈ s.traffic.awaited := fun id => hperm.mem_iff.mp
  refine ⟨h.order.step hs, h.owned, h.fresh.of_perm hperm (Nat.le_refl _), h.drawn,
    fun id hid => h.absent id (haw id hid), ?_, ?_, ?_, h.peers⟩
  · intro b hb
    obtain ⟨hbm, hbl, hbo⟩ := h.asked b (mem_of_split ht hb)
    exact ⟨hbm, hbl, fun hn hid => hbo hn (haw _ hid)⟩
  · rw [Traffic.pendings, placing, List.map_cons, List.forall_mem_cons]
    refine ⟨⟨hm, ?_, hlt⟩, h.labelled⟩
    simp only [Offer.pending, ho]
  · rw [Traffic.pendings, List.forall_mem_map, placing, List.forall_mem_cons]
    refine ⟨fun hn hid => ?_, fun k hk hn hid => ?_⟩
    · rw [Offer.awaits_pending] at hn
      exact hother hn (haw _ hid)
    · exact h.other _ (List.mem_map_of_mem hk) hn (haw _ hid)

theorem Identified.exchange (h : Identified manager x s) {shm : Shm} {t : Traffic}
    {e : Traffic.Event} (he : Traffic.Step manager allowed (s.shm, s.traffic) e (shm, t)) :
    Identified manager x { s with shm, traffic := t } := by
  have hs : Step manager allowed s (.exchange e) { s with shm, traffic := t } := .exchange he
  have hsame : t.asked = s.traffic.asked → t.pendings = s.traffic.pendings →
      t.peers = s.traffic.peers → Identified manager x { s with shm, traffic := t } := by
    intro hasked hpendings hpeers
    refine h.mono hs rfl (h.fresh.step he).1 h.drawn
      (fun id hid => h.absent id ((h.fresh.step he).2 id hid)) ?_ ?_ ?_
    · exact fun a ha => hasked ▸ ha
    · exact fun p hp => hpendings ▸ hp
    · exact fun q hq => hpeers ▸ hq
  cases he with
  | placed ht hp => exact h.place ht hp hs
  | refused ht hp => exact absurd hp (h.order.held.not_refused (by simp [ht]))
  | @attach _ _ q hq =>
    obtain ⟨hserves, hm⟩ := h.order.held.attach h.order.name hq
    have hpos := (Peer.attach_ok hq).areaSize_pos
    rw [hserves.layout] at hpos
    exact { h with
      order := h.order.step hs
      fresh := ⟨h.fresh.nodup, h.fresh.lt⟩
      peers := List.forall_mem_cons.mpr ⟨⟨hm, hpos⟩, h.peers⟩ }
  | delivered => exact hsame rfl (Traffic.pendings_note ..) rfl
  | undelivered => exact hsame rfl rfl rfl
  | collected => exact hsame rfl (Traffic.pendings_note ..) rfl
  | uncollected => exact hsame rfl rfl rfl

/-- Every step of a channel keeps the ids in order, whatever descriptors peers present. -/
theorem Identified.step (h : Identified manager x s) (hs : Step manager allowed s e s') :
    Identified manager x s' := by
  have hstep := hs
  cases hs with
  | entry op => exact h.kept hstep (op.apply_kept s.cache s.ids)
  | askMalloc ho =>
    obtain ⟨y, -, -, rfl, rfl⟩ := Cache.offerMalloc_ok ho
    exact h.ask hstep (h.fresh.ask rfl) h.owned (Nat.lt_succ_self _) nofun
  | denyMalloc ho => exact h.kept hstep (.draw s.cache hstep.ids_le)
  | @askRetrieve id o stored _ ho =>
    obtain ⟨y, payload, -, hc, -, rfl⟩ := Cache.offerRetrieve_ok ho
    have hnot : id ∉ s.traffic.awaited := fun hm => by
      rw [h.absent id hm] at hc
      cases hc
    have hlt : id < s.ids.issued := by
      by_contra hge
      rw [h.drawn id (Nat.le_of_not_lt hge)] at hc
      cases hc
    exact h.ask hstep (h.fresh.offer rfl) h.owned hlt fun _ => ⟨hlt, hnot⟩
  | denyRetrieve => exact h
  | exchange he => exact h.exchange he
  | wait ht hs => exact h.settled ht hstep hs
  | waitTimeout ht hs => exact h.settled ht hstep hs
  | drop ht =>
    unfold ended at hstep ⊢
    generalize Pending.drop _ s.shm = shm at hstep ⊢
    exact h.finish ht hstep rfl (Or.inl rfl)
  | draw => exact h.kept hstep (.draw s.cache (Nat.le_succ _))
  | beside =>
    exact h.mono hstep rfl h.fresh h.drawn h.absent (fun _ => id) (fun _ => id) fun _ => id

theorem identified_start {count size : Nat} {capacity : Option Nat} {shm₀ shm : Shm} {c : Cache}
    (ids : Counter) (h : Cache.create manager (.handoff count size) capacity shm₀ = (.ok c, shm)) :
    ∃ x, Identified manager x (start c ids shm) := by
  obtain ⟨x, -, hx⟩ := inOrder_start ids h
  have hm : c.manager = manager ∧ c.contents? = fun _ => none := by
    unfold Cache.create at h
    simp only at h
    split at h
    · cases h
    · simp only [Prod.mk.injEq, Except.ok.injEq] at h
      rw [← h.1]
      exact ⟨rfl, rfl⟩
  refine ⟨x, hx, hm.1, .empty ids, fun id _ => ?_, fun id hid => ?_, ?_, ?_, ?_, ?_⟩
  · exact congrFun hm.2 id
  · exact absurd hid List.not_mem_nil
  · exact fun a ha => absurd ha List.not_mem_nil
  · exact fun p hp => absurd hp List.not_mem_nil
  · exact fun p hp => absurd hp List.not_mem_nil
  · exact fun q hq => absurd hq List.not_mem_nil

end

/-! ## Handoffs that are over -/

/-- The handoff that an event ends. -/
def Event.ends? : Event → Option Pending
  | .wait k _ => some k.pending
  | .waitTimeout k _ => some k.pending
  | .drop k => some k.pending
  | _ => none

section
variable {manager : String} {allowed : Traffic → Descriptor → Prop} {x : Exchange} {s s' : Channel}
  {e : Event} {events : List Event} {p : Pending}

/-- A handoff that ends held an area until then, and nobody awaits its id after that. -/
theorem Identified.over (h : Identified manager x s) (hs : Step manager allowed s e s')
    (he : e.ends? = some p) : Over manager x s' p := by
  have hfinish : ∀ {pre post : List Cycle} {k : Cycle}, s.traffic.cycles = pre ++ k :: post →
      s'.ids.issued = s.ids.issued → s'.traffic = ended s.traffic pre post → k.pending = p →
      Over manager x s' p := by
    rintro pre post k ht hids htraffic rfl
    have hk := Traffic.pending_of_split ht
    obtain ⟨-, hgone, hstill⟩ := h.fresh.finish ht
    refine ⟨(h.labelled _ hk).mono (Nat.le_of_eq hids.symm), h.order.held.area_lt _ hk, ?_⟩
    rw [htraffic]
    intro hid
    cases haw : k.pending.awaits with
    | none => exact h.other _ hk haw (hstill _ hid)
    | some id =>
      have hsame : id = k.pending.segment.id := by
        unfold Pending.awaits at haw
        split at haw
        · exact (Option.some.inj haw).symm
        · cases haw
      exact hgone _ haw (hsame ▸ hid)
  cases hs with
  | wait ht => exact hfinish ht rfl rfl (Option.some.inj he)
  | waitTimeout ht => exact hfinish ht rfl rfl (Option.some.inj he)
  | drop ht => exact hfinish ht rfl rfl (Option.some.inj he)
  | entry => cases he
  | askMalloc => cases he
  | denyMalloc => cases he
  | askRetrieve => cases he
  | denyRetrieve => cases he
  | exchange => cases he
  | draw => cases he
  | beside => cases he

/-- What becomes of the descriptor of `p` when a peer presents it. -/
structure Stale (x : Exchange) (s : Channel) (p : Pending) : Prop where
  /-- It cannot be delivered to. -/
  deliver : ∀ q ∈ s.traffic.peers, ∀ data r shm', q.deliver p.descriptor data s.shm = (r, shm') →
    r = .error (.segmentNotFound p.segment.id) ∧
      Shm.Patch x.region.object (fun _ => False) s.shm shm'
  /-- Nor be collected, unless its segment is on offer in the same area. -/
  collect : ∀ q ∈ s.traffic.peers, ∀ r shm', q.collect p.descriptor s.shm = (r, shm') →
    (∀ live ∈ s.traffic.pendings, live.area = p.area → live.direction = .outbound →
      live.segment.id ≠ p.segment.id) →
    r = .error (.segmentNotFound p.segment.id) ∧
      Shm.Patch x.region.object (fun _ => False) s.shm shm'
  /-- Then it does what the descriptor of that offer would do. -/
  again : ∀ q ∈ s.traffic.peers, ∀ live ∈ s.traffic.pendings, live.area = p.area →
    live.segment.id = p.segment.id →
    q.collect p.descriptor s.shm = q.collect live.descriptor s.shm

/-- A claim with the descriptor of a handoff that is over. -/
theorem Identified.claim_over (h : Identified manager x s) (hids : s.ids.issued ≤ wordRange)
    (hp : Over manager x s p) {q : Peer} (hq : q ∈ s.traffic.peers) (dir : Direction)
    (hnone : ∀ live ∈ s.traffic.pendings, live.area = p.area → live.direction = dir →
      live.segment.id ≠ p.segment.id) :
    (q.claim p.descriptor dir s.shm).1 = .error (.segmentNotFound p.segment.id) := by
  obtain ⟨hqm, hpos⟩ := h.peers q hq
  have hserves := h.order.held.peers q hq
  have hlocate : q.exchange.locate p.descriptor = .ok p.area := by
    rw [hserves.locate_eq]
    exact hp.labelled.locate hp.area_lt hpos
  refine Peer.claim_refused (hp.labelled.manager.trans hqm.symm) hlocate ?_
  rw [hserves.signal_eq, hserves.segment_eq]
  by_cases hw : x.signal s.shm p.area = dir.waiting
  · refine Or.inr fun hseg => ?_
    -- Its segment word is the id of the handoff that holds it.
    obtain ⟨live, hlive, harea, hdir⟩ := h.order.held.waiting hp.area_lt hw
    have hword := h.order.held.segment live hlive
    have hlt := Nat.lt_of_lt_of_le (h.labelled live hlive).lt hids
    rw [harea, Nat.mod_eq_of_lt hlt] at hword
    exact hnone live hlive harea hdir (hword.symm.trans hseg)
  · exact Or.inl hw

theorem Identified.stale (h : Identified manager x s) (hids : s.ids.issued ≤ wordRange)
    (hp : Over manager x s p) : Stale x s p where
  deliver q hq data r shm' hd := by
    have hnone : ∀ live ∈ s.traffic.pendings, live.area = p.area → live.direction = .inbound →
        live.segment.id ≠ p.segment.id := by
      intro live hlive _ hdir he
      have haw : live.awaits = some p.segment.id := by rw [Pending.awaits, hdir, he]
      obtain ⟨k, hk, rfl⟩ := List.mem_map.mp hlive
      exact hp.gone (Traffic.mem_awaited.mpr (Or.inr ⟨k, hk, haw⟩))
    have hr := Peer.deliver_refused (h.claim_over hids hp hq .inbound hnone) data
    rw [hd] at hr
    obtain rfl : r = _ := hr
    rw [(h.order.held.peers q hq).deliver_eq] at hd
    exact ⟨rfl, Peer.deliver_error h.order.held.object_lt hd⟩
  collect q hq r shm' hc hnone := by
    have hr := Peer.collect_refused (h.claim_over hids hp hq .outbound hnone)
    rw [hc] at hr
    obtain rfl : r = _ := hr
    rw [(h.order.held.peers q hq).collect_eq] at hc
    exact ⟨rfl, Peer.collect_error h.order.held.object_lt hc⟩
  again q _ live hlive harea hid := by
    have hlabel := h.labelled live hlive
    refine Peer.collect_congr (hp.labelled.manager.trans hlabel.manager.symm) hid.symm ?_ q s.shm
    refine hp.labelled.kind.trans (Eq.trans ?_ hlabel.kind.symm)
    rw [harea]

/-- **Stale descriptors.** Once a handoff is over, whichever way it ended, whoever presents
its descriptor is refused and changes nothing, whatever has happened in its area since, but
for a collection while the same segment is on offer again in the same area: that one is
served. -/
theorem stale_refused {count size : Nat} {capacity : Option Nat} {shm₀ shm : Shm} {c : Cache}
    {ids : Counter} (hc : Cache.create manager (.handoff count size) capacity shm₀ = (.ok c, shm))
    (hrun : Run (Step manager fun _ _ => True) (start c ids shm) events s)
    (hids : s.ids.issued ≤ wordRange) (he : e ∈ events) (hp : e.ends? = some p) :
    ∃ x, s.cache.exchange = some x ∧ Stale x s p := by
  obtain ⟨x, h0⟩ := identified_start ids hc
  have h := hrun.invariant (P := fun events s => Identified manager x s ∧
      ∀ e ∈ events, ∀ p, e.ends? = some p → Over manager x s p)
    ⟨h0, fun e he => absurd he List.not_mem_nil⟩ fun {events t e t'} h hs => by
      refine ⟨h.1.step hs, List.forall_mem_append.mpr ⟨fun e' he' p hp => ?_, ?_⟩⟩
      · exact (h.2 e' he' p hp).step h.1.fresh hs
      · rw [List.forall_mem_singleton]
        exact fun p hp => h.1.over hs hp
  exact ⟨x, h.1.order.exchange, h.1.stale hids (h.2 e he p hp)⟩

end

/-- The handoff of the sample channel is given up while a peer has its descriptor. -/
theorem stale_refused_of_dropped : ∃ events s,
    Run (Step "m" fun _ _ => True) (start sampleCache {} sampleMemory) events s ∧
    .drop ⟨sampleOffer.pending 0, .inbound 3, []⟩ ∈ events ∧ s.traffic.peers = [samplePeer] ∧
    ∃ x, s.cache.exchange = some x ∧ Stale x s (sampleOffer.pending 0) := by
  have hpeer : Peer.attach "m" samplePlaced = .ok samplePeer := by decide +kernel
  have hdrop : Step "m" (fun _ _ => True)
      { sample with traffic := { sample.traffic with peers := [samplePeer] } }
      (.drop ⟨sampleOffer.pending 0, .inbound 3, []⟩) _ := @Step.drop _ _ _ [] _ [] rfl
  have hrun := ((sample_run fun _ _ => True).next (.exchange (.attach hpeer))).next hdrop
  have hmem : ∀ events, Event.drop ⟨sampleOffer.pending 0, .inbound 3, []⟩ ∈
      events ++ [Event.drop ⟨sampleOffer.pending 0, .inbound 3, []⟩] :=
    fun events => List.mem_append_right events (List.mem_singleton_self _)
  have hids : 1 ≤ wordRange := by decide
  exact ⟨_, _, hrun, hmem _, rfl, stale_refused sample_create hrun hids (hmem _) rfl⟩

/-! ## A segment that is offered again

Two bytes are offered under an id and the offer is given up. Then three other bytes are put
under the id and offered, in the same area. -/

def againOffer (payload : Bytes) : Offer := ⟨sampleExchange, "m", 0, .outbound payload⟩

/-- The cache with the two bytes, and with the three. -/
def againFirst : Cache := (EntryOp.apply sampleCache {} (.store [1, 2])).1

def againSecond : Cache := (EntryOp.apply againFirst ⟨1⟩ (.set 0 [3, 4, 5])).1

/-- The memory with the first offer, without it, and with the second. -/
def againPlaced : Shm := (((againOffer [1, 2]).place? sampleMemory).map Prod.snd).getD .empty

def againDropped : Shm := ((againOffer [1, 2]).pending 0).drop againPlaced

def againShm : Shm := (((againOffer [3, 4, 5]).place? againDropped).map Prod.snd).getD .empty

theorem again_run : ∃ events s,
    Run (Step "m" fun _ _ => True) (start sampleCache {} sampleMemory) events s ∧
    .drop ⟨(againOffer [1, 2]).pending 0, .outbound [1, 2], []⟩ ∈ events ∧ s.shm = againShm ∧
    s.traffic.peers = [samplePeer] := by
  have hstore : Step "m" (fun _ _ => True) (start sampleCache {} sampleMemory)
      (.entry (.store [1, 2])) ⟨againFirst, ⟨1⟩, sampleMemory, .empty⟩ := .entry (.store [1, 2])
  have hask : Step "m" (fun _ _ => True) ⟨againFirst, ⟨1⟩, sampleMemory, .empty⟩
      (.askRetrieve 0 (.ok (againOffer [1, 2]))) _ := .askRetrieve rfl rfl
  have hplace : Traffic.Step "m" (fun _ _ => True)
      (sampleMemory, ⟨[⟨againOffer [1, 2], .outbound [1, 2]⟩], [], [], []⟩)
      (.place ⟨againOffer [1, 2], .outbound [1, 2]⟩ (.ok ((againOffer [1, 2]).pending 0)))
      (againPlaced, _) := .placed (List.nil_append _).symm (place?_eq (by decide +kernel))
  have hdrop : Step "m" (fun _ _ => True) ⟨againFirst, ⟨1⟩, againPlaced,
      ⟨[], [⟨(againOffer [1, 2]).pending 0, .outbound [1, 2], []⟩], [],
        [((againOffer [1, 2]).pending 0).descriptor]⟩⟩
      (.drop ⟨(againOffer [1, 2]).pending 0, .outbound [1, 2], []⟩)
      ⟨againFirst, ⟨1⟩, againDropped, ⟨[], [], [], [((againOffer [1, 2]).pending 0).descriptor]⟩⟩ :=
    @Step.drop _ _ _ [] _ [] rfl
  have hset : Step "m" (fun _ _ => True)
      ⟨againFirst, ⟨1⟩, againDropped, ⟨[], [], [], [((againOffer [1, 2]).pending 0).descriptor]⟩⟩
      (.entry (.set 0 [3, 4, 5])) _ := .entry (.set 0 [3, 4, 5])
  have hask' : Step "m" (fun _ _ => True)
      ⟨againSecond, ⟨1⟩, againDropped, ⟨[], [], [], [((againOffer [1, 2]).pending 0).descriptor]⟩⟩
      (.askRetrieve 0 (.ok (againOffer [3, 4, 5]))) _ := .askRetrieve rfl rfl
  have hplace' : Traffic.Step "m" (fun _ _ => True)
      (againDropped, ⟨[⟨againOffer [3, 4, 5], .outbound [3, 4, 5]⟩], [], [],
        [((againOffer [1, 2]).pending 0).descriptor]⟩)
      (.place ⟨againOffer [3, 4, 5], .outbound [3, 4, 5]⟩ (.ok ((againOffer [3, 4, 5]).pending 0)))
      (againShm, _) := .placed (List.nil_append _).symm (place?_eq (by decide +kernel))
  have hpeer : Peer.attach "m" againShm = .ok samplePeer := by decide +kernel
  have hbefore := (((Run.one hstore).next hask).next (.exchange hplace)).next hdrop
  have hafter := (((hbefore.next hset).next hask').next (.exchange hplace')).next
    (.exchange (.attach hpeer))
  refine ⟨_, _, hafter, ?_, rfl, rfl⟩
  simp

/-- The descriptor of the offer that was given up is served with the other bytes. -/
theorem stale_collected : ∃ events s shm',
    Cache.create "m" (.handoff 1 8) none .empty = (.ok sampleCache, sampleMemory) ∧
    Run (Step "m" fun _ _ => True) (start sampleCache {} sampleMemory) events s ∧
    .drop ⟨(againOffer [1, 2]).pending 0, .outbound [1, 2], []⟩ ∈ events ∧
    samplePeer ∈ s.traffic.peers ∧
    samplePeer.collect ((againOffer [1, 2]).pending 0).descriptor s.shm = (.ok [3, 4, 5], shm') := by
  obtain ⟨events, s, hrun, hdrop, hshm, hpeers⟩ := again_run
  have hok : (samplePeer.collect ((againOffer [1, 2]).pending 0).descriptor againShm).1 =
      .ok [3, 4, 5] := by decide +kernel
  rw [← hshm] at hok
  cases hcollect : samplePeer.collect ((againOffer [1, 2]).pending 0).descriptor s.shm with
  | mk r shm' =>
    rw [hcollect] at hok
    obtain rfl : r = .ok [3, 4, 5] := hok
    refine ⟨events, s, shm', sample_create, hrun, hdrop, ?_, hcollect⟩
    rw [hpeers]
    exact List.mem_singleton_self _

end Channel
end TierAlloc
