import TierAlloc.Proofs.Allocator.Regions
import TierAlloc.Proofs.Cache.Integrity

/-!
# Handoffs of an allocator

What peers reach is the exchange region. Whatever is done there stays in the object under
its name (`Traffic.Step.keeps`, `Handoffs.settled`), and the allocator's own operations
leave that object alone, so the invariant of the payloads holds in every state that a
system reaches (`Handoffs`), and the other regions are as they were.

**Results.**
* `Traffic.Step.keeps`: peers store in the object of the exchange region alone.
* `Handoffs.becomes`, `Handoffs.keep`: what the allocator does elsewhere.
* `Handoffs.step`, `Handoffs.await`, `Handoffs.drop`: what is done at the exchange region.
-/
namespace TierAlloc

/-- Owner and peers store in the object of the exchange region alone. -/
theorem Traffic.Step.keeps {manager : String} {allowed : Traffic → Descriptor → Prop} {shm shm' : Shm}
    {t t' : Traffic} {e : Traffic.Event} (hs : Step manager allowed (shm, t) e (shm', t'))
    (hpeers : ∀ p ∈ t.peers, shm.names.get? (cacheRegionName manager) = some p.exchange.region.object)
    (hasked : t.asked ≠ [] → ∃ x, Held x shm t ∧ x.region.name = cacheRegionName manager) :
    shm'.names = shm.names ∧ ∀ n, n ≠ cacheRegionName manager → Shm.Keeps n shm shm' := by
  have hpatch : ∀ {i : Nat} {P : Nat → Prop}, shm.names.get? (cacheRegionName manager) = some i →
      Shm.Patch i P shm shm' →
      shm'.names = shm.names ∧ ∀ n, n ≠ cacheRegionName manager → Shm.Keeps n shm shm' :=
    fun hi hp => ⟨hp.names, fun _ hn => hp.keeps hi hn⟩
  cases hs with
  | placed ht hp =>
    obtain ⟨x, hheld, hname⟩ := hasked (by simp [ht])
    obtain ⟨-, area, -, -, hstored, -⟩ := hheld.asked_place (by simp [ht]) hp
    exact hpatch (by rw [← hname, hheld.named]) hstored
  | refused ht hp =>
    obtain ⟨x, hheld, -⟩ := hasked (by simp [ht])
    exact absurd hp (hheld.not_refused (by simp [ht]))
  | attach => exact ⟨rfl, fun n _ => .refl n shm⟩
  | delivered hp _ hd =>
    have hnamed := hpeers _ hp
    obtain ⟨area, hdel⟩ := Peer.deliver_ok (shm.named_lt hnamed) hd
    exact hpatch hnamed hdel.patch
  | undelivered hp _ hd =>
    have hnamed := hpeers _ hp
    exact hpatch hnamed (Peer.deliver_error (shm.named_lt hnamed) hd)
  | collected hp _ hc =>
    have hnamed := hpeers _ hp
    obtain ⟨area, hcol⟩ := Peer.collect_ok (shm.named_lt hnamed) hc
    exact hpatch hnamed hcol.patch
  | uncollected hp _ hc =>
    have hnamed := hpeers _ hp
    exact hpatch hnamed (Peer.collect_error (shm.named_lt hnamed) hc)

/-- Peers have mapped what is under the name of the exchange region, those who come among them. -/
theorem Traffic.Step.peers_named {manager : String} {allowed : Traffic → Descriptor → Prop} {shm shm' : Shm}
    {t t' : Traffic} {e : Traffic.Event} (hs : Step manager allowed (shm, t) e (shm', t'))
    (hnames : shm'.names = shm.names)
    (h : ∀ p ∈ t.peers, shm.names.get? (cacheRegionName manager) = some p.exchange.region.object) :
    ∀ p ∈ t'.peers, shm'.names.get? (cacheRegionName manager) = some p.exchange.region.object := by
  rw [hnames]
  cases hs with
  | attach hp => exact List.forall_mem_cons.mpr ⟨(Peer.attach_ok hp).named, h⟩
  | _ => exact h

/-- Peers do not begin a handoff. -/
theorem Traffic.Step.idle {manager : String} {allowed : Traffic → Descriptor → Prop} {shm shm' : Shm}
    {t t' : Traffic} {e : Traffic.Event} (hs : Step manager allowed (shm, t) e (shm', t'))
    (h : t.asked = [] ∧ t.cycles = []) : t'.asked = [] ∧ t'.cycles = [] := by
  obtain ⟨hasked, hcycles⟩ := h
  cases hs with
  | placed ht => simp [ht] at hasked
  | refused ht => simp [ht] at hasked
  | delivered => exact ⟨hasked, by simp [Traffic.note, hcycles]⟩
  | collected => exact ⟨hasked, by simp [Traffic.note, hcycles]⟩
  | _ => exact ⟨hasked, hcycles⟩

/-- Peers have mapped what is under the name of the exchange region. If the allocator has one,
its payloads are what they should be; if not, nothing is handed over. -/
structure Handoffs (a : Allocator) (shm : Shm) (t : Traffic) : Prop where
  manager : a.cache.manager = a.name
  peers : ∀ p ∈ t.peers, shm.names.get? (cacheRegionName a.name) = some p.exchange.region.object
  idle : a.cache.exchange = none → t.asked = [] ∧ t.cycles = []
  sound : ∀ x, a.cache.exchange = some x → Sound x shm t a.cache a.ids

namespace Handoffs

variable {a a' : Allocator} {t t' : Traffic} {shm shm' : Shm} {l : Ledger} {x : Exchange}

theorem named (h : Handoffs a shm t) (hx : a.cache.exchange = some x) :
    x.region.name = cacheRegionName a.name ∧
      shm.names.get? (cacheRegionName a.name) = some x.region.object := by
  have hs := h.sound x hx
  have hname := hs.name
  rw [h.manager] at hname
  exact ⟨hname, by rw [← hname]; exact hs.held.named⟩

/-- What the allocator does elsewhere. -/
theorem becomes (h : Handoffs a shm t) (hb : a.Becomes l a') (hacc : Accounted a' t) :
    Handoffs a' shm t where
  manager := by rw [hb.manager, hb.name_eq, h.manager]
  peers := by
    rw [hb.name_eq]
    exact h.peers
  idle := by
    rw [hb.exchange]
    exact h.idle
  sound x hx := by
    rw [hb.exchange] at hx
    refine (h.sound x hx).owner hb.manager hb.exchange hb.ids (fun id hid => ?_) fun id hid => ?_
    · exact hacc.contents_none (hacc.unissued id hid)
    · exact hacc.contents_none (hacc.awaited id hid)

/-- What happens to memory elsewhere. -/
theorem keep (h : Handoffs a shm t) (hk : Shm.Keeps (cacheRegionName a.name) shm shm') :
    Handoffs a shm' t where
  manager := h.manager
  peers p hp := by
    rw [hk.named]
    exact h.peers p hp
  idle := h.idle
  sound x hx := by
    obtain ⟨hname, hnamed⟩ := h.named hx
    refine (h.sound x hx).beside ⟨hk.count, hk.object _ hnamed, ?_⟩
    rw [hname]
    exact hk.named

/-- Every step at the exchange region, if the peers present issued descriptors. -/
theorem step {e : Traffic.Event} (h : Handoffs a shm t) (hids : a.ids.issued ≤ wordRange)
    (hs : Traffic.Step a.name Channel.Unedited (shm, t) e (shm', t')) :
    Handoffs a shm' t' ∧ ∀ n, n ≠ cacheRegionName a.name → Shm.Keeps n shm shm' := by
  have hasked : t.asked ≠ [] → ∃ x, Held x shm t ∧ x.region.name = cacheRegionName a.name := by
    intro hne
    cases hx : a.cache.exchange with
    | none => exact absurd (h.idle hx).1 hne
    | some x => exact ⟨x, (h.sound x hx).held, (h.named hx).1⟩
  obtain ⟨hnames, hk⟩ := hs.keeps h.peers hasked
  refine ⟨⟨h.manager, hs.peers_named hnames h.peers, fun hx => hs.idle (h.idle hx), fun x hx => ?_⟩, hk⟩
  rw [← h.manager] at hs
  exact (h.sound x hx).step hids hs

/-! ## The owner -/

/-- Asking for bytes from a peer, which uses up an id. -/
theorem askMalloc (h : Handoffs a shm t) {n : Nat} {o : Offer} (ho : a.offerMalloc n = (.ok o, a')) :
    Handoffs a' shm { t with asked := ⟨o, .inbound n⟩ :: t.asked } := by
  obtain ⟨rfl, y, hy, -⟩ := Allocator.offerMalloc_ok ho
  refine ⟨h.manager, h.peers, fun hx => ?_, fun x hx => ?_⟩
  · rw [show a.cache.exchange = none from hx] at hy
    cases hy
  · refine (h.sound x hx).askMalloc ?_
    unfold Allocator.offerMalloc at ho
    cases hc : a.cache.offerMalloc a.ids n with
    | mk r ids =>
      simp only [hc, Prod.mk.injEq] at ho
      obtain ⟨rfl, hids⟩ := ho
      rw [← congrArg Allocator.ids hids]

/-- Offering an entry to a peer. -/
theorem askRetrieve (h : Handoffs a shm t) {id : Nat} {o : Offer} {stored : Bytes}
    (hs : a.cache.retrieve id = .ok stored) (ho : a.offerRetrieve id = .ok o) :
    Handoffs a shm { t with asked := ⟨o, .outbound stored⟩ :: t.asked } := by
  obtain ⟨-, y, -, -, -, hy, -⟩ := Allocator.offerRetrieve_ok ho
  refine ⟨h.manager, h.peers, fun hx => ?_, fun x hx => ?_⟩
  · rw [hx] at hy
    cases hy
  · refine (h.sound x hx).askRetrieve hs ?_
    unfold Allocator.offerRetrieve at ho
    cases hg : a.getIn .cache id with
    | error e =>
      rw [hg] at ho
      cases ho
    | ok s =>
      rw [hg] at ho
      exact ho

section
variable {pre post : List Cycle} {c : Cycle}

/-- There is an exchange region as long as a handoff has an area in it. -/
theorem exists_exchange (h : Handoffs a shm t) (ht : t.cycles = pre ++ c :: post) :
    ∃ x, a.cache.exchange = some x ∧ Sound x shm t a.cache a.ids := by
  cases hx : a.cache.exchange with
  | none =>
    have hn := (h.idle hx).2
    rw [ht] at hn
    exact absurd hn (by simp)
  | some x => exact ⟨x, rfl, h.sound x hx⟩

/-- The end of a handoff stores in the object of the exchange region alone. -/
theorem ended_keeps (h : Handoffs a shm t) (ht : t.cycles = pre ++ c :: post)
    (hend : c.pending.Ended shm shm') :
    shm'.names = shm.names ∧ ∀ n, n ≠ cacheRegionName a.name → Shm.Keeps n shm shm' := by
  obtain ⟨x, hx, hs⟩ := h.exists_exchange ht
  have hpatch := hend.patch
  rw [hs.held.exchange _ (Sound.pending_mem (by simp [ht]))] at hpatch
  exact ⟨hpatch.names, fun n hn => hpatch.keeps (h.named hx).2 hn⟩

/-- Giving a handoff up. -/
theorem drop (h : Handoffs a shm t) (ht : t.cycles = pre ++ c :: post) :
    Handoffs a (c.pending.drop shm) { t with cycles := pre ++ post } ∧
      ∀ n, n ≠ cacheRegionName a.name → Shm.Keeps n shm (c.pending.drop shm) := by
  obtain ⟨x, hx, hs⟩ := h.exists_exchange ht
  obtain ⟨hnames, hk⟩ := h.ended_keeps ht (hs.held.drop (Sound.pending_mem (by simp [ht])))
  refine ⟨⟨h.manager, ?_, fun hn => ?_, fun y hy => (h.sound y hy).drop ht⟩, hk⟩
  · rw [hnames]
    exact h.peers
  · rw [hx] at hn
    cases hn

/-- The exchange region when a wait is over, whatever the owner made of the payload. -/
theorem settled (h : Handoffs a shm t) {r : Except Error Segment} {cache : Cache}
    (ht : t.cycles = pre ++ c :: post) (hw : c.pending.wait? a.cache shm = some (r, cache, shm'))
    (hb : a.Becomes l a') (hacc : Accounted a' { t with cycles := pre ++ post }) :
    Handoffs a' shm' { t with cycles := pre ++ post } ∧
      ∀ n, n ≠ cacheRegionName a.name → Shm.Keeps n shm shm' := by
  obtain ⟨x, hx, hs⟩ := h.exists_exchange ht
  obtain ⟨hend, -⟩ := hs.held.settle (Sound.pending_mem (by simp [ht])) hw
  obtain ⟨hsound, hm, -⟩ := hs.settle ht hw
  obtain ⟨hnames, hk⟩ := h.ended_keeps ht hend
  refine ⟨⟨?_, ?_, fun hn => ?_, fun y hy => ?_⟩, hk⟩
  · rw [hb.manager, hb.name_eq, h.manager]
  · rw [hb.name_eq, hnames]
    exact h.peers
  · rw [hb.exchange, hx] at hn
    cases hn
  · obtain rfl := Option.some.inj (hx.symm.trans (hb.exchange.symm.trans hy))
    refine hsound.owner (hb.manager.trans hm.symm) ((hb.exchange.trans hx).trans hsound.exchange.symm)
      hb.ids (fun id hid => ?_) fun id hid => ?_
    · exact hacc.contents_none (hacc.unissued id hid)
    · exact hacc.contents_none (hacc.awaited id hid)

/-- What a wait has received is what was delivered. -/
theorem received (h : Handoffs a shm t) {seg : Segment} {cache : Cache}
    (ht : t.cycles = pre ++ c :: post) (hw : c.pending.wait? a.cache shm = some (.ok seg, cache, shm'))
    (hd : c.pending.direction = .inbound) :
    ∃ data, c.moved = [data] ∧ cache.contents? c.pending.segment.id = some data := by
  obtain ⟨x, -, hs⟩ := h.exists_exchange ht
  obtain ⟨-, -, hcases⟩ := hs.settle ht hw
  rcases hcases with ⟨stored, htr, -⟩ | ⟨n, data, -, hm, -, -, hb⟩
  · have hcar := hs.carried c (by simp [ht])
    unfold Carried at hcar
    rw [htr] at hcar
    exact absurd (hd.symm.trans hcar.direction) (by decide)
  · exact ⟨data, hm, by rw [hb.contents, Function.update_self]⟩

end

end Handoffs

/-- Nothing is handed over yet by a new allocator. -/
theorem handoffs_create {config : Config} {a : Allocator} {shm₀ shm : Shm}
    (h : Allocator.create config shm₀ = (.ok a, shm)) : Handoffs a shm .empty := by
  obtain ⟨first, shm₁, cache, -, -, hc, rfl⟩ := Allocator.create_ok h
  cases hmode : config.cacheMode with
  | inProcess =>
    rw [hmode] at hc
    obtain ⟨hcache, -⟩ := Prod.mk.inj hc
    obtain rfl := Except.ok.inj hcache
    exact ⟨rfl, nofun, fun _ => ⟨rfl, rfl⟩, nofun⟩
  | handoff count size =>
    rw [hmode] at hc
    obtain ⟨x, hm, hs⟩ := Channel.proper_start {} hc
    refine ⟨hm, nofun, fun _ => ⟨rfl, rfl⟩, fun y hy => ?_⟩
    obtain rfl := Option.some.inj (hy.symm.trans hs.exchange)
    exact hs

end TierAlloc
