import TierAlloc.Proofs.Allocator.Growth
import TierAlloc.Proofs.Cache.Channel
import TierAlloc.Proofs.Shared.Footprint

/-!
# An allocator among others

What holds of an allocator with its traffic, whatever descriptors its peers present: its
accounts are right, its regions are under its own names, the words of its exchange region
are in order, and its segments say which allocator they are of. Peers that edit
descriptors can spoil payloads, but they store in the exchange region alone.

A batch is added when a request has found no room, and to find that out uses up an id; so
there are never more batches than ids, and the batch of a segment is never above its id.

**Results.**
* `Standing.step`: every step of an allocator keeps this, and has a footprint.
* `Standing.keep`: so does what others do.
* `standing_create`: it holds of a new allocator.
-/
namespace TierAlloc

/-! ## The exchange region -/

/-- The words of the exchange region are in order, if there is one. -/
structure Exchanging (a : Allocator) (shm : Shm) (t : Traffic) : Prop where
  manager : a.cache.manager = a.name
  peers : ∀ p ∈ t.peers, shm.names.get? (cacheRegionName a.name) = some p.exchange.region.object
  idle : a.cache.exchange = none → t.asked = [] ∧ t.cycles = []
  ordered : ∀ x, a.cache.exchange = some x → Channel.InOrder a.name x ⟨a.cache, a.ids, shm, t⟩

namespace Exchanging

variable {a a' : Allocator} {t t' : Traffic} {shm shm' : Shm} {l : Ledger} {x : Exchange}

/-- What the allocator does elsewhere. -/
theorem becomes (h : Exchanging a shm t) (hb : a.Becomes l a') : Exchanging a' shm t where
  manager := by rw [hb.manager, hb.name_eq, h.manager]
  peers := by
    rw [hb.name_eq]
    exact h.peers
  idle := by
    rw [hb.exchange]
    exact h.idle
  ordered x hx := by
    have hx' := hx
    rw [hb.exchange] at hx'
    obtain ⟨-, hname, hheld⟩ := h.ordered x hx'
    rw [← hb.name_eq] at hname
    exact ⟨hx, hname, hheld⟩

/-- What happens under other names is beside the exchange region. -/
theorem beside (h : Exchanging a shm t) (hx : a.cache.exchange = some x)
    (hk : Shm.Keeps (cacheRegionName a.name) shm shm') : Shm.Beside x.region.name x.region.object shm shm' := by
  obtain ⟨-, hname, hheld⟩ := h.ordered x hx
  have hnamed := hheld.named
  rw [hname] at hnamed ⊢
  exact ⟨hk.count, hk.object _ hnamed, hk.named⟩

/-- What happens to memory elsewhere. -/
theorem keep (h : Exchanging a shm t) (hk : Shm.Keeps (cacheRegionName a.name) shm shm') :
    Exchanging a shm' t where
  manager := h.manager
  peers p hp := by
    rw [hk.named]
    exact h.peers p hp
  idle := h.idle
  ordered x hx := by
    obtain ⟨-, hname, hheld⟩ := h.ordered x hx
    exact ⟨hx, hname, hheld.beside (h.beside hx hk)⟩

/-- Every step at the exchange region, whatever the descriptors. -/
theorem step {allowed : Traffic → Descriptor → Prop} {e : Traffic.Event} (h : Exchanging a shm t)
    (hs : Traffic.Step a.name allowed (shm, t) e (shm', t')) :
    Exchanging a shm' t' ∧ shm'.names = shm.names ∧
      ∀ n, n ≠ cacheRegionName a.name → Shm.Keeps n shm shm' := by
  have hasked : t.asked ≠ [] → ∃ x, Held x shm t ∧ x.region.name = cacheRegionName a.name := by
    intro hne
    cases hx : a.cache.exchange with
    | none => exact absurd (h.idle hx).1 hne
    | some x => exact ⟨x, (h.ordered x hx).held, (h.ordered x hx).name⟩
  obtain ⟨hnames, hk⟩ := hs.keeps h.peers hasked
  refine ⟨⟨h.manager, hs.peers_named hnames h.peers, fun hx => hs.idle (h.idle hx), fun x hx => ?_⟩, hnames, hk⟩
  obtain ⟨-, hname, hheld⟩ := h.ordered x hx
  exact ⟨hx, hname, hheld.step hname hs⟩

/-- A handoff that is asked for. -/
theorem ask (h : Exchanging a shm t) {k : Asked} (hb : a.Becomes l a')
    (hx : ∃ x, a.cache.exchange = some x ∧ k.offer.exchange = x ∧ k.offer.transfer.size ≤ x.layout.areaSize) :
    Exchanging a' shm { t with asked := k :: t.asked } := by
  obtain ⟨x, hx, hk⟩ := hx
  have h' := h.becomes hb
  have hx' := hx
  rw [← hb.exchange] at hx'
  refine ⟨h'.manager, h'.peers, fun hnone => ?_, fun y hy => ?_⟩
  · rw [hx'] at hnone
    cases hnone
  · obtain rfl := Option.some.inj (hx'.symm.trans hy)
    exact (h'.ordered x hx').ask hk

section
variable {pre post : List Cycle} {c : Cycle}

/-- The end of a handoff, in the object of the exchange region alone. -/
theorem finish (h : Exchanging a shm t) (ht : t.cycles = pre ++ c :: post) (hb : a.Becomes l a')
    (hend : ∀ x, a.cache.exchange = some x → Held x shm t → c.pending.Ended shm shm') :
    Exchanging a' shm' { t with cycles := pre ++ post } ∧ shm'.names = shm.names ∧
      ∀ n, n ≠ cacheRegionName a.name → Shm.Keeps n shm shm' := by
  cases hx : a.cache.exchange with
  | none =>
    have hcycles := (h.idle hx).2
    simp [ht] at hcycles
  | some x =>
    have ho := h.ordered x hx
    have hended := hend x hx ho.held
    have hpatch := hended.patch
    rw [ho.held.exchange _ (Traffic.pending_of_split ht)] at hpatch
    have hnamed : shm.names.get? (cacheRegionName a.name) = some x.region.object := by
      rw [← ho.name]
      exact ho.held.named
    have h' := h.becomes hb
    refine ⟨⟨h'.manager, ?_, fun hnone => ?_, fun y hy => ?_⟩, hpatch.names, fun n hn => hpatch.keeps hnamed hn⟩
    · rw [hpatch.names]
      exact h'.peers
    · rw [hb.exchange, hx] at hnone
      cases hnone
    · rw [hb.exchange, hx] at hy
      obtain rfl := Option.some.inj hy
      have ho' := h'.ordered x (hb.exchange.trans hx)
      exact ho'.finish ht hended rfl

theorem drop (h : Exchanging a shm t) (ht : t.cycles = pre ++ c :: post) :
    Exchanging a (c.pending.drop shm) { t with cycles := pre ++ post } ∧
      (c.pending.drop shm).names = shm.names ∧
      ∀ n, n ≠ cacheRegionName a.name → Shm.Keeps n shm (c.pending.drop shm) :=
  h.finish ht (.refl a) fun _ _ hheld => hheld.drop (Traffic.pending_of_split ht)

/-- The exchange region when a wait is over, whatever the owner made of the payload. -/
theorem settled (h : Exchanging a shm t) {r : Except Error Segment} {cache : Cache}
    (ht : t.cycles = pre ++ c :: post) (hw : c.pending.wait? a.cache shm = some (r, cache, shm'))
    (hb : a.Becomes l a') :
    Exchanging a' shm' { t with cycles := pre ++ post } ∧ shm'.names = shm.names ∧
      ∀ n, n ≠ cacheRegionName a.name → Shm.Keeps n shm shm' :=
  h.finish ht hb fun _ _ hheld => (hheld.settle (Traffic.pending_of_split ht) hw).1

end

end Exchanging

/-! ## The segments -/

/-- The segments say which allocator they are of, and no batch is above the ids drawn. -/
structure Described (a : Allocator) : Prop where
  paced : a.batches.length ≤ a.ids.issued + 1
  manager : ∀ id s, a.ledger.segments id = some s → s.manager = a.name
  early : ∀ id s batch bin offset, a.ledger.segments id = some s → s.kind = .static batch bin offset →
    batch ≤ s.id

namespace Described

variable {a a' : Allocator} {shm shm' : Shm} {l : Ledger} {s : Segment}

/-- Later states with as many batches, if a new segment is one of the allocator. -/
theorem becomes (h : Described a) (hb : a.Becomes l a') (hlen : l.batches.length = a.batches.length)
    (hsegs : ∀ id s, l.segments id = some s → a.ledger.segments id = some s ∨
      s.manager = a.name ∧ ∀ batch bin offset, s.kind = .static batch bin offset → batch ≤ s.id) :
    Described a' := by
  have hids := hb.ids
  have hbatches : a'.batches.length = l.batches.length := congrArg (fun l => l.batches.length) hb.ledger
  refine ⟨?_, fun id s hs => ?_, fun id s batch bin offset hs hk => ?_⟩
  · have := h.paced
    omega
  · rw [hb.ledger] at hs
    rw [hb.name_eq]
    rcases hsegs id s hs with hold | ⟨hnew, -⟩
    · exact h.manager id s hold
    · exact hnew
  · rw [hb.ledger] at hs
    rcases hsegs id s hs with hold | ⟨-, hnew⟩
    · exact h.early id s batch bin offset hold hk
    · exact hnew batch bin offset hk

theorem idle (h : Described a) (hb : a.Becomes l a') (hlen : l.batches.length = a.batches.length)
    (hsegs : l.segments = a.ledger.segments) : Described a' :=
  h.becomes hb hlen fun id s hs => Or.inl (by rwa [hsegs] at hs)

/-- A segment that is recorded. -/
theorem recorded (h : Described a) (hb : a.Becomes (l.record s) a')
    (hlen : l.batches.length = a.batches.length) (hsegs : l.segments = a.ledger.segments)
    (hm : s.manager = a.name) (hk : ∀ batch bin offset, s.kind = .static batch bin offset → batch ≤ s.id) :
    Described a' := by
  refine h.becomes hb hlen fun id s' hs => ?_
  have hs : Function.update l.segments s.id (some s) id = some s' := hs
  rw [Function.update_apply, hsegs] at hs
  split at hs
  · obtain rfl := Option.some.inj hs
    exact Or.inr ⟨hm, hk⟩
  · exact Or.inl hs

theorem forgotten (h : Described a) {id : Nat} (hb : a.Becomes (l.forget id) a')
    (hlen : l.batches.length = a.batches.length) (hsegs : l.segments = a.ledger.segments) : Described a' := by
  refine h.becomes hb hlen fun k s hs => Or.inl ?_
  have hs : Function.update l.segments id none k = some s := hs
  rw [Function.update_apply, hsegs] at hs
  split at hs
  · cases hs
  · exact hs

/-- A batch is added after at least one id was used up. -/
theorem grown (h : Described a) (hpools : ∃ c ∈ a.batches, c.pools ≠ []) (hg : a.Grown shm a' shm') :
    Described a' := by
  cases hg with
  | refused hb => exact h.idle hb rfl rfl
  | @added b _ hb hdrawn =>
    have hlen : a'.batches.length = a.batches.length + 1 := by
      have := congrArg (fun l => l.batches.length) hb.ledger
      simpa [Allocator.ledger, Ledger.addBatch] using this
    have hsegs : a'.ledger.segments = a.ledger.segments := by
      rw [hb.ledger]
      rfl
    have := h.paced
    have := hdrawn hpools
    refine ⟨by omega, ?_, ?_⟩
    · rw [hsegs, hb.name_eq]
      exact h.manager
    · rw [hsegs]
      exact h.early

theorem stored (h : Described a) {bytes : Bytes} (hs : a.Stored shm s bytes a' shm') : Described a' := by
  refine h.recorded hs.after rfl rfl hs.manager fun batch bin offset hk => ?_
  rw [hs.kind] at hk
  cases hk

theorem granted (h : Described a) (hpools : ∃ c ∈ a.batches, c.pools ≠ []) {content : Bytes}
    (hg : a.Granted shm content s a' shm') : Described a' := by
  cases hg with
  | stored _ hs => exact h.stored hs
  | @took a₁ _ _ b p p' offset hgrown ht =>
    have h₁ := h.grown hpools hgrown
    refine h₁.recorded ht.after (by simp [Ledger.setBatch, Allocator.ledger]) rfl ht.manager ?_
    intro batch bin start hk
    rw [ht.served.kind, Kind.static.injEq] at hk
    have hlt : b.id < a₁.batches.length := (List.getElem?_eq_some_iff.mp ht.batch).1
    have hid : b.id = batch := hk.1
    have := h₁.paced
    have := ht.fresh
    omega
  | mapped hm =>
    refine h.recorded hm.after rfl rfl hm.manager fun batch bin offset hk => ?_
    rw [hm.kind] at hk
    cases hk

theorem refused (h : Described a) (hpools : ∃ c ∈ a.batches, c.pools ≠ []) (hr : a.Refused shm a' shm') :
    Described a' := by
  cases hr with
  | grown hg => exact h.grown hpools hg
  | unnamed hb => exact h.idle hb rfl rfl

theorem freed (h : Described a) (hf : a.Freed shm s a' shm') : Described a' := by
  cases hf with
  | chunks _ _ _ _ hb => exact h.forgotten hb (by simp [Ledger.setBatch, Allocator.ledger]) rfl
  | region _ _ hb => exact h.forgotten hb rfl rfl
  | entry _ hb => exact h.forgotten hb rfl rfl

theorem replaced (h : Described a) (hown : ∀ id s, a.ledger.segments id = some s → s.id = id) {r : Replacement}
    {answer : Except Error Unit} (hr : r.apply a = (answer, a')) : Described a' := by
  cases answer with
  | error e => exact h.idle (Replacement.error hr) rfl rfl
  | ok u =>
    obtain ⟨s, hs, -, ht, hb⟩ := Replacement.ok (hown r.id) hr
    refine h.recorded (s := { s with size := r.content.length }) hb rfl rfl (h.manager _ s hs) ?_
    intro batch bin offset hk
    have hk : s.kind = .static batch bin offset := hk
    rw [Segment.tier_of_static hk] at ht
    cases ht

theorem written (h : Described a) {offset : Nat} {data : Bytes} (hw : a.Written shm s offset data a' shm') :
    Described a' := by
  cases hw with
  | chunks => exact h
  | region => exact h
  | entry _ _ _ hb => exact h.idle hb rfl rfl

end Described

/-! ## Standing -/

/-- What holds of an allocator with its traffic. -/
structure Standing (a : Allocator) (shm : Shm) (t : Traffic) : Prop where
  accounts : Accounted a t
  mapping : Mapping a shm
  exchanging : Exchanging a shm t
  tiered : a.Tiered a.config
  described : Described a
  checked : a.config.check = .ok ()

namespace Standing

variable {a a' : Allocator} {t : Traffic} {shm shm' : Shm}

/-- What others do to memory. -/
theorem keep (h : Standing a shm t) (hk : ∀ n, OfManager a.name n → Shm.Keeps n shm shm') : Standing a shm' t :=
  { h with
    mapping := h.mapping.keep fun n hn => hk n (Mapping.needs_ofManager (Or.inl hn))
    exchanging := h.exchanging.keep (hk _ (Or.inr (Or.inr rfl))) }

theorem exists_pools (h : Standing a shm t) : ∃ c ∈ a.batches, c.pools ≠ [] := by
  obtain ⟨c, hc⟩ := List.exists_mem_of_ne_nil _ h.tiered.batches
  exact ⟨c, hc, (h.tiered.regular c hc).pools⟩

end Standing

section
variable {allowed : Traffic → Descriptor → Prop} {s s' : System} {e : System.Event}

/-- A step keeps what the segments say. -/
theorem Described.step (h : Standing s.allocator s.shm s.traffic) (hs : System.Step allowed s e s') :
    Described s'.allocator := by
  have hacc := h.accounts
  have hd := h.described
  have hfree := hacc.regions_none (hacc.unissued _ (Nat.le_refl _))
  cases hs with
  | granted hr => exact hd.granted h.exists_pools (Request.granted hacc.sound hacc.unissued hr).2
  | refused hr => exact hd.refused h.exists_pools (Request.refused hacc.sound hacc.unissued hfree hr)
  | replace hr => exact hd.replaced (fun _ _ => hacc.own _) hr
  | released hr =>
    obtain ⟨seg, -, -, -, hf⟩ := Allocator.release_ok hacc.own hr
    exact hd.freed hf
  | written hw =>
    obtain ⟨seg, -, -, -, hw⟩ := Allocator.write_ok hacc.sound hacc.own hw
    exact hd.written hw
  | askMalloc ho => exact hd.idle (Allocator.offerMalloc_ids ho) rfl rfl
  | denyMalloc ho => exact hd.idle (Allocator.offerMalloc_ids ho) rfl rfl
  | @await pre c post r a shm ht ha =>
    have hc : c ∈ s.traffic.cycles := by simp [ht]
    cases r with
    | error e => exact hd.idle (Allocator.await_error (hacc.await_absent hc) ha).1 rfl rfl
    | ok seg =>
      obtain ⟨_, _, -, ⟨-, hb⟩ | ⟨-, -, _, -, hstored⟩⟩ :=
        Allocator.await_ok (hacc.await_absent hc) (hacc.await_drawn hc) ha
      · exact hd.idle hb rfl rfl
      · exact hd.stored hstored
  | _ => exact hd

/-- What a step does in memory: it keeps the regions and the exchange region of the allocator, and
has a footprint. -/
theorem Standing.step_memory (h : Standing s.allocator s.shm s.traffic) (hs : System.Step allowed s e s')
    (he : e ≠ .outside) : Mapping s'.allocator s'.shm ∧ Exchanging s'.allocator s'.shm s'.traffic ∧
      s.allocator.Footprint s'.allocator s.shm s'.shm := by
  obtain ⟨hacc, hmap, hex, -, -, -⟩ := h
  have hfree := hacc.regions_none (hacc.unissued _ (Nat.le_refl _))
  obtain ⟨l, hb⟩ := hacc.becomes_step hs
  -- an operation on the ledger alone
  have hidle : ∀ {a l}, s.allocator.Becomes l a → l.batches = s.allocator.ledger.batches →
      l.regions = s.allocator.ledger.regions → Mapping a s.shm ∧ Exchanging a s.shm s.traffic ∧
        s.allocator.Footprint a s.shm s.shm := fun hb hbatches hregions =>
    ⟨hmap.idle hb hbatches hregions, hex.becomes hb,
      hb.footprint (by rw [hbatches]; rfl) fun _ => Shm.acts_refl ..⟩
  have hstay := hidle (.refl s.allocator) rfl rfl
  -- something at the exchange region alone
  have hthere : ∀ {a : Allocator} {l : Ledger} {shm : Shm}, s.allocator.Becomes l a →
      l.batches = s.allocator.ledger.batches → l.regions = s.allocator.ledger.regions →
      shm.names = s.shm.names → (∀ n, n ≠ cacheRegionName s.allocator.name → Shm.Keeps n s.shm shm) →
      Mapping a shm ∧ s.allocator.Footprint a s.shm shm := fun hb hbatches hregions hnames hk =>
    ⟨(hmap.keep fun n hn => hk n (Mapping.uses_ne_cache hn)).idle hb hbatches hregions,
      hb.footprint (by rw [hbatches]; rfl) fun _ => Shm.acts_of_keeps hnames hk⟩
  cases hs with
  | granted hr =>
    obtain ⟨-, hg⟩ := Request.granted hacc.sound hacc.unissued hr
    obtain ⟨hmap', hk⟩ := hmap.granted hg
    exact ⟨hmap', (hex.keep (hk _ (Or.inr rfl))).becomes hb, hg.footprint hmap⟩
  | refused hr =>
    have hg := Request.refused hacc.sound hacc.unissued hfree hr
    obtain ⟨hmap', hk⟩ := hmap.refused hfree hg
    exact ⟨hmap', (hex.keep (hk _ (Or.inr rfl))).becomes hb, hg.footprint hmap⟩
  | @replace r answer a hr =>
    cases answer with
    | error e => exact hidle (Replacement.error hr) rfl rfl
    | ok u =>
      obtain ⟨seg, -, -, -, hafter⟩ := Replacement.ok hacc.own hr
      exact hidle hafter rfl rfl
  | released hr =>
    obtain ⟨seg, -, rfl, -, hf⟩ := Allocator.release_ok hacc.own hr
    obtain ⟨hmap', hk⟩ := hmap.freed hf
    exact ⟨hmap', (hex.becomes hb).keep (hk _ (Or.inr rfl)), hf.footprint hmap⟩
  | unreleased => exact hstay
  | written hw =>
    obtain ⟨seg, -, rfl, -, hw⟩ := Allocator.write_ok hacc.sound hacc.own hw
    obtain ⟨hmap', hk⟩ := hmap.written hw
    exact ⟨hmap', (hex.keep hk).becomes hb, hw.footprint hmap⟩
  | unwritten => exact hstay
  | read => exact hstay
  | askMalloc ho =>
    have hids := Allocator.offerMalloc_ids ho
    obtain ⟨-, x, hx, hle, rfl⟩ := Allocator.offerMalloc_ok ho
    obtain ⟨hmap', -, hfoot⟩ := hidle hids rfl rfl
    exact ⟨hmap', hex.ask hids ⟨x, hx, rfl, hle⟩, hfoot⟩
  | denyMalloc ho => exact hidle (Allocator.offerMalloc_ids ho) rfl rfl
  | askRetrieve _ ho =>
    obtain ⟨-, x, payload, -, -, hx, -, hle, rfl⟩ := Allocator.offerRetrieve_ok ho
    exact ⟨hmap, hex.ask (.refl _) ⟨x, hx, rfl, hle⟩, hstay.2.2⟩
  | denyRetrieve => exact hstay
  | exchange hx =>
    obtain ⟨hex', hnames, hk⟩ := hex.step hx
    obtain ⟨hmap', hfoot⟩ := hthere (.refl _) rfl rfl hnames hk
    exact ⟨hmap', hex', hfoot⟩
  | @await pre c post r a shm ht ha =>
    have hc : c ∈ s.traffic.cycles := by simp [ht]
    have hend : ∀ {answer cache l}, c.pending.wait? s.allocator.cache s.shm = some (answer, cache, shm) →
        s.allocator.Becomes l a → l.batches = s.allocator.ledger.batches →
        l.regions = s.allocator.ledger.regions → Mapping a shm ∧
          Exchanging a shm { s.traffic with cycles := pre ++ post } ∧
          s.allocator.Footprint a s.shm shm := by
      intro answer cache l hw hb hbatches hregions
      obtain ⟨hex', hnames, hk⟩ := hex.settled ht hw hb
      obtain ⟨hmap', hfoot⟩ := hthere hb hbatches hregions hnames hk
      exact ⟨hmap', hex', hfoot⟩
    cases r with
    | error e =>
      obtain ⟨hb, cache, hw⟩ := Allocator.await_error (hacc.await_absent hc) ha
      exact hend hw hb rfl rfl
    | ok seg =>
      obtain ⟨_, cache, hw, ⟨-, hb⟩ | ⟨-, -, _, -, hstored⟩⟩ :=
        Allocator.await_ok (hacc.await_absent hc) (hacc.await_drawn hc) ha
      · exact hend hw hb rfl rfl
      · exact hend hw hstored.after rfl rfl
  | drop ht =>
    obtain ⟨hex', hnames, hk⟩ := hex.drop ht
    obtain ⟨hmap', hfoot⟩ := hthere (.refl _) rfl rfl hnames hk
    dsimp only
    exact ⟨hmap', hex', hfoot⟩
  | outside => exact absurd rfl he

/-- Every step of an allocator leaves it in good standing, and has a footprint. -/
theorem Standing.step (h : Standing s.allocator s.shm s.traffic) (hs : System.Step allowed s e s')
    (he : e ≠ .outside) : Standing s'.allocator s'.shm s'.traffic ∧
      s.allocator.Footprint s'.allocator s.shm s'.shm := by
  obtain ⟨hmap, hex, hfoot⟩ := h.step_memory hs he
  obtain ⟨l, hb⟩ := h.accounts.becomes_step hs
  refine ⟨⟨h.accounts.step hs, hmap, hex, ?_, Described.step h hs, ?_⟩, hfoot⟩
  · rw [hb.config]
    exact h.tiered.step h.accounts hs
  · rw [hb.config]
    exact h.checked

end

theorem exchanging_create {config : Config} {a : Allocator} {shm₀ shm : Shm}
    (h : Allocator.create config shm₀ = (.ok a, shm)) : Exchanging a shm .empty := by
  obtain ⟨first, shm₁, cache, -, -, hc, rfl⟩ := Allocator.create_ok h
  cases hmode : config.cacheMode with
  | inProcess =>
    rw [hmode] at hc
    obtain rfl := Except.ok.inj (Prod.mk.inj hc).1
    exact ⟨rfl, nofun, fun _ => ⟨rfl, rfl⟩, nofun⟩
  | handoff count size =>
    rw [hmode] at hc
    obtain ⟨x, -, ho⟩ := Channel.inOrder_start {} hc
    obtain ⟨-, hm, -⟩ := Channel.proper_start {} hc
    refine ⟨hm, nofun, fun _ => ⟨rfl, rfl⟩, fun y hy => ?_⟩
    obtain rfl := Option.some.inj (hy.symm.trans ho.exchange)
    exact ho

theorem standing_create {config : Config} {a : Allocator} {shm₀ shm : Shm}
    (h : Allocator.create config shm₀ = (.ok a, shm)) : Standing a shm .empty := by
  refine ⟨accounted_create h, mapping_create h, exchanging_create h, ?_, ?_, ?_⟩ <;>
    obtain ⟨first, shm₁, cache, hcheck, -, -, rfl⟩ := id (Allocator.create_ok h)
  · exact Allocator.tiered_create h
  · exact ⟨Nat.le_refl _, nofun, nofun⟩
  · exact hcheck

end TierAlloc
