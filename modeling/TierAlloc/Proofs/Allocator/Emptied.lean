import TierAlloc.Proofs.Allocator.Sizes
import TierAlloc.Proofs.Cache.Areas
import TierAlloc.Proofs.Consumer.Rollback
import TierAlloc.Proofs.Ids.Family
import TierAlloc.Proofs.Shared.Standing

/-!
# Segments without bytes

Whoever makes a segment or replaces an entry has to ask for a byte at least. What a peer delivers
may be empty, though, and the segment is then as long as what was delivered. That is the one
way to a segment without bytes, and a consumer does not take its descriptor.

**Results.**
* `System.eachArea_step`: what the words of the exchange region say through the steps of an allocator.
* `System.Event.sizes_empty`: which events leave a size of zero.
* `empty_only_delivered`: a segment without bytes was delivered so, and consumers refuse just those.
* `empty_delivered`: such a segment.
-/
namespace TierAlloc

open Function (update)

/-! ## The words of the exchange region -/

namespace System

variable {allowed : Traffic → Descriptor → Prop} {s s' : System} {e : Event} {x : Exchange}
  {P P' : Pending → AreaWords → Prop}

/-- Every step of an allocator, whatever descriptors its peers present. -/
theorem eachArea_step (h : Standing s.allocator s.shm s.traffic) (hx : s.allocator.cache.exchange = some x)
    (hkept : ∀ p w, P p w → P' p w) (hcarry : ∀ te, e = .exchange te → Carries allowed x te P P')
    (he : EachArea P x s.shm s.traffic) (hs : Step allowed s e s') : EachArea P' x s'.shm s'.traffic := by
  obtain ⟨hacc, hmap, hex, -, -, -⟩ := h
  have hheld := (hex.ordered x hx).held
  have hfree := hacc.regions_none (hacc.unissued _ (Nat.le_refl _))
  obtain ⟨l, hb⟩ := hacc.becomes_step hs
  have hstay : EachArea P' x s.shm s.traffic := he.mono hkept
  have hbeside : ∀ {shm}, Shm.Keeps (cacheRegionName s.allocator.name) s.shm shm → EachArea P' x shm s.traffic :=
    fun hk => hstay.beside (hex.beside hx hk)
  cases hs with
  | granted hr => exact hbeside ((hmap.granted (Request.granted hacc.sound hacc.unissued hr).2).2 _ (Or.inr rfl))
  | refused hr =>
    exact hbeside ((hmap.refused hfree (Request.refused hacc.sound hacc.unissued hfree hr)).2 _ (Or.inr rfl))
  | released hr =>
    obtain ⟨seg, -, rfl, -, hf⟩ := Allocator.release_ok hacc.own hr
    exact hbeside ((hmap.freed hf).2 _ (Or.inr (congrArg cacheRegionName hb.name_eq.symm)))
  | written hw =>
    obtain ⟨seg, -, rfl, -, hw⟩ := Allocator.write_ok hacc.sound hacc.own hw
    exact hbeside (hmap.written hw).2
  | exchange ht => exact he.carry (hcarry _ rfl) hheld ht
  | @await pre c post r a shm ht ha =>
    have hc : c ∈ s.traffic.cycles := by simp [ht]
    have hend : ∀ {answer cache}, c.pending.wait? s.allocator.cache s.shm = some (answer, cache, shm) →
        EachArea P' x shm { s.traffic with cycles := pre ++ post } := fun hw =>
      hstay.finish hheld ht (hheld.settle (Traffic.pending_of_split ht) hw).1
    cases r with
    | error e =>
      obtain ⟨-, cache, hw⟩ := Allocator.await_error (hacc.await_absent hc) ha
      exact hend hw
    | ok seg =>
      obtain ⟨_, cache, hw, -⟩ := Allocator.await_ok (hacc.await_absent hc) (hacc.await_drawn hc) ha
      exact hend hw
  | @drop pre c post ht =>
    have hend := hheld.drop (Traffic.pending_of_split ht)
    dsimp only
    generalize Pending.drop _ s.shm = shm at hend ⊢
    exact hstay.finish hheld ht hend
  | outside ho => exact hbeside (ho.keeps (Or.inr (Or.inr rfl)))
  | _ => exact hstay

/-! ## What leaves a size of zero -/

/-- A payload that is ready and has no bytes was delivered without. -/
def Fed (events : List Event) (_ : Pending) (w : AreaWords) : Prop :=
  w.signal = Signal.dataReady → w.length = 0 →
    ∃ q d, .exchange (.deliver q d [] (.ok ())) ∈ events ∧ d.id = w.segment

theorem fed_carries (events : List Event) (te : Traffic.Event) :
    Carries allowed x te (Fed events) (Fed (events ++ [.exchange te])) where
  kept p w h hsignal hlen := by
    obtain ⟨q, d, hmem, hid⟩ := h hsignal hlen
    exact ⟨q, d, List.mem_append_left _ hmem, hid⟩
  placed o area _ hsignal := by
    have hsignal : o.transfer.direction.waiting = Signal.dataReady := hsignal
    cases hd : o.transfer.direction <;> rw [hd] at hsignal <;> cases hsignal
  delivered p w t q d data _ he _ hid _ hlt _ hlen := by
    have hlen : data.length % wordRange = 0 := hlen
    rw [Nat.mod_eq_of_lt (Nat.lt_trans hlt (by decide))] at hlen
    obtain rfl := List.length_eq_zero_iff.mp hlen
    exact ⟨q, d, List.mem_append_right _ (by rw [he]; exact List.mem_singleton_self _), hid⟩
  collected p w _ hsignal := nomatch hsignal

theorem empty_of_update {m : Nat → Option (Tier × Nat)} {k id n : Nat} {t tier : Tier}
    (h : update m k (some (t, n)) id = some (tier, 0)) : m id = some (tier, 0) ∨ k = id ∧ n = 0 := by
  rw [Function.update_apply] at h
  split at h
  · rename_i he
    exact Or.inr ⟨he.symm, (Prod.mk.inj (Option.some.inj h)).2⟩
  · exact Or.inl h

/-- An event leaves a size of zero in the table where there was one, or hands a segment over
that has none. -/
theorem Event.sizes_empty (hf : e.Filled) {m : Sizes} {id : Nat} {tier : Tier}
    (h : (e.sizes m).recorded id = some (tier, 0)) :
    m.recorded id = some (tier, 0) ∨
      ∃ k seg, e = .await k (.ok seg) ∧ k.pending.direction = .inbound ∧ seg.id = id ∧ seg.size = 0 := by
  unfold Event.sizes at h
  split at h
  case h_1 r seg shown =>
    rw [Sizes.grant_recorded] at h
    rcases empty_of_update h with h | ⟨-, hzero⟩
    · exact Or.inl h
    · exact absurd hzero (Nat.ne_of_gt hf)
  case h_2 r =>
    rcases empty_of_update h with h | ⟨-, hzero⟩
    · exact Or.inl h
    · exact absurd hzero (Nat.ne_of_gt hf)
  case h_3 k expected =>
    have h : update m.recorded k none id = some (tier, 0) := h
    rw [Function.update_apply] at h
    split at h
    · cases h
    · exact Or.inl h
  case h_4 k seg =>
    split at h
    · rename_i hd
      rcases empty_of_update h with h | ⟨hid, hzero⟩
      · exact Or.inl h
      · exact Or.inr ⟨k, seg, rfl, hd, hid, hzero⟩
    · exact Or.inl h
  case h_5 => exact Or.inl h

end System

/-- A segment that is handed over is as long as the area says that its payload is. -/
theorem Allocator.await_length {a a' : Allocator} {t : Traffic} {shm shm' : Shm} {pre post : List Cycle} {k : Cycle}
    {x : Exchange} {s : Segment} (h : Standing a shm t) (hx : a.cache.exchange = some x)
    (ht : t.cycles = pre ++ k :: post) (ha : a.await? k.pending shm = some (.ok s, a', shm'))
    (hd : k.pending.direction = .inbound) :
    x.signal shm k.pending.area = Signal.dataReady ∧ x.payloadLength shm k.pending.area = s.size ∧
      x.segment shm k.pending.area = s.id % wordRange := by
  have hk : k ∈ t.cycles := by simp [ht]
  have hheld := (h.exchanging.ordered x hx).held
  have hmem := Traffic.pending_of_split ht
  have hexchange := hheld.exchange _ hmem
  obtain ⟨s₀, cache, hw, ⟨hout, -⟩ | ⟨-, hid, bytes, hbytes, hstored⟩⟩ :=
    Allocator.await_ok (h.accounts.await_absent hk) (h.accounts.await_drawn hk) ha
  · rw [hd] at hout
    cases hout
  obtain ⟨-, ⟨hsignal, htake⟩ | ⟨-, he, -⟩⟩ := hheld.settle hmem hw
  · rcases Pending.take_ok htake with ⟨hout, -⟩ | ⟨-, -, -, hb⟩
    · rw [hd] at hout
      cases hout
    rw [Pending.signal, hd, hexchange] at hsignal
    rw [hb.contents, hid, Function.update_self, hexchange] at hbytes
    refine ⟨hsignal, ?_, by rw [hheld.segment _ hmem, hid]⟩
    rw [hstored.size, ← Option.some.inj hbytes, Shm.bytes, Block.length_read]
  · cases he

namespace System

/-- The segment under `id` was handed over, and a peer had delivered nothing as its payload. -/
def Emptied (events : List Event) (id : Nat) : Prop :=
  ∃ before k seg after, events = before ++ .await k (.ok seg) :: after ∧ seg.id = id ∧ seg.size = 0 ∧
    k.pending.direction = .inbound ∧
    ∃ q d, .exchange (.deliver q d [] (.ok ())) ∈ before ∧ d.id = id % wordRange

theorem Emptied.mono {events : List Event} {id : Nat} (h : Emptied events id) (e : Event) :
    Emptied (events ++ [e]) id := by
  obtain ⟨before, k, seg, after, rfl, h⟩ := h
  exact ⟨before, k, seg, after ++ [e], by simp, h⟩

/-- What steps rely on: a size of zero has come from a delivery. -/
structure Delivered (events : List Event) (s : System) : Prop where
  standing : Standing s.allocator s.shm s.traffic
  indexed : s.allocator.Indexed
  orderly : (s.allocator.holding s.traffic []).Orderly s.allocator.ids
  fed : ∀ x, s.allocator.cache.exchange = some x → EachArea (Fed events) x s.shm s.traffic
  empty : ∀ id tier, s.allocator.ledger.sizes.recorded id = some (tier, 0) → Emptied events id

section
variable {allowed : Traffic → Descriptor → Prop} {s s' : System} {e : Event} {events : List Event}

theorem Delivered.await (h : Delivered events s) {k : Cycle} {seg : Segment}
    (hs : Step allowed s (.await k (.ok seg)) s') (hd : k.pending.direction = .inbound) (hzero : seg.size = 0) :
    Emptied (events ++ [.await k (.ok seg)]) seg.id := by
  cases hs with
  | @await pre c post r a shm ht ha =>
    cases hx : s.allocator.cache.exchange with
    | none =>
      have hcycles := (h.standing.exchanging.idle hx).2
      simp [ht] at hcycles
    | some x =>
      obtain ⟨hsignal, hlen, hsegment⟩ := Allocator.await_length h.standing hx ht ha hd
      obtain ⟨q, d, hmem, hid⟩ := h.fed x hx k.pending (Traffic.pending_of_split ht) hsignal (hlen.trans hzero)
      exact ⟨events, k, seg, [], rfl, rfl, hzero, hd, q, d, hmem, hid.trans hsegment⟩

theorem Delivered.step (h : Delivered events s) (hs : Step allowed s e s') : Delivered (events ++ [e]) s' := by
  obtain ⟨hi, hmoves⟩ := Step.moves h.indexed h.orderly hs
  obtain ⟨hfilled, hsizes⟩ := Step.sizes h.indexed h.orderly hs
  obtain ⟨l, hb⟩ := h.standing.accounts.becomes_step hs
  refine ⟨?_, hi, hmoves.orderly h.orderly, fun x hx => ?_, fun id tier hid => ?_⟩
  · by_cases he : e = .outside
    · subst he
      cases hs with
      | outside ho => exact h.standing.keep fun n hn => ho.keeps hn
    · exact (h.standing.step hs he).1
  · rw [hb.exchange] at hx
    refine eachArea_step h.standing hx (fun p w hw hsignal hlen => ?_) (fun te he => ?_) (h.fed x hx) hs
    · obtain ⟨q, d, hmem, hid⟩ := hw hsignal hlen
      exact ⟨q, d, List.mem_append_left _ hmem, hid⟩
    · rw [he]
      exact fed_carries events te
  · rw [hsizes] at hid
    rcases e.sizes_empty hfilled hid with hold | ⟨k, seg, rfl, hd, rfl, hzero⟩
    · exact (h.empty id tier hold).mono e
    · exact h.await hs hd hzero

end

theorem delivered_create {config : Config} {a : Allocator} {shm₀ shm : Shm}
    (h : Allocator.create config shm₀ = (.ok a, shm)) : Delivered [] (start a shm) := by
  obtain ⟨hi, hnil, hnone⟩ := (Member.Made.allocator h).fresh
  refine ⟨standing_create h, hi, Holding.orderly_of_fresh hnil hnone, fun x hx p hp => ?_, fun id tier hid => ?_⟩
  · cases hp
  · have hid : a.ledger.sizes.recorded id = some (tier, 0) := hid
    obtain ⟨first, shm₁, cache, -, -, -, rfl⟩ := Allocator.create_ok h
    cases hid

/-- **Where segments without bytes come from.** Whatever an allocator and its peers do, in whatever
order and under whatever descriptors: a segment has a byte at least, and so does an entry of the
cache, unless it was handed over and a peer had delivered nothing as its payload. The
descriptor of a live segment is refused as naming no segment when its size is zero, and only then,
whoever is to register it. -/
theorem empty_only_delivered {config : Config} {a : Allocator} {shm₀ shm : Shm} {events : List Event} {s : System}
    (hc : Allocator.create config shm₀ = (.ok a, shm))
    (hrun : Run (Step fun _ _ => True) (start a shm) events s) :
    (∀ id seg, s.allocator.get id = .ok seg → 1 ≤ seg.size ∨ Emptied events id) ∧
      (∀ id n, s.allocator.cache.size? id = some n → 1 ≤ n ∨ Emptied events id) ∧
      ∀ id seg, s.allocator.get id = .ok seg → ∀ (c : Consumer) (memory : Shm),
        (c.register seg.descriptor memory).1 = .error .noSegment ↔ seg.size = 0 := by
  have h := hrun.invariant (P := Delivered) (delivered_create hc) Delivered.step
  have hempty : ∀ id seg, s.allocator.get id = .ok seg → 1 ≤ seg.size ∨ Emptied events id := by
    intro id seg hlive
    rcases Nat.eq_zero_or_pos seg.size with hzero | hpos
    · refine Or.inr (h.empty id seg.tier ?_)
      rw [← hzero]
      exact Option.map_eq_some_iff.mpr ⟨seg, Allocator.get_eq_ok.mp hlive, rfl⟩
    · exact Or.inl hpos
  refine ⟨hempty, fun id n hn => ?_, fun id seg hlive c memory => ?_⟩
  · obtain ⟨seg, hlive, -, rfl⟩ := ((agrees_of_accounted h.standing.accounts).cached id n).mp hn
    exact hempty id seg hlive
  · have hmanager : seg.manager.isEmpty = false := by
      rw [h.standing.described.manager id seg (Allocator.get_eq_ok.mp hlive)]
      exact Config.name_of_check h.standing.checked
    rw [Consumer.register_noSegment]
    show seg.size = 0 ∨ seg.manager.isEmpty = true ↔ seg.size = 0
    simp [hmanager]

/-! ## A payload of no bytes

The sample allocator with one area of eight bytes. It asks for four bytes, and a peer delivers none. -/

def bareConfig : Config := { sampleConfig with cacheMode := .handoff 1 8 }

def bareExchange : Exchange := ⟨⟨"m#cachbin", 1, 136, some 1⟩, ⟨1, 8⟩⟩

def bareAllocator : Allocator :=
  { sampleAllocator with config := bareConfig
                         cache := { Cache.inProcess "m" none with exchange := some bareExchange } }

def bareMemory : Shm := (Exchange.create "m" ⟨1, 8⟩ sampleMemory).2

theorem bare_create : Allocator.create bareConfig .empty = (.ok bareAllocator, bareMemory) := by
  have hcheck : bareConfig.check = .ok () := by decide
  have hb : (Batch.create "m" 0 ⟨[⟨8, 4⟩]⟩ .empty).1 = .ok sampleBatch := by decide +kernel
  have hx : (Exchange.create "m" ⟨1, 8⟩ sampleMemory).1 = .ok bareExchange := by decide +kernel
  have hbatch : Batch.create bareConfig.name 0 bareConfig.geometry .empty = (.ok sampleBatch, sampleMemory) :=
    Prod.ext hb rfl
  have hexchange : Exchange.create "m" ⟨1, 8⟩ sampleMemory = (.ok bareExchange, bareMemory) := Prod.ext hx rfl
  have hcache : Cache.create bareConfig.name bareConfig.cacheMode bareConfig.cacheCapacity sampleMemory =
      (.ok bareAllocator.cache, bareMemory) := by
    show Cache.create "m" (.handoff 1 8) none sampleMemory = _
    simp only [Cache.create, hexchange]
    rfl
  unfold Allocator.create
  rw [hcheck]
  simp only [hbatch, hcache]
  rfl

def bareOffer : Offer := ⟨bareExchange, "m", 0, .inbound 4⟩

def barePlaced : Shm := ((bareOffer.place? bareMemory).map Prod.snd).getD .empty

def barePeer : Peer := ⟨"m", { bareExchange with region := { bareExchange.region with claim := none } }⟩

def bareServed : Shm := (barePeer.deliver (bareOffer.pending 0).descriptor [] barePlaced).2

/-- The segment that the allocator gets. -/
def bareSegment : Segment := { id := 0, size := 0, manager := "m", kind := .cache .inProcess }

theorem bare_run : ∃ events s, Run (Step fun _ _ => True) (start bareAllocator bareMemory) events s ∧
    s.allocator.get 0 = .ok bareSegment ∧ s.allocator.cache.size? 0 = some 0 := by
  have hask : Step (fun _ _ => True) (start bareAllocator bareMemory) (.askMalloc 4 (.ok bareOffer)) _ :=
    .askMalloc rfl
  have hplace : Traffic.Step "m" (fun _ _ => True) (bareMemory, ⟨[⟨bareOffer, .inbound 4⟩], [], [], []⟩)
      (.place ⟨bareOffer, .inbound 4⟩ (.ok (bareOffer.pending 0))) (barePlaced, _) :=
    .placed (List.nil_append _).symm (Channel.place?_eq (by decide +kernel))
  have hpeer : Peer.attach "m" barePlaced = .ok barePeer := by decide +kernel
  have hok : (barePeer.deliver (bareOffer.pending 0).descriptor [] barePlaced).1 = .ok () := by decide +kernel
  have hdeliver : Traffic.Step "m" (fun _ _ => True)
      (barePlaced, ⟨[], [⟨bareOffer.pending 0, .inbound 4, []⟩], [barePeer], [(bareOffer.pending 0).descriptor]⟩)
      (.deliver barePeer (bareOffer.pending 0).descriptor [] (.ok ())) (bareServed, _) :=
    .delivered List.mem_cons_self trivial (Prod.ext hok rfl)
  have hanswer : (Allocator.await? { bareAllocator with ids := ⟨1⟩ } (bareOffer.pending 0) bareServed).map
      (fun r => (r.1, r.2.1.segments.get? 0, r.2.1.cache.size? 0)) =
        some (.ok bareSegment, some bareSegment, some 0) := by decide +kernel
  obtain ⟨⟨r, a, shm⟩, ha, hr⟩ := Option.map_eq_some_iff.mp hanswer
  obtain ⟨rfl, hr⟩ := Prod.mk.inj hr
  obtain ⟨hlive, hstored⟩ := Prod.mk.inj hr
  have hawait : Step (fun _ _ => True)
      ⟨{ bareAllocator with ids := ⟨1⟩ }, bareServed, ⟨[], [⟨bareOffer.pending 0, .inbound 4, [[]]⟩], [barePeer],
        [(bareOffer.pending 0).descriptor]⟩⟩
      (.await ⟨bareOffer.pending 0, .inbound 4, [[]]⟩ (.ok bareSegment)) _ := .await (List.nil_append _).symm ha
  have hbefore := ((Run.one hask).next (.exchange hplace)).next (.exchange (.attach hpeer))
  exact ⟨_, _, (hbefore.next (.exchange hdeliver)).next hawait, Allocator.get_eq_ok.mpr hlive, hstored⟩

theorem empty_only_delivered_of_bare : ∃ events s,
    Run (Step fun _ _ => True) (start bareAllocator bareMemory) events s ∧
    s.allocator.get 0 = .ok bareSegment ∧ Emptied events 0 := by
  obtain ⟨events, s, hrun, hlive, -⟩ := bare_run
  have h := empty_only_delivered bare_create hrun
  exact ⟨events, s, hrun, hlive, (h.1 0 bareSegment hlive).resolve_left (by decide)⟩

/-- A live segment and its entry are empty, and a consumer refuses the descriptor. -/
theorem empty_delivered : ∃ events s, Allocator.create bareConfig .empty = (.ok bareAllocator, bareMemory) ∧
    Run (Step fun _ _ => True) (start bareAllocator bareMemory) events s ∧
    s.allocator.get 0 = .ok bareSegment ∧ bareSegment.size = 0 ∧ s.allocator.cache.size? 0 = some 0 ∧
    ((Consumer.ofName "q").register bareSegment.descriptor s.shm).1 = .error .noSegment := by
  obtain ⟨events, s, hrun, hlive, hstored⟩ := bare_run
  exact ⟨events, s, bare_create, hrun, hlive, rfl, hstored, Consumer.register_noSegment.mpr (Or.inl rfl)⟩

end System
end TierAlloc
