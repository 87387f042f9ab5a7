import TierAlloc.Proofs.Cache.Areas
import TierAlloc.Proofs.Cache.Ending

/-!
# Deliveries stay in their area

A peer bounds what it delivers by the size in the descriptor that it presents, and by
the end of the region. The region's owner issues descriptors of at most the size of an
area; but a peer may present any. As long as the sizes that are presented are within an
area, whatever else is wrong with the descriptors, a delivery changes nothing but the
area that it claims, and the owner's wait reads nothing but its own. A larger size lets
a delivery run into the next area.

**Results.**
* `Channel.deliveries_contained`: deliveries and waits keep to one area.
* `Channel.delivery_runs_over`: not so with a size larger than an area.
-/
namespace TierAlloc

namespace Shm

/-- The first bytes of a range are the bytes of a shorter one. -/
theorem take_bytes (s : Shm) (r : Region) (offset : Nat) {n length : Nat} (h : n ≤ length) :
    (s.bytes r offset length).take n = s.bytes r offset n := by
  unfold bytes Block.read
  rw [← List.map_take, List.take_range, Nat.min_eq_left h]

end Shm

theorem Exchange.length_congr {x : Exchange} {shm shm' : Shm} {area : Nat}
    (h : x.words shm' area = x.words shm area) :
    x.payloadLength shm' area = x.payloadLength shm area := by
  rw [payloadLength_of_words h, words]

/-- No handoff announces more bytes than an area holds. -/
def Fitting (x : Exchange) (shm : Shm) (t : Traffic) : Prop :=
  ∀ p ∈ t.pendings, x.payloadLength shm p.area ≤ x.layout.areaSize

/-- Peers present no descriptor larger than `size`. -/
def Within (size : Nat) (_ : Traffic) (d : Descriptor) : Prop := d.size ≤ size

/-- A delivery of at most the size of an area leaves a length that fits. -/
theorem fitting_survives (x : Exchange) :
    Survives (Within x.layout.areaSize) x fun _ w => w.length ≤ x.layout.areaSize where
  placed _ _ hfit := Nat.le_trans (Nat.mod_le ..) hfit
  delivered _ _ _ _ _ _ hd hle := Nat.le_trans (Nat.mod_le ..) (Nat.le_trans hle hd)
  collected _ _ h := h

namespace Channel

section
variable {manager : String} {x : Exchange} {s s' : Channel} {e : Event}

theorem fitting_step (h : InOrder manager x s) (hf : Fitting x s.shm s.traffic)
    (hs : Step manager (Within x.layout.areaSize) s e s') : Fitting x s'.shm s'.traffic :=
  eachArea_step (fitting_survives x) h hf hs

end

/-- The areas of the handoffs of a channel over `x` are kept apart by deliveries and waits. -/
structure Contained (x : Exchange) (s : Channel) : Prop where
  /-- A delivery that fails has changed no byte. -/
  failed : ∀ p ∈ s.traffic.peers, ∀ d data e shm', p.deliver d data s.shm = (.error e, shm') →
    Shm.Patch x.region.object (fun _ => False) s.shm shm'
  /-- One that succeeds has changed bytes of one area and its control block alone, that of an
  inbound handoff, and all that the other areas hold is as it was. -/
  delivered : ∀ p ∈ s.traffic.peers, ∀ d data shm', d.size ≤ x.layout.areaSize →
    p.deliver d data s.shm = (.ok (), shm') → ∃ k ∈ s.traffic.pendings,
      k.direction = .inbound ∧ d.kind = .cache (x.layout.locator k.area) ∧
      Shm.Patch x.region.object (fun i => Exchange.InControl k.area i ∨
        x.layout.areaOffset k.area ≤ i ∧ i < x.layout.areaOffset k.area + x.layout.areaSize)
        s.shm shm' ∧
      x.Others k.area s.shm shm'
  /-- What is copied out of an area lies in it. -/
  copied : ∀ k ∈ s.traffic.pendings, ∀ goal seg c' shm', k.direction = .inbound →
    k.settle? goal [] s.cache s.shm = some (.ok seg, c', shm') → ∃ length,
      length ≤ x.layout.areaSize ∧ c'.contents? k.segment.id =
        some (s.shm.bytes x.region (x.layout.areaOffset k.area) length)
  /-- How a payload is taken depends on its own area only. -/
  waits : ∀ k ∈ s.traffic.pendings, ∀ c shm', x.words shm' k.area = x.words s.shm k.area →
    shm'.bytes x.region (x.layout.areaOffset k.area) x.layout.areaSize =
      s.shm.bytes x.region (x.layout.areaOffset k.area) x.layout.areaSize →
    k.take c shm' = k.take c s.shm

theorem contained_of_fitting {manager : String} {x : Exchange} {s : Channel}
    (h : InOrder manager x s) (hf : Fitting x s.shm s.traffic) : Contained x s where
  failed p hp d data e shm' hdel := by
    rw [(h.held.peers p hp).deliver_eq] at hdel
    exact Peer.deliver_error h.held.object_lt hdel
  delivered p hp d data shm' hd hdel := by
    rw [(h.held.peers p hp).deliver_eq] at hdel
    obtain ⟨area, hdel⟩ := Peer.deliver_ok h.held.object_lt hdel
    obtain ⟨k, hk, rfl, hdir⟩ := h.held.served hdel.served
    have hle := Nat.le_trans hdel.length_le hd
    have hpart : Shm.Patch x.region.object (fun i => Exchange.InControl k.area i ∨
        x.layout.areaOffset k.area ≤ i ∧ i < x.layout.areaOffset k.area + x.layout.areaSize)
        s.shm shm' := by
      refine hdel.patch.mono fun i hi => hi.imp_right fun hi => ⟨hi.1, ?_⟩
      exact Nat.lt_of_lt_of_le hi.2 (Nat.add_le_add_left hle _)
    refine ⟨k, hk, hdir, hdel.claims.kind, hpart, ?_⟩
    refine Exchange.others_of_part (h.held.area_lt k hk) (hpart.mono fun i hi => ?_)
    rwa [Exchange.InPart, Exchange.InArea, Exchange.areaOffset_succ]
  copied k hk goal seg c' shm' hdir hs := by
    have hx := h.held.exchange k hk
    obtain ⟨-, ⟨-, htake⟩ | ⟨-, hr, -⟩⟩ := h.held.settle hk hs
    · rcases Pending.take_ok htake with ⟨hout, -⟩ | ⟨-, -, -, hb⟩
      · rw [hdir] at hout
        cases hout
      · rw [hx] at hb
        exact ⟨_, hf k hk, by rw [hb.contents, Function.update_self]⟩
    · cases hr
  waits k hk c shm' hw hb := by
    have hx := h.held.exchange k hk
    have hl := Exchange.length_congr hw
    have hbytes := congrArg (List.take (x.payloadLength s.shm k.area)) hb
    rw [Shm.take_bytes _ _ _ (hf k hk), Shm.take_bytes _ _ _ (hf k hk)] at hbytes
    unfold Pending.take
    simp only [hx, hl, Shm.read_eq, hbytes]

/-- **Containment.** As long as peers present descriptors of at most the size of an area,
with whatever manager, id and locator, deliveries and waits keep to one area. -/
theorem deliveries_contained {manager : String} {count size : Nat} {capacity : Option Nat}
    {shm₀ shm : Shm} {c : Cache} {ids : Counter} {events : List Event} {s : Channel}
    (hc : Cache.create manager (.handoff count size) capacity shm₀ = (.ok c, shm))
    (hrun : Run (Step manager (Within size)) (start c ids shm) events s) :
    ∃ x, s.cache.exchange = some x ∧ x.layout = ⟨count, size⟩ ∧ Contained x s := by
  obtain ⟨x, hlayout, h0⟩ := inOrder_start ids hc
  have hsize : x.layout.areaSize = size := by rw [hlayout]
  rw [← hsize] at hrun
  have h := hrun.invariant (P := fun _ s => InOrder manager x s ∧ Fitting x s.shm s.traffic)
    ⟨h0, fun p hp => absurd hp List.not_mem_nil⟩ fun h hs => ⟨h.1.step hs, fitting_step h.1 h.2 hs⟩
  exact ⟨x, h.1.exchange, hlayout, contained_of_fitting h.1 h.2⟩

theorem deliveries_contained_of_two_bytes : sampleServed.traffic.peers = [samplePeer] ∧
    ∃ x, sampleServed.cache.exchange = some x ∧ x.layout = ⟨1, 8⟩ ∧ Contained x sampleServed := by
  obtain ⟨events, hrun⟩ := served_run sampleCache.heap (Within 8) fun _ =>
    show 3 ≤ 8 by decide
  exact ⟨rfl, deliveries_contained sample_create hrun⟩

/-! ## A size larger than an area

Two handoffs to the owner, in the two areas of eight bytes that there are. Two bytes were
delivered for the second one when a peer presents the descriptor of the first with nine for
its size. -/

def pairExchange : Exchange := ⟨⟨"m#cachbin", 0, 208, some 0⟩, ⟨2, 8⟩⟩

def pairCache : Cache := { Cache.inProcess "m" none with exchange := some pairExchange }

def pairOffer (id : Nat) : Offer := ⟨pairExchange, "m", id, .inbound 3⟩

def pairPeer : Peer := ⟨"m", { pairExchange with region := { pairExchange.region with claim := none } }⟩

def pairMemory : Shm := (Cache.create "m" (.handoff 2 8) none .empty).2

/-- The memory once the first handoff has its area, once both have, and once two bytes were
delivered for the second. -/
def pairFirst : Shm := (((pairOffer 0).place? pairMemory).map Prod.snd).getD .empty

def pairBoth : Shm := (((pairOffer 1).place? pairFirst).map Prod.snd).getD .empty

def pairServed : Shm := (pairPeer.deliver ((pairOffer 1).pending 1).descriptor [1, 2] pairBoth).2

/-- The descriptor of the first handoff, with another size. -/
def edited : Descriptor := { ((pairOffer 0).pending 0).descriptor with size := 9 }

theorem pair_run : ∃ events s,
    Run (Step "m" fun _ _ => True) (start pairCache {} pairMemory) events s ∧
    s.shm = pairServed ∧ s.traffic.peers = [pairPeer] ∧
    s.traffic.pendings = [(pairOffer 1).pending 1, (pairOffer 0).pending 0] := by
  have hask : Step "m" (fun _ _ => True) (start pairCache {} pairMemory)
      (.askMalloc 3 (.ok (pairOffer 0))) _ := .askMalloc rfl
  have hplace : Traffic.Step "m" (fun _ _ => True)
      (pairMemory, ⟨[⟨pairOffer 0, .inbound 3⟩], [], [], []⟩)
      (.place ⟨pairOffer 0, .inbound 3⟩ (.ok ((pairOffer 0).pending 0))) (pairFirst, _) :=
    .placed (List.nil_append _).symm (place?_eq (by decide +kernel))
  have hask' : Step "m" (fun _ _ => True)
      ⟨pairCache, ⟨1⟩, pairFirst, ⟨[], [⟨(pairOffer 0).pending 0, .inbound 3, []⟩], [],
        [((pairOffer 0).pending 0).descriptor]⟩⟩
      (.askMalloc 3 (.ok (pairOffer 1))) _ := .askMalloc rfl
  have hplace' : Traffic.Step "m" (fun _ _ => True)
      (pairFirst, ⟨[⟨pairOffer 1, .inbound 3⟩], [⟨(pairOffer 0).pending 0, .inbound 3, []⟩], [],
        [((pairOffer 0).pending 0).descriptor]⟩)
      (.place ⟨pairOffer 1, .inbound 3⟩ (.ok ((pairOffer 1).pending 1))) (pairBoth, _) :=
    .placed (List.nil_append _).symm (place?_eq (by decide +kernel))
  have hpeer : Peer.attach "m" pairBoth = .ok pairPeer := by decide +kernel
  have hok : (pairPeer.deliver ((pairOffer 1).pending 1).descriptor [1, 2] pairBoth).1 = .ok () := by
    decide +kernel
  have hrun := ((((Run.one hask).next (.exchange hplace)).next hask').next (.exchange hplace')).next
    (.exchange (.attach hpeer))
  refine ⟨_, _, hrun.next (.exchange (.delivered List.mem_cons_self trivial (Prod.ext hok rfl))), rfl,
    rfl, ?_⟩
  exact Traffic.pendings_note _ _ _

/-- A delivery under the edited descriptor of the first handoff changes what was delivered for
the second. -/
theorem delivery_runs_over : ∃ events s shm',
    Cache.create "m" (.handoff 2 8) none .empty = (.ok pairCache, pairMemory) ∧
    Run (Step "m" fun _ _ => True) (start pairCache {} pairMemory) events s ∧
    pairPeer ∈ s.traffic.peers ∧ (pairOffer 1).pending 1 ∈ s.traffic.pendings ∧
    pairPeer.deliver edited (List.replicate 9 9) s.shm = (.ok (), shm') ∧
    s.shm.bytes pairExchange.region (pairExchange.layout.areaOffset 1) 2 = [1, 2] ∧
    shm'.bytes pairExchange.region (pairExchange.layout.areaOffset 1) 2 = [9, 2] := by
  obtain ⟨events, s, hrun, hshm, hpeers, hpendings⟩ := pair_run
  have hcreate : Cache.create "m" (.handoff 2 8) none .empty = (.ok pairCache, pairMemory) := rfl
  have hok : (pairPeer.deliver edited (List.replicate 9 9) pairServed).1 = .ok () := by
    decide +kernel
  have hbefore : pairServed.bytes pairExchange.region (pairExchange.layout.areaOffset 1) 2 = [1, 2] := by
    decide +kernel
  have hafter : (pairPeer.deliver edited (List.replicate 9 9) pairServed).2.bytes pairExchange.region
      (pairExchange.layout.areaOffset 1) 2 = [9, 2] := by
    decide +kernel
  rw [← hshm] at hok hbefore hafter
  generalize hdeliver : pairPeer.deliver edited (List.replicate 9 9) s.shm = answer at hok hafter
  obtain ⟨r, shm'⟩ := answer
  obtain rfl : r = .ok () := hok
  refine ⟨events, s, shm', hcreate, hrun, ?_, ?_, hdeliver, hbefore, hafter⟩
  · rw [hpeers]
    exact List.mem_singleton_self _
  · rw [hpendings]
    exact List.mem_cons_self

end Channel
end TierAlloc
