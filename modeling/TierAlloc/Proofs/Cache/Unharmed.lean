import TierAlloc.Proofs.Cache.Containment
import TierAlloc.Proofs.Cache.Stale

/-!
# Peers that fail

A peer moves the signal word of an area on before it looks at the segment word, and before
it knows whether the payload fits. What it cannot serve it puts back: one word, to the value
that it found. So whatever a peer presents, an operation that fails has changed no byte
of the region, and nobody can tell that it was tried: every peer gets the answers that it would
have got, a handoff that waits is still served under its own descriptor, and its owner can still
withdraw it.

That its own descriptor is served needs the area to be as it was announced: the length word is
the size of the segment until a peer finishes (`Announced`), whatever sizes others present.

**Results.**
* `Peer.claim_answer`, `Peer.deliver_answer`, `Peer.collect_answer`: the answers, by the words of
  the area.
* `Peer.undelivered_of_error`, `Peer.uncollected_of_error`: the reasons to fail.
* `announced_survives`: a handoff that waits is as it was announced.
* `Channel.failing_peers_harmless`: what a failure leaves.
-/
namespace TierAlloc

namespace Peer

variable {q : Peer} {d : Descriptor} {dir : Direction} {data : Bytes} {shm shm' : Shm} {area : Nat}
  {e : Error}

/-! ## Answers -/

/-- What a claim is answered with: the words of the area decide. -/
theorem claim_answer (q : Peer) (d : Descriptor) (dir : Direction) (shm : Shm) :
    (q.claim d dir shm).1 =
      if d.manager ≠ q.manager then
        .error (.invalidDescriptor (.otherManager d.id d.manager q.manager))
      else (q.exchange.locate d).bind fun area =>
        if q.exchange.signal shm area = dir.waiting ∧ q.exchange.segment shm area = d.id then .ok area
        else .error (.segmentNotFound d.id) := by
  unfold claim
  split
  · rfl
  cases q.exchange.locate d with
  | error e => rfl
  | ok area =>
    simp only [Exchange.segment_setSignal, Except.bind]
    by_cases hw : q.exchange.signal shm area = dir.waiting
    · by_cases hs : q.exchange.segment shm area = d.id <;> simp [hw, hs]
    · simp [hw]

/-- What a delivery is answered with. -/
theorem deliver_answer (q : Peer) (d : Descriptor) (data : Bytes) (shm : Shm) :
    (q.deliver d data shm).1 = (q.claim d .inbound shm).1.bind fun area =>
      if d.size < data.length ∨
          q.exchange.region.size < q.exchange.layout.areaOffset area + data.length then
        .error (.rangeError (q.exchange.layout.areaOffset area) data.length)
      else .ok () := by
  unfold deliver
  split
  · rename_i hc
    rw [hc]
    rfl
  · rename_i area shm₁ hc
    rw [hc]
    simp only [Except.bind, Shm.write_eq]
    by_cases hd : d.size < data.length
    · simp [hd]
    · by_cases hr : q.exchange.layout.areaOffset area + data.length ≤ q.exchange.region.size
      · simp [hd, hr, Nat.not_lt.mpr hr]
      · simp [hd, hr, Nat.lt_of_not_le hr]

/-- What a collection is answered with. -/
theorem collect_answer (q : Peer) (d : Descriptor) (shm : Shm) :
    (q.collect d shm).1 = (q.claim d .outbound shm).1.bind fun area =>
      shm.read q.exchange.region (q.exchange.layout.areaOffset area) (q.exchange.payloadLength shm area) := by
  unfold collect
  split
  · rename_i hc
    rw [hc]
    rfl
  · rename_i area shm₁ hc
    rw [hc]
    obtain ⟨hclaims, rfl⟩ := claim_ok hc
    simp only [Except.bind, Exchange.length_setSignal, Shm.read_eq,
      Exchange.data_eq_of_control hclaims.lt (q.exchange.patch_setSignal area Direction.outbound.copying shm)]
    split
    · rename_i hread
      exact hread.symm
    · rename_i hread
      exact hread.symm

/-- An operation that changed no byte changes no answer. -/
theorem claim_untouched (h : Shm.Patch q.exchange.region.object (fun _ => False) shm shm')
    (d : Descriptor) (dir : Direction) : (q.claim d dir shm').1 = (q.claim d dir shm).1 := by
  have hwords : ∀ area, q.exchange.words shm' area = q.exchange.words shm area :=
    fun area => Exchange.words_eq_of_patch h area fun _ _ => id
  have hsignal : ∀ area, q.exchange.signal shm' area = q.exchange.signal shm area := by
    intro area
    rw [Exchange.signal_of_words (hwords area), Exchange.words]
  have hsegment : ∀ area, q.exchange.segment shm' area = q.exchange.segment shm area := by
    intro area
    rw [Exchange.segment_of_words (hwords area), Exchange.words]
  simp only [claim_answer, hsignal, hsegment]

theorem deliver_untouched (h : Shm.Patch q.exchange.region.object (fun _ => False) shm shm')
    (d : Descriptor) (data : Bytes) : (q.deliver d data shm').1 = (q.deliver d data shm).1 := by
  rw [deliver_answer, deliver_answer, claim_untouched h]

theorem collect_untouched (h : Shm.Patch q.exchange.region.object (fun _ => False) shm shm')
    (d : Descriptor) : (q.collect d shm').1 = (q.collect d shm).1 := by
  have hlength : ∀ area, q.exchange.payloadLength shm' area = q.exchange.payloadLength shm area :=
    fun area => Exchange.length_congr (Exchange.words_eq_of_patch h area fun _ _ => id)
  have hbytes : ∀ offset length,
      shm'.bytes q.exchange.region offset length = shm.bytes q.exchange.region offset length :=
    fun offset length => h.bytes_eq _ _ _ (Or.inr fun _ _ _ => id)
  simp only [collect_answer, claim_untouched h, hlength, Shm.read_eq, hbytes]

/-! ## Reasons to fail -/

/-- Why an area cannot be claimed: the descriptor is of another manager, is no handoff's, names no
area, or names one that does not wait for its segment in this direction. -/
inductive Unclaimed (q : Peer) (d : Descriptor) (dir : Direction) (shm : Shm) : Error → Prop
  | otherManager (h : d.manager ≠ q.manager) :
      Unclaimed q d dir shm (.invalidDescriptor (.otherManager d.id d.manager q.manager))
  | notHandoff (manager : d.manager = q.manager) (h : ∀ data signal, d.kind ≠ .cache (.area data signal)) :
      Unclaimed q d dir shm (.invalidDescriptor (.notHandoff d.id))
  | noArea {data signal : Nat} (manager : d.manager = q.manager) (kind : d.kind = .cache (.area data signal))
      (h : q.exchange.layout.areaAt? data signal = none) :
      Unclaimed q d dir shm (.invalidDescriptor (.noArea data signal))
  | notWaiting {area : Nat} (manager : d.manager = q.manager) (located : q.exchange.locate d = .ok area)
      (h : q.exchange.signal shm area ≠ dir.waiting ∨ q.exchange.segment shm area ≠ d.id) :
      Unclaimed q d dir shm (.segmentNotFound d.id)

/-- Why a delivery fails. -/
inductive Undelivered (q : Peer) (d : Descriptor) (data : Bytes) (shm : Shm) : Error → Prop
  | unclaimed {e : Error} (h : q.Unclaimed d .inbound shm e) : Undelivered q d data shm e
  | tooLong {area : Nat} (claims : q.Claims d .inbound shm area)
      (h : d.size < data.length ∨
        q.exchange.region.size < q.exchange.layout.areaOffset area + data.length) :
      Undelivered q d data shm (.rangeError (q.exchange.layout.areaOffset area) data.length)

/-- Why a collection fails. -/
inductive Uncollected (q : Peer) (d : Descriptor) (shm : Shm) : Error → Prop
  | unclaimed {e : Error} (h : q.Unclaimed d .outbound shm e) : Uncollected q d shm e
  | outside {area : Nat} (claims : q.Claims d .outbound shm area)
      (h : q.exchange.region.size <
        q.exchange.layout.areaOffset area + q.exchange.payloadLength shm area) :
      Uncollected q d shm
        (.rangeError (q.exchange.layout.areaOffset area) (q.exchange.payloadLength shm area))

theorem unclaimed_of_error (h : (q.claim d dir shm).1 = .error e) : q.Unclaimed d dir shm e := by
  rw [claim_answer] at h
  by_cases hm : d.manager = q.manager
  swap
  · rw [if_pos hm] at h
    obtain rfl := Except.error.inj h
    exact .otherManager hm
  rw [if_neg (not_not_intro hm)] at h
  cases hl : q.exchange.locate d with
  | ok area =>
    rw [hl] at h
    simp only [Except.bind] at h
    split at h
    · cases h
    · rename_i hwait
      obtain rfl := Except.error.inj h
      exact .notWaiting hm hl (not_and_or.mp hwait)
  | error e' =>
    rw [hl] at h
    obtain rfl := Except.error.inj h
    unfold Exchange.locate at hl
    split at hl
    · rename_i data signal hkind
      split at hl
      · cases hl
      · rename_i hnone
        obtain rfl := Except.error.inj hl
        exact .noArea hm hkind hnone
    · rename_i hother
      obtain rfl := Except.error.inj hl
      exact .notHandoff hm hother

theorem undelivered_of_error (h : (q.deliver d data shm).1 = .error e) : q.Undelivered d data shm e := by
  rw [deliver_answer] at h
  cases hc : q.claim d .inbound shm with
  | mk answer shm₁ =>
    rw [hc] at h
    cases answer with
    | error e' =>
      obtain rfl := Except.error.inj h
      exact .unclaimed (unclaimed_of_error (congrArg Prod.fst hc))
    | ok area =>
      simp only [Except.bind] at h
      split at h
      · rename_i hlong
        obtain rfl := Except.error.inj h
        exact .tooLong (claim_ok hc).1 hlong
      · cases h

theorem uncollected_of_error (h : (q.collect d shm).1 = .error e) : q.Uncollected d shm e := by
  rw [collect_answer] at h
  cases hc : q.claim d .outbound shm with
  | mk answer shm₁ =>
    rw [hc] at h
    cases answer with
    | error e' =>
      obtain rfl := Except.error.inj h
      exact .unclaimed (unclaimed_of_error (congrArg Prod.fst hc))
    | ok area =>
      simp only [Except.bind, Shm.read_eq] at h
      split at h
      · cases h
      · rename_i hlong
        obtain rfl := Except.error.inj h
        exact .outside (claim_ok hc).1 (Nat.lt_of_not_le hlong)

/-! ## What is served -/

/-- An area that waits for the segment of the descriptor is claimed. -/
theorem claim_waiting (hm : d.manager = q.manager) (hl : q.exchange.locate d = .ok area)
    (hw : q.exchange.signal shm area = dir.waiting) (hs : q.exchange.segment shm area = d.id) :
    (q.claim d dir shm).1 = .ok area := by
  rw [claim_answer, if_neg (not_not_intro hm), hl]
  simp only [Except.bind, hw, hs, and_self, if_true]

end Peer

/-! ## Handoffs that wait -/

/-- The handoff fits its area, and while it waits the length word is the size of its segment. -/
def Announced (x : Exchange) (p : Pending) (w : AreaWords) : Prop :=
  p.segment.size ≤ x.layout.areaSize ∧
    (w.signal = p.direction.waiting → w.length = p.segment.size % wordRange)

/-- What a peer has finished does not wait, in either direction. -/
theorem Direction.done_ne_waiting (d d' : Direction) : d.done ≠ d'.waiting := by
  cases d <;> cases d' <;> decide

theorem announced_survives (allowed : Traffic → Descriptor → Prop) (x : Exchange) :
    Survives allowed x (Announced x) where
  placed _ _ hfit := ⟨hfit, fun _ => rfl⟩
  delivered _ _ _ _ _ h _ _ := ⟨h.1, fun hw => absurd hw (Direction.inbound.done_ne_waiting _)⟩
  collected _ _ h := ⟨h.1, fun hw => absurd hw (Direction.outbound.done_ne_waiting _)⟩

namespace Pending

variable {p : Pending} {shm shm' : Shm}

/-- An operation that changed no byte changes nothing that the owner finds. -/
theorem signal_untouched (h : Shm.Patch p.exchange.region.object (fun _ => False) shm shm') :
    p.signal shm' = p.signal shm := by
  rw [signal, Exchange.signal_of_words (Exchange.words_eq_of_patch h p.area fun _ _ => id)]
  rfl

theorem take_untouched (h : Shm.Patch p.exchange.region.object (fun _ => False) shm shm') (c : Cache) :
    p.take c shm' = p.take c shm := by
  have hlength := Exchange.length_congr (Exchange.words_eq_of_patch h p.area fun _ _ => id)
  have hbytes : ∀ offset length,
      shm'.bytes p.exchange.region offset length = shm.bytes p.exchange.region offset length :=
    fun offset length => h.bytes_eq _ _ _ (Or.inr fun _ _ _ => id)
  unfold take
  simp only [hlength, Shm.read_eq, hbytes]

/-- What the owner is answered, and what its cache then is. -/
def ending (p : Pending) (goal : Goal) (moves : List Move) (c : Cache) (shm : Shm) :
    Option (Except Error Segment × Cache) :=
  (p.settle? goal moves c shm).map fun r => (r.1, r.2.1)

theorem ending_untouched (hlt : p.area < p.exchange.layout.areaCount)
    (h : Shm.Patch p.exchange.region.object (fun _ => False) shm shm') (goal : Goal)
    (moves : List Move) (c : Cache) : p.ending goal moves c shm' = p.ending goal moves c shm := by
  unfold ending settle?
  rw [signal_untouched h]
  cases settle goal p.direction moves (p.signal shm) with
  | none => rfl
  | some r =>
    obtain ⟨outcome, word⟩ := r
    cases outcome with
    | completed => simp only [take_setSignal hlt, take_untouched h, Option.map_some]
    | withdrawn => simp only [Option.map_some]
    | idle => simp only [Option.map_some]

end Pending

namespace Channel

/-- An operation that left the memory as `shm'` has done no harm to who meets at the region. -/
structure Unharmed (x : Exchange) (s : Channel) (shm' : Shm) : Prop where
  /-- Every byte is as it was. -/
  untouched : Shm.Patch x.region.object (fun _ => False) s.shm shm'
  /-- Peers are answered as they would have been, whatever they present, and so are owners. -/
  deliver : ∀ q ∈ s.traffic.peers, ∀ d data, (q.deliver d data shm').1 = (q.deliver d data s.shm).1
  collect : ∀ q ∈ s.traffic.peers, ∀ d, (q.collect d shm').1 = (q.collect d s.shm).1
  ending : ∀ p ∈ s.traffic.pendings, ∀ goal moves c,
    p.ending goal moves c shm' = p.ending goal moves c s.shm
  /-- Every peer can serve a handoff that waits, by its own descriptor. -/
  delivered : ∀ p ∈ s.traffic.pendings, p.direction = .inbound →
    p.signal s.shm = p.direction.waiting → p.segment.id < wordRange →
    ∀ q ∈ s.traffic.peers, ∀ data : Bytes, data.length ≤ p.segment.size →
      (q.deliver p.descriptor data shm').1 = .ok ()
  collected : ∀ p ∈ s.traffic.pendings, p.direction = .outbound →
    p.signal s.shm = p.direction.waiting → p.segment.id < wordRange →
    ∀ q ∈ s.traffic.peers, (q.collect p.descriptor shm').1 =
      .ok (s.shm.bytes x.region (x.layout.areaOffset p.area) p.segment.size)
  /-- Its owner can take it back, by a deadline or by dropping it. -/
  cancelled : ∀ p ∈ s.traffic.pendings, p.signal s.shm = p.direction.waiting → ∀ c, ∃ shm'',
    p.waitTimeout? c shm' = some (.error (.handoffTimeout p.segment.id), c, shm'') ∧
      p.Ended shm' shm''
  dropped : ∀ p ∈ s.traffic.pendings, p.Ended shm' (p.drop shm')

section
variable {manager : String} {allowed : Traffic → Descriptor → Prop} {x : Exchange} {s : Channel}
  {shm' : Shm} {p : Pending} {q : Peer}

/-- Every peer can claim the area of a handoff that waits, by its own descriptor. -/
theorem Identified.claim_own (h : Identified manager x s) (hp : p ∈ s.traffic.pendings)
    (hw : p.signal s.shm = p.direction.waiting) (hid : p.segment.id < wordRange)
    (hq : q ∈ s.traffic.peers) : (q.claim p.descriptor p.direction s.shm).1 = .ok p.area := by
  have hlabel := h.labelled p hp
  have hserves := h.order.held.peers q hq
  obtain ⟨hqm, hpos⟩ := h.peers q hq
  refine Peer.claim_waiting (hlabel.manager.trans hqm.symm) ?_ ?_ ?_
  · rw [hserves.locate_eq]
    exact hlabel.locate (h.order.held.area_lt p hp) hpos
  · rw [hserves.signal_eq, ← h.order.held.exchange p hp]
    exact hw
  · rw [hserves.segment_eq, h.order.held.segment p hp]
    exact Nat.mod_eq_of_lt hid

theorem Identified.deliver_own (h : Identified manager x s)
    (ha : EachArea (Announced x) x s.shm s.traffic) (hp : p ∈ s.traffic.pendings)
    (hd : p.direction = .inbound) (hw : p.signal s.shm = p.direction.waiting)
    (hid : p.segment.id < wordRange) (hq : q ∈ s.traffic.peers) {data : Bytes}
    (hle : data.length ≤ p.segment.size) : (q.deliver p.descriptor data s.shm).1 = .ok () := by
  have hclaim := h.claim_own hp hw hid hq
  have hserves := h.order.held.peers q hq
  have hinside := h.order.held.placed.area_le (h.order.held.area_lt p hp)
  have hfit := (ha p hp).1
  rw [hd] at hclaim
  rw [Peer.deliver_answer, hclaim]
  simp only [Except.bind, hserves.layout, hserves.size]
  refine if_neg (not_or.mpr ⟨Nat.not_lt.mpr hle, ?_⟩)
  omega

theorem Identified.collect_own (h : Identified manager x s)
    (ha : EachArea (Announced x) x s.shm s.traffic) (hp : p ∈ s.traffic.pendings)
    (hd : p.direction = .outbound) (hw : p.signal s.shm = p.direction.waiting)
    (hid : p.segment.id < wordRange) (hq : q ∈ s.traffic.peers) :
    (q.collect p.descriptor s.shm).1 =
      .ok (s.shm.bytes x.region (x.layout.areaOffset p.area) p.segment.size) := by
  have hclaim := h.claim_own hp hw hid hq
  have hserves := h.order.held.peers q hq
  have hinside := h.order.held.placed.area_le (h.order.held.area_lt p hp)
  obtain ⟨hfit, hlength⟩ := ha p hp
  have hsize : p.segment.size < wordRange :=
    Nat.lt_of_le_of_lt hfit (Nat.lt_trans h.order.held.placed.areaSize_lt (by decide))
  have hlength : x.payloadLength s.shm p.area = p.segment.size := by
    rw [Pending.signal, h.order.held.exchange p hp] at hw
    exact (hlength hw).trans (Nat.mod_eq_of_lt hsize)
  rw [hd] at hclaim
  rw [Peer.collect_answer, hclaim]
  simp only [Except.bind, hserves.layout, hserves.payloadLength_eq, hlength, Shm.read_eq, hserves.size,
    Shm.bytes, hserves.object]
  exact if_pos (Nat.le_trans (Nat.add_le_add_left hfit _) hinside)

/-- No byte changed: no harm was done. -/
theorem Identified.unharmed (h : Identified manager x s)
    (ha : EachArea (Announced x) x s.shm s.traffic)
    (hp : Shm.Patch x.region.object (fun _ => False) s.shm shm') : Unharmed x s shm' := by
  have hpeer : ∀ q ∈ s.traffic.peers,
      Shm.Patch q.exchange.region.object (fun _ => False) s.shm shm' := by
    intro q hq
    rw [(h.order.held.peers q hq).object]
    exact hp
  have howner : ∀ p ∈ s.traffic.pendings,
      Shm.Patch p.exchange.region.object (fun _ => False) s.shm shm' := by
    intro p hmem
    rw [h.order.held.exchange p hmem]
    exact hp
  have hlt : ∀ p ∈ s.traffic.pendings, p.area < p.exchange.layout.areaCount := by
    intro p hmem
    rw [h.order.held.exchange p hmem]
    exact h.order.held.area_lt p hmem
  have hheld := h.order.held.untouched hp
  refine ⟨hp, fun q hq => Peer.deliver_untouched (hpeer q hq),
    fun q hq => Peer.collect_untouched (hpeer q hq),
    fun p hmem => Pending.ending_untouched (hlt p hmem) (howner p hmem), ?_, ?_, ?_,
    fun p hmem => hheld.drop hmem⟩
  · intro p hmem hd hw hid q hq data hle
    rw [Peer.deliver_untouched (hpeer q hq)]
    exact h.deliver_own ha hmem hd hw hid hq hle
  · intro p hmem hd hw hid q hq
    rw [Peer.collect_untouched (hpeer q hq)]
    exact h.collect_own ha hmem hd hw hid hq
  · intro p hmem hw c
    have hw' : p.signal shm' = p.direction.waiting := (Pending.signal_untouched (howner p hmem)).trans hw
    have hne : p.signal shm' ≠ p.direction.done := by
      rw [hw']
      exact Direction.waiting_ne_done _
    have hsettle := Pending.settle?_eq (hlt p hmem) .deadline c (Or.inl hw')
    rw [if_neg hne, if_neg nofun] at hsettle
    exact ⟨_, hsettle, (hheld.settle hmem hsettle).1⟩

/-- The peers of a channel that fail do no harm. -/
structure Forgiving (x : Exchange) (s : Channel) : Prop where
  deliver : ∀ q ∈ s.traffic.peers, ∀ d data e shm', q.deliver d data s.shm = (.error e, shm') →
    q.Undelivered d data s.shm e ∧ Unharmed x s shm'
  collect : ∀ q ∈ s.traffic.peers, ∀ d e shm', q.collect d s.shm = (.error e, shm') →
    q.Uncollected d s.shm e ∧ Unharmed x s shm'
  /-- They change no byte whatever the memory holds by then, as when others are copying. -/
  amid : ∀ q ∈ s.traffic.peers, ∀ shm e shm', s.shm.objects.size ≤ shm.objects.size →
    (∃ d data, q.deliver d data shm = (.error e, shm')) ∨ (∃ d, q.collect d shm = (.error e, shm')) →
    Shm.Patch x.region.object (fun _ => False) shm shm'

theorem Identified.forgiving (h : Identified manager x s)
    (ha : EachArea (Announced x) x s.shm s.traffic) : Forgiving x s := by
  have hamid : ∀ q ∈ s.traffic.peers, ∀ shm e shm', s.shm.objects.size ≤ shm.objects.size →
      (∃ d data, q.deliver d data shm = (.error e, shm')) ∨ (∃ d, q.collect d shm = (.error e, shm')) →
      Shm.Patch x.region.object (fun _ => False) shm shm' := by
    intro q hq shm e shm' hcount hfail
    have hobject := (h.order.held.peers q hq).object
    have hlt : q.exchange.region.object < shm.objects.size := by
      rw [hobject]
      exact Nat.lt_of_lt_of_le h.order.held.object_lt hcount
    rw [← hobject]
    rcases hfail with ⟨d, data, hdel⟩ | ⟨d, hcol⟩
    · exact Peer.deliver_error hlt hdel
    · exact Peer.collect_error hlt hcol
  refine ⟨fun q hq d data e shm' hdel => ⟨?_, ?_⟩, fun q hq d e shm' hcol => ⟨?_, ?_⟩, hamid⟩
  · exact Peer.undelivered_of_error (congrArg Prod.fst hdel)
  · exact h.unharmed ha (hamid q hq _ e shm' (Nat.le_refl _) (Or.inl ⟨d, data, hdel⟩))
  · exact Peer.uncollected_of_error (congrArg Prod.fst hcol)
  · exact h.unharmed ha (hamid q hq _ e shm' (Nat.le_refl _) (Or.inr ⟨d, hcol⟩))

end

/-- **Failing peers.** Whatever a channel went through and whatever its peers presented: a delivery
or a collection that fails does so for a reason that the descriptor, the words of the area or the payload
gives, and leaves every byte as it was. Peers and owners get the answers that they would have got, a
handoff that waits is served by its own descriptor, and its owner can cancel it. -/
theorem failing_peers_harmless {manager : String} {count size : Nat} {capacity : Option Nat}
    {shm₀ shm : Shm} {c : Cache} {ids : Counter} {events : List Event} {s : Channel}
    (hc : Cache.create manager (.handoff count size) capacity shm₀ = (.ok c, shm))
    (hrun : Run (Step manager fun _ _ => True) (start c ids shm) events s) :
    ∃ x, s.cache.exchange = some x ∧ Forgiving x s := by
  obtain ⟨x, h0⟩ := identified_start ids hc
  have h := hrun.invariant
    (P := fun _ s => Identified manager x s ∧ EachArea (Announced x) x s.shm s.traffic)
    ⟨h0, fun p hp => absurd hp List.not_mem_nil⟩ fun h hs =>
      ⟨h.1.step hs, eachArea_step (announced_survives _ x) h.1.order h.2 hs⟩
  exact ⟨x, h.1.order.exchange, h.1.forgiving h.2⟩

/-- The sample channel with a peer about. -/
theorem sample_attended : ∃ events s,
    Run (Step "m" fun _ _ => True) (start sampleCache {} sampleMemory) events s ∧
    s.shm = samplePlaced ∧ s.traffic.peers = [samplePeer] ∧
    s.traffic.pendings = [sampleOffer.pending 0] := by
  have hpeer : Peer.attach "m" samplePlaced = .ok samplePeer := by decide +kernel
  exact ⟨_, _, (sample_run fun _ _ => True).next (.exchange (.attach hpeer)), rfl, rfl, rfl⟩

/-- The area that the sample channel waits in has room for four bytes, but three were asked for: a
delivery of four fails, and the handoff is served or cancelled all the same. -/
theorem failing_peers_harmless_of_overrun : ∃ events s x shm',
    Run (Step "m" fun _ _ => True) (start sampleCache {} sampleMemory) events s ∧
    s.traffic.peers = [samplePeer] ∧ s.traffic.pendings = [sampleOffer.pending 0] ∧
    s.cache.exchange = some x ∧ Forgiving x s ∧
    samplePeer.deliver (sampleOffer.pending 0).descriptor [1, 2, 3, 4] s.shm =
      (.error (.rangeError 128 4), shm') ∧
    samplePeer.Undelivered (sampleOffer.pending 0).descriptor [1, 2, 3, 4] s.shm (.rangeError 128 4) ∧
    Unharmed x s shm' := by
  obtain ⟨events, s, hrun, hshm, hpeers, hpendings⟩ := sample_attended
  obtain ⟨x, hx, hforgiving⟩ := failing_peers_harmless sample_create hrun
  have hfails : (samplePeer.deliver (sampleOffer.pending 0).descriptor [1, 2, 3, 4] samplePlaced).1 =
      .error (.rangeError 128 4) := by decide +kernel
  have hpeer : samplePeer ∈ s.traffic.peers := by
    rw [hpeers]
    exact List.mem_singleton_self _
  rw [← hshm] at hfails
  cases hdel : samplePeer.deliver (sampleOffer.pending 0).descriptor [1, 2, 3, 4] s.shm with
  | mk r shm' =>
    rw [hdel] at hfails
    obtain rfl : r = .error (.rangeError 128 4) := hfails
    obtain ⟨hreason, hunharmed⟩ := hforgiving.deliver samplePeer hpeer _ _ _ _ hdel
    exact ⟨events, s, x, shm', hrun, hpeers, hpendings, hx, hforgiving, hdel, hreason, hunharmed⟩

end Channel
end TierAlloc
