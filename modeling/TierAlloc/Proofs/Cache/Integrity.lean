import TierAlloc.Proofs.Cache.Channel
import TierAlloc.Proofs.Cache.Payload

/-!
# Payload integrity

Runs of a channel whose peers present only descriptors that were issued. An inbound
payload gets through whole and once: it is stored under the id of its handoff when
the wait succeeds and not before. An outbound one is what was stored when it was
asked for, and is taken at most once.

The counter is one of 64-bit numbers, so the statements are about runs that have
drawn no more ids than that.

**Results.**
* `payload_integrity`: the above, in every state that a channel reaches.
-/
namespace TierAlloc.Channel

/-- The payload that an event delivers under `id`. -/
def payload? (id : Nat) : Event → Option Bytes
  | .exchange (.deliver _ d data (.ok ())) => if d.id = id then some data else none
  | _ => none

/-- The payloads that peers delivered under `id`, in the order of the events. -/
def delivered (id : Nat) (events : List Event) : List Bytes := events.filterMap (payload? id)

theorem delivered_append {id : Nat} (events : List Event) {e : Event} (he : payload? id e = none) :
    delivered id (events ++ [e]) = delivered id events := by
  simp [delivered, he]

theorem delivered_append_deliver (events : List Event) (p : Peer) (d : Descriptor) (data : Bytes)
    (id : Nat) : delivered id (events ++ [.exchange (.deliver p d data (.ok ()))]) =
      if d.id = id then delivered id events ++ [data] else delivered id events := by
  by_cases h : d.id = id <;> simp [delivered, payload?, h]

/-- What has been delivered so far, against what the handoffs that are not over await. -/
structure History (events : List Event) (s : Channel) : Prop where
  ahead : ∀ id, s.ids.issued ≤ id → delivered id events = []
  asked : ∀ a ∈ s.traffic.asked, ∀ id, a.offer.awaits = some id → delivered id events = []
  moved : ∀ k ∈ s.traffic.cycles, ∀ id, k.pending.awaits = some id → delivered id events = k.moved
  once : ∀ id, (delivered id events).length ≤ 1

/-- Peers present only descriptors that were issued. -/
def Unedited (t : Traffic) (d : Descriptor) : Prop := d ∈ t.issued

section
variable {manager : String} {x : Exchange} {events : List Event} {s s' : Channel} {e : Event}

theorem Step.ids_le {allowed : Traffic → Descriptor → Prop} (hs : Step manager allowed s e s') :
    s.ids.issued ≤ s'.ids.issued := by
  cases hs with
  | entry op => exact (op.apply_kept s.cache s.ids).ids_le
  | @askMalloc n o ids ho =>
    have := s.cache.offerMalloc_ids s.ids n
    rwa [ho] at this
  | @denyMalloc n e ids ho =>
    have := s.cache.offerMalloc_ids s.ids n
    rwa [ho] at this
  | draw => exact Nat.le_succ _
  | askRetrieve => exact Nat.le_refl _
  | denyRetrieve => exact Nat.le_refl _
  | exchange => exact Nat.le_refl _
  | wait => exact Nat.le_refl _
  | waitTimeout => exact Nat.le_refl _
  | drop => exact Nat.le_refl _
  | beside => exact Nat.le_refl _

/-- Only new ids come to be awaited. -/
theorem Step.awaited {allowed : Traffic → Descriptor → Prop} (hs : Step manager allowed s e s')
    (hfresh : s.traffic.Fresh s.ids) {id : Nat}
    (hid : id ∈ s'.traffic.awaited) : id ∈ s.traffic.awaited ∨ s.ids.issued ≤ id := by
  cases hs with
  | entry => exact Or.inl hid
  | askMalloc ho =>
    obtain ⟨y, -, -, rfl, rfl⟩ := Cache.offerMalloc_ok ho
    have hnew : id = s.ids.issued ∨ id ∈ s.traffic.awaited := by
      simpa [asking, Traffic.awaited, Offer.awaits, List.mem_append] using hid
    exact hnew.symm.imp_right fun he => Nat.le_of_eq he.symm
  | denyMalloc => exact Or.inl hid
  | askRetrieve _ ho =>
    obtain ⟨y, payload, -, -, -, rfl⟩ := Cache.offerRetrieve_ok ho
    refine Or.inl ?_
    simpa [asking, Traffic.awaited, Offer.awaits] using hid
  | denyRetrieve => exact Or.inl hid
  | exchange he => exact Or.inl ((hfresh.step he).2 id hid)
  | wait ht => exact Or.inl ((hfresh.finish ht).2.2 id hid)
  | waitTimeout ht => exact Or.inl ((hfresh.finish ht).2.2 id hid)
  | drop ht => exact Or.inl ((hfresh.finish ht).2.2 id hid)
  | draw => exact Or.inl hid
  | beside => exact Or.inl hid

/-- The channel of `manager` over `x` is used as it should be. -/
def Proper (manager : String) (x : Exchange) (s : Channel) : Prop :=
  s.cache.manager = manager ∧ Sound x s.shm s.traffic s.cache s.ids

theorem Proper.step (h : Proper manager x s) (hids : s.ids.issued ≤ wordRange)
    (hs : Step manager Unedited s e s') : Proper manager x s' := by
  obtain ⟨hm, h⟩ := h
  subst hm
  cases hs with
  | entry op =>
    have hk := op.apply_kept s.cache s.ids
    exact ⟨hk.manager, h.kept hk⟩
  | askMalloc ho => exact ⟨rfl, h.askMalloc ho⟩
  | @denyMalloc n e ids ho =>
    have hle := s.cache.offerMalloc_ids s.ids n
    rw [ho] at hle
    exact ⟨rfl, h.kept (.draw s.cache hle)⟩
  | askRetrieve hs ho => exact ⟨rfl, h.askRetrieve hs ho⟩
  | denyRetrieve => exact ⟨rfl, h⟩
  | exchange he => exact ⟨rfl, h.step hids he⟩
  | wait ht hs =>
    obtain ⟨hsound, hm, -⟩ := h.settle ht hs
    exact ⟨hm, hsound⟩
  | waitTimeout ht hs =>
    obtain ⟨hsound, hm, -⟩ := h.settle ht hs
    exact ⟨hm, hsound⟩
  | drop ht =>
    have hd := h.drop ht
    unfold Proper ended
    generalize Pending.drop _ s.shm = shm at hd ⊢
    exact ⟨rfl, hd⟩
  | draw => exact ⟨rfl, h.kept (.draw s.cache (Nat.le_succ _))⟩
  | beside hb => exact ⟨rfl, h.beside (hb x h.exchange)⟩

/-- A step that delivers nothing adds no handoff but a new one. -/
theorem History.same (h : History events s) (he : ∀ id, payload? id e = none)
    (hids : s.ids.issued ≤ s'.ids.issued)
    (hasked : ∀ a ∈ s'.traffic.asked, a ∈ s.traffic.asked ∨
      ∀ id, a.offer.awaits = some id → s.ids.issued ≤ id)
    (hcycles : ∀ k ∈ s'.traffic.cycles, k.pending.awaits ≠ none → k ∈ s.traffic.cycles ∨
      k.moved = [] ∧ ∃ a ∈ s.traffic.asked, a.offer.awaits = k.pending.awaits) :
    History (events ++ [e]) s' where
  ahead id hid := by
    rw [delivered_append events (he id)]
    exact h.ahead id (Nat.le_trans hids hid)
  asked a ha id haw := by
    rw [delivered_append events (he id)]
    rcases hasked a ha with ha | hnew
    · exact h.asked a ha id haw
    · exact h.ahead id (hnew id haw)
  moved k hk id haw := by
    rw [delivered_append events (he id)]
    rcases hcycles k hk (by simp [haw]) with hk | ⟨hm, a, ha, he⟩
    · exact h.moved k hk id haw
    · rw [hm]
      exact h.asked a ha id (he.trans haw)
  once id := by
    rw [delivered_append events (he id)]
    exact h.once id

/-- Nor does one that leaves the traffic as it is. -/
theorem History.quiet (h : History events s) (he : ∀ id, payload? id e = none)
    (hids : s.ids.issued ≤ s'.ids.issued) (hasked : s'.traffic.asked = s.traffic.asked)
    (hcycles : s'.traffic.cycles = s.traffic.cycles) : History (events ++ [e]) s' := by
  refine h.same he hids (fun a ha => Or.inl ?_) fun k hk _ => Or.inl ?_
  · rwa [hasked] at ha
  · rwa [hcycles] at hk

/-- A delivery is the first for its handoff. -/
theorem History.deliver (h : History events s) (hp : Proper manager x s) {p : Peer} {d : Descriptor}
    {data : Bytes} {shm : Shm} {k : Cycle} {n : Nat} (hk : k ∈ s.traffic.cycles)
    (htr : k.transfer = .inbound n) (hd : d = k.pending.descriptor) (hm : k.moved = []) :
    History (events ++ [.exchange (.deliver p d data (.ok ()))])
      { s with shm, traffic := s.traffic.note d data } := by
  have hdir : k.pending.direction = .inbound := by
    have hcar := hp.2.carried k hk
    unfold Carried at hcar
    rw [htr] at hcar
    exact hcar.direction
  have hid : k.pending.segment.id = d.id := by
    rw [hd]
    rfl
  obtain ⟨haw, hmem⟩ := Sound.awaits_mem hk hdir
  rw [hid] at haw hmem
  have hnone : delivered d.id events = [] := (h.moved k hk _ haw).trans hm
  constructor
  · intro id hge
    have hlt := hp.2.fresh.lt _ hmem
    have hge : s.ids.issued ≤ id := hge
    rw [delivered_append_deliver, if_neg (by omega)]
    exact h.ahead id hge
  · intro a ha id haw'
    rw [delivered_append_deliver, if_neg]
    · exact h.asked a ha id haw'
    · rintro rfl
      exact hp.2.fresh.asked_ne ha hk haw' haw
  · intro k' hk' id haw'
    rw [delivered_append_deliver]
    rcases hp.2.mem_note_inbound hk hdir hd hm hk' haw' with ⟨rfl, hm'⟩ | ⟨hne, hk'⟩
    · rw [if_pos rfl, hnone, hm', List.nil_append]
    · rw [if_neg hne]
      exact h.moved k' hk' id haw'
  · intro id
    rw [delivered_append_deliver]
    split
    · rename_i he
      rw [← he, hnone]
      exact Nat.le_refl _
    · exact h.once id

theorem History.step (h : History events s) (hp : Proper manager x s)
    (hids : s.ids.issued ≤ wordRange) (hs : Step manager Unedited s e s') :
    History (events ++ [e]) s' := by
  have hle := hs.ids_le
  cases hs with
  | entry op => exact h.quiet (fun _ => rfl) hle rfl rfl
  | askMalloc ho =>
    obtain ⟨y, -, -, -, rfl⟩ := Cache.offerMalloc_ok ho
    refine h.same (fun _ => rfl) hle (fun a ha => ?_) fun _ hk _ => Or.inl hk
    rcases List.mem_cons.mp ha with rfl | ha
    · refine Or.inr fun id haw => ?_
      simp only [Offer.awaits, Option.some.injEq] at haw
      omega
    · exact Or.inl ha
  | denyMalloc => exact h.quiet (fun _ => rfl) hle rfl rfl
  | askRetrieve _ ho =>
    obtain ⟨y, payload, -, -, -, rfl⟩ := Cache.offerRetrieve_ok ho
    refine h.same (fun _ => rfl) hle (fun a ha => ?_) fun _ hk _ => Or.inl hk
    rcases List.mem_cons.mp ha with rfl | ha
    · exact Or.inr fun id haw => by simp [Offer.awaits] at haw
    · exact Or.inl ha
  | denyRetrieve => exact h.quiet (fun _ => rfl) hle rfl rfl
  | exchange he =>
    cases he with
    | @placed _ _ _ a pre post p ht hpl =>
      obtain ⟨area, rfl⟩ := Offer.place?_ok hpl
      refine h.same (fun _ => rfl) hle (fun b hb => Or.inl (mem_of_split ht hb)) fun k hk _ => ?_
      rcases List.mem_cons.mp hk with rfl | hk
      · exact Or.inr ⟨rfl, a, by simp [ht], (a.offer.awaits_pending area).symm⟩
      · exact Or.inl hk
    | refused ht _ =>
      exact h.same (fun _ => rfl) hle (fun b hb => Or.inl (mem_of_split ht hb)) fun _ hk _ => Or.inl hk
    | attach => exact h.quiet (fun _ => rfl) hle rfl rfl
    | delivered hpe hd hdel =>
      obtain ⟨-, k, hk, n, htr, hdesc, hm, -⟩ := hp.2.deliver hids hpe hd hdel
      exact h.deliver hp hk htr hdesc hm
    | undelivered => exact h.quiet (fun _ => rfl) hle rfl rfl
    | @collected _ _ _ p d data hpe _ hcol =>
      obtain ⟨-, k₀, hk₀, htr, -, hkind, -⟩ := hp.2.collect hids hpe hcol
      exact h.same (fun _ => rfl) hle (fun _ => Or.inl) fun k' hk' haw =>
        Or.inl (hp.2.mem_note_outbound hk₀ htr hkind hk' haw)
    | uncollected => exact h.quiet (fun _ => rfl) hle rfl rfl
  | wait ht =>
    exact h.same (fun _ => rfl) hle (fun _ => Or.inl) fun _ hk _ => Or.inl (mem_of_split ht hk)
  | waitTimeout ht =>
    exact h.same (fun _ => rfl) hle (fun _ => Or.inl) fun _ hk _ => Or.inl (mem_of_split ht hk)
  | drop ht =>
    exact h.same (fun _ => rfl) hle (fun _ => Or.inl) fun _ hk _ => Or.inl (mem_of_split ht hk)
  | draw => exact h.quiet (fun _ => rfl) hle rfl rfl
  | beside => exact h.quiet (fun _ => rfl) hle rfl rfl

theorem proper_start {count size : Nat} {capacity : Option Nat} {shm₀ shm : Shm} {c : Cache}
    (ids : Counter) (h : Cache.create manager (.handoff count size) capacity shm₀ = (.ok c, shm)) :
    ∃ x, Proper manager x (start c ids shm) := by
  obtain ⟨x, -, hx⟩ := inOrder_start ids h
  have hm : c.manager = manager ∧ c.contents? = fun _ => none := by
    unfold Cache.create at h
    simp only at h
    split at h
    · cases h
    · simp only [Prod.mk.injEq, Except.ok.injEq] at h
      rw [← h.1]
      exact ⟨rfl, rfl⟩
  refine ⟨x, hm.1, hx.exchange, ?_, hx.held, .empty ids, fun id _ => ?_, ?_, ?_, ?_, ?_, ?_, ?_⟩
  · show x.region.name = cacheRegionName c.manager
    rw [hm.1]
    exact hx.name
  · show c.contents? id = none
    rw [hm.2]
  · exact fun id hid => absurd hid List.not_mem_nil
  · exact fun a ha => absurd ha List.not_mem_nil
  · exact fun k hk => absurd hk List.not_mem_nil
  · exact fun k hk => absurd hk List.not_mem_nil
  · exact fun d hd => absurd hd List.not_mem_nil
  · exact fun d hd => absurd hd List.not_mem_nil

theorem history_start (c : Cache) (ids : Counter) (shm : Shm) : History [] (start c ids shm) :=
  ⟨fun _ _ => rfl, fun _ ha => absurd ha List.not_mem_nil, fun _ hk => absurd hk List.not_mem_nil,
    fun _ => Nat.zero_le _⟩

end

/-- The owner's wait for the handoff `k` ended with `r`. -/
def WaitEnds (manager : String) (s : Channel) (k : Cycle) (r : Except Error Segment)
    (s' : Channel) : Prop :=
  Step manager Unedited s (.wait k r) s' ∨ Step manager Unedited s (.waitTimeout k r) s'

/-- Payloads of the channel of `manager` get through whole and at most once, after these
events and in the next step. -/
structure Integrity (manager : String) (events : List Event) (s : Channel) : Prop where
  /-- Under one id, that is for one inbound handoff, at most one delivery succeeded. -/
  once : ∀ id, (delivered id events).length ≤ 1
  /-- Nothing is stored under the id of an inbound handoff that is not over. -/
  absent : ∀ k ∈ s.traffic.cycles, ∀ n, k.transfer = .inbound n →
    s.cache.contains k.pending.segment.id = false
  /-- A wait for bytes that succeeds stores what was delivered, in a cache segment of
  that length, which is at most what was asked for. -/
  received : ∀ k n seg s', WaitEnds manager s k (.ok seg) s' → k.transfer = .inbound n →
    ∃ data, delivered k.pending.segment.id events = [data] ∧ data.length ≤ n ∧
      s'.cache.retrieve k.pending.segment.id = .ok data ∧
      seg = { id := k.pending.segment.id, size := data.length, manager, kind := .cache .inProcess }
  /-- One that fails stores nothing. -/
  refused : ∀ k n e s', WaitEnds manager s k (.error e) s' → k.transfer = .inbound n →
    s'.cache.contains k.pending.segment.id = false
  /-- A collection that succeeds is the first for its handoff, and gives what was stored
  when the handoff was asked for. -/
  collected : ∀ p d data s', Step manager Unedited s (.exchange (.collect p d (.ok data))) s' →
    ∃ k ∈ s.traffic.cycles, k.pending.segment.id = d.id ∧ k.transfer = .outbound data ∧ k.moved = [] ∧
      { k with moved := [data] } ∈ s'.traffic.cycles
  /-- What was collected so far for a handoff. -/
  given : ∀ k ∈ s.traffic.cycles, ∀ stored, k.transfer = .outbound stored →
    k.moved = [] ∨ k.moved = [stored]
  /-- The wait for a collector leaves every entry, and succeeds only after a collection. -/
  untouched : ∀ k stored r s', WaitEnds manager s k r s' → k.transfer = .outbound stored →
    s'.cache = s.cache ∧ ∀ seg, r = .ok seg → k.moved = [stored]

section
variable {manager : String} {x : Exchange} {events : List Event} {s : Channel}

theorem WaitEnds.inversion {k : Cycle} {r : Except Error Segment} {s' : Channel}
    (h : WaitEnds manager s k r s') : k ∈ s.traffic.cycles ∧ ∃ pre post goal,
      s.traffic.cycles = pre ++ k :: post ∧
        k.pending.settle? goal [] s.cache s.shm = some (r, s'.cache, s'.shm) := by
  rcases h with h | h
  · cases h with
    | wait ht hs => exact ⟨by simp [ht], _, _, _, ht, hs⟩
  · cases h with
    | waitTimeout ht hs => exact ⟨by simp [ht], _, _, _, ht, hs⟩

theorem integrity_of_proper (h : Proper manager x s) (hist : History events s)
    (hids : s.ids.issued ≤ wordRange) : Integrity manager events s := by
  obtain ⟨rfl, h⟩ := h
  have hin : ∀ k ∈ s.traffic.cycles, ∀ n, k.transfer = .inbound n → Inbound x s.shm k n := by
    intro k hk n ht
    have hcar := h.carried k hk
    unfold Carried at hcar
    rwa [ht] at hcar
  have hout : ∀ k ∈ s.traffic.cycles, ∀ stored, k.transfer = .outbound stored →
      Outbound x s.shm k stored := by
    intro k hk stored ht
    have hcar := h.carried k hk
    unfold Carried at hcar
    rwa [ht] at hcar
  constructor
  · exact hist.once
  · intro k hk n ht
    exact Cache.contains_eq_false.mpr (h.absent _ (Sound.awaits_mem hk (hin k hk n ht).direction).2)
  · intro k n seg s' hw ht
    obtain ⟨hk, pre, post, goal, hsplit, hs⟩ := hw.inversion
    obtain ⟨-, -, hr⟩ := h.settle hsplit hs
    rcases hr with ⟨stored, hts, -⟩ | ⟨n', data, hti, hm, hle, hseg, hb⟩
    · rw [ht] at hts
      cases hts
    obtain rfl : n = n' := Transfer.inbound.inj (ht.symm.trans hti)
    have haw := (Sound.awaits_mem hk (hin k hk n ht).direction).1
    refine ⟨data, (hist.moved k hk _ haw).trans hm, hle, ?_, hseg⟩
    unfold Cache.retrieve
    rw [hb.contents, Function.update_self]
  · intro k n e s' hw ht
    obtain ⟨hk, pre, post, goal, hsplit, hs⟩ := hw.inversion
    obtain ⟨-, -, hr, -⟩ := h.settle hsplit hs
    refine Cache.contains_eq_false.mpr ?_
    rw [hr]
    exact h.absent _ (Sound.awaits_mem hk (hin k hk n ht).direction).2
  · intro p d data s' hs
    cases hs with
    | exchange he =>
      cases he with
      | collected hp _ hcol =>
        obtain ⟨-, k, hk, htr, hid, hkind, hm⟩ := h.collect hids hp hcol
        refine ⟨k, hk, hid, htr, hm, ?_⟩
        have hnote := List.mem_map_of_mem (f := fun c => Cycle.note c d data) hk
        simp only [Sound.note_self hid hkind, hm, List.nil_append] at hnote
        exact hnote
  · intro k hk stored ht
    exact (hout k hk stored ht).moved.imp And.left And.left
  · intro k stored r s' hw ht
    obtain ⟨hk, pre, post, goal, hsplit, hs⟩ := hw.inversion
    obtain ⟨-, -, hr⟩ := h.settle hsplit hs
    cases r with
    | error e => exact ⟨hr.2 (hout k hk stored ht).direction, fun seg he => (nomatch he)⟩
    | ok seg =>
      rcases hr with ⟨stored', hts, hm, -, hc⟩ | ⟨n, data, hti, -⟩
      · obtain rfl : stored = stored' := Transfer.outbound.inj (ht.symm.trans hts)
        exact ⟨hc, fun _ _ => hm⟩
      · rw [ht] at hti
        cases hti

end

/-- **Payload integrity.** Whatever the owner does, and in whatever order peers present
the descriptors that were issued, payloads get through whole and at most once. -/
theorem payload_integrity {manager : String} {count size : Nat} {capacity : Option Nat}
    {shm₀ shm : Shm} {c : Cache} {ids : Counter} {events : List Event} {s : Channel}
    (hc : Cache.create manager (.handoff count size) capacity shm₀ = (.ok c, shm))
    (hrun : Run (Step manager Unedited) (start c ids shm) events s)
    (hids : s.ids.issued ≤ wordRange) : Integrity manager events s := by
  obtain ⟨x, h0⟩ := proper_start ids hc
  have h := hrun.invariant
    (P := fun events s => s.ids.issued ≤ wordRange → Proper manager x s ∧ History events s)
    (fun _ => ⟨h0, history_start c ids shm⟩) fun h hs hle => by
      have hle := Nat.le_trans hs.ids_le hle
      obtain ⟨hp, hh⟩ := h hle
      exact ⟨hp.step hle hs, hh.step hp hle hs⟩
  obtain ⟨hp, hh⟩ := h hids
  exact integrity_of_proper hp hh hids

/-- A peer of the sample channel. -/
def samplePeer : Peer :=
  ⟨"m", { sampleExchange with region := { sampleExchange.region with claim := none } }⟩

/-- The sample channel after two bytes were delivered to it. -/
def sampleServed : Channel where
  cache := sampleCache
  ids := ⟨1⟩
  shm := (samplePeer.deliver (sampleOffer.pending 0).descriptor [1, 2] samplePlaced).2
  traffic := ⟨[], [⟨sampleOffer.pending 0, .inbound 3, [[1, 2]]⟩], [samplePeer],
    [(sampleOffer.pending 0).descriptor]⟩

theorem sample_deliver : ∃ events, delivered 0 events = [[1, 2]] ∧
    Run (Step "m" Unedited) (start sampleCache {} sampleMemory) events sampleServed := by
  have hpeer : Peer.attach "m" sample.shm = .ok samplePeer := by decide +kernel
  have hattach : Step "m" Unedited sample (.exchange (.attach samplePeer)) _ := .exchange (.attach hpeer)
  have hok : (samplePeer.deliver (sampleOffer.pending 0).descriptor [1, 2] samplePlaced).1 = .ok () := by
    decide +kernel
  have hdeliver : Traffic.Step "m" Unedited
      (sample.shm, { sample.traffic with peers := [samplePeer] })
      (.deliver samplePeer (sampleOffer.pending 0).descriptor [1, 2] (.ok ()))
      (sampleServed.shm, sampleServed.traffic) :=
    .delivered List.mem_cons_self List.mem_cons_self (Prod.ext hok rfl)
  have hserved : Step "m" Unedited { sample with traffic := { sample.traffic with peers := [samplePeer] } }
      (.exchange (.deliver samplePeer (sampleOffer.pending 0).descriptor [1, 2] (.ok ()))) sampleServed :=
    .exchange hdeliver
  have hrun := Run.next (Run.next (sample_run Unedited) hattach) hserved
  refine ⟨_, ?_, hrun⟩
  rfl

theorem payload_integrity_of_two_bytes :
    ∃ events, delivered 0 events = [[1, 2]] ∧ Integrity "m" events sampleServed := by
  obtain ⟨events, hd, hrun⟩ := sample_deliver
  have hids : sampleServed.ids.issued ≤ wordRange := by
    show 1 ≤ wordRange
    decide
  have hi := payload_integrity sample_create hrun hids
  exact ⟨events, hd, hi⟩

end TierAlloc.Channel
