import TierAlloc.Proofs.Cache.Entries
import TierAlloc.Proofs.Exchange.Traffic
import TierAlloc.Proofs.Run

/-!
# Channels

A `Channel` is a cache in handoff mode with all who meet at its exchange region. Its
steps are whole operations of the owner and of the peers, in any order and against
any descriptors that `allowed` admits; others may draw ids from the counter and work
on memory beside the region. An operation of the owner that calls back or waits is
cut where it does so, and whatever may happen meanwhile are steps in between: a
replacement is `acquire` and then `swap`, a handoff is asked for, gets its area, and
ends.

**Results.**
* `control_words`: in every state that a channel reaches, the words of each area say
  which handoff holds it, and a reservation takes the lowest area that is not locked.
-/
namespace TierAlloc

/-- An operation on the entries of a cache. -/
inductive EntryOp where
  | malloc (size : Nat)
  | store (data : Bytes)
  | storeWith (size : Nat) (content : Bytes)
  | set (id : Nat) (data : Bytes)
  | setWith (id size : Nat) (content : Bytes)
  /-- The first half of a replacement that calls back: a buffer is taken. -/
  | acquire (size : Nat)
  /-- The other half: the buffer goes in place of the one under `id`. -/
  | swap (id : Nat) (b : Buffer)
  | modify (id offset : Nat) (data : Bytes)
  | free (id : Nat)
  | freeSegment (s : Segment)
  | clear

namespace EntryOp

/-- The cache and the counter after an operation, whether it succeeds or not. -/
def apply (c : Cache) (ids : Counter) : EntryOp → Cache × Counter
  | malloc size => (c.malloc ids size).2
  | store data => (c.store ids data).2
  | storeWith size content => (c.storeWith ids size content).2
  | set id data => ((c.set id data).2, ids)
  | setWith id size content => ((c.setWith id size content).2, ids)
  | acquire size => ({ c with heap := (c.heap.acquire size).2 }, ids)
  | swap id b => ((c.swap id b).2, ids)
  | modify id offset data => ((c.modify id offset data).toOption.getD c, ids)
  | free id => ((c.free id).toOption.getD c, ids)
  | freeSegment s => ((c.freeSegment s).toOption.getD c, ids)
  | clear => (c.clear, ids)

theorem free_kept {c c' : Cache} (ids : Counter) {id : Nat} (h : c.free id = .ok c') :
    c.Kept ids c' ids :=
  (Cache.free_ok h).2.kept (Cache.update_absent (Or.inr rfl))

theorem apply_kept (c : Cache) (ids : Counter) (op : EntryOp) :
    c.Kept ids (op.apply c ids).1 (op.apply c ids).2 := by
  cases op with
  | malloc size => exact c.place_kept ids size []
  | storeWith size content => exact c.place_kept ids size content
  | store data =>
    simp only [apply, Cache.store_eq]
    split
    · exact ⟨rfl, rfl, Nat.le_succ _, fun _ _ => id⟩
    · exact c.place_kept ids data.length data
  | set id data =>
    simp only [apply]
    cases h : c.set id data with
    | mk r c' =>
      cases r with
      | error e => exact (Cache.set_error h).kept fun _ hn => hn
      | ok u =>
        obtain ⟨-, hc, hb⟩ := Cache.set_ok h
        exact hb.kept (Cache.update_absent (Or.inl (by rwa [← Cache.contains_eq])))
  | setWith id size content =>
    simp only [apply]
    cases h : c.setWith id size content with
    | mk r c' =>
      cases r with
      | error e => exact (Cache.setWith_error h).kept fun _ hn => hn
      | ok u =>
        obtain ⟨-, hc, hb⟩ := Cache.setWith_ok h
        exact hb.kept (Cache.update_absent (Or.inl (by rwa [← Cache.contains_eq])))
  | acquire size => exact ((Cache.Becomes.refl c).heap _).kept fun _ hn => hn
  | swap id b =>
    simp only [apply]
    cases h : c.swap id b with
    | mk r c' =>
      cases r with
      | error e => exact (Cache.swap_error h).2.kept fun _ hn => hn
      | ok u =>
        obtain ⟨hc, hb⟩ := Cache.swap_ok h
        exact hb.kept (Cache.update_absent (Or.inl (by rwa [← Cache.contains_eq])))
  | modify id offset data =>
    simp only [apply]
    cases h : c.modify id offset data with
    | error e => exact .refl c ids
    | ok c' =>
      obtain ⟨bytes, hc, hb⟩ := Cache.modify_ok h
      exact hb.kept (Cache.update_absent (Or.inl (by rw [hc, Option.isSome_some])))
  | free id =>
    simp only [apply]
    cases h : c.free id with
    | error e => exact .refl c ids
    | ok c' => exact free_kept ids h
  | freeSegment s =>
    simp only [apply]
    cases h : c.freeSegment s with
    | error e => exact .refl c ids
    | ok c' => exact free_kept ids (Cache.freeSegment_ok h).2
  | clear => exact (Cache.clear_becomes c).kept fun _ _ => rfl

end EntryOp

/-- A cache with its counter, the shared memory, and who is about at its region. -/
structure Channel where
  cache : Cache
  ids : Counter
  shm : Shm
  traffic : Traffic

namespace Channel

inductive Event where
  | entry (op : EntryOp)
  | askMalloc (n : Nat) (answer : Except Error Offer)
  | askRetrieve (id : Nat) (answer : Except Error Offer)
  | exchange (e : Traffic.Event)
  | wait (c : Cycle) (answer : Except Error Segment)
  | waitTimeout (c : Cycle) (answer : Except Error Segment)
  | drop (c : Cycle)
  | draw
  | beside

/-- The traffic without the handoff that ended. -/
def ended (t : Traffic) (pre post : List Cycle) : Traffic := { t with cycles := pre ++ post }

/-- The traffic with one more handoff asked for. -/
def asking (t : Traffic) (a : Asked) : Traffic := { t with asked := a :: t.asked }

/-- The steps of a channel of `manager`. -/
inductive Step (manager : String) (allowed : Traffic → Descriptor → Prop) :
    Channel → Event → Channel → Prop
  | entry {s} (op : EntryOp) :
      Step manager allowed s (.entry op)
        { s with cache := (op.apply s.cache s.ids).1, ids := (op.apply s.cache s.ids).2 }
  | askMalloc {s n o ids} (h : s.cache.offerMalloc s.ids n = (.ok o, ids)) :
      Step manager allowed s (.askMalloc n (.ok o))
        { s with ids, traffic := asking s.traffic ⟨o, .inbound n⟩ }
  | denyMalloc {s n e ids} (h : s.cache.offerMalloc s.ids n = (.error e, ids)) :
      Step manager allowed s (.askMalloc n (.error e)) { s with ids }
  | askRetrieve {s id o stored} (hs : s.cache.retrieve id = .ok stored)
      (h : s.cache.offerRetrieve id = .ok o) :
      Step manager allowed s (.askRetrieve id (.ok o))
        { s with traffic := asking s.traffic ⟨o, .outbound stored⟩ }
  | denyRetrieve {s id e} (h : s.cache.offerRetrieve id = .error e) :
      Step manager allowed s (.askRetrieve id (.error e)) s
  | exchange {s e shm traffic}
      (h : Traffic.Step manager allowed (s.shm, s.traffic) e (shm, traffic)) :
      Step manager allowed s (.exchange e) { s with shm, traffic }
  | wait {s pre c post r cache shm} (ht : s.traffic.cycles = pre ++ c :: post)
      (h : c.pending.wait? s.cache s.shm = some (r, cache, shm)) :
      Step manager allowed s (.wait c r) { s with cache, shm, traffic := ended s.traffic pre post }
  | waitTimeout {s pre c post r cache shm} (ht : s.traffic.cycles = pre ++ c :: post)
      (h : c.pending.waitTimeout? s.cache s.shm = some (r, cache, shm)) :
      Step manager allowed s (.waitTimeout c r)
        { s with cache, shm, traffic := ended s.traffic pre post }
  | drop {s pre c post} (ht : s.traffic.cycles = pre ++ c :: post) :
      Step manager allowed s (.drop c)
        { s with shm := c.pending.drop s.shm, traffic := ended s.traffic pre post }
  | draw {s} : Step manager allowed s .draw { s with ids := s.ids.draw.2 }
  | beside {s shm} (h : ∀ x, s.cache.exchange = some x →
        Shm.Beside x.region.name x.region.object s.shm shm) :
      Step manager allowed s .beside { s with shm }

/-- A channel as it is made: nobody is about yet. -/
def start (cache : Cache) (ids : Counter) (shm : Shm) : Channel := ⟨cache, ids, shm, .empty⟩

/-! ## Control words -/

/-- The control words of the channel of `manager` over the exchange `x` are in order. -/
structure InOrder (manager : String) (x : Exchange) (s : Channel) : Prop where
  exchange : s.cache.exchange = some x
  name : x.region.name = cacheRegionName manager
  held : Held x s.shm s.traffic

theorem inOrder_start {manager : String} {count size : Nat} {capacity : Option Nat}
    {shm₀ shm : Shm} {c : Cache} (ids : Counter)
    (h : Cache.create manager (.handoff count size) capacity shm₀ = (.ok c, shm)) :
    ∃ x, x.layout = ⟨count, size⟩ ∧ InOrder manager x (start c ids shm) := by
  unfold Cache.create at h
  simp only at h
  split at h
  · cases h
  rename_i x shm₁ hx
  simp only [Prod.mk.injEq, Except.ok.injEq] at h
  obtain ⟨rfl, rfl⟩ := h
  obtain ⟨hlayout, hplaced, hfree, shm₂, hmade, hpatch⟩ := Exchange.create_placed hx
  refine ⟨x, hlayout, rfl, hmade.name_eq, hplaced, ?_, ?_, ?_, ?_, ?_, ?_, ?_, ?_, ?_, ?_⟩
  · show shm₁.names.get? x.region.name = some x.region.object
    rw [hpatch.names, hmade.name_eq]
    exact hmade.named
  · exact fun p hp => absurd hp List.not_mem_nil
  · exact fun p hp => absurd hp List.not_mem_nil
  · exact fun p hp => absurd hp List.not_mem_nil
  · exact fun p hp => absurd hp List.not_mem_nil
  · exact List.nodup_nil
  · exact fun p hp => absurd hp List.not_mem_nil
  · exact fun p hp => absurd hp List.not_mem_nil
  · exact fun p hp => absurd hp List.not_mem_nil
  · intro area ha _
    rw [hlayout] at ha
    exact hfree area ha

section
variable {manager : String} {allowed : Traffic → Descriptor → Prop} {x : Exchange} {s s' : Channel}

theorem InOrder.ask (h : InOrder manager x s) {a : Asked} {ids : Counter}
    (ha : a.offer.exchange = x ∧ a.offer.transfer.size ≤ x.layout.areaSize) :
    InOrder manager x { s with ids, traffic := asking s.traffic a } :=
  ⟨h.exchange, h.name, { h.held with asked := List.forall_mem_cons.mpr ⟨ha, h.held.asked⟩ }⟩

theorem InOrder.finish (h : InOrder manager x s) {pre post : List Cycle} {c : Cycle} {cache : Cache}
    {shm : Shm} (ht : s.traffic.cycles = pre ++ c :: post) (hend : c.pending.Ended s.shm shm)
    (hc : cache.exchange = s.cache.exchange) :
    InOrder manager x { s with cache, shm, traffic := ended s.traffic pre post } := by
  refine ⟨hc.trans h.exchange, h.name, ?_⟩
  have hsplit : s.traffic.pendings =
      pre.map Cycle.pending ++ c.pending :: post.map Cycle.pending := by
    rw [Traffic.pendings, ht, List.map_append, List.map_cons]
  refine h.held.finish hsplit hend ?_ rfl rfl
  rw [Traffic.pendings, ended, List.map_append]

theorem take_exchange {p : Pending} {c c' : Cache} {shm : Shm} {r : Except Error Segment}
    (h : p.take c shm = (r, c')) : c'.exchange = c.exchange := by
  cases r with
  | error e => exact (Pending.take_error h).2.exchange
  | ok seg =>
    rcases Pending.take_ok h with ⟨-, -, rfl⟩ | ⟨-, -, -, hb⟩
    · rfl
    · exact hb.exchange

theorem InOrder.settled (h : InOrder manager x s) {goal : Goal} {pre post : List Cycle} {c : Cycle}
    {r : Except Error Segment} {cache : Cache} {shm : Shm}
    (ht : s.traffic.cycles = pre ++ c :: post)
    (hs : c.pending.settle? goal [] s.cache s.shm = some (r, cache, shm)) :
    InOrder manager x { s with cache, shm, traffic := ended s.traffic pre post } := by
  obtain ⟨hend, hout⟩ := h.held.settle (Traffic.pending_of_split ht) hs
  refine h.finish ht hend ?_
  rcases hout with ⟨-, htake⟩ | ⟨-, -, rfl⟩
  · exact take_exchange htake
  · rfl

/-- Every step of a channel keeps its control words in order. -/
theorem InOrder.step {e : Event} (h : InOrder manager x s) (hs : Step manager allowed s e s') :
    InOrder manager x s' := by
  cases hs with
  | entry op => exact ⟨(EntryOp.apply_kept ..).exchange.trans h.exchange, h.name, h.held⟩
  | askMalloc ho =>
    obtain ⟨y, hy, hn, -, rfl⟩ := Cache.offerMalloc_ok ho
    obtain rfl := Option.some.inj (hy.symm.trans h.exchange)
    exact h.ask ⟨rfl, hn⟩
  | denyMalloc => exact ⟨h.exchange, h.name, h.held⟩
  | askRetrieve _ ho =>
    obtain ⟨y, payload, hy, -, hn, rfl⟩ := Cache.offerRetrieve_ok ho
    obtain rfl := Option.some.inj (hy.symm.trans h.exchange)
    exact h.ask ⟨rfl, hn⟩
  | denyRetrieve => exact h
  | exchange he => exact ⟨h.exchange, h.name, h.held.step h.name he⟩
  | wait ht hs => exact h.settled ht hs
  | waitTimeout ht hs => exact h.settled ht hs
  | drop ht => exact h.finish ht (h.held.drop (Traffic.pending_of_split ht)) rfl
  | draw => exact ⟨h.exchange, h.name, h.held⟩
  | beside hb => exact ⟨h.exchange, h.name, h.held.beside (hb x h.exchange)⟩

end

/-- What the words of an exchange region say, with these handoffs unfinished. -/
structure Words (x : Exchange) (shm : Shm) (ps : List Pending) : Prop where
  /-- The header is as it was written when the region was made. -/
  mark : shm.word64 x.region Layout.markOffset = Exchange.mark
  areaCount : shm.word32 x.region Layout.areaCountOffset = x.layout.areaCount
  areaSize : shm.word32 x.region Layout.areaSizeOffset = x.layout.areaSize
  /-- A lock word is 1 when exactly one unfinished handoff holds the area, and 0 when
  none does. -/
  locked_iff : ∀ area, area < x.layout.areaCount →
    (x.lock shm area = 1 ↔ (ps.filter fun p => p.area = area).length = 1)
  unlocked_iff : ∀ area, area < x.layout.areaCount →
    (x.lock shm area = 0 ↔ ∀ p ∈ ps, p.area ≠ area)
  apart : (ps.map Pending.area).Nodup
  busy : x.busy shm = ps.length
  /-- The area of an unfinished handoff is one of the region, names its segment, and
  waits or is done. -/
  area_lt : ∀ p ∈ ps, p.area < x.layout.areaCount
  segment : ∀ p ∈ ps, x.segment shm p.area = p.segment.id % wordRange
  signal : ∀ p ∈ ps,
    x.signal shm p.area = p.direction.waiting ∨ x.signal shm p.area = p.direction.done
  /-- An area that is not locked has the words of a free one. -/
  free : ∀ area, area < x.layout.areaCount → x.lock shm area ≠ 1 →
    x.lock shm area = 0 ∧ x.signal shm area = Signal.idle ∧ x.payloadLength shm area = 0 ∧
      x.segment shm area = wordRange - 1
  /-- A reservation takes the lowest area that is not locked, and has to wait when all
  areas are. -/
  full : x.reserve? shm = none ↔ ∀ area, area < x.layout.areaCount → x.lock shm area = 1
  lowest : ∀ area shm', x.reserve? shm = some (area, shm') →
    area < x.layout.areaCount ∧ x.lock shm area = 0 ∧ (∀ b, b < area → x.lock shm b = 1) ∧
      shm' = x.setLock area 1 shm

/-- A handoff that was asked for gets the lowest area that is not locked, and waits for one
only as long as all are. -/
structure Reserves (x : Exchange) (shm : Shm) (o : Offer) : Prop where
  waits : o.place? shm = none ↔ ∀ area, area < x.layout.areaCount → x.lock shm area = 1
  gets : ∀ r shm', o.place? shm = some (r, shm') → ∃ area, area < x.layout.areaCount ∧
    x.lock shm area = 0 ∧ (∀ b, b < area → x.lock shm b = 1) ∧ r = .ok (o.pending area)

theorem words_of_held {x : Exchange} {shm : Shm} {t : Traffic} (h : Held x shm t) :
    Words x shm t.pendings := by
  have hheader := h.placed.header
  rw [Exchange.header, Exchange.announcement, ExchangeHeader.mk.injEq] at hheader
  have hfree : ∀ area, area < x.layout.areaCount → x.lock shm area ≠ 1 →
      x.words shm area = .free := by
    intro area ha hl
    refine h.free area ha fun p hp he => ?_
    rw [← he] at hl
    exact hl (h.locked p hp)
  have hlock : ∀ area, area < x.layout.areaCount → x.lock shm area ≠ 0 → x.lock shm area = 1 := by
    intro area ha hl
    by_contra hn
    exact hl (Exchange.lock_of_words (hfree area ha hn))
  refine ⟨hheader.1, hheader.2.1, hheader.2.2, ?_, fun area => h.unlocked_iff, h.apart, ?_, h.area_lt,
    h.segment, h.signal, ?_, ?_, ?_⟩
  · intro area ha
    have hcount : (t.pendings.filter fun p => p.area = area).length =
        (t.pendings.map Pending.area).count area := by
      rw [List.count, List.countP_map, List.countP_eq_length_filter]
      rfl
    rw [hcount]
    constructor
    · intro hl
      exact List.count_eq_one_of_mem h.apart ((h.locked_iff ha).mp hl)
    · intro hc
      refine (h.locked_iff ha).mpr (List.count_pos_iff.mp ?_)
      omega
  · rw [h.busy_eq, Traffic.pendings, List.length_map]
  · intro area ha hl
    have hw := hfree area ha hl
    exact ⟨Exchange.lock_of_words hw, Exchange.signal_of_words hw, Exchange.payloadLength_of_words hw,
      Exchange.segment_of_words hw⟩
  · rw [Exchange.reserve?_eq_none]
    constructor
    · exact fun hn area ha => hlock area ha (hn area ha)
    · intro hl area ha hu
      rw [hl area ha] at hu
      cases hu
  · intro area shm' hr
    obtain ⟨hlow, rfl⟩ := Exchange.reserve?_eq_some.mp hr
    exact ⟨hlow.lt, hlow.unlocked,
      fun b hb => hlock b (Nat.lt_trans hb hlow.lt) (hlow.least b hb), rfl⟩

theorem reserves_of_held {x : Exchange} {shm : Shm} {t : Traffic} (h : Held x shm t) {a : Asked}
    (ha : a ∈ t.asked) : Reserves x shm a.offer := by
  have hwords := words_of_held h
  constructor
  · rw [Offer.place?_eq_none, (h.asked a ha).1, ← Exchange.reserve?_eq_none]
    exact hwords.full
  · intro r shm' hp
    obtain ⟨-, area, hlow, hr, -⟩ := h.asked_place ha hp
    obtain ⟨hlt, hfree, hleast, -⟩ := hwords.lowest area _ (Exchange.reserve?_eq_some.mpr ⟨hlow, rfl⟩)
    exact ⟨area, hlt, hfree, hleast, hr⟩

/-- **Control words.** Whatever the owner and the peers of a channel do, in whatever
order and with whatever descriptors, the words of the exchange region say which
unfinished handoff holds which area, no more areas are busy than that, and a handoff
that was asked for gets the lowest free one. -/
theorem control_words {manager : String} {count size : Nat} {capacity : Option Nat}
    {shm₀ shm : Shm} {c : Cache} {ids : Counter} {events : List Event} {s : Channel}
    (hc : Cache.create manager (.handoff count size) capacity shm₀ = (.ok c, shm))
    (hrun : Run (Step manager fun _ _ => True) (start c ids shm) events s) :
    ∃ x, s.cache.exchange = some x ∧ x.layout = ⟨count, size⟩ ∧
      Words x s.shm s.traffic.pendings ∧ s.cache.busyAreas s.shm = s.traffic.pendings.length ∧
      ∀ a ∈ s.traffic.asked, Reserves x s.shm a.offer := by
  obtain ⟨x, hlayout, h0⟩ := inOrder_start ids hc
  have h := hrun.invariant (P := fun _ s => InOrder manager x s) h0 fun h hs => h.step hs
  refine ⟨x, h.exchange, hlayout, words_of_held h.held, ?_, fun a => reserves_of_held h.held⟩
  rw [Cache.busyAreas, h.exchange]
  exact (words_of_held h.held).busy

/-! ## A channel of one area

A handoff of three bytes to the owner, in the one area of eight bytes that there is. -/

def sampleExchange : Exchange := ⟨⟨"m#cachbin", 0, 136, some 0⟩, ⟨1, 8⟩⟩

def sampleCache : Cache := { Cache.inProcess "m" none with exchange := some sampleExchange }

def sampleMemory : Shm := (Cache.create "m" (.handoff 1 8) none .empty).2

def sampleOffer : Offer := ⟨sampleExchange, "m", 0, .inbound 3⟩

/-- An offer gets an area when its answer says so. -/
theorem place?_eq {o : Offer} {p : Pending} {shm : Shm}
    (h : (o.place? shm).map Prod.fst = some (.ok p)) :
    o.place? shm = some (.ok p, ((o.place? shm).map Prod.snd).getD .empty) := by
  obtain ⟨⟨r, shm'⟩, hp, rfl⟩ := Option.map_eq_some_iff.mp h
  rw [hp]
  rfl

/-- The memory once the handoff has the area. -/
def samplePlaced : Shm := ((sampleOffer.place? sampleMemory).map Prod.snd).getD .empty

/-- The channel then. -/
def sample : Channel where
  cache := sampleCache
  ids := ⟨1⟩
  shm := samplePlaced
  traffic := ⟨[], [⟨sampleOffer.pending 0, .inbound 3, []⟩], [], [(sampleOffer.pending 0).descriptor]⟩

theorem sample_create :
    Cache.create "m" (.handoff 1 8) none .empty = (.ok sampleCache, sampleMemory) := rfl

theorem sample_place :
    sampleOffer.place? sampleMemory = some (.ok (sampleOffer.pending 0), samplePlaced) :=
  place?_eq (by decide +kernel)

theorem sample_run (allowed : Traffic → Descriptor → Prop) :
    Run (Step "m" allowed) (start sampleCache {} sampleMemory)
      [.askMalloc 3 (.ok sampleOffer),
        .exchange (.place ⟨sampleOffer, .inbound 3⟩ (.ok (sampleOffer.pending 0)))] sample := by
  have hask : Step "m" allowed (start sampleCache {} sampleMemory) (.askMalloc 3 (.ok sampleOffer)) _ :=
    .askMalloc rfl
  have hplace : Traffic.Step "m" allowed (sampleMemory, ⟨[⟨sampleOffer, .inbound 3⟩], [], [], []⟩)
      (.place ⟨sampleOffer, .inbound 3⟩ (.ok (sampleOffer.pending 0))) _ :=
    .placed (List.nil_append _).symm sample_place
  exact .next (.one hask) (.exchange hplace)

theorem control_words_of_one_area : sample.traffic.pendings.length = 1 ∧
    ∃ x, sample.cache.exchange = some x ∧ x.layout = ⟨1, 8⟩ ∧
      Words x sample.shm sample.traffic.pendings ∧
      sample.cache.busyAreas sample.shm = sample.traffic.pendings.length ∧
      ∀ a ∈ sample.traffic.asked, Reserves x sample.shm a.offer :=
  ⟨rfl, control_words sample_create (sample_run _)⟩

end Channel
end TierAlloc
