import TierAlloc.Proofs.Allocator.Handoffs
import TierAlloc.Proofs.Allocator.Values

/-!
# Contents of segments

To its users an allocator is a map from ids to bytes. `Contents` is such a map, together
with the payloads that peers delivered, and `Contents.next` says what an event makes of
it: a request adds an entry, a write changes some bytes of one, what is released is gone,
and a payload that was delivered is there once the wait for it is over. All other events,
all that fail among them, leave the map as it is.

In every state that a system reaches, its segments have the bytes that this map has after
the events so far, as long as peers present descriptors that were issued. The counter is
one of 64-bit numbers, so this is about runs that have drawn no more ids than that.

**Results.**
* `Intact.step`: a step of the system and the event's effect on the map agree.
* `contents_refine`: reads and writes are those of the map.
-/
namespace TierAlloc

open Function (update)

structure Contents where
  /-- The bytes of the live segments. -/
  bytes : Nat → Option Bytes
  /-- The payload that was last delivered under an id. -/
  delivered : Nat → Option Bytes

namespace Contents

def empty : Contents := ⟨fun _ => none, fun _ => none⟩

def put (m : Contents) (id : Nat) (bytes : Option Bytes) : Contents :=
  { m with bytes := update m.bytes id bytes }

/-- What an event makes of the contents. -/
def next (m : Contents) : System.Event → Contents
  | .granted r s shown => m.put s.id (some (if s.tier = .cache then r.content else shown))
  | .replace r (.ok ()) => m.put r.id (some r.content)
  | .release id _ (.ok ()) => m.put id none
  | .write id offset data (.ok ()) => m.put id ((m.bytes id).map (·.splice offset data))
  | .exchange (.deliver _ d data (.ok ())) =>
    { m with delivered := update m.delivered d.id (some data) }
  | .await c (.ok s) =>
    match c.pending.direction with
    | .inbound => m.put s.id (m.delivered s.id)
    | .outbound => m
  | _ => m

/-- The contents after these events. -/
def after (events : List System.Event) : Contents := events.foldl next empty

theorem after_append (events : List System.Event) (e : System.Event) :
    after (events ++ [e]) = (after events).next e := by
  rw [after, List.foldl_append]
  rfl

/-- What goes on at the exchange region is not seen in any segment. -/
theorem bytes_exchange (m : Contents) (e : Traffic.Event) : (m.next (.exchange e)).bytes = m.bytes := by
  cases e with
  | deliver p d data answer => cases answer <;> rfl
  | _ => rfl

end Contents

/-- What was moved for a handoff that waits for a payload is noted under its id. -/
def Noted (t : Traffic) (delivered : Nat → Option Bytes) : Prop :=
  ∀ c ∈ t.cycles, ∀ id data, c.pending.awaits = some id → c.moved = [data] → delivered id = some data

section
variable {x : Exchange} {shm shm' : Shm} {t t' : Traffic} {c : Cache} {ids : Counter}
  {delivered : Nat → Option Bytes}

theorem Noted.of_sub (h : Noted t delivered)
    (hsub : ∀ k ∈ t'.cycles, k.pending.awaits ≠ none → k ∈ t.cycles ∨ k.moved = []) :
    Noted t' delivered := by
  intro k hk id data haw hm
  rcases hsub k hk (by simp [haw]) with hk | hnone
  · exact h k hk id data haw hm
  · rw [hm] at hnone
    cases hnone

/-- What peers deliver is noted, in the contents as in the traffic. -/
theorem Noted.step {e : Traffic.Event} {m : Contents} (h : Noted t m.delivered)
    (hs : Sound x shm t c ids) (hids : ids.issued ≤ wordRange)
    (he : Traffic.Step c.manager Channel.Unedited (shm, t) e (shm', t')) :
    Noted t' (m.next (.exchange e)).delivered := by
  cases he with
  | placed =>
    refine h.of_sub fun k hk _ => ?_
    rcases List.mem_cons.mp hk with rfl | hk
    · exact Or.inr rfl
    · exact Or.inl hk
  | refused => exact h.of_sub fun _ hk _ => Or.inl hk
  | attach => exact h.of_sub fun _ hk _ => Or.inl hk
  | delivered hp hd hdel =>
    obtain ⟨-, k, hk, n, htr, hdesc, hmoved, -⟩ := hs.deliver hids hp hd hdel
    have hcar := hs.carried k hk
    unfold Carried at hcar
    rw [htr] at hcar
    intro k' hk' id data' haw hm
    show update m.delivered _ _ id = some data'
    rcases hs.mem_note_inbound hk hcar.direction hdesc hmoved hk' haw with ⟨rfl, hm'⟩ | ⟨hne, hk'⟩
    · rw [Function.update_self, ← (List.cons.inj (hm'.symm.trans hm)).1]
    · rw [Function.update_of_ne (Ne.symm hne)]
      exact h k' hk' id data' haw hm
  | undelivered => exact h.of_sub fun _ hk _ => Or.inl hk
  | collected hp _ hcol =>
    obtain ⟨-, k, hk, htr, -, hkind, -⟩ := hs.collect hids hp hcol
    exact h.of_sub fun k' hk' haw => Or.inl (hs.mem_note_outbound hk htr hkind hk' haw)
  | uncollected => exact h.of_sub fun _ hk _ => Or.inl hk

end

/-- The state of a system after events that lead to these contents. -/
structure Intact (s : System) (m : Contents) : Prop where
  accounts : Accounted s.allocator s.traffic
  mapping : Mapping s.allocator s.shm
  handoffs : Handoffs s.allocator s.shm s.traffic
  noted : Noted s.traffic m.delivered
  value : s.allocator.value s.shm = m.bytes

namespace Intact

variable {s s' : System} {m : Contents} {e : System.Event}

/-- What happens at the exchange region or to others' memory is not seen in any segment. -/
theorem elsewhere (h : Intact s m) {shm : Shm} {t : Traffic} {m' : Contents}
    (hacc : Accounted s.allocator t) (hhand : Handoffs s.allocator shm t) (hnoted : Noted t m'.delivered)
    (hbytes : m'.bytes = m.bytes) (hk : ∀ n, s.allocator.Uses n → Shm.Keeps n s.shm shm) :
    Intact ⟨s.allocator, shm, t⟩ m' := by
  refine ⟨hacc, h.mapping.keep hk, hhand, hnoted, ?_⟩
  rw [hbytes, ← h.value]
  exact Allocator.value_keep h.accounts h.mapping hk

/-- After the end of a handoff, fewer are noted. -/
theorem noted_ended (h : Intact s m) {pre post : List Cycle} {c : Cycle}
    (ht : s.traffic.cycles = pre ++ c :: post) :
    Noted { s.traffic with cycles := pre ++ post } m.delivered :=
  h.noted.of_sub fun _ hk _ => Or.inl (mem_of_split ht hk)

theorem drop (h : Intact s m) {pre post : List Cycle} {c : Cycle}
    (ht : s.traffic.cycles = pre ++ c :: post)
    (hacc : Accounted s.allocator { s.traffic with cycles := pre ++ post }) :
    Intact ⟨s.allocator, c.pending.drop s.shm, { s.traffic with cycles := pre ++ post }⟩ m := by
  obtain ⟨hhand, hk⟩ := h.handoffs.drop ht
  exact h.elsewhere hacc hhand (h.noted_ended ht) rfl fun n hn => hk n (Mapping.uses_ne_cache hn)

/-- The end of a wait brings the payload that was delivered, or nothing. -/
theorem await (h : Intact s m) {pre post : List Cycle} {c : Cycle} {r : Except Error Segment}
    {a : Allocator} {shm : Shm} (ht : s.traffic.cycles = pre ++ c :: post)
    (ha : s.allocator.await? c.pending s.shm = some (r, a, shm))
    (hacc : Accounted a { s.traffic with cycles := pre ++ post }) :
    Intact ⟨a, shm, { s.traffic with cycles := pre ++ post }⟩ (m.next (.await c r)) := by
  have hc : c ∈ s.traffic.cycles := by simp [ht]
  have hnew := h.accounts.await_absent hc
  -- Whatever is made of the payload, memory changes in the exchange region alone.
  have hend : ∀ {answer cache l}, c.pending.wait? s.allocator.cache s.shm = some (answer, cache, shm) →
      s.allocator.Becomes l a → Handoffs a shm { s.traffic with cycles := pre ++ post } ∧
        Mapping s.allocator shm ∧ s.allocator.value shm = m.bytes := by
    intro answer cache l hw hb
    obtain ⟨hhand, hk⟩ := h.handoffs.settled ht hw hb hacc
    have huse := fun n hn => hk n (Mapping.uses_ne_cache hn)
    refine ⟨hhand, h.mapping.keep huse, ?_⟩
    rw [← h.value]
    exact Allocator.value_keep h.accounts h.mapping huse
  have hidle : ∀ {answer cache}, c.pending.wait? s.allocator.cache s.shm = some (answer, cache, shm) →
      s.allocator.Becomes s.allocator.ledger a →
      Intact ⟨a, shm, { s.traffic with cycles := pre ++ post }⟩ m := by
    intro answer cache hw hb
    obtain ⟨hhand, hmap, hvalue⟩ := hend hw hb
    refine ⟨hacc, hmap.idle hb rfl rfl, hhand, h.noted_ended ht, ?_⟩
    exact (Allocator.value_idle h.accounts hmap hb).trans hvalue
  cases r with
  | error e =>
    obtain ⟨hb, cache, hw⟩ := Allocator.await_error hnew ha
    exact hidle hw hb
  | ok seg =>
    obtain ⟨s₀, cache, hw, ⟨hd, hb⟩ | ⟨hd, hid, bytes, hbytes, hstored⟩⟩ :=
      Allocator.await_ok hnew (h.accounts.await_drawn hc) ha
    · have hnext : m.next (.await c (.ok seg)) = m := by simp only [Contents.next, hd]
      rw [hnext]
      exact hidle hw hb
    · obtain ⟨data, hm, hdata⟩ := h.handoffs.received ht hw hd
      rw [← hid, hbytes, Option.some.injEq] at hdata
      subst hdata
      have haw : c.pending.awaits = some seg.id := by
        rw [hid]
        exact (Sound.awaits_mem hc hd).1
      have hnext : m.next (.await c (.ok seg)) = m.put seg.id (some bytes) := by
        simp only [Contents.next, hd, h.noted c hc _ _ haw hm]
      obtain ⟨hhand, hmap, hvalue⟩ := hend hw hstored.after
      rw [hnext]
      refine ⟨hacc, hmap.idle hstored.after rfl rfl, hhand, h.noted_ended ht, ?_⟩
      have ht : seg.tier = .cache := Segment.tier_of_cache hstored.kind
      rw [Allocator.value_stored h.accounts hmap ht hstored.after, hvalue]
      rfl

theorem step (h : Intact s m) (hids : s.allocator.ids.issued ≤ wordRange)
    (hs : System.Step Channel.Unedited s e s') : Intact s' (m.next e) := by
  have hacc := h.accounts.step hs
  obtain ⟨l, hb⟩ := h.accounts.becomes_step hs
  obtain ⟨hacc₀, hmap, hhand, hnoted, hvalue⟩ := id h
  cases hs with
  | granted hr =>
    obtain ⟨-, hg⟩ := Request.granted hacc₀.sound hacc₀.unissued hr
    obtain ⟨hmap', hk⟩ := hmap.granted hg
    refine ⟨hacc, hmap', (hhand.keep (hk _ (Or.inr rfl))).becomes hb hacc, hnoted, ?_⟩
    rw [Allocator.value_granted hacc₀ hmap hg, hvalue]
    rfl
  | refused hr =>
    have hfree := hacc₀.regions_none (hacc₀.unissued _ (Nat.le_refl _))
    have hg := Request.refused hacc₀.sound hacc₀.unissued hfree hr
    obtain ⟨hmap', hk⟩ := hmap.refused hfree hg
    refine ⟨hacc, hmap', (hhand.keep (hk _ (Or.inr rfl))).becomes hb hacc, hnoted, ?_⟩
    exact (Allocator.value_refused hacc₀ hmap hg).trans hvalue
  | @replace r answer a hr =>
    have hhand' := hhand.becomes hb hacc
    cases answer with
    | error e =>
      have hidle := Replacement.error hr
      refine ⟨hacc, hmap.idle hidle rfl rfl, hhand', hnoted, ?_⟩
      exact (Allocator.value_idle hacc₀ hmap hidle).trans hvalue
    | ok u =>
      obtain ⟨seg, -, -, -, hafter⟩ := Replacement.ok hacc₀.own hr
      refine ⟨hacc, hmap.idle hafter rfl rfl, hhand', hnoted, ?_⟩
      rw [Allocator.value_replaced hacc₀ hmap hr, hvalue]
      rfl
  | released hr =>
    obtain ⟨seg, -, rfl, -, hf⟩ := Allocator.release_ok hacc₀.own hr
    obtain ⟨hmap', hk⟩ := hmap.freed hf
    refine ⟨hacc, hmap', (hhand.becomes hb hacc).keep (hk _ (Or.inr rfl)), hnoted, ?_⟩
    rw [Allocator.value_freed hacc₀ hmap hf, hvalue]
    rfl
  | unreleased => exact ⟨hacc, hmap, hhand, hnoted, hvalue⟩
  | written hw =>
    obtain ⟨seg, hlive, rfl, hle, hw⟩ := Allocator.write_ok hacc₀.sound hacc₀.own hw
    obtain ⟨hmap', hk⟩ := hmap.written hw
    refine ⟨hacc, hmap', (hhand.keep hk).becomes hb hacc, hnoted, ?_⟩
    rw [Allocator.value_written hacc₀ hmap hlive hle hw, hvalue]
    rfl
  | unwritten => exact ⟨hacc, hmap, hhand, hnoted, hvalue⟩
  | read => exact ⟨hacc, hmap, hhand, hnoted, hvalue⟩
  | askMalloc ho =>
    have hidle := Allocator.offerMalloc_ids ho
    refine ⟨hacc, hmap.idle hidle rfl rfl, hhand.askMalloc ho, hnoted, ?_⟩
    exact (Allocator.value_idle hacc₀ hmap hidle).trans hvalue
  | denyMalloc ho =>
    have hidle := Allocator.offerMalloc_ids ho
    refine ⟨hacc, hmap.idle hidle rfl rfl, hhand.becomes hidle hacc, hnoted, ?_⟩
    exact (Allocator.value_idle hacc₀ hmap hidle).trans hvalue
  | askRetrieve hst ho => exact ⟨hacc, hmap, hhand.askRetrieve hst ho, hnoted, hvalue⟩
  | denyRetrieve => exact ⟨hacc, hmap, hhand, hnoted, hvalue⟩
  | exchange he =>
    obtain ⟨hhand', hk⟩ := hhand.step hids he
    refine h.elsewhere hacc hhand' ?_ (m.bytes_exchange _) fun n hn => hk n (Mapping.uses_ne_cache hn)
    cases hx : s.allocator.cache.exchange with
    | none =>
      have hcycles := (hhand'.idle hx).2
      intro k hk
      rw [hcycles] at hk
      exact absurd hk List.not_mem_nil
    | some x =>
      rw [← hhand.manager] at he
      exact hnoted.step (hhand.sound x hx) hids he
  | await ht ha => exact h.await ht ha hacc
  | drop ht => exact h.drop ht hacc
  | outside ho =>
    have hk : ∀ n, s.allocator.Needs n → Shm.Keeps n s.shm _ := fun n hn =>
      ho.keeps (Mapping.needs_ofManager hn)
    exact h.elsewhere hacc (hhand.keep (hk _ (Or.inr rfl))) hnoted rfl fun n hn => hk n (Or.inl hn)

end Intact

theorem intact_create {config : Config} {a : Allocator} {shm₀ shm : Shm}
    (h : Allocator.create config shm₀ = (.ok a, shm)) : Intact (.start a shm) .empty where
  accounts := accounted_create h
  mapping := mapping_create h
  handoffs := handoffs_create h
  noted := nofun
  value := by
    obtain ⟨first, shm₁, cache, -, -, -, rfl⟩ := Allocator.create_ok h
    exact funext fun _ => Allocator.value_none rfl _

/-- The segments of a system have these contents. -/
structure System.Refines (s : System) (m : Contents) : Prop where
  /-- The live segments are those that have bytes. -/
  live : ∀ id, (∃ seg, s.allocator.get id = .ok seg) ↔ ∃ bytes, m.bytes id = some bytes
  /-- They have as many as their size is. -/
  size : ∀ id seg bytes, s.allocator.get id = .ok seg → m.bytes id = some bytes → bytes.length = seg.size
  /-- Reading gives these bytes, and fails when there are none. -/
  read : ∀ id bytes, s.allocator.read id s.shm = .ok bytes ↔ m.bytes id = some bytes
  /-- Writing to a live segment succeeds if what is written fits in, and fails if not. -/
  write : ∀ id seg offset data, s.allocator.get id = .ok seg →
    ((∃ after, s.allocator.write id offset data s.shm = .ok after) ↔ offset + data.length ≤ seg.size)

theorem refines_of_intact {s : System} {m : Contents} (h : Intact s m) : s.Refines m := by
  obtain ⟨hacc, hmap, -, -, hvalue⟩ := h
  constructor
  · intro id
    rw [← hvalue]
    constructor
    · rintro ⟨seg, hs⟩
      obtain ⟨bytes, hv, -⟩ := Allocator.exists_value hacc hmap (Allocator.get_eq_ok.mp hs)
      exact ⟨bytes, hv⟩
    · rintro ⟨bytes, hv⟩
      cases hs : s.allocator.ledger.segments id with
      | none =>
        rw [Allocator.value_none hs] at hv
        cases hv
      | some seg => exact ⟨seg, Allocator.get_eq_ok.mpr hs⟩
  · intro id seg bytes hs hb
    obtain ⟨bytes', hv, hlen⟩ := Allocator.exists_value hacc hmap (Allocator.get_eq_ok.mp hs)
    rw [hvalue, hb, Option.some.injEq] at hv
    rw [hv, hlen]
  · intro id bytes
    rw [Allocator.read_eq hacc hmap, hvalue]
    cases m.bytes id <;> simp
  · intro id seg offset data hs
    have hlive := Allocator.get_eq_ok.mp hs
    constructor
    · rintro ⟨⟨a, shm⟩, hw⟩
      obtain ⟨seg', hlive', -, hle, -⟩ := Allocator.write_ok hacc.sound hacc.own hw
      obtain rfl := Option.some.inj (hlive.symm.trans hlive')
      exact hle
    · intro hle
      obtain ⟨a, shm, hw⟩ := Allocator.exists_write hacc hmap hlive hle
      exact ⟨(a, shm), hw⟩

/-- **Contents.** In every state that a system reaches, by whatever operations in whatever
order, the segments have the bytes that the events say, whichever tier they are in, and
reads and writes are those of a map from ids to bytes. -/
theorem contents_refine {config : Config} {a : Allocator} {shm₀ shm : Shm} {events : List System.Event}
    {s : System} (hc : Allocator.create config shm₀ = (.ok a, shm))
    (hrun : Run (System.Step Channel.Unedited) (System.start a shm) events s)
    (hids : s.allocator.ids.issued ≤ wordRange) : s.Refines (.after events) := by
  have hstart := intact_create hc
  have h := hrun.invariant (P := fun events s => Accounted s.allocator s.traffic ∧
    (s.allocator.ids.issued ≤ wordRange → Intact s (.after events))) ⟨hstart.accounts, fun _ => hstart⟩ ?_
  · exact refines_of_intact (h.2 hids)
  · rintro events s e s' ⟨hacc, h⟩ hs
    obtain ⟨l, hb⟩ := hacc.becomes_step hs
    refine ⟨hacc.step hs, fun hids => ?_⟩
    have hids := Nat.le_trans hb.ids hids
    rw [Contents.after_append]
    exact (h hids).step hids hs

/-! ## Bytes of a static segment -/

namespace System

/-- The system after a write. -/
def overwrite (s : System) (id offset : Nat) (data : Bytes) : System :=
  match s.allocator.write id offset data s.shm with
  | .ok (a, shm) => ⟨a, shm, s.traffic⟩
  | .error _ => s

theorem step_overwrite {allowed : Traffic → Descriptor → Prop} (s : System) (id offset : Nat) (data : Bytes) :
    ∃ e, Step allowed s e (s.overwrite id offset data) ∧ e ≠ .outside := by
  unfold overwrite
  split
  · rename_i a shm hw
    exact ⟨_, .written hw, by simp⟩
  · rename_i e hw
    exact ⟨_, .unwritten hw, by simp⟩

theorem run_overwrite {allowed : Traffic → Descriptor → Prop} {s t : System} {events : List Event}
    (h : Run (Step allowed) s events t) (id offset : Nat) (data : Bytes) :
    ∃ events, Run (Step allowed) s events (t.overwrite id offset data) := by
  obtain ⟨e, hs, -⟩ := step_overwrite t id offset data
  exact ⟨_, h.next hs⟩

/-- The system once two of the ten bytes were written. -/
def sampleWritten : System := sample.overwrite 1 4 [7, 8]

end System

theorem contents_refine_of_two_bytes :
    (System.sampleWritten.allocator.read 1 System.sampleWritten.shm).toOption =
        some [0, 0, 0, 0, 7, 8, 0, 0, 0, 0] ∧
      ∃ events, System.sampleWritten.Refines (.after events) := by
  refine ⟨by decide +kernel, ?_⟩
  obtain ⟨events, hrun⟩ := System.run_requests .start [.allocate 3, .allocate 10, .allocate 100]
  obtain ⟨events, hrun⟩ := System.run_overwrite hrun 1 4 [7, 8]
  have hids : System.sampleWritten.allocator.ids.issued ≤ wordRange := by decide +kernel
  exact ⟨events, contents_refine System.sample_create hrun hids⟩

end TierAlloc
