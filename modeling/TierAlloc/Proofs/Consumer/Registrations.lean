import TierAlloc.Proofs.Allocator.Changes
import TierAlloc.Proofs.Consumer.Attachments

/-!
# A consumer at work

A `Session` is a consumer with the memory that it maps. Its steps are the operations of
the consumer, succeeding or failing, and whatever becomes of the memory meanwhile:
nothing is asked of the others, who may remove names, give them to other objects or
resize what is mapped. A mapping shows the object that it was made for and is as long as
it was then, so a registered segment stays usable all the same.

**Results.**
* `Counted.step`: any operation keeps the counts.
* `Step.entry_kept`: only `unregister` takes a segment away or moves it.
* `Allocator.object_release`, `Allocator.object_drop`: producers take names away, never bytes.
* `registrations_hold`: what a consumer can rely on.
-/
namespace TierAlloc

/-- The mapping that a segment lies in; none for process memory. -/
def Registration.region? (e : Registration) : Option Region :=
  match e.backing with
  | .mapped r => some r
  | .buffer _ => none

/-- The bytes of a registered segment. -/
def Registration.shown (e : Registration) (shm : Shm) : Bytes :=
  match e.backing with
  | .mapped r => shm.bytes r e.segment.offset e.segment.size
  | .buffer b => b.bytes

namespace Consumer

inductive Event where
  | register (d : Descriptor) (answer : Except Error LocalSegment)
  | unregister (id : Nat) (answer : Except Error Unit)
  | write (id offset : Nat) (data : Bytes) (answer : Except Error Unit)
  | read (id : Nat) (answer : Except Error Bytes)
  | bufferize (id : Nat) (answer : Except Error View)
  | bufferizeSegment (s : LocalSegment) (answer : Except Error View)

/-- The operations of a consumer. -/
inductive Step (c : Consumer) (shm : Shm) : Event → Consumer → Shm → Prop
  | register {d answer c'} (h : c.register d shm = (answer, c')) : Step c shm (.register d answer) c' shm
  | unregistered {id c'} (h : c.unregister id = .ok c') : Step c shm (.unregister id (.ok ())) c' shm
  | unknown {id e} (h : c.unregister id = .error e) : Step c shm (.unregister id (.error e)) c shm
  | written {id offset data c' shm'} (h : c.write id offset data shm = .ok (c', shm')) :
      Step c shm (.write id offset data (.ok ())) c' shm'
  | unwritten {id offset data e} (h : c.write id offset data shm = .error e) :
      Step c shm (.write id offset data (.error e)) c shm
  | read {id answer} (h : c.read id shm = answer) : Step c shm (.read id answer) c shm
  | bufferize {id answer} (h : c.bufferize id shm = answer) : Step c shm (.bufferize id answer) c shm
  | bufferizeSegment {s answer} (h : c.bufferizeSegment s shm = answer) :
      Step c shm (.bufferizeSegment s answer) c shm

variable {c c' : Consumer} {shm shm' : Shm} {id : Nat} {e : Registration} {event : Event}

theorem Counted.step (hc : Counted c.regions.get? c.entries) (hs : Step c shm event c' shm') :
    Counted c'.regions.get? c'.entries := by
  cases hs with
  | register h => exact hc.register (register_cases hc h)
  | unregistered h => exact hc.unregister h
  | written h => exact hc.write h
  | _ => exact hc

/-- Every other registration is untouched by an operation that takes one away or adds one. -/
theorem entry_register {d : Descriptor} {answer : Except Error LocalSegment}
    (h : Registered c d shm answer c') (he : c.entries.get? id = some e) :
    c'.entries.get? id = some e := by
  cases h with
  | refused entries => rw [entries, he]
  | buffer new =>
    show (c.entries.insert d.id _).get? id = _
    rw [Table.get?_insert, if_neg, he]
    rintro rfl
    rw [he] at new
    cases new
  | @mapped region r c₁ new _ _ h =>
    show (c₁.entries.insert d.id _).get? id = _
    rw [(attachRegion_ok h).2.1, Table.get?_insert, if_neg, he]
    rintro rfl
    rw [he] at new
    cases new

/-- Only `unregister` takes a segment away, and nothing moves it. -/
theorem Step.entry_kept (hs : Step c shm event c' shm') (hc : Counted c.regions.get? c.entries)
    (hne : ∀ answer, event ≠ .unregister id answer) (he : c.entries.get? id = some e) :
    ∃ e', c'.entries.get? id = some e' ∧ e'.segment = e.segment ∧ e'.region? = e.region? := by
  cases hs with
  | register h => exact ⟨e, entry_register (register_cases hc h) he, rfl, rfl⟩
  | @unregistered k c' h =>
    obtain ⟨e₀, -, hentries, -⟩ := unregister_ok hc h
    refine ⟨e, ?_, rfl, rfl⟩
    rw [hentries, Table.get?_erase, if_neg, he]
    rintro rfl
    exact hne _ rfl
  | @written k offset data c' shm' h =>
    obtain ⟨e₀, he₀, -, ⟨r, -, rfl, -⟩ | ⟨b, hb, -, rfl⟩⟩ := write_ok h
    · exact ⟨e, he, rfl, rfl⟩
    · show ∃ e', (c.entries.insert e₀.segment.id _).get? id = _ ∧ _
      rw [hc.keyed he₀, Table.get?_insert]
      by_cases hk : id = k
      · subst hk
        obtain rfl := Option.some.inj (he.symm.trans he₀)
        rw [if_pos rfl]
        exact ⟨_, rfl, rfl, by simp [Registration.region?, hb]⟩
      · rw [if_neg hk]
        exact ⟨e, he, rfl, rfl⟩
  | _ => exact ⟨e, he, rfl, rfl⟩

/-! ## Sessions -/

/-- A consumer and the memory that it maps. -/
structure Session where
  consumer : Consumer
  shm : Shm

/-- An operation of the consumer, or anything that others do to the memory. -/
inductive Session.Step : Session → Option Event → Session → Prop
  | own {s : Session} {event c shm} (h : Consumer.Step s.consumer s.shm event c shm) :
      Step s (some event) ⟨c, shm⟩
  | outside {s : Session} (shm : Shm) : Step s none { s with shm }

variable {s t : Session} {events later : List (Option Event)}

theorem Session.Step.counted {event : Option Event} (hs : Session.Step s event t)
    (hc : Counted s.consumer.regions.get? s.consumer.entries) :
    Counted t.consumer.regions.get? t.consumer.entries := by
  cases hs with
  | own h => exact hc.step h
  | outside => exact hc

theorem counted_run (hc : Counted s.consumer.regions.get? s.consumer.entries)
    (hrun : Run Session.Step s events t) : Counted t.consumer.regions.get? t.consumer.entries :=
  hrun.invariant (P := fun _ t => Counted t.consumer.regions.get? t.consumer.entries) hc
    fun h hs => hs.counted h

/-- A segment stays where it is for as long as it is not unregistered. -/
theorem entry_run (hc : Counted s.consumer.regions.get? s.consumer.entries)
    (hrun : Run Session.Step s events t) (he : s.consumer.entries.get? id = some e)
    (hne : ∀ answer, some (Event.unregister id answer) ∉ events) :
    ∃ e', t.consumer.entries.get? id = some e' ∧ e'.segment = e.segment ∧ e'.region? = e.region? := by
  induction hrun with
  | start => exact ⟨e, he, rfl, rfl⟩
  | @next events t event u hrun hs ih =>
    simp only [List.mem_append, List.mem_singleton, not_or] at hne
    obtain ⟨e', he', hsegment, hregion⟩ := ih fun answer => (hne answer).1
    cases hs with
    | @own event _ _ h =>
      obtain ⟨e'', he'', hsegment', hregion'⟩ :=
        h.entry_kept (counted_run hc hrun) (fun answer heq => (hne answer).2 (by rw [heq])) he'
      exact ⟨e'', he'', hsegment'.trans hsegment, hregion'.trans hregion⟩
    | outside => exact ⟨e', he', hsegment, hregion⟩

/-! ## What a registered segment shows -/

theorem Counted.length_shown (hc : Counted c.regions.get? c.entries)
    (he : c.entries.get? id = some e) (shm : Shm) : (e.shown shm).length = e.segment.size := by
  unfold Registration.shown
  cases hc.rests he with
  | buffer tier unnamed backing size => rw [backing, size]
  | mapped tier named found backing inside =>
    rw [backing]
    exact Block.length_read ..

theorem Counted.read_eq (hc : Counted c.regions.get? c.entries) (he : c.entries.get? id = some e)
    (shm : Shm) : c.read id shm = .ok (e.shown shm) := by
  unfold read Registration.shown
  rw [entry_of_get? he]
  cases hc.rests he with
  | buffer tier unnamed backing size => simp only [bind, Except.bind, backing, pure, Except.pure]
  | mapped tier named found backing inside =>
    simp only [bind, Except.bind, backing]
    rw [Shm.read_eq, if_pos inside]

theorem Counted.view_eq (hc : Counted c.regions.get? c.entries) (he : c.entries.get? id = some e)
    (shm : Shm) : e.view shm =
      .ok ⟨e.segment.size, e.region?.map fun r => (r.object, e.segment.offset), e.shown shm⟩ := by
  unfold Registration.view Registration.region? Registration.shown
  cases hc.rests he with
  | buffer tier unnamed backing size => simp only [backing, Option.map_none]
  | mapped tier named found backing inside =>
    have hcovers : Region.covers _ e.segment.offset e.segment.size = true := decide_eq_true inside
    simp only [backing, Option.map_some, hcovers, if_true]

theorem Counted.bufferize_eq (hc : Counted c.regions.get? c.entries) (he : c.entries.get? id = some e)
    (shm : Shm) : c.bufferize id shm =
      .ok ⟨e.segment.size, e.region?.map fun r => (r.object, e.segment.offset), e.shown shm⟩ := by
  unfold bufferize
  rw [entry_of_get? he]
  exact hc.view_eq he shm

theorem Counted.bufferizeSegment_eq (hc : Counted c.regions.get? c.entries)
    (he : c.entries.get? id = some e) (shm : Shm) :
    c.bufferizeSegment e.segment shm = c.bufferize id shm := by
  unfold bufferizeSegment bufferize
  rw [hc.keyed he, entry_of_get? he]
  simp only [bind, Except.bind, if_true]

/-- A write succeeds when it lies in the segment. -/
theorem Counted.write_iff (hc : Counted c.regions.get? c.entries) (he : c.entries.get? id = some e)
    (shm : Shm) (offset : Nat) (data : Bytes) :
    (∃ c' shm', c.write id offset data shm = .ok (c', shm')) ↔ offset + data.length ≤ e.segment.size := by
  constructor
  · rintro ⟨c', shm', h⟩
    obtain ⟨e₀, he₀, hfits, -⟩ := write_ok h
    rw [he] at he₀
    rw [Option.some.inj he₀]
    exact hfits
  · intro hfits
    unfold Consumer.write
    rw [entry_of_get? he]
    simp only [bind, Except.bind, if_neg (Nat.not_lt.mpr hfits)]
    cases hc.rests he with
    | buffer tier unnamed backing size =>
      simp only [backing]
      exact ⟨_, _, rfl⟩
    | @mapped region a tier named found backing inside =>
      have hwithin : e.segment.offset + offset + data.length ≤ a.region.size := by omega
      simp only [backing, Shm.write_eq, if_pos hwithin]
      exact ⟨_, _, rfl⟩

/-- What is read depends on the objects alone, not on their names. -/
theorem read_congr (id : Nat) (h : ∀ i, shm'.object i = shm.object i) :
    c.read id shm' = c.read id shm := by
  simp only [read, Shm.read, Shm.bytes, h]

end Consumer

/-! ## What a producer leaves -/

namespace Allocator

variable {a a' : Allocator} {shm shm' : Shm}

theorem object_foldl {α : Type} {f : Shm → α → Shm} (hf : ∀ s x i, (f s x).object i = s.object i)
    (l : List α) (s : Shm) (i : Nat) : (l.foldl f s).object i = s.object i := by
  induction l generalizing s with
  | nil => rfl
  | cons x rest ih => rw [List.foldl_cons, ih, hf]

theorem object_clear (e : Ephemeral) (shm : Shm) (i : Nat) :
    (e.clear shm).2.object i = shm.object i :=
  object_foldl (fun s r => (s.release_eq r).1) _ shm i

/-- An allocator that is dropped takes its names away, and no byte. -/
theorem object_drop (a : Allocator) (shm : Shm) (i : Nat) : (a.drop shm).object i = shm.object i := by
  have hcache : ∀ (c : Cache) (s : Shm), (c.drop s).object i = s.object i := by
    intro c s
    unfold Cache.drop
    split
    · exact (s.release_eq _).1 i
    · rfl
  unfold drop
  rw [hcache, object_clear]
  exact object_foldl (fun s b => (s.release_eq b.region).1) a.batches shm i

/-- A segment that is freed takes its name away at most, and no byte. -/
theorem object_release {id : Nat} {expected : Option Tier}
    (h : a.release id expected shm = .ok (a', shm')) (i : Nat) : shm'.object i = shm.object i := by
  obtain ⟨s, -, -, a₁, hf, -⟩ := release_find h
  cases freeInTier_ok hf with
  | chunks => rfl
  | region => exact (shm.release_eq _).1 i
  | entry => rfl

end Allocator

/-! ## What a consumer can rely on -/

namespace Consumer

/-- The regions that are mapped are those that registered segments use. -/
structure Tallied (c : Consumer) : Prop where
  mapped : ∀ n, c.regions.contains n = true ↔
    ∃ id e, c.entries.get? id = some e ∧ e.segment.regionName = some n
  counted : ∀ n, c.attachCount n = users c.entries n
  /-- The segments of one region share one mapping, and each lies inside it. -/
  shared : ∀ n id e, c.entries.get? id = some e → e.segment.regionName = some n →
    ∃ a, c.regions.get? n = some a ∧ e.region? = some a.region ∧
      e.segment.offset + e.segment.size ≤ a.region.size
  /-- The segments in process memory are the cache segments, and they use no region. -/
  cached : ∀ id e, c.entries.get? id = some e →
    (e.segment.tier = .cache ↔ e.segment.regionName = none) ∧
      (e.segment.regionName = none ↔ e.region? = none)

/-- Every registered segment can be looked at, and written as far as it reaches. -/
structure Usable (c : Consumer) (shm : Shm) : Prop where
  read : ∀ id e, c.entries.get? id = some e →
    ∃ bytes, c.read id shm = .ok bytes ∧ bytes.length = e.segment.size
  bufferized : ∀ id e, c.entries.get? id = some e → ∃ v, c.bufferize id shm = .ok v ∧
    c.bufferizeSegment e.segment shm = .ok v ∧ v.size = e.segment.size ∧ c.read id shm = .ok v.bytes
  written : ∀ id e offset data, c.entries.get? id = some e →
    ((∃ c' shm', c.write id offset data shm = .ok (c', shm')) ↔
      offset + data.length ≤ e.segment.size)

theorem Counted.tallied {c : Consumer} (hc : Counted c.regions.get? c.entries) : c.Tallied := by
  constructor
  · intro n
    rw [← users_pos, ← hc.counted, Table.contains_eq]
    cases hn : c.regions.get? n with
    | none => simp
    | some a => simpa using hc.used n a hn
  · intro n
    rw [attachCount_eq, hc.counted]
  · intro n id e he hn
    cases hc.rests he with
    | buffer tier unnamed backing size =>
      rw [unnamed] at hn
      cases hn
    | @mapped region a tier named found backing inside =>
      obtain rfl := Option.some.inj (named.symm.trans hn)
      exact ⟨a, found, by simp only [Registration.region?, backing], inside⟩
  · intro id e he
    cases hc.rests he with
    | buffer tier unnamed backing size => simp [tier, unnamed, Registration.region?, backing]
    | mapped tier named found backing inside => simp [tier, named, Registration.region?, backing]

theorem Counted.usable {c : Consumer} (hc : Counted c.regions.get? c.entries) (shm : Shm) :
    c.Usable shm := by
  constructor
  · intro id e he
    exact ⟨_, hc.read_eq he shm, hc.length_shown he shm⟩
  · intro id e he
    exact ⟨_, hc.bufferize_eq he shm, (hc.bufferizeSegment_eq he shm).trans (hc.bufferize_eq he shm),
      rfl, hc.read_eq he shm⟩
  · intro id e offset data he
    exact hc.write_iff he shm offset data

/-- **Registrations hold.** Whatever a consumer was asked to register, unregister, read or
write, and whatever became of the memory meanwhile: a region is mapped exactly while
registered segments use it, once for all of them, and is counted right; every registered
segment lies in its mapping, so it can be read, looked at and written within its size. It
stays in its place until it is unregistered, and neither freeing it nor dropping its
allocator changes what is read. -/
theorem registrations_hold {name : String} {shm : Shm} {events : List (Option Event)} {s : Session}
    (hrun : Run Session.Step ⟨.ofName name, shm⟩ events s) :
    s.consumer.Tallied ∧ s.consumer.Usable s.shm ∧
      (∀ id later t v, Run Session.Step s later t →
        (∀ answer, some (Event.unregister id answer) ∉ later) →
        s.consumer.bufferize id s.shm = .ok v →
        ∃ v', t.consumer.bufferize id t.shm = .ok v' ∧ v'.size = v.size ∧ v'.place = v.place) ∧
      ∀ id (a : Allocator), s.consumer.read id (a.drop s.shm) = s.consumer.read id s.shm ∧
        ∀ freed expected a' shm', a.release freed expected s.shm = .ok (a', shm') →
          s.consumer.read id shm' = s.consumer.read id s.shm := by
  have hc : Counted s.consumer.regions.get? s.consumer.entries := counted_run (counted_ofName name) hrun
  refine ⟨hc.tallied, hc.usable s.shm, fun id later t v hlater hne hv => ?_, fun id a => ⟨?_, ?_⟩⟩
  · cases he : s.consumer.entries.get? id with
    | none =>
      have hentry : s.consumer.entry id = .error (.segmentNotFound id) := by simp only [entry, he]
      rw [bufferize, hentry] at hv
      cases hv
    | some e =>
      obtain ⟨e', he', hsegment, hregion⟩ := entry_run hc hlater he hne
      rw [hc.bufferize_eq he] at hv
      obtain rfl := Except.ok.inj hv
      refine ⟨_, (counted_run hc hlater).bufferize_eq he' t.shm, by rw [hsegment], ?_⟩
      rw [hsegment, hregion]
  · exact read_congr id (a.object_drop s.shm)
  · intro freed expected a' shm' h
    exact read_congr id (Allocator.object_release h)

/-! ## Two segments of one region

A region of 32 bytes; the third registration runs over its end, and the name goes away. -/

namespace Session

/-- The session after a registration. -/
def after (s : Session) (d : Descriptor) : Session := ⟨(s.consumer.register d s.shm).2, s.shm⟩

theorem run_after (ds : List Descriptor) (h : Run Session.Step s events t) :
    ∃ events, Run Session.Step s events (ds.foldl after t) := by
  induction ds generalizing t events with
  | nil => exact ⟨events, h⟩
  | cons d rest ih => exact ih (.next h (.own (.register rfl)))

def sampleStart : Session := ⟨.ofName "consumer", (Shm.empty.create (staticRegionName "m" 0) 32).2⟩

def sampleDescriptors : List Descriptor :=
  [⟨"m", 1, 8, .static 0 0 0⟩, ⟨"m", 2, 8, .static 0 0 24⟩, ⟨"m", 3, 9, .static 0 0 24⟩]

/-- The session once two segments are registered, a third one is refused and the name of the
region is gone. -/
def sample : Session :=
  let s := sampleDescriptors.foldl after sampleStart
  { s with shm := s.shm.unlink (staticRegionName "m" 0) }

theorem run_sample : ∃ events, Run Session.Step sampleStart events sample := by
  obtain ⟨events, hrun⟩ := run_after sampleDescriptors .start
  exact ⟨_, .next hrun (.outside _)⟩

end Session

theorem registrations_hold_of_two_users :
    Session.sample.consumer.attachCount (staticRegionName "m" 0) = 2 ∧
      Session.sample.consumer.Tallied ∧ Session.sample.consumer.Usable Session.sample.shm := by
  obtain ⟨events, hrun⟩ := Session.run_sample
  obtain ⟨htallied, husable, -⟩ := registrations_hold hrun
  exact ⟨by decide +kernel, htallied, husable⟩

end Consumer
end TierAlloc
