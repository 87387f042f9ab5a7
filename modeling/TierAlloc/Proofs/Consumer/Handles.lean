import TierAlloc.Proofs.Allocator.Managers
import TierAlloc.Proofs.Consumer.Registrations

/-!
# Handles of registered segments

`register` answers with a plain value: the id, the size and the tier of the segment and, for
one in shared memory, its offset and the name of its region. Later on, a handle is good if
it is equal to what is registered under its id by then.

The name of a region tells the manager, the batch and the tier, so the handle of a segment in
shared memory stands for that segment alone. A cache segment has no region: its handle says
neither whose it is nor where its cache has the bytes, and one of the same id and size of
any other manager answers to it (`replaced_unnoticed`).

**Results.**
* `Descriptor.handle_eq_iff`: the segments that a handle cannot tell apart are those `Alike`.
* `inForce_snoc`: what one more event makes of the registrations in force.
* `Recorded.step`: what is registered is what is in force.
* `handle_exact`: a handle finds a segment exactly while one alike is in force.
-/
namespace TierAlloc

namespace Descriptor

/-- The handle that a registration of the segment is answered with. -/
def handle (d : Descriptor) : LocalSegment :=
  match d.kind with
  | .static batch _ offset =>
    ⟨d.id, d.size, .static, offset, some (staticRegionName d.manager batch)⟩
  | .ephemeral => ⟨d.id, d.size, .ephemeral, 0, some (ephemeralRegionName d.manager d.id)⟩
  | .cache _ => ⟨d.id, d.size, .cache, 0, none⟩

/-- Two segments that have the same id, size and tier and, unless they are cache segments, the same
manager and place. The bin of a static segment is no part of its place. -/
inductive Alike : Descriptor → Descriptor → Prop
  | static {manager id size batch bin bin' offset} :
      Alike ⟨manager, id, size, .static batch bin offset⟩ ⟨manager, id, size, .static batch bin' offset⟩
  | ephemeral {manager id size} : Alike ⟨manager, id, size, .ephemeral⟩ ⟨manager, id, size, .ephemeral⟩
  | cache {manager manager' id size place place'} :
      Alike ⟨manager, id, size, .cache place⟩ ⟨manager', id, size, .cache place'⟩

variable {d d' : Descriptor}

@[simp] theorem id_handle (d : Descriptor) : d.handle.id = d.id := by
  unfold handle
  cases d.kind <;> rfl

@[simp] theorem size_handle (d : Descriptor) : d.handle.size = d.size := by
  unfold handle
  cases d.kind <;> rfl

theorem handle_of_cache (h : d.tier = .cache) : d.handle = ⟨d.id, d.size, .cache, 0, none⟩ := by
  unfold tier at h
  unfold handle
  cases hk : d.kind with
  | cache place => rfl
  | _ =>
    rw [hk] at h
    cases h

theorem handle_of_region {n : String} (h : d.tier ≠ .cache) (hn : d.regionName? = some n) :
    d.handle = ⟨d.id, d.size, d.tier, d.offset, some n⟩ := by
  unfold tier at h
  rw [← hn]
  unfold handle tier offset regionName?
  cases hk : d.kind with
  | cache place =>
    rw [hk] at h
    exact absurd rfl h
  | _ => rfl

/-- A handle tells two segments apart unless they are alike. -/
theorem handle_eq_iff : d.handle = d'.handle ↔ Alike d d' := by
  constructor
  · intro h
    obtain ⟨manager, id, size, kind⟩ := d
    obtain ⟨manager', id', size', kind'⟩ := d'
    cases kind <;> cases kind' <;> simp only [handle, LocalSegment.mk.injEq, reduceCtorEq, and_false,
      false_and, Option.some.injEq] at h
    · obtain ⟨rfl, rfl, -, rfl, hname⟩ := h
      obtain ⟨rfl, rfl⟩ := staticRegionName_eq hname
      exact .static
    · obtain ⟨rfl, rfl, -, -, hname⟩ := h
      obtain ⟨rfl, -⟩ := ephemeralRegionName_eq hname
      exact .ephemeral
    · obtain ⟨rfl, rfl, -⟩ := h
      exact .cache
  · intro h
    cases h <;> rfl

theorem Alike.id_eq (h : Alike d d') : d'.id = d.id := by
  cases h <;> rfl

end Descriptor

namespace Consumer

open Descriptor (Alike)

variable {c c' : Consumer} {shm shm' : Shm} {d d' : Descriptor} {id : Nat} {s : LocalSegment}
  {events : List (Option Event)} {event : Option Event}

/-! ## What a handle finds -/

/-- The segment that is registered under the id. -/
def segment? (c : Consumer) (id : Nat) : Option LocalSegment := (c.entries.get? id).map Registration.segment

theorem segment?_enter (c : Consumer) (s : LocalSegment) (b : Backing) (id : Nat) :
    (c.enter s b).segment? id = if id = s.id then some s else c.segment? id := by
  unfold segment? enter
  rw [Table.get?_insert]
  split <;> rfl

theorem bufferizeSegment_found (hc : Counted c.regions.get? c.entries) (h : c.segment? s.id = some s)
    (shm : Shm) : ∃ v, c.bufferizeSegment s shm = .ok v ∧ v.size = s.size := by
  obtain ⟨e, he, rfl⟩ := Option.map_eq_some_iff.mp h
  exact ⟨_, (hc.bufferizeSegment_eq he shm).trans (hc.bufferize_eq (hc.keyed he ▸ he) shm), rfl⟩

theorem bufferizeSegment_lost (h : c.segment? s.id ≠ some s) (shm : Shm) :
    c.bufferizeSegment s shm = .error (.segmentNotFound s.id) := by
  unfold bufferizeSegment entry
  unfold segment? at h
  cases he : c.entries.get? s.id with
  | none => rfl
  | some e =>
    rw [he] at h
    have hother : e.segment ≠ s := fun heq => h (congrArg some heq)
    simp only [bind, Except.bind, if_neg hother]

/-! ## Registrations in force -/

/-- The segment was registered, and its id was not unregistered since. -/
def InForce (events : List (Option Event)) (d : Descriptor) : Prop :=
  ∃ before s after, events = before ++ some (.register d (.ok s)) :: after ∧
    some (.unregister d.id (.ok ())) ∉ after

/-- One more event puts the segment in force that it registers, and ends what it unregisters. -/
theorem inForce_snoc : InForce (events ++ [event]) d ↔
    (∃ s, event = some (.register d (.ok s))) ∨
      InForce events d ∧ event ≠ some (.unregister d.id (.ok ())) := by
  constructor
  · intro ⟨before, s, after, hsplit, hkept⟩
    obtain ⟨-, rfl, -⟩ | ⟨rest, rfl, rfl⟩ := split_snoc hsplit
    · exact Or.inl ⟨s, rfl⟩
    · simp only [List.mem_append, List.mem_singleton, not_or] at hkept
      exact Or.inr ⟨⟨before, s, rest, rfl, hkept.1⟩, Ne.symm hkept.2⟩
  · intro h
    obtain ⟨s, rfl⟩ | ⟨⟨before, s, rest, rfl, hkept⟩, hlast⟩ := h
    · exact ⟨events, s, [], rfl, List.not_mem_nil⟩
    · refine ⟨before, s, rest ++ [event], by rw [List.append_assoc, List.cons_append], ?_⟩
      simp only [List.mem_append, List.mem_singleton, not_or]
      exact ⟨hkept, Ne.symm hlast⟩

/-- The history accounts for the handles that were returned and the segments that are registered. -/
structure Recorded (events : List (Option Event)) (c : Consumer) : Prop where
  returned : ∀ d s, some (.register d (.ok s)) ∈ events → s = d.handle
  registered : ∀ id s, c.segment? id = some s ↔ ∃ d, InForce events d ∧ d.id = id ∧ d.handle = s

theorem recorded_ofName (name : String) : Recorded [] (ofName name) := by
  refine ⟨nofun, fun id s => ⟨nofun, ?_⟩⟩
  intro h
  obtain ⟨d, ⟨before, s', after, hsplit, -⟩, -⟩ := h
  simp at hsplit

/-- An event that registers nothing and unregisters nothing. -/
theorem Recorded.quiet (h : Recorded events c) (hsame : ∀ id, c'.segment? id = c.segment? id)
    (hreg : ∀ d s, event ≠ some (.register d (.ok s)))
    (hun : ∀ id, event ≠ some (.unregister id (.ok ()))) : Recorded (events ++ [event]) c' := by
  constructor
  · intro d s hmem
    obtain hmem | hlast := List.mem_append.mp hmem
    · exact h.returned d s hmem
    · exact absurd (List.mem_singleton.mp hlast).symm (hreg d s)
  · intro id s
    have hforce : ∀ d, InForce (events ++ [event]) d ↔ InForce events d := by
      intro d
      simp [inForce_snoc, hreg d, hun d.id]
    simp only [hsame, h.registered, hforce]

/-- A registration that succeeds is in force, beside the others. -/
theorem Recorded.more (h : Recorded events c) (hnew : c.segment? d.id = none)
    (hmore : ∀ id, c'.segment? id = if id = d.id then some d.handle else c.segment? id) :
    Recorded (events ++ [some (.register d (.ok d.handle))]) c' := by
  constructor
  · intro d' s hmem
    obtain hmem | hlast := List.mem_append.mp hmem
    · exact h.returned d' s hmem
    · obtain ⟨rfl, hs⟩ := Event.register.inj (Option.some.inj (List.mem_singleton.mp hlast))
      exact Except.ok.inj hs
  · intro id s
    have hforce : ∀ d', InForce (events ++ [some (.register d (.ok d.handle))]) d' ↔
        d = d' ∨ InForce events d' := by
      intro d'
      simp [inForce_snoc]
    rw [hmore]
    constructor
    · intro hs
      split at hs
      · rename_i hid
        exact ⟨d, (hforce d).mpr (Or.inl rfl), hid.symm, Option.some.inj hs⟩
      · obtain ⟨d', hd', hid', hs'⟩ := (h.registered id s).mp hs
        exact ⟨d', (hforce d').mpr (Or.inr hd'), hid', hs'⟩
    · intro ⟨d', hd', hid', hs'⟩
      obtain rfl | hbefore := (hforce d').mp hd'
      · rw [if_pos hid'.symm, hs']
      · -- another segment under this id would have kept it from being registered
        have hfound := (h.registered id s).mpr ⟨d', hbefore, hid', hs'⟩
        rw [if_neg, hfound]
        intro hid
        rw [hid, hnew] at hfound
        cases hfound

/-- Unregistering ends what is in force under the id. -/
theorem Recorded.less (h : Recorded events c)
    (hless : ∀ k, c'.segment? k = if k = id then none else c.segment? k) :
    Recorded (events ++ [some (.unregister id (.ok ()))]) c' := by
  constructor
  · intro d s hmem
    obtain hmem | hlast := List.mem_append.mp hmem
    · exact h.returned d s hmem
    · cases List.mem_singleton.mp hlast
  · intro k s
    have hforce : ∀ d, InForce (events ++ [some (.unregister id (.ok ()))]) d ↔
        InForce events d ∧ id ≠ d.id := by
      intro d
      simp [inForce_snoc]
    simp only [hless, hforce]
    constructor
    · intro hs
      split at hs
      · cases hs
      · rename_i hk
        obtain ⟨d, hd, hid, hs'⟩ := (h.registered k s).mp hs
        exact ⟨d, ⟨hd, by rw [hid]; exact Ne.symm hk⟩, hid, hs'⟩
    · intro ⟨d, ⟨hd, hne⟩, hid, hs'⟩
      rw [if_neg (by rw [← hid]; exact Ne.symm hne)]
      exact (h.registered k s).mpr ⟨d, hd, hid, hs'⟩

theorem Recorded.register {answer : Except Error LocalSegment} (h : Recorded events c)
    (hr : Registered c d shm answer c') : Recorded (events ++ [some (.register d answer)]) c' := by
  cases hr with
  | refused entries regions =>
    exact h.quiet (fun id => by rw [segment?, entries, segment?]) (by simp) (by simp)
  | buffer new tier ha =>
    rw [← Descriptor.handle_of_cache tier]
    refine h.more (by rw [segment?, new, Option.map_none]) fun id => ?_
    rw [segment?_enter, Descriptor.id_handle]
    rfl
  | @mapped region r c₁ new tier named ha inside =>
    rw [← Descriptor.handle_of_region tier named]
    refine h.more (by rw [segment?, new, Option.map_none]) fun id => ?_
    rw [segment?_enter, Descriptor.id_handle, segment?, (attachRegion_ok ha).2.1, segment?]

theorem Recorded.step {event : Event} (h : Recorded events c) (hc : Counted c.regions.get? c.entries)
    (hs : Step c shm event c' shm') : Recorded (events ++ [some event]) c' := by
  cases hs with
  | register hr => exact h.register (register_cases hc hr)
  | @unregistered k c' hu =>
    obtain ⟨e, -, hentries, -⟩ := unregister_ok hc hu
    refine h.less fun k => ?_
    rw [segment?, hentries, Table.get?_erase, segment?]
    split <;> rfl
  | @written k offset data c' shm' hw =>
    refine h.quiet (fun id => ?_) (by simp) (by simp)
    obtain ⟨e, he, -, ⟨r, -, rfl, -⟩ | ⟨b, -, -, rfl⟩⟩ := write_ok hw
    · rfl
    · -- another buffer for the same segment
      rw [segment?_enter, hc.keyed he]
      split
      · rename_i hid
        rw [hid, segment?, he, Option.map_some]
      · rfl
  | unknown hu => exact h.quiet (fun _ => rfl) (by simp) (by simp)
  | unwritten hw => exact h.quiet (fun _ => rfl) (by simp) (by simp)
  | read hr => exact h.quiet (fun _ => rfl) (by simp) (by simp)
  | bufferize hb => exact h.quiet (fun _ => rfl) (by simp) (by simp)
  | bufferizeSegment hb => exact h.quiet (fun _ => rfl) (by simp) (by simp)

theorem recorded_run {name : String} {shm : Shm} {t : Session}
    (hrun : Run Session.Step ⟨.ofName name, shm⟩ events t) : Recorded events t.consumer := by
  have h := hrun.invariant
    (P := fun events t => Recorded events t.consumer ∧ Counted t.consumer.regions.get? t.consumer.entries)
    ⟨recorded_ofName name, counted_ofName name⟩ fun {events t event u} h hs => by
      refine ⟨?_, hs.counted h.2⟩
      cases hs with
      | own hown => exact h.1.step h.2 hown
      | outside => exact h.1.quiet (fun _ => rfl) nofun nofun
  exact h.1

/-! ## Handles -/

/-- What is registered answers to a handle when a segment alike the one of the handle is in force. -/
theorem Recorded.segment?_handle (h : Recorded events c) (d : Descriptor) :
    c.segment? d.id = some d.handle ↔ ∃ d', InForce events d' ∧ Alike d d' := by
  rw [h.registered]
  constructor
  · intro hsame
    obtain ⟨d', hd', -, hhandle⟩ := hsame
    exact ⟨d', hd', Descriptor.handle_eq_iff.mp hhandle.symm⟩
  · intro hsome
    obtain ⟨d', hd', halike⟩ := hsome
    exact ⟨d', hd', halike.id_eq, (Descriptor.handle_eq_iff.mpr halike).symm⟩

/-- Two registrations of one id that are in force have one handle. -/
theorem Recorded.unique {d'' : Descriptor} (h : Recorded events c) (hd' : InForce events d')
    (hd'' : InForce events d'') (hid : d'.id = d''.id) : d'.handle = d''.handle := by
  have hfirst := (h.registered d''.id _).mpr ⟨d', hd', hid, rfl⟩
  have hsecond := (h.registered d''.id _).mpr ⟨d'', hd'', rfl, rfl⟩
  rw [hfirst] at hsecond
  exact Option.some.inj hsecond

/-- **Handles.** Whatever happened since a handle was returned, it finds a segment exactly while one
is in force that is alike the one it was returned for, with the size of that one. When another
segment is in force under its id, or none, the handle is not found; but two cache segments of
one id and one size are alike, whosever they are. -/
theorem handle_exact {name : String} {shm : Shm} {t : Session}
    (hrun : Run Session.Step ⟨.ofName name, shm⟩ events t) (hreg : some (.register d (.ok s)) ∈ events) :
    ((∃ v, t.consumer.bufferizeSegment s t.shm = .ok v) ↔ ∃ d', InForce events d' ∧ Alike d d') ∧
      (∀ v, t.consumer.bufferizeSegment s t.shm = .ok v → v.size = d.size) ∧
      ((¬∃ d', InForce events d' ∧ Alike d d') →
        t.consumer.bufferizeSegment s t.shm = .error (.segmentNotFound d.id)) ∧
      ∀ d', InForce events d' → d'.id = d.id → ¬Alike d d' →
        t.consumer.bufferizeSegment s t.shm = .error (.segmentNotFound d.id) := by
  have hrecorded := recorded_run hrun
  obtain rfl := hrecorded.returned d s hreg
  have hlost : (¬∃ d', InForce events d' ∧ Alike d d') →
      t.consumer.bufferizeSegment d.handle t.shm = .error (.segmentNotFound d.id) := by
    intro hnone
    rw [bufferizeSegment_lost, Descriptor.id_handle]
    rw [Descriptor.id_handle]
    exact mt (hrecorded.segment?_handle d).mp hnone
  have hfound : (∃ d', InForce events d' ∧ Alike d d') →
      ∃ v, t.consumer.bufferizeSegment d.handle t.shm = .ok v ∧ v.size = d.size := by
    intro hsome
    have hsegment := (hrecorded.segment?_handle d).mpr hsome
    rw [← Descriptor.size_handle]
    exact bufferizeSegment_found (counted_run (counted_ofName name) hrun)
      (by rw [Descriptor.id_handle, hsegment]) t.shm
  refine ⟨⟨fun hok => ?_, fun hsome => (hfound hsome).imp fun _ => And.left⟩, fun v hv => ?_, hlost,
    fun d' hd' hid hother => hlost fun hsome => hother ?_⟩
  · obtain ⟨v, hv⟩ := hok
    by_contra hnone
    rw [hlost hnone] at hv
    cases hv
  · by_cases hsome : ∃ d', InForce events d' ∧ Alike d d'
    · obtain ⟨v', hv', hsize⟩ := hfound hsome
      rw [hv] at hv'
      rwa [Except.ok.inj hv']
    · rw [hlost hsome] at hv
      cases hv
  · obtain ⟨d'', hd'', halike⟩ := hsome
    rw [← Descriptor.handle_eq_iff, hrecorded.unique hd' hd'' (hid.trans halike.id_eq.symm)]
    exact Descriptor.handle_eq_iff.mpr halike

/-! ## One id, two segments

A segment is registered, unregistered, and another one is registered under its id. -/

namespace Session

/-- The session after an id that is registered is unregistered. -/
def without (s : Session) (id : Nat) : Session :=
  match s.consumer.unregister id with
  | .ok c => ⟨c, s.shm⟩
  | .error _ => s

theorem step_without {s : Session} {id : Nat} (h : s.consumer.isRegistered id = true) :
    Session.Step s (some (.unregister id (.ok ()))) (s.without id) := by
  unfold without
  cases hu : s.consumer.unregister id with
  | ok c => exact .own (.unregistered hu)
  | error e =>
    unfold unregister at hu
    unfold isRegistered at h
    rw [Table.contains_eq] at h
    obtain ⟨e₀, he₀⟩ := Option.isSome_iff_exists.mp h
    rw [he₀] at hu
    simp only at hu
    split at hu
    · cases hu
    · split at hu <;> cases hu

/-- The session once `d` has made room for `d'`. -/
def replaced (s : Session) (d d' : Descriptor) : Session := ((s.after d).without d.id).after d'

/-- The events of the replacement. -/
def replacing (s : Session) (d d' : Descriptor) : List (Option Event) :=
  let t := (s.after d).without d.id
  [some (.register d (s.consumer.register d s.shm).1), some (.unregister d.id (.ok ())),
    some (.register d' (t.consumer.register d' t.shm).1)]

theorem run_replaced {s : Session} {d d' : Descriptor} (h : (s.after d).consumer.isRegistered d.id = true) :
    Run Session.Step s (s.replacing d d') (s.replaced d d') :=
  ((Run.one (.own (.register rfl))).next (step_without h)).next (.own (.register rfl))

theorem inForce_replacing {s : Session} {d d' : Descriptor} (handle : LocalSegment)
    (h : (((s.after d).without d.id).consumer.register d' ((s.after d).without d.id).shm).1 = .ok handle) :
    InForce (s.replacing d d') d' := by
  show InForce ([_, _] ++ [_]) d'
  rw [inForce_snoc, h]
  exact Or.inl ⟨handle, rfl⟩

theorem not_inForce_replacing {s : Session} {d d' : Descriptor} (hne : d ≠ d') :
    ¬InForce (s.replacing d d') d := by
  show ¬InForce ([_] ++ [_] ++ [_]) d
  rw [inForce_snoc, inForce_snoc]
  simp [Ne.symm hne]

end Session

/-- A region of 32 bytes: the segment at its start is registered, and then the one at its end under the
same id. The handle of the first one is not found. -/
theorem handle_exact_of_moved :
    let s := Session.sampleStart
    let d : Descriptor := ⟨"m", 1, 8, .static 0 0 0⟩
    let d' : Descriptor := ⟨"m", 1, 8, .static 0 0 24⟩
    some (.register d (.ok d.handle)) ∈ s.replacing d d' ∧
      (s.replaced d d').consumer.bufferizeSegment d.handle (s.replaced d d').shm =
        .error (.segmentNotFound 1) := by
  intro s d d'
  have hfirst : (s.consumer.register d s.shm).1 = .ok d.handle := by decide +kernel
  have hreg : some (.register d (.ok d.handle)) ∈ s.replacing d d' := by
    rw [Session.replacing, hfirst]
    exact List.mem_cons_self
  have hother : ¬Alike d d' := by
    rw [← Descriptor.handle_eq_iff]
    decide +kernel
  obtain ⟨-, -, -, hreplaced⟩ := handle_exact (Session.run_replaced (by decide +kernel)) hreg
  have hforce : InForce (s.replacing d d') d' :=
    Session.inForce_replacing d'.handle (by decide +kernel)
  exact ⟨hreg, hreplaced d' hforce rfl hother⟩

/-- A cache segment of another manager that has got the id and has the same size answers to the handle of
the first one, which is in force no more. -/
theorem replaced_unnoticed :
    let s : Session := ⟨.ofName "consumer", .empty⟩
    let d : Descriptor := ⟨"a", 1, 8, .cache .inProcess⟩
    let d' : Descriptor := ⟨"b", 1, 8, .cache .inProcess⟩
    Run Session.Step s (s.replacing d d') (s.replaced d d') ∧
      some (.register d (.ok d.handle)) ∈ s.replacing d d' ∧
      ¬InForce (s.replacing d d') d ∧ InForce (s.replacing d d') d' ∧
      ∃ v, (s.replaced d d').consumer.bufferizeSegment d.handle (s.replaced d d').shm = .ok v := by
  intro s d d'
  have hfirst : (s.consumer.register d s.shm).1 = .ok d.handle := by decide +kernel
  refine ⟨Session.run_replaced (by decide +kernel), ?_, Session.not_inForce_replacing (by decide),
    Session.inForce_replacing d'.handle (by decide +kernel), ⟨8, none, Bytes.zeros 8⟩,
    by decide +kernel⟩
  rw [Session.replacing, hfirst]
  exact List.mem_cons_self

end Consumer
end TierAlloc
