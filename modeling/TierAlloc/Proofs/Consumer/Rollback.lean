import TierAlloc.Proofs.Consumer.Registrations
import TierAlloc.Proofs.Memory.Lending

/-!
# A registration is made as a whole or not at all

Registering a segment takes a buffer from the heap or adds a user to a region, and only
then looks whether the segment fits. The region may have been mapped for this segment
alone, or have other users already; what is taken back differs, and what is left is in
either case what was there before. A refusal by the heap moves a counter of its requests
and nothing else.

Unregistering undoes a registration just as well: the buffer goes back to the idle ones and
takes its charge off, the user leaves its region, and the region goes if it has no other.

**Results.**
* `register_error`: an error has one of the reasons of `Refusal`, and leaves the consumer
  the `Same`.
* `Refusal.register_eq`: every reason is one that is given.
* `unregister_register`: unregistering takes a registration back.
* `Fit.step`: what these rely on is kept by every operation.
* `registering_atomic`: all of it, in every state that a consumer reaches.
-/
namespace TierAlloc

open Function (update)

/-- No object is longer than a 64-bit number can say. -/
def Shm.Sized (shm : Shm) : Prop := ∀ i, (shm.object i).size < wordRange

namespace Consumer

variable {c c' : Consumer} {shm shm' : Shm} {d : Descriptor} {region : String} {r : Region} {id : Nat}
  {e : Error} {s : LocalSegment}

/-! ## What can be told of a consumer -/

/-- The same segments, mappings and users of them, and as many bytes in use. -/
structure Same (c c' : Consumer) : Prop where
  entries : c'.entries = c.entries
  regions : c'.regions.get? = c.regions.get?
  counts : ∀ n, c'.attachCount n = c.attachCount n
  inUse : c'.heap.inUse = c.heap.inUse

theorem Same.intro (entries : c'.entries = c.entries) (regions : c'.regions.get? = c.regions.get?)
    (inUse : c'.heap.inUse = c.heap.inUse) : Same c c' :=
  ⟨entries, regions, fun n => by rw [attachCount_eq, attachCount_eq, regions], inUse⟩

theorem Same.refl (c : Consumer) : Same c c := .intro rfl rfl rfl

/-! ## Mapping a region -/

/-- The mapping that one more segment of the region would lie in: the one that there is, or
one that can be made. -/
inductive Offers (c : Consumer) (shm : Shm) (region : String) : Region → Prop
  | mapped {a : Attachment} (found : c.regions.get? region = some a) : Offers c shm region a.region
  | attached {r : Region} (new : c.regions.get? region = none) (h : shm.attach region = .ok r) :
      Offers c shm region r

theorem attachRegion_of_offers (h : c.Offers shm region r) :
    ∃ c', c.attachRegion region shm = .ok (r, c') := by
  unfold attachRegion
  cases h with
  | mapped found =>
    rw [found]
    exact ⟨_, rfl⟩
  | attached new h =>
    rw [new]
    simp only [h]
    exact ⟨_, rfl⟩

theorem offers_of_attachRegion (h : c.attachRegion region shm = .ok (r, c')) : c.Offers shm region r := by
  obtain ⟨-, -, -, -, hmapped | ⟨hnew, hattach⟩⟩ := attachRegion_ok h
  · obtain ⟨a, ha, rfl⟩ := Option.map_eq_some_iff.mp hmapped
    exact .mapped ha
  · exact .attached hnew hattach

theorem Offers.unique {r' : Region} (h : c.Offers shm region r) (h' : c.Offers shm region r') : r' = r := by
  obtain ⟨c₁, h₁⟩ := attachRegion_of_offers h
  obtain ⟨c₂, h₂⟩ := attachRegion_of_offers h'
  rw [h₁] at h₂
  exact (Prod.mk.inj (Except.ok.inj h₂)).1.symm

theorem attachRegion_error : c.attachRegion region shm = .error e ↔
    c.regions.get? region = none ∧ shm.attach region = .error e := by
  unfold attachRegion
  cases c.regions.get? region with
  | some a => simp
  | none =>
    cases shm.attach region with
    | ok r => simp [bind, Except.bind, pure, Except.pure]
    | error e' => simp [bind, Except.bind]

/-! ## Reasons to refuse -/

/-- The descriptor names memory, and its id is not taken. -/
structure Admits (c : Consumer) (d : Descriptor) : Prop where
  size : d.size ≠ 0
  manager : d.manager.isEmpty = false
  new : c.entries.get? d.id = none

/-- The reasons to refuse a registration, each with its error. -/
inductive Refusal (c : Consumer) (d : Descriptor) (shm : Shm) : Error → Prop
  | nowhere (h : d.size = 0 ∨ d.manager.isEmpty = true) : Refusal c d shm .noSegment
  | taken (size : d.size ≠ 0) (manager : d.manager.isEmpty = false)
      (h : c.entries.contains d.id = true) : Refusal c d shm (.alreadyExists d.id)
  | noMemory (admits : c.Admits d) (tier : d.tier = .cache)
      (h : c.heap.Refuses (· < bufferSizeLimit) d.size) : Refusal c d shm (.noMemory d.size)
  | badName {n : String} (admits : c.Admits d) (tier : d.tier ≠ .cache) (named : d.regionName? = some n)
      (unmapped : c.regions.get? n = none) (h : Shm.validName n = false) :
      Refusal c d shm (.invalidConfig (.regionName n))
  | noRegion {n : String} (admits : c.Admits d) (tier : d.tier ≠ .cache) (named : d.regionName? = some n)
      (unmapped : c.regions.get? n = none) (valid : Shm.validName n = true)
      (h : shm.names.get? n = none) : Refusal c d shm (.regionUnavailable n .noSuchName)
  | emptyRegion {n : String} {i : Nat} (admits : c.Admits d) (tier : d.tier ≠ .cache)
      (named : d.regionName? = some n) (unmapped : c.regions.get? n = none)
      (valid : Shm.validName n = true) (found : shm.names.get? n = some i)
      (h : (shm.object i).size = 0) : Refusal c d shm (.invalidDescriptor (.emptyRegion n))
  | outside {n : String} {r : Region} (admits : c.Admits d) (tier : d.tier ≠ .cache)
      (named : d.regionName? = some n) (offers : c.Offers shm n r) (h : r.size < d.offset + d.size) :
      Refusal c d shm (.rangeError d.offset d.size)

/-- A region that cannot be mapped is the reason. -/
theorem refusal_of_attach {n : String} (admits : c.Admits d) (tier : d.tier ≠ .cache)
    (named : d.regionName? = some n) (h : c.attachRegion n shm = .error e) : c.Refusal d shm e := by
  obtain ⟨hunmapped, hattach⟩ := attachRegion_error.mp h
  unfold Shm.attach at hattach
  split at hattach
  · rename_i hinvalid
    obtain rfl := Except.error.inj hattach
    exact .badName admits tier named hunmapped (by simpa using hinvalid)
  rename_i hvalid
  have hvalid : Shm.validName n = true := by simpa using hvalid
  split at hattach
  · rename_i hnone
    obtain rfl := Except.error.inj hattach
    exact .noRegion admits tier named hunmapped hvalid hnone
  · rename_i i hi
    simp only at hattach
    split at hattach
    · rename_i hempty
      obtain rfl := Except.error.inj hattach
      exact .emptyRegion admits tier named hunmapped hvalid hi hempty
    · cases hattach

theorem registerBuffer_error (admits : c.Admits d) (tier : d.tier = .cache)
    (h : c.registerBuffer d = (.error e, c')) : c.Refusal d shm e ∧ Same c c' := by
  unfold registerBuffer at h
  split at h
  · rename_i e₀ heap ha
    obtain ⟨he, rfl⟩ := Prod.mk.inj h
    obtain rfl := Except.error.inj he
    rw [BufferPool.acquire_eq] at ha
    obtain ⟨rfl, hinUse, -⟩ := BufferPool.acquireFrom_error ha
    exact ⟨.noMemory admits tier (BufferPool.refused_iff.mp ⟨_, _, ha⟩), .intro rfl rfl hinUse⟩
  · cases (Prod.mk.inj h).1

theorem registerMapped_error {n : String} (hc : Counted c.regions.get? c.entries) (admits : c.Admits d)
    (tier : d.tier ≠ .cache) (named : d.regionName? = some n)
    (h : c.registerMapped d n shm = (.error e, c')) : c.Refusal d shm e ∧ Same c c' := by
  unfold registerMapped at h
  split at h
  · rename_i e₀ ha
    obtain ⟨he, rfl⟩ := Prod.mk.inj h
    obtain rfl := Except.error.inj he
    exact ⟨refusal_of_attach admits tier named ha, .refl c⟩
  · rename_i r c₁ ha
    split at h
    · cases (Prod.mk.inj h).1
    · rename_i hout
      obtain ⟨he, rfl⟩ := Prod.mk.inj h
      obtain rfl := Except.error.inj he
      -- the user that was added is taken back, and its mapping with it if it had no other
      obtain ⟨-, hentries, hheap⟩ := c₁.detachRegion_kept n
      obtain ⟨-, hentries₁, hheap₁, -⟩ := attachRegion_ok ha
      refine ⟨.outside admits tier named (offers_of_attachRegion ha) ?_,
        .intro (hentries.trans hentries₁) (detach_attach hc ha) (by rw [hheap, hheap₁])⟩
      simpa [Region.covers] using hout

/-- Where the bytes of an admitted descriptor would be. -/
theorem Admits.register_eq (h : c.Admits d) (shm : Shm) :
    (d.tier = .cache ∧ c.register d shm = c.registerBuffer d) ∨
      d.tier ≠ .cache ∧ ∃ n, d.regionName? = some n ∧ c.register d shm = c.registerMapped d n shm := by
  have hnew : c.entries.contains d.id = false := by rw [Table.contains_eq, h.new, Option.isSome_none]
  unfold register
  rw [if_neg (by simp [h.size, h.manager]), if_neg (by simp [hnew])]
  cases hk : d.kind with
  | cache place => exact Or.inl ⟨by rw [Descriptor.tier, hk, Kind.tier], rfl⟩
  | static batch bin offset =>
    exact Or.inr ⟨by simp [Descriptor.tier, hk, Kind.tier], _,
      by rw [Descriptor.regionName?, hk, Kind.regionName?], rfl⟩
  | ephemeral =>
    exact Or.inr ⟨by simp [Descriptor.tier, hk, Kind.tier], _,
      by rw [Descriptor.regionName?, hk, Kind.regionName?], rfl⟩

/-- What is refused has a reason, and shows nowhere. -/
theorem register_error (hc : Counted c.regions.get? c.entries)
    (h : c.register d shm = (.error e, c')) : c.Refusal d shm e ∧ Same c c' := by
  by_cases hnull : d.size = 0 ∨ d.manager.isEmpty
  · rw [register, if_pos hnull] at h
    obtain ⟨he, rfl⟩ := Prod.mk.inj h
    obtain rfl := Except.error.inj he
    exact ⟨.nowhere hnull, .refl c⟩
  obtain ⟨hsize, hmanager⟩ := not_or.mp hnull
  have hmanager := Bool.eq_false_iff.mpr hmanager
  by_cases htaken : c.entries.contains d.id
  · rw [register, if_neg hnull, if_pos htaken] at h
    obtain ⟨he, rfl⟩ := Prod.mk.inj h
    obtain rfl := Except.error.inj he
    exact ⟨.taken hsize hmanager htaken, .refl c⟩
  have admits : c.Admits d := ⟨hsize, hmanager, by simpa [Table.contains_eq] using htaken⟩
  obtain ⟨tier, heq⟩ | ⟨tier, n, named, heq⟩ := admits.register_eq shm
  · rw [heq] at h
    exact registerBuffer_error admits tier h
  · rw [heq] at h
    exact registerMapped_error hc admits tier named h

theorem registerMapped_of_error {n : String} (h : c.attachRegion n shm = .error e) :
    (c.registerMapped d n shm).1 = .error e := by
  rw [registerMapped, h]

/-- An admitted segment of a region that cannot be mapped is refused for that. -/
theorem Admits.register_unmapped {n : String} (h : c.Admits d) (tier : d.tier ≠ .cache)
    (named : d.regionName? = some n) (unmapped : c.regions.get? n = none)
    (hattach : shm.attach n = .error e) : (c.register d shm).1 = .error e := by
  obtain ⟨hcache, -⟩ | ⟨-, m, hm, heq⟩ := h.register_eq shm
  · exact absurd hcache tier
  · obtain rfl := Option.some.inj (named.symm.trans hm)
    rw [heq]
    exact registerMapped_of_error (attachRegion_error.mpr ⟨unmapped, hattach⟩)

/-- Every reason is one that is given. -/
theorem Refusal.register_eq (h : c.Refusal d shm e) : (c.register d shm).1 = .error e := by
  cases h with
  | nowhere h => rw [register, if_pos h]
  | taken size manager h => rw [register, if_neg (by simp [size, manager]), if_pos h]
  | noMemory admits tier h =>
    obtain ⟨-, heq⟩ | ⟨hother, -⟩ := admits.register_eq shm
    · obtain ⟨e, heap, ha⟩ := BufferPool.refused_iff.mpr h
      rw [← BufferPool.acquire_eq] at ha
      rw [heq, registerBuffer, ha, BufferPool.acquire_error ha]
    · exact absurd tier hother
  | badName admits tier named unmapped h =>
    exact admits.register_unmapped tier named unmapped (by rw [Shm.attach, if_pos (by simp [h])])
  | noRegion admits tier named unmapped valid h =>
    refine admits.register_unmapped tier named unmapped ?_
    rw [Shm.attach, if_neg (by simp [valid]), h]
  | emptyRegion admits tier named unmapped valid found h =>
    refine admits.register_unmapped tier named unmapped ?_
    simp only [Shm.attach, valid, found, h, Bool.not_true, Bool.false_eq_true, if_false, if_true]
  | outside admits tier named offers h =>
    obtain ⟨hcache, -⟩ | ⟨-, m, hm, heq⟩ := admits.register_eq shm
    · exact absurd hcache tier
    · obtain rfl := Option.some.inj (named.symm.trans hm)
      obtain ⟨c₁, ha⟩ := attachRegion_of_offers offers
      simp only [heq, registerMapped, ha]
      rw [if_neg (by simpa [Region.covers] using h)]

/-- No segment is there to be registered when the descriptor names none, and for no other reason. -/
theorem register_noSegment :
    (c.register d shm).1 = .error .noSegment ↔ d.size = 0 ∨ d.manager.isEmpty = true := by
  refine ⟨fun h => ?_, fun h => by rw [register, if_pos h]⟩
  by_contra hnull
  have hrefused : ¬c.Refusal d shm .noSegment := fun
    | .nowhere hnone => hnull hnone
  obtain ⟨hsize, hmanager⟩ := not_or.mp hnull
  by_cases htaken : c.entries.contains d.id
  · rw [register, if_neg hnull, if_pos htaken] at h
    cases h
  have admits : c.Admits d := ⟨hsize, Bool.eq_false_iff.mpr hmanager, by simpa [Table.contains_eq] using htaken⟩
  obtain ⟨tier, heq⟩ | ⟨tier, n, named, heq⟩ := admits.register_eq shm
  · rw [heq] at h
    exact hrefused (registerBuffer_error admits tier (Prod.ext h rfl)).1
  · rw [heq] at h
    unfold registerMapped at h
    split at h
    · rename_i e ha
      obtain rfl := Except.error.inj h
      exact hrefused (refusal_of_attach admits tier named ha)
    · split at h <;> cases h

/-! ## Taking a registration back -/

theorem unregister_unknown (h : c.entries.get? id = none) :
    c.unregister id = .error (.segmentNotFound id) := by
  rw [unregister, h]

theorem unregister_enter_buffer {b : Buffer} (new : c.entries.get? s.id = none) :
    (c.enter s (.buffer b)).unregister s.id = .ok { c with heap := c.heap.recycle b } := by
  simp only [unregister, enter, Table.get?_insert, if_true, Table.erase_insert _ new]

theorem unregister_enter_mapped (new : c.entries.get? s.id = none) (named : s.regionName = some region) :
    (c.enter s (.mapped r)).unregister s.id = .ok (c.detachRegion region) := by
  simp only [unregister, enter, Table.get?_insert, if_true, Table.erase_insert _ new, named]

/-- Unregistering a segment that was just registered leaves what was there before, and the id
unknown. -/
theorem unregister_register (hc : Counted c.regions.get? c.entries) (hheap : c.heap.Shelved)
    (h : c.register d shm = (.ok s, c')) :
    ∃ c'', c'.unregister d.id = .ok c'' ∧ Same c c'' ∧
      c''.unregister d.id = .error (.segmentNotFound d.id) := by
  cases register_cases hc h with
  | @buffer b heap new tier ha =>
    rw [BufferPool.acquire_eq] at ha
    exact ⟨_, unregister_enter_buffer new, .intro rfl rfl (hheap.returned ha b.bytes),
      unregister_unknown new⟩
  | @mapped region r c₁ new tier named ha inside =>
    obtain ⟨-, hentries₁, hheap₁, -⟩ := attachRegion_ok ha
    obtain ⟨-, hentries, hheap'⟩ := c₁.detachRegion_kept region
    rw [← hentries₁] at new
    refine ⟨_, unregister_enter_mapped new rfl, .intro (hentries.trans hentries₁) (detach_attach hc ha)
      (by rw [hheap', hheap₁]), unregister_unknown (by rw [hentries, new])⟩

/-! ## What every state of a consumer has -/

/-- The counts are right, the idle buffers are in their places, and every mapping has a length
that is a 64-bit number. -/
structure Fit (c : Consumer) : Prop where
  counted : Counted c.regions.get? c.entries
  shelved : c.heap.Shelved
  sized : ∀ n a, c.regions.get? n = some a → a.region.size < wordRange

theorem fit_ofName (name : String) : (ofName name).Fit :=
  ⟨counted_ofName name, BufferPool.shelved_create none, nofun⟩

theorem Fit.offers_lt (h : c.Fit) (hshm : shm.Sized) (ho : c.Offers shm region r) : r.size < wordRange := by
  cases ho with
  | mapped found => exact h.sized _ _ found
  | attached new ha =>
    obtain ⟨-, -, hsize, -⟩ := Shm.attach_ok ha
    rw [hsize]
    exact hshm _

/-- One region has other users, or is mapped now. -/
theorem Fit.sized_attach (h : c.Fit) (hshm : shm.Sized) (ha : c.attachRegion region shm = .ok (r, c')) :
    ∀ n a, c'.regions.get? n = some a → a.region.size < wordRange := by
  intro n a hn
  obtain ⟨-, -, -, hregions, -⟩ := attachRegion_ok ha
  rw [hregions] at hn
  by_cases he : n = region
  · rw [he, Function.update_self] at hn
    rw [← Option.some.inj hn]
    exact h.offers_lt hshm (offers_of_attachRegion ha)
  · rw [Function.update_of_ne he] at hn
    exact h.sized n a hn

theorem heap_registerMapped (c : Consumer) (d : Descriptor) (n : String) (shm : Shm) :
    (c.registerMapped d n shm).2.heap = c.heap := by
  unfold registerMapped
  split
  · rfl
  · rename_i r c₁ ha
    obtain ⟨-, -, hheap, -⟩ := attachRegion_ok ha
    split
    · exact hheap
    · rw [(c₁.detachRegion_kept n).2.2, hheap]

/-- A registration asks the heap for a buffer, or leaves it alone. -/
theorem heap_register (c : Consumer) (d : Descriptor) (shm : Shm) :
    (c.register d shm).2.heap = c.heap ∨ (c.register d shm).2.heap = (c.heap.acquire d.size).2 := by
  unfold register
  split
  · exact Or.inl rfl
  split
  · exact Or.inl rfl
  split
  · right
    unfold registerBuffer
    split
    · rename_i ha
      rw [ha]
    · rename_i ha
      rw [ha]
      rfl
  · exact Or.inl (heap_registerMapped ..)
  · exact Or.inl (heap_registerMapped ..)

theorem heap_unregister (h : c.unregister id = .ok c') :
    c'.heap = c.heap ∨ ∃ b, c'.heap = c.heap.recycle b := by
  unfold unregister at h
  split at h
  · cases h
  simp only at h
  split at h
  · rename_i b _
    rw [← Except.ok.inj h]
    exact Or.inr ⟨b, rfl⟩
  · split at h
    · rw [← Except.ok.inj h]
      exact Or.inl (detachRegion_kept ..).2.2
    · rw [← Except.ok.inj h]
      exact Or.inl rfl

theorem Fit.register (h : c.Fit) (hshm : shm.Sized) {answer : Except Error LocalSegment}
    (hr : c.register d shm = (answer, c')) : c'.Fit := by
  have hregistered := register_cases h.counted hr
  refine ⟨h.counted.register hregistered, ?_, ?_⟩
  · have hheap := heap_register c d shm
    rw [hr] at hheap
    obtain hsame | hasked := hheap
    · rw [hsame]
      exact h.shelved
    · rw [hasked, BufferPool.acquire_eq]
      exact h.shelved.acquireFrom (Prod.eta _).symm
  · cases hregistered with
    | refused entries regions =>
      rw [regions]
      exact h.sized
    | buffer new tier ha => exact h.sized
    | mapped new tier named ha inside =>
      have hsized := h.sized_attach hshm ha
      exact hsized

theorem Fit.unregister (h : c.Fit) (hu : c.unregister id = .ok c') : c'.Fit := by
  refine ⟨h.counted.unregister hu, ?_, ?_⟩
  · obtain hsame | ⟨b, hback⟩ := heap_unregister hu
    · rw [hsame]
      exact h.shelved
    · rw [hback]
      exact h.shelved.recycle b
  · intro n a hn
    obtain ⟨e, -, -, hregions⟩ := unregister_ok h.counted hu
    split at hregions
    · rw [hregions] at hn
      exact h.sized n a hn
    · rename_i region _
      rw [hregions] at hn
      by_cases he : n = region
      · rw [he, Function.update_self] at hn
        obtain ⟨a₀, ha₀, hless⟩ := Option.bind_eq_some_iff.mp hn
        obtain ⟨-, rfl⟩ := Attachment.less_eq_some hless
        exact h.sized _ a₀ ha₀
      · rw [Function.update_of_ne he] at hn
        exact h.sized n a hn

theorem Fit.write (h : c.Fit) {offset : Nat} {data : Bytes}
    (hw : c.write id offset data shm = .ok (c', shm')) : c'.Fit := by
  have hcounted := h.counted.write hw
  obtain ⟨e, -, -, hwritten⟩ := write_ok hw
  obtain ⟨r, -, rfl, -⟩ | ⟨b, -, -, rfl⟩ := hwritten
  · exact h
  · exact ⟨hcounted, h.shelved, h.sized⟩

theorem Fit.step {event : Event} (h : c.Fit) (hshm : shm.Sized) (hs : Step c shm event c' shm') :
    c'.Fit := by
  cases hs with
  | register hr => exact h.register hshm hr
  | unregistered hu => exact h.unregister hu
  | written hw => exact h.write hw
  | _ => exact h

/-- A step of a session after which, too, no object is longer than a 64-bit number can say. -/
def Session.SizedStep (s : Session) (event : Option Event) (t : Session) : Prop :=
  Session.Step s event t ∧ t.shm.Sized

theorem fit_run {s t : Session} {events : List (Option Event)} (h : s.consumer.Fit) (hshm : s.shm.Sized)
    (hrun : Run Session.SizedStep s events t) : t.consumer.Fit ∧ t.shm.Sized := by
  refine hrun.invariant (P := fun _ t => t.consumer.Fit ∧ t.shm.Sized) ⟨h, hshm⟩ fun {_ t event u} ht hs => ?_
  obtain ⟨hstep, hsized⟩ := hs
  refine ⟨?_, hsized⟩
  cases hstep with
  | own hown => exact ht.1.step ht.2 hown
  | outside => exact ht.1

/-! ## All or nothing -/

/-- What a registration is relied on for. -/
structure Atomic (c : Consumer) (shm : Shm) (d : Descriptor) : Prop where
  /-- A registration that fails has a reason, and leaves nothing behind. -/
  refused : ∀ e c', c.register d shm = (.error e, c') → c.Refusal d shm e ∧ Same c c'
  /-- It fails whenever it has a reason to. -/
  reason : ∀ e, c.Refusal d shm e → (c.register d shm).1 = .error e
  /-- A segment of shared memory is out of range when its region is mapped, or can be, and does
  not reach to its end. -/
  range : c.Admits d → d.tier ≠ .cache → ∃ n, d.regionName? = some n ∧
    ((c.register d shm).1 = .error (.rangeError d.offset d.size) ↔
      ∃ r, c.Offers shm n r ∧ (r.size < d.offset + d.size ∨ wordRange ≤ d.offset + d.size))
  /-- A registration that succeeds is taken back by unregistering, once. -/
  undone : ∀ s c', c.register d shm = (.ok s, c') →
    ∃ c'', c'.unregister d.id = .ok c'' ∧ Same c c'' ∧
      c''.unregister d.id = .error (.segmentNotFound d.id)

theorem Fit.range (h : c.Fit) (hshm : shm.Sized) (admits : c.Admits d) (tier : d.tier ≠ .cache) :
    ∃ n, d.regionName? = some n ∧
      ((c.register d shm).1 = .error (.rangeError d.offset d.size) ↔
        ∃ r, c.Offers shm n r ∧ (r.size < d.offset + d.size ∨ wordRange ≤ d.offset + d.size)) := by
  obtain ⟨hcache, -⟩ | ⟨-, n, named, -⟩ := admits.register_eq shm
  · exact absurd hcache tier
  refine ⟨n, named, ?_⟩
  constructor
  · intro hrange
    obtain ⟨hrefusal, -⟩ := register_error h.counted (Prod.ext hrange rfl)
    generalize he : Error.rangeError d.offset d.size = e at hrefusal
    cases hrefusal with
    | outside _ _ named' offers hout =>
      obtain rfl := Option.some.inj (named.symm.trans named')
      exact ⟨_, offers, Or.inl hout⟩
    | _ => cases he
  · intro ⟨r, offers, hout⟩
    have hlt := h.offers_lt hshm offers
    exact (Refusal.outside admits tier named offers (by omega)).register_eq

/-- **Registering is atomic.** Whatever a consumer was asked before, and whatever becomes of
the memory meanwhile: a registration that fails has one of the reasons of `Refusal` and leaves the
segments, the mappings, their users and the bytes in use as they were, one that succeeds is
undone by unregistering its id, and a segment of shared memory is out of range exactly when the
region that it would lie in ends before it. -/
theorem registering_atomic {name : String} {shm : Shm} {events : List (Option Event)} {s : Session}
    (hshm : shm.Sized) (hrun : Run Session.SizedStep ⟨.ofName name, shm⟩ events s) (d : Descriptor) :
    s.consumer.Atomic s.shm d := by
  obtain ⟨hfit, hsized⟩ := fit_run (fit_ofName name) hshm hrun
  exact ⟨fun _ _ => register_error hfit.counted, fun _ => Refusal.register_eq, hfit.range hsized,
    fun _ _ => unregister_register hfit.counted hfit.shelved⟩

/-! ## A region with two users

Two segments of a region of 32 bytes are registered; a third one would run over its end. -/

namespace Session

theorem sized_sampleStart : sampleStart.shm.Sized := by
  intro i
  cases i with
  | zero => decide +kernel
  | succ i =>
    have hnone : sampleStart.shm.object (i + 1) = .empty := by
      rw [Shm.object, Array.getD_eq_getD_getElem?, Array.getElem?_eq_none, Option.getD_none]
      exact Nat.le_add_left 1 i
    rw [hnone]
    decide +kernel

/-- A registration leaves the memory alone. -/
theorem sizedStep_after {s : Session} (h : s.shm.Sized) (d : Descriptor) :
    Session.SizedStep s (some (.register d (s.consumer.register d s.shm).1)) (s.after d) :=
  ⟨.own (.register rfl), h⟩

/-- The session with the first two of the segments. -/
def sampleUsed : Session := (sampleDescriptors.take 2).foldl after sampleStart

end Session

/-- The third one is refused, and the region still has two users. -/
theorem registering_atomic_of_two_users :
    (Session.sampleUsed.consumer.register ⟨"m", 3, 9, .static 0 0 24⟩ Session.sampleUsed.shm).1 =
        .error (.rangeError 24 9) ∧
      Same Session.sampleUsed.consumer
        (Session.sampleUsed.consumer.register ⟨"m", 3, 9, .static 0 0 24⟩ Session.sampleUsed.shm).2 ∧
      Session.sampleUsed.consumer.attachCount (staticRegionName "m" 0) = 2 := by
  have hsized := Session.sized_sampleStart
  have hone := Session.sizedStep_after hsized ⟨"m", 1, 8, .static 0 0 0⟩
  have htwo := Session.sizedStep_after hone.2 ⟨"m", 2, 8, .static 0 0 24⟩
  have hrun : Run Session.SizedStep Session.sampleStart _ Session.sampleUsed := (Run.one hone).next htwo
  have hatomic := registering_atomic hsized hrun ⟨"m", 3, 9, .static 0 0 24⟩
  have hrefused : (Session.sampleUsed.consumer.register ⟨"m", 3, 9, .static 0 0 24⟩ Session.sampleUsed.shm).1 =
      .error (.rangeError 24 9) := by
    decide +kernel
  exact ⟨hrefused, (hatomic.refused _ _ (Prod.ext hrefused rfl)).2, by decide +kernel⟩

end Consumer
end TierAlloc
