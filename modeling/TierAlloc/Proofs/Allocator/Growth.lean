import TierAlloc.Proofs.Allocator.Accounts
import TierAlloc.Proofs.Static.Room

/-!
# When the static tier grows

A request for chunks goes to the batches in the order in which they were made. It is served
by the first one with room; when none has room there is one batch more, and the request is
served there or not at all. What is asked for too much, or for nothing, is refused by the
first batch that is asked, and the tier does not grow.

That a batch is passed over only when it has no room needs the invariant `Tiered`: every
batch has the limit and the pools of its geometry, and its pools know how many of their
chunks are free.

**Results.**
* `askBatches_of_room`, `askBatches_of_full`: which batch serves a request.
* `Allocator.Tiered`, `Tiered.step`: the invariant, kept by every step of a system.
* `static_tier_answers`: what becomes of a request for chunks, in every state that is reached.
-/
namespace TierAlloc

namespace Allocator

variable {a a' : Allocator} {shm shm' shm₁ : Shm} {n : Nat} {e : Error} {ids ids' : Counter}
  {batches : List Batch} {b b' : Batch} {g : Geometry} {s : Segment} {config : Config} {l : Ledger}

/-! ## Asking batches -/

section
variable (hbatches : ∀ b ∈ batches, b.Sound ∧ b.Regular g)

include hbatches

theorem askBatches_regular (h : askBatches n batches ids = (.ok (s, b'), ids')) : b'.Regular g := by
  induction batches generalizing ids with
  | nil => cases h
  | cons first rest ih =>
    obtain ⟨hfirst, hrest⟩ := List.forall_mem_cons.mp hbatches
    rw [askBatches] at h
    split at h
    · exact ih hrest h
    · exact Batch.regular_allocate hfirst.1 hfirst.2 h

theorem askBatches_of_full (hn : 0 < n) (hle : n ≤ 8 * g.maxChunkSize) (hfull : ∀ b ∈ batches, ¬b.Room n)
    (ids : Counter) : ∃ ids', askBatches n batches ids = (.error (.noMemory n), ids') := by
  induction batches generalizing ids with
  | nil => exact ⟨ids, rfl⟩
  | cons first rest ih =>
    obtain ⟨hfirst, hrest⟩ := List.forall_mem_cons.mp hbatches
    obtain ⟨hno, hnone⟩ := List.forall_mem_cons.mp hfull
    obtain ⟨ids₁, ha⟩ := Batch.allocate_of_full hfirst.1 hn (by rwa [hfirst.2.sizeLimit_eq]) hno ids
    rw [askBatches, ha]
    exact ih hrest hnone ids₁

/-- The first batch with room serves the request. -/
theorem askBatches_of_room (hn : 0 < n) (hle : n ≤ 8 * g.maxChunkSize) {i : Nat} (hb : batches[i]? = some b)
    (hroom : b.Room n) (hfull : ∀ j c, j < i → batches[j]? = some c → ¬c.Room n) (ids : Counter) :
    ∃ ids₁ s b' ids', b.allocate ids₁ n = (.ok (s, b'), ids') ∧
      askBatches n batches ids = (.ok (s, b'), ids') := by
  induction batches generalizing ids i with
  | nil => cases hb
  | cons first rest ih =>
    obtain ⟨hfirst, hrest⟩ := List.forall_mem_cons.mp hbatches
    have hlimit : n ≤ first.sizeLimit := by rwa [hfirst.2.sizeLimit_eq]
    rw [askBatches]
    cases i with
    | zero =>
      obtain rfl := Option.some.inj hb
      obtain ⟨s, b', ids', ha⟩ := Batch.allocate_of_room hfirst.1 hn hlimit hfirst.2.counted hroom ids
      rw [ha]
      exact ⟨ids, s, b', ids', ha, rfl⟩
    | succ i =>
      -- A batch without room has used up ids; the rest are asked with what is left.
      have hno : ¬first.Room n := hfull 0 first (Nat.succ_pos i) rfl
      obtain ⟨ids₁, ha⟩ := Batch.allocate_of_full hfirst.1 hn hlimit hno ids
      rw [ha]
      exact ih hrest hb (fun j c hj hc => hfull (j + 1) c (Nat.succ_lt_succ hj) hc) ids₁

end

/-! ## The tier of a configuration -/

/-- The static tier as this configuration has it. -/
structure Tiered (a : Allocator) (config : Config) : Prop where
  configured : a.config = config
  planned : ∃ pools, Batch.plan config.geometry = .ok (pools, config.geometry.totalBytes)
  batches : a.batches ≠ []
  regular : ∀ b ∈ a.batches, b.Regular config.geometry

namespace Tiered

theorem usable (h : a.Tiered config) (hs : SoundBatches a.batches)
    (hsub : ∀ b ∈ batches, b ∈ a.batches) : ∀ b ∈ batches, b.Sound ∧ b.Regular config.geometry :=
  fun b hb => ⟨(sound_of_mem hs (hsub b hb)).2, h.regular b (hsub b hb)⟩

theorem keep (h : a.Tiered config) (hc : a'.config = a.config) (hb : a'.batches = a.batches) :
    a'.Tiered config := by
  refine ⟨hc.trans h.configured, h.planned, ?_, ?_⟩
  · rw [hb]
    exact h.batches
  · rw [hb]
    exact h.regular

theorem idle (h : a.Tiered config) (hb : a.Becomes l a') (hl : l.batches = a.batches) :
    a'.Tiered config := h.keep hb.config ((congrArg Ledger.batches hb.ledger).trans hl)

theorem put (h : a.Tiered config) {i : Nat} (hc : a'.config = a.config)
    (hb : a'.batches = a.batches.set i b) (hreg : b.Regular config.geometry) : a'.Tiered config := by
  refine ⟨hc.trans h.configured, h.planned, ?_, ?_⟩
  · rw [hb, ne_eq, List.set_eq_nil_iff]
    exact h.batches
  · intro c hmem
    rw [hb] at hmem
    rcases List.mem_or_eq_of_mem_set hmem with hmem | rfl
    · exact h.regular c hmem
    · exact hreg

theorem grow (h : a.Tiered config) (hc : a'.config = a.config) (hb : a'.batches = a.batches ++ [b])
    (hreg : b.Regular config.geometry) : a'.Tiered config := by
  refine ⟨hc.trans h.configured, h.planned, ?_, ?_⟩
  · rw [hb]
    exact List.append_ne_nil_of_left_ne_nil h.batches _
  · intro c hmem
    rw [hb, List.mem_append, List.mem_singleton] at hmem
    rcases hmem with hmem | rfl
    · exact h.regular c hmem
    · exact hreg

end Tiered

/-! ## Requests -/

/-- The segment is recorded, and the batch that serves it is put back. -/
theorem serveStatic_of_ask (hnew : a.Unissued) (hle : a.ids.issued ≤ s.id)
    (hask : askBatches n batches a.ids = (.ok (s, b'), ids)) (shm : Shm) :
    a.serveStatic batches n shm = (.ok (s.stamp a.name),
      { a with ids, batches := a.batches.set b'.id b',
               segments := a.segments.insert s.id (s.stamp a.name) }, shm) := by
  have hnone : a.segments.get? s.id = none := hnew s.id hle
  unfold serveStatic
  rw [hask]
  exact register_new (by exact hnone) shm

theorem serveStatic_of_refused (hask : askBatches n batches a.ids = (.error e, ids)) (shm : Shm) :
    a.serveStatic batches n shm = (.error e, { a with ids }, shm) := by
  unfold serveStatic
  rw [hask]

section
variable (hs : SoundBatches a.batches) (hnew : a.Unissued)

include hs hnew

theorem tiered_serveStatic (h : a.Tiered config) (hsub : ∀ b ∈ batches, b ∈ a.batches) (n : Nat)
    (shm : Shm) : (a.serveStatic batches n shm).2.1.Tiered config := by
  have hbatches := h.usable hs hsub
  cases hask : askBatches n batches a.ids with
  | mk answer ids =>
    cases answer with
    | error e =>
      rw [serveStatic_of_refused hask]
      exact h.keep rfl rfl
    | ok served =>
      obtain ⟨s, b'⟩ := served
      obtain ⟨-, hle, -⟩ := askBatches_ok (fun b hb => (hbatches b hb).1) hask
      rw [serveStatic_of_ask hnew hle hask]
      exact h.put rfl rfl (askBatches_regular hbatches hask)

/-- A batch more is a batch like the others. -/
theorem tiered_added (h : a.Tiered config) (hids : a.ids.issued ≤ ids.issued)
    (hmade : Batch.create a.name a.batches.length a.config.geometry shm = (.ok b, shm₁)) :
    SoundBatches (a.batches ++ [b]) ∧ Unissued { a with ids, batches := a.batches ++ [b] } ∧
      Tiered { a with ids, batches := a.batches ++ [b] } config := by
  obtain ⟨hid, -, hsound, -⟩ := Batch.create_sound hmade
  have hreg : b.Regular config.geometry := by
    rw [← h.configured]
    exact Batch.regular_create hmade
  exact ⟨sound_append hs hid hsound, fun k hk => hnew k (Nat.le_trans hids hk), h.grow rfl rfl hreg⟩

theorem tiered_staticAlloc (h : a.Tiered config) (n : Nat) (shm : Shm) :
    (a.staticAlloc n shm).2.1.Tiered config := by
  have hfirst := tiered_serveStatic hs hnew h (fun _ => id) n shm
  unfold staticAlloc
  split
  · rename_i m a₁ shm₁ hserve
    obtain ⟨⟨ids, hids, rfl⟩, -⟩ := serveStatic_error hs (fun _ => id) hnew hserve
    rw [hserve] at hfirst
    split
    · rename_i e a₂ shm₂ hgrow
      obtain ⟨rfl, -⟩ := grow_error hgrow
      exact hfirst
    · rename_i b a₂ shm₂ hgrow
      obtain ⟨hmade, rfl⟩ := grow_ok hgrow
      obtain ⟨hs₁, hnew₁, h₁⟩ := tiered_added hs hnew h hids hmade
      exact tiered_serveStatic hs₁ hnew₁ h₁ (fun c hc => List.mem_append_right _ hc) n shm₂
  · exact hfirst

end

end Allocator

/-- Only a request for chunks has to do with the batches. -/
theorem Request.batches_eq {a a' : Allocator} {shm shm' : Shm} {r : Request}
    {answer : Except Error Segment} (hnew : a.Unissued) (hfree : a.ledger.regions a.ids.issued = none)
    (h : r.apply a shm = (answer, a', shm')) :
    (∃ l, a.Becomes l a' ∧ l.batches = a.batches) ∨ ∃ n, a.staticAlloc n shm = (answer, a', shm') := by
  have hcache : ∀ {n content}, a.cacheStoreWith n content shm = (answer, a', shm') →
      ∃ l, a.Becomes l a' ∧ l.batches = a.batches := by
    intro n content h
    cases answer with
    | error e => exact ⟨_, (Allocator.cacheStoreWith_error hnew h).1, rfl⟩
    | ok s => exact ⟨_, (Allocator.cacheStoreWith_ok hnew h).2.2.after, rfl⟩
  have hinstant : ∀ {n}, a.instantAlloc n shm = (answer, a', shm') →
      ∃ l, a.Becomes l a' ∧ l.batches = a.batches := by
    intro n h
    cases answer with
    | error e => exact ⟨_, (Allocator.instantAlloc_error hnew hfree h).1, rfl⟩
    | ok s =>
      obtain ⟨-, r, hm⟩ := Allocator.instantAlloc_ok hnew h
      exact ⟨_, hm.after, rfl⟩
  cases r with
  | allocate n =>
    unfold apply Allocator.allocate at h
    cases hc : a.classify n <;> simp only [hc] at h
    · exact Or.inr ⟨n, h⟩
    · exact Or.inl (hcache (show a.cacheStoreWith n [] shm = _ from h))
    · exact Or.inl (hinstant h)
  | staticAlloc n => exact Or.inr ⟨n, h⟩
  | instantAlloc n => exact Or.inl (hinstant h)
  | cacheMalloc n => exact Or.inl (hcache (show a.cacheStoreWith n [] shm = _ from h))
  | cacheStore data =>
    rw [apply, Allocator.cacheStore_eq] at h
    split at h
    · obtain rfl := (Prod.mk.inj (Prod.mk.inj h).2).1
      exact Or.inl ⟨_, Allocator.becomes_draw (Nat.le_succ _), rfl⟩
    · exact Or.inl (hcache h)
  | cacheStoreWith n content => exact Or.inl (hcache h)

namespace Allocator

variable {a a' : Allocator} {t : Traffic} {shm shm' shm₁ : Shm} {n : Nat} {e : Error} {ids ids' : Counter}
  {batches : List Batch} {b : Batch} {config : Config} {s : Segment}

/-- Every step of a system keeps the tier. -/
theorem Tiered.step {allowed : Traffic → Descriptor → Prop} {s s' : System} {e : System.Event}
    (h : Accounted s.allocator s.traffic) (ht : s.allocator.Tiered config)
    (hs : System.Step allowed s e s') : s'.allocator.Tiered config := by
  have hrequest : ∀ {r answer a shm}, Request.apply s.allocator s.shm r = (answer, a, shm) →
      a.Tiered config := by
    intro r answer a shm hr
    have hfree := h.regions_none (h.unissued _ (Nat.le_refl _))
    rcases Request.batches_eq h.unissued hfree hr with ⟨l, hb, hl⟩ | ⟨n, hn⟩
    · exact ht.idle hb hl
    · have hafter := tiered_staticAlloc h.sound h.unissued ht n s.shm
      rwa [hn] at hafter
  cases hs with
  | granted hr => exact hrequest hr
  | refused hr => exact hrequest hr
  | @replace r answer a hr =>
    cases answer with
    | error e => exact ht.idle (Replacement.error hr) rfl
    | ok u =>
      obtain ⟨seg, -, -, -, hb⟩ := Replacement.ok h.own hr
      exact ht.idle hb rfl
  | released hr =>
    obtain ⟨seg, -, -, -, hf⟩ := Allocator.release_ok h.own hr
    cases hf with
    | @chunks b p p' _ hkind hb hp hfreed hafter =>
      have hsound : b.Sound := (h.sound b.id b hb).2
      have hreg := ht.regular b (List.mem_of_getElem? hb)
      have hmem := ((Batch.pool?_eq_some hsound).mp hp).1
      have hcounted := Pool.counted_freeRange (hsound.pools p hmem) (hreg.counted p hmem) hfreed
      exact ht.put hafter.config (congrArg Ledger.batches hafter.ledger)
        (Batch.regular_putPool hreg hcounted)
    | region _ _ hb => exact ht.idle hb rfl
    | entry _ hb => exact ht.idle hb rfl
  | written hw =>
    obtain ⟨seg, -, -, -, hw⟩ := Allocator.write_ok h.sound h.own hw
    cases hw with
    | chunks => exact ht
    | region => exact ht
    | entry _ _ _ hb => exact ht.idle hb rfl
  | askMalloc ho => exact ht.idle (Allocator.offerMalloc_ids ho) rfl
  | denyMalloc ho => exact ht.idle (Allocator.offerMalloc_ids ho) rfl
  | @await pre c post r a shm hc ha =>
    have hc : c ∈ s.traffic.cycles := by simp [hc]
    cases r with
    | error e => exact ht.idle (Allocator.await_error (h.await_absent hc) ha).1 rfl
    | ok seg =>
      obtain ⟨_, _, -, ⟨-, hb⟩ | ⟨-, -, _, -, hstored⟩⟩ :=
        Allocator.await_ok (h.await_absent hc) (h.await_drawn hc) ha
      · exact ht.idle hb rfl
      · exact ht.idle hstored.after rfl
  | _ => exact ht

theorem tiered_create {shm₀ : Shm} (h : create config shm₀ = (.ok a, shm)) : a.Tiered config := by
  obtain ⟨first, shm₁, cache, -, hb, -, rfl⟩ := create_ok h
  obtain ⟨pools, hplan, -⟩ := Batch.create_plan hb
  refine ⟨rfl, ⟨pools, hplan⟩, List.cons_ne_nil _ _, fun b hmem => ?_⟩
  obtain rfl := List.mem_singleton.mp hmem
  exact Batch.regular_create hb

/-! ## The answers -/

/-- Batch `i` serves `n` bytes, with the live segment `s`. -/
structure Serves (a : Allocator) (i n : Nat) (s : Segment) : Prop where
  size : s.size = n
  place : ∃ bin offset, s.kind = .static i bin offset
  live : a.get s.id = .ok s

/-- What becomes of a request for `n` bytes in chunks. -/
structure StaticAnswer (config : Config) (a : Allocator) (shm : Shm) (n : Nat)
    (answer : Except Error Segment) (a' : Allocator) : Prop where
  /-- A request for nothing is refused. -/
  zero : n = 0 → answer = .error .zeroSize ∧ a'.batches = a.batches
  /-- So is one for more than eight of the largest chunks. -/
  oversized : 8 * config.geometry.maxChunkSize < n →
    answer = .error (.oversizedRequest n (8 * config.geometry.maxChunkSize)) ∧ a'.batches = a.batches
  /-- The first batch with enough free chunks in a row serves the request. -/
  served : 0 < n → n ≤ 8 * config.geometry.maxChunkSize → ∀ i b, a.batch? i = some b → b.Room n →
    (∀ j c, j < i → a.batch? j = some c → ¬c.Room n) →
    (∃ s, answer = .ok s ∧ a'.Serves i n s) ∧ a'.batches.length = a.batches.length ∧
      ∀ j, j ≠ i → a'.batch? j = a.batch? j
  /-- If there is none, and memory for one more can be had, there is one batch more. The request
  is served there if a bin is large enough, and refused otherwise. -/
  grown : 0 < n → n ≤ 8 * config.geometry.maxChunkSize → (∀ b ∈ a.batches, ¬b.Room n) →
    (∃ r, (shm.create (staticRegionName config.name a.batches.length)
      config.geometry.totalBytes).1 = .ok r) →
    (∃ fresh, fresh.id = a.batches.length ∧ a'.batches = a.batches ++ [fresh]) ∧
      ((∃ bin ∈ config.geometry.bins, n ⌈/⌉ bin.chunkSize ≤ bin.chunkCount) →
        ∃ s, answer = .ok s ∧ a'.Serves a.batches.length n s) ∧
      ((∀ bin ∈ config.geometry.bins, bin.chunkCount < n ⌈/⌉ bin.chunkSize) →
        answer = .error (.noMemory n) ∧ a'.segments = a.segments)

/-- An error of the first batch that is not for want of room is the answer. -/
theorem staticAlloc_of_refused {rest : List Batch} (hb : a.batches = b :: rest)
    (h : b.allocate a.ids n = (.error e, ids)) (he : ∀ m, e ≠ .noMemory m) (shm : Shm) :
    a.staticAlloc n shm = (.error e, { a with ids }, shm) := by
  have hask : askBatches n a.batches a.ids = (.error e, ids) := by
    rw [hb, askBatches, h]
    split
    · rename_i m _ heq
      exact absurd (Except.error.inj (Prod.mk.inj heq).1) (he m)
    · rfl
  unfold staticAlloc
  rw [serveStatic_of_refused hask]
  split
  · rename_i m _ _ heq
    exact absurd (Except.error.inj (Prod.mk.inj heq).1) (he m)
  · rfl

theorem staticAlloc_of_grown (hask : askBatches n a.batches a.ids = (.error (.noMemory n), ids))
    (hmade : Batch.create a.name a.batches.length a.config.geometry shm = (.ok b, shm₁)) :
    a.staticAlloc n shm = { a with ids, batches := a.batches ++ [b] }.serveStatic [b] n shm₁ := by
  have hgrow : grow { a with ids } shm = (.ok b, { a with ids, batches := a.batches ++ [b] }, shm₁) := by
    unfold grow
    rw [show Batch.create (name { a with ids }) a.batches.length a.config.geometry shm = _ from hmade]
  unfold staticAlloc
  rw [serveStatic_of_refused hask]
  simp only [hgrow]

section
variable (hs : SoundBatches a.batches) (hnew : a.Unissued) (ht : a.Tiered config)

include hs hnew ht

theorem serveStatic_of_room (hn : 0 < n) (hle : n ≤ 8 * config.geometry.maxChunkSize)
    (hsub : ∀ b ∈ batches, b ∈ a.batches) {i : Nat} (hb : batches[i]? = some b) (hroom : b.Room n)
    (hfull : ∀ j c, j < i → batches[j]? = some c → ¬c.Room n) (shm : Shm) :
    ∃ s a', a.serveStatic batches n shm = (.ok s, a', shm) ∧ a'.Serves b.id n s ∧
      ∃ b', b'.id = b.id ∧ a'.batches = a.batches.set b.id b' := by
  have hbatches := ht.usable hs hsub
  obtain ⟨ids₁, s, b', ids, ha, hask⟩ := askBatches_of_room hbatches hn hle hb hroom hfull a.ids
  obtain ⟨hsize, -, -, p, p', offset, hserved⟩ :=
    Batch.allocate_ok (hbatches b (List.mem_of_getElem? hb)).1 ha
  obtain ⟨-, hfresh, -⟩ := askBatches_ok (fun b hb => (hbatches b hb).1) hask
  have hid : b'.id = b.id := by rw [hserved.after, Batch.putPool]
  refine ⟨s.stamp a.name, _, serveStatic_of_ask hnew hfresh hask shm,
    ⟨hsize, ⟨p.id, offset, hserved.kind⟩, get_eq_ok.mpr ?_⟩, b', hid, by rw [hid]⟩
  show (a.segments.insert s.id (s.stamp a.name)).get? s.id = some (s.stamp a.name)
  rw [Table.get?_insert, if_pos rfl]

/-- Every request for chunks, in one state. -/
theorem staticAnswer (n : Nat) (shm : Shm) :
    StaticAnswer config a shm n (a.staticAlloc n shm).1 (a.staticAlloc n shm).2.1 := by
  obtain ⟨first, rest, hfirst⟩ := List.exists_cons_of_ne_nil ht.batches
  have hreg : first.Regular config.geometry := ht.regular first (by rw [hfirst]; exact List.mem_cons_self)
  constructor
  · rintro rfl
    rw [staticAlloc_of_refused hfirst (Batch.allocate_zero hreg.pools a.ids) nofun]
    exact ⟨rfl, rfl⟩
  · intro hgt
    rw [← hreg.sizeLimit_eq] at hgt ⊢
    rw [staticAlloc_of_refused hfirst (Batch.allocate_oversized hgt a.ids) nofun]
    exact ⟨rfl, rfl⟩
  · intro hn hle i b hb hroom hfull
    obtain ⟨s, a', hserve, hserves, b', -, hput⟩ :=
      serveStatic_of_room hs hnew ht hn hle (fun _ => id) hb hroom hfull shm
    obtain ⟨rfl, -⟩ := hs i b hb
    have hanswer : a.staticAlloc n shm = (.ok s, a', shm) := by
      unfold staticAlloc
      rw [hserve]
    rw [hanswer]
    refine ⟨⟨s, rfl, hserves⟩, ?_, fun j hj => ?_⟩
    · simp only [hput, List.length_set]
    · simp only [batch?, hput]
      exact List.getElem?_set_ne hj.symm
  · rintro hn hle hfull ⟨r, hr⟩
    obtain ⟨ids, hask⟩ := askBatches_of_full (ht.usable hs fun _ => id) hn hle hfull a.ids
    obtain ⟨pools, hplan⟩ := ht.planned
    obtain ⟨b, shm₁, hmade⟩ := Batch.create_of_region hplan hr
    have hroom := Batch.room_of_create hmade hn
    rw [← ht.configured] at hmade
    have hid : b.id = a.batches.length := (Batch.create_sound hmade).1
    have hids := askBatches_ids n a.batches a.ids
    rw [hask] at hids
    obtain ⟨hs₁, hnew₁, ht₁⟩ := tiered_added hs hnew ht hids hmade
    have hsub : ∀ c ∈ [b], c ∈ a.batches ++ [b] := fun c hc => List.mem_append_right _ hc
    rw [staticAlloc_of_grown hask hmade]
    by_cases hb : b.Room n
    · obtain ⟨s, a', hserve, hserves, b', hid', hput⟩ :=
        serveStatic_of_room hs₁ hnew₁ ht₁ hn hle hsub (i := 0) rfl hb
          (fun j _ hj => absurd hj (Nat.not_lt_zero j)) shm₁
      rw [hserve]
      refine ⟨⟨b', hid'.trans hid, ?_⟩, fun _ => ⟨s, rfl, by rwa [hid] at hserves⟩, fun hnone => ?_⟩
      · simp only [hput, hid, List.set_append_right _ _ (Nat.le_refl _), Nat.sub_self, List.set_cons_zero]
      · obtain ⟨bin, hbin, hfits⟩ := hroom.mp hb
        exact absurd hfits (Nat.not_le.mpr (hnone bin hbin))
    · obtain ⟨ids₁, hrefused⟩ : ∃ ids₁, askBatches n [b] ids = (.error (.noMemory n), ids₁) :=
        askBatches_of_full (ht₁.usable hs₁ hsub) hn hle (by simpa using hb) ids
      rw [serveStatic_of_refused hrefused]
      exact ⟨⟨b, hid, rfl⟩, fun hsome => absurd (hroom.mpr hsome) hb, fun _ => ⟨rfl, rfl⟩⟩

end

end Allocator

/-- **Requests for chunks.** In every state that a system reaches, a request for chunks is
refused at once, or served by the first batch with room, or else the static tier grows by
exactly one batch, which serves it if a bin of the geometry is large enough. -/
theorem static_tier_answers {config : Config} {a : Allocator} {shm₀ shm : Shm}
    {events : List System.Event} {s : System} (hc : Allocator.create config shm₀ = (.ok a, shm))
    (hrun : Run (System.Step fun _ _ => True) (System.start a shm) events s) (n : Nat) :
    s.allocator.StaticAnswer config s.shm n (s.allocator.staticAlloc n s.shm).1
      (s.allocator.staticAlloc n s.shm).2.1 := by
  obtain ⟨h, ht⟩ := hrun.invariant
    (P := fun _ s => Accounted s.allocator s.traffic ∧ s.allocator.Tiered config)
    ⟨accounted_create hc, Allocator.tiered_create hc⟩ fun h hs => ⟨h.1.step hs, h.2.step h.1 hs⟩
  exact Allocator.staticAnswer h.sound h.unissued ht n s.shm

/-! ## A batch that is too full

The sample system has two of the four chunks of its batch taken. Three more chunks come from
a second batch. -/

theorem System.sample_batches : System.sample.allocator.batches =
    [{ sampleBatch with pools := [⟨0, 8, 4, 0, ⟨4, #[12]⟩, 2⟩] }] := by
  decide +kernel

/-- Chunk 1 is taken, and no run of three chunks passes it by. -/
theorem System.sample_full : ∀ b ∈ System.sample.allocator.batches, ¬b.Room 24 := by
  rw [sample_batches]
  intro b hb
  obtain rfl := List.mem_singleton.mp hb
  rintro ⟨p, hp, start, hrun⟩
  obtain rfl := List.mem_singleton.mp hp
  have hlen : start + 3 ≤ 4 := hrun.le_length (by decide)
  have hfree : Bitmap.isFree ⟨4, #[12]⟩ 1 = true := hrun 1 (by omega) (show 1 < start + 3 by omega)
  exact absurd hfree (by decide)

theorem static_tier_answers_of_three_chunks : ∃ s,
    (System.sample.allocator.staticAlloc 24 System.sample.shm).1 = .ok s ∧
      (System.sample.allocator.staticAlloc 24 System.sample.shm).2.1.Serves 1 24 s := by
  obtain ⟨events, hrun⟩ : ∃ events, Run (System.Step fun _ _ => True)
      (System.start System.sampleAllocator System.sampleMemory) events System.sample :=
    System.run_requests .start [.allocate 3, .allocate 10, .allocate 100]
  have hcount : System.sample.allocator.batches.length = 1 := by
    rw [System.sample_batches]
    rfl
  have hregion : (System.sample.shm.create (staticRegionName "m" 1) 32).1 =
      .ok ⟨"m#batch1#statbin", 2, 32, some 2⟩ := by
    decide +kernel
  have h := (static_tier_answers System.sample_create hrun 24).grown (by decide) (by decide)
    System.sample_full
  rw [hcount] at h
  exact (h ⟨_, hregion⟩).2.1 ⟨⟨8, 4⟩, List.mem_singleton.mpr rfl, by decide⟩

end TierAlloc
