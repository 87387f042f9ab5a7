import TierAlloc.Proofs.Allocator.Growth

/-!
# Blame

Every check of a configuration refuses with an error of one kind, and so do the checks of
region names. An answer is `Blameless` if it is not such an error. Here is that of all
operations after an allocator was made, other than those that need a region: they answer
blamelessly in every state, whatever they are given.

**Results.**
* `Blameless.bind`: a computation is blameless if its steps are.
* `Allocator.blameless_release`, `Allocator.blameless_write`, `Allocator.blameless_read`: on
  live segments.
* `Allocator.blameless_await`: at the end of a handoff.
* `Allocator.blameless_serveStatic`: asking the batches that there are.
-/
namespace TierAlloc

/-- The answer does not blame the configuration. -/
def Blameless {α : Type} (answer : Except Error α) : Prop :=
  ∀ fault, answer ≠ .error (.invalidConfig fault)

@[simp] theorem blameless_ok {α : Type} (v : α) : Blameless (.ok v) := by
  intro fault h
  cases h

@[simp] theorem blameless_error_iff {α : Type} {e : Error} :
    Blameless (.error e : Except Error α) ↔ ∀ fault, e ≠ .invalidConfig fault := by
  simp only [Blameless, ne_eq, Except.error.injEq]

theorem Blameless.bind {α β : Type} {x : Except Error α} {f : α → Except Error β} (hx : Blameless x)
    (hf : ∀ v, Blameless (f v)) : Blameless (x >>= f) := by
  cases x with
  | error e =>
    rintro fault h
    exact hx fault (congrArg Except.error (Except.error.inj h))
  | ok v => exact hf v

/-- An error that is passed on as the answer of another call. -/
theorem Blameless.passed {α β σ : Type} {x : Except Error α × σ} {e : Error} {after : σ} (hx : Blameless x.1)
    (h : x = (.error e, after)) : Blameless (.error e : Except Error β) := by
  intro fault he
  rw [h] at hx
  exact hx fault (congrArg Except.error (Except.error.inj he))

theorem passed_iff {α β : Type} {e e' : Error} :
    (.error e : Except Error α) = .error e' ↔ (.error e : Except Error β) = .error e' := by
  rw [Except.error.injEq, Except.error.injEq]

/-! ## Tiers -/

theorem Shm.blameless_read (shm : Shm) (r : Region) (offset length : Nat) :
    Blameless (shm.read r offset length) := by
  unfold read
  split <;> simp

theorem Shm.blameless_write (shm : Shm) (r : Region) (offset : Nat) (data : Bytes) :
    Blameless (shm.write r offset data) := by
  unfold write
  split <;> simp

theorem Word.blameless_add (a b : Nat) : Blameless (Word.add a b) := by
  unfold Word.add
  split <;> simp

theorem Word.blameless_mul (a b : Nat) : Blameless (Word.mul a b) := by
  unfold Word.mul
  split <;> simp

theorem Bitmap.blameless_stop (b : Bitmap) (start run : Nat) : Blameless (b.stop start run) := by
  unfold stop
  split
  · simp
  · exact Word.blameless_add _ _

theorem Bitmap.blameless_mark (f : Bitmap → Nat → Bitmap) (b : Bitmap) (start run : Nat) :
    Blameless (b.mark f start run) := by
  refine (b.blameless_stop start run).bind fun _ => ?_
  split <;> simp

theorem Pool.blameless_reserve (p : Pool) (n : Nat) : Blameless (p.reserve n) := by
  unfold reserve
  split
  · simp
  simp only
  split
  · simp
  split
  · simp
  · exact (Bitmap.blameless_mark _ _ _ _).bind fun _ => blameless_ok _

theorem Pool.blameless_serve (p : Pool) (id n : Nat) : Blameless (p.serve id n) := by
  refine (p.blameless_reserve n).bind fun served => ?_
  refine Blameless.bind ?_ fun _ => blameless_ok _
  exact (Word.blameless_mul _ _).bind fun _ => Word.blameless_add _ _

theorem Pool.blameless_freeSegment (p : Pool) (s : Segment) : Blameless (p.freeSegment s) := by
  have hrange : ∀ offset size, Blameless (p.freeRange offset size) := by
    intro offset size
    unfold freeRange
    simp only
    split
    · simp
    · refine ((Bitmap.blameless_stop _ _ _).bind fun _ => blameless_ok _).bind fun taken => ?_
      split
      · simp
      · exact (Bitmap.blameless_mark _ _ _ _).bind fun _ => blameless_ok _
  unfold freeSegment
  split
  · split
    · simp
    · exact hrange _ _
  · simp

namespace Batch

theorem blameless_allocate (b : Batch) (ids : Counter) (n : Nat) : Blameless (b.allocate ids n).1 := by
  have hask : ∀ pools ids, Blameless (askPools n pools ids).1 := by
    intro pools
    induction pools with
    | nil => simp [askPools]
    | cons p rest ih =>
      intro ids
      rw [askPools]
      split
      · exact ih _
      · exact p.blameless_serve _ n
  unfold allocate
  split
  · simp
  split
  · rename_i e ids₁ h
    exact (hask _ _).passed h
  · simp

theorem blameless_free (b : Batch) (s : Segment) : Blameless (b.free s) := by
  unfold free
  refine Blameless.bind ?_ fun bin => ?_
  · unfold locate
    split
    · split <;> simp
    · simp
  · split
    · simp
    · exact (Pool.blameless_freeSegment _ s).bind fun _ => blameless_ok _

end Batch

theorem Ephemeral.blameless_free (m : Ephemeral) (s : Segment) (shm : Shm) : Blameless (m.free s shm) := by
  unfold free
  split
  · simp
  · split <;> simp

theorem BufferPool.blameless_acquire (p : BufferPool) (n : Nat) : Blameless (p.acquire n).1 := by
  intro fault h
  cases acquire_error (Prod.ext h rfl)

namespace Cache

theorem blameless_insert (c : Cache) (id : Nat) (b : Buffer) : Blameless (c.insert id b).1 := by
  unfold insert
  split <;> simp

theorem blameless_place (c : Cache) (id size : Nat) (content : Bytes) : Blameless (c.place id size content).1 := by
  unfold place
  split
  · simp
  split
  · rename_i h
    exact (c.heap.blameless_acquire size).passed h
  simp only
  split
  · rename_i h
    exact (blameless_insert _ _ _).passed h
  · simp

theorem blameless_store (c : Cache) (ids : Counter) (data : Bytes) : Blameless (c.store ids data).1 := by
  unfold store
  split
  · simp
  · exact c.blameless_place _ _ _

theorem blameless_setWith (c : Cache) (id size : Nat) (content : Bytes) :
    Blameless (c.setWith id size content).1 := by
  unfold setWith replaceBy
  split
  · simp
  split
  · simp
  split
  · rename_i h
    exact (c.heap.blameless_acquire size).passed h
  · unfold swap
    simp only
    split <;> simp

theorem blameless_set (c : Cache) (id : Nat) (data : Bytes) : Blameless (c.set id data).1 := by
  unfold set
  split
  · simp
  · exact c.blameless_setWith _ _ _

theorem blameless_retrieve (c : Cache) (id : Nat) : Blameless (c.retrieve id) := by
  unfold retrieve
  split <;> simp

theorem blameless_modify (c : Cache) (id offset : Nat) (data : Bytes) : Blameless (c.modify id offset data) := by
  unfold modify
  split <;> simp

theorem blameless_freeSegment (c : Cache) (s : Segment) : Blameless (c.freeSegment s) := by
  unfold freeSegment free
  split
  · simp
  · split <;> simp

theorem blameless_offerMalloc (c : Cache) (ids : Counter) (n : Nat) : Blameless (c.offerMalloc ids n).1 := by
  unfold offerMalloc
  split
  · simp
  · split
    · simp
    · split <;> simp

theorem blameless_offerRetrieve (c : Cache) (id : Nat) : Blameless (c.offerRetrieve id) := by
  unfold offerRetrieve
  split
  · simp
  · split
    · simp
    · split <;> simp

end Cache

theorem Offer.blameless_place {o : Offer} {shm shm' : Shm} {answer : Except Error Pending}
    (h : o.place? shm = some (answer, shm')) : Blameless answer := by
  unfold place? at h
  split at h
  · cases h
  split at h
  · rename_i area shm₁ _ e hl
    rw [← (Prod.mk.inj (Option.some.inj h)).1]
    unfold load at hl
    split at hl
    · cases hl
    · intro fault he
      rw [Except.error.inj he] at hl
      exact Shm.blameless_write _ _ _ _ fault hl
  · rw [← (Prod.mk.inj (Option.some.inj h)).1]
    simp

theorem Pending.blameless_take (p : Pending) (c : Cache) (shm : Shm) : Blameless (p.take c shm).1 := by
  unfold take
  split
  · simp
  simp only
  split
  · rename_i h
    exact (c.heap.blameless_acquire _).passed h
  split
  · rename_i e h
    intro fault hf
    rw [Except.error.inj hf] at h
    exact shm.blameless_read _ _ _ fault h
  split
  · rename_i h
    exact (Cache.blameless_insert _ _ _).passed h
  · simp

theorem Pending.blameless_wait {p : Pending} {c c' : Cache} {shm shm' : Shm} {answer : Except Error Segment}
    (h : p.wait? c shm = some (answer, c', shm')) : Blameless answer := by
  rcases settle_cases h with ⟨shm₁, ht⟩ | ⟨rfl, -⟩
  · have := p.blameless_take c shm₁
    rwa [ht] at this
  · simp

/-! ## Operations on live segments -/

namespace Allocator

theorem blameless_get (a : Allocator) (id : Nat) : Blameless (a.get id) := by
  unfold get
  split <;> simp

theorem blameless_getIn (a : Allocator) (tier : Tier) (id : Nat) : Blameless (a.getIn tier id) := by
  unfold getIn
  refine (a.blameless_get id).bind fun s => ?_
  split
  · exact blameless_ok s
  · simp

theorem blameless_freeInTier (a : Allocator) (s : Segment) (shm : Shm) : Blameless (a.freeInTier s shm) := by
  unfold freeInTier
  split
  · split
    · simp
    · exact (Batch.blameless_free _ s).bind fun _ => blameless_ok _
  · exact (a.ephemeral.blameless_free s shm).bind fun _ => blameless_ok _
  · exact (a.cache.blameless_freeSegment s).bind fun _ => blameless_ok _

theorem blameless_release (a : Allocator) (id : Nat) (expected : Option Tier) (shm : Shm) :
    Blameless (a.release id expected shm) := by
  unfold release
  have hfree : ∀ s, Blameless (a.freeInTier s shm) := fun s => a.blameless_freeInTier s shm
  split
  · exact (a.blameless_getIn _ id).bind fun s => (hfree s).bind fun _ => blameless_ok _
  · exact (a.blameless_get id).bind fun s => (hfree s).bind fun _ => blameless_ok _

theorem blameless_write (a : Allocator) (id offset : Nat) (data : Bytes) (shm : Shm) :
    Blameless (a.write id offset data shm) := by
  have hcached : Blameless (a.writeCached id offset data) := by
    unfold writeCached
    split
    · simp
    split
    · exact (a.cache.blameless_modify id offset data).bind fun _ => blameless_ok _
    · simp
  unfold write
  refine (a.blameless_get id).bind fun s => ?_
  split
  · simp
  split
  · split
    · simp
    · exact (shm.blameless_write _ _ data).bind fun _ => blameless_ok _
  · split
    · simp
    · exact (shm.blameless_write _ _ data).bind fun _ => blameless_ok _
  · exact hcached.bind fun _ => blameless_ok _

theorem blameless_read (a : Allocator) (id : Nat) (shm : Shm) : Blameless (a.read id shm) := by
  unfold read
  refine (a.blameless_get id).bind fun s => ?_
  split
  · split
    · simp
    · exact shm.blameless_read _ _ _
  · split
    · simp
    · exact shm.blameless_read _ _ _
  · exact a.cache.blameless_retrieve id

theorem blameless_register (a : Allocator) (s : Segment) (shm : Shm) : Blameless (a.register s shm).1 := by
  unfold register
  simp only
  split
  · split <;> simp
  · simp

theorem blameless_replaceEntry (a : Allocator) (id size : Nat) {replace : Cache → Except Error Unit × Cache}
    (h : Blameless (replace a.cache).1) : Blameless (a.replaceEntry id size replace).1 := by
  unfold replaceEntry
  split
  · rename_i e he
    intro fault hf
    rw [Except.error.inj hf] at he
    exact a.blameless_getIn .cache id fault he
  · split
    · rename_i hr
      exact h.passed hr
    · simp

theorem blameless_await {a a' : Allocator} {p : Pending} {shm shm' : Shm} {answer : Except Error Segment}
    (h : a.await? p shm = some (answer, a', shm')) : Blameless answer := by
  unfold await? at h
  split at h
  · cases h
  · rename_i e cache shm₁ hw
    rw [← (Prod.mk.inj (Option.some.inj h)).1]
    exact Pending.blameless_wait hw
  · split at h
    · have hanswer := congrArg Prod.fst (Option.some.inj h)
      simp only at hanswer
      rw [← hanswer]
      exact blameless_register _ _ _
    · rw [← (Prod.mk.inj (Option.some.inj h)).1]
      simp

theorem blameless_cached (a : Allocator) {made : Except Error Segment × Cache × Counter} (shm : Shm)
    (h : Blameless made.1) : Blameless (a.registerCached made shm).1 := by
  unfold registerCached
  split
  · exact h
  · exact blameless_register _ _ _

theorem blameless_serveStatic (a : Allocator) (batches : List Batch) (n : Nat) (shm : Shm) :
    Blameless (a.serveStatic batches n shm).1 := by
  have hask : ∀ ids, Blameless (askBatches n batches ids).1 := by
    induction batches with
    | nil => simp [askBatches]
    | cons b rest ih =>
      intro ids
      rw [askBatches]
      split
      · exact ih _
      · exact b.blameless_allocate ids n
  unfold serveStatic
  split
  · rename_i h
    exact (hask _).passed h
  · exact blameless_register _ _ _

end Allocator

end TierAlloc
