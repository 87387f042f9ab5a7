import TierAlloc.Proofs.Run
import TierAlloc.Proofs.Memory.Heap

/-!
# Lending buffers

A heap lends buffers and takes them back, over and over, with whatever their holders wrote
into them. New memory is asked from a system that may refuse at any time, and that provides
exactly the capacity it is asked for. Buffers may also be given back that were never lent;
they disturb the count, but not the buffers that are kept for reuse.

**Results.**
* `BufferPool.acquireFrom_answer`: the ways a request for a buffer can go.
* `BufferPool.Shelved.acquireFrom`, `BufferPool.Shelved.recycle`: the idle buffers stay in
  their places, whatever comes back.
* `BufferPool.Shelved.returned`: a buffer that was lent and comes back is counted no more.
* `Lending.Balanced.step`: the count is the sum of the capacities that are lent.
* `Lending.lending_exact`: all of it, in every state that a new heap reaches.
-/
namespace TierAlloc

namespace BufferPool

/-! ## Asking a system for memory -/

/-- `acquire`, with what the system provides. -/
def acquireFrom (provides : Nat → Bool) (p : BufferPool) (n : Nat) : Except Error Buffer × BufferPool :=
  match class? n with
  | none => (.error (.noMemory n), p)
  | some size =>
    match p.reserve? size with
    | none => (.error (.noMemory n), p)
    | some inUse =>
      match p.takeIdle? size with
      | some (b, q) =>
        (.ok { b with bytes := .zeros n }, { q with inUse, hits := p.hits + 1 })
      | none =>
        let q := { p with misses := p.misses + 1 }
        if provides size then (.ok { capacity := size, bytes := .zeros n }, { q with inUse })
        else (.error (.noMemory n), q)

variable {p q : BufferPool} {provides : Nat → Bool} {n size total i : Nat} {b : Buffer}

/-- A system that provides all that it ever can. -/
theorem acquire_eq (p : BufferPool) (n : Nat) : p.acquire n = p.acquireFrom (· < bufferSizeLimit) n := by
  unfold acquire acquireFrom
  cases class? n with
  | none => rfl
  | some size =>
    dsimp only
    cases p.reserve? size with
    | none => rfl
    | some inUse =>
      dsimp only
      cases p.takeIdle? size with
      | some taken => rfl
      | none => simp only [decide_eq_true_eq, ← Nat.not_le, ite_not]

/-- The answers to a request for `n` bytes, each with the pool after it. -/
inductive AcquireAnswer (provides : Nat → Bool) (p : BufferPool) (n : Nat) :
    Except Error Buffer × BufferPool → Prop
  | unclassed (h : wordRange ≤ classOf n) : AcquireAnswer provides p n (.error (.noMemory n), p)
  | full (h : p.reserve? (classOf n) = none) : AcquireAnswer provides p n (.error (.noMemory n), p)
  | reused {total : Nat} {b : Buffer} {rest : List Buffer} (hr : p.reserve? (classOf n) = some total)
      (hpooled : classOf n ≤ maxPooledClass)
      (hidle : p.idle.getD (classIndex (classOf n)) [] = b :: rest) :
      AcquireAnswer provides p n (.ok ⟨b.capacity, .zeros n⟩,
        { p with idle := p.idle.set (classIndex (classOf n)) rest, inUse := total, hits := p.hits + 1 })
  | fresh {total : Nat} (hr : p.reserve? (classOf n) = some total) (hidle : p.takeIdle? (classOf n) = none)
      (hprovided : provides (classOf n) = true) :
      AcquireAnswer provides p n (.ok ⟨classOf n, .zeros n⟩,
        { p with inUse := total, misses := p.misses + 1 })
  | unprovided {total : Nat} (hr : p.reserve? (classOf n) = some total) (hidle : p.takeIdle? (classOf n) = none)
      (hrefused : provides (classOf n) = false) :
      AcquireAnswer provides p n (.error (.noMemory n), { p with misses := p.misses + 1 })

theorem acquireFrom_answer (provides : Nat → Bool) (p : BufferPool) (n : Nat) :
    AcquireAnswer provides p n (p.acquireFrom provides n) := by
  unfold acquireFrom class?
  split
  · rename_i hclass
    split at hclass
    · cases hclass
    · exact .unclassed (Nat.le_of_not_lt ‹_›)
  rename_i size hclass
  split at hclass
  swap
  · cases hclass
  obtain rfl := Option.some.inj hclass
  split
  · exact .full ‹_›
  rename_i total hr
  split
  · rename_i b q ht
    obtain ⟨hpooled, rest, hidle, rfl⟩ := takeIdle_ok ht
    exact .reused hr hpooled hidle
  · rename_i ht
    simp only
    split
    · rename_i hprovided
      exact .fresh hr ht hprovided
    · rename_i hrefused
      exact .unprovided hr ht (Bool.eq_false_iff.mpr hrefused)

/-! ## Refusals -/

/-- The reasons to refuse a request for `n` bytes. -/
inductive Refuses (p : BufferPool) (provides : Nat → Bool) (n : Nat) : Prop
  | unclassed (h : wordRange ≤ sizeClass n)
  | overflow (h : wordRange ≤ p.inUse + sizeClass n)
  | overBudget {capacity : Nat} (hc : p.capacity = some capacity) (h : capacity < p.inUse + sizeClass n)
  /-- There is no idle buffer of the class, and the system does not provide one. -/
  | unprovided (hidle : maxPooledClass < sizeClass n ∨ p.idle.getD (classIndex (sizeClass n)) [] = [])
      (h : provides (sizeClass n) = false)

theorem reserve_none : p.reserve? size = none ↔
    wordRange ≤ p.inUse + size ∨ ∃ capacity, p.capacity = some capacity ∧ capacity < p.inUse + size := by
  unfold reserve?
  split
  · exact ⟨fun _ => Or.inl ‹_›, fun _ => rfl⟩
  · cases hc : p.capacity with
    | none => simp_all
    | some capacity =>
      split <;> simp_all

theorem takeIdle_none : p.takeIdle? size = none ↔
    maxPooledClass < size ∨ p.idle.getD (classIndex size) [] = [] := by
  unfold takeIdle?
  split
  · exact ⟨fun _ => Or.inl ‹_›, fun _ => rfl⟩
  · split <;> simp_all

/-- Of a request that can be reserved, only the system can be the reason to refuse it. -/
theorem Refuses.unprovided_of_reserve (h : p.Refuses provides n) (hr : p.reserve? (classOf n) = some total) :
    p.takeIdle? (classOf n) = none ∧ provides (classOf n) = false := by
  obtain ⟨rfl, hlt, hwithin⟩ := reserve_ok hr
  rw [classOf_eq] at hlt hwithin ⊢
  cases h with
  | unclassed h => omega
  | overflow h => omega
  | overBudget hc h =>
    have := hwithin _ hc
    omega
  | unprovided hidle h => exact ⟨takeIdle_none.mpr hidle, h⟩

/-- A request is refused for one of these reasons, and only then. -/
theorem refused_iff : (∃ e q, p.acquireFrom provides n = (.error e, q)) ↔ p.Refuses provides n := by
  have hanswer := acquireFrom_answer provides p n
  generalize p.acquireFrom provides n = answer at hanswer ⊢
  constructor
  · rintro ⟨e, q, rfl⟩
    cases hanswer with
    | unclassed h =>
      rw [classOf_eq] at h
      exact .unclassed h
    | full h =>
      rw [classOf_eq] at h
      rcases reserve_none.mp h with h | ⟨capacity, hc, h⟩
      · exact .overflow h
      · exact .overBudget hc h
    | unprovided hr hidle hrefused =>
      rw [classOf_eq] at hidle hrefused
      exact .unprovided (takeIdle_none.mp hidle) hrefused
  · intro h
    cases hanswer with
    | reused hr hpooled hidle =>
      have hnone := takeIdle_none.mp (h.unprovided_of_reserve hr).1
      rw [hidle] at hnone
      rcases hnone with hlt | hnil
      · omega
      · cases hnil
    | fresh hr hidle hprovided =>
      rw [(h.unprovided_of_reserve hr).2] at hprovided
      cases hprovided
    | _ => exact ⟨_, _, rfl⟩

/-- A refusal changes neither what is lent nor what is idle. -/
theorem acquireFrom_error {e : Error} (h : p.acquireFrom provides n = (.error e, q)) :
    e = .noMemory n ∧ q.inUse = p.inUse ∧ q.idle = p.idle ∧ q.capacity = p.capacity := by
  have hanswer := acquireFrom_answer provides p n
  rw [h] at hanswer
  cases hanswer <;> exact ⟨rfl, rfl, rfl, rfl⟩

/-! ## The idle buffers -/

/-- The idle buffers are in their places, and not too many. -/
structure Shelved (p : BufferPool) : Prop where
  places : p.idle.length = pooledClasses
  few : ∀ i, (p.idle.getD i []).length ≤ buffersPerClass
  classed : ∀ i, ∀ b ∈ p.idle.getD i [], b.capacity = minBufferClass * 2 ^ i

/-- The place of a class that is kept exists, and is that class's. -/
theorem classIndex_lt (h : classOf n ≤ maxPooledClass) : classIndex (classOf n) < pooledClasses := by
  have hplace := classIndex_classOf n
  by_contra hge
  have hpow := Nat.pow_le_pow_right Nat.zero_lt_two (Nat.le_of_not_lt hge)
  simp only [minBufferClass, maxPooledClass, pooledClasses] at *
  omega

/-- A buffer that is kept has a class for its capacity. -/
theorem classOf_returned {capacity : Nat} (hc : (class? capacity).getD capacity = capacity)
    (hpooled : capacity ≤ maxPooledClass) : classOf capacity = capacity := by
  have hclass : classOf capacity < wordRange := by
    have hclog : Nat.clog 2 (max capacity 16) ≤ 20 := by
      rw [Nat.clog_le_iff_le_pow Nat.one_lt_two]
      simp only [maxPooledClass] at hpooled
      omega
    have hpow := Nat.pow_le_pow_right Nat.zero_lt_two hclog
    rw [classOf_eq_pow, wordRange]
    omega
  rwa [class?, if_pos hclass] at hc

theorem Shelved.setIdle (h : p.Shelved) {bucket : List Buffer} (hlen : bucket.length ≤ buffersPerClass)
    (hb : ∀ b ∈ bucket, b.capacity = minBufferClass * 2 ^ i) :
    Shelved { p with idle := p.idle.set i bucket } := by
  have hbucket : ∀ j, ((p.idle.set i bucket).getD j [] = bucket ∧ i = j) ∨
      (p.idle.set i bucket).getD j [] = p.idle.getD j [] := by
    intro j
    simp only [List.getD_eq_getElem?_getD, List.getElem?_set]
    split
    · split
      · exact Or.inl ⟨rfl, ‹_›⟩
      · rename_i he hlt
        subst he
        rw [List.getElem?_eq_none (Nat.le_of_not_lt hlt)]
        exact Or.inr rfl
    · exact Or.inr rfl
  refine ⟨(List.length_set ..).trans h.places, fun j => ?_, fun j b hj => ?_⟩
  · show ((p.idle.set i bucket).getD j []).length ≤ buffersPerClass
    rcases hbucket j with ⟨he, -⟩ | he
    · rwa [he]
    · rw [he]
      exact h.few j
  · rcases hbucket j with ⟨he, rfl⟩ | he
    · exact hb b (he ▸ hj)
    · exact h.classed j b (he ▸ hj)

theorem shelved_create (capacity : Option Nat) : (create capacity).Shelved := by
  have hsound := sound_create capacity
  refine ⟨hsound.places, fun i => ?_, hsound.classed⟩
  rw [create, List.getD_eq_getElem?_getD, List.getElem?_replicate]
  split <;> exact Nat.zero_le _

theorem Shelved.acquireFrom {answer : Except Error Buffer} (h : p.Shelved)
    (ha : p.acquireFrom provides n = (answer, q)) : q.Shelved := by
  have hanswer := acquireFrom_answer provides p n
  rw [ha] at hanswer
  cases hanswer with
  | reused hr hpooled hidle =>
    have hfew := h.few (classIndex (classOf n))
    have hclassed := h.classed (classIndex (classOf n))
    rw [hidle] at hfew hclassed
    have hset := h.setIdle (Nat.le_of_succ_le hfew) fun b hb => hclassed b (List.mem_cons_of_mem _ hb)
    exact ⟨hset.places, hset.few, hset.classed⟩
  | _ => exact ⟨h.places, h.few, h.classed⟩

theorem Shelved.acquire {answer : Except Error Buffer} (h : p.Shelved) (ha : p.acquire n = (answer, q)) :
    q.Shelved := by
  rw [acquire_eq] at ha
  exact h.acquireFrom ha

/-- Whatever buffer comes back, wherever it is from. -/
theorem Shelved.recycle (h : p.Shelved) (b : Buffer) : (p.recycle b).Shelved := by
  unfold BufferPool.recycle
  simp only
  split
  · exact ⟨h.places, h.few, h.classed⟩
  rename_i hkept
  obtain ⟨hsize, hpooled⟩ := not_or.mp hkept
  have hsize : (class? b.capacity).getD b.capacity = b.capacity := (not_not.mp hsize).symm
  rw [hsize] at hpooled ⊢
  have hclass := classOf_returned hsize (Nat.le_of_not_lt hpooled)
  split
  · rename_i hroom
    have hmembers : ∀ b' ∈ { b with bytes := [] } :: p.idle.getD (classIndex b.capacity) [],
        b'.capacity = minBufferClass * 2 ^ classIndex b.capacity := by
      rw [List.forall_mem_cons]
      refine ⟨?_, h.classed _⟩
      rw [← hclass, classIndex_classOf]
    have hset := h.setIdle (by exact hroom) hmembers
    exact ⟨hset.places, hset.few, hset.classed⟩
  · exact ⟨h.places, h.few, h.classed⟩

/-- A buffer that is lent has just its class and zeros, and is counted. -/
theorem Shelved.lent (h : p.Shelved) (ha : p.acquireFrom provides n = (.ok b, q)) :
    b = ⟨sizeClass n, .zeros n⟩ ∧ p.reserve? (classOf n) = some q.inUse ∧ q.capacity = p.capacity := by
  have hanswer := acquireFrom_answer provides p n
  rw [ha] at hanswer
  rw [← classOf_eq]
  cases hanswer with
  | reused hr hpooled hidle =>
    have hclassed := h.classed (classIndex (classOf n))
    rw [hidle, classIndex_classOf] at hclassed
    rw [hclassed _ List.mem_cons_self]
    exact ⟨rfl, hr, rfl⟩
  | fresh hr => exact ⟨rfl, hr, rfl⟩

/-- A buffer that comes back at once, with any bytes, takes off what it was charged. -/
theorem Shelved.returned (h : p.Shelved) (ha : p.acquireFrom provides n = (.ok b, q)) (bytes : Bytes) :
    (q.recycle ⟨b.capacity, bytes⟩).inUse = p.inUse := by
  obtain ⟨rfl, hreserved, -⟩ := h.lent ha
  obtain ⟨htotal, hlt, -⟩ := reserve_ok hreserved
  rw [classOf_eq] at htotal
  have hclass : (class? (sizeClass n)).getD (sizeClass n) = sizeClass n := by
    rw [class?, ← classOf_eq, classOf_classOf]
    split <;> rfl
  have hinUse : (q.recycle ⟨sizeClass n, bytes⟩).inUse =
      (q.inUse + (wordRange - sizeClass n % wordRange)) % wordRange := by
    simp only [BufferPool.recycle, hclass]
    repeat' split
    all_goals rfl
  have hless : q.inUse + (wordRange - sizeClass n) = p.inUse + wordRange := by omega
  rw [hinUse, Nat.mod_eq_of_lt (show sizeClass n < wordRange by omega), hless, Nat.add_mod_right,
    Nat.mod_eq_of_lt (by omega)]

/-- What a heap can be relied on for, whatever was given back to it. -/
structure Dependable (p : BufferPool) : Prop where
  shelved : p.Shelved
  /-- The place of the class that a request asks for. -/
  asked : ∀ n, sizeClass n ≤ maxPooledClass →
    classIndex (sizeClass n) < p.idle.length ∧ minBufferClass * 2 ^ classIndex (sizeClass n) = sizeClass n
  /-- The place of a buffer that comes back and is kept. -/
  returned : ∀ capacity, (class? capacity).getD capacity = capacity → capacity ≤ maxPooledClass →
    classIndex capacity < p.idle.length ∧ minBufferClass * 2 ^ classIndex capacity = capacity
  lent : ∀ provides n b q, p.acquireFrom provides n = (.ok b, q) → b = ⟨sizeClass n, .zeros n⟩
  refused : ∀ provides n, (∃ e q, p.acquireFrom provides n = (.error e, q)) ↔ p.Refuses provides n
  unchanged : ∀ provides n e q, p.acquireFrom provides n = (.error e, q) →
    e = .noMemory n ∧ q.inUse = p.inUse ∧ q.idle = p.idle ∧ q.capacity = p.capacity
  /-- Its own requests are those to a system that provides all that it ever can. -/
  own : ∀ n, p.acquire n = p.acquireFrom (· < bufferSizeLimit) n

theorem Shelved.dependable (h : p.Shelved) : p.Dependable := by
  have hplace : ∀ n, classOf n ≤ maxPooledClass →
      classIndex (classOf n) < p.idle.length ∧ minBufferClass * 2 ^ classIndex (classOf n) = classOf n :=
    fun n hpooled => ⟨h.places ▸ classIndex_lt hpooled, classIndex_classOf n⟩
  refine ⟨h, fun n => ?_, fun capacity hc hpooled => ?_, fun _ _ _ _ ha => (h.lent ha).1,
    fun _ _ => refused_iff, fun _ _ _ _ ha => acquireFrom_error ha, acquire_eq p⟩
  · rw [← classOf_eq]
    exact hplace n
  · have hclass := classOf_returned hc hpooled
    have := hplace capacity (by rwa [hclass])
    rwa [hclass] at this

end BufferPool

/-! ## Lending -/

/-- A heap with the buffers that it has lent and not got back. -/
structure Lending where
  pool : BufferPool
  out : List Buffer

namespace Lending

open BufferPool

inductive Event where
  | acquire (n : Nat) (answer : Except Error Buffer)
  | recycle (b : Buffer)
  /-- A buffer is given back that was not lent. -/
  | foreign (b : Buffer)

/-- A buffer that was lent comes back with any bytes, and in any order. -/
inductive Step : Lending → Event → Lending → Prop
  | lent {p q out provides n b} (h : p.acquireFrom provides n = (.ok b, q)) :
      Step ⟨p, out⟩ (.acquire n (.ok b)) ⟨q, b :: out⟩
  | refused {p q out provides n e} (h : p.acquireFrom provides n = (.error e, q)) :
      Step ⟨p, out⟩ (.acquire n (.error e)) ⟨q, out⟩
  | returned {p : BufferPool} {before b after bytes} :
      Step ⟨p, before ++ b :: after⟩ (.recycle ⟨b.capacity, bytes⟩)
        ⟨p.recycle ⟨b.capacity, bytes⟩, before ++ after⟩
  | foreign {p : BufferPool} {out b} : Step ⟨p, out⟩ (.foreign b) ⟨p.recycle b, out⟩

/-- The sum of the capacities that are lent. -/
def total (s : Lending) : Nat := (s.out.map Buffer.capacity).sum

/-- The count is exact, it fits, and every buffer that is lent is of a class. -/
structure Balanced (capacity : Option Nat) (s : Lending) : Prop where
  limit : s.pool.capacity = capacity
  counted : s.pool.inUse = s.total
  bounded : s.pool.inUse < wordRange
  within : ∀ most, capacity = some most → s.pool.inUse ≤ most
  classed : ∀ b ∈ s.out, ∃ n, b.capacity = classOf n

variable {s s' : Lending} {e : Event} {events : List Event} {capacity : Option Nat}

theorem shelved_step (h : s.pool.Shelved) (hs : Step s e s') : s'.pool.Shelved := by
  cases hs with
  | lent ha | refused ha => exact h.acquireFrom ha
  | returned | foreign => exact h.recycle _

theorem balanced_create (capacity : Option Nat) : Balanced capacity ⟨create capacity, []⟩ :=
  ⟨rfl, rfl, show 0 < wordRange by decide, fun _ _ => Nat.zero_le _, List.forall_mem_nil _⟩

theorem Balanced.step (h : s.Balanced capacity) (hp : s.pool.Shelved) (hs : Step s e s')
    (hown : ∀ b, e ≠ .foreign b) : s'.Balanced capacity := by
  cases hs with
  | @lent p q out provides n b ha =>
    obtain ⟨rfl, hr, hlimit⟩ := hp.lent ha
    obtain ⟨htotal, hlt, hwithin⟩ := reserve_ok hr
    refine ⟨hlimit.trans h.limit, ?_, hlt, fun most hm => hwithin most (h.limit.trans hm), ?_⟩
    · rw [total, List.map_cons, List.sum_cons, htotal, h.counted, total, classOf_eq, Nat.add_comm]
    · rw [List.forall_mem_cons]
      exact ⟨⟨n, (classOf_eq n).symm⟩, h.classed⟩
  | refused ha =>
    obtain ⟨-, hsame, -, hlimit⟩ := acquireFrom_error ha
    refine ⟨hlimit.trans h.limit, hsame.trans h.counted, ?_, fun most hm => ?_, h.classed⟩
    · rw [hsame]
      exact h.bounded
    · rw [hsame]
      exact h.within most hm
  | @returned p before b after bytes =>
    have hsum : p.inUse = b.capacity + Lending.total ⟨p, before ++ after⟩ := by
      rw [h.counted]
      simp only [total, List.map_append, List.map_cons, List.sum_append, List.sum_cons]
      omega
    obtain ⟨n, hclass⟩ := h.classed b (List.mem_append_right _ List.mem_cons_self)
    have hsound : p.Sound := ⟨hp.places, hp.classed, h.bounded, fun most hm => h.within most (h.limit.symm.trans hm)⟩
    obtain ⟨hsound', hless, hlimit⟩ := recycle_ok (b := ⟨b.capacity, bytes⟩) hsound hclass (by simp only; omega)
    refine ⟨hlimit.trans h.limit, ?_, hsound'.bounded, fun most hm => ?_, fun b' hb' => ?_⟩
    · simp only at hless
      show (p.recycle ⟨b.capacity, bytes⟩).inUse = Lending.total ⟨p, before ++ after⟩
      omega
    · exact hsound'.within most ((hlimit.trans h.limit).trans hm)
    · refine h.classed b' ?_
      rcases List.mem_append.mp hb' with hb' | hb'
      · exact List.mem_append_left _ hb'
      · exact List.mem_append_right _ (List.mem_cons_of_mem _ hb')
  | foreign => exact absurd rfl (hown _)

/-- **Lending.** In every state that a new heap reaches, whatever comes back to it, the idle buffers
are in their places, a buffer that is lent has just its class and zeros, and a request is refused
for the known reasons only. As long as only what was lent comes back, what is counted is what
is lent. -/
theorem lending_exact (hrun : Run Step ⟨create capacity, []⟩ events s) :
    s.pool.Dependable ∧ ((∀ b, .foreign b ∉ events) → s.Balanced capacity) := by
  have h := hrun.invariant
    (P := fun events s => s.pool.Shelved ∧ ((∀ b, .foreign b ∉ events) → s.Balanced capacity))
    ⟨shelved_create capacity, fun _ => balanced_create capacity⟩ fun {events t e t'} h hs => by
      refine ⟨shelved_step h.1 hs, fun hown => ?_⟩
      refine (h.2 fun b hb => hown b (List.mem_append_left _ hb)).step h.1 hs fun b he => hown b ?_
      rw [he]
      exact List.mem_append_right _ List.mem_cons_self
  exact ⟨h.1.dependable, h.2⟩

/-- A heap of 48 bytes with nothing idle, of which some are lent. -/
def sampleHeap (inUse hits misses : Nat) : BufferPool :=
  ⟨some 48, List.replicate pooledClasses [], inUse, hits, misses⟩

/-- Sixteen bytes are lent, come back written to, and are lent again, with 32 more. -/
theorem lending_exact_of_reuse :
    (sampleHeap 48 1 2).acquire 1 = (.error (.noMemory 1), sampleHeap 48 1 2) ∧
      (sampleHeap 48 1 2).Dependable ∧
      Balanced (some 48) ⟨sampleHeap 48 1 2, [⟨32, .zeros 20⟩, ⟨16, .zeros 12⟩]⟩ := by
  have hfirst : (create (some 48)).acquireFrom (fun _ => true) 10 = (.ok ⟨16, .zeros 10⟩, sampleHeap 16 0 1) := by
    decide +kernel
  have hagain : ((sampleHeap 16 0 1).recycle ⟨16, [7, 7]⟩).acquireFrom (fun _ => false) 12 =
      (.ok ⟨16, .zeros 12⟩, sampleHeap 16 1 1) := by
    decide +kernel
  have hmore : (sampleHeap 16 1 1).acquireFrom (fun _ => true) 20 = (.ok ⟨32, .zeros 20⟩, sampleHeap 48 1 2) := by
    decide +kernel
  have hrun := (((Run.one (.lent hfirst)).next (@Step.returned _ [] ⟨16, .zeros 10⟩ [] [7, 7])).next
    (.lent hagain)).next (.lent hmore)
  obtain ⟨hdependable, hbalanced⟩ := lending_exact hrun
  exact ⟨by decide +kernel, hdependable, hbalanced fun b hb => by simp at hb⟩

end Lending
end TierAlloc
