import TierAlloc.Proofs.Cache.Ending
import TierAlloc.Proofs.Memory.Lending

/-!
# What a wait leaves charged

When a peer has delivered, the owner takes a buffer for as many bytes as the length word of
the area says, reads them out of the region and puts them under the id of the handoff. The
word is shared memory: it may say anything. Each of the three steps can fail. A heap
that refuses has charged nothing, and an entry that is there already sends the buffer
back. Between the two the range is read, and if it leaves the region the buffer is given
up: its bytes stay charged to the heap as long as the cache lives (`charged_for_nothing`).

Whatever the outcome, the area is released, and a wait that fails stores nothing.

**Results.**
* `Pending.take_charged`: the outcomes, each with what it leaves charged.
* `EntryOp.shelved`, `Channel.shelved_run`: the idle buffers stay in their places, whatever is
  done to a cache.
* `Channel.inbound_wait_exact`: what comes of a wait for any length word.
-/
namespace TierAlloc

variable {c c' : Cache} {shm : Shm} {p : Pending}

/-! ## Taking what was delivered -/

/-- What comes of taking `n` bytes that a peer has delivered, and what stays charged for it. -/
inductive Pending.Charged (p : Pending) (c : Cache) (n : Nat) : Except Error Segment → Nat → Prop
  | stored (lent : ¬c.heap.Refuses (· < bufferSizeLimit) n)
      (inside : p.exchange.layout.areaOffset p.area + n ≤ p.exchange.region.size)
      (new : c.contains p.segment.id = false) :
      Charged p c n (.ok (c.entrySegment p.segment.id n)) (sizeClass n)
  | noMemory (h : c.heap.Refuses (· < bufferSizeLimit) n) : Charged p c n (.error (.noMemory n)) 0
  | outside (lent : ¬c.heap.Refuses (· < bufferSizeLimit) n)
      (h : p.exchange.region.size < p.exchange.layout.areaOffset p.area + n) :
      Charged p c n (.error (.rangeError (p.exchange.layout.areaOffset p.area) n)) (sizeClass n)
  | duplicated (lent : ¬c.heap.Refuses (· < bufferSizeLimit) n)
      (inside : p.exchange.layout.areaOffset p.area + n ≤ p.exchange.region.size)
      (h : c.contains p.segment.id = true) :
      Charged p c n (.error (.duplicatedKey p.segment.id)) 0

/-- Taking an inbound payload charges the heap as its outcome says. -/
theorem Pending.take_charged (hd : p.direction = .inbound) (hheap : c.heap.Shelved)
    {r : Except Error Segment} (h : p.take c shm = (r, c')) :
    ∃ left, p.Charged c (p.exchange.payloadLength shm p.area) r left ∧
      c'.heap.inUse = c.heap.inUse + left := by
  unfold take at h
  rw [hd] at h
  simp only at h
  generalize p.exchange.payloadLength shm p.area = n at h ⊢
  split at h
  · rename_i e heap ha
    obtain ⟨rfl, rfl⟩ := Prod.mk.inj h
    rw [BufferPool.acquire_eq] at ha
    obtain ⟨rfl, hinUse, -⟩ := BufferPool.acquireFrom_error ha
    exact ⟨0, .noMemory (BufferPool.refused_iff.mp ⟨_, _, ha⟩), hinUse⟩
  rename_i b heap ha
  rw [BufferPool.acquire_eq] at ha
  have hlent : ¬c.heap.Refuses (· < bufferSizeLimit) n := by
    intro hrefused
    obtain ⟨e, q, he⟩ := BufferPool.refused_iff.mpr hrefused
    rw [ha] at he
    cases (Prod.mk.inj he).1
  obtain ⟨-, hreserved, -⟩ := hheap.lent ha
  have hcharged : heap.inUse = c.heap.inUse + sizeClass n := by
    rw [(BufferPool.reserve_ok hreserved).1, BufferPool.classOf_eq]
  rw [Shm.read_eq] at h
  split at h
  · -- the range leaves the region: the buffer is given up with its charge
    rename_i e hread
    split at hread
    · cases hread
    · rename_i hout
      obtain rfl := Except.error.inj hread
      obtain ⟨rfl, rfl⟩ := Prod.mk.inj h
      exact ⟨_, .outside hlent (Nat.lt_of_not_le hout), hcharged⟩
  · rename_i bytes hread
    split at hread
    · rename_i hin
      unfold Cache.insert at h
      by_cases hcontains : ({ c with heap } : Cache).contains p.segment.id
      · rw [if_pos hcontains] at h
        obtain ⟨rfl, rfl⟩ := Prod.mk.inj h
        exact ⟨0, .duplicated hlent hin hcontains, hheap.returned ha bytes⟩
      · rw [if_neg hcontains] at h
        obtain ⟨rfl, rfl⟩ := Prod.mk.inj h
        exact ⟨_, .stored hlent hin (Bool.eq_false_iff.mpr hcontains), hcharged⟩
    · cases hread

/-! ## The idle buffers of a cache -/

namespace Cache

variable {id size : Nat} {b : Buffer} {content : Bytes}

theorem shelved_insert {r : Except Error Unit} (h : c.heap.Shelved) (hi : c.insert id b = (r, c')) :
    c'.heap.Shelved := by
  unfold insert at hi
  split at hi
  · rw [← (Prod.mk.inj hi).2]
    exact h.recycle b
  · rw [← (Prod.mk.inj hi).2]
    exact h

theorem shelved_swap {r : Except Error Unit} (h : c.heap.Shelved) (hs : c.swap id b = (r, c')) :
    c'.heap.Shelved := by
  unfold swap at hs
  split at hs
  · rw [← (Prod.mk.inj hs).2]
    exact h.recycle b
  · rw [← (Prod.mk.inj hs).2]
    exact h.recycle _

theorem shelved_place {r : Except Error Segment} (h : c.heap.Shelved)
    (hp : c.place id size content = (r, c')) : c'.heap.Shelved := by
  unfold place at hp
  split at hp
  · rw [← (Prod.mk.inj hp).2]
    exact h
  split at hp
  · rename_i ha
    rw [← (Prod.mk.inj hp).2]
    exact h.acquire ha
  · rename_i ha
    simp only at hp
    split at hp <;> rename_i hi <;> rw [← (Prod.mk.inj hp).2]
    · exact shelved_insert (h.acquire ha) hi
    · exact shelved_insert (h.acquire ha) hi

theorem shelved_setWith {r : Except Error Unit} (h : c.heap.Shelved)
    (hs : c.setWith id size content = (r, c')) : c'.heap.Shelved := by
  unfold setWith replaceBy at hs
  split at hs
  · rw [← (Prod.mk.inj hs).2]
    exact h
  split at hs
  · rw [← (Prod.mk.inj hs).2]
    exact h
  split at hs
  · rename_i ha
    rw [← (Prod.mk.inj hs).2]
    exact h.acquire ha
  · rename_i ha
    exact shelved_swap (h.acquire ha) hs

theorem shelved_modify {offset : Nat} {data : Bytes} (h : c.heap.Shelved)
    (hm : c.modify id offset data = .ok c') : c'.heap.Shelved := by
  unfold modify at hm
  split at hm
  · cases hm
  · rw [← Except.ok.inj hm]
    exact h

theorem shelved_free (h : c.heap.Shelved) (hf : c.free id = .ok c') : c'.heap.Shelved := by
  unfold free at hf
  split at hf
  · cases hf
  · rw [← Except.ok.inj hf]
    exact h.recycle _

theorem shelved_clear (h : c.heap.Shelved) : c.clear.heap.Shelved := by
  have hall : ∀ (l : List Buffer) (p : BufferPool), p.Shelved → (l.foldl BufferPool.recycle p).Shelved := by
    intro l
    induction l with
    | nil => exact fun _ hp => hp
    | cons b rest ih => exact fun p hp => ih _ (hp.recycle b)
  exact hall _ _ h

end Cache

/-- Any operation on the entries takes from the heap and gives back to it. -/
theorem EntryOp.shelved (h : c.heap.Shelved) (ids : Counter) (op : EntryOp) :
    (op.apply c ids).1.heap.Shelved := by
  cases op with
  | malloc size => exact Cache.shelved_place h (Prod.eta (c.place ids.issued size [])).symm
  | store data =>
    simp only [apply, Cache.store_eq]
    split
    · exact h
    · exact Cache.shelved_place h (Prod.eta (c.place ids.issued data.length data)).symm
  | storeWith size content => exact Cache.shelved_place h (Prod.eta (c.place ids.issued size content)).symm
  | set id data =>
    simp only [apply, Cache.set]
    split
    · exact h
    · exact Cache.shelved_setWith h (Prod.eta _).symm
  | setWith id size content => exact Cache.shelved_setWith h (Prod.eta (c.setWith id size content)).symm
  | acquire size => exact h.acquire (Prod.eta (c.heap.acquire size)).symm
  | swap id b => exact Cache.shelved_swap h (Prod.eta (c.swap id b)).symm
  | modify id offset data =>
    simp only [apply]
    cases hm : c.modify id offset data with
    | error e => exact h
    | ok c' => exact Cache.shelved_modify h hm
  | free id =>
    simp only [apply]
    cases hf : c.free id with
    | error e => exact h
    | ok c' => exact Cache.shelved_free h hf
  | freeSegment s =>
    simp only [apply]
    cases hf : c.freeSegment s with
    | error e => exact h
    | ok c' => exact Cache.shelved_free h (Cache.freeSegment_ok hf).2
  | clear => exact Cache.shelved_clear h

theorem Pending.shelved_take {r : Except Error Segment} (h : c.heap.Shelved)
    (ht : p.take c shm = (r, c')) : c'.heap.Shelved := by
  unfold take at ht
  split at ht
  · rw [← (Prod.mk.inj ht).2]
    exact h
  simp only at ht
  split at ht
  · rename_i ha
    rw [← (Prod.mk.inj ht).2]
    exact h.acquire ha
  rename_i ha
  split at ht
  · rw [← (Prod.mk.inj ht).2]
    exact h.acquire ha
  · split at ht <;> rename_i hi <;> rw [← (Prod.mk.inj ht).2]
    · exact Cache.shelved_insert (h.acquire ha) hi
    · exact Cache.shelved_insert (h.acquire ha) hi

theorem Pending.shelved_settle {goal : Goal} {moves : List Move} {r : Except Error Segment} {shm' : Shm}
    (h : c.heap.Shelved) (hs : p.settle? goal moves c shm = some (r, c', shm')) : c'.heap.Shelved := by
  unfold settle? at hs
  split at hs
  · cases hs
  simp only at hs
  split at hs
  · obtain ⟨-, rfl, -⟩ := Option.some.inj hs
    exact shelved_take h (Prod.eta _).symm
  · obtain ⟨-, rfl, -⟩ := Option.some.inj hs
    exact h
  · obtain ⟨-, rfl, -⟩ := Option.some.inj hs
    exact h

namespace Channel

variable {manager : String} {allowed : Traffic → Descriptor → Prop} {s s' : Channel} {e : Event}
  {events : List Event}

theorem shelved_step (h : s.cache.heap.Shelved) (hs : Step manager allowed s e s') :
    s'.cache.heap.Shelved := by
  cases hs with
  | entry op => exact op.shelved h s.ids
  | wait _ hw => exact Pending.shelved_settle h hw
  | waitTimeout _ hw => exact Pending.shelved_settle h hw
  | _ => exact h

theorem shelved_start {count size : Nat} {capacity : Option Nat} {shm₀ shm : Shm} {c : Cache}
    (hc : Cache.create manager (.handoff count size) capacity shm₀ = (.ok c, shm)) : c.heap.Shelved := by
  unfold Cache.create at hc
  simp only at hc
  split at hc
  · cases (Prod.mk.inj hc).1
  · rw [← Except.ok.inj (Prod.mk.inj hc).1]
    exact BufferPool.shelved_create capacity

theorem shelved_run {count size : Nat} {capacity : Option Nat} {shm₀ shm : Shm} {c : Cache} {ids : Counter}
    (hc : Cache.create manager (.handoff count size) capacity shm₀ = (.ok c, shm))
    (hrun : Run (Step manager allowed) (start c ids shm) events s) : s.cache.heap.Shelved :=
  hrun.invariant (P := fun _ s => s.cache.heap.Shelved) (shelved_start hc) fun h hs => shelved_step h hs

end Channel

/-! ## Waiting for what was delivered -/

namespace Pending

/-- How a wait for `n` bytes that a peer has delivered ends. -/
structure Settled (p : Pending) (n : Nat) (c : Cache) (shm : Shm) (r : Except Error Segment) (c' : Cache)
    (shm' : Shm) : Prop where
  /-- The area is released. -/
  ended : p.Ended shm shm'
  charged : ∃ left, p.Charged c n r left ∧ c'.heap.inUse = c.heap.inUse + left
  /-- A wait that fails stores nothing, and leaves nothing charged unless the bytes leave the region. -/
  failed : ∀ e, r = .error e → c'.contents? = c.contents? ∧
    (c'.heap.inUse = c.heap.inUse ∨
      e = .rangeError (p.exchange.layout.areaOffset p.area) n ∧
        c'.heap.inUse = c.heap.inUse + sizeClass n)

/-- An error is charged for only if the bytes leave the region. -/
theorem Charged.of_error {n left : Nat} {e : Error} (h : p.Charged c n (.error e) left) :
    left = 0 ∨ e = .rangeError (p.exchange.layout.areaOffset p.area) n ∧ left = sizeClass n := by
  cases h with
  | noMemory => exact Or.inl rfl
  | outside => exact Or.inr ⟨rfl, rfl⟩
  | duplicated => exact Or.inl rfl

/-- Any wait for a payload that was delivered takes it. -/
theorem settle?_done (hx : p.exchange.region.object < shm.objects.size)
    (hlt : p.area < p.exchange.layout.areaCount) (hd : p.direction = .inbound)
    (hsignal : p.signal shm = p.direction.done) (hheap : c.heap.Shelved) :
    ∃ r c' shm', (∀ goal, p.settle? goal [] c shm = some (r, c', shm')) ∧
      p.Settled (p.exchange.payloadLength shm p.area) c shm r c' shm' := by
  cases htake : p.take c shm with
  | mk r c' =>
    obtain ⟨left, hcharged, hinUse⟩ := take_charged hd hheap htake
    refine ⟨r, c', p.release (p.setSignal p.direction.done shm), fun goal => ?_, ended hx _,
      ⟨left, hcharged, hinUse⟩, fun e he => ?_⟩
    · rw [settle?_eq hlt goal c (Or.inr hsignal), if_pos hsignal, htake]
    · subst he
      refine ⟨(take_error htake).2.contents, ?_⟩
      obtain hleft | ⟨herror, hleft⟩ := hcharged.of_error
      · exact Or.inl (by rw [hinUse, hleft, Nat.add_zero])
      · exact Or.inr ⟨herror, by rw [hinUse, hleft]⟩

end Pending

namespace Channel

variable {manager : String} {count size : Nat} {capacity : Option Nat} {shm₀ shm : Shm} {c : Cache}
  {ids : Counter} {s : Channel} {events : List Event}

/-- **Waiting for what was delivered.** Whatever a channel went through, and whatever number stands
in the length word of an area that a peer has finished with: waiting ends, with a deadline or
without, and the area is released. A wait that fails stores nothing; the heap has lent as much as
before, unless the bytes would leave the region. Then the buffer that was taken for them
stays charged. -/
theorem inbound_wait_exact {n : Nat}
    (hc : Cache.create manager (.handoff count size) capacity shm₀ = (.ok c, shm))
    (hrun : Run (Step manager fun _ _ => True) (start c ids shm) events s)
    (hp : p ∈ s.traffic.pendings) (hd : p.direction = .inbound) (hsignalled : p.isSignalled s.shm = true)
    (hn : n < wordRange) :
    ∃ r c' shm', p.wait? s.cache (p.exchange.setPayloadLength p.area n s.shm) = some (r, c', shm') ∧
      p.waitTimeout? s.cache (p.exchange.setPayloadLength p.area n s.shm) = some (r, c', shm') ∧
      p.Settled n s.cache (p.exchange.setPayloadLength p.area n s.shm) r c' shm' := by
  obtain ⟨x, -, h0⟩ := inOrder_start ids hc
  have hheld := (hrun.invariant (P := fun _ s => InOrder manager x s) h0 fun h hs => h.step hs).held
  have hx := hheld.exchange p hp
  have hobject : p.exchange.region.object < s.shm.objects.size := by
    rw [hx]
    exact hheld.object_lt
  have hlt : p.area < p.exchange.layout.areaCount := by
    rw [hx]
    exact hheld.area_lt p hp
  have hwords := Exchange.words_setPayloadLength hobject p.area n
  have harea := congrFun hwords p.area
  rw [Function.update_self] at harea
  have hlength : p.exchange.payloadLength (p.exchange.setPayloadLength p.area n s.shm) p.area = n := by
    rw [Exchange.payloadLength_of_words harea]
    exact Nat.mod_eq_of_lt hn
  have hsignal : p.signal (p.exchange.setPayloadLength p.area n s.shm) = p.direction.done := by
    rw [Pending.signal, Exchange.signal_of_words harea]
    exact of_decide_eq_true hsignalled
  obtain ⟨r, c', shm', hsettle, hsettled⟩ := Pending.settle?_done
    (by rw [Exchange.size_setPayloadLength]; exact hobject) hlt hd hsignal (shelved_run hc hrun)
  rw [hlength] at hsettled
  exact ⟨r, c', shm', hsettle .completion, hsettle .deadline, hsettled⟩

/-! ## Lengths that nobody delivered

Two bytes were delivered to the sample channel, and then the length word was written over. -/

/-- The memory with this number in the length word. -/
def sampleClaiming (n : Nat) : Shm := sampleExchange.setPayloadLength 0 n sampleServed.shm

theorem sample_served_run : ∃ events,
    Run (Step "m" fun _ _ => True) (start sampleCache {} sampleMemory) events sampleServed :=
  served_run (BufferPool.create none) _ fun _ => trivial

/-- The longest payload that the word can claim: no heap has a buffer for it. -/
theorem inbound_wait_exact_of_longest : ∃ c' shm',
    (sampleOffer.pending 0).wait? sampleCache (sampleClaiming (wordRange - 1)) =
        some (.error (.noMemory (wordRange - 1)), c', shm') ∧
      (sampleOffer.pending 0).Settled (wordRange - 1) sampleCache (sampleClaiming (wordRange - 1))
        (.error (.noMemory (wordRange - 1))) c' shm' ∧ c'.heap.inUse = 0 := by
  obtain ⟨events, hrun⟩ := sample_served_run
  have hp : sampleOffer.pending 0 ∈ sampleServed.traffic.pendings := List.mem_singleton_self _
  have hsignalled : (sampleOffer.pending 0).isSignalled sampleServed.shm = true := by decide +kernel
  have hn : wordRange - 1 < wordRange := by decide
  obtain ⟨r, c', shm', hwait, -, hsettled⟩ :=
    inbound_wait_exact sample_create hrun hp rfl hsignalled hn
  have hanswer : ((sampleOffer.pending 0).wait? sampleCache (sampleClaiming (wordRange - 1))).map
      (fun w => (w.1, w.2.1.heap.inUse)) = some (.error (.noMemory (wordRange - 1)), 0) := by
    decide +kernel
  have hsame : (sampleOffer.pending 0).wait? sampleCache (sampleClaiming (wordRange - 1)) =
      some (r, c', shm') := hwait
  rw [hsame] at hanswer
  obtain ⟨hr, hinUse⟩ := Prod.mk.inj (Option.some.inj hanswer)
  obtain rfl : r = .error (.noMemory (wordRange - 1)) := hr
  exact ⟨c', shm', hwait, hsettled, hinUse⟩

/-- A length of 100 in the one area there is, which has eight bytes and ends with the region: the wait
fails, and 128 bytes stay charged. -/
theorem charged_for_nothing : ∃ events,
    Run (Step "m" fun _ _ => True) (start sampleCache {} sampleMemory) events sampleServed ∧
    sampleOffer.pending 0 ∈ sampleServed.traffic.pendings ∧
    (sampleOffer.pending 0).isSignalled (sampleClaiming 100) = true ∧
    sampleCache.heap.inUse = 0 ∧
    ∃ c' shm', (sampleOffer.pending 0).wait? sampleCache (sampleClaiming 100) =
      some (.error (.rangeError 128 100), c', shm') ∧ c'.heap.inUse = 128 := by
  obtain ⟨events, hrun⟩ := sample_served_run
  refine ⟨events, hrun, List.mem_singleton_self _, by decide +kernel, rfl, ?_⟩
  have hanswer : ((sampleOffer.pending 0).wait? sampleCache (sampleClaiming 100)).map
      (fun w => (w.1, w.2.1.heap.inUse)) = some (.error (.rangeError 128 100), 128) := by
    decide +kernel
  obtain ⟨⟨r, c', shm'⟩, hwait, he⟩ := Option.map_eq_some_iff.mp hanswer
  obtain ⟨rfl, hinUse⟩ := Prod.mk.inj he
  exact ⟨c', shm', hwait, hinUse⟩

end Channel
end TierAlloc
