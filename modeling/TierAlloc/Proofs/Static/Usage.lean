import TierAlloc.Proofs.Static.Answers
import TierAlloc.Proofs.Static.Plan

/-!
# Batches at work

A batch serves requests, has segments given back and is cleared, in any order and with any
arguments; its pools are also used directly, and others draw ids from the same counter.
Through all of this its books are in order (`Batch.Tidy`), and clearing it would give the new
batch back (`Batch.Valid`), so nothing but the chunks that are taken ever changes.

What a batch answers is what its chosen pool answers (`Batch.Chosen`): the first one with room,
in the order in which the pools are asked.

**Results.**
* `Batch.Chosen.allocate`, `Batch.allocate_chosen`: the batch answers as its chosen pool does.
* `Batch.Chosen.first`: no pool with room is asked before.
* `Batch.Valid.step`: what every operation keeps.
* `Batch.valid_run`: what holds in every state that a new batch reaches.
-/
namespace TierAlloc

namespace Pool

variable {p p' p₀ : Pool}

theorem Valid.self (h : p₀.Valid p) : p.Valid p := ⟨⟨rfl, rfl, rfl, rfl⟩, h.sound, h.trim, h.counted⟩

theorem same_clear (p : Pool) : p.Same p.clear := ⟨rfl, rfl, rfl, rfl⟩

/-- Only chunks that were taken are given back by clearing. -/
theorem Same.clear (h : p.Same p') (hp : p.Sound) (hp' : p'.Sound) : p'.clear = p.clear := by
  have hlength : p'.chunks.length = p.chunks.length := by rw [hp.length, hp'.length, h.chunkCount]
  unfold Pool.clear Bitmap.reset
  rw [h.id, h.chunkSize, h.chunkCount, h.base, hlength]

end Pool

namespace Batch

/-! ## Operations in sequence -/

inductive Event where
  | allocate (n : Nat) (answer : Except Error Segment)
  | free (s : Segment) (answer : Except Error Unit)
  | clear
  /-- The pool of a bin is used directly. -/
  | direct (bin : Nat) (e : Pool.Event)
  /-- Ids are drawn for others. -/
  | elsewhere

/-- A batch with the counter that it draws its ids from. -/
inductive Step : Batch × Counter → Event → Batch × Counter → Prop
  | allocated {b b' ids ids' n s} (h : b.allocate ids n = (.ok (s, b'), ids')) :
      Step (b, ids) (.allocate n (.ok s)) (b', ids')
  | refused {b ids ids' n e} (h : b.allocate ids n = (.error e, ids')) :
      Step (b, ids) (.allocate n (.error e)) (b, ids')
  | freed {b b' ids s} (h : b.free s = .ok b') : Step (b, ids) (.free s (.ok ())) (b', ids)
  | unfreed {b ids s e} (h : b.free s = .error e) : Step (b, ids) (.free s (.error e)) (b, ids)
  | clear {b ids} : Step (b, ids) .clear (b.clear, ids)
  | direct {b ids bin p e p' ids'} (hp : b.pool? bin = some p) (h : Pool.Step (p, ids) e (p', ids')) :
      Step (b, ids) (.direct bin e) (b.putPool p', ids')
  | elsewhere {b ids ids'} (h : ids.issued ≤ ids'.issued) : Step (b, ids) .elsewhere (b, ids')

/-- The books of a batch are in order. -/
structure Tidy (b : Batch) : Prop where
  sound : b.Sound
  pools : ∀ p ∈ b.pools, p.Valid p
  sorted : b.pools.Pairwise Pool.Leads

variable {b b' b₀ : Batch} {p p' q : Pool} {before after rest : List Pool} {n bin : Nat}
  {ids ids' ids₀ : Counter} {s : Segment}

/-! ## Changes of one pool -/

theorem pool?_clear (b : Batch) (bin : Nat) : b.clear.pool? bin = (b.pool? bin).map Pool.clear := by
  unfold pool? Batch.clear
  rw [List.find?_map]
  rfl

theorem clear_putPool (hb : b.Sound) (hp : b.pool? p'.id = some p) (h : p'.clear = p.clear) :
    (b.putPool p').clear = b.clear := by
  unfold putPool Batch.clear
  rw [List.map_map]
  congr 1
  refine List.map_congr_left fun q hq => ?_
  rw [Function.comp]
  split
  · rename_i hid
    rw [(pool?_eq_some hb).mpr ⟨hq, hid⟩] at hp
    rw [Option.some.inj hp, h]
  · rfl

/-- Putting a pool back undoes its change. -/
theorem putPool_putPool (hb : b.Sound) (hp : b.pool? p.id = some p) (hid : p'.id = p.id) :
    (b.putPool p').putPool p = b := by
  have hpools : ((b.putPool p').putPool p).pools = b.pools := by
    unfold putPool
    rw [List.map_map]
    refine (List.map_congr_left fun q hq => ?_).trans (List.map_id b.pools)
    rw [Function.comp, id_replaced, id_eq]
    by_cases hq' : q.id = p.id
    · rw [if_pos hq']
      rw [(pool?_eq_some hb).mpr ⟨hq, hq'⟩] at hp
      exact (Option.some.inj hp).symm
    · rw [if_neg hq', if_neg (by rwa [hid])]
  cases b
  simp only [putPool] at hpools ⊢
  rw [hpools]

theorem Tidy.put (h : b.Tidy) (hp : b.pool? p'.id = some p) (hv : p.Valid p') :
    (b.putPool p').Tidy ∧ (b.putPool p').clear = b.clear := by
  have hmem : p ∈ b.pools := ((pool?_eq_some h.sound).mp hp).1
  have hclear := hv.same.clear (h.pools p hmem).sound hv.sound
  have hsound := sound_putPool h.sound hmem hv.same hv.sound
  refine ⟨⟨hsound, fun q' hq' => ?_, ?_⟩, clear_putPool h.sound hp hclear⟩
  · obtain ⟨q, hq, rfl⟩ := List.mem_map.mp hq'
    split
    · exact hv.self
    · exact h.pools q hq
  · have hsorted : b.clear.pools.Pairwise Pool.Leads := List.pairwise_map.mpr h.sorted
    rw [← clear_putPool h.sound hp hclear] at hsorted
    exact (List.pairwise_map (f := Pool.clear)).mp hsorted

theorem Tidy.clear (h : b.Tidy) : b.clear.Tidy := by
  have hmem : ∀ {P : Pool → Prop}, (∀ p ∈ b.pools, P p.clear) → ∀ p ∈ b.clear.pools, P p := fun hP =>
    List.forall_mem_map.mpr hP
  refine ⟨⟨?_, hmem fun p hp => (h.pools p hp).clear.sound, List.pairwise_map.mpr h.sound.apart,
    hmem fun p hp => h.sound.inside p hp, h.sound.total_lt⟩, hmem fun p hp => (h.pools p hp).clear.self,
    List.pairwise_map.mpr h.sorted⟩
  have hids : b.clear.pools.map Pool.id = b.pools.map Pool.id := List.map_map
  rw [hids]
  exact h.sound.ids

/-! ## The pool that serves -/

/-- The pool `p` is the first one with room for `n` bytes. Those `before` it are asked in vain. -/
structure Chosen (b : Batch) (n : Nat) (before : List Pool) (p : Pool) : Prop where
  order : ∃ after, b.InOrder n (before ++ p :: after)
  full : ∀ q ∈ before, ¬q.Room n
  room : p.Room n

theorem Chosen.mem (h : b.Chosen n before p) : p ∈ b.pools := by
  obtain ⟨after, ho⟩ := h.order
  exact ho.all.mem_iff.mp (List.mem_append_right _ List.mem_cons_self)

theorem Chosen.mem_before (h : b.Chosen n before p) (hq : q ∈ before) : q ∈ b.pools := by
  obtain ⟨after, ho⟩ := h.order
  exact ho.all.mem_iff.mp (List.mem_append_left _ hq)

/-- Every other pool with room would be asked later. -/
theorem Chosen.first (h : b.Chosen n before p) (hq : q ∈ b.pools) (hroom : q.Room n) :
    q = p ∨ p.Before n q := by
  obtain ⟨after, ho⟩ := h.order
  rcases List.mem_append.mp (ho.all.mem_iff.mpr hq) with hq | hq
  · exact absurd hroom (h.full q hq)
  rcases List.mem_cons.mp hq with hq | hq
  · exact Or.inl hq
  · exact Or.inr (List.rel_of_pairwise_cons (List.pairwise_append.mp ho.sorted).2.1 hq)

/-- Where there is room, a pool is chosen. -/
theorem Tidy.exists_chosen (h : b.Tidy) (hroom : b.Room n) : ∃ before p, b.Chosen n before p := by
  classical
  have ho := inOrder_searchOrder h.sorted n
  obtain ⟨q, hq, hroom⟩ := hroom
  have hfound : ((b.searchOrder n).find? fun p => decide (p.Room n)).isSome = true :=
    List.find?_isSome.mpr ⟨q, ho.all.mem_iff.mpr hq, decide_eq_true hroom⟩
  obtain ⟨p, hp⟩ := Option.isSome_iff_exists.mp hfound
  obtain ⟨hp, before, after, hsplit, hbefore⟩ := List.find?_eq_some_iff_append.mp hp
  rw [hsplit] at ho
  exact ⟨before, p, ⟨after, ho⟩, fun q hq => by simpa using hbefore q hq, of_decide_eq_true hp⟩

/-- Pools without room are passed over, each at the cost of an id. -/
theorem askPools_append (h : ∀ q ∈ before, q.Sound ∧ ¬q.Room n) (hn : 0 < n) (ids : Counter) :
    askPools n (before ++ rest) ids = askPools n rest ⟨ids.issued + before.length⟩ := by
  induction before generalizing ids with
  | nil => rfl
  | cons q others ih =>
    obtain ⟨hq, hothers⟩ := List.forall_mem_cons.mp h
    rw [List.cons_append, askPools, Pool.allocate, Pool.serve_of_full hq.1 hn hq.2]
    simp only
    rw [ih hothers, Counter.issued_draw_snd, List.length_cons, Nat.add_right_comm, Nat.add_assoc]

section
variable (h : b.Tidy) (hn : 0 < n)

include h hn

/-- The batch answers as its chosen pool does, with an id for each pool that was asked. -/
theorem Chosen.allocate (hc : b.Chosen n before p) (hle : n ≤ b.sizeLimit) (ids : Counter) :
    ∃ s p', p.allocate ⟨ids.issued + before.length⟩ n = (.ok (s, p'), ⟨ids.issued + before.length + 1⟩) ∧
      b.allocate ids n = (.ok ((s.inBatch b.id).stamp b.manager, b.putPool p'),
        ⟨ids.issued + before.length + 1⟩) := by
  have hp := h.pools p hc.mem
  obtain ⟨s, p', hserve⟩ := Pool.serve_of_room hp.sound hp.counted (h.sound.addressable hc.mem) hn hc.room
    (ids.issued + before.length)
  have hanswer : p.allocate ⟨ids.issued + before.length⟩ n =
      (.ok (s, p'), ⟨ids.issued + before.length + 1⟩) := by
    rw [Pool.allocate, Counter.draw_fst, hserve]
    rfl
  refine ⟨s, p', hanswer, ?_⟩
  obtain ⟨after, ho⟩ := hc.order
  have hfull : ∀ q ∈ before, q.Sound ∧ ¬q.Room n := fun q hq =>
    ⟨(h.pools q (hc.mem_before hq)).sound, hc.full q hq⟩
  unfold Batch.allocate
  rw [if_neg (Nat.not_lt.mpr hle), (inOrder_searchOrder h.sorted n).unique ho, askPools_append hfull hn,
    askPools, hanswer]

/-- Every pool is asked in vain. -/
theorem Tidy.allocate_full (hfull : ¬b.Room n) (hle : n ≤ b.sizeLimit) (ids : Counter) :
    b.allocate ids n = (.error (.noMemory n), ⟨ids.issued + b.pools.length⟩) := by
  have ho := inOrder_searchOrder h.sorted n
  have hpools : ∀ q ∈ b.searchOrder n, q.Sound ∧ ¬q.Room n := fun q hq =>
    have hmem := ho.all.mem_iff.mp hq
    ⟨(h.pools q hmem).sound, fun hroom => hfull ⟨q, hmem, hroom⟩⟩
  unfold Batch.allocate
  rw [if_neg (Nat.not_lt.mpr hle), ← List.append_nil (b.searchOrder n), askPools_append hpools hn, askPools,
    ho.all.length_eq]

end

/-- A batch that serves has answered as its chosen pool. -/
theorem allocate_chosen (h : b.Tidy) (ha : b.allocate ids n = (.ok (s, b'), ids')) :
    0 < n ∧ n ≤ b.sizeLimit ∧ ∃ before p s₀ p', b.Chosen n before p ∧
      p.allocate ⟨ids.issued + before.length⟩ n = (.ok (s₀, p'), ids') ∧
      s = (s₀.inBatch b.id).stamp b.manager ∧ b' = b.putPool p' := by
  have hle : n ≤ b.sizeLimit := by
    by_contra hlt
    rw [allocate_oversized (Nat.lt_of_not_le hlt)] at ha
    cases ha
  have hn : 0 < n := by
    refine Nat.pos_of_ne_zero fun h0 => ?_
    subst h0
    obtain ⟨hsize, -, -, p, p', offset, hserved⟩ := allocate_ok h.sound ha
    exact absurd hserved.fits.pos (by omega)
  have hroom : b.Room n := by
    by_contra hfull
    rw [h.allocate_full hn hfull hle] at ha
    cases ha
  obtain ⟨before, p, hc⟩ := h.exists_chosen hroom
  obtain ⟨s₀, p', hanswer, hbatch⟩ := hc.allocate h hn hle ids
  rw [hbatch] at ha
  obtain ⟨hs, rfl⟩ := Prod.mk.inj ha
  obtain ⟨rfl, rfl⟩ := Prod.mk.inj (Except.ok.inj hs)
  exact ⟨hn, hle, before, p, s₀, p', hc, hanswer, rfl, rfl⟩

/-! ## What operations keep -/

/-- `b` is a later state of the new batch `b₀`. -/
structure Valid (b₀ b : Batch) : Prop where
  cleared : b.clear = b₀
  tidy : b.Tidy

variable {g : Geometry} {manager : String} {id : Nat} {shm shm' : Shm} {events : List Event} {e : Event}

theorem valid_create (h : create manager id g shm = (.ok b, shm')) : b.Valid b := by
  obtain ⟨-, -, hsound, -⟩ := create_sound h
  have hnew : ∀ p ∈ b.pools, p.Valid p ∧ p.clear = p := by
    intro p hp
    have hbin := create_pool? h p.id
    rw [(pool?_eq_some hsound).mpr ⟨hp, rfl⟩] at hbin
    obtain ⟨bin, -, hp⟩ := Option.map_eq_some_iff.mp hbin.symm
    have hcounted := (regular_create h).counted p ‹_›
    refine ⟨⟨⟨rfl, rfl, rfl, rfl⟩, hsound.pools p ‹_›, ?_, hcounted⟩, ?_⟩ <;> rw [← hp]
    · exact Bitmap.trim_ofLength _
    · rfl
  refine ⟨?_, hsound, fun p hp => (hnew p hp).1, create_sorted h⟩
  have hpools : b.pools.map Pool.clear = b.pools :=
    (List.map_congr_left fun p hp => (hnew p hp).2).trans (List.map_id b.pools)
  rw [Batch.clear, hpools]

theorem Valid.put (h : b₀.Valid b) (hp : b.pool? p.id = some p) (hv : p.Valid p') : b₀.Valid (b.putPool p') := by
  rw [← hv.same.id] at hp
  obtain ⟨htidy, hclear⟩ := h.tidy.put hp hv
  exact ⟨hclear.trans h.cleared, htidy⟩

theorem Valid.step {st st' : Batch × Counter} (h : b₀.Valid st.1) (hs : Step st e st') : b₀.Valid st'.1 := by
  have hpool : ∀ {b : Batch} {p : Pool} {bin : Nat}, b₀.Valid b → b.pool? bin = some p →
      b.pool? p.id = some p ∧ p.Valid p := fun h hp => by
    obtain ⟨hmem, rfl⟩ := (pool?_eq_some h.tidy.sound).mp hp
    exact ⟨hp, h.tidy.pools _ hmem⟩
  cases hs with
  | allocated ha =>
    obtain ⟨-, -, before, p, s₀, p', hc, hanswer, -, rfl⟩ := allocate_chosen h.tidy ha
    obtain ⟨hp, hv⟩ := hpool h ((pool?_eq_some h.tidy.sound).mpr ⟨hc.mem, rfl⟩)
    exact h.put hp (hv.allocate hanswer)
  | freed hf =>
    obtain ⟨p, p', offset, -, hp, hrange, rfl⟩ := free_ok hf
    obtain ⟨hp, hv⟩ := hpool h hp
    exact h.put hp (hv.freeRange hrange)
  | direct hp hs =>
    obtain ⟨hp, hv⟩ := hpool h hp
    exact h.put hp (hv.step hs)
  | clear =>
    refine ⟨?_, h.tidy.clear⟩
    rw [← h.cleared]
    unfold Batch.clear
    rw [List.map_map]
    rfl
  | _ => exact h

/-! ## Where segments are -/

/-- The segment is one of the batch, in whole chunks of a pool. -/
structure Placed (b : Batch) (s : Segment) (p : Pool) (offset : Nat) : Prop where
  pool : b.pool? p.id = some p
  kind : s.kind = .static b.id p.id offset
  manager : s.manager = b.manager
  fits : p.Fits offset s.size

theorem Valid.placed_of_new (h : b₀.Valid b) {p₀ : Pool} {offset : Nat} (hs : b₀.Placed s p₀ offset) :
    ∃ p, b.Placed s p offset ∧ p.clear = p₀ := by
  obtain ⟨hp, hkind, hmanager, hfits⟩ := hs
  rw [← h.cleared, pool?_clear] at hp
  obtain ⟨p, hp, rfl⟩ := Option.map_eq_some_iff.mp hp
  rw [← h.cleared] at hkind hmanager
  exact ⟨p, ⟨hp, hkind, hmanager, p.same_clear.fits.mp hfits⟩, rfl⟩

theorem allocate_placed (h : b₀.Valid b) (ha : b.allocate ids n = (.ok (s, b'), ids')) :
    s.size = n ∧ ∃ p₀ offset, b₀.Placed s p₀ offset := by
  obtain ⟨hsize, -, -, p, p', offset, hserved⟩ := allocate_ok h.tidy.sound ha
  obtain ⟨-, -, before, q, s₀, q', -, -, rfl, -⟩ := allocate_chosen h.tidy ha
  refine ⟨hsize, p.clear, offset, ?_⟩
  rw [← h.cleared]
  exact ⟨by rw [pool?_clear]; exact congrArg (Option.map _) hserved.pool, hserved.kind, rfl,
    p.same_clear.fits.mpr hserved.fits⟩

/-- Every state is in order, and what was ever served lies in chunks of the batch. -/
theorem valid_run (hc : create manager id g shm = (.ok b₀, shm')) (hrun : Run Step (b₀, ids₀) events (b, ids)) :
    b₀.Valid b ∧ ∀ n s, .allocate n (.ok s) ∈ events → s.size = n ∧ ∃ p₀ offset, b₀.Placed s p₀ offset := by
  refine hrun.invariant (P := fun events st => b₀.Valid st.1 ∧
    ∀ n s, .allocate n (.ok s) ∈ events → s.size = n ∧ ∃ p₀ offset, b₀.Placed s p₀ offset)
    ⟨valid_create hc, fun _ _ h => absurd h List.not_mem_nil⟩ fun {events st e st'} h hs => ⟨h.1.step hs, ?_⟩
  intro n s hmem
  rcases List.mem_append.mp hmem with hmem | hmem
  · exact h.2 n s hmem
  · obtain rfl := List.mem_singleton.mp hmem
    cases hs with
    | allocated ha => exact allocate_placed h.1 ha

end Batch
end TierAlloc
