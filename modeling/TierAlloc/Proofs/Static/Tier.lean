import Mathlib.Data.List.Nodup
import Mathlib.Data.List.Pairwise
import TierAlloc.Proofs.Static.Chunks
import TierAlloc.Proofs.Memory.Names

/-!
# Batches and their pools

The static tier is seen through `poolAt`: the pool of a bin of a batch. Serving a
request and giving a segment back each change one pool and nothing else; a new batch
adds pools whose chunks are free. The pools of a batch lie apart in its region.

**Results.**
* `Batch.create_sound`: a batch is made with distinct pools, apart, and all free.
* `Batch.allocate_ok`: what a batch that serves a request has done, and to which pool.
* `Batch.free_ok`: giving a segment back.
* `poolAt_put`, `poolAt_append`: the view after each of these.
-/
namespace TierAlloc

namespace Batch

/-- The pools of a batch are distinct, and lie apart inside its bytes. These end below 2^64. -/
structure Sound (b : Batch) : Prop where
  ids : (b.pools.map Pool.id).Nodup
  pools : ∀ p ∈ b.pools, p.Sound
  apart : b.pools.Pairwise fun p q => p.base + p.span ≤ q.base ∨ q.base + q.span ≤ p.base
  inside : ∀ p ∈ b.pools, p.base + p.span ≤ b.totalBytes
  total_lt : b.totalBytes < wordRange

variable {b b' : Batch} {p p' : Pool} {n bin : Nat} {ids ids' : Counter} {s : Segment}

theorem pool?_eq_some (h : b.Sound) : b.pool? bin = some p ↔ p ∈ b.pools ∧ p.id = bin := by
  unfold pool?
  constructor
  · intro hf
    exact ⟨List.mem_of_find?_eq_some hf, by simpa using List.find?_some hf⟩
  · rintro ⟨hp, rfl⟩
    cases hf : b.pools.find? (·.id = p.id) with
    | none =>
      have := List.find?_eq_none.mp hf p hp
      simp at this
    | some q =>
      have hq := List.mem_of_find?_eq_some hf
      have hid : q.id = p.id := by simpa using List.find?_some hf
      rw [List.inj_on_of_nodup_map h.ids hq hp hid]

/-- Pools of different bins lie apart. -/
theorem Sound.pools_apart (h : b.Sound) {p q : Pool} (hp : p ∈ b.pools) (hq : q ∈ b.pools)
    (hne : p.id ≠ q.id) : p.base + p.span ≤ q.base ∨ q.base + q.span ≤ p.base := by
  have hsymm : Std.Symm fun p q : Pool => p.base + p.span ≤ q.base ∨ q.base + q.span ≤ p.base :=
    ⟨fun _ _ => Or.symm⟩
  exact h.apart.forall hp hq fun he => hne (congrArg Pool.id he)

/-! ## Replacing a pool -/

theorem id_replaced (q : Pool) : (if q.id = p'.id then p' else q).id = q.id := by
  split
  · rename_i h
    exact h.symm
  · rfl

theorem pool?_putPool (hp : b.pool? p'.id = some p) (bin : Nat) :
    (b.putPool p').pool? bin = if bin = p'.id then some p' else b.pool? bin := by
  unfold pool? putPool
  rw [List.find?_map]
  have hf : ((fun q : Pool => decide (q.id = bin)) ∘ fun q => if q.id = p'.id then p' else q) =
      fun q => decide (q.id = bin) := by
    funext q
    simp only [Function.comp, id_replaced]
  rw [hf]
  by_cases hb : bin = p'.id
  · subst hb
    have hid : p.id = p'.id := by simpa using List.find?_some hp
    unfold pool? at hp
    simp [hp, hid]
  · rw [if_neg hb]
    cases hq : b.pools.find? (fun q => decide (q.id = bin)) with
    | none => rfl
    | some q =>
      have hid : q.id = bin := by simpa using List.find?_some hq
      rw [Option.map_some, if_neg]
      rwa [hid]

theorem sound_putPool (hb : b.Sound) (hp : p ∈ b.pools) (hsame : p.Same p') (hp' : p'.Sound) :
    (b.putPool p').Sound := by
  have hspan : ∀ q ∈ b.pools, (if q.id = p'.id then p' else q).base = q.base ∧
      (if q.id = p'.id then p' else q).span = q.span := by
    intro q hq
    split
    · rename_i hid
      have : q = p := List.inj_on_of_nodup_map hb.ids hq hp (hid.trans hsame.id)
      subst this
      exact ⟨hsame.base, by rw [Pool.span, hsame.chunkSize, hsame.chunkCount, Pool.span]⟩
    · exact ⟨rfl, rfl⟩
  constructor
  · have : (b.putPool p').pools.map Pool.id = b.pools.map Pool.id := by
      unfold putPool
      rw [List.map_map]
      exact List.map_congr_left fun q _ => id_replaced q
    rw [this]
    exact hb.ids
  · intro q' hq'
    obtain ⟨q, hq, rfl⟩ := List.mem_map.mp hq'
    split
    · exact hp'
    · exact hb.pools q hq
  · unfold putPool
    rw [List.pairwise_map]
    refine hb.apart.imp_of_mem fun {q r} hq hr h => ?_
    rw [(hspan q hq).1, (hspan q hq).2, (hspan r hr).1, (hspan r hr).2]
    exact h
  · intro q' hq'
    obtain ⟨q, hq, rfl⟩ := List.mem_map.mp hq'
    rw [(hspan q hq).1, (hspan q hq).2]
    exact hb.inside q hq
  · exact hb.total_lt

/-! ## Serving a request -/

/-- What a batch that serves a segment has done, in its pool `p`. -/
structure Served (b b' : Batch) (s : Segment) (p p' : Pool) (offset : Nat) : Prop where
  pool : b.pool? p.id = some p
  kind : s.kind = .static b.id p.id offset
  fits : p.Fits offset s.size
  same : p.Same p'
  sound : p'.Sound
  free : ∀ j, p.InRun offset s.size j → ¬p.Taken j
  taken : ∀ j, p'.Taken j ↔ p.Taken j ∨ p.InRun offset s.size j
  after : b' = b.putPool p'

theorem mem_searchOrder (h : p ∈ b.searchOrder n) : p ∈ b.pools := by
  unfold searchOrder at h
  rw [List.mem_append, List.mem_mergeSort, List.mem_filter, List.mem_filter] at h
  rcases h with h | h <;> exact h.1

theorem askPools_ok {pools : List Pool} (hpools : ∀ p ∈ pools, p.Sound)
    (h : askPools n pools ids = (.ok (s, p'), ids')) :
    ids.issued ≤ s.id ∧ ids'.issued = s.id + 1 ∧ ∃ p ∈ pools, p.serve s.id n = .ok (s, p') := by
  induction pools generalizing ids with
  | nil => cases h
  | cons p rest ih =>
    rw [askPools] at h
    split at h
    · rename_i m ids₁ ha
      obtain ⟨hle, hlt, q, hq, hs⟩ := ih (fun q hq => hpools q (List.mem_cons_of_mem _ hq)) h
      have : ids₁ = ids.draw.2 := (Prod.mk.inj ha).2.symm
      rw [this, Counter.issued_draw_snd] at hle
      exact ⟨by omega, hlt, q, List.mem_cons_of_mem _ hq, hs⟩
    · rw [Pool.allocate, Prod.mk.injEq] at h
      obtain ⟨hs, rfl⟩ := h
      obtain ⟨hid, -⟩ := Pool.serve_ok (hpools p List.mem_cons_self) hs
      rw [Counter.draw_fst] at hid hs
      rw [hid]
      exact ⟨Nat.le_refl _, rfl, p, List.mem_cons_self, hs⟩

theorem askPools_ids (n : Nat) (pools : List Pool) (ids : Counter) :
    ids.issued ≤ (askPools n pools ids).2.issued := by
  induction pools generalizing ids with
  | nil => exact Nat.le_refl _
  | cons p rest ih =>
    rw [askPools]
    split
    · rename_i m ids₁ ha
      have : ids₁ = ids.draw.2 := (Prod.mk.inj ha).2.symm
      rw [this]
      exact Nat.le_trans (Nat.le_succ _) (ih _)
    · exact Nat.le_succ _

/-- The first pool that is asked uses up an id. -/
theorem askPools_drawn {pools : List Pool} (hp : pools ≠ []) (n : Nat) (ids : Counter) :
    ids.issued < (askPools n pools ids).2.issued := by
  cases pools with
  | nil => exact absurd rfl hp
  | cons p rest =>
    rw [askPools]
    split
    · rename_i m ids₁ ha
      have : ids₁ = ids.draw.2 := (Prod.mk.inj ha).2.symm
      rw [this]
      exact Nat.lt_of_lt_of_le (Nat.lt_succ_self _) (askPools_ids n rest _)
    · exact Nat.lt_succ_self _

theorem allocate_ok (hb : b.Sound) (h : b.allocate ids n = (.ok (s, b'), ids')) :
    s.size = n ∧ ids.issued ≤ s.id ∧ ids'.issued = s.id + 1 ∧
      ∃ p p' offset, b.Served b' s p p' offset := by
  unfold allocate at h
  split at h
  · cases h
  split at h
  · cases h
  rename_i s₀ p' ids₁ ha
  simp only [Prod.mk.injEq, Except.ok.injEq] at h
  obtain ⟨⟨rfl, rfl⟩, rfl⟩ := h
  obtain ⟨hle, hlt, p, hp, hs⟩ :=
    askPools_ok (fun p hp => hb.pools p (mem_searchOrder hp)) ha
  have hmem := mem_searchOrder hp
  obtain ⟨hid, hsize, offset, hserved⟩ := Pool.serve_ok (hb.pools p hmem) hs
  have hbatch : s₀.inBatch b.id = { s₀ with kind := .static b.id p.id offset } := by
    unfold Segment.inBatch
    rw [hserved.kind]
  rw [hbatch]
  refine ⟨hsize, hle, hlt, p, p', offset, ?_⟩
  exact ⟨(pool?_eq_some hb).mpr ⟨hmem, rfl⟩, rfl, hserved.fits, hserved.same, hserved.sound,
    hserved.free, hserved.taken, rfl⟩

theorem allocate_ids (b : Batch) (ids : Counter) (n : Nat) :
    ids.issued ≤ (b.allocate ids n).2.issued := by
  have hids := askPools_ids n (b.searchOrder n) ids
  unfold allocate
  split
  · exact Nat.le_refl _
  · split
    · rename_i h
      rwa [h] at hids
    · rename_i h
      rwa [h] at hids

/-- A batch that has no room has used up an id. -/
theorem allocate_drawn {m : Nat} (hb : b.pools ≠ []) (h : b.allocate ids n = (.error (.noMemory m), ids')) :
    ids.issued < ids'.issued := by
  obtain ⟨p, hp⟩ := List.exists_mem_of_ne_nil _ hb
  have horder : b.searchOrder n ≠ [] := by
    refine List.ne_nil_of_mem (a := p) ?_
    unfold searchOrder
    simp only [List.mem_append, List.mem_mergeSort, List.mem_filter, hp, true_and, decide_eq_true_eq]
    exact Decidable.em _
  have hdrawn := askPools_drawn horder n ids
  unfold allocate at h
  split at h
  · cases (Prod.mk.inj h).1
  split at h
  · rename_i ha
    rw [← (Prod.mk.inj h).2]
    rwa [ha] at hdrawn
  · cases (Prod.mk.inj h).1

/-! ## Giving a segment back -/

theorem free_ok (h : b.free s = .ok b') : ∃ p p' offset, s.kind = .static b.id p.id offset ∧
    b.pool? p.id = some p ∧ p.freeRange offset s.size = .ok p' ∧ b' = b.putPool p' := by
  unfold free locate at h
  split at h
  · rename_i batch bin offset hkind
    split at h
    · rename_i hbatch
      subst hbatch
      cases hp : b.pool? bin with
      | none =>
        simp only [bind, Except.bind, hp] at h
        cases h
      | some p =>
        have hid : p.id = bin := by simpa using List.find?_some hp
        subst hid
        refine ⟨p, ?_⟩
        simp only [bind, Except.bind, hp, pure, Except.pure, Pool.freeSegment_eq hkind] at h
        cases hf : p.freeRange offset s.size with
        | error e =>
          rw [hf] at h
          cases h
        | ok p' =>
          rw [hf] at h
          exact ⟨p', offset, hkind, hp, hf, (Except.ok.inj h).symm⟩
    · cases h
  · cases h

/-! ## A new batch -/

/-- Pools laid out from `offset` to `stop`, with bins from `bin` on. -/
structure LaidOut (pools : List Pool) (bin offset stop : Nat) : Prop where
  le : offset ≤ stop
  ids : (pools.map Pool.id).Nodup
  bins : ∀ p ∈ pools, bin ≤ p.id
  sound : ∀ p ∈ pools, p.Sound ∧ ∀ j, ¬p.Taken j
  apart : pools.Pairwise fun p q => p.base + p.span ≤ q.base ∨ q.base + q.span ≤ p.base
  inside : ∀ p ∈ pools, offset ≤ p.base ∧ p.base + p.span ≤ stop

theorem layOut_ok {bins : List Bin} {bin offset stop : Nat} {pools : List Pool}
    (h : layOut bins bin offset = .ok (pools, stop)) : LaidOut pools bin offset stop := by
  induction bins generalizing bin offset pools with
  | nil =>
    simp only [layOut, Except.ok.injEq, Prod.mk.injEq] at h
    obtain ⟨rfl, rfl⟩ := h
    exact ⟨Nat.le_refl _, List.nodup_nil, List.forall_mem_nil _, List.forall_mem_nil _, .nil,
      List.forall_mem_nil _⟩
  | cons first rest ih =>
    obtain ⟨p, pools', hp, -, hl, rfl⟩ := layOut_cons_eq_ok.mp h
    obtain ⟨hsound, hid, hsize, hcount, hbase, hfree⟩ := Pool.sound_create hp
    have hspan : p.base + p.span = offset + first.chunkSize * first.chunkCount := by
      rw [Pool.span, hbase, hsize, hcount]
    obtain ⟨hle, hids, hbins, hpools, hapart, hinside⟩ := ih hl
    refine ⟨by omega, ?_, ?_, ?_, ?_, ?_⟩
    · rw [List.map_cons, List.nodup_cons]
      refine ⟨fun hm => ?_, hids⟩
      obtain ⟨q, hq, he⟩ := List.mem_map.mp hm
      have := hbins q hq
      omega
    · rw [List.forall_mem_cons]
      exact ⟨Nat.le_of_eq hid.symm, fun q hq => Nat.le_of_succ_le (hbins q hq)⟩
    · rw [List.forall_mem_cons]
      exact ⟨⟨hsound, hfree⟩, hpools⟩
    · rw [List.pairwise_cons]
      exact ⟨fun q hq => Or.inl (by have := hinside q hq; omega), hapart⟩
    · rw [List.forall_mem_cons]
      exact ⟨⟨by omega, by omega⟩, fun q hq => by have := hinside q hq; omega⟩

theorem create_sound {manager : String} {id : Nat} {g : Geometry} {shm shm' : Shm}
    (h : create manager id g shm = (.ok b, shm')) :
    b.id = id ∧ b.manager = manager ∧ b.Sound ∧ (∀ p ∈ b.pools, ∀ j, ¬p.Taken j) ∧
      Shm.Made (staticRegionName manager id) b.totalBytes shm b.region shm' := by
  unfold create at h
  split at h
  · cases h
  rename_i pools totalBytes hplan
  split at h
  · cases h
  rename_i region shm₁ hc
  simp only [Prod.mk.injEq, Except.ok.injEq] at h
  obtain ⟨rfl, rfl⟩ := h
  unfold plan at hplan
  cases hg : g.check with
  | error e =>
    rw [hg] at hplan
    cases hplan
  | ok u =>
    rw [hg] at hplan
    have hlaid := layOut_ok hplan
    have hperm : (bySize pools).Perm pools := List.mergeSort_perm _ _
    have hmade := Shm.create_made hc
    refine ⟨rfl, rfl, ⟨?_, ?_, ?_, ?_, Nat.lt_trans hmade.below (by decide)⟩, ?_, hmade⟩
    · exact (hperm.map Pool.id).nodup_iff.mpr hlaid.ids
    · exact fun p hp => (hlaid.sound p (hperm.mem_iff.mp hp)).1
    · exact (hperm.pairwise_iff fun h => h.symm).mpr hlaid.apart
    · exact fun p hp => (hlaid.inside p (hperm.mem_iff.mp hp)).2
    · exact fun p hp => (hlaid.sound p (hperm.mem_iff.mp hp)).2

theorem create_error {manager : String} {id : Nat} {g : Geometry} {shm shm' : Shm} {e : Error}
    (h : create manager id g shm = (.error e, shm')) :
    shm' = shm ∨ shm' = shm.unlink (staticRegionName manager id) := by
  unfold create at h
  split at h
  · exact Or.inl (Prod.mk.inj h).2.symm
  split at h
  · rename_i hc
    rw [← (Prod.mk.inj h).2]
    exact Shm.create_refused hc
  · cases h

end Batch

/-! ## The pools of all batches -/

/-- The pool of bin `bin` of batch `batch`. -/
def poolAt (batches : List Batch) (batch bin : Nat) : Option Pool :=
  batches[batch]?.bind (·.pool? bin)

/-- Batch `i` has the id `i`, and all are sound. -/
def SoundBatches (batches : List Batch) : Prop :=
  ∀ (i : Nat) (b : Batch), batches[i]? = some b → b.id = i ∧ b.Sound

variable {batches : List Batch} {b b' : Batch} {p p' : Pool}

theorem sound_of_mem (h : SoundBatches batches) (hb : b ∈ batches) :
    batches[b.id]? = some b ∧ b.Sound := by
  obtain ⟨i, hi, hib⟩ := List.mem_iff_getElem.mp hb
  have hget : batches[i]? = some b := by rw [List.getElem?_eq_getElem hi, hib]
  obtain ⟨rfl, hsound⟩ := h i b hget
  exact ⟨hget, hsound⟩

theorem sound_set (h : SoundBatches batches) (hid : b'.id = b.id) (hb : b'.Sound) :
    SoundBatches (batches.set b.id b') := by
  intro i c hc
  rw [List.getElem?_set] at hc
  split at hc
  · rename_i hi
    split at hc
    · obtain rfl := Option.some.inj hc
      exact ⟨hid.trans hi, hb⟩
    · cases hc
  · exact h i c hc

theorem sound_append (h : SoundBatches batches) (hid : b.id = batches.length) (hb : b.Sound) :
    SoundBatches (batches ++ [b]) := by
  intro i c hc
  rw [List.getElem?_append] at hc
  split at hc
  · exact h i c hc
  · have : i = batches.length := by
      have := (List.getElem?_eq_some_iff.mp hc).1
      simp only [List.length_singleton] at this
      omega
    subst this
    simp only [Nat.sub_self, List.getElem?_cons_zero, Option.some.injEq] at hc
    subst hc
    exact ⟨hid, hb⟩

/-- Replacing a pool changes the view there and nowhere else. -/
theorem poolAt_put (hb : batches[b.id]? = some b) (hp : b.pool? p'.id = some p) (i bin : Nat) :
    poolAt (batches.set b.id (b.putPool p')) i bin =
      if i = b.id ∧ bin = p'.id then some p' else poolAt batches i bin := by
  unfold poolAt
  rw [List.getElem?_set]
  by_cases hi : b.id = i
  · subst hi
    have hlt := (List.getElem?_eq_some_iff.mp hb).1
    simp only [hlt, if_true, hb, Option.bind_some, Batch.pool?_putPool hp, true_and]
  · rw [if_neg hi, if_neg fun h => hi h.1.symm]

theorem poolAt_append (batches : List Batch) (b : Batch) (i bin : Nat) :
    poolAt (batches ++ [b]) i bin =
      if i = batches.length then b.pool? bin else poolAt batches i bin := by
  unfold poolAt
  rw [List.getElem?_append]
  split
  · rw [if_neg (by omega)]
  · split
    · rename_i h
      simp [h]
    · rename_i hlt hne
      rw [List.getElem?_eq_none (by simp only [List.length_singleton]; omega),
        List.getElem?_eq_none (by omega)]

/-- The view has the pools of the batches and no others. -/
theorem poolAt_eq_some (h : SoundBatches batches) {i bin : Nat} :
    poolAt batches i bin = some p ↔ ∃ b, batches[i]? = some b ∧ p ∈ b.pools ∧ p.id = bin := by
  unfold poolAt
  rw [Option.bind_eq_some_iff]
  constructor
  · rintro ⟨b, hb, hp⟩
    exact ⟨b, hb, (Batch.pool?_eq_some (h i b hb).2).mp hp⟩
  · rintro ⟨b, hb, hp⟩
    exact ⟨b, hb, (Batch.pool?_eq_some (h i b hb).2).mpr hp⟩

end TierAlloc
