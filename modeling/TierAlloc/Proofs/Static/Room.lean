import Mathlib.Algebra.Order.Floor.Div
import Mathlib.Order.Interval.Finset.Nat
import TierAlloc.Proofs.Static.Tier

/-!
# Room

A pool has room for `n` bytes when as many chunks as cover them are free in a row. The
search of a bitmap jumps over full words, a pool does not search at all when the number
that it keeps beside the bitmap is too small, and a batch asks its pools in an order of
its own. None of these passes over room that is there. For the number this needs that
it is the number of free chunks (`Pool.Counted`), which serving and giving back keep.

**Results.**
* `Bitmap.fit?_eq_some_iff`, `Bitmap.fit?_eq_none_iff`: what the search finds, and when nothing.
* `Pool.serve_of_room`, `Pool.serve_of_full`: a pool serves what it has room for.
* `Pool.counted_serve`, `Pool.counted_freeRange`: the number of free chunks is kept.
* `Batch.allocate_of_room`, `Batch.allocate_of_full`, `Batch.allocate_zero`,
  `Batch.allocate_oversized`: the answer of a batch, for every request.
* `Batch.regular_create`, `Batch.room_of_create`: a new batch, from its geometry.
-/
namespace TierAlloc

namespace Bitmap

/-- The chunks of the run are free. -/
def FreeRun (b : Bitmap) (start run : Nat) : Prop :=
  ∀ j, start ≤ j → j < start + run → b.isFree j = true

/-- The chunks that are free. -/
def vacant (b : Bitmap) : Finset Nat := (Finset.range b.length).filter fun i => b.isFree i = true

variable {b b' : Bitmap} {start run s i j : Nat}

theorem lt_of_isFree (h : b.isFree i = true) : i < b.length := by
  rw [isFree_eq, Bool.and_eq_true, decide_eq_true_eq] at h
  exact h.1

theorem FreeRun.le_length (h : b.FreeRun start run) (hr : 0 < run) : start + run ≤ b.length := by
  have := lt_of_isFree (h (start + run - 1) (by omega) (by omega))
  omega

/-- The words that the search jumps over have no free chunk. -/
theorem isFree_of_word (hi : i % wordBits = 0) (hw : b.word i = 0) (hl : i ≤ j)
    (hu : j < i + wordBits) : b.isFree j = false := by
  have hd : j / wordBits = i / wordBits := by
    unfold wordBits at *
    omega
  have hj : b.word j = 0 := by
    unfold word at *
    rwa [hd]
  rw [isFree_eq, hj]
  simp

/-- The search does not pass over a free run: the chunk it is at is not beyond the run, but
for the chunks that it has counted already. -/
theorem fitFrom_of_freeRun (h : b.FreeRun s run) (start found i : Nat) (hrun : found < run)
    (hstart : found ≠ 0 → start = i - found) (hle : i ≤ s + found) :
    ∃ s' ≤ s, b.fitFrom run start found i = some s' := by
  have hpos : 0 < run := Nat.zero_lt_of_lt hrun
  induction start, found, i using fitFrom.induct b run with
  | case1 start found i hi hjump ih =>
    rw [fitFrom, dif_pos hi, if_pos hjump]
    have hbeyond : i + wordBits ≤ s := by
      by_contra hlt
      have hfree := h (max i s) (Nat.le_max_right ..) (by omega)
      have hu : max i s < i + wordBits := by
        unfold wordBits at *
        omega
      rw [isFree_of_word hjump.1 hjump.2 (Nat.le_max_left ..) hu] at hfree
      cases hfree
    exact ih hpos (fun h0 => absurd rfl h0) hbeyond
  | case2 start found i hi hjump hf hdone =>
    rw [fitFrom, dif_pos hi, if_neg hjump, if_pos hf]
    simp only [hdone, if_true]
    refine ⟨if found = 0 then i else start, ?_, rfl⟩
    split
    · omega
    · have := hstart ‹_›
      omega
  | case3 start found i hi hjump hf start' hdone ih =>
    rw [fitFrom, dif_pos hi, if_neg hjump, if_pos hf]
    simp only [hdone, if_false]
    refine ih (Nat.lt_of_le_of_ne hrun hdone) (fun _ => ?_) (Nat.succ_le_succ hle)
    simp only [start']
    split
    · omega
    · have := hstart ‹_›
      omega
  | case4 start found i hi hjump hf ih =>
    rw [fitFrom, dif_pos hi, if_neg hjump, if_neg hf]
    have hbeyond : i < s := by
      by_contra hlt
      exact hf (h i (by omega) (by omega))
    exact ih hpos (fun h0 => absurd rfl h0) hbeyond
  | case5 start found i hi =>
    have := h.le_length (by omega)
    omega

/-- A free run is found, or one before it. -/
theorem fit?_of_freeRun (h : b.FreeRun s run) (hr : 0 < run) : ∃ s' ≤ s, b.fit? run = some s' := by
  have hlen := h.le_length hr
  unfold fit?
  rw [if_neg (by omega)]
  exact fitFrom_of_freeRun h 0 0 0 hr (fun h0 => absurd rfl h0) (Nat.zero_le _)

theorem fit?_zero (b : Bitmap) : b.fit? 0 = none := by
  rw [fit?, if_pos (Or.inl rfl)]

/-- The search finds the lowest free run that is long enough. -/
theorem fit?_eq_some_iff : b.fit? run = some start ↔ 0 < run ∧ IsLeast {s | b.FreeRun s run} start := by
  constructor
  · intro h
    have hr : 0 < run := by
      refine Nat.pos_of_ne_zero ?_
      rintro rfl
      rw [fit?_zero] at h
      cases h
    refine ⟨hr, fit?_free h, fun s hs => ?_⟩
    obtain ⟨found, hle, hfound⟩ := fit?_of_freeRun hs hr
    rw [h] at hfound
    rwa [Option.some.inj hfound]
  · rintro ⟨hr, hfree, hleast⟩
    obtain ⟨found, hle, hfound⟩ := fit?_of_freeRun hfree hr
    rw [hfound, Nat.le_antisymm hle (hleast (fit?_free hfound))]

theorem fit?_eq_none_iff : b.fit? run = none ↔ run = 0 ∨ ∀ s, ¬b.FreeRun s run := by
  constructor
  · intro h
    refine or_iff_not_imp_left.mpr fun hr s hs => ?_
    obtain ⟨found, -, hfound⟩ := fit?_of_freeRun hs (Nat.pos_of_ne_zero hr)
    rw [h] at hfound
    cases hfound
  · rintro (rfl | hno)
    · exact fit?_zero b
    · exact Option.eq_none_iff_forall_ne_some.mpr fun s hs => hno s (fit?_free hs)

/-! ## Counting -/

theorem mem_vacant : i ∈ b.vacant ↔ b.isFree i = true := by
  unfold vacant
  rw [Finset.mem_filter, Finset.mem_range]
  exact ⟨fun h => h.2, fun h => ⟨lt_of_isFree h, h⟩⟩

theorem freeRun_iff : b.FreeRun start run ↔ Finset.Ico start (start + run) ⊆ b.vacant := by
  unfold FreeRun
  simp only [Finset.subset_iff, Finset.mem_Ico, mem_vacant, and_imp]

theorem FreeRun.le_card (h : b.FreeRun start run) : run ≤ b.vacant.card := by
  have hcard := Finset.card_le_card (freeRun_iff.mp h)
  rwa [Nat.card_Ico, Nat.add_sub_cancel_left] at hcard

theorem vacant_ofLength (n : Nat) : (ofLength n).vacant = Finset.range n := by
  ext i
  rw [mem_vacant, isFree_ofLength, decide_eq_true_eq, Finset.mem_range]

theorem vacant_of_occupy (h : b.occupy start run = .ok b') :
    b'.vacant = b.vacant \ Finset.Ico start (start + run) := by
  ext j
  simp only [Finset.mem_sdiff, mem_vacant, Finset.mem_Ico, isFree_of_occupy h, Bool.and_eq_true,
    Bool.not_eq_true', decide_eq_false_iff_not]

theorem vacant_of_release (hs : b.Sized) (h : b.release start run = .ok b') :
    b'.vacant = b.vacant ∪ Finset.Ico start (start + run) := by
  ext j
  simp only [Finset.mem_union, mem_vacant, Finset.mem_Ico, isFree_of_release hs h, Bool.or_eq_true,
    decide_eq_true_eq]

end Bitmap

/-! ## Pools -/

namespace Pool

/-- The number of free chunks is the one that the pool keeps. -/
def Counted (p : Pool) : Prop := p.free = p.chunks.vacant.card

/-- As many chunks as cover `n` bytes are free in a row. -/
def Room (p : Pool) (n : Nat) : Prop := ∃ start, p.chunks.FreeRun start (n ⌈/⌉ p.chunkSize)

/-- What the pool was cut out for. -/
def bin (p : Pool) : Bin := ⟨p.chunkSize, p.chunkCount⟩

variable {p p' : Pool} {id n offset size : Nat} {s : Segment}

theorem chunksFor_eq (hp : p.Sound) (n : Nat) : p.chunksFor n = n ⌈/⌉ p.chunkSize := by
  have hc := hp.chunk_pos
  rw [chunksFor, Nat.ceilDiv_eq_add_pred_div, Nat.add_sub_assoc hc]

/-- A pool with room takes chunks for the request, from the lowest run of them. -/
theorem reserve_of_room (hp : p.Sound) (hc : p.Counted) (hn : 0 < n) (h : p.Room n) :
    ∃ start p', p.reserve n = .ok (start, p') := by
  obtain ⟨start, hrun⟩ := h
  rw [← chunksFor_eq hp] at hrun
  have hpos := chunksFor_pos hp hn
  have hcard : p.chunksFor n ≤ p.free := by
    rw [hc]
    exact hrun.le_card
  obtain ⟨found, -, hfit⟩ := Bitmap.fit?_of_freeRun hrun hpos
  have hlen : found + p.chunksFor n ≤ p.chunks.length :=
    Bitmap.FreeRun.le_length (Bitmap.fit?_free hfit) hpos
  exact ⟨found, _, reserve_eq_ok.mpr ⟨hn, hcard, hfit, _, Bitmap.occupy_of_le hlen, rfl⟩⟩

theorem reserve_of_full (hp : p.Sound) (hn : 0 < n) (h : ¬p.Room n) : p.reserve n = .error (.noMemory n) := by
  have hfit : p.chunks.fit? (p.chunksFor n) = none := by
    refine Bitmap.fit?_eq_none_iff.mpr (Or.inr fun start hrun => h ⟨start, ?_⟩)
    rwa [← chunksFor_eq hp]
  unfold reserve
  simp only [if_neg (Nat.ne_of_gt hn), hfit, ite_self]

/-- All chunks of the pool start below 2^64. -/
def Addressable (p : Pool) : Prop := p.base + p.span ≤ wordRange

theorem Addressable.offset_lt (h : p.Addressable) (hp : p.Sound) {chunk : Nat} (hlt : chunk < p.chunkCount) :
    chunk * p.chunkSize + p.base < wordRange := by
  have hend := Nat.mul_le_mul_right p.chunkSize (Nat.succ_le_of_lt hlt)
  have hc := hp.chunk_pos
  rw [Nat.succ_mul] at hend
  unfold Addressable span at h
  rw [Nat.mul_comm] at h
  omega

theorem serve_of_room (hp : p.Sound) (hc : p.Counted) (ha : p.Addressable) (hn : 0 < n) (h : p.Room n)
    (id : Nat) : ∃ s p', p.serve id n = .ok (s, p') := by
  obtain ⟨start, p', hr⟩ := reserve_of_room hp hc hn h
  have hres := reserve_ok hp hr
  have hlt : start < p.chunkCount := by
    have := chunksFor_pos hp hn
    have := hres.run_le
    omega
  exact ⟨_, p', serve_eq_ok.mpr ⟨start, hr, ha.offset_lt hp hlt, rfl⟩⟩

theorem serve_of_full (hp : p.Sound) (hn : 0 < n) (h : ¬p.Room n) (id : Nat) :
    p.serve id n = .error (.noMemory n) := serve_eq_error.mpr (Or.inl (reserve_of_full hp hn h))

/-- The chunks that were taken are no longer counted. -/
theorem counted_reserve {start : Nat} (hc : p.Counted) (h : p.reserve n = .ok (start, p')) : p'.Counted := by
  obtain ⟨-, -, hfit, chunks, ho, rfl⟩ := reserve_eq_ok.mp h
  have hsub := Bitmap.freeRun_iff.mp (Bitmap.fit?_free hfit)
  unfold Counted at *
  simp only
  rw [Bitmap.vacant_of_occupy ho, Finset.card_sdiff_of_subset hsub, Nat.card_Ico,
    Nat.add_sub_cancel_left, hc]

theorem counted_serve (hc : p.Counted) (h : p.serve id n = .ok (s, p')) : p'.Counted := by
  obtain ⟨start, hr, -⟩ := serve_eq_ok.mp h
  exact counted_reserve hc hr

/-- The chunks that were given back are counted again. -/
theorem counted_freeRange (hp : p.Sound) (hc : p.Counted) (h : p.freeRange offset size = .ok p') :
    p'.Counted := by
  obtain ⟨chunks, hocc, hr, rfl⟩ := freeRange_release h
  rw [Bitmap.allTaken_iff] at hocc
  generalize (offset - p.base) / p.chunkSize = start at hr hocc
  generalize max (p.chunksFor size) 1 = run at hr hocc
  have hdisj : Disjoint p.chunks.vacant (Finset.Ico start (start + run)) := by
    rw [Finset.disjoint_right]
    intro j hj hv
    rw [Finset.mem_Ico] at hj
    rw [Bitmap.mem_vacant, (hocc j hj.1 hj.2).2] at hv
    cases hv
  unfold Counted at *
  simp only
  rw [Bitmap.vacant_of_release hp.sized hr, Finset.card_union_of_disjoint hdisj, Nat.card_Ico,
    Nat.add_sub_cancel_left, hc]

theorem create_counted {chunkSize chunkCount base : Nat}
    (h : create id chunkSize chunkCount base = .ok p) : p.Counted := by
  unfold create at h
  split at h
  · cases h
  split at h
  · cases h
  split at h
  · cases h
  obtain rfl := Except.ok.inj h
  unfold Counted
  simp only
  rw [Bitmap.vacant_ofLength, Finset.card_range]

/-- With all chunks free there is room for what the chunks together hold. -/
theorem room_of_free (hp : p.Sound) (hfree : ∀ j, ¬p.Taken j) (hn : 0 < n) :
    p.Room n ↔ n ⌈/⌉ p.chunkSize ≤ p.chunkCount := by
  have hpos : 0 < n ⌈/⌉ p.chunkSize := by
    rw [← chunksFor_eq hp]
    exact chunksFor_pos hp hn
  constructor
  · rintro ⟨start, hrun⟩
    have := hrun.le_length hpos
    rw [hp.length] at this
    omega
  · intro hle
    refine ⟨0, fun j _ hj => ?_⟩
    by_contra hf
    exact hfree j ⟨by omega, by simpa using hf⟩

end Pool

/-! ## Batches -/

namespace Batch

/-- A pool of the batch has room for `n` bytes. -/
def Room (b : Batch) (n : Nat) : Prop := ∃ p ∈ b.pools, p.Room n

/-- A batch of this geometry: it has a pool, its limit is that of the geometry, and the pools
know how many of their chunks are free. -/
structure Regular (b : Batch) (g : Geometry) : Prop where
  limit : b.maxChunkSize = g.maxChunkSize
  pools : b.pools ≠ []
  counted : ∀ p ∈ b.pools, p.Counted

variable {b b' : Batch} {p p' : Pool} {pools : List Pool} {n : Nat} {ids ids' : Counter} {s : Segment}
  {g : Geometry}

/-- Every pool is asked. -/
theorem mem_searchOrder_iff : p ∈ b.searchOrder n ↔ p ∈ b.pools := by
  refine ⟨mem_searchOrder, fun h => ?_⟩
  unfold searchOrder
  rw [List.mem_append, List.mem_mergeSort, List.mem_filter, List.mem_filter]
  by_cases hd : n % p.chunkSize = 0
  · exact Or.inl ⟨h, decide_eq_true hd⟩
  · exact Or.inr ⟨h, decide_eq_true hd⟩

theorem Sound.addressable (h : b.Sound) (hp : p ∈ b.pools) : p.Addressable :=
  Nat.le_trans (h.inside p hp) (Nat.le_of_lt h.total_lt)

theorem askPools_of_room (hpools : ∀ p ∈ pools, p.Sound ∧ p.Counted ∧ p.Addressable) (hn : 0 < n)
    (h : ∃ p ∈ pools, p.Room n) (ids : Counter) :
    ∃ s p' ids', askPools n pools ids = (.ok (s, p'), ids') := by
  induction pools generalizing ids with
  | nil =>
    obtain ⟨p, hp, -⟩ := h
    cases hp
  | cons q rest ih =>
    obtain ⟨hq, hrest⟩ := List.forall_mem_cons.mp hpools
    rw [askPools, Pool.allocate]
    by_cases hroom : q.Room n
    · obtain ⟨s, p', hserve⟩ := Pool.serve_of_room hq.1 hq.2.1 hq.2.2 hn hroom ids.draw.1
      rw [hserve]
      exact ⟨s, p', _, rfl⟩
    · rw [Pool.serve_of_full hq.1 hn hroom]
      refine ih hrest ?_ ids.draw.2
      obtain ⟨p, hp, hr⟩ := h
      rcases List.mem_cons.mp hp with rfl | hp
      · exact absurd hr hroom
      · exact ⟨p, hp, hr⟩

theorem askPools_of_full (hpools : ∀ p ∈ pools, p.Sound) (hn : 0 < n) (h : ∀ p ∈ pools, ¬p.Room n)
    (ids : Counter) : ∃ ids', askPools n pools ids = (.error (.noMemory n), ids') := by
  induction pools generalizing ids with
  | nil => exact ⟨ids, rfl⟩
  | cons q rest ih =>
    obtain ⟨hq, hrest⟩ := List.forall_mem_cons.mp hpools
    obtain ⟨hfull, hfulls⟩ := List.forall_mem_cons.mp h
    rw [askPools, Pool.allocate, Pool.serve_of_full hq hn hfull]
    exact ih hrest hfulls ids.draw.2

theorem allocate_oversized (h : b.sizeLimit < n) (ids : Counter) :
    b.allocate ids n = (.error (.oversizedRequest n b.sizeLimit), ids) := by
  unfold allocate
  rw [if_pos h]

/-- The first pool that is asked refuses to serve nothing. -/
theorem allocate_zero (h : b.pools ≠ []) (ids : Counter) :
    b.allocate ids 0 = (.error .zeroSize, ids.draw.2) := by
  obtain ⟨p, rest, hp⟩ := List.exists_cons_of_ne_nil h
  have hmem : p ∈ b.searchOrder 0 := mem_searchOrder_iff.mpr (by rw [hp]; exact List.mem_cons_self)
  obtain ⟨first, others, horder⟩ := List.exists_cons_of_ne_nil (List.ne_nil_of_mem hmem)
  unfold allocate
  rw [if_neg (Nat.not_lt_zero _), horder, askPools, Pool.allocate, Pool.serve_eq_error.mpr (Or.inl (Pool.reserve_zero _))]

section
variable (hb : b.Sound) (hn : 0 < n) (hle : n ≤ b.sizeLimit)

include hb hn hle

theorem allocate_of_room (hc : ∀ p ∈ b.pools, p.Counted) (h : b.Room n) (ids : Counter) :
    ∃ s b' ids', b.allocate ids n = (.ok (s, b'), ids') := by
  have hpools : ∀ p ∈ b.searchOrder n, p.Sound ∧ p.Counted ∧ p.Addressable := fun p hp =>
    ⟨hb.pools p (mem_searchOrder hp), hc p (mem_searchOrder hp), hb.addressable (mem_searchOrder hp)⟩
  obtain ⟨p, hp, hroom⟩ := h
  obtain ⟨s, p', ids', hask⟩ :=
    askPools_of_room hpools hn ⟨p, mem_searchOrder_iff.mpr hp, hroom⟩ ids
  unfold allocate
  rw [if_neg (Nat.not_lt.mpr hle), hask]
  exact ⟨_, _, _, rfl⟩

theorem allocate_of_full (h : ¬b.Room n) (ids : Counter) :
    ∃ ids', b.allocate ids n = (.error (.noMemory n), ids') := by
  obtain ⟨ids', hask⟩ := askPools_of_full (fun p hp => hb.pools p (mem_searchOrder hp)) hn
    (fun p hp hroom => h ⟨p, mem_searchOrder hp, hroom⟩) ids
  unfold allocate
  rw [if_neg (Nat.not_lt.mpr hle), hask]
  exact ⟨ids', rfl⟩

end

theorem Regular.sizeLimit_eq (h : b.Regular g) : b.sizeLimit = 8 * g.maxChunkSize := by
  rw [sizeLimit, h.limit, Nat.mul_comm, oversizeFactor]

/-! ## Later states of a batch -/

theorem regular_putPool (h : b.Regular g) (hp : p'.Counted) : (b.putPool p').Regular g := by
  refine ⟨h.limit, ?_, ?_⟩
  · unfold putPool
    simpa using h.pools
  · intro q' hq'
    obtain ⟨q, hq, rfl⟩ := List.mem_map.mp hq'
    split
    · exact hp
    · exact h.counted q hq

theorem regular_allocate (hb : b.Sound) (h : b.Regular g) (ha : b.allocate ids n = (.ok (s, b'), ids')) :
    b'.Regular g := by
  unfold allocate at ha
  split at ha
  · cases ha
  split at ha
  · cases ha
  rename_i s₀ p' ids₁ hask
  simp only [Prod.mk.injEq, Except.ok.injEq] at ha
  obtain ⟨⟨-, rfl⟩, -⟩ := ha
  obtain ⟨-, -, p, hp, hserve⟩ := askPools_ok (fun p hp => hb.pools p (mem_searchOrder hp)) hask
  exact regular_putPool h (Pool.counted_serve (h.counted p (mem_searchOrder hp)) hserve)

/-! ## New batches -/

theorem layOut_bins {bins : List Bin} {bin offset stop : Nat}
    (h : layOut bins bin offset = .ok (pools, stop)) :
    pools.map Pool.bin = bins ∧ (∀ p ∈ pools, p.Counted) ∧
      stop = offset + (Geometry.mk bins).totalBytes := by
  induction bins generalizing bin offset pools with
  | nil =>
    simp only [layOut, Except.ok.injEq, Prod.mk.injEq] at h
    obtain ⟨rfl, rfl⟩ := h
    exact ⟨rfl, List.forall_mem_nil _, rfl⟩
  | cons first rest ih =>
    obtain ⟨p, pools', hp, -, hl, rfl⟩ := layOut_cons_eq_ok.mp h
    obtain ⟨-, -, hsize, hcount, -⟩ := Pool.sound_create hp
    obtain ⟨hbins, hcounted, hstop⟩ := ih hl
    refine ⟨?_, ?_, ?_⟩
    · rw [List.map_cons, hbins, Pool.bin, hsize, hcount]
    · rw [List.forall_mem_cons]
      exact ⟨Pool.create_counted hp, hcounted⟩
    · rw [hstop, Nat.add_assoc]
      rfl

/-- The pools of a usable geometry are its bins, with all that they span. -/
theorem plan_ok {total : Nat} (h : plan g = .ok (pools, total)) :
    g.bins ≠ [] ∧ pools.map Pool.bin = g.bins ∧ (∀ p ∈ pools, p.Counted) ∧ total = g.totalBytes := by
  unfold plan at h
  cases hg : g.check with
  | error e =>
    rw [hg] at h
    cases h
  | ok u =>
    rw [hg] at h
    obtain ⟨hbins, hcounted, htotal⟩ := layOut_bins h
    refine ⟨?_, hbins, hcounted, by rw [htotal, Nat.zero_add]⟩
    intro hnil
    rw [Geometry.check, hnil] at hg
    cases hg

variable {manager : String} {id : Nat} {shm shm' : Shm}

theorem create_plan (h : create manager id g shm = (.ok b, shm')) : ∃ pools,
    plan g = .ok (pools, g.totalBytes) ∧ b.pools.Perm pools ∧ b.maxChunkSize = g.maxChunkSize ∧
      b.totalBytes = g.totalBytes := by
  unfold create at h
  split at h
  · cases h
  rename_i pools total hplan
  split at h
  · cases h
  simp only [Prod.mk.injEq, Except.ok.injEq] at h
  obtain ⟨rfl, -⟩ := h
  obtain ⟨-, -, -, rfl⟩ := plan_ok hplan
  exact ⟨pools, hplan, List.mergeSort_perm _ _, rfl, rfl⟩

/-- Where the geometry is usable, a batch can be made if its region can. -/
theorem create_of_region (hplan : plan g = .ok (pools, g.totalBytes)) {r : Region}
    (h : (shm.create (staticRegionName manager id) g.totalBytes).1 = .ok r) :
    ∃ b shm', create manager id g shm = (.ok b, shm') := by
  unfold create
  simp only [hplan]
  cases hc : shm.create (staticRegionName manager id) g.totalBytes with
  | mk answer shm₁ =>
    rw [hc] at h
    obtain rfl : answer = .ok r := h
    exact ⟨_, _, rfl⟩

theorem regular_create (h : create manager id g shm = (.ok b, shm')) : b.Regular g := by
  obtain ⟨pools, hplan, hperm, hlimit, -⟩ := create_plan h
  obtain ⟨hne, hbins, hcounted, -⟩ := plan_ok hplan
  refine ⟨hlimit, ?_, fun p hp => hcounted p (hperm.mem_iff.mp hp)⟩
  intro hnil
  rw [hnil, List.nil_perm] at hperm
  rw [hperm] at hbins
  exact hne hbins.symm

/-- A new batch has room for what fits into one of the bins. -/
theorem room_of_create (h : create manager id g shm = (.ok b, shm')) (hn : 0 < n) :
    b.Room n ↔ ∃ bin ∈ g.bins, n ⌈/⌉ bin.chunkSize ≤ bin.chunkCount := by
  obtain ⟨pools, hplan, hperm, -⟩ := create_plan h
  obtain ⟨-, hbins, -⟩ := plan_ok hplan
  obtain ⟨-, -, hsound, hfree, -⟩ := create_sound h
  rw [← hbins]
  constructor
  · rintro ⟨p, hp, hroom⟩
    exact ⟨p.bin, List.mem_map_of_mem (hperm.mem_iff.mp hp),
      (Pool.room_of_free (hsound.pools p hp) (hfree p hp) hn).mp hroom⟩
  · rintro ⟨bin, hbin, hle⟩
    obtain ⟨p, hp, rfl⟩ := List.mem_map.mp hbin
    have hp := hperm.mem_iff.mpr hp
    exact ⟨p, hp, (Pool.room_of_free (hsound.pools p hp) (hfree p hp) hn).mpr hle⟩

end Batch
end TierAlloc
