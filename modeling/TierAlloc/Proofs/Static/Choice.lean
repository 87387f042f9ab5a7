import TierAlloc.Proofs.Static.Usage

/-!
# The pool that a request goes to

Which pool of a batch serves a request, in every state that a new batch reaches, and what it
costs. The pools are asked in the order of `Pool.Before`, each of them once and each for one id,
and the first with room serves. What its chunks hold beyond the request is wasted
(`Pool.padding`). The order goes by the remainder, the bytes that the request puts into its
last chunk, and not by those that it leaves empty there. So nothing is wasted where that can
be had, but among pools that all waste something the order may choose the one that wastes more.

**Results.**
* `Batch.search_exact`: the answer to every request that is not too large.
* `Batch.least_remainder`: what the order makes the least, and when it is the padding.
* `Batch.least_padding_missed`: ten bytes go to a chunk of 128 bytes, past one of 64.
-/
namespace TierAlloc.Batch

variable {b b' b₀ : Batch} {p q : Pool} {before : List Pool} {n : Nat} {ids ids' ids₀ : Counter} {s : Segment}
  {g : Geometry} {manager : String} {id : Nat} {shm shm' : Shm} {events : List Event}

/-! ## A batch with two bins of one size

The first chunk of 16 bytes is taken. -/

def sampleGeometry : Geometry := ⟨[⟨8, 4⟩, ⟨16, 1⟩, ⟨16, 1⟩]⟩

def sampleNew : Batch where
  id := 0
  manager := "m"
  pools := [.ofBin 1 ⟨16, 1⟩ 32, .ofBin 2 ⟨16, 1⟩ 48, .ofBin 0 ⟨8, 4⟩ 0]
  region := ⟨"m#batch0#statbin", 0, 64, some 0⟩
  totalBytes := 64
  maxChunkSize := 16

def sampleUsed : Batch :=
  { sampleNew with pools := [⟨1, 16, 1, 32, ⟨1, #[0]⟩, 0⟩, .ofBin 2 ⟨16, 1⟩ 48, .ofBin 0 ⟨8, 4⟩ 0] }

def sampleEvents : List Event := [.allocate 16 (.ok ⟨0, 16, "m", .static 0 1 32⟩)]

def sampleMemory : Shm := (Shm.empty.create (staticRegionName "m" 0) 64).2

theorem sample_create : create "m" 0 sampleGeometry .empty = (.ok sampleNew, sampleMemory) := by
  have hplan : plan sampleGeometry =
      .ok ([.ofBin 0 ⟨8, 4⟩ 0, .ofBin 1 ⟨16, 1⟩ 32, .ofBin 2 ⟨16, 1⟩ 48], 64) := by decide +kernel
  have hsorted : bySize [.ofBin 0 ⟨8, 4⟩ 0, .ofBin 1 ⟨16, 1⟩ 32, .ofBin 2 ⟨16, 1⟩ 48] = sampleNew.pools := by
    simp [bySize, List.mergeSort, Pool.ofBin, sampleNew]
  have hregion : Shm.empty.create (staticRegionName "m" 0) 64 = (.ok sampleNew.region, sampleMemory) :=
    Prod.ext (by decide +kernel) rfl
  unfold create
  simp only [hplan, hregion, hsorted]
  rfl

theorem sample_run : Run Step (sampleNew, {}) sampleEvents (sampleUsed, ⟨1⟩) :=
  .one (.allocated (by decide +kernel))

/-! ## The search -/

/-- The batch serves `n` bytes with the segment `s`, from the run at `start` of its pool `p`,
after those `before` it were asked in vain; `b'` is the batch after it. -/
structure Serves (b : Batch) (ids : Counter) (n : Nat) (before : List Pool) (p : Pool) (start : Nat)
    (s : Segment) (b' : Batch) : Prop where
  answer : b.allocate ids n = (.ok (s, b'), ⟨ids.issued + before.length + 1⟩)
  segment : s = ⟨ids.issued + before.length, n, b.manager, .static b.id p.id (p.base + start * p.chunkSize)⟩
  vacant : p.chunks.FreeRun start (n ⌈/⌉ p.chunkSize)
  lowest : ∀ start', p.chunks.FreeRun start' (n ⌈/⌉ p.chunkSize) → start ≤ start'
  taken : ∃ p', b'.pool? p.id = some p' ∧ ∀ j, p'.chunks.isFree j = true ↔
    p.chunks.isFree j = true ∧ ¬(start ≤ j ∧ j < start + n ⌈/⌉ p.chunkSize)
  others : ∀ bin, bin ≠ p.id → b'.pool? bin = b.pool? bin
  /-- Nothing but chunks is taken. -/
  cleared : b'.clear = b.clear
  restored : b'.free s = .ok b

/-- How the batch answers a request for `n` bytes. -/
structure Searches (b : Batch) (ids : Counter) (n : Nat) : Prop where
  distinct : (b.pools.map Pool.id).Nodup
  served : b.Room n → ∃ before p start s b', b.Chosen n before p ∧ b.Serves ids n before p start s b'
  refused : (b.allocate ids n).1 = .error (.noMemory n) ↔ ¬b.Room n
  drawn : ¬b.Room n → (b.allocate ids n).2.issued = ids.issued + b.pools.length

/-- What a batch serves can be given back to it, and that undoes it. -/
theorem Chosen.restored (h : b.Tidy) (hc : b.Chosen n before p) {p' : Pool}
    (ha : p.allocate ids n = (.ok (s, p'), ids')) :
    (b.putPool p').free ((s.inBatch b.id).stamp b.manager) = .ok b := by
  have hp := h.pools p hc.mem
  have hv := hp.allocate ha
  have hpool : b.pool? p.id = some p := (pool?_eq_some h.sound).mpr ⟨hc.mem, rfl⟩
  have hput : b.pool? p'.id = some p := by rw [hv.same.id, hpool]
  obtain ⟨-, -, offset, hserved⟩ := Pool.serve_ok hp.sound (Prod.mk.inj ha).1
  let served : Segment := { s with manager := b.manager, kind := .static b.id p.id offset }
  have hs : (s.inBatch b.id).stamp b.manager = served := by
    rw [Segment.stamp, Segment.inBatch, hserved.kind]
  have hkind : served.kind = .static b.id p'.id offset := by rw [hv.same.id]
  have hlocate : (b.putPool p').locate served = .ok p.id := by
    simp [served, locate, putPool]
  have hfree : p'.freeSegment served = .ok p := by
    have hback := (hp.restored ha).2
    rw [Segment.offset, hserved.kind, Kind.offset] at hback
    rw [Pool.freeSegment_eq hkind]
    exact hback
  rw [hs, Batch.free, hlocate]
  simp only [bind, Except.bind, pool?_putPool hput, hv.same.id, if_true, hfree]
  rw [putPool_putPool h.sound hpool hv.same.id]
  rfl

/-- The batch serves from the lowest run of its chosen pool. -/
theorem Chosen.serves (h : b.Tidy) (hc : b.Chosen n before p) (hn : 0 < n) (hle : n ≤ b.sizeLimit)
    (ids : Counter) : ∃ start s b', b.Serves ids n before p start s b' := by
  obtain ⟨s, p', hanswer, hbatch⟩ := hc.allocate h hn hle ids
  have hp := h.pools p hc.mem
  have hv := hp.allocate hanswer
  have hpool : b.pool? p'.id = some p := by rw [hv.same.id, (pool?_eq_some h.sound).mpr ⟨hc.mem, rfl⟩]
  obtain ⟨-, start, chunks, hlowest, ho, hs, hp'⟩ := Pool.serve_inversion (Prod.mk.inj hanswer).1
  rw [Pool.chunksFor_eq hp.sound] at hlowest ho
  refine ⟨start, _, _, hbatch, ?_, hlowest.1, fun _ hrun => hlowest.2 hrun, ⟨p', ?_, fun j => ?_⟩,
    fun bin hbin => ?_, (h.put hpool hv).2, hc.restored h hanswer⟩
  · rw [hs]
    rfl
  · rw [pool?_putPool hpool, if_pos hv.same.id.symm]
  · rw [hp']
    simp only [Bitmap.isFree_of_occupy ho, Bool.and_eq_true, Bool.not_eq_true', decide_eq_false_iff_not]
  · rw [pool?_putPool hpool, if_neg (by rwa [hv.same.id])]

/-- In every state that a new batch reaches, a request is served by the first pool with room, in the
order in which they are asked, and refused if no pool has room. Each pool that is asked draws one id. -/
theorem search_exact (hc : create manager id g shm = (.ok b₀, shm')) (hrun : Run Step (b₀, ids₀) events (b, ids))
    (hn : 0 < n) (hle : n ≤ b.sizeLimit) : b.Searches ids n := by
  have h := (valid_run hc hrun).1.tidy
  have hserved : b.Room n → ∃ before p start s b', b.Chosen n before p ∧ b.Serves ids n before p start s b' := by
    intro hroom
    obtain ⟨before, p, hc⟩ := h.exists_chosen hroom
    obtain ⟨start, s, b', hs⟩ := hc.serves h hn hle ids
    exact ⟨before, p, start, s, b', hc, hs⟩
  refine ⟨h.sound.ids, hserved, ⟨fun he hroom => ?_, fun hfull => ?_⟩, fun hfull => ?_⟩
  · obtain ⟨before, p, start, s, b', -, hs⟩ := hserved hroom
    rw [hs.answer] at he
    cases he
  · rw [h.allocate_full hn hfull hle]
  · rw [h.allocate_full hn hfull hle]

/-- The first pool of 16 bytes is full, so the second one serves, with the second id that is drawn. -/
theorem search_of_full_pool : ∃ b', sampleUsed.allocate ⟨1⟩ 16 = (.ok (⟨2, 16, "m", .static 0 2 48⟩, b'), ⟨3⟩) ∧
    sampleUsed.Searches ⟨1⟩ 16 :=
  ⟨{ sampleUsed with pools := [⟨1, 16, 1, 32, ⟨1, #[0]⟩, 0⟩, ⟨2, 16, 1, 48, ⟨1, #[0]⟩, 0⟩, .ofBin 0 ⟨8, 4⟩ 0] },
    by decide +kernel, search_exact sample_create sample_run (by decide) (by decide)⟩

end TierAlloc.Batch

/-! ## What is wasted -/

namespace TierAlloc

namespace Pool

/-- The bytes that `n` bytes leave unused in the chunks that they take. -/
def padding (p : Pool) (n : Nat) : Nat := n ⌈/⌉ p.chunkSize * p.chunkSize - n

variable {p q : Pool} {n : Nat}

/-- Only the last chunk is not full. -/
theorem padding_eq (hp : 0 < p.chunkSize) (n : Nat) :
    p.padding n = if p.chunkSize ∣ n then 0 else p.chunkSize - n % p.chunkSize := by
  have hdiv := Nat.div_add_mod' n p.chunkSize
  have hmod := Nat.mod_lt n hp
  have hup : n ⌈/⌉ p.chunkSize = n / p.chunkSize + if p.chunkSize ∣ n then 0 else 1 := by
    rw [Nat.ceilDiv_eq_add_pred_div, Nat.div_eq_iff hp, Nat.add_mul]
    split <;> (rename_i hd; rw [Nat.dvd_iff_mod_eq_zero] at hd; omega)
  rw [padding, hup, Nat.add_mul]
  split
  · rename_i hd
    rw [Nat.dvd_iff_mod_eq_zero] at hd
    omega
  · omega

/-- Where the remainder is least, this is what decides about the padding. -/
theorem padding_le_iff (hp : 0 < p.chunkSize) (hq : 0 < q.chunkSize) (h : n % p.chunkSize ≤ n % q.chunkSize) :
    p.padding n ≤ q.padding n ↔
      p.chunkSize ∣ n ∨ p.chunkSize - n % p.chunkSize ≤ q.chunkSize - n % q.chunkSize := by
  have hpmod := Nat.mod_lt n hp
  have hqmod := Nat.mod_lt n hq
  rw [padding_eq hp, padding_eq hq]
  by_cases hd : p.chunkSize ∣ n
  · simp [hd]
  · have hd' : ¬q.chunkSize ∣ n := by
      rw [Nat.dvd_iff_mod_eq_zero] at *
      omega
    simp [hd, hd']

end Pool

namespace Batch

variable {b b' b₀ : Batch} {p : Pool} {before : List Pool} {n : Nat} {ids ids' ids₀ : Counter} {s : Segment}
  {g : Geometry} {manager : String} {id : Nat} {shm shm' : Shm} {events : List Event}

/-- What the choice of the pool `p` for `n` bytes is worth, beside the other pools with room. -/
structure Thrifty (b : Batch) (n : Nat) (p : Pool) : Prop where
  mem : p ∈ b.pools
  room : p.Room n
  least : ∀ q ∈ b.pools, q.Room n → n % p.chunkSize ≤ n % q.chunkSize
  largest : ∀ q ∈ b.pools, q.Room n → n % p.chunkSize = n % q.chunkSize → q.chunkSize ≤ p.chunkSize
  exact : ∀ q ∈ b.pools, q.Room n → q.chunkSize ∣ n → p.padding n = 0
  padding : ∀ q ∈ b.pools, q.Room n → (p.padding n ≤ q.padding n ↔
    p.chunkSize ∣ n ∨ p.chunkSize - n % p.chunkSize ≤ q.chunkSize - n % q.chunkSize)

/-- The first pool with room leaves the least remainder. -/
theorem Chosen.thrifty (h : b.Tidy) (hc : b.Chosen n before p) : b.Thrifty n p := by
  have hpos : ∀ q ∈ b.pools, 0 < q.chunkSize := fun q hq => (h.sound.pools q hq).chunk_pos
  have hleast : ∀ q ∈ b.pools, q.Room n → n % p.chunkSize ≤ n % q.chunkSize := by
    intro q hq hroom
    rcases hc.first hq hroom with rfl | hbefore
    · exact Nat.le_refl _
    · rw [Pool.before_iff] at hbefore
      omega
  refine ⟨hc.mem, hc.room, hleast, fun q hq hroom heq => ?_, fun q hq hroom hd => ?_, fun q hq hroom => ?_⟩
  · rcases hc.first hq hroom with rfl | hbefore
    · exact Nat.le_refl _
    · rw [Pool.before_iff, Pool.Leads] at hbefore
      omega
  · have hle := hleast q hq hroom
    rw [Nat.mod_eq_zero_of_dvd hd] at hle
    rw [Pool.padding_eq (hpos p hc.mem), if_pos (Nat.dvd_of_mod_eq_zero (Nat.le_zero.mp hle))]
  · exact Pool.padding_le_iff (hpos p hc.mem) (hpos q hq) (hleast q hq hroom)

/-- In every state that a new batch reaches, the pool that serves a request leaves the least remainder of
all pools with room. -/
theorem least_remainder (hc : create manager id g shm = (.ok b₀, shm'))
    (hrun : Run Step (b₀, ids₀) events (b, ids)) (ha : b.allocate ids n = (.ok (s, b'), ids')) :
    ∃ p, s.location? = some (b.id, p.id) ∧ b.Thrifty n p := by
  have h := (valid_run hc hrun).1.tidy
  obtain ⟨-, -, before, p, s₀, p', hc, hanswer, rfl, -⟩ := allocate_chosen h ha
  refine ⟨p, ?_, hc.thrifty h⟩
  obtain ⟨-, -, offset, hserved⟩ := Pool.serve_ok (h.pools p hc.mem).sound (Prod.mk.inj hanswer).1
  rw [Segment.stamp, Segment.inBatch, hserved.kind]
  rfl

/-- Twelve bytes fill no chunk, and of 8 and 16 bytes they leave the lower remainder in those of 8. -/
theorem least_remainder_of_twelve : ∃ s b', sampleUsed.allocate ⟨1⟩ 12 = (.ok (s, b'), ⟨2⟩) ∧
    ∃ p, s.location? = some (0, p.id) ∧ sampleUsed.Thrifty 12 p := by
  have horder : sampleUsed.searchOrder 12 =
      [.ofBin 0 ⟨8, 4⟩ 0, ⟨1, 16, 1, 32, ⟨1, #[0]⟩, 0⟩, .ofBin 2 ⟨16, 1⟩ 48] := by
    simp [searchOrder, List.mergeSort, Pool.ofBin, sampleUsed]
  have ha : sampleUsed.allocate ⟨1⟩ 12 = (.ok (⟨1, 12, "m", .static 0 0 0⟩,
      { sampleUsed with pools := [⟨1, 16, 1, 32, ⟨1, #[0]⟩, 0⟩, .ofBin 2 ⟨16, 1⟩ 48,
        ⟨0, 8, 4, 0, ⟨4, #[12]⟩, 2⟩] }), ⟨2⟩) := by
    rw [Batch.allocate, horder]
    decide +kernel
  exact ⟨_, _, ha, least_remainder sample_create sample_run ha⟩

/-! Bins of 64 and of 128 bytes. -/

def twoSizes : Batch where
  id := 0
  manager := "m"
  pools := [.ofBin 1 ⟨128, 1⟩ 64, .ofBin 0 ⟨64, 1⟩ 0]
  region := ⟨"m#batch0#statbin", 0, 192, some 0⟩
  totalBytes := 192
  maxChunkSize := 128

/-- Both bins have room for ten bytes, which leave the same remainder in both. They go to the larger
chunk, although less is wasted in the other one. -/
theorem least_padding_missed : (create "m" 0 ⟨[⟨64, 1⟩, ⟨128, 1⟩]⟩ .empty).1 = .ok twoSizes ∧
    ∃ b', twoSizes.allocate {} 10 = (.ok (⟨0, 10, "m", .static 0 1 64⟩, b'), ⟨1⟩) ∧
    ∃ p q, twoSizes.pool? 1 = some p ∧ twoSizes.pool? 0 = some q ∧ q.Room 10 ∧ q.padding 10 < p.padding 10 := by
  have hplan : plan ⟨[⟨64, 1⟩, ⟨128, 1⟩]⟩ = .ok ([.ofBin 0 ⟨64, 1⟩ 0, .ofBin 1 ⟨128, 1⟩ 64], 192) := by
    decide +kernel
  have hsorted : bySize [.ofBin 0 ⟨64, 1⟩ 0, .ofBin 1 ⟨128, 1⟩ 64] = twoSizes.pools := by
    simp [bySize, List.mergeSort, Pool.ofBin, twoSizes]
  have hregion : Shm.empty.create (staticRegionName "m" 0) 192 =
      (.ok twoSizes.region, (Shm.empty.create (staticRegionName "m" 0) 192).2) :=
    Prod.ext (by decide +kernel) rfl
  have horder : twoSizes.searchOrder 10 = twoSizes.pools := by
    simp [searchOrder, List.mergeSort, Pool.ofBin, twoSizes]
  refine ⟨?_, { twoSizes with pools := [⟨1, 128, 1, 64, ⟨1, #[0]⟩, 0⟩, .ofBin 0 ⟨64, 1⟩ 0] }, ?_,
    .ofBin 1 ⟨128, 1⟩ 64, .ofBin 0 ⟨64, 1⟩ 0, by decide +kernel, by decide +kernel, ⟨0, ?_⟩, by decide⟩
  · unfold create
    rw [hplan]
    simp only
    rw [hregion, hsorted]
    rfl
  · rw [Batch.allocate, horder]
    decide +kernel
  · intro j _ hj
    obtain rfl : j = 0 := Nat.lt_one_iff.mp hj
    decide +kernel

end Batch
end TierAlloc
