import TierAlloc.Proofs.Static.Choice

/-!
# How a batch is laid out

The pools of a batch lie in its region as the bins stand in the geometry, one after the other
from its first byte to its last, whatever was done with the batch and although the pools
themselves stand by size (`Batch.Follows`). A segment that the batch serves is in the span of
its pool at an aligned offset, so that the batch always finds its bytes (`Batch.Within`), and
segments of two bins share none. There is such a batch only if the bins together end below 2^64,
which is not checked with the geometry: one that is larger passes the check, and overflows when a
batch is to be made of it.

**Results.**
* `Batch.layout_exact`: for every geometry, every batch that is made by it and everything
  that is done with the batch.
* `Batch.layout_overflows`: a geometry that passes the check, and no batch can be made of it.
-/
namespace TierAlloc.Batch

variable {g : Geometry} {b b₀ : Batch} {p q : Pool} {bin : Bin} {i : Nat} {ids ids₀ : Counter} {s s' : Segment}
  {manager : String} {id : Nat} {shm shm' : Shm} {events : List Event}

/-- The pools of the batch cut its region as the geometry says. -/
structure Follows (b : Batch) (g : Geometry) : Prop where
  /-- The order of the pools is not that of the bins. -/
  sorted : b.pools.Pairwise fun p q => q.chunkSize ≤ p.chunkSize
  mem : ∀ p, p ∈ b.pools ↔ b.pool? p.id = some p
  bin : ∀ i, (b.pool? i).map Pool.bin = g.bins[i]?
  base : ∀ i p, b.pool? i = some p → p.base = g.start i
  first : ∀ p, b.pool? 0 = some p → p.base = 0
  next : ∀ i p q, b.pool? i = some p → b.pool? (i + 1) = some q → q.base = p.base + p.span
  last : ∀ i p, b.pool? i = some p → b.pool? (i + 1) = none → p.base + p.span = b.totalBytes
  apart : b.pools.Pairwise fun p q => p.base + p.span ≤ q.base ∨ q.base + q.span ≤ p.base
  covered : ∀ x, x < b.totalBytes ↔ ∃ p ∈ b.pools, p.base ≤ x ∧ x < p.base + p.span
  total : b.totalBytes = g.totalBytes
  /-- All of these sums are 64-bit numbers. -/
  told : g.total = .ok b.totalBytes
  spans : ∀ p ∈ b.pools, p.spanWord = .ok p.span
  region : b.region.size = b.totalBytes

/-- The segment is in the span of the pool, and the batch finds it there. -/
structure Within (b : Batch) (s : Segment) (p : Pool) : Prop where
  pool : b.pool? p.id = some p
  location : s.location? = some (b.id, p.id)
  aligned : alignment ∣ s.offset
  base_le : p.base ≤ s.offset
  end_le : s.offset + s.size ≤ p.base + p.span
  start : b.segmentStart s = .ok s.offset

section
variable (hc : create manager id g shm = (.ok b₀, shm')) (h : b₀.Valid b)

include hc h

/-- But for the chunks that are taken, the pools stay as they were laid out. -/
theorem Valid.pool?_eq (i : Nat) :
    (b.pool? i).map Pool.clear = g.bins[i]?.map fun bin => Pool.ofBin i bin (g.start i) := by
  rw [← pool?_clear, h.cleared, create_pool? hc]

theorem Valid.bin_of_pool (hp : b.pool? i = some p) : g.bins[i]? = some p.bin ∧ p.base = g.start i := by
  have hpool := h.pool?_eq hc i
  rw [hp] at hpool
  obtain ⟨bin, hbin, hp⟩ := Option.map_eq_some_iff.mp hpool.symm
  have hbin' : p.bin = bin := (congrArg Pool.bin hp).symm
  exact ⟨by rw [hbin', hbin], (congrArg Pool.base hp).symm⟩

theorem Valid.bins_eq (i : Nat) : (b.pool? i).map Pool.bin = g.bins[i]? := by
  cases hp : b.pool? i with
  | some p => exact (h.bin_of_pool hc hp).1.symm
  | none =>
    have hpool := h.pool?_eq hc i
    rw [hp] at hpool
    exact (Option.map_eq_none_iff.mp hpool.symm).symm

theorem Valid.totalBytes_eq : b.totalBytes = g.totalBytes := by
  obtain ⟨-, -, -, -, htotal⟩ := create_plan hc
  rw [← htotal, ← h.cleared]
  rfl

/-- A pool starts where the one of the bin before ends. -/
theorem Valid.next (hp : b.pool? i = some p) (hq : b.pool? (i + 1) = some q) : q.base = p.base + p.span := by
  obtain ⟨hbin, hbase⟩ := h.bin_of_pool hc hp
  rw [(h.bin_of_pool hc hq).2, Geometry.start_succ hbin, hbase]
  rfl

theorem Valid.last (hp : b.pool? i = some p) (hnone : b.pool? (i + 1) = none) :
    p.base + p.span = b.totalBytes := by
  obtain ⟨hbin, hbase⟩ := h.bin_of_pool hc hp
  have hend := h.bins_eq hc (i + 1)
  rw [hnone] at hend
  have hlast : g.bins.length = i + 1 := by
    have := (List.getElem?_eq_some_iff.mp hbin).1
    have := List.getElem?_eq_none_iff.mp hend.symm
    omega
  rw [h.totalBytes_eq hc, ← Geometry.start_length, hlast, Geometry.start_succ hbin, hbase]
  rfl

/-- The pools reach over every byte, and no further. -/
theorem Valid.covered (x : Nat) : x < b.totalBytes ↔ ∃ p ∈ b.pools, p.base ≤ x ∧ x < p.base + p.span := by
  constructor
  · intro hx
    rw [h.totalBytes_eq hc] at hx
    obtain ⟨i, bin, hbin, hl, hu⟩ := Geometry.exists_bin hx
    rw [← h.bins_eq hc i] at hbin
    obtain ⟨p, hp, rfl⟩ := Option.map_eq_some_iff.mp hbin
    rw [← (h.bin_of_pool hc hp).2] at hl hu
    exact ⟨p, ((pool?_eq_some h.tidy.sound).mp hp).1, hl, hu⟩
  · rintro ⟨p, hp, -, hu⟩
    exact Nat.lt_of_lt_of_le hu (h.tidy.sound.inside p hp)

theorem Valid.follows : b.Follows g := by
  have hmem : ∀ p, p ∈ b.pools ↔ b.pool? p.id = some p := fun p => by
    rw [pool?_eq_some h.tidy.sound, and_iff_left rfl]
  have hregion : b.region.size = b.totalBytes := by
    obtain ⟨-, -, -, -, hmade⟩ := create_sound hc
    rw [← h.cleared] at hmade
    exact hmade.size_eq
  refine ⟨h.tidy.sorted.imp fun hl => ?_, hmem, h.bins_eq hc, fun i p hp => (h.bin_of_pool hc hp).2,
    fun p hp => ?_, fun i p q => h.next hc, fun i p => h.last hc, h.tidy.sound.apart, h.covered hc,
    h.totalBytes_eq hc, Geometry.total_eq_ok.mpr ⟨?_, h.totalBytes_eq hc⟩, fun p hp => Word.mul_of_lt ?_, hregion⟩
  · unfold Pool.Leads at hl
    omega
  · rw [(h.bin_of_pool hc hp).2, Geometry.start_zero]
  · rw [← h.totalBytes_eq hc]
    exact h.tidy.sound.total_lt
  · have := h.tidy.sound.inside p hp
    have := h.tidy.sound.total_lt
    show p.span < wordRange
    omega

/-- The chunks of a pool all start at aligned offsets. -/
theorem Valid.aligned (hp : b.pool? i = some p) : alignment ∣ p.base ∧ alignment ∣ p.chunkSize := by
  obtain ⟨pools, hplan, -⟩ := create_plan hc
  have husable := (g.check_iff_usable.mp (plan_check hplan)).2
  obtain ⟨hbin, hbase⟩ := h.bin_of_pool hc hp
  rw [hbase]
  exact ⟨Geometry.aligned_start husable i, (husable _ (List.mem_of_getElem? hbin)).aligned⟩

theorem Valid.within {p₀ : Pool} {offset : Nat} (hs : b₀.Placed s p₀ offset) : ∃ p, b.Within s p := by
  obtain ⟨p, ⟨hp, hkind, -, hfits⟩, -⟩ := h.placed_of_new hs
  have hsound := h.tidy.sound
  have hmem := ((pool?_eq_some hsound).mp hp).1
  have hoffset : s.offset = offset := by rw [Segment.offset, hkind, Kind.offset]
  have hinside := hfits.inside (hsound.pools p hmem)
  obtain ⟨hbase, hchunk⟩ := h.aligned hc hp
  refine ⟨p, hp, ?_, ?_, ?_, ?_, ?_⟩
  · rw [Segment.location?, hkind]
  · rw [hoffset, (hfits.within (hsound.pools p hmem)).1]
    exact Nat.dvd_add hbase (Dvd.dvd.mul_left hchunk _)
  · rw [hoffset]
    exact hfits.base_le
  · rwa [hoffset]
  · have hregion := (h.follows hc).region
    have hlocate : b.locate s = .ok p.id := by simp [locate, hkind]
    have hcovers : b.region.covers s.offset s.size = true := by
      have := hsound.inside p hmem
      rw [Region.covers, decide_eq_true_iff, hregion]
      omega
    rw [segmentStart, hlocate]
    simp only [bind, Except.bind, hcovers, if_true]
    rfl

end

/-- Segments of two bins share no byte. -/
theorem Within.apart (hb : b.Sound) (h : b.Within s p) (h' : b.Within s' q) (hne : s.location? ≠ s'.location?) :
    s.offset + s.size ≤ s'.offset ∨ s'.offset + s'.size ≤ s.offset := by
  have hp := ((pool?_eq_some hb).mp h.pool).1
  have hq := ((pool?_eq_some hb).mp h'.pool).1
  have hpq : p.id ≠ q.id := fun hid => hne (by rw [h.location, h'.location, hid])
  have := h.base_le
  have := h.end_le
  have := h'.base_le
  have := h'.end_le
  rcases hb.pools_apart hp hq hpq with hle | hle <;> omega

/-- Nothing is made of a geometry that is too large. -/
theorem create_of_wide (hcheck : g.check = .ok ()) (hwide : wordRange ≤ g.totalBytes) :
    ∃ fault, g.total = .error (.overflow fault) ∧
      ∀ manager id shm, create manager id g shm = (.error (.overflow fault), shm) := by
  obtain ⟨fault, htotal, hplan⟩ := plan_of_wide hcheck hwide
  refine ⟨fault, htotal, fun manager id shm => ?_⟩
  unfold create
  rw [hplan]

/-- A geometry that is checked can be laid out, each pool where the ones before it end, if it ends below
2^64. A batch that is made by it stays laid out so, and what it serves lies in its own bin. -/
theorem layout_exact (g : Geometry) :
    (g.check = .ok () ↔ g.bins ≠ [] ∧
      ∀ i bin, g.bins[i]? = some bin → ∃ p, Pool.create i bin.chunkSize bin.chunkCount (g.start i) = .ok p) ∧
    ((∃ laid, plan g = .ok laid) ↔ g.check = .ok () ∧ g.totalBytes < wordRange) ∧
    (g.check = .ok () → wordRange ≤ g.totalBytes → ∃ fault, g.total = .error (.overflow fault) ∧
      ∀ manager id shm, create manager id g shm = (.error (.overflow fault), shm)) ∧
    ∀ manager id shm b₀ shm' ids₀ events b ids, create manager id g shm = (.ok b₀, shm') →
      Run Step (b₀, ids₀) events (b, ids) → b.Follows g ∧
        (∀ n s, .allocate n (.ok s) ∈ events → ∃ p, b.Within s p) ∧
        ∀ n n' s s', .allocate n (.ok s) ∈ events → .allocate n' (.ok s') ∈ events →
          s.location? ≠ s'.location? → s.offset + s.size ≤ s'.offset ∨ s'.offset + s'.size ≤ s.offset := by
  refine ⟨g.check_iff, plan_iff g, create_of_wide, fun manager id shm b₀ shm' ids₀ events b ids hc hrun => ?_⟩
  obtain ⟨hvalid, hserved⟩ := valid_run hc hrun
  have hwithin : ∀ n s, .allocate n (.ok s) ∈ events → ∃ p, b.Within s p := fun n s hs => by
    obtain ⟨-, p₀, offset, hplaced⟩ := hserved n s hs
    exact hvalid.within hc hplaced
  refine ⟨hvalid.follows hc, hwithin, fun n n' s s' hs hs' hne => ?_⟩
  obtain ⟨p, hp⟩ := hwithin n s hs
  obtain ⟨q, hq⟩ := hwithin n' s' hs'
  exact hp.apart hvalid.tidy.sound hq hne

/-- Sixteen bytes are served from the second bin, and then eight from the first. -/
theorem layout_of_sample : ∃ b : Batch, b.Follows sampleGeometry ∧
    (∃ p, b.Within ⟨0, 16, "m", .static 0 1 32⟩ p) ∧ ∃ p, b.Within ⟨1, 8, "m", .static 0 0 0⟩ p := by
  have ha : sampleUsed.allocate ⟨1⟩ 8 = (.ok (⟨1, 8, "m", .static 0 0 0⟩,
      { sampleUsed with pools := [⟨1, 16, 1, 32, ⟨1, #[0]⟩, 0⟩, .ofBin 2 ⟨16, 1⟩ 48,
        ⟨0, 8, 4, 0, ⟨4, #[14]⟩, 3⟩] }), ⟨2⟩) := by
    decide +kernel
  obtain ⟨hfollows, hwithin, -⟩ := (layout_exact sampleGeometry).2.2.2 "m" 0 .empty sampleNew sampleMemory {} _ _ _
    sample_create (sample_run.next (.allocated ha))
  exact ⟨_, hfollows, hwithin 16 _ (by simp [sampleEvents]), hwithin 8 _ (by simp)⟩

def wideGeometry : Geometry := ⟨[⟨2 ^ 60, 16⟩, ⟨8, 1⟩]⟩

/-- **Counterexample**: the check accepts the geometry, but the first bin alone spans 2^64 bytes, so that there
is no place for the second one. -/
theorem layout_overflows : wideGeometry.check = .ok () ∧ (¬∃ laid, plan wideGeometry = .ok laid) ∧
    create "m" 0 wideGeometry .empty = (.error (.overflow .product), .empty) := by
  have hplan : plan wideGeometry = .error (.overflow .product) := by decide +kernel
  refine ⟨by decide +kernel, fun ⟨laid, h⟩ => ?_, ?_⟩
  · rw [hplan] at h
    cases h
  · unfold create
    rw [hplan]

end TierAlloc.Batch
