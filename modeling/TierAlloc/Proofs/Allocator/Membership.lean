import TierAlloc.Cache.Basic
import TierAlloc.Ephemeral
import TierAlloc.Proofs.Static.Choice

/-!
# Which segments a tier takes back

A segment that is given back says what it is: its tier, its id, its size, its place and the
manager that it belongs to. A batch goes by tier, batch, bin and bytes (`Batch.FreeAnswer`),
the other two tiers go by tier and id. None of them looks at the manager. So whatever names
nothing of the tier's own is refused, and that is all: a segment of another manager that has
the same numbers as one that is taken here is accepted, and what goes is the tier's own.

**Results.**
* `membership_exact`: what each tier answers to which segment.
* `stranger_freed`: a batch frees its own chunk for a segment of another manager.
-/
namespace TierAlloc

namespace Pool

variable {p : Pool} {offset size : Nat} {answer : Except Error Pool}

/-- The answer is determined. -/
theorem freeAnswer_iff (hp : p.Sound) : p.freeRange offset size = answer ↔ p.FreeAnswer offset size answer := by
  have hanswer := freeRange_answer hp offset size
  refine ⟨fun h => h ▸ hanswer, fun h => ?_⟩
  cases h with
  | outside h => exact (freeRange_outside_iff hp).mpr h
  | twice h hj hfree => exact (freeRange_twice_iff hp).mpr ⟨h, _, hj, hfree⟩
  | freed h htaken hr =>
    obtain ⟨p', hf⟩ := freeRange_freed hp h htaken
    obtain ⟨chunks, -, hr', rfl⟩ := freeRange_inversion hp hf
    obtain rfl := Except.ok.inj (hr.symm.trans hr')
    exact hf

end Pool

namespace Batch

/-- The segment is said to be in the pool `p` of the batch. -/
structure Names (b : Batch) (s : Segment) (p : Pool) : Prop where
  location : s.location? = some (b.id, p.id)
  pool : b.pool? p.id = some p

/-- The answers to giving the segment back. -/
inductive FreeAnswer (b : Batch) (s : Segment) : Except Error Batch → Prop
  | tier (h : s.tier ≠ .static) : FreeAnswer b s (.error (.typeMismatch s.id .static s.tier))
  | unknown {batch bin : Nat} (h : s.location? = some (batch, bin)) (hno : batch ≠ b.id ∨ b.pool? bin = none) :
      FreeAnswer b s (.error (.segmentNotFound s.id))
  | pool {p : Pool} {answer : Except Error Pool} (h : b.Names s p) (ha : p.FreeAnswer s.offset s.size answer) :
      FreeAnswer b s (answer.map b.putPool)

/-- What the batch does with the segment, whoever made it. -/
structure TakesBack (b : Batch) (s : Segment) : Prop where
  /-- The manager is not looked at. -/
  anyone : ∀ manager, b.free (s.stamp manager) = b.free s ∧ b.segmentStart (s.stamp manager) = b.segmentStart s
  answer : ∀ answer, b.free s = answer ↔ b.FreeAnswer s answer
  accepted : (∃ b', b.free s = .ok b') ↔ ∃ p, b.Names s p ∧ p.Spans s.offset s.size ∧
    ∀ j, p.Covers s.offset s.size j → p.chunks.isFree j = false
  /-- Of all pools, only the chunks that the segment covers become free. -/
  freed : ∀ b' p, b.Names s p → b.free s = .ok b' → b'.clear = b.clear ∧
    (∀ bin, bin ≠ p.id → b'.pool? bin = b.pool? bin) ∧ ∃ p', b'.pool? p.id = some p' ∧
      ∀ j, p'.chunks.isFree j = true ↔ p.chunks.isFree j = true ∨ p.Covers s.offset s.size j
  unchanged : ∀ ids e st, Step (b, ids) (.free s (.error e)) st → st = (b, ids)
  start : ∀ x, b.segmentStart s = .ok x ↔ x = s.offset ∧ s.offset + s.size ≤ b.region.size ∧
    ∃ bin, s.location? = some (b.id, bin)

variable {b b' b₀ : Batch} {p q : Pool} {s : Segment} {answer : Except Error Batch} {batch bin : Nat}
  {ids ids₀ : Counter} {g : Geometry} {manager : String} {id : Nat} {shm shm' : Shm} {events : List Event}

theorem location?_eq_none_iff : s.location? = none ↔ s.tier ≠ .static := by
  unfold Segment.location? Segment.tier
  cases s.kind <;> simp [Kind.tier]

theorem kind_of_location (h : s.location? = some (batch, bin)) : s.kind = .static batch bin s.offset := by
  unfold Segment.location? at h
  unfold Segment.offset
  cases hkind : s.kind with
  | static batch' bin' offset =>
    rw [hkind] at h
    obtain ⟨rfl, rfl⟩ := Prod.mk.inj (Option.some.inj h)
    rfl
  | ephemeral =>
    rw [hkind] at h
    cases h
  | cache place =>
    rw [hkind] at h
    cases h

theorem locate_of_location (h : s.location? = some (batch, bin)) :
    b.locate s = if batch = b.id then .ok bin else .error (.segmentNotFound s.id) := by
  rw [locate, kind_of_location h]

theorem locate_of_tier (h : s.tier ≠ .static) : b.locate s = .error (.typeMismatch s.id .static s.tier) := by
  unfold Segment.tier at h
  unfold locate
  cases hkind : s.kind with
  | static batch bin offset =>
    rw [hkind] at h
    exact absurd rfl h
  | ephemeral => rfl
  | cache place => rfl

theorem free_of_tier (h : s.tier ≠ .static) : b.free s = .error (.typeMismatch s.id .static s.tier) := by
  rw [Batch.free, locate_of_tier h]
  rfl

theorem free_unknown (h : s.location? = some (batch, bin)) (hno : batch ≠ b.id ∨ b.pool? bin = none) :
    b.free s = .error (.segmentNotFound s.id) := by
  rw [Batch.free, locate_of_location h]
  by_cases hbatch : batch = b.id
  · simp only [hbatch, if_true, bind, Except.bind, hno.resolve_left (not_not_intro hbatch)]
  · rw [if_neg hbatch]
    rfl

theorem Names.unique (h : b.Names s p) (h' : b.Names s q) : p = q := by
  have hid : p.id = q.id := (Prod.mk.inj (Option.some.inj (h.location.symm.trans h'.location))).2
  have hpool := h.pool
  rw [hid, h'.pool] at hpool
  exact (Option.some.inj hpool).symm

theorem Names.sound (hb : b.Sound) (h : b.Names s p) : p.Sound := hb.pools p ((pool?_eq_some hb).mp h.pool).1

/-- The pool answers for the batch. -/
theorem Names.free (h : b.Names s p) : b.free s = (p.freeRange s.offset s.size).map b.putPool := by
  have hsegment : p.freeSegment s = p.freeRange s.offset s.size :=
    Pool.freeSegment_eq (kind_of_location h.location)
  rw [Batch.free, locate_of_location h.location, if_pos rfl]
  simp only [bind, Except.bind, h.pool, hsegment]
  cases p.freeRange s.offset s.size <;> rfl

/-- The answer is determined. -/
theorem freeAnswer_iff (hb : b.Sound) : b.free s = answer ↔ b.FreeAnswer s answer := by
  constructor
  · rintro rfl
    by_cases htier : s.tier = .static
    · obtain ⟨⟨batch, bin⟩, hloc⟩ :=
        Option.ne_none_iff_exists'.mp fun hnone => location?_eq_none_iff.mp hnone htier
      by_cases hno : batch ≠ b.id ∨ b.pool? bin = none
      · rw [free_unknown hloc hno]
        exact .unknown hloc hno
      · obtain ⟨hbatch, hsome⟩ := not_or.mp hno
        obtain rfl := not_not.mp hbatch
        obtain ⟨p, hp⟩ := Option.ne_none_iff_exists'.mp hsome
        obtain rfl := ((pool?_eq_some hb).mp hp).2
        have hnames : b.Names s p := ⟨hloc, hp⟩
        rw [hnames.free]
        exact .pool hnames ((Pool.freeAnswer_iff (hnames.sound hb)).mp rfl)
    · rw [free_of_tier htier]
      exact .tier htier
  · intro h
    cases h with
    | tier h => exact free_of_tier h
    | unknown h hno => exact free_unknown h hno
    | pool h ha => rw [h.free, (Pool.freeAnswer_iff (h.sound hb)).mpr ha]

/-- What is accepted is taken back by a pool. -/
theorem free_names (hf : b.free s = .ok b') :
    ∃ p p', b.Names s p ∧ p.freeRange s.offset s.size = .ok p' ∧ b' = b.putPool p' := by
  obtain ⟨p, p', offset, hkind, hp, hrange, rfl⟩ := free_ok hf
  have hloc : s.location? = some (b.id, p.id) := by rw [Segment.location?, hkind]
  have hoffset : s.offset = offset := by rw [Segment.offset, hkind, Kind.offset]
  exact ⟨p, p', ⟨hloc, hp⟩, by rwa [hoffset], rfl⟩

/-- A segment is accepted if all chunks that it covers are taken. -/
theorem free_isOk_iff (hb : b.Sound) : (∃ b', b.free s = .ok b') ↔ ∃ p, b.Names s p ∧
    p.Spans s.offset s.size ∧ ∀ j, p.Covers s.offset s.size j → p.chunks.isFree j = false := by
  constructor
  · rintro ⟨b', hf⟩
    obtain ⟨p, p', h, hrange, -⟩ := free_names hf
    have hanswer := (Pool.freeAnswer_iff (h.sound hb)).mp hrange
    cases hanswer with
    | freed hin htaken => exact ⟨p, h, hin, htaken⟩
  · rintro ⟨p, h, hin, htaken⟩
    obtain ⟨p', hf⟩ := Pool.freeRange_freed (h.sound hb) hin htaken
    rw [h.free, hf]
    exact ⟨_, rfl⟩

theorem Tidy.freed (h : b.Tidy) (hs : b.Names s p) (hf : b.free s = .ok b') : b'.clear = b.clear ∧
    (∀ bin, bin ≠ p.id → b'.pool? bin = b.pool? bin) ∧ ∃ p', b'.pool? p.id = some p' ∧
      ∀ j, p'.chunks.isFree j = true ↔ p.chunks.isFree j = true ∨ p.Covers s.offset s.size j := by
  obtain ⟨q, p', hq, hrange, rfl⟩ := free_names hf
  obtain rfl := hq.unique hs
  have hp := h.pools q ((pool?_eq_some h.sound).mp hs.pool).1
  have hv := hp.freeRange hrange
  have hput : b.pool? p'.id = some q := by rw [hv.same.id, hs.pool]
  refine ⟨(h.put hput hv).2, fun bin hbin => ?_, p', ?_, fun j => ?_⟩
  · rw [pool?_putPool hput, if_neg (by rwa [hv.same.id])]
  · rw [pool?_putPool hput, if_pos hv.same.id.symm]
  · obtain ⟨chunks, -, hr, rfl⟩ := Pool.freeRange_inversion hp.sound hrange
    simp only [Bitmap.isFree_of_release hp.sound.sized hr, Bool.or_eq_true, decide_eq_true_eq, Pool.Covers]

theorem segmentStart_eq_ok (x : Nat) : b.segmentStart s = .ok x ↔ x = s.offset ∧
    s.offset + s.size ≤ b.region.size ∧ ∃ bin, s.location? = some (b.id, bin) := by
  unfold segmentStart
  cases hloc : s.location? with
  | none =>
    rw [locate_of_tier (location?_eq_none_iff.mp hloc)]
    simp [bind, Except.bind]
  | some place =>
    obtain ⟨batch, bin⟩ := place
    rw [locate_of_location hloc]
    by_cases hbatch : batch = b.id
    · by_cases hin : s.offset + s.size ≤ b.region.size
      · simp [hbatch, hin, Region.covers, bind, Except.bind, pure, Except.pure, eq_comm]
      · simp [hbatch, hin, Region.covers, bind, Except.bind]
    · simp [hbatch, bind, Except.bind]

theorem Tidy.takesBack (h : b.Tidy) (s : Segment) : b.TakesBack s := by
  refine ⟨fun _ => ⟨rfl, rfl⟩, fun _ => freeAnswer_iff h.sound, free_isOk_iff h.sound,
    fun b' p hs hf => h.freed hs hf, fun ids e st hs => ?_, segmentStart_eq_ok⟩
  cases hs with
  | unfreed => rfl

end Batch

/-! ## Tiers that find their segments by id -/

/-- The answers of a tier that looks the id of the segment up: `found` is what it holds under the
id, and `after` what is left when that goes. -/
inductive FreeById {α σ : Type} (tier : Tier) (s : Segment) (found : Option α) (after : α → σ) :
    Except Error σ → Prop
  | tier (h : s.tier ≠ tier) : FreeById tier s found after (.error (.typeMismatch s.id tier s.tier))
  | unknown (h : s.tier = tier) (hno : found = none) : FreeById tier s found after (.error (.segmentNotFound s.id))
  | freed {held : α} (h : s.tier = tier) (hf : found = some held) : FreeById tier s found after (.ok (after held))

theorem freeById_iff {α σ : Type} (tier : Tier) (s : Segment) (found : Option α) (after : α → σ)
    (answer : Except Error σ) :
    (if s.tier ≠ tier then .error (.typeMismatch s.id tier s.tier) else
      match found with
      | none => .error (.segmentNotFound s.id)
      | some held => .ok (after held)) = answer ↔ FreeById tier s found after answer := by
  constructor
  · rintro rfl
    split
    · rename_i h
      exact .tier h
    · rename_i h
      cases found with
      | none => exact .unknown (not_not.mp h) rfl
      | some held => exact .freed (not_not.mp h) rfl
  · intro h
    cases h with
    | tier h => rw [if_pos h]
    | unknown h hno => rw [if_neg (not_not_intro h), hno]
    | freed h hf => rw [if_neg (not_not_intro h), hf]

/-- What the ephemeral tier does with the segment, whoever made it. -/
structure Ephemeral.TakesBack (e : Ephemeral) (s : Segment) (shm : Shm) : Prop where
  anyone : ∀ manager, e.free (s.stamp manager) shm = e.free s shm
  answer : ∀ answer, e.free s shm = answer ↔ FreeById .ephemeral s (e.region? s.id)
    (fun r => ({ e with regions := e.regions.erase s.id }, shm.release r)) answer
  /-- One region goes, and it is the tier's own. -/
  freed : ∀ e' shm', e.free s shm = .ok (e', shm') → e'.region? s.id = none ∧
    ∀ id, id ≠ s.id → e'.region? id = e.region? id

/-- What the cache does with the segment, whoever made it. -/
structure Cache.TakesBack (c : Cache) (s : Segment) : Prop where
  anyone : ∀ manager, c.freeSegment (s.stamp manager) = c.freeSegment s
  answer : ∀ answer, c.freeSegment s = answer ↔ FreeById .cache s (c.entries.get? s.id)
    (fun b => { c with heap := c.heap.recycle b, entries := c.entries.erase s.id }) answer
  /-- One entry goes, and it is the tier's own. -/
  freed : ∀ c', c.freeSegment s = .ok c' → c'.contents? s.id = none ∧
    ∀ id, id ≠ s.id → c'.contents? id = c.contents? id

theorem Ephemeral.takesBack (e : Ephemeral) (s : Segment) (shm : Shm) : e.TakesBack s shm := by
  have hanswer : ∀ answer, e.free s shm = answer ↔ FreeById .ephemeral s (e.region? s.id)
      (fun r => ({ e with regions := e.regions.erase s.id }, shm.release r)) answer := fun answer => by
    rw [← freeById_iff, Ephemeral.free, Ephemeral.region?]
    cases e.regions.get? s.id <;> rfl
  refine ⟨fun _ => rfl, hanswer, fun e' shm' h => ?_⟩
  cases (hanswer _).mp h
  simp +contextual [Ephemeral.region?, Table.get?_erase]

theorem Cache.takesBack (c : Cache) (s : Segment) : c.TakesBack s := by
  have hanswer : ∀ answer, c.freeSegment s = answer ↔ FreeById .cache s (c.entries.get? s.id)
      (fun b => { c with heap := c.heap.recycle b, entries := c.entries.erase s.id }) answer := fun answer => by
    rw [← freeById_iff, Cache.freeSegment, Cache.free]
    cases c.entries.get? s.id <;> rfl
  refine ⟨fun _ => rfl, hanswer, fun c' h => ?_⟩
  cases (hanswer _).mp h
  simp +contextual [Cache.contents?, Table.get?_erase]

/-! ## Segments of other managers -/

/-- In every state that a new batch reaches, and in every state of the other tiers, the numbers of a segment
alone say whether it is taken back. What is refused changes nothing, and what is accepted takes from
the tier what it holds under these numbers. -/
theorem membership_exact {b₀ b : Batch} {manager : String} {id : Nat} {g : Geometry} {shm shm' : Shm}
    {ids₀ ids : Counter} {events : List Batch.Event} (hc : Batch.create manager id g shm = (.ok b₀, shm'))
    (hrun : Run Batch.Step (b₀, ids₀) events (b, ids)) (e : Ephemeral) (c : Cache) (s : Segment) (memory : Shm) :
    b.TakesBack s ∧ e.TakesBack s memory ∧ c.TakesBack s :=
  ⟨(Batch.valid_run hc hrun).1.tidy.takesBack s, e.takesBack s memory, c.takesBack s⟩

/-- A batch of manager `m` takes back what is said to be in its chunk, by a segment of `x`. -/
theorem membership_of_stranger : ∃ b, Batch.sampleUsed.free ⟨0, 16, "x", .static 0 1 32⟩ = .ok b ∧
    Batch.sampleUsed.TakesBack ⟨0, 16, "x", .static 0 1 32⟩ := by
  have h := membership_exact Batch.sample_create Batch.sample_run (.ofManager "m") (.inProcess "m" none)
    ⟨0, 16, "x", .static 0 1 32⟩ .empty
  exact ⟨Batch.sampleNew, by decide +kernel, h.1⟩

/-- Two managers have a batch of one chunk each, and a segment in it. The one batch takes the segment of the
other, finds its place, and frees its own chunk for it, so that its own segment is refused. -/
theorem stranger_freed : ∃ a b shm shm', Batch.create "a" 0 ⟨[⟨8, 1⟩]⟩ .empty = (.ok a, shm) ∧
    Batch.create "b" 0 ⟨[⟨8, 1⟩]⟩ shm = (.ok b, shm') ∧
    ∃ s t a' b', a.allocate {} 8 = (.ok (s, a'), ⟨1⟩) ∧ b.allocate {} 8 = (.ok (t, b'), ⟨1⟩) ∧
      s.manager = "a" ∧ b'.manager = "b" ∧ b'.segmentStart s = .ok 0 ∧ b'.free s = .ok b ∧
      b.free t = .error (.doubleFree 0 8) := by
  refine ⟨⟨0, "a", [.ofBin 0 ⟨8, 1⟩ 0], ⟨"a#batch0#statbin", 0, 8, some 0⟩, 8, 8⟩,
    ⟨0, "b", [.ofBin 0 ⟨8, 1⟩ 0], ⟨"b#batch0#statbin", 1, 8, some 1⟩, 8, 8⟩, _, _,
    Prod.ext (by decide +kernel) rfl, Prod.ext (by decide +kernel) rfl,
    ⟨0, 8, "a", .static 0 0 0⟩, ⟨0, 8, "b", .static 0 0 0⟩,
    ⟨0, "a", [⟨0, 8, 1, 0, ⟨1, #[0]⟩, 0⟩], ⟨"a#batch0#statbin", 0, 8, some 0⟩, 8, 8⟩,
    ⟨0, "b", [⟨0, 8, 1, 0, ⟨1, #[0]⟩, 0⟩], ⟨"b#batch0#statbin", 1, 8, some 1⟩, 8, 8⟩, ?_⟩
  decide +kernel

end TierAlloc
