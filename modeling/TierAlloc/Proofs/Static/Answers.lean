import TierAlloc.Proofs.Static.History

/-!
# The answers of a pool

What a pool that was made and then used in any way answers to the next request, and to
chunks that are given back next. Requests take the lowest run of free chunks that is long
enough, and only where there is none are they refused. They are served from this run if it has
a 64-bit offset. Not every pool ends by 2^64: in one that does not, a request that takes chunks
beyond it ends there, without a segment. Ranges are taken back if they are whole taken chunks of
the pool, and otherwise nothing changes.

**Results.**
* `Pool.first_fit_exact`: requests, in every state that a new pool reaches.
* `Pool.third_chunk_overflows`: a request that takes a chunk and is not served.
* `Pool.free_range_exact`: giving back, in every such state.
-/
namespace TierAlloc.Pool

variable {p p' p₀ : Pool} {id n offset size start : Nat} {s : Segment} {events : List Event}
  {ids ids' ids₀ : Counter}

theorem Same.spans (h : p.Same p') : p'.Spans offset size ↔ p.Spans offset size := by
  constructor
  · rintro ⟨hbase, halign, hrun⟩
    rw [h.base] at hbase halign
    rw [h.chunkSize] at halign
    rw [h.chunkAt, h.chunkSize, h.chunkCount] at hrun
    exact ⟨hbase, halign, hrun⟩
  · rintro ⟨hbase, halign, hrun⟩
    refine ⟨?_, ?_, ?_⟩
    · rwa [h.base]
    · rwa [h.base, h.chunkSize]
    · rwa [h.chunkAt, h.chunkSize, h.chunkCount]

theorem spans_iff : p.Spans offset size ↔ p.base ≤ offset ∧ p.chunkSize ∣ offset - p.base ∧
    p.chunkAt offset + max 1 (size ⌈/⌉ p.chunkSize) ≤ p.chunkCount :=
  ⟨fun h => ⟨h.base_le, h.aligned, h.run_le⟩, fun h => ⟨h.1, h.2.1, h.2.2⟩⟩

theorem Same.span (h : p.Same p') : p'.span = p.span := by
  rw [Pool.span, h.chunkSize, h.chunkCount, Pool.span]

/-! ## A pool with a gap

Of four chunks two are served together and one alone, and the two are given back. -/

def sampleNew : Pool := ⟨0, 8, 4, 0, .ofLength 4, 4⟩

def sampleFull : Pool := ⟨0, 8, 4, 0, ⟨4, #[0b1000]⟩, 1⟩

def sampleGap : Pool := ⟨0, 8, 4, 0, ⟨4, #[0b1011]⟩, 3⟩

def sampleEvents : List Event :=
  [.allocate 10 (.ok ⟨0, 10, "", .static 0 0 0⟩), .allocate 8 (.ok ⟨1, 8, "", .static 0 0 16⟩),
    .freeRange 0 16 (.ok ())]

theorem sample_create : create 0 8 4 0 = .ok sampleNew := rfl

theorem sample_run : Run Step (sampleNew, {}) sampleEvents (sampleGap, ⟨2⟩) := by
  have htwo : sampleNew.allocate {} 10 =
      (.ok (⟨0, 10, "", .static 0 0 0⟩, ⟨0, 8, 4, 0, ⟨4, #[0b1100]⟩, 2⟩), ⟨1⟩) := by
    decide +kernel
  have hone : (⟨0, 8, 4, 0, ⟨4, #[0b1100]⟩, 2⟩ : Pool).allocate ⟨1⟩ 8 =
      (.ok (⟨1, 8, "", .static 0 0 16⟩, sampleFull), ⟨2⟩) := by
    decide +kernel
  have hback : sampleFull.freeRange 0 16 = .ok sampleGap := by decide +kernel
  exact ((Run.one (.allocated htwo)).next (.allocated hone)).next (.rangeFreed hback)

/-! ## Requests -/

/-- Chunks from `start` on are free, as many as `n` bytes take. -/
def Vacant (p₀ p : Pool) (n start : Nat) : Prop := p.chunks.FreeRun start (n ⌈/⌉ p₀.chunkSize)

/-- A request for `n` bytes takes the run at `start` from the pool `p` that `p₀` has become; `p'` is the
pool after it. -/
structure Reserves (p₀ p : Pool) (events : List Event) (n start : Nat) (p' : Pool) : Prop where
  vacant : p₀.Vacant p n start
  lowest : ∀ start', p₀.Vacant p n start' → start ≤ start'
  /-- The chunks of the run are taken, and no other chunk changes. -/
  taken : ∀ j, p'.chunks.isFree j = true ↔
    p.chunks.isFree j = true ∧ ¬(start ≤ j ∧ j < start + n ⌈/⌉ p₀.chunkSize)
  free : p'.free + n ⌈/⌉ p₀.chunkSize = p.free
  same : p₀.Same p'
  /-- No chunk of the run was taken and not given back since. -/
  fresh : ∀ j, start ≤ j → j < start + n ⌈/⌉ p₀.chunkSize → ¬p₀.Live events j

/-- The request is answered with the segment `s`, in the run at `start`. -/
structure Serves (p₀ p : Pool) (events : List Event) (ids : Counter) (n start : Nat) (s : Segment)
    (p' : Pool) : Prop extends p₀.Reserves p events n start p' where
  answer : p.allocate ids n = (.ok (s, p'), ids.draw.2)
  segment : s = ⟨ids.draw.1, n, "", .static 0 p₀.id (p₀.base + start * p₀.chunkSize)⟩
  inside : s.offset + n ≤ p₀.base + p₀.span
  apart : ∀ t, p₀.Outstanding events t → s.offset + n ≤ t.offset ∨ t.offset + t.size ≤ s.offset

/-- How the pool `p` that `p₀` has become answers requests. -/
structure FirstFit (p₀ p : Pool) (events : List Event) (ids : Counter) : Prop where
  same : p₀.Same p
  counted : p.free = p.chunks.vacant.card
  summed : p.free = p.chunks.freeCount
  taken : ∀ j, p.Taken j ↔ p₀.Live events j
  served : ∀ n start, 0 < n → IsLeast {start | p₀.Vacant p n start} start →
    p₀.base + start * p₀.chunkSize < wordRange → ∃ s p', p₀.Serves p events ids n start s p'
  /-- Chunks that have no offset are taken, but the request ends there. -/
  overflowed : ∀ n start, 0 < n → IsLeast {start | p₀.Vacant p n start} start →
    wordRange ≤ p₀.base + start * p₀.chunkSize →
      p.allocate ids n = (.error (.overflow (p₀.offsetFault start)), ids.draw.2) ∧
        p₀.Reserves p events n start (p.afterFailure n)
  refused : ∀ n, 0 < n → (¬∃ start, p₀.Vacant p n start) →
    p.allocate ids n = (.error (.noMemory n), ids.draw.2) ∧ p.afterFailure n = p
  /-- Nothing overflows in a pool that ends by 2^64. -/
  addressable : p₀.base + p₀.span ≤ wordRange →
    ∀ n, 0 < n → (∃ start, p₀.Vacant p n start) → ∃ start s p', p₀.Serves p events ids n start s p'
  /-- Where the number of free chunks rules a request out, the search finds nothing. -/
  unsearched : ∀ n, p.free < p.chunksFor n → p.chunks.fit? (p.chunksFor n) = none

/-- Where there is room, there is a lowest run of it. -/
theorem Vacant.exists_lowest (hroom : ∃ start, p₀.Vacant p n start) :
    ∃ start, IsLeast {start | p₀.Vacant p n start} start := by
  classical
  exact ⟨Nat.find hroom, Nat.find_spec hroom, fun _ h => Nat.find_min' hroom h⟩

theorem Valid.vacant (h : p₀.Valid p) (n start : Nat) :
    p₀.Vacant p n start ↔ p.chunks.FreeRun start (p.chunksFor n) := by
  rw [Vacant, chunksFor_eq h.sound, h.same.chunkSize]

theorem Valid.unsearched (h : p₀.Valid p) (hlt : p.free < p.chunksFor n) :
    p.chunks.fit? (p.chunksFor n) = none := by
  refine Bitmap.fit?_eq_none_iff.mpr (Or.inr fun start hrun => ?_)
  have hcard := hrun.le_card
  rw [← h.counted] at hcard
  omega

/-- What was served and is outstanding shares no byte with what lies in free chunks. -/
theorem Remembered.apart (h : p₀.Remembered p events) (hv : p₀.Valid p) (hfits : p.Fits offset n)
    (hfree : ∀ j, p.InRun offset n j → ¬p.Taken j) {t : Segment} (ht : p₀.Outstanding events t) :
    offset + n ≤ t.offset ∨ t.offset + t.size ≤ offset := by
  have hmem : ∃ m, Event.allocate m (.ok t) ∈ events := by
    obtain ⟨before, m, after, rfl, -⟩ := ht
    exact ⟨m, List.mem_append_right _ List.mem_cons_self⟩
  obtain ⟨m, hmem⟩ := hmem
  have hplaced : p.Fits t.offset t.size := hv.same.fits.mpr (h.placed m t hmem)
  refine hfits.apart hv.sound hplaced fun j hj hjt => ?_
  rw [← covers_iff hv.sound hplaced.pos, hv.same.covers] at hjt
  exact hfree j hj ((h.taken j).mpr (ht.live hjt))

section
variable (hv : p₀.Valid p)

include hv

theorem Valid.isLeast_vacant (n start : Nat) : IsLeast {start | p₀.Vacant p n start} start ↔
    IsLeast {start | p.chunks.FreeRun start (p.chunksFor n)} start := by
  simp only [hv.vacant]

theorem Valid.reserves (h : p₀.Remembered p events) (hr : p.reserve n = .ok (start, p')) :
    p₀.Reserves p events n start p' := by
  have hres := reserve_ok hv.sound hr
  have hsame := (hv.reserve hr).same
  obtain ⟨-, hcard, -⟩ := reserve_eq_ok.mp hr
  obtain ⟨hlowest, chunks, ho, rfl⟩ := reserve_lowest hr
  rw [← hv.isLeast_vacant] at hlowest
  have hrun : p.chunksFor n = n ⌈/⌉ p₀.chunkSize := by rw [chunksFor_eq hv.sound, hv.same.chunkSize]
  refine ⟨hlowest.1, fun _ h => hlowest.2 h, fun j => ?_, ?_, hsame, fun j hl hu hlive => ?_⟩
  · simp only [Bitmap.isFree_of_occupy ho, hrun, Bool.and_eq_true, Bool.not_eq_true', decide_eq_false_iff_not]
  · rw [← hrun]
    exact Nat.sub_add_cancel hcard
  · rw [← hrun] at hu
    exact hres.free j hl hu ((h.taken j).mpr hlive)

/-- A request is served from the lowest run, if there is an offset for it. -/
theorem Valid.serves (h : p₀.Remembered p events) (hn : 0 < n)
    (hlowest : IsLeast {start | p₀.Vacant p n start} start)
    (hlt : p₀.base + start * p₀.chunkSize < wordRange) (ids : Counter) :
    ∃ s p', p₀.Serves p events ids n start s p' := by
  obtain ⟨p', hr⟩ := reserve_of_lowest hv.sound hv.counted hn ((hv.isLeast_vacant n start).mp hlowest)
  rw [← hv.same.base, ← hv.same.chunkSize, Nat.add_comm] at hlt
  have hserve := serve_eq_ok.mpr ⟨start, hr, hlt, Eq.refl (⟨ids.draw.1, n, "", _⟩ : Segment)⟩
  have hanswer : p.allocate ids n =
      (.ok (⟨ids.draw.1, n, "", .static 0 p.id (start * p.chunkSize + p.base)⟩, p'), ids.draw.2) := by
    rw [Pool.allocate, hserve]
  obtain ⟨-, -, offset, hserved⟩ := serve_ok hv.sound hserve
  obtain rfl : start * p.chunkSize + p.base = offset := by
    have hkind := hserved.kind
    simp only [Kind.static.injEq] at hkind
    exact hkind.2.2
  refine ⟨_, p', hv.reserves h hr, hanswer, ?_, ?_, fun t ht => ?_⟩
  · rw [hv.same.id, hv.same.base, hv.same.chunkSize, Nat.add_comm p₀.base]
  · rw [← hv.same.base, ← hv.same.span]
    exact hserved.fits.inside hv.sound
  · exact h.apart hv hserved.fits hserved.free ht

/-- A request whose chunks have no offset takes them and ends there. -/
theorem Valid.overflows (h : p₀.Remembered p events) (hn : 0 < n)
    (hlowest : IsLeast {start | p₀.Vacant p n start} start)
    (hwide : wordRange ≤ p₀.base + start * p₀.chunkSize) (ids : Counter) :
    p.allocate ids n = (.error (.overflow (p₀.offsetFault start)), ids.draw.2) ∧
      p₀.Reserves p events n start (p.afterFailure n) := by
  obtain ⟨p', hr⟩ := reserve_of_lowest hv.sound hv.counted hn ((hv.isLeast_vacant n start).mp hlowest)
  have hfault : p₀.offsetFault start = p.offsetFault start := by
    rw [offsetFault, ← hv.same.chunkSize, offsetFault]
  rw [← hv.same.base, ← hv.same.chunkSize, Nat.add_comm] at hwide
  rw [hfault, Pool.allocate, serve_eq_error.mpr (Or.inr ⟨start, p', hr, hwide, rfl⟩), afterFailure, hr]
  exact ⟨rfl, hv.reserves h hr⟩

/-- The chunks of a run all have an offset if the pool ends by 2^64. -/
theorem Valid.offset_lt (ha : p₀.base + p₀.span ≤ wordRange) (hn : 0 < n) (h : p₀.Vacant p n start) :
    p₀.base + start * p₀.chunkSize < wordRange := by
  rw [hv.vacant] at h
  have hpos := chunksFor_pos hv.sound hn
  have hle := h.le_length hpos
  rw [hv.sound.length] at hle
  rw [← hv.same.base, ← hv.same.span] at ha
  have hlt := Addressable.offset_lt ha hv.sound (show start < p.chunkCount by omega)
  rwa [Nat.add_comm, hv.same.base, hv.same.chunkSize] at hlt

end

/-- In every state that a new pool reaches, the number of free chunks is exact, and a request takes chunks
where they are free in a row, from the lowest such run. It is served if this run has an offset, as every
run has in a pool that ends by 2^64. -/
theorem first_fit_exact {chunkSize chunkCount base : Nat} (hc : create id chunkSize chunkCount base = .ok p₀)
    (hrun : Run Step (p₀, ids₀) events (p, ids)) : p₀.FirstFit p events ids := by
  obtain ⟨hv, h⟩ := valid_run hc hrun
  refine ⟨hv.same, hv.counted, hv.counted.trans (Bitmap.freeCount_eq hv.trim).symm, h.taken,
    fun n start hn hlowest hlt => hv.serves h hn hlowest hlt ids,
    fun n start hn hlowest hwide => hv.overflows h hn hlowest hwide ids, fun n hn hfull => ?_,
    fun ha n hn hroom => ?_, fun n hlt => hv.unsearched hlt⟩
  · have hfull : ¬p.Room n := fun ⟨start, hrun⟩ => hfull ⟨start, by rwa [Vacant, ← hv.same.chunkSize]⟩
    have hr := reserve_of_full hv.sound hn hfull
    rw [allocate, serve_of_full hv.sound hn hfull, afterFailure, hr]
    exact ⟨rfl, rfl⟩
  · obtain ⟨start, hlowest⟩ := Vacant.exists_lowest hroom
    exact ⟨start, hv.serves h hn hlowest (hv.offset_lt ha hn hlowest.1) ids⟩

/-- Three chunks are free, but not in a row. -/
theorem first_fit_of_gap : sampleGap.allocate ⟨2⟩ 24 = (.error (.noMemory 24), ⟨3⟩) ∧
    sampleNew.FirstFit sampleGap sampleEvents ⟨2⟩ :=
  ⟨by decide +kernel, first_fit_exact sample_create sample_run⟩

/-! Three chunks of 2^63 bytes, of which two are taken. -/

def wideNew : Pool := ⟨0, 2 ^ 63, 3, 0, .ofLength 3, 3⟩

def wideUsed : Pool := ⟨0, 2 ^ 63, 3, 0, ⟨3, #[0b100]⟩, 1⟩

def wideEvents : List Event :=
  [.allocate 1 (.ok ⟨0, 1, "", .static 0 0 0⟩), .allocate 1 (.ok ⟨1, 1, "", .static 0 0 (2 ^ 63)⟩)]

/-- **Counterexample**: the third chunk is free, but it would start at 2^64. The request for it takes it
and is not served. -/
theorem third_chunk_overflows : create 0 (2 ^ 63) 3 0 = .ok wideNew ∧
    Run Step (wideNew, {}) wideEvents (wideUsed, ⟨2⟩) ∧ wideNew.Vacant wideUsed 1 2 ∧
      wideUsed.allocate ⟨2⟩ 1 = (.error (.overflow .product), ⟨3⟩) ∧ (wideUsed.afterFailure 1).free = 0 := by
  refine ⟨rfl, ?_, ?_, by decide +kernel, by decide +kernel⟩
  · have hfirst : wideNew.allocate {} 1 =
        (.ok (⟨0, 1, "", .static 0 0 0⟩, ⟨0, 2 ^ 63, 3, 0, ⟨3, #[0b110]⟩, 2⟩), ⟨1⟩) := by
      decide +kernel
    have hsecond : (⟨0, 2 ^ 63, 3, 0, ⟨3, #[0b110]⟩, 2⟩ : Pool).allocate ⟨1⟩ 1 =
        (.ok (⟨1, 1, "", .static 0 0 (2 ^ 63)⟩, wideUsed), ⟨2⟩) := by
      decide +kernel
    exact (Run.one (.allocated hfirst)).next (.allocated hsecond)
  · intro j hl hu
    obtain rfl : j = 2 := by
      have hone : 1 ⌈/⌉ wideNew.chunkSize = 1 := by decide +kernel
      omega
    decide +kernel

/-! ## Giving back -/

/-- How the pool `p` that `p₀` has become takes bytes back. -/
structure TakesBack (p₀ p : Pool) (ids : Counter) : Prop where
  outside : ∀ offset size, p.freeRange offset size = .error (.rangeError offset size) ↔
    offset < p₀.base ∨ ¬p₀.chunkSize ∣ offset - p₀.base ∨
      p₀.chunkCount < (offset - p₀.base) / p₀.chunkSize + max 1 (size ⌈/⌉ p₀.chunkSize)
  twice : ∀ offset size, p.freeRange offset size = .error (.doubleFree offset size) ↔
    p₀.Spans offset size ∧ ∃ j, p₀.Covers offset size j ∧ p.chunks.isFree j = true
  /-- Taken chunks are given back, and no other chunk changes. -/
  freed : ∀ offset size, p₀.Spans offset size →
    (∀ j, p₀.Covers offset size j → p.chunks.isFree j = false) → ∃ p', p.freeRange offset size = .ok p' ∧
      p₀.Same p' ∧ p'.free = p.free + max 1 (size ⌈/⌉ p₀.chunkSize) ∧
        ∀ j, p'.chunks.isFree j = true ↔ p.chunks.isFree j = true ∨ p₀.Covers offset size j
  unchanged : ∀ e st, Step (p, ids) e st → e.error?.isSome = true → st.1 = p
  /-- No run that an operation marks leaves the bitmap. -/
  inside : ∀ e st, Step (p, ids) e st → e.error? ≠ some .runOutOfBounds
  restored : ∀ n s p' ids', p.allocate ids n = (.ok (s, p'), ids') →
    p'.freeSegment s = .ok p ∧ p'.freeRange s.offset s.size = .ok p

/-! ### One answer each -/

section
variable (hp : p.Sound)

include hp

theorem freeRange_outside_iff :
    p.freeRange offset size = .error (.rangeError offset size) ↔ ¬p.Spans offset size := by
  have hanswer := freeRange_answer hp offset size
  generalize p.freeRange offset size = answer at hanswer ⊢
  cases hanswer with
  | outside h => exact ⟨fun _ => h, fun _ => rfl⟩
  | twice h => exact ⟨nofun, fun h' => absurd h h'⟩
  | freed h => exact ⟨nofun, fun h' => absurd h h'⟩

theorem freeRange_twice_iff : p.freeRange offset size = .error (.doubleFree offset size) ↔
    p.Spans offset size ∧ ∃ j, p.Covers offset size j ∧ p.chunks.isFree j = true := by
  have hanswer := freeRange_answer hp offset size
  generalize p.freeRange offset size = answer at hanswer ⊢
  cases hanswer with
  | outside h => exact ⟨nofun, fun h' => absurd h'.1 h⟩
  | twice h hj hfree => exact ⟨fun _ => ⟨h, _, hj, hfree⟩, fun _ => rfl⟩
  | freed h htaken =>
    refine ⟨nofun, ?_⟩
    rintro ⟨-, j, hj, hfree⟩
    rw [htaken j hj] at hfree
    cases hfree

theorem freeRange_freed (h : p.Spans offset size)
    (htaken : ∀ j, p.Covers offset size j → p.chunks.isFree j = false) :
    ∃ p', p.freeRange offset size = .ok p' := by
  have hanswer := freeRange_answer hp offset size
  generalize p.freeRange offset size = answer at hanswer ⊢
  cases hanswer with
  | outside h' => exact absurd h h'
  | twice _ hj hfree =>
    rw [htaken _ hj] at hfree
    cases hfree
  | freed => exact ⟨_, rfl⟩

theorem freeRange_error {e : Error} (h : p.freeRange offset size = .error e) :
    e = .rangeError offset size ∨ e = .doubleFree offset size := by
  have hanswer := freeRange_answer hp offset size
  rw [h] at hanswer
  cases hanswer with
  | outside => exact Or.inl rfl
  | twice => exact Or.inr rfl

theorem reserve_refusal {e : Error} (hc : p.Counted) (h : p.reserve n = .error e) :
    e = .zeroSize ∨ e = .noMemory n := by
  rcases Nat.eq_zero_or_pos n with rfl | hn
  · rw [reserve_zero] at h
    exact Or.inl (Except.error.inj h).symm
  · by_cases hroom : p.Room n
    · obtain ⟨start, p', hr⟩ := reserve_of_room hp hc hn hroom
      rw [hr] at h
      cases h
    · rw [reserve_of_full hp hn hroom] at h
      exact Or.inr (Except.error.inj h).symm

end

/-- No run that an operation marks leaves the bitmap. -/
theorem Valid.marks_inside (hv : p₀.Valid p) {e : Event} {st : Pool × Counter} (hs : Step (p, ids) e st) :
    e.error? ≠ some .runOutOfBounds := by
  have hrange : ∀ offset size, p.freeRange offset size ≠ .error .runOutOfBounds := fun offset size h => by
    rcases freeRange_error hv.sound h with he | he <;> cases he
  cases hs with
  | refused _ hr =>
    rintro ⟨⟩
    rcases reserve_refusal hv.sound hv.counted hr with he | he <;> cases he
  | unfreed h =>
    rintro ⟨⟩
    rcases freeSegment_error h with he | he | he
    · cases he
    · cases he
    · exact hrange _ _ he
  | rangeUnfreed h =>
    rintro ⟨⟩
    exact hrange _ _ h
  | _ => exact nofun

/-- Giving back what was just served restores the pool. -/
theorem Valid.restored (hv : p₀.Valid p) (h : p.allocate ids n = (.ok (s, p'), ids')) :
    p'.freeSegment s = .ok p ∧ p'.freeRange s.offset s.size = .ok p := by
  have hserve := (Prod.mk.inj h).1
  obtain ⟨-, hsize, offset, hserved⟩ := serve_ok hv.sound hserve
  have hoffset : s.offset = offset := by rw [Segment.offset, hserved.kind, Kind.offset]
  obtain ⟨back, hback⟩ := freeRange_of_taken hserved.sound (hserved.same.fits.mpr hserved.fits)
    fun j hj => (hserved.taken j).mpr (Or.inr (hserved.same.inRun.mp hj))
  have hwhole : back = p := by
    obtain ⟨chunks', -, hr, rfl⟩ := freeRange_inversion hserved.sound hback
    obtain ⟨hn, start, chunks, ⟨hrun, -⟩, ho, rfl, rfl⟩ := serve_inversion hserve
    have hrun : p.chunks.FreeRun start (p.chunksFor n) := hrun
    have hpos := chunksFor_pos hv.sound hn
    have hcard : p.chunksFor n ≤ p.free := by
      rw [hv.counted]
      exact hrun.le_card
    have hrounded : max 1 (n ⌈/⌉ p.chunkSize) = p.chunksFor n := by
      rw [← chunksFor_eq hv.sound, Nat.max_eq_right hpos]
    have hat := chunkAt_run hserved.sound start
    rw [← hoffset] at hr
    simp only [Segment.offset, Kind.offset, hrounded] at hr hat ⊢
    rw [hat, Bitmap.release_of_occupy hv.trim hrun ho] at hr
    rw [← Except.ok.inj hr, Nat.sub_add_cancel hcard]
  rw [freeSegment_eq (hserved.kind.trans (by rw [hserved.same.id])), hoffset, hback, hwhole]
  exact ⟨rfl, rfl⟩

/-- In every state that a new pool reaches, bytes are given back where they are whole taken chunks
of the pool. Otherwise the answer says which of the two they are not, and nothing changes. -/
theorem free_range_exact {chunkSize chunkCount base : Nat} (hc : create id chunkSize chunkCount base = .ok p₀)
    (hrun : Run Step (p₀, ids₀) events (p, ids)) : p₀.TakesBack p ids := by
  obtain ⟨hv, -⟩ := valid_run hc hrun
  have hspans : ∀ {offset size}, p₀.Spans offset size ↔ p.Spans offset size := hv.same.spans.symm
  have hcovers : ∀ {offset size j}, p₀.Covers offset size j ↔ p.Covers offset size j := hv.same.covers.symm
  refine ⟨fun offset size => ?_, fun offset size => ?_, fun offset size hin htaken => ?_,
    fun e st hs herror => ?_, fun e st hs => hv.marks_inside hs, fun n s p' ids' h => hv.restored h⟩
  · rw [freeRange_outside_iff hv.sound, ← hspans, spans_iff, not_and_or, not_and_or, Nat.not_le, Nat.not_le,
      chunkAt]
  · rw [freeRange_twice_iff hv.sound]
    simp only [hspans, hcovers]
  · obtain ⟨p', hf⟩ := freeRange_freed hv.sound (hspans.mp hin) fun j hj => htaken j (hcovers.mpr hj)
    refine ⟨p', hf, (hv.freeRange hf).same, ?_⟩
    obtain ⟨chunks, -, hr, rfl⟩ := freeRange_inversion hv.sound hf
    refine ⟨by rw [hv.same.chunkSize], fun j => ?_⟩
    rw [hcovers, Covers]
    simp only [Bitmap.isFree_of_release hv.sound.sized hr, Bool.or_eq_true, decide_eq_true_eq]
  · cases hs with
    | refused => rfl
    | unfreed => rfl
    | rangeUnfreed => rfl
    | _ => cases herror

/-- Three chunks are free, and one of them alone is given back a second time. -/
theorem free_range_of_gap : sampleGap.freeRange 8 8 = .error (.doubleFree 8 8) ∧
    sampleGap.freeRange 8 32 = .error (.rangeError 8 32) ∧ sampleNew.TakesBack sampleGap ⟨2⟩ :=
  ⟨by decide +kernel, by decide +kernel, free_range_exact sample_create sample_run⟩

end TierAlloc.Pool
