import TierAlloc.Proofs.Run
import TierAlloc.Proofs.Static.Words

/-!
# Pools at work

A pool serves requests, has chunks given back by segment or by range, and is cleared, in any
order and with any arguments, while others may draw ids from the same counter. A request may
also end in the middle, with its chunks taken but no segment made of them, where these have no
offset. Through all of this a chunk is taken if a request took it and it was not given back since
(`Pool.Live`), the number of free chunks beside the bitmap is exact, and no run of chunks that
is marked leaves the bitmap.

**Results.**
* `Pool.reserve_lowest`, `Pool.reserve_of_lowest`: the chunks that a request takes are the lowest run.
* `Pool.step_allocate`: each way a request can end is a step.
* `Pool.freeRange_answer`: the three answers to giving bytes back, and when each is given.
* `Pool.Valid.step`, `Pool.Remembered.step`: what every operation keeps.
* `Pool.valid_run`: what holds in every state that a new pool reaches.
-/
namespace TierAlloc.Pool

/-! ## Operations in sequence -/

inductive Event where
  | allocate (n : Nat) (answer : Except Error Segment)
  | free (s : Segment) (answer : Except Error Unit)
  | freeRange (offset size : Nat) (answer : Except Error Unit)
  | clear
  /-- A request takes the chunks from `start` on and ends there, since they have no offset. -/
  | overflowed (n start : Nat) (fault : Overflow)
  /-- Ids are drawn for other pools. -/
  | elsewhere

/-- A pool with the counter that it draws its ids from. -/
inductive Step : Pool × Counter → Event → Pool × Counter → Prop
  | allocated {p p' ids ids' n s} (h : p.allocate ids n = (.ok (s, p'), ids')) :
      Step (p, ids) (.allocate n (.ok s)) (p', ids')
  | refused {p ids ids' n e} (h : p.allocate ids n = (.error e, ids')) (hr : p.reserve n = .error e) :
      Step (p, ids) (.allocate n (.error e)) (p, ids')
  | overflowed {p p' ids ids' n start fault} (h : p.allocate ids n = (.error (.overflow fault), ids'))
      (hr : p.reserve n = .ok (start, p')) : Step (p, ids) (.overflowed n start fault) (p', ids')
  | freed {p p' ids s} (h : p.freeSegment s = .ok p') : Step (p, ids) (.free s (.ok ())) (p', ids)
  | unfreed {p ids s e} (h : p.freeSegment s = .error e) : Step (p, ids) (.free s (.error e)) (p, ids)
  | rangeFreed {p p' ids offset size} (h : p.freeRange offset size = .ok p') :
      Step (p, ids) (.freeRange offset size (.ok ())) (p', ids)
  | rangeUnfreed {p ids offset size e} (h : p.freeRange offset size = .error e) :
      Step (p, ids) (.freeRange offset size (.error e)) (p, ids)
  | clear {p ids} : Step (p, ids) .clear (p.clear, ids)
  | elsewhere {p ids ids'} (h : ids.issued ≤ ids'.issued) : Step (p, ids) .elsewhere (p, ids')

/-- The error that the operation was answered with. One that ended in the middle has no answer. -/
def Event.error? : Event → Option Error
  | allocate _ (.error e) | free _ (.error e) | freeRange _ _ (.error e) => some e
  | _ => none

/-- Chunk `j` is one of those that `size` bytes at `offset` cover, which are at least one. -/
def Covers (p : Pool) (offset size j : Nat) : Prop :=
  p.chunkAt offset ≤ j ∧ j < p.chunkAt offset + max 1 (size ⌈/⌉ p.chunkSize)

/-- The event takes chunk `j`. -/
def Event.Takes (p : Pool) (j : Nat) : Event → Prop
  | allocate _ (.ok s) => p.Covers s.offset s.size j
  | overflowed n start _ => start ≤ j ∧ j < start + n ⌈/⌉ p.chunkSize
  | _ => False

/-- The event makes chunk `j` free. -/
def Event.GivesBack (p : Pool) (j : Nat) : Event → Prop
  | free s (.ok ()) => p.Covers s.offset s.size j
  | freeRange offset size (.ok ()) => p.Covers offset size j
  | clear => True
  | _ => False

/-- Chunk `j` was taken by a request and has not been given back since. -/
def Live (p : Pool) (events : List Event) (j : Nat) : Prop :=
  ∃ before e after, events = before ++ e :: after ∧ e.Takes p j ∧ ∀ e' ∈ after, ¬e'.GivesBack p j

/-- The segment was served, and no chunk of it has been given back since. -/
def Outstanding (p : Pool) (events : List Event) (s : Segment) : Prop :=
  ∃ before n after, events = before ++ .allocate n (.ok s) :: after ∧
    ∀ j, p.Covers s.offset s.size j → ∀ e ∈ after, ¬e.GivesBack p j

variable {p p' p₀ : Pool} {id n offset size j start : Nat} {s : Segment} {events : List Event} {e : Event}
  {ids ids' ids₀ : Counter}

theorem Outstanding.live (h : p.Outstanding events s) (hj : p.Covers s.offset s.size j) : p.Live events j := by
  obtain ⟨before, n, after, hsplit, hkept⟩ := h
  exact ⟨before, _, after, hsplit, hj, hkept j hj⟩

/-- A chunk is live if the last event took it, or did not give it back. -/
theorem live_snoc :
    p.Live (events ++ [e]) j ↔ e.Takes p j ∨ p.Live events j ∧ ¬e.GivesBack p j := by
  constructor
  · rintro ⟨before, e', after, hsplit, htakes, hkept⟩
    rcases split_snoc hsplit with ⟨-, rfl, -⟩ | ⟨rest, rfl, rfl⟩
    · exact Or.inl htakes
    · exact Or.inr ⟨⟨before, e', rest, rfl, htakes, fun e he => hkept e (List.mem_append_left _ he)⟩,
        hkept e (List.mem_append_right _ List.mem_cons_self)⟩
  · rintro (htakes | ⟨⟨before, e', rest, rfl, htakes, hkept⟩, hlast⟩)
    · exact ⟨events, e, [], rfl, htakes, List.forall_mem_nil _⟩
    · refine ⟨before, e', rest ++ [e], by rw [List.append_assoc, List.cons_append], htakes, fun e'' he => ?_⟩
      rcases List.mem_append.mp he with he | he
      · exact hkept e'' he
      · rwa [List.mem_singleton.mp he]

/-! ## Serving -/

/-- The chunks that a request takes are the lowest run of free chunks that is long enough. -/
theorem reserve_lowest (h : p.reserve n = .ok (start, p')) :
    IsLeast {start | p.chunks.FreeRun start (p.chunksFor n)} start ∧ ∃ chunks,
      p.chunks.occupy start (p.chunksFor n) = .ok chunks ∧
        p' = { p with chunks, free := p.free - p.chunksFor n } := by
  obtain ⟨-, -, hfit, hp'⟩ := reserve_eq_ok.mp h
  exact ⟨(Bitmap.fit?_eq_some_iff.mp hfit).2, hp'⟩

/-- A request takes the lowest run of free chunks that is long enough, if there is one. -/
theorem reserve_of_lowest (hp : p.Sound) (hc : p.Counted) (hn : 0 < n)
    (h : IsLeast {start | p.chunks.FreeRun start (p.chunksFor n)} start) :
    ∃ p', p.reserve n = .ok (start, p') := by
  have hroom : p.Room n := ⟨start, by rw [← chunksFor_eq hp]; exact h.1⟩
  obtain ⟨found, p', hr⟩ := reserve_of_room hp hc hn hroom
  obtain rfl := (reserve_lowest hr).1.unique h
  exact ⟨p', hr⟩

/-- A pool that serves had room, and served from the lowest run. -/
theorem serve_inversion (h : p.serve id n = .ok (s, p')) :
    0 < n ∧ ∃ start chunks, IsLeast {start | p.chunks.FreeRun start (p.chunksFor n)} start ∧
      p.chunks.occupy start (p.chunksFor n) = .ok chunks ∧
      s = ⟨id, n, "", .static 0 p.id (p.base + start * p.chunkSize)⟩ ∧
      p' = { p with chunks, free := p.free - p.chunksFor n } := by
  obtain ⟨start, hr, -, rfl⟩ := serve_eq_ok.mp h
  obtain ⟨hlowest, chunks, ho, rfl⟩ := reserve_lowest hr
  exact ⟨(reserve_eq_ok.mp hr).1, start, chunks, hlowest, ho, by rw [Nat.add_comm p.base], rfl⟩

/-- However a request ends, it is a step to what it leaves behind. -/
theorem step_allocate (p : Pool) (ids : Counter) (n : Nat) :
    (∃ s p' ids', p.allocate ids n = (.ok (s, p'), ids') ∧
      Step (p, ids) (.allocate n (.ok s)) (p', ids')) ∨
    ∃ error ids', p.allocate ids n = (.error error, ids') ∧ ∃ e, Step (p, ids) e (p.afterFailure n, ids') := by
  cases h : p.serve ids.draw.1 n with
  | ok answer =>
    have ha : p.allocate ids n = (.ok (answer.1, answer.2), ids.draw.2) := by rw [Pool.allocate, h]
    exact Or.inl ⟨_, _, _, ha, .allocated ha⟩
  | error error =>
    have ha : p.allocate ids n = (.error error, ids.draw.2) := by rw [Pool.allocate, h]
    refine Or.inr ⟨error, ids.draw.2, ha, ?_⟩
    rcases serve_eq_error.mp h with hr | ⟨start, p', hr, -, rfl⟩
    · rw [afterFailure, hr]
      exact ⟨_, .refused ha hr⟩
    · rw [afterFailure, hr]
      exact ⟨_, .overflowed ha hr⟩

/-- The chunk at the offset of a run. -/
theorem chunkAt_run (hp : p.Sound) (start : Nat) : p.chunkAt (p.base + start * p.chunkSize) = start := by
  rw [chunkAt, Nat.add_sub_cancel_left, Nat.mul_div_cancel _ hp.chunk_pos]

theorem covers_iff (hp : p.Sound) (hn : 0 < n) : p.Covers offset n j ↔ p.InRun offset n j := by
  rw [Covers, InRun, ← chunksFor_eq hp, Nat.max_eq_right (chunksFor_pos hp hn)]

theorem Same.covers (h : p.Same p') : p'.Covers offset size j ↔ p.Covers offset size j := by
  rw [Covers, h.chunkAt, h.chunkSize, Covers]

theorem Same.takes (h : p.Same p') : e.Takes p' j ↔ e.Takes p j := by
  unfold Event.Takes
  split
  · exact h.covers
  · rw [h.chunkSize]
  · rfl

theorem Same.givesBack (h : p.Same p') : e.GivesBack p' j ↔ e.GivesBack p j := by
  unfold Event.GivesBack
  split
  · exact h.covers
  · exact h.covers
  · rfl
  · rfl

theorem Same.live (h : p.Same p') : p'.Live events j ↔ p.Live events j := by
  simp only [Live, h.takes, h.givesBack]

/-! ## Giving back -/

/-- Whole chunks of the pool, at least one, start at `offset` and cover `size` bytes. -/
structure Spans (p : Pool) (offset size : Nat) : Prop where
  base_le : p.base ≤ offset
  aligned : p.chunkSize ∣ offset - p.base
  run_le : p.chunkAt offset + max 1 (size ⌈/⌉ p.chunkSize) ≤ p.chunkCount

/-- The answers to giving bytes back. -/
inductive FreeAnswer (p : Pool) (offset size : Nat) : Except Error Pool → Prop
  | outside (h : ¬p.Spans offset size) : FreeAnswer p offset size (.error (.rangeError offset size))
  | twice {j : Nat} (h : p.Spans offset size) (hj : p.Covers offset size j) (hfree : p.chunks.isFree j = true) :
      FreeAnswer p offset size (.error (.doubleFree offset size))
  | freed {chunks : Bitmap} (h : p.Spans offset size)
      (htaken : ∀ j, p.Covers offset size j → p.chunks.isFree j = false)
      (hr : p.chunks.release (p.chunkAt offset) (max 1 (size ⌈/⌉ p.chunkSize)) = .ok chunks) :
      FreeAnswer p offset size
        (.ok { p with chunks, free := p.free + max 1 (size ⌈/⌉ p.chunkSize) })

theorem freeRange_answer (hp : p.Sound) (offset size : Nat) :
    p.FreeAnswer offset size (p.freeRange offset size) := by
  have hrun : max (p.chunksFor size) 1 = max 1 (size ⌈/⌉ p.chunkSize) := by
    rw [chunksFor_eq hp, Nat.max_comm]
  have hspans : p.Spans offset size ↔ ¬(offset < p.base ∨ (offset - p.base) % p.chunkSize ≠ 0 ∨
      p.chunkCount ≤ p.chunkAt offset ∨ p.chunkCount - p.chunkAt offset < max 1 (size ⌈/⌉ p.chunkSize)) := by
    have hpos : 1 ≤ max 1 (size ⌈/⌉ p.chunkSize) := Nat.le_max_left ..
    constructor
    · rintro ⟨hbase, halign, hle⟩
      have := Nat.mod_eq_zero_of_dvd halign
      omega
    · intro h
      exact ⟨by omega, Nat.dvd_of_mod_eq_zero (by omega), by omega⟩
  unfold freeRange
  simp only [hrun]
  rw [← chunkAt]
  split
  · rename_i hout
    exact .outside (mt hspans.mp (not_not_intro hout))
  rename_i hin
  have hin := hspans.mpr hin
  have hle : p.chunkAt offset + max 1 (size ⌈/⌉ p.chunkSize) ≤ p.chunks.length := by
    rw [hp.length]
    exact hin.run_le
  have htaken := Bitmap.allTaken_iff p.chunks (p.chunkAt offset) (max 1 (size ⌈/⌉ p.chunkSize))
  rw [Bitmap.allOccupied_of_stop (Bitmap.stop_of_le hle)]
  cases hocc : p.chunks.allTaken (p.chunkAt offset) (max 1 (size ⌈/⌉ p.chunkSize)) with
  | false =>
    simp only [← Bool.not_eq_true, htaken, not_forall] at hocc
    obtain ⟨j, hl, hu, hno⟩ := hocc
    exact .twice hin ⟨hl, hu⟩ (by simpa [Nat.lt_of_lt_of_le hu hle] using hno)
  | true =>
    have hr := Bitmap.release_of_le hle
    simp only [bind, Except.bind, Bool.not_true, hr]
    exact .freed hin (fun j hj => (htaken.mp hocc j hj.1 hj.2).2) hr

/-- What became of bytes that were given back. -/
theorem freeRange_inversion (hp : p.Sound) (h : p.freeRange offset size = .ok p') :
    ∃ chunks, p.Spans offset size ∧
      p.chunks.release (p.chunkAt offset) (max 1 (size ⌈/⌉ p.chunkSize)) = .ok chunks ∧
      p' = { p with chunks, free := p.free + max 1 (size ⌈/⌉ p.chunkSize) } := by
  have hanswer := freeRange_answer hp offset size
  rw [h] at hanswer
  cases hanswer with
  | freed hspans _ hr => exact ⟨_, hspans, hr, rfl⟩

/-- A segment that is given back is one of this bin, and its bytes are given back. -/
theorem freeSegment_inversion (h : p.freeSegment s = .ok p') : p.freeRange s.offset s.size = .ok p' := by
  unfold freeSegment at h
  split at h
  · rename_i batch bin offset hkind
    split at h
    · cases h
    · have hoffset : s.offset = offset := by rw [Segment.offset, hkind, Kind.offset]
      rwa [hoffset]
  · cases h

theorem freeSegment_error {e : Error} (h : p.freeSegment s = .error e) :
    e = .segmentNotFound s.id ∨ e = .typeMismatch s.id .static s.tier ∨
      p.freeRange s.offset s.size = .error e := by
  unfold freeSegment at h
  split at h
  · rename_i batch bin offset hkind
    split at h
    · exact Or.inl (Except.error.inj h).symm
    · have hoffset : s.offset = offset := by rw [Segment.offset, hkind, Kind.offset]
      rw [hoffset]
      exact Or.inr (Or.inr h)
  · exact Or.inr (Or.inl (Except.error.inj h).symm)

/-! ## Invariants -/

/-- `p` is a later state of `p₀`, and its books are in order. -/
structure Valid (p₀ p : Pool) : Prop where
  same : p₀.Same p
  sound : p.Sound
  trim : p.chunks.Trim
  counted : p.Counted

theorem valid_create {chunkSize chunkCount base : Nat} (h : create id chunkSize chunkCount base = .ok p) :
    p.Valid p := by
  have hcounted := create_counted h
  obtain ⟨hsound, -⟩ := sound_create h
  refine ⟨⟨rfl, rfl, rfl, rfl⟩, hsound, ?_, hcounted⟩
  unfold create at h
  split at h
  · cases h
  split at h
  · cases h
  split at h
  · cases h
  · rw [← Except.ok.inj h]
    exact Bitmap.trim_ofLength _

theorem Valid.freeRange (h : p₀.Valid p) (hf : p.freeRange offset size = .ok p') : p₀.Valid p' := by
  have hcounted := counted_freeRange h.sound h.counted hf
  obtain ⟨hsame, hsound⟩ := freeRange_sound h.sound hf
  obtain ⟨chunks, -, hr, rfl⟩ := freeRange_inversion h.sound hf
  exact ⟨⟨h.same.id, h.same.chunkSize, h.same.chunkCount, h.same.base⟩, hsound,
    Bitmap.trim_of_release h.trim hr, hcounted⟩

theorem Valid.reserve (h : p₀.Valid p) (hr : p.reserve n = .ok (start, p')) : p₀.Valid p' := by
  have hres := reserve_ok h.sound hr
  have hcounted := counted_reserve h.counted hr
  obtain ⟨-, chunks, ho, rfl⟩ := reserve_lowest hr
  exact ⟨⟨h.same.id, h.same.chunkSize, h.same.chunkCount, h.same.base⟩, hres.sound,
    Bitmap.trim_of_occupy h.trim ho, hcounted⟩

theorem Valid.allocate (h : p₀.Valid p) (ha : p.allocate ids n = (.ok (s, p'), ids')) : p₀.Valid p' := by
  obtain ⟨start, hr, -⟩ := serve_eq_ok.mp (Prod.mk.inj ha).1
  exact h.reserve hr

theorem Valid.clear (h : p₀.Valid p) : p₀.Valid p.clear := by
  refine ⟨⟨h.same.id, h.same.chunkSize, h.same.chunkCount, h.same.base⟩,
    ⟨h.sound.chunk_pos, h.sound.length, Bitmap.sized_ofLength _⟩, Bitmap.trim_ofLength _, ?_⟩
  show p.chunkCount = (Bitmap.ofLength p.chunks.length).vacant.card
  rw [Bitmap.vacant_ofLength, Finset.card_range, h.sound.length]

theorem Valid.step {st st' : Pool × Counter} (h : p₀.Valid st.1) (hs : Step st e st') : p₀.Valid st'.1 := by
  cases hs with
  | allocated ha => exact h.allocate ha
  | overflowed _ hr => exact h.reserve hr
  | freed hf => exact h.freeRange (freeSegment_inversion hf)
  | rangeFreed hf => exact h.freeRange hf
  | clear => exact h.clear
  | _ => exact h

/-- What a pool knows of its history: a chunk is taken if a request took it and it was not given back
since, and what was served lies in chunks of the pool. -/
structure Remembered (p₀ p : Pool) (events : List Event) : Prop where
  taken : ∀ j, p.Taken j ↔ p₀.Live events j
  placed : ∀ n s, .allocate n (.ok s) ∈ events → p₀.Fits s.offset s.size

theorem remembered_create {chunkSize chunkCount base : Nat}
    (h : create id chunkSize chunkCount base = .ok p) : p.Remembered p [] := by
  obtain ⟨-, -, -, -, -, hfree⟩ := sound_create h
  refine ⟨fun j => ?_, fun _ _ hmem => absurd hmem List.not_mem_nil⟩
  simp only [hfree j, false_iff]
  rintro ⟨before, e, after, hsplit, -⟩
  simp at hsplit

/-- Taken after an event are the chunks that it took, and those that were and that it did not give back. -/
theorem Remembered.next (h : p₀.Remembered p events)
    (ht : ∀ j, p'.Taken j ↔ e.Takes p₀ j ∨ p.Taken j ∧ ¬e.GivesBack p₀ j)
    (hs : ∀ n s, e = .allocate n (.ok s) → p₀.Fits s.offset s.size) : p₀.Remembered p' (events ++ [e]) := by
  refine ⟨fun j => by rw [live_snoc, ht j, h.taken j], fun n s hmem => ?_⟩
  rcases List.mem_append.mp hmem with hmem | hmem
  · exact h.placed n s hmem
  · exact hs n s (List.mem_singleton.mp hmem).symm

/-- An event that takes nothing, and gives back the chunks that are free after it and no others. -/
theorem Remembered.less (h : p₀.Remembered p events) (hn : ∀ j, ¬e.Takes p₀ j)
    (hg : ∀ j, p'.Taken j ↔ p.Taken j ∧ ¬e.GivesBack p₀ j) : p₀.Remembered p' (events ++ [e]) := by
  refine h.next (fun j => by rw [hg j, or_iff_right (hn j)]) fun n s he => ?_
  -- a segment takes a chunk at least
  subst he
  exact absurd ⟨Nat.le_refl _, by omega⟩ (hn (p₀.chunkAt s.offset))

theorem Remembered.quiet (h : p₀.Remembered p events) (hn : ∀ j, ¬e.Takes p₀ j)
    (hg : ∀ j, ¬e.GivesBack p₀ j) : p₀.Remembered p (events ++ [e]) :=
  h.less hn fun j => ⟨fun ht => ⟨ht, hg j⟩, And.left⟩

theorem Remembered.freeRange (h : p₀.Remembered p events) (hv : p₀.Valid p)
    (hf : p.freeRange offset size = .ok p') (hn : ∀ j, ¬e.Takes p₀ j)
    (hg : ∀ j, e.GivesBack p₀ j ↔ p₀.Covers offset size j) : p₀.Remembered p' (events ++ [e]) := by
  refine h.less hn fun j => ?_
  obtain ⟨chunks, -, hr, rfl⟩ := freeRange_inversion hv.sound hf
  rw [hg, ← hv.same.covers]
  simp only [Taken, Covers, Bitmap.isFree_of_release hv.sound.sized hr, Bool.or_eq_false_iff,
    decide_eq_false_iff_not, and_assoc]

theorem Remembered.allocate (h : p₀.Remembered p events) (hv : p₀.Valid p)
    (ha : p.allocate ids n = (.ok (s, p'), ids')) :
    p₀.Remembered p' (events ++ [.allocate n (.ok s)]) := by
  obtain ⟨-, -, offset, hserved⟩ := serve_ok hv.sound (Prod.mk.inj ha).1
  have hoffset : s.offset = offset := by rw [Segment.offset, hserved.kind, Kind.offset]
  refine h.next (fun j => ?_) fun m t he => ?_
  · rw [hserved.taken j, ← covers_iff hv.sound hserved.fits.pos, hv.same.covers, ← hoffset, or_comm]
    exact or_congr_right (and_iff_left not_false).symm
  · obtain ⟨rfl, hs⟩ := Event.allocate.inj he
    obtain rfl := Except.ok.inj hs
    rw [hoffset]
    exact hv.same.fits.mp hserved.fits

theorem Remembered.overflowed {fault : Overflow} (h : p₀.Remembered p events) (hv : p₀.Valid p)
    (hr : p.reserve n = .ok (start, p')) : p₀.Remembered p' (events ++ [.overflowed n start fault]) := by
  refine h.next (fun j => ?_) nofun
  rw [(reserve_ok hv.sound hr).taken j, chunksFor_eq hv.sound, hv.same.chunkSize, or_comm]
  exact or_congr_right (and_iff_left not_false).symm

theorem Remembered.step {st st' : Pool × Counter} (h : p₀.Remembered st.1 events) (hv : p₀.Valid st.1)
    (hs : Step st e st') : p₀.Remembered st'.1 (events ++ [e]) := by
  cases hs with
  | allocated ha => exact h.allocate hv ha
  | overflowed _ hr => exact h.overflowed hv hr
  | freed hf => exact h.freeRange hv (freeSegment_inversion hf) (fun _ => not_false) fun _ => Iff.rfl
  | rangeFreed hf => exact h.freeRange hv hf (fun _ => not_false) fun _ => Iff.rfl
  | @clear p ids =>
    refine h.less (fun _ => not_false) fun j => ?_
    have hfree : ¬p.clear.Taken j := by
      rintro ⟨hlt, hf⟩
      have hlt : j < p.chunkCount := hlt
      have hf : (Bitmap.ofLength p.chunks.length).isFree j = false := hf
      rw [Bitmap.isFree_ofLength, hv.sound.length, decide_eq_false_iff_not] at hf
      exact hf hlt
    simp only [hfree, Event.GivesBack, not_true, and_false]
  | _ => exact h.quiet (fun _ => not_false) fun _ => not_false

/-- Both invariants, in every state that a new pool reaches. -/
theorem valid_run {chunkSize chunkCount base : Nat} (hc : create id chunkSize chunkCount base = .ok p₀)
    (hrun : Run Step (p₀, ids₀) events (p, ids)) : p₀.Valid p ∧ p₀.Remembered p events := by
  exact hrun.invariant (P := fun events st => p₀.Valid st.1 ∧ p₀.Remembered st.1 events)
    ⟨valid_create hc, remembered_create hc⟩ fun h hs => ⟨h.1.step hs, h.2.step h.1 hs⟩

end TierAlloc.Pool
