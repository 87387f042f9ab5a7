import TierAlloc.Proofs.Exchange.Words
import TierAlloc.Proofs.Memory.Names

/-!
# What the owner does to an exchange region

One statement for each operation: what a new region is like, when the owner gets an area
and which, what it then shows there, and how the owner's part ends when no peer is at
work.

**Results.**
* `create_placed`: a new region is announced in its header and all its areas are free.
* `reserve?_eq_none`, `reserve?_eq_some`: the lowest free area, if there is one.
* `place?_placed`: an offer that fits is announced in the area that it gets.
* `settle_cases`: how a wait, a wait with a deadline and a withdrawal end.
-/
namespace TierAlloc
namespace Exchange

variable {x : Exchange} {shm shm' : Shm}

/-! ## A new region -/

theorem header_foldl_freeArea (areas : List Nat) :
    x.header (areas.foldl (fun shm area => x.freeArea area shm) shm) = x.header shm := by
  induction areas generalizing shm with
  | nil => rfl
  | cons area rest ih =>
    rw [List.foldl_cons, ih]
    exact header_eq_of_control (x.patch_freeArea area shm)

theorem size_foldl_freeArea (areas : List Nat) :
    (areas.foldl (fun shm area => x.freeArea area shm) shm).objects.size = shm.objects.size := by
  induction areas generalizing shm with
  | nil => rfl
  | cons area rest ih =>
    rw [List.foldl_cons, ih]
    exact (x.patch_freeArea area shm).count

theorem words_foldl_freeArea (hx : x.region.object < shm.objects.size) (areas : List Nat)
    {area : Nat} (ha : area ∈ areas ∨ x.words shm area = .free) :
    x.words (areas.foldl (fun shm area => x.freeArea area shm) shm) area = .free := by
  induction areas generalizing shm with
  | nil => exact ha.resolve_left (List.not_mem_nil)
  | cons b rest ih =>
    rw [List.foldl_cons]
    apply ih
    · rwa [(x.patch_freeArea b shm).count]
    · rw [words_freeArea hx]
      by_cases hb : area = b
      · exact Or.inr (by rw [hb, Function.update_self])
      · rw [Function.update_of_ne hb]
        exact ha.imp_left fun h => (List.mem_cons.mp h).resolve_left hb

theorem header_setMark (hx : x.region.object < shm.objects.size) (n : Nat) :
    x.header (shm.setWord64 x.region Layout.markOffset n) =
      { x.header shm with mark := n % wordRange } := by
  rw [header, header, ExchangeHeader.mk.injEq]
  refine ⟨shm.word64_setWord64 hx _ _, ?_, ?_⟩
  · exact shm.word32_store_of_disjoint _ _ _ _ (Or.inr (by simp [Layout.markOffset, Layout.areaCountOffset]))
  · exact shm.word32_store_of_disjoint _ _ _ _ (Or.inr (by simp [Layout.markOffset, Layout.areaSizeOffset]))

theorem header_setAreaCount (hx : x.region.object < shm.objects.size) (n : Nat) :
    x.header (shm.setWord32 x.region Layout.areaCountOffset n) =
      { x.header shm with areaCount := n % halfRange } := by
  rw [header, header, ExchangeHeader.mk.injEq]
  refine ⟨?_, shm.word32_setWord32 hx _ _, ?_⟩
  · exact shm.word64_store_of_disjoint _ _ _ _ (Or.inl (by simp [Layout.markOffset, Layout.areaCountOffset]))
  · exact shm.word32_store_of_disjoint _ _ _ _ (Or.inr (by simp [Layout.areaCountOffset, Layout.areaSizeOffset]))

theorem header_setAreaSize (hx : x.region.object < shm.objects.size) (n : Nat) :
    x.header (shm.setWord32 x.region Layout.areaSizeOffset n) =
      { x.header shm with areaSize := n % halfRange } := by
  rw [header, header, ExchangeHeader.mk.injEq]
  refine ⟨?_, ?_, shm.word32_setWord32 hx _ _⟩
  · exact shm.word64_store_of_disjoint _ _ _ _ (Or.inl (by simp [Layout.markOffset, Layout.areaSizeOffset]))
  · exact shm.word32_store_of_disjoint _ _ _ _ (Or.inl (by simp [Layout.areaCountOffset, Layout.areaSizeOffset]))

theorem header_setReleases (n : Nat) :
    x.header (shm.setWord32 x.region Layout.releasesOffset n) = x.header shm := by
  refine header_eq_of_patch (shm.patch_store _ _ _) fun k hk h => ?_
  omega

theorem header_initialise (hx : x.region.object < shm.objects.size)
    (hc : x.layout.areaCount < halfRange) (hs : x.layout.areaSize < halfRange) :
    x.header (x.initialise shm) = announcement x.layout := by
  unfold initialise
  rw [header_setMark (by simpa [size_foldl_freeArea, Shm.setWord32, Shm.setWord64] using hx),
    header_foldl_freeArea, header_setReleases,
    header_setAreaSize (by simpa [Shm.setWord32, Shm.setWord64] using hx),
    header_setAreaCount (by simpa [Shm.setWord64] using hx)]
  simp only [Nat.mod_eq_of_lt hc, Nat.mod_eq_of_lt hs, announcement]
  rfl

theorem words_initialise (hx : x.region.object < shm.objects.size) {area : Nat}
    (ha : area < x.layout.areaCount) : x.words (x.initialise shm) area = .free := by
  refine (words_eq_of_patch (Shm.patch_store _ _ _ _) area fun k hk h => ?_).trans ?_
  · rw [Bytes.length_ofNat] at h
    simp only [Layout.markOffset] at h
    exact not_inControl_header (by simp only [Layout.releasesOffset]; omega) hk
  · apply words_foldl_freeArea
    · simpa [Shm.setWord32, Shm.setWord64] using hx
    · exact Or.inl (List.mem_range.mpr ha)

theorem patch_foldl_freeArea (areas : List Nat) :
    Shm.Patch x.region.object (fun _ => True) shm
      (areas.foldl (fun shm area => x.freeArea area shm) shm) := by
  induction areas generalizing shm with
  | nil => exact .refl ..
  | cons area rest ih =>
    exact ((x.patch_freeArea area shm).mono fun _ _ => trivial).trans ih

theorem patch_initialise : Shm.Patch x.region.object (fun _ => True) shm (x.initialise shm) := by
  have hs : ∀ (s : Shm) (offset : Nat) (data : Bytes),
      Shm.Patch x.region.object (fun _ => True) s (s.store x.region offset data) :=
    fun s offset data => (s.patch_store _ _ _).mono fun _ _ => trivial
  exact ((((hs _ _ _).trans (hs _ _ _)).trans (hs _ _ _)).trans (hs _ _ _)).trans
    ((patch_foldl_freeArea _).trans (hs _ _ _))

/-- The exchange maps an object that is as long as its layout, whose header
announces that layout. -/
structure Placed (x : Exchange) (shm : Shm) : Prop where
  object_lt : x.region.object < shm.objects.size
  sized : (shm.object x.region.object).size = x.region.size
  size_eq : x.region.size = x.layout.totalBytes
  below : x.region.size < regionSizeLimit
  count_lt : x.layout.areaCount < halfRange
  areaSize_lt : x.layout.areaSize < halfRange
  header : x.header shm = announcement x.layout

/-- A new exchange region: it is placed, it is made under its manager's name, and all
its areas are free. -/
theorem create_placed {manager : String} {l : Layout}
    (h : Exchange.create manager l shm = (.ok x, shm')) :
    x.layout = l ∧ x.Placed shm' ∧ (∀ area, area < l.areaCount → x.words shm' area = .free) ∧
      ∃ shm₁, Shm.Made (cacheRegionName manager) l.totalBytes shm x.region shm₁ ∧
        Shm.Patch x.region.object (fun _ => True) shm₁ shm' := by
  unfold Exchange.create at h
  split at h
  · cases h
  rename_i hl
  split at h
  · cases h
  rename_i total htotal
  obtain ⟨-, rfl⟩ := Layout.total_eq_ok.mp htotal
  split at h
  · cases h
  rename_i region shm₁ hc
  simp only [Prod.mk.injEq, Except.ok.injEq] at h
  obtain ⟨rfl, rfl⟩ := h
  have hm := Shm.create_made hc
  have hp := @patch_initialise ⟨region, l⟩ shm₁
  have hcount : l.areaCount < halfRange := by omega
  have hsize : l.areaSize < halfRange := by omega
  refine ⟨rfl, ⟨?_, ?_, hm.size_eq, ?_, hcount, hsize, ?_⟩, ?_, shm₁, hm, hp⟩
  · rw [hp.count]
    exact hm.object_lt
  · rw [hp.sizes, hm.sized, hm.size_eq]
  · rw [hm.size_eq]
    exact hm.below
  · exact header_initialise hm.object_lt hcount hsize
  · intro area ha
    exact words_initialise hm.object_lt ha

/-- Nothing but the words of the header matters to where an exchange is placed. -/
theorem Placed.congr (hx : x.Placed shm) (hc : shm.objects.size ≤ shm'.objects.size)
    (hs : (shm'.object x.region.object).size = (shm.object x.region.object).size)
    (hh : x.header shm' = x.header shm) : x.Placed shm' :=
  { hx with
    object_lt := Nat.lt_of_lt_of_le hx.object_lt hc
    sized := hs.trans hx.sized
    header := hh.trans hx.header }

/-! ## Reserving -/

theorem reserve?_eq_none :
    x.reserve? shm = none ↔ ∀ area, area < x.layout.areaCount → x.lock shm area ≠ unlocked := by
  unfold reserve?
  cases h : (List.range x.layout.areaCount).find? fun area => x.lock shm area = unlocked with
  | none => simpa [List.find?_eq_none] using h
  | some area =>
    simp only [List.find?_range_eq_some, decide_eq_true_eq, List.mem_range] at h
    simp only [reduceCtorEq, false_iff]
    exact fun hn => hn area h.2.1 h.1

/-- The area is the lowest that is not locked. -/
structure Lowest (x : Exchange) (shm : Shm) (area : Nat) : Prop where
  lt : area < x.layout.areaCount
  unlocked : x.lock shm area = unlocked
  least : ∀ b, b < area → x.lock shm b ≠ Exchange.unlocked

theorem reserve?_eq_some {area : Nat} :
    x.reserve? shm = some (area, shm') ↔ x.Lowest shm area ∧ shm' = x.setLock area locked shm := by
  unfold reserve?
  cases h : (List.range x.layout.areaCount).find? fun area => x.lock shm area = unlocked with
  | none =>
    simp only [List.find?_eq_none, List.mem_range, decide_eq_true_eq] at h
    simp only [reduceCtorEq, false_iff]
    rintro ⟨hl, -⟩
    exact h area hl.lt hl.unlocked
  | some b =>
    simp only [List.find?_range_eq_some, decide_eq_true_eq, List.mem_range,
      Bool.not_eq_true', decide_eq_false_iff_not] at h
    simp only [Option.some.injEq, Prod.mk.injEq]
    constructor
    · rintro ⟨rfl, rfl⟩
      exact ⟨⟨h.2.1, h.1, h.2.2⟩, rfl⟩
    · rintro ⟨hl, rfl⟩
      have hb : b = area := by
        rcases Nat.lt_trichotomy b area with hlt | he | hlt
        · exact absurd h.1 (hl.least b hlt)
        · exact he
        · exact absurd hl.unlocked (h.2.2 area hlt)
      subst hb
      exact ⟨rfl, rfl⟩

/-- The data of an area lies in the region. -/
theorem Placed.area_le (hx : x.Placed shm) {area : Nat} (ha : area < x.layout.areaCount) :
    x.layout.areaOffset area + x.layout.areaSize ≤ x.region.size := by
  rw [hx.size_eq, ← areaOffset_succ]
  exact areaOffset_mono _ ha

end Exchange

namespace Offer

variable {o : Offer} {shm shm' : Shm}

@[simp] theorem exchange_pending (o : Offer) (area : Nat) : (o.pending area).exchange = o.exchange :=
  rfl

@[simp] theorem area_pending (o : Offer) (area : Nat) : (o.pending area).area = area := rfl

@[simp] theorem id_pending (o : Offer) (area : Nat) : (o.pending area).segment.id = o.id := rfl

@[simp] theorem direction_pending (o : Offer) (area : Nat) :
    (o.pending area).direction = o.transfer.direction := rfl

/-- The words of the area that an offer got, until a peer comes. -/
def shown (o : Offer) : AreaWords where
  lock := Exchange.locked
  signal := o.transfer.direction.waiting
  length := o.transfer.size % wordRange
  segment := o.id % wordRange

theorem direction_waiting_mod (d : Direction) : d.waiting % halfRange = d.waiting := by
  cases d <;> rfl

theorem patch_announce (o : Offer) (area : Nat) (shm : Shm) :
    Shm.Patch o.exchange.region.object (Exchange.InControl area) shm (o.announce area shm) :=
  ((o.exchange.patch_setSegment area _ shm).trans (o.exchange.patch_setPayloadLength area _ _)).trans
    (o.exchange.patch_setSignal area _ _)

theorem words_announce (hx : o.exchange.region.object < shm.objects.size) (area : Nat) :
    o.exchange.words (o.announce area shm) area =
      { o.shown with lock := o.exchange.lock shm area } := by
  unfold announce
  rw [Exchange.words_setSignal (by simpa using hx), Exchange.words_setPayloadLength (by simpa using hx),
    Exchange.words_setSegment hx]
  simp only [Function.update_self, direction_waiting_mod]
  rfl

/-- The payload of an offer is in the area that it got. -/
def Loaded (o : Offer) (area : Nat) (shm : Shm) : Prop :=
  match o.transfer with
  | .inbound _ => True
  | .outbound payload =>
    shm.bytes o.exchange.region (o.exchange.layout.areaOffset area) payload.length = payload

/-- An offer that fits is loaded, and loading stays in the data of the area. -/
theorem load_ok {area : Nat} (hx : o.exchange.region.object < shm.objects.size)
    (hfit : o.transfer.size ≤ o.exchange.layout.areaSize)
    (harea : o.exchange.layout.areaOffset area + o.exchange.layout.areaSize ≤ o.exchange.region.size) :
    ∃ shm₁, o.load area shm = .ok shm₁ ∧
      Shm.Patch o.exchange.region.object (o.exchange.InArea area) shm shm₁ ∧ o.Loaded area shm₁ := by
  unfold load Loaded
  cases ht : o.transfer with
  | inbound n => exact ⟨shm, rfl, .refl .., trivial⟩
  | outbound payload =>
    have hp : payload.length ≤ o.exchange.layout.areaSize := by simpa [ht, Transfer.size] using hfit
    refine ⟨_, (Shm.write_eq ..).trans (if_pos (by omega)), ?_, Shm.bytes_store _ hx _ _⟩
    refine (shm.patch_store _ _ _).mono fun k hk => ⟨hk.1, ?_⟩
    rw [Exchange.areaOffset_succ]
    omega

/-- What getting an area does: it was the lowest free one, its words announce the offer,
its data holds the payload, and nothing changed outside its part. -/
theorem place?_placed {r : Except Error Pending} (hx : o.exchange.Placed shm)
    (hfit : o.transfer.size ≤ o.exchange.layout.areaSize) (h : o.place? shm = some (r, shm')) :
    ∃ area, o.exchange.Lowest shm area ∧ r = .ok (o.pending area) ∧
      Shm.Patch o.exchange.region.object (o.exchange.InPart area) shm shm' ∧
      o.exchange.words shm' area = o.shown ∧ o.Loaded area shm' := by
  unfold place? at h
  cases hr : o.exchange.reserve? shm with
  | none =>
    rw [hr] at h
    cases h
  | some p =>
    obtain ⟨area, shm₁⟩ := p
    obtain ⟨hlow, rfl⟩ := Exchange.reserve?_eq_some.mp hr
    have h₁ : o.exchange.region.object < (o.exchange.setLock area Exchange.locked shm).objects.size := by
      simpa using hx.object_lt
    obtain ⟨shm₂, hload, hpatch, hloaded⟩ := load_ok h₁ hfit (hx.area_le hlow.lt)
    simp only [hr, hload, Option.some.injEq, Prod.mk.injEq] at h
    obtain ⟨rfl, rfl⟩ := h
    have h₂ : o.exchange.region.object < shm₂.objects.size := by
      rw [hpatch.count]
      exact h₁
    refine ⟨area, hlow, rfl, ?_, ?_, ?_⟩
    · refine ((o.exchange.patch_setLock area Exchange.locked shm).mono fun k hk => Or.inl hk).trans ?_
      refine (hpatch.mono fun k hk => Or.inr hk).trans ?_
      exact (o.patch_announce area shm₂).mono fun k hk => Or.inl hk
    · rw [words_announce h₂]
      have hw := Exchange.words_eq_of_patch hpatch area fun k hk hd => by
        have := Exchange.inControl_lt_dataStart hlow.lt hk
        have := Exchange.dataStart_le_areaOffset o.exchange.layout area
        have := hd.1
        omega
      have hl : o.exchange.lock shm₂ area = Exchange.locked := by
        have := congrArg AreaWords.lock (hw.trans (congrFun (Exchange.words_setLock hx.object_lt area Exchange.locked) area))
        simpa [Exchange.words, Function.update_self, Exchange.locked, halfRange] using this
      rw [hl]
      rfl
    · unfold Loaded at hloaded ⊢
      cases ht : o.transfer with
      | inbound n => trivial
      | outbound payload =>
        rw [ht] at hloaded
        exact (Exchange.data_eq_of_control hlow.lt (o.patch_announce area shm₂) area _).trans hloaded

/-- An offer waits exactly as long as every area is locked. -/
theorem place?_eq_none : o.place? shm = none ↔
    ∀ area, area < o.exchange.layout.areaCount → o.exchange.lock shm area ≠ Exchange.unlocked := by
  rw [← Exchange.reserve?_eq_none]
  unfold place?
  cases o.exchange.reserve? shm with
  | none => simp
  | some p =>
    simp only [reduceCtorEq, iff_false]
    split <;> simp

end Offer

/-! ## The end of the owner's part -/

/-- With no peer at work the owner finds the word waiting or done, and ends at once
or, waiting for completion only, not at all. -/
theorem settle_cases (goal : Goal) (dir : Direction) {word : Nat}
    (hw : word = dir.waiting ∨ word = dir.done) :
    settle goal dir [] word =
      if word = dir.done then some (.completed, word)
      else if goal = .completion then none else some (.withdrawn, Signal.idle) := by
  rcases hw with rfl | rfl <;> cases dir <;> cases goal <;> decide

namespace Pending

variable {p : Pending} {c c' : Cache} {shm shm' : Shm}

/-- What the end of the owner's part does to the region. -/
structure Ended (p : Pending) (shm shm' : Shm) : Prop where
  patch : Shm.Patch p.exchange.region.object (Exchange.InRelease p.area) shm shm'
  words : p.exchange.words shm' = Function.update (p.exchange.words shm) p.area .free
  header : p.exchange.header shm' = p.exchange.header shm

theorem ended (hx : p.exchange.region.object < shm.objects.size) (word : Nat) :
    p.Ended shm (p.release (p.setSignal word shm)) where
  patch := ((p.exchange.patch_setSignal p.area word shm).mono fun k hk => Or.inl hk).trans
    (p.exchange.patch_release p.area _)
  words := by
    unfold release setSignal
    rw [Exchange.words_release (by simpa using hx), Exchange.words_setSignal hx, Function.update_idem]
  header := by
    unfold release setSignal
    rw [Exchange.header_release, Exchange.header_eq_of_control (p.exchange.patch_setSignal ..)]

theorem take_setSignal (hlt : p.area < p.exchange.layout.areaCount) (word : Nat) (c : Cache) :
    p.take c (p.setSignal word shm) = p.take c shm := by
  unfold take setSignal
  simp only [Exchange.length_setSignal, Shm.read_eq,
    Exchange.data_eq_of_control hlt (p.exchange.patch_setSignal p.area word shm)]

/-- How a wait ends: with the payload taken, if the peer had finished, and otherwise,
if there is a deadline, with the offer taken back. -/
theorem settle?_eq (hlt : p.area < p.exchange.layout.areaCount) (goal : Goal) (c : Cache)
    (hw : p.signal shm = p.direction.waiting ∨ p.signal shm = p.direction.done) :
    p.settle? goal [] c shm =
      if p.signal shm = p.direction.done then
        some ((p.take c shm).1, (p.take c shm).2, p.release (p.setSignal p.direction.done shm))
      else if goal = .completion then none
      else some (.error (.handoffTimeout p.segment.id), c, p.release (p.setSignal Signal.idle shm)) := by
  unfold settle?
  rw [settle_cases goal p.direction hw]
  by_cases hd : p.signal shm = p.direction.done
  · simp only [hd, if_true, take_setSignal hlt]
  · simp only [hd, if_false]
    by_cases hg : goal = .completion <;> simp [hg]

theorem settle?_some {goal : Goal} {r : Except Error Segment}
    (hx : p.exchange.region.object < shm.objects.size) (hlt : p.area < p.exchange.layout.areaCount)
    (hw : p.signal shm = p.direction.waiting ∨ p.signal shm = p.direction.done)
    (h : p.settle? goal [] c shm = some (r, c', shm')) :
    p.Ended shm shm' ∧
      (p.signal shm = p.direction.done ∧ p.take c shm = (r, c') ∨
        p.signal shm = p.direction.waiting ∧ r = .error (.handoffTimeout p.segment.id) ∧ c' = c) := by
  rw [settle?_eq hlt goal c hw] at h
  split at h
  · rename_i hd
    simp only [Option.some.injEq, Prod.mk.injEq] at h
    obtain ⟨rfl, rfl, rfl⟩ := h
    exact ⟨ended hx _, Or.inl ⟨hd, rfl⟩⟩
  split at h
  · cases h
  · rename_i hd _
    simp only [Option.some.injEq, Prod.mk.injEq] at h
    obtain ⟨rfl, rfl, rfl⟩ := h
    exact ⟨ended hx _, Or.inr ⟨hw.resolve_right hd, rfl, rfl⟩⟩

/-- An owner that gives up is never kept waiting when no peer is at work. -/
theorem abandon?_nil (hx : p.exchange.region.object < shm.objects.size)
    (hw : p.signal shm = p.direction.waiting ∨ p.signal shm = p.direction.done) :
    ∃ shm', p.abandon? [] shm = some shm' ∧ p.Ended shm shm' := by
  unfold abandon?
  rw [settle_cases .abandon p.direction hw]
  by_cases hd : p.signal shm = p.direction.done
  · simp only [hd, if_true]
    exact ⟨_, rfl, ended hx _⟩
  · simp only [hd, if_false, reduceCtorEq]
    exact ⟨_, rfl, ended hx _⟩

end Pending
end TierAlloc
