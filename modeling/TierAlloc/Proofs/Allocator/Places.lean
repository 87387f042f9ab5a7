import TierAlloc.Proofs.Allocator.Regions

/-!
# Places of segments

A live segment that is no cache entry has a place: bytes of a region, the batch's or its
own. The places of two segments share no byte, whether the segments are in one bin, in
two bins of a batch or in different regions. So what is stored in one place is not seen
in another.

**Results.**
* `exists_place`: the place of a live segment is inside its region.
* `place_cases`: the region is one that the allocator has under its own name.
* `places_apart`: two places have no byte in common.
* `place?_becomes`: a segment stays where it is, whatever happens to others.
-/
namespace TierAlloc.Allocator

variable {a a' : Allocator} {t : Traffic} {shm shm' : Shm} {s s' : Segment} {id id' : Nat}
  {r r' : Region} {offset offset' : Nat}

theorem place?_static {b : Batch} {batch bin : Nat} (hk : s.kind = .static batch bin offset)
    (hb : a.ledger.batches[batch]? = some b) : a.place? s = some (b.region, offset) := by
  have hb : a.batch? batch = some b := hb
  unfold place?
  rw [hk]
  simp only [hb, Option.map_some]

theorem place?_ephemeral (hk : s.kind = .ephemeral) (hr : a.ledger.regions s.id = some r) :
    a.place? s = some (r, 0) := by
  have hr : a.ephemeral.region? s.id = some r := hr
  unfold place?
  rw [hk]
  simp only [hr, Option.map_some]

/-- The pool that a static segment is in. -/
theorem exists_pool (h : Accounted a t) {batch bin : Nat} (hs : a.ledger.segments id = some s)
    (hk : s.kind = .static batch bin offset) : ∃ b p, a.ledger.batches[batch]? = some b ∧ b.Sound ∧
      p ∈ b.pools ∧ p.id = bin ∧ p.Fits offset s.size := by
  obtain ⟨p, hp, hfits⟩ := h.balanced.occupied.placed hs hk
  obtain ⟨b, hb, hp⟩ := Option.bind_eq_some_iff.mp hp
  have hsound := (h.sound _ _ hb).2
  obtain ⟨hmem, hid⟩ := (Batch.pool?_eq_some hsound).mp hp
  exact ⟨b, p, hb, hsound, hmem, hid, hfits⟩

/-- The region that an ephemeral segment has to itself. -/
theorem exists_region (h : Accounted a t) (hs : a.ledger.segments id = some s) (hk : s.kind = .ephemeral) :
    ∃ r, a.ledger.regions s.id = some r ∧ r.size = s.size := by
  obtain rfl := h.own s hs
  have hsize := h.balanced.mapped s.id
  rw [sizeIn_of_some hs, if_pos (Segment.tier_of_ephemeral hk), Option.map_eq_some_iff] at hsize
  exact hsize

theorem exists_place (h : Accounted a t) (hm : Mapping a shm) (hs : a.ledger.segments id = some s)
    (ht : s.tier ≠ .cache) : ∃ r offset, a.place? s = some (r, offset) ∧ offset + s.size ≤ r.size := by
  cases hk : s.kind with
  | static batch bin offset =>
    obtain ⟨b, p, hb, hsound, hp, -, hfits⟩ := exists_pool h hs hk
    obtain ⟨-, hle⟩ := hm.batches hb
    refine ⟨b.region, offset, place?_static hk hb, ?_⟩
    have := hfits.inside (hsound.pools p hp)
    have := hsound.inside p hp
    omega
  | ephemeral =>
    obtain ⟨r, hr, hsize⟩ := exists_region h hs hk
    refine ⟨r, 0, place?_ephemeral hk hr, ?_⟩
    omega
  | cache place => exact absurd (Segment.tier_of_cache hk) ht

/-- A place is in the region of a batch or in that of the segment. -/
theorem place_cases (hm : Mapping a shm) (hp : a.place? s = some (r, offset)) :
    a.Uses r.name ∧ Shm.Shows r.name r shm ∧
      ((∃ batch bin, s.kind = .static batch bin offset ∧ r.name = staticRegionName a.name batch) ∨
        s.kind = .ephemeral ∧ r.name = ephemeralRegionName a.name s.id) := by
  cases hk : s.kind with
  | cache place => simp [place?, hk] at hp
  | static batch bin start =>
    simp only [place?, hk, Option.map_eq_some_iff, Prod.mk.injEq] at hp
    obtain ⟨b, hb, rfl, rfl⟩ := hp
    have hshows := (hm.batches hb).1
    have hname := hshows.name_eq
    rw [← hname] at hshows
    exact ⟨Or.inl ⟨batch, b, hb, hname⟩, hshows, Or.inl ⟨batch, bin, rfl, hname⟩⟩
  | ephemeral =>
    simp only [place?, hk, Option.map_eq_some_iff, Prod.mk.injEq] at hp
    obtain ⟨q, hq, rfl, rfl⟩ := hp
    have hshows := hm.regions hq
    have hname := hshows.name_eq
    rw [← hname] at hshows
    exact ⟨Or.inr ⟨s.id, q, hq, hname⟩, hshows, Or.inr ⟨rfl, hname⟩⟩

/-- Two segments in one batch share no byte. -/
theorem chunks_apart (h : Accounted a t) {batch bin bin' : Nat} (hs : a.ledger.segments id = some s)
    (hs' : a.ledger.segments id' = some s') (hne : id ≠ id') (hk : s.kind = .static batch bin offset)
    (hk' : s'.kind = .static batch bin' offset') :
    offset + s.size ≤ offset' ∨ offset' + s'.size ≤ offset := by
  obtain ⟨b, p, hb, hsound, hp, rfl, hfits⟩ := exists_pool h hs hk
  obtain ⟨b', p', hb', -, hp', rfl, hfits'⟩ := exists_pool h hs' hk'
  obtain rfl := Option.some.inj (hb.symm.trans hb')
  by_cases hbin : p.id = p'.id
  · have hpool := (Batch.pool?_eq_some hsound).mpr ⟨hp, rfl⟩
    have hpool' := (Batch.pool?_eq_some hsound).mpr ⟨hp', rfl⟩
    rw [hbin] at hpool
    obtain rfl := Option.some.inj (hpool.symm.trans hpool')
    have hat : poolAt a.ledger.batches batch p.id = some p := by
      rw [poolAt, hb, Option.bind_some, hpool]
    refine hfits.apart (hsound.pools p hp) hfits' fun j hj hj' => hne ?_
    exact h.balanced.occupied.apart hat ⟨s, hs, offset, hk, hj⟩ ⟨s', hs', offset', hk', hj'⟩
  · have hapart := hsound.pools_apart hp hp' hbin
    have := hfits.base_le
    have := hfits'.base_le
    have := hfits.inside (hsound.pools p hp)
    have := hfits'.inside (hsound.pools p' hp')
    omega

/-- The places of two segments have no byte in common. -/
theorem places_apart (h : Accounted a t) (hm : Mapping a shm) (hs : a.ledger.segments id = some s)
    (hs' : a.ledger.segments id' = some s') (hne : id ≠ id') (hp : a.place? s = some (r, offset))
    (hp' : a.place? s' = some (r', offset')) :
    r.object ≠ r'.object ∨ offset + s.size ≤ offset' ∨ offset' + s'.size ≤ offset := by
  obtain rfl := h.own s hs
  obtain rfl := h.own s' hs'
  obtain ⟨-, hr, hcases⟩ := place_cases hm hp
  obtain ⟨-, hr', hcases'⟩ := place_cases hm hp'
  by_cases hname : r.name = r'.name
  · rcases hcases with ⟨batch, bin, hk, hn⟩ | ⟨hk, hn⟩ <;>
      rcases hcases' with ⟨batch', bin', hk', hn'⟩ | ⟨hk', hn'⟩ <;> rw [hn, hn'] at hname
    · obtain rfl := (staticRegionName_eq hname).2
      exact Or.inr (chunks_apart h hs hs' hne hk hk')
    · exact absurd hname (ephemeralRegionName_ne_static _ _ _ _).symm
    · exact absurd hname (ephemeralRegionName_ne_static _ _ _ _)
    · exact absurd (ephemeralRegionName_eq hname).2 hne
  · exact Or.inl (hr.object_ne hr' hname)

/-! ## What is shown there -/

theorem shown_eq (hp : a.place? s = some (r, offset)) (shm : Shm) :
    a.shown s shm = shm.bytes r offset s.size := by
  unfold shown
  rw [hp]

/-- Each batch of the first list is in the second one, in its place and with its region. -/
def Persist (batches batches' : List Batch) : Prop :=
  ∀ (i : Nat) (b : Batch), batches[i]? = some b → ∃ b', batches'[i]? = some b' ∧ b'.region = b.region

theorem Persist.refl (batches : List Batch) : Persist batches batches := fun _ b hb => ⟨b, hb, rfl⟩

theorem persist_append (batches more : List Batch) : Persist batches (batches ++ more) := by
  intro i b hb
  have hi := (List.getElem?_eq_some_iff.mp hb).1
  exact ⟨b, by rw [List.getElem?_append_left hi, hb], rfl⟩

theorem persist_putPool {batches : List Batch} {b : Batch} (hb : batches[b.id]? = some b) (p' : Pool) :
    Persist batches (batches.set b.id (b.putPool p')) := by
  intro i c hc
  have hi := (List.getElem?_eq_some_iff.mp hc).1
  rw [List.getElem?_set]
  by_cases he : b.id = i
  · subst he
    rw [if_pos rfl, if_pos hi]
    obtain rfl := Option.some.inj (hb.symm.trans hc)
    exact ⟨_, rfl, rfl⟩
  · rw [if_neg he]
    exact ⟨c, hc, rfl⟩

/-- Where a segment is does not change as long as its region stays. -/
theorem place?_becomes {l : Ledger} (hb : a.Becomes l a') (hbatches : Persist a.ledger.batches l.batches)
    (hregion : l.regions s.id = a.ledger.regions s.id) (hp : a.place? s = some (r, offset)) :
    a'.place? s = some (r, offset) := by
  cases hk : s.kind with
  | cache place => simp [place?, hk] at hp
  | static batch bin start =>
    simp only [place?, hk, Option.map_eq_some_iff, Prod.mk.injEq] at hp
    obtain ⟨b, hi, rfl, rfl⟩ := hp
    obtain ⟨b', hi', hr⟩ := hbatches batch b hi
    rw [← hb.ledger] at hi'
    rw [place?_static hk hi', hr]
  | ephemeral =>
    simp only [place?, hk, Option.map_eq_some_iff, Prod.mk.injEq] at hp
    obtain ⟨q, hq, rfl, rfl⟩ := hp
    refine place?_ephemeral hk ?_
    rw [hb.ledger, hregion]
    exact hq

end TierAlloc.Allocator
