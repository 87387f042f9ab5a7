import TierAlloc.Proofs.Allocator.Values
import TierAlloc.Proofs.Descriptor.Roundtrip
import TierAlloc.Proofs.Shared.World

/-!
# Coherence

A consumer never talks to the allocator of a segment. It is told a descriptor, works out
the name of a region and an offset in it, and maps what is there. Yet whoever has a live
segment of shared memory, its allocator or any consumer that it is registered with, has
the same bytes of the same object; and since the places of live segments are apart, in one
allocator and in several, a write to one of them is seen by all who have it, and by nobody
in another segment.

**Results.**
* `World.Lies`, `exists_lies`: where a live segment is.
* `Lies.register`: its descriptor can be registered.
* `Lies.reads`: what its allocator and its holders read.
* `Lies.write`: what a write to it does.
* `segments_coherent`: all of this in every state that is reached.
-/
namespace TierAlloc

/-- A segment as a consumer is told about it. -/
def Segment.asLocal (s : Segment) : LocalSegment := ⟨s.id, s.size, s.tier, s.offset, s.regionName?⟩

/-- The segment is registered with the consumer. -/
def Consumer.Holds (c : Consumer) (s : Segment) : Prop :=
  ∃ e, c.entries.get? s.id = some e ∧ e.segment = s.asLocal

namespace World

/-- The allocator reads these bytes of its segment, and so do all who hold it. -/
structure Reads (w : World) (p : Producer) (s : Segment) (bytes : Bytes) : Prop where
  owner : p.allocator.read s.id w.shm = .ok bytes
  holders : ∀ c ∈ w.consumers, c.Holds s → c.read s.id w.shm = .ok bytes

/-- A write to the segment, by its allocator or by one who holds it, that succeeds. -/
inductive Writes (w : World) (p : Producer) (s : Segment) (offset : Nat) (data : Bytes) : Event → Prop
  | owner : Writes w p s offset data (.serve p.name (.write s.id offset data (.ok ())))
  | holder {i : Nat} {c : Consumer} (hi : w.consumers[i]? = some c) (hc : c.Holds s) :
      Writes w p s offset data (.consume i (.write s.id offset data (.ok ())))

/-- What is read in `w'` of the segment `s` of `p`, and by those who hold it, is what was read
in `w`. -/
structure Unchanged (w w' : World) (p : Producer) (s : Segment) : Prop where
  owner : p.allocator.read s.id w'.shm = p.allocator.read s.id w.shm
  holders : ∀ c ∈ w.consumers, c.Holds s → c.read s.id w'.shm = c.read s.id w.shm

/-- What those who have the live segment `s` of `p` can rely on. -/
structure Coherent (w : World) (p : Producer) (s : Segment) : Prop where
  /-- A consumer that has no segment with this id can register the descriptor that it is sent,
  in which an id is one word. -/
  register : s.id < wordRange → ∀ c ∈ w.consumers, c.isRegistered s.id = false →
    ∃ d c', Descriptor.decode (Descriptor.encode s.descriptor) = .ok d ∧
      c.register d w.shm = (.ok s.asLocal, c') ∧ c'.Holds s
  /-- It holds the segment until it unregisters it. -/
  held : ∀ i c later w', w.consumers[i]? = some c → c.Holds s → Run Step w later w' →
    (∀ answer, .consume i (.unregister s.id answer) ∉ later) →
    ∃ c', w'.consumers[i]? = some c' ∧ c'.Holds s
  /-- All read the same bytes. -/
  reads : ∃ bytes, bytes.length = s.size ∧ w.Reads p s bytes
  /-- Any of them can write what fits in. -/
  writes : ∀ offset data e, w.Writes p s offset data e →
    ((∃ w', Step w e w') ↔ offset + data.length ≤ s.size)
  /-- All read what was written, and nothing else has changed in any live segment. -/
  written : ∀ offset data e w' bytes, w.Writes p s offset data e → Step w e w' → w.Reads p s bytes →
    w'.producers = w.producers ∧ w'.consumers = w.consumers ∧ w'.Reads p s (bytes.splice offset data) ∧
      ∀ q ∈ w.producers, ∀ s', q.allocator.get s'.id = .ok s' → (q.name, s'.id) ≠ (p.name, s.id) →
        w.Unchanged w' q s'

end World

/-! ## The descriptor as it arrives -/

/-- A descriptor of a segment of shared memory keeps its region, its place and its size. -/
theorem Descriptor.wrap_of_lt {d : Descriptor} (ht : d.tier ≠ .cache) (hid : d.id < wordRange)
    (hbatch : ∀ batch bin offset, d.kind = .static batch bin offset → batch < wordRange)
    (hoffset : d.offset < wordRange) (hsize : d.size < wordRange) :
    d.wrap.id = d.id ∧ d.wrap.size = d.size ∧ d.wrap.tier = d.tier ∧ d.wrap.offset = d.offset ∧
      d.wrap.regionName? = d.regionName? := by
  refine ⟨Nat.mod_eq_of_lt hid, Nat.mod_eq_of_lt hsize, ?_⟩
  obtain ⟨manager, id, size, kind⟩ := d
  cases kind with
  | static batch bin offset =>
    have hb := Nat.mod_eq_of_lt (hbatch batch bin offset rfl)
    have ho : offset % wordRange = offset := Nat.mod_eq_of_lt hoffset
    simp [wrap, wrapKind, tier, Kind.tier, Descriptor.offset, Kind.offset, regionName?, Kind.regionName?, hb, ho]
  | ephemeral =>
    have hid : id % wordRange = id := Nat.mod_eq_of_lt hid
    simp [wrap, wrapKind, tier, Kind.tier, Descriptor.offset, Kind.offset, regionName?, Kind.regionName?, hid]
  | cache place => exact absurd rfl ht

theorem Descriptor.length_utf8 (m : String) : (utf8 m).length = m.utf8ByteSize := by
  unfold utf8
  rw [Array.length_toList]
  rfl

/-- The name of a region is not shorter than that of its manager. -/
theorem SegmentName.size_le {m n : String} (h : SegmentName m n) : m.utf8ByteSize ≤ n.utf8ByteSize := by
  rcases h with ⟨i, rfl⟩ | ⟨i, rfl⟩
  · simp only [staticRegionName, String.utf8ByteSize_append]
    omega
  · simp only [ephemeralRegionName, String.utf8ByteSize_append]
    omega

namespace Consumer

variable {c : Consumer} {d : Descriptor} {shm : Shm} {n : String} {r : Region}

/-- A mapping that is there already or that can be made now serves what lies in it. -/
theorem registerMapped_of_covers (hc : ∀ a, c.regions.get? n = some a → a.region.size = r.size)
    (ha : shm.attach n = .ok r) (hle : d.offset + d.size ≤ r.size) :
    ∃ c', c.registerMapped d n shm = (.ok ⟨d.id, d.size, d.tier, d.offset, some n⟩, c') ∧
      ∃ b, c'.entries.get? d.id = some ⟨⟨d.id, d.size, d.tier, d.offset, some n⟩, b⟩ := by
  obtain ⟨r', c₁, hr', hsize⟩ : ∃ r' c₁, c.attachRegion n shm = .ok (r', c₁) ∧ r'.size = r.size := by
    unfold attachRegion
    cases hn : c.regions.get? n with
    | some a => exact ⟨_, _, rfl, hc a hn⟩
    | none =>
      refine ⟨r, { c with regions := c.regions.insert n ⟨r, 1⟩ }, ?_, rfl⟩
      simp only [ha, bind, Except.bind, pure, Except.pure]
  have hcovers : r'.covers d.offset d.size = true := by
    rw [Region.covers, hsize]
    exact decide_eq_true hle
  refine ⟨c₁.enter ⟨d.id, d.size, d.tier, d.offset, some n⟩ (.mapped r'), ?_, .mapped r', ?_⟩
  · simp only [registerMapped, hr', hcovers, if_true]
  · simp [enter, Table.get?_insert]

end Consumer

/-! ## Writing in place -/

/-- A write of the allocator stores in the place of the segment. -/
theorem Allocator.Written.stored {a a' : Allocator} {shm shm' : Shm} {s : Segment} {offset start : Nat}
    {data : Bytes} {r : Region} (hw : a.Written shm s offset data a' shm') (ht : s.tier ≠ .cache)
    (hp : a.place? s = some (r, start)) : a' = a ∧ shm' = shm.store r (start + offset) data := by
  cases hw with
  | chunks hk hb =>
    rw [place?_static hk hb, Option.some.injEq, Prod.mk.injEq] at hp
    obtain ⟨rfl, rfl⟩ := hp
    exact ⟨rfl, rfl⟩
  | region hk hr =>
    rw [place?_ephemeral hk hr, Option.some.injEq, Prod.mk.injEq] at hp
    obtain ⟨rfl, rfl⟩ := hp
    rw [Nat.zero_add]
    exact ⟨rfl, rfl⟩
  | entry hcache => exact absurd hcache ht

theorem Allocator.place?_offset {a : Allocator} {s : Segment} {r : Region} {offset : Nat}
    (hp : a.place? s = some (r, offset)) : s.offset = offset := by
  cases hk : s.kind with
  | static batch bin start =>
    simp only [place?, hk, Option.map_eq_some_iff, Prod.mk.injEq] at hp
    obtain ⟨-, -, -, rfl⟩ := hp
    rw [Segment.offset, hk, Kind.offset]
  | ephemeral =>
    simp only [place?, hk, Option.map_eq_some_iff, Prod.mk.injEq] at hp
    obtain ⟨-, -, -, rfl⟩ := hp
    rw [Segment.offset, hk, Kind.offset]
  | cache place => simp [place?, hk] at hp

/-- A live segment of shared memory lies in the region that its descriptor names. -/
theorem Standing.exists_shown {a : Allocator} {t : Traffic} {shm : Shm} {s : Segment} {id : Nat}
    (h : Standing a shm t) (hs : a.ledger.segments id = some s) (ht : s.tier ≠ .cache) :
    ∃ r, a.place? s = some (r, s.offset) ∧ s.offset + s.size ≤ r.size ∧ Shm.Shows r.name r shm ∧
      s.regionName? = some r.name ∧ SegmentName a.name r.name := by
  obtain ⟨hacc, hmap, -, -, hdesc, -⟩ := h
  have hmanager := hdesc.manager _ _ hs
  obtain ⟨r, offset, hplace, hle⟩ := Allocator.exists_place hacc hmap hs ht
  obtain ⟨-, hshows, hcases⟩ := Allocator.place_cases hmap hplace
  obtain rfl := Allocator.place?_offset hplace
  refine ⟨r, hplace, hle, hshows, ?_, ?_⟩ <;> rcases hcases with ⟨batch, bin, hk, hname⟩ | ⟨hk, hname⟩
  · rw [Segment.regionName?, hk, hmanager, hname, Kind.regionName?]
  · rw [Segment.regionName?, hk, hmanager, hname, Kind.regionName?]
  · exact Or.inl ⟨batch, hname⟩
  · exact Or.inr ⟨s.id, hname⟩

namespace World

variable {w w' : World} {p q : Producer} {s s' : Segment} {r r' : Region} {c : Consumer} {offset : Nat}
  {data bytes : Bytes} {e : Event}

/-! ## Where a live segment is -/

/-- The live segment `s` of `p` lies in the region `r`. -/
structure Lies (w : World) (p : Producer) (s : Segment) (r : Region) : Prop where
  member : p ∈ w.producers
  live : p.allocator.ledger.segments s.id = some s
  tier : s.tier ≠ .cache
  place : p.allocator.place? s = some (r, s.offset)
  inside : s.offset + s.size ≤ r.size
  positive : 0 < s.size
  shows : Shm.Shows r.name r w.shm
  named : s.regionName? = some r.name
  manager : s.manager = p.name
  segmentName : SegmentName p.name r.name

theorem exists_lies (h : w.Sound) (hp : p ∈ w.producers) (hs : p.allocator.get s.id = .ok s)
    (ht : s.tier ≠ .cache) : ∃ r, w.Lies p s r := by
  have hstanding := h.standing p hp
  have hlive := Allocator.get_eq_ok.mp hs
  obtain ⟨r, hplace, hle, hshows, hnamed, hname⟩ := hstanding.exists_shown hlive ht
  refine ⟨r, hp, hlive, ht, hplace, hle, ?_, hshows, hnamed, hstanding.described.manager _ _ hlive, hname⟩
  cases hk : s.kind with
  | static batch bin offset =>
    obtain ⟨b, pool, -, -, -, -, hfits⟩ := Allocator.exists_pool hstanding.accounts hlive hk
    exact hfits.pos
  | ephemeral =>
    obtain ⟨r', hr', hsize⟩ := Allocator.exists_region hstanding.accounts hlive hk
    rw [Allocator.place?_ephemeral hk hr', Option.some.injEq, Prod.mk.injEq] at hplace
    obtain ⟨rfl, -⟩ := hplace
    have hmappable := (h.regions _ _ _ hname hshows.named).2
    rw [hshows.sized, hsize] at hmappable
    exact hmappable.positive
  | cache place => exact absurd (Segment.tier_of_cache hk) ht

theorem Lies.mappable (hl : w.Lies p s r) (h : w.Sound) : Shm.Mappable r.name r.size := by
  have hm := (h.regions _ _ _ hl.segmentName hl.shows.named).2
  rwa [hl.shows.sized] at hm

/-- No two live segments share a byte. -/
theorem Lies.apart (hl : w.Lies p s r) (hl' : w.Lies q s' r') (h : w.Sound)
    (hne : (q.name, s'.id) ≠ (p.name, s.id)) :
    r.object ≠ r'.object ∨ s.offset + s.size ≤ s'.offset ∨ s'.offset + s'.size ≤ s.offset := by
  by_cases hname : q.name = p.name
  · obtain rfl := List.inj_on_of_nodup_map h.distinct hl'.member hl.member hname
    obtain ⟨hacc, hmap, -⟩ := h.standing q hl.member
    have hid : s.id ≠ s'.id := fun he => hne (by rw [he])
    exact Allocator.places_apart hacc hmap hl.live hl'.live hid hl.place hl'.place
  · refine Or.inl (hl.shows.object_ne hl'.shows fun he => hname ?_)
    have hn := hl.segmentName
    rw [he] at hn
    exact hl'.segmentName.ofManager.unique hn.ofManager

/-! ## Registering -/

theorem Lies.register (hl : w.Lies p s r) (h : w.Sound) (hid : s.id < wordRange) (hc : c ∈ w.consumers)
    (hnew : c.isRegistered s.id = false) :
    ∃ d c', Descriptor.decode (Descriptor.encode s.descriptor) = .ok d ∧
      c.register d w.shm = (.ok s.asLocal, c') ∧ c'.Holds s := by
  obtain ⟨-, -, -, -, hdesc, hcheck⟩ := h.standing p hl.member
  have hmappable := hl.mappable h
  have hbelow : r.size < wordRange := Nat.lt_trans hmappable.below (by decide)
  have hinside := hl.inside
  have hpositive := hl.positive
  -- the manager has a name, which fits in the archive
  have hempty : s.manager.isEmpty = false := by
    rw [hl.manager]
    exact Config.name_of_check hcheck
  have hshort : (Descriptor.utf8 s.descriptor.manager).length < 1 <<< 62 := by
    have hvalid := hmappable.valid
    have hsize := hl.segmentName.size_le
    simp only [Shm.validName, Bool.and_eq_true, decide_eq_true_eq] at hvalid
    have hlimit : r.name.utf8ByteSize ≤ 254 := hvalid.1.1.2
    rw [Descriptor.length_utf8, show s.descriptor.manager = p.name from hl.manager]
    omega
  obtain ⟨hwid, hwsize, hwtier, hwoffset, hwname⟩ := Descriptor.wrap_of_lt (d := s.descriptor) hl.tier hid
    (fun batch bin offset hk => Nat.lt_of_le_of_lt (hdesc.early _ _ batch bin offset hl.live hk) hid)
    (show s.offset < wordRange by omega) (show s.size < wordRange by omega)
  obtain ⟨c', hregister, b, hentry⟩ := Consumer.registerMapped_of_covers (c := c) (d := s.descriptor.wrap)
    (r := ⟨r.name, r.object, r.size, none⟩) (fun a ha => ((h.maps c hc _ a ha).current _ hl.shows.named).2.trans hl.shows.sized)
    (Shm.attach_of_shows hl.shows hmappable) (by
      rw [hwoffset, hwsize]
      exact hinside)
  have hlocal : (⟨s.descriptor.wrap.id, s.descriptor.wrap.size, s.descriptor.wrap.tier,
      s.descriptor.wrap.offset, some r.name⟩ : LocalSegment) = s.asLocal := by
    rw [hwid, hwsize, hwtier, hwoffset, ← hl.named]
    rfl
  rw [hlocal] at hregister hentry
  rw [hwid] at hentry
  refine ⟨_, c', Descriptor.decode_encode hshort, ?_, _, hentry, rfl⟩
  rw [← hregister]
  refine Consumer.register_of_region ?_ hempty ?_ ?_ (hwname.trans hl.named)
  · rw [hwsize]
    exact Nat.ne_of_gt hpositive
  · rw [hwid]
    exact hnew
  · rw [hwtier]
    exact hl.tier

theorem holds_step (h : w.Sound) {i : Nat} (hi : w.consumers[i]? = some c) (hh : c.Holds s)
    (hs : Step w e w') (hne : ∀ answer, .consume i (.unregister s.id answer) ≠ e) :
    ∃ c', w'.consumers[i]? = some c' ∧ c'.Holds s := by
  have hlt := (List.getElem?_eq_some_iff.mp hi).1
  cases hs with
  | joined => exact ⟨c, by rw [List.getElem?_append_left hlt, hi], hh⟩
  | @consumed k c₀ ev c' shm hk hstep =>
    by_cases hik : k = i
    · subst hik
      obtain rfl := Option.some.inj (hk.symm.trans hi)
      obtain ⟨e₀, he, hsegment⟩ := hh
      obtain ⟨e', he', hsegment', -⟩ := hstep.entry_kept (h.counted _ (List.mem_of_getElem? hi))
        (fun answer heq => hne answer (by rw [heq])) he
      refine ⟨c', ?_, e', he', hsegment'.trans hsegment⟩
      simp [hlt]
    · exact ⟨c, by simp [List.getElem?_set_ne hik, hi], hh⟩
  | _ => exact ⟨c, hi, hh⟩

theorem holds_run (h : w.Sound) {i : Nat} {later : List Event} (hi : w.consumers[i]? = some c) (hh : c.Holds s)
    (hrun : Run Step w later w') (hne : ∀ answer, .consume i (.unregister s.id answer) ∉ later) :
    ∃ c', w'.consumers[i]? = some c' ∧ c'.Holds s := by
  induction hrun with
  | start => exact ⟨c, hi, hh⟩
  | next hrun hs ih =>
    simp only [List.mem_append, List.mem_singleton, not_or] at hne
    obtain ⟨c', hi', hh'⟩ := ih fun answer => (hne answer).1
    exact holds_step (h.run hrun) hi' hh' hs fun answer => (hne answer).2

/-! ## Reading -/

/-- Who holds a segment has mapped the object that it lies in. -/
theorem Lies.mapped (hl : w.Lies p s r) (h : w.Sound) (hc : c ∈ w.consumers) (hh : c.Holds s) :
    ∃ (e : Registration) (a : Attachment), c.entries.get? s.id = some e ∧ e.segment = s.asLocal ∧
      e.backing = .mapped a.region ∧ a.region.object = r.object := by
  obtain ⟨e, he, hsegment⟩ := hh
  cases (h.counted c hc).rests he with
  | buffer htier =>
    rw [hsegment] at htier
    exact absurd htier hl.tier
  | @mapped region a _ hnamed hfound hbacking _ =>
    have hregion : region = r.name := by
      rw [hsegment] at hnamed
      exact Option.some.inj (hnamed.symm.trans hl.named)
    subst hregion
    exact ⟨e, a, he, hsegment, hbacking, ((h.maps c hc _ a hfound).current _ hl.shows.named).1⟩

/-- All who have a segment read what its region shows. -/
theorem Lies.reads (hl : w.Lies p s r) (h : w.Sound) : w.Reads p s (w.shm.bytes r s.offset s.size) := by
  obtain ⟨hacc, hmap, -⟩ := h.standing p hl.member
  constructor
  · refine Allocator.read_of_live hacc hmap hl.live ?_
    rw [Allocator.value_shown hl.live hl.tier, Allocator.shown_eq hl.place]
  · intro c hc hh
    obtain ⟨e, a, he, hsegment, hbacking, hobject⟩ := hl.mapped h hc hh
    rw [(h.counted c hc).read_eq he]
    simp only [Registration.shown, hbacking, hsegment, Shm.bytes, hobject]
    rfl

/-! ## Writing -/

/-- What is stored in a region that a segment lies in leaves it where it is. -/
theorem Lies.stored (hl : w.Lies p s r) (q : Region) (start : Nat) (data : Bytes) :
    Lies { w with shm := w.shm.store q start data } p s r :=
  { hl with shows := hl.shows.patch (w.shm.patch_store q start data) }

/-- A write stores in the place of the segment. -/
theorem Lies.write (hl : w.Lies p s r) (h : w.Sound) (hw : w.Writes p s offset data e) (hs : Step w e w') :
    offset + data.length ≤ s.size ∧ w' = { w with shm := w.shm.store r (s.offset + offset) data } := by
  obtain ⟨hacc, hmap, -⟩ := h.standing p hl.member
  cases hw with
  | owner =>
    generalize he : Event.serve p.name (.write s.id offset data (.ok ())) = ev at hs
    cases hs with
    | @served pre p' post _ _ hp hstep _ =>
      obtain ⟨hname, rfl⟩ := Event.serve.inj he
      have hmem : p' ∈ w.producers := by simp [hp]
      obtain rfl := List.inj_on_of_nodup_map h.distinct hmem hl.member hname.symm
      cases hstep with
      | @written _ _ _ a shm hwrite =>
        obtain ⟨s', hlive, -, hle, hwritten⟩ := Allocator.write_ok hacc.sound hacc.own hwrite
        obtain rfl := Option.some.inj (hl.live.symm.trans hlive)
        obtain ⟨rfl, rfl⟩ := hwritten.stored hl.tier hl.place
        refine ⟨hle, ?_⟩
        simp only [hp]
        rfl
    | _ => cases he
  | @holder i c hi hh =>
    cases hs with
    | @consumed _ c₀ _ c' shm hi₀ hstep =>
      obtain rfl := Option.some.inj (hi.symm.trans hi₀)
      obtain ⟨e₀, a, he₀, hsegment, hbacking, hobject⟩ := hl.mapped h (List.mem_of_getElem? hi) hh
      cases hstep with
      | written hwrite =>
        obtain ⟨hle, rfl, rfl⟩ := Consumer.write_mapped he₀ hbacking hwrite
        rw [hsegment] at hle ⊢
        have hset : w.consumers.set i c' = w.consumers := by
          obtain ⟨hlt, rfl⟩ := List.getElem?_eq_some_iff.mp hi
          exact List.set_getElem_self hlt
        refine ⟨hle, ?_⟩
        rw [hset, Shm.store, Shm.store, hobject]
        rfl

/-- What fits in can be written, by the allocator and by all who hold the segment. -/
theorem Lies.exists_step (hl : w.Lies p s r) (h : w.Sound) (hw : w.Writes p s offset data e)
    (hle : offset + data.length ≤ s.size) : ∃ w', Step w e w' := by
  obtain ⟨hacc, hmap, -⟩ := h.standing p hl.member
  cases hw with
  | owner =>
    obtain ⟨a, shm, hwrite⟩ := Allocator.exists_write hacc hmap hl.live hle
    obtain ⟨pre, post, hp⟩ := List.append_of_mem hl.member
    exact ⟨_, .served hp (.written hwrite) nofun⟩
  | @holder i c hi hh =>
    have hc := List.mem_of_getElem? hi
    obtain ⟨e₀, a, he₀, hsegment, -⟩ := hl.mapped h hc hh
    obtain ⟨c', shm, hwrite⟩ := ((h.counted c hc).write_iff he₀ w.shm offset data).mpr (by
      rw [hsegment]
      exact hle)
    exact ⟨_, .consumed hi (.written hwrite)⟩

/-- A segment of the cache is nowhere in shared memory. -/
theorem unchanged_of_cache (h : w.Sound) (hs : q.allocator.get s.id = .ok s) (ht : s.tier = .cache) (shm : Shm) :
    w.Unchanged { w with shm } q s := by
  constructor
  · cases hk : s.kind with
    | cache place => simp only [Allocator.read, hs, hk, bind, Except.bind]
    | static batch bin offset =>
      rw [Segment.tier_of_static hk] at ht
      cases ht
    | ephemeral =>
      rw [Segment.tier_of_ephemeral hk] at ht
      cases ht
  · rintro c hc ⟨e, he, hsegment⟩
    have hcounted := h.counted c hc
    rw [hcounted.read_eq he, hcounted.read_eq he]
    cases hcounted.rests he with
    | buffer _ _ hbacking => simp only [Registration.shown, hbacking]
    | mapped htier =>
      rw [hsegment] at htier
      exact absurd ht htier

theorem Lies.written (hl : w.Lies p s r) (h : w.Sound) (hw : w.Writes p s offset data e) (hs : Step w e w')
    (hr : w.Reads p s bytes) : w'.producers = w.producers ∧ w'.consumers = w.consumers ∧
      w'.Reads p s (bytes.splice offset data) ∧
      ∀ q ∈ w.producers, ∀ s', q.allocator.get s'.id = .ok s' → (q.name, s'.id) ≠ (p.name, s.id) →
        w.Unchanged w' q s' := by
  have h' := h.step hs
  obtain ⟨hle, rfl⟩ := hl.write h hw hs
  have hobject := hl.shows.object_lt
  refine ⟨rfl, rfl, ?_, fun q hq s' hs' hne => ?_⟩
  · have hbytes : bytes = w.shm.bytes r s.offset s.size :=
      Except.ok.inj (hr.owner.symm.trans (hl.reads h).owner)
    rw [hbytes, ← w.shm.bytes_store_within hobject _ _ _ _ hle]
    exact (hl.stored r (s.offset + offset) data).reads h'
  · by_cases ht : s'.tier = .cache
    · exact unchanged_of_cache h hs' ht _
    · obtain ⟨r', hl'⟩ := exists_lies h hq hs' ht
      have hapart := hl.apart hl' h hne
      have hbefore := hl'.reads h
      rw [← w.shm.bytes_store_of_disjoint hobject (s.offset + offset) data r' s'.offset s'.size (by omega)]
        at hbefore
      have hafter := (hl'.stored r (s.offset + offset) data).reads h'
      exact ⟨hafter.owner.trans hbefore.owner.symm,
        fun c hc hh => (hafter.holders c hc hh).trans (hbefore.holders c hc hh).symm⟩

theorem coherent_of_sound (h : w.Sound) (hp : p ∈ w.producers) (hs : p.allocator.get s.id = .ok s)
    (ht : s.tier ≠ .cache) : w.Coherent p s := by
  obtain ⟨r, hl⟩ := exists_lies h hp hs ht
  constructor
  · exact fun hid c hc hnew => hl.register h hid hc hnew
  · exact fun i c later w' hi hh hrun hne => holds_run h hi hh hrun hne
  · refine ⟨_, ?_, hl.reads h⟩
    simp [Shm.bytes]
  · intro offset data e hw
    refine ⟨fun hstep => ?_, hl.exists_step h hw⟩
    obtain ⟨w', hs⟩ := hstep
    exact (hl.write h hw hs).1
  · exact fun offset data e w' bytes hw hs hr => hl.written h hw hs hr

/-- **Coherence.** Whatever the allocators, their peers and the consumers of one memory do, in
whatever order and with whatever descriptors: every live segment of shared memory can be
registered from the descriptor that is sent, stays registered, and is one sequence of bytes to
all who have it. What any of them writes is read by all, and in no other live segment. -/
theorem segments_coherent {shm : Shm} {events : List Event}
    (hclean : ∀ m n, OfManager m n → shm.names.get? n = none) (hrun : Run Step (start shm) events w)
    (hp : p ∈ w.producers) (hs : p.allocator.get s.id = .ok s) (ht : s.tier ≠ .cache) : w.Coherent p s :=
  coherent_of_sound ((sound_start hclean).run hrun) hp hs ht

/-! ## A segment of ten bytes

A consumer beside the sample system is told of the segment in chunks and writes to it. -/

/-- The world of a system of the manager `m`. -/
def ofSystem (s : System) (consumers : List Consumer) : World :=
  ⟨s.shm, [⟨s.allocator, s.traffic⟩], ["m"], consumers⟩

theorem run_after {s : System} {consumers : List Consumer} {events : List Event}
    (h : Run Step w events (ofSystem s consumers)) (rq : Request) :
    ∃ events, Run Step w events (ofSystem (s.after rq) consumers) := by
  have hp : (ofSystem s consumers).producers = [] ++ ⟨s.allocator, s.traffic⟩ :: [] := rfl
  obtain ⟨e, hs, he⟩ := System.step_after s rq
  exact ⟨_, h.next (.served hp hs he)⟩

def sampleSegment : Segment := ⟨1, 10, "m", .static 0 0 0⟩

def sampleConsumer : Consumer :=
  ((Consumer.ofName "consumer").register sampleSegment.descriptor System.sample.shm).2

/-- The memory after the consumer has written two bytes. -/
def sampleMemory : Shm := System.sample.shm.store ⟨staticRegionName "m" 0, 0, 32, none⟩ 4 [7, 8]

def sample : World := { ofSystem System.sample [sampleConsumer] with shm := sampleMemory }

theorem sample_write :
    sampleConsumer.write 1 4 [7, 8] System.sample.shm = .ok (sampleConsumer, sampleMemory) := by
  have he : sampleConsumer.entry 1 = .ok
      ⟨⟨1, 10, .static, 0, some (staticRegionName "m" 0)⟩, .mapped ⟨staticRegionName "m" 0, 0, 32, none⟩⟩ := by
    decide +kernel
  have hw : System.sample.shm.write ⟨staticRegionName "m" 0, 0, 32, none⟩ (0 + 4) [7, 8] = .ok sampleMemory := rfl
  unfold Consumer.write
  simp only [he, hw, bind, Except.bind, pure, Except.pure]
  rfl

theorem run_sample : ∃ events, Run Step (start .empty) events sample := by
  have hfounded : Step (start .empty) (.found System.sampleConfig (.ok ()))
      (ofSystem (.start System.sampleAllocator System.sampleMemory) []) := .founded nofun System.sample_create
  obtain ⟨_, hrun⟩ := run_after (Run.start.next hfounded) (.allocate 3)
  obtain ⟨_, hrun⟩ := run_after hrun (.allocate 10)
  obtain ⟨_, hrun⟩ := run_after hrun (.allocate 100)
  have hjoined : Step (ofSystem System.sample []) (.join "consumer")
      (ofSystem System.sample [.ofName "consumer"]) := .joined
  have htold : Step (ofSystem System.sample [.ofName "consumer"])
      (.consume 0 (.register sampleSegment.descriptor _)) (ofSystem System.sample [sampleConsumer]) :=
    .consumed rfl (.register rfl)
  have hwritten : Step (ofSystem System.sample [sampleConsumer]) (.consume 0 (.write 1 4 [7, 8] (.ok ())))
      sample := .consumed rfl (.written sample_write)
  exact ⟨_, ((hrun.next hjoined).next htold).next hwritten⟩

theorem segments_coherent_of_two_bytes :
    (System.sample.allocator.read 1 sample.shm).toOption = some [0, 0, 0, 0, 7, 8, 0, 0, 0, 0] ∧
      sample.Coherent ⟨System.sample.allocator, System.sample.traffic⟩ sampleSegment := by
  obtain ⟨events, hrun⟩ := run_sample
  have hs : System.sample.allocator.get 1 = .ok sampleSegment := by decide +kernel
  exact ⟨by decide +kernel,
    segments_coherent (fun _ _ _ => rfl) hrun (List.mem_singleton.mpr rfl) hs (by decide)⟩

end World
end TierAlloc
