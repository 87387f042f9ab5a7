import TierAlloc.Proofs.Allocator.Handoffs

/-!
# The footprint of an allocator

What one allocator does in the memory that all share: it makes regions under names that
it has not used before, it takes such names away again, and it stores in objects that
have such a name. To everybody else the names and objects under all other names are as
they were, and what is under one of its own names is the object that was there. An
object that has lost its name does not get one again.

**Results.**
* `Shm.Acts`: what a manager does to the names and the objects, with `Acts.trans`.
* `Allocator.Future`: the names that an allocator has still to use.
* `Footprint`: a step of an allocator is an act with names that were to come and are past.
  Requests (`Granted.footprint`, `Refused.footprint`), what is given back
  (`Freed.footprint`), writes (`Written.footprint`) and making and dropping an allocator
  (`create_acts`, `drop_acts`) all have one.
-/
namespace TierAlloc

namespace Shm

/-- A region of this name and this size can be mapped. -/
structure Mappable (name : String) (size : Nat) : Prop where
  valid : validName name = true
  positive : 0 < size
  below : size < regionSizeLimit

/-- What can be mapped is mapped as it is. -/
theorem attach_of_shows {s : Shm} {n : String} {r : Region} (h : Shows n r s) (hm : Mappable n r.size) :
    s.attach n = .ok ⟨n, r.object, r.size, none⟩ := by
  have hpos := hm.positive
  unfold attach
  simp only [hm.valid, h.named, h.sized]
  rw [if_neg (by simp), if_neg (by omega)]

/-- What `manager` does: under its names there is what was there, or a region that it made now
under one of the names `new`. -/
structure Acts (manager : String) (new : String → Prop) (s s' : Shm) : Prop where
  count : s.objects.size ≤ s'.objects.size
  others : ∀ n, ¬OfManager manager n → Keeps n s s'
  /-- An object that gets a name is a new one. -/
  origin : ∀ n i, OfManager manager n → s'.names.get? n = some i →
    s.names.get? n = some i ∨ s.objects.size ≤ i
  own : ∀ n i, SegmentName manager n → s'.names.get? n = some i →
    s.names.get? n = some i ∧ (s'.object i).size = (s.object i).size ∨
      new n ∧ Mappable n (s'.object i).size

variable {manager name : String} {new new' : String → Prop} {s s' s'' : Shm} {size : Nat} {r : Region}

theorem Acts.trans (h : Acts manager new s s') (h' : Acts manager new s' s'') : Acts manager new s s'' where
  count := Nat.le_trans h.count h'.count
  others n hn := (h.others n hn).trans (h'.others n hn)
  origin n i hn hi := by
    rcases h'.origin n i hn hi with hi | hle
    · exact h.origin n i hn hi
    · exact Or.inr (Nat.le_trans h.count hle)
  own n i hn hi := by
    rcases h'.own n i hn hi with ⟨hi', hsize⟩ | hnew
    · rw [hsize]
      exact h.own n i hn hi'
    · exact Or.inr hnew

theorem Acts.mono (h : Acts manager new s s') (hsub : ∀ n, SegmentName manager n → new n → new' n) :
    Acts manager new' s s' :=
  { h with own := fun n i hn hi => (h.own n i hn hi).imp_right fun hnew => ⟨hsub n hn hnew.1, hnew.2⟩ }

/-- What stores in the exchange region alone. -/
theorem acts_of_keeps (hnames : s'.names = s.names)
    (h : ∀ n, n ≠ cacheRegionName manager → Keeps n s s') : Acts manager new s s' where
  count := (h _ (staticRegionName_ne_cache manager _ 0)).count
  others n hn := h n fun he => hn (Or.inr (Or.inr he))
  origin n i _ hi := by
    rw [hnames] at hi
    exact Or.inl hi
  own n i hn hi := by
    rw [hnames] at hi
    exact Or.inl ⟨hi, ((h n (hn.ne_cache manager)).object i hi).size⟩

theorem acts_refl (manager : String) (new : String → Prop) (s : Shm) : Acts manager new s s :=
  acts_of_keeps rfl fun n _ => .refl n s

theorem Made.acts (h : Made name size s r s') (hn : OfManager manager name) :
    Acts manager (· = name) s s' where
  count := h.count
  others n hother := h.keeps fun he => hother (he ▸ hn)
  origin n i _ hi := by
    by_cases he : n = name
    · subst he
      obtain rfl := Option.some.inj (h.named.symm.trans hi)
      exact h.origin
    · rw [h.names n he] at hi
      exact Or.inl hi
  own n i _ hi := by
    by_cases he : n = name
    · subst he
      obtain rfl := Option.some.inj (h.named.symm.trans hi)
      refine Or.inr ⟨rfl, h.valid, ?_, ?_⟩ <;> rw [h.sized]
      · exact h.positive
      · exact h.below
    · have hk := h.keeps he
      rw [hk.named] at hi
      exact Or.inl ⟨hi, (hk.object i hi).size⟩

/-- A name that is taken away, if it is there. -/
theorem acts_of_less (hn : OfManager manager name) (hobjects : ∀ i, s'.object i = s.object i)
    (hcount : s'.objects.size = s.objects.size) (hother : ∀ n, n ≠ name → s'.names.get? n = s.names.get? n)
    (hself : s'.names.get? name = s.names.get? name ∨ s'.names.get? name = none) :
    Acts manager new s s' := by
  have hless : ∀ {n i}, s'.names.get? n = some i → s.names.get? n = some i := by
    intro n i hi
    by_cases he : n = name
    · subst he
      rcases hself with hsame | hnone
      · rw [← hsame, hi]
      · rw [hnone] at hi
        cases hi
    · rw [← hother n he, hi]
  refine ⟨Nat.le_of_eq hcount.symm, fun n hout => ⟨Nat.le_of_eq hcount.symm, hother n ?_, fun i _ =>
    same_of_eq (hobjects i)⟩, fun n i _ hi => Or.inl (hless hi), fun n i _ hi => Or.inl ⟨hless hi, ?_⟩⟩
  · rintro rfl
    exact hout hn
  · rw [hobjects]

theorem acts_unlink (hn : OfManager manager name) : Acts manager new s (s.unlink name) :=
  acts_of_less hn (object_unlink s name) rfl (fun n he => by simp [he]) (Or.inr (by simp))

theorem acts_release (hn : OfManager manager r.name) : Acts manager new s (s.release r) := by
  obtain ⟨hobjects, hcount, -⟩ := s.release_eq r
  refine acts_of_less hn hobjects hcount (fun n he => s.release_names r he) ?_
  unfold release
  split
  · exact Or.inl rfl
  split
  · exact Or.inl rfl
  · exact Or.inr (by simp)

/-- What is stored under a name of the manager. -/
theorem Patch.acts {i : Nat} {P : Nat → Prop} (h : Patch i P s s') (hi : s.names.get? name = some i)
    (hn : OfManager manager name) : Acts manager new s s' where
  count := Nat.le_of_eq h.count.symm
  others n hother := h.keeps hi fun he => hother (he ▸ hn)
  origin n j _ hj := by
    rw [h.names] at hj
    exact Or.inl hj
  own n j _ hj := by
    rw [h.names] at hj
    exact Or.inl ⟨hj, h.sizes j⟩

theorem acts_foldl {α : Type} {f : Shm → α → Shm} (l : List α)
    (hf : ∀ x ∈ l, ∀ s, Acts manager new s (f s x)) (s : Shm) : Acts manager new s (l.foldl f s) := by
  induction l generalizing s with
  | nil => exact acts_refl ..
  | cons x rest ih =>
    obtain ⟨hx, hrest⟩ := List.forall_mem_cons.mp hf
    exact (hx s).trans (ih hrest _)

end Shm

open Shm (Acts)

/-! ## The names to come -/

namespace Allocator

variable {a a' a'' : Allocator} {shm shm' shm'' : Shm} {l : Ledger} {s : Segment} {n : String}

/-- A name for a batch that was not made yet, or for an id that was not drawn yet. -/
def Future (a : Allocator) (n : String) : Prop :=
  (∃ i, a.batches.length ≤ i ∧ n = staticRegionName a.name i) ∨
    ∃ id, a.ids.issued ≤ id ∧ n = ephemeralRegionName a.name id

theorem future_ofManager (h : a.Future n) : OfManager a.name n := by
  rcases h with ⟨i, -, rfl⟩ | ⟨id, -, rfl⟩
  · exact Or.inl ⟨i, rfl⟩
  · exact Or.inr (Or.inl ⟨id, rfl⟩)

theorem future_static {i : Nat} : a.Future (staticRegionName a.name i) ↔ a.batches.length ≤ i := by
  constructor
  · rintro (⟨j, hj, he⟩ | ⟨id, -, he⟩)
    · rwa [(staticRegionName_eq he).2]
    · exact absurd he (ephemeralRegionName_ne_static _ _ _ _).symm
  · exact fun h => Or.inl ⟨i, h, rfl⟩

theorem future_ephemeral {id : Nat} : a.Future (ephemeralRegionName a.name id) ↔ a.ids.issued ≤ id := by
  constructor
  · rintro (⟨i, -, he⟩ | ⟨k, hk, he⟩)
    · exact absurd he (ephemeralRegionName_ne_static _ _ _ _)
    · rwa [(ephemeralRegionName_eq he).2]
  · exact fun h => Or.inr ⟨id, h, rfl⟩

/-- A step from `a` to `a'` makes regions under names to come that are past then. -/
structure Footprint (a a' : Allocator) (shm shm' : Shm) : Prop where
  name_eq : a'.name = a.name
  past : ∀ n, a'.Future n → a.Future n
  acts : Acts a.name (fun n => a.Future n ∧ ¬a'.Future n) shm shm'

theorem Footprint.trans (h : Footprint a a' shm shm') (h' : Footprint a' a'' shm' shm'') :
    Footprint a a'' shm shm'' := by
  have hacts := h'.acts
  rw [h.name_eq] at hacts
  refine ⟨h'.name_eq.trans h.name_eq, fun n hn => h.past n (h'.past n hn), ?_⟩
  exact (h.acts.mono fun n _ hn => ⟨hn.1, fun hf => hn.2 (h'.past n hf)⟩).trans
    (hacts.mono fun n _ hn => ⟨h.past n hn.1, hn.2⟩)

theorem Becomes.past (hb : a.Becomes l a') (hl : a.batches.length ≤ l.batches.length) :
    ∀ n, a'.Future n → a.Future n := by
  have hlen : a'.batches.length = l.batches.length := congrArg (fun l => l.batches.length) hb.ledger
  have hids := hb.ids
  rintro n (⟨i, hi, rfl⟩ | ⟨id, hid, rfl⟩)
  · exact Or.inl ⟨i, by omega, by rw [hb.name_eq]⟩
  · exact Or.inr ⟨id, by omega, by rw [hb.name_eq]⟩

/-- A step that makes no region. -/
theorem Becomes.footprint (hb : a.Becomes l a') (hl : l.batches.length = a.batches.length)
    (h : ∀ new, Acts a.name new shm shm') : Footprint a a' shm shm' :=
  ⟨hb.name_eq, hb.past (Nat.le_of_eq hl.symm), h _⟩

theorem Grown.footprint (h : a.Grown shm a' shm') : Footprint a a' shm shm' := by
  cases h with
  | refused hb hmem =>
    refine hb.footprint rfl fun new => ?_
    rcases hmem with rfl | rfl
    · exact Shm.acts_refl ..
    · exact Shm.acts_unlink (Or.inl ⟨_, rfl⟩)
  | @added b hmade hb =>
    obtain ⟨-, -, -, -, hregion⟩ := Batch.create_sound hmade
    have hlen : a'.batches.length = a.batches.length + 1 := by
      have := congrArg (fun l => l.batches.length) hb.ledger
      simpa [ledger, Ledger.addBatch] using this
    refine ⟨hb.name_eq, hb.past (by simp [Ledger.addBatch, ledger]), ?_⟩
    refine (hregion.acts (Or.inl ⟨_, rfl⟩)).mono fun n _ hn => ?_
    subst hn
    refine ⟨future_static.mpr (Nat.le_refl _), fun hf => ?_⟩
    rw [← hb.name_eq, future_static] at hf
    omega

theorem Mapped.footprint {r : Region} (hm : Mapping a shm) (h : a.Mapped shm s r a' shm') :
    Footprint a a' shm shm' := by
  have hmade := h.made
  rw [hm.manager] at hmade
  refine ⟨h.after.name_eq, h.after.past (Nat.le_refl _), ?_⟩
  refine (hmade.acts (Or.inr (Or.inl ⟨_, rfl⟩))).mono fun n _ hn => ?_
  subst hn
  refine ⟨future_ephemeral.mpr (Nat.le_of_eq h.fresh.symm), fun hf => ?_⟩
  rw [← h.after.name_eq, future_ephemeral] at hf
  exact absurd h.drawn (Nat.not_lt.mpr hf)

theorem Granted.footprint {content : Bytes} (hm : Mapping a shm) (h : a.Granted shm content s a' shm') :
    Footprint a a' shm shm' := by
  cases h with
  | stored _ hs =>
    obtain rfl := hs.memory
    exact hs.after.footprint rfl fun _ => Shm.acts_refl ..
  | took hgrown ht =>
    refine hgrown.footprint.trans (ht.after.footprint ?_ fun _ => Shm.acts_refl ..)
    simp [Ledger.record, Ledger.setBatch, ledger]
  | mapped hmap => exact hmap.footprint hm

theorem Refused.footprint (hm : Mapping a shm) (h : a.Refused shm a' shm') : Footprint a a' shm shm' := by
  cases h with
  | grown hg => exact hg.footprint
  | unnamed hb =>
    rw [hm.manager]
    exact hb.footprint rfl fun _ => Shm.acts_unlink (Or.inr (Or.inl ⟨_, rfl⟩))

theorem Freed.footprint (hm : Mapping a shm) (h : a.Freed shm s a' shm') : Footprint a a' shm shm' := by
  cases h with
  | chunks _ _ _ _ hb =>
    refine hb.footprint ?_ fun _ => Shm.acts_refl ..
    simp [Ledger.forget, Ledger.setBatch, ledger]
  | region _ hr hb =>
    refine hb.footprint rfl fun _ => Shm.acts_release ?_
    rw [(hm.regions hr).name_eq]
    exact Or.inr (Or.inl ⟨_, rfl⟩)
  | entry _ hb => exact hb.footprint rfl fun _ => Shm.acts_refl ..

theorem Written.footprint {offset : Nat} {data : Bytes} (hm : Mapping a shm)
    (h : a.Written shm s offset data a' shm') : Footprint a a' shm shm' := by
  cases h with
  | @chunks b bin start _ hb =>
    exact (Becomes.refl a).footprint rfl fun _ =>
      (shm.patch_store b.region (start + offset) data).acts (hm.batches hb).1.named (Or.inl ⟨_, rfl⟩)
  | @region r _ hr =>
    exact (Becomes.refl a).footprint rfl fun _ =>
      (shm.patch_store r offset data).acts (hm.regions hr).named (Or.inr (Or.inl ⟨_, rfl⟩))
  | entry _ _ _ hb => exact hb.footprint rfl fun _ => Shm.acts_refl ..

end Allocator

/-! ## Making and dropping an allocator -/

namespace Cache

variable {manager : String} {mode : CacheMode} {capacity : Option Nat} {shm shm' : Shm} {c : Cache}

/-- What a cache that could not be made leaves: all as it was, or all but the name of its
exchange region. -/
theorem create_refused {e : Error} (h : create manager mode capacity shm = (.error e, shm')) :
    shm' = shm ∨ shm' = shm.unlink (cacheRegionName manager) := by
  unfold create at h
  split at h
  · cases h
  split at h
  · rename_i hx
    rw [← (Prod.mk.inj h).2]
    unfold Exchange.create at hx
    split at hx
    · exact Or.inl (Prod.mk.inj hx).2.symm
    split at hx
    · exact Or.inl (Prod.mk.inj hx).2.symm
    split at hx
    · rename_i hc
      rw [← (Prod.mk.inj hx).2]
      exact Shm.create_refused hc
    · cases (Prod.mk.inj hx).1
  · cases h

/-- A cache that is made has made its exchange region, or has none. -/
theorem create_exchange (h : create manager mode capacity shm = (.ok c, shm')) :
    mode = .inProcess ∧ c.exchange = none ∧ shm' = shm ∨
      ∃ count size x shm₁, mode = .handoff count size ∧ c.exchange = some x ∧
        Shm.Made (cacheRegionName manager) (Layout.totalBytes ⟨count, size⟩) shm x.region shm₁ ∧
        Shm.Patch x.region.object (fun _ => True) shm₁ shm' := by
  unfold create at h
  split at h
  · obtain ⟨hc, rfl⟩ := Prod.mk.inj h
    obtain rfl := Except.ok.inj hc
    exact Or.inl ⟨rfl, rfl, rfl⟩
  · rename_i count size
    split at h
    · cases h
    · rename_i x shm₁ hx
      obtain ⟨hc, rfl⟩ := Prod.mk.inj h
      obtain rfl := Except.ok.inj hc
      obtain ⟨-, -, -, shm₂, hmade, hpatch⟩ := Exchange.create_placed hx
      exact Or.inr ⟨count, size, x, shm₂, rfl, rfl, hmade, hpatch⟩

/-- A cache makes its exchange region, or takes its name away, or does nothing. -/
theorem create_acts {answer : Except Error Cache} (new : String → Prop)
    (h : create manager mode capacity shm = (answer, shm')) : Acts manager new shm shm' := by
  have hname : OfManager manager (cacheRegionName manager) := Or.inr (Or.inr rfl)
  cases answer with
  | error e =>
    rcases create_refused h with rfl | rfl
    · exact Shm.acts_refl ..
    · exact Shm.acts_unlink hname
  | ok c =>
    rcases create_exchange h with ⟨-, -, rfl⟩ | ⟨count, size, x, shm₁, -, -, hmade, hpatch⟩
    · exact Shm.acts_refl ..
    · refine ((hmade.acts hname).mono fun n hn he => ?_).trans (hpatch.acts hmade.named hname)
      exact absurd he (hn.ne_cache manager)

end Cache

namespace Allocator

variable {a : Allocator} {shm shm' : Shm} {config : Config} {answer : Except Error Allocator}

/-- An allocator that is made has made the region of its first batch. If it could not be made,
that region is let go. -/
theorem create_acts (h : create config shm = (answer, shm')) :
    Acts config.name (· = staticRegionName config.name 0) shm shm' := by
  have hname : OfManager config.name (staticRegionName config.name 0) := Or.inl ⟨0, rfl⟩
  unfold create at h
  split at h
  · rw [← (Prod.mk.inj h).2]
    exact Shm.acts_refl ..
  split at h
  · rename_i e shm₁ hb
    rw [← (Prod.mk.inj h).2]
    rcases Batch.create_error hb with rfl | rfl
    · exact Shm.acts_refl ..
    · exact Shm.acts_unlink hname
  rename_i first shm₁ hb
  obtain ⟨-, -, -, -, hregion⟩ := Batch.create_sound hb
  have hfirst := hregion.acts hname
  split at h
  · rename_i e shm₂ hc
    rw [← (Prod.mk.inj h).2]
    refine (hfirst.trans (Cache.create_acts _ hc)).trans (Shm.acts_release ?_)
    rw [hregion.name_eq]
    exact hname
  · rename_i cache shm₂ hc
    rw [← (Prod.mk.inj h).2]
    exact hfirst.trans (Cache.create_acts _ hc)

/-- An allocator that is dropped takes names of its own away. -/
theorem drop_acts (hm : Mapping a shm)
    (hx : ∀ x, a.cache.exchange = some x → x.region.name = cacheRegionName a.name) (new : String → Prop) :
    Acts a.name new shm (a.drop shm) := by
  have hbatches : Acts a.name new shm (a.batches.foldl (fun shm b => b.drop shm) shm) := by
    refine Shm.acts_foldl _ (fun b hb s => Shm.acts_release ?_) shm
    obtain ⟨i, hi⟩ := List.getElem?_of_mem hb
    exact Or.inl ⟨i, (hm.batches hi).1.name_eq⟩
  have hregions : ∀ s, Acts a.name new s (a.ephemeral.clear s).2 := by
    refine Shm.acts_foldl _ fun r hr s => Shm.acts_release ?_
    obtain ⟨id, hid⟩ := Table.mem_values.mp hr
    exact Or.inr (Or.inl ⟨id, (hm.regions hid).name_eq⟩)
  have hcache : ∀ s, Acts a.name new s (a.cache.drop s) := by
    intro s
    unfold Cache.drop
    split
    · rename_i x hsome
      exact Shm.acts_release (Or.inr (Or.inr (hx x hsome)))
    · exact Shm.acts_refl ..
  exact (hbatches.trans (hregions _)).trans (hcache _)

end Allocator
end TierAlloc
