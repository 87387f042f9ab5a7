import TierAlloc.Proofs.Allocator.Accounts
import TierAlloc.Proofs.Allocator.Managers

/-!
# Regions of an allocator

An allocator has a region for each batch and for each ephemeral segment, all under
names of its own. As long as nobody else uses such a name each of them shows its own
object (`Mapping`), so an operation on one leaves the bytes of all others.

**Results.**
* `Mapping.keep`, `Mapping.stores`: what happens to memory keeps the regions apart.
* `Mapping.becomes`, `Mapping.grown`, `Mapping.mapped`, `Mapping.unmapped`: so does what the
  allocator does.
-/
namespace TierAlloc

open Function (update)

/-! ## The regions -/

/-- Each region of an allocator is the one under its own name, and holds all pools of its batch. -/
structure Mapping (a : Allocator) (shm : Shm) : Prop where
  manager : a.ephemeral.manager = a.name
  batches : ∀ {i : Nat} {b : Batch}, a.ledger.batches[i]? = some b →
    Shm.Shows (staticRegionName a.name i) b.region shm ∧ b.totalBytes ≤ b.region.size
  regions : ∀ {id r}, a.ledger.regions id = some r → Shm.Shows (ephemeralRegionName a.name id) r shm

/-- The allocator has a region under this name. -/
def Allocator.Uses (a : Allocator) (n : String) : Prop :=
  (∃ i b, a.ledger.batches[i]? = some b ∧ n = staticRegionName a.name i) ∨
    ∃ id r, a.ledger.regions id = some r ∧ n = ephemeralRegionName a.name id

/-- The allocator has a region under this name, or peers look for one there. -/
def Allocator.Needs (a : Allocator) (n : String) : Prop := a.Uses n ∨ n = cacheRegionName a.name

namespace Mapping

variable {a a' : Allocator} {shm shm' : Shm} {l : Ledger} {n : String}

theorem needs_ofManager (h : a.Needs n) : OfManager a.name n := by
  rcases h with (⟨i, b, -, rfl⟩ | ⟨id, r, -, rfl⟩) | rfl
  · exact Or.inl ⟨i, rfl⟩
  · exact Or.inr (Or.inl ⟨id, rfl⟩)
  · exact Or.inr (Or.inr rfl)

theorem uses_ne_cache (h : a.Uses n) : n ≠ cacheRegionName a.name := by
  rcases h with ⟨i, b, -, rfl⟩ | ⟨id, r, -, rfl⟩
  · exact staticRegionName_ne_cache _ _ _
  · exact ephemeralRegionName_ne_cache _ _ _

/-- The name of the next batch is not in use. -/
theorem needs_ne_static (h : a.Needs n) : n ≠ staticRegionName a.name a.ledger.batches.length := by
  rcases h with (⟨i, b, hb, rfl⟩ | ⟨id, r, -, rfl⟩) | rfl
  · intro he
    have := (staticRegionName_eq he).2
    have := (List.getElem?_eq_some_iff.mp hb).1
    omega
  · exact ephemeralRegionName_ne_static _ _ _ _
  · exact (staticRegionName_ne_cache _ _ _).symm

theorem needs_ne_ephemeral (h : a.Needs n) {id : Nat} (hid : a.ledger.regions id = none) :
    n ≠ ephemeralRegionName a.name id := by
  rcases h with (⟨i, b, -, rfl⟩ | ⟨k, r, hr, rfl⟩) | rfl
  · exact (ephemeralRegionName_ne_static _ _ _ _).symm
  · intro he
    rw [(ephemeralRegionName_eq he).2, hid] at hr
    cases hr
  · exact (ephemeralRegionName_ne_cache _ _ _).symm

/-- What happens to the names and objects of others does not matter. -/
theorem keep (h : Mapping a shm) (hk : ∀ n, a.Uses n → Shm.Keeps n shm shm') : Mapping a shm' where
  manager := h.manager
  batches hb := ⟨(h.batches hb).1.keep (hk _ (Or.inl ⟨_, _, hb, rfl⟩)), (h.batches hb).2⟩
  regions hr := (h.regions hr).keep (hk _ (Or.inr ⟨_, _, hr, rfl⟩))

/-- Nor do the bytes of objects. -/
theorem stores (h : Mapping a shm) {i : Nat} {P : Nat → Prop} (hp : Shm.Patch i P shm shm') :
    Mapping a shm' where
  manager := h.manager
  batches hb := ⟨(h.batches hb).1.patch hp, (h.batches hb).2⟩
  regions hr := (h.regions hr).patch hp

/-- Later states, with no other regions. -/
theorem becomes (h : Mapping a shm) (hb : a.Becomes l a')
    (hbatches : ∀ {i : Nat} {b' : Batch}, l.batches[i]? = some b' → ∃ b : Batch,
      a.ledger.batches[i]? = some b ∧ b'.region = b.region ∧ b'.totalBytes = b.totalBytes)
    (hregions : ∀ {id r}, l.regions id = some r → a.ledger.regions id = some r) : Mapping a' shm where
  manager := by
    rw [hb.ephemeral, hb.name_eq]
    exact h.manager
  batches hi := by
    rw [hb.ledger] at hi
    obtain ⟨b, hi, hr, ht⟩ := hbatches hi
    rw [hr, ht, hb.name_eq]
    exact h.batches hi
  regions hr := by
    rw [hb.ledger] at hr
    rw [hb.name_eq]
    exact h.regions (hregions hr)

theorem same_batches {batches : List Batch} {i : Nat} {b' : Batch} (h : batches[i]? = some b') :
    ∃ b, batches[i]? = some b ∧ b'.region = b.region ∧ b'.totalBytes = b.totalBytes := ⟨b', h, rfl, rfl⟩

/-- Another state of a pool does not concern the region. -/
theorem putPool_batches {batches : List Batch} {b : Batch} {p' : Pool} (hb : batches[b.id]? = some b)
    {i : Nat} {b' : Batch} (h : (batches.set b.id (b.putPool p'))[i]? = some b') :
    ∃ b, batches[i]? = some b ∧ b'.region = b.region ∧ b'.totalBytes = b.totalBytes := by
  rw [List.getElem?_set] at h
  split at h
  · rename_i hi
    subst hi
    split at h
    · obtain rfl := Option.some.inj h
      exact ⟨b, hb, rfl, rfl⟩
    · cases h
  · exact ⟨b', h, rfl, rfl⟩

theorem idle (h : Mapping a shm) (hb : a.Becomes l a') (hbatches : l.batches = a.ledger.batches)
    (hregions : l.regions = a.ledger.regions) : Mapping a' shm := by
  refine h.becomes hb (fun hi => ?_) fun hr => ?_
  · rw [hbatches] at hi
    exact same_batches hi
  · rwa [hregions] at hr

theorem grown (h : Mapping a shm) (hg : a.Grown shm a' shm') :
    Mapping a' shm' ∧ ∀ n, a.Needs n → Shm.Keeps n shm shm' := by
  cases hg with
  | refused hb hmem =>
    have hk : ∀ n, a.Needs n → Shm.Keeps n shm shm' := by
      intro n hn
      rcases hmem with rfl | rfl
      · exact .refl n _
      · exact Shm.keeps_unlink (needs_ne_static hn)
    exact ⟨(h.keep fun n hn => hk n (Or.inl hn)).idle hb rfl rfl, hk⟩
  | @added b hmade hb =>
    obtain ⟨-, -, -, -, hregion⟩ := Batch.create_sound hmade
    have hk : ∀ n, a.Needs n → Shm.Keeps n shm shm' := fun n hn => hregion.keeps (needs_ne_static hn)
    have h' := h.keep fun n hn => hk n (Or.inl hn)
    refine ⟨⟨?_, ?_, ?_⟩, hk⟩
    · rw [hb.ephemeral, hb.name_eq]
      exact h.manager
    · intro i c hc
      rw [hb.ledger] at hc
      rw [hb.name_eq]
      have hc : (a.ledger.batches ++ [b])[i]? = some c := hc
      rw [List.getElem?_append] at hc
      split at hc
      · exact h'.batches hc
      · have hi : i = a.ledger.batches.length := by
          have := (List.getElem?_eq_some_iff.mp hc).1
          simp only [List.length_singleton] at this
          omega
        subst hi
        simp only [Nat.sub_self, List.getElem?_cons_zero, Option.some.injEq] at hc
        subst hc
        exact ⟨hregion.shows, Nat.le_of_eq hregion.size_eq.symm⟩
    · intro id r hr
      rw [hb.ledger] at hr
      rw [hb.name_eq]
      exact h'.regions hr

theorem mapped (h : Mapping a shm) {s : Segment} {r : Region} (hm : a.Mapped shm s r a' shm') :
    Mapping a' shm' ∧ ∀ n, a.Needs n → Shm.Keeps n shm shm' := by
  have hmade := hm.made
  rw [h.manager] at hmade
  have hk : ∀ n, a.Needs n → Shm.Keeps n shm shm' := fun n hn =>
    hmade.keeps (needs_ne_ephemeral hn hm.absent)
  have h' := h.keep fun n hn => hk n (Or.inl hn)
  refine ⟨⟨?_, ?_, ?_⟩, hk⟩
  · rw [hm.after.ephemeral, hm.after.name_eq]
    exact h.manager
  · intro i b hb
    rw [hm.after.ledger] at hb
    rw [hm.after.name_eq]
    exact h'.batches hb
  · intro id r' hr
    rw [hm.after.ledger] at hr
    rw [hm.after.name_eq]
    have hr : update a.ledger.regions s.id (some r) id = some r' := hr
    rw [Function.update_apply] at hr
    split at hr
    · rename_i hid
      obtain rfl := Option.some.inj hr
      rw [hid]
      exact hmade.shows
    · exact h'.regions hr

/-- A region that is let go takes its name along, which no other region has. -/
theorem unmapped (h : Mapping a shm) {id : Nat} {r : Region} (hr : a.ledger.regions id = some r)
    (hb : a.Becomes ((a.ledger.setRegion id none).forget id) a') :
    Mapping a' (shm.release r) ∧ ∀ n, a'.Needs n → Shm.Keeps n shm (shm.release r) := by
  have hname := (h.regions hr).name_eq
  have hsub : ∀ {k q}, update a.ledger.regions id none k = some q → a.ledger.regions k = some q := by
    intro k q hq
    rw [Function.update_apply] at hq
    split at hq
    · cases hq
    · exact hq
  have h' : Mapping a' shm := h.becomes hb same_batches hsub
  have hk : ∀ n, a'.Needs n → Shm.Keeps n shm (shm.release r) := by
    intro n hn
    have hne := needs_ne_ephemeral hn (show a'.ledger.regions id = none by
      rw [hb.ledger]
      exact Function.update_self ..)
    rw [hb.name_eq, ← hname] at hne
    exact Shm.keeps_release hne
  exact ⟨h'.keep fun n hn => hk n (Or.inl hn), hk⟩

theorem took (h : Mapping a shm) {s : Segment} {b : Batch} {p p' : Pool} {offset : Nat}
    (ht : a.Took s b p p' offset a') : Mapping a' shm :=
  h.becomes ht.after (putPool_batches ht.batch) id

/-! ## Operations -/

theorem granted (h : Mapping a shm) {content : Bytes} {s : Segment}
    (hg : a.Granted shm content s a' shm') :
    Mapping a' shm' ∧ ∀ n, a.Needs n → Shm.Keeps n shm shm' := by
  cases hg with
  | stored _ hs =>
    obtain rfl := hs.memory
    exact ⟨h.idle hs.after rfl rfl, fun n _ => .refl n _⟩
  | took hgrown ht =>
    obtain ⟨h₁, hk⟩ := h.grown hgrown
    exact ⟨h₁.took ht, hk⟩
  | mapped hm => exact h.mapped hm

theorem refused (h : Mapping a shm) (hfree : a.ledger.regions a.ids.issued = none)
    (hr : a.Refused shm a' shm') : Mapping a' shm' ∧ ∀ n, a.Needs n → Shm.Keeps n shm shm' := by
  cases hr with
  | grown hg => exact h.grown hg
  | unnamed hb =>
    have hk : ∀ n, a.Needs n →
        Shm.Keeps n shm (shm.unlink (ephemeralRegionName a.ephemeral.manager a.ids.issued)) := by
      intro n hn
      rw [h.manager]
      exact Shm.keeps_unlink (needs_ne_ephemeral hn hfree)
    exact ⟨(h.keep fun n hn => hk n (Or.inl hn)).idle hb rfl rfl, hk⟩

theorem freed (h : Mapping a shm) {s : Segment} (hf : a.Freed shm s a' shm') :
    Mapping a' shm' ∧ ∀ n, a'.Needs n → Shm.Keeps n shm shm' := by
  cases hf with
  | chunks _ hb _ _ hafter => exact ⟨h.becomes hafter (putPool_batches hb) id, fun n _ => .refl n _⟩
  | region _ hr hafter => exact h.unmapped hr hafter
  | entry _ hafter => exact ⟨h.idle hafter rfl rfl, fun n _ => .refl n _⟩

/-- A write stores in a region of the allocator, or concerns none. -/
theorem written (h : Mapping a shm) {s : Segment} {offset : Nat} {data : Bytes}
    (hw : a.Written shm s offset data a' shm') :
    Mapping a' shm' ∧ Shm.Keeps (cacheRegionName a.name) shm shm' := by
  cases hw with
  | @chunks b bin start _ hb =>
    have hp := shm.patch_store b.region (start + offset) data
    exact ⟨h.stores hp, hp.keeps (h.batches hb).1.named (staticRegionName_ne_cache _ _ _).symm⟩
  | @region r _ hr =>
    have hp := shm.patch_store r offset data
    exact ⟨h.stores hp, hp.keeps (h.regions hr).named (ephemeralRegionName_ne_cache _ _ _).symm⟩
  | entry _ _ _ hafter => exact ⟨h.idle hafter rfl rfl, .refl _ _⟩

end Mapping

/-- A cache that is made may take its own name, and no other. -/
theorem Cache.create_keeps {manager n : String} {mode : CacheMode} {capacity : Option Nat}
    {c : Cache} {shm shm' : Shm} (h : create manager mode capacity shm = (.ok c, shm'))
    (hn : n ≠ cacheRegionName manager) : Shm.Keeps n shm shm' := by
  unfold create at h
  split at h
  · rw [← (Prod.mk.inj h).2]
    exact .refl n shm
  split at h
  · cases h
  · rename_i x shm₂ hx
    rw [← (Prod.mk.inj h).2]
    obtain ⟨-, -, -, shm₁, hmade, hpatch⟩ := Exchange.create_placed hx
    exact (hmade.keeps hn).trans (hpatch.keeps hmade.named hn)

theorem mapping_create {config : Config} {a : Allocator} {shm₀ shm : Shm}
    (h : Allocator.create config shm₀ = (.ok a, shm)) : Mapping a shm := by
  obtain ⟨first, shm₁, cache, -, hb, hc, rfl⟩ := Allocator.create_ok h
  obtain ⟨-, -, -, -, hregion⟩ := Batch.create_sound hb
  refine ⟨rfl, ?_, nofun⟩
  intro i b hi
  have hi : [first][i]? = some b := hi
  rw [List.getElem?_singleton] at hi
  split at hi
  · rename_i hz
    subst hz
    obtain rfl := Option.some.inj hi
    exact ⟨hregion.shows.keep (Cache.create_keeps hc (staticRegionName_ne_cache _ _ _)),
      Nat.le_of_eq hregion.size_eq.symm⟩
  · cases hi

end TierAlloc
