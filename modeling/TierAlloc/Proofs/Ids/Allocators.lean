import TierAlloc.Proofs.Ids.Holdings

/-!
# Ids of an allocator

An allocator holds the ids in its table, those in its cache and those of its regions, which
need not be the same: its cache and its ephemeral tier may be worked on directly. Of the
batches only their limit matters, which decides between a request that is too large and one
that there is no room for.

**Results.**
* `Allocator.staticAlloc_chunked`: requests for chunks draw nothing when they are too large.
* `System.Step.moves`: every step of an allocator is a move of its ids.
* `System.Step.draws`, `System.Step.plain`: how many ids it draws, and that none is taken.
-/
namespace TierAlloc

open Function (update)
open Holding

/-- There is something under the id. -/
def Ledger.Has (l : Ledger) (id : Nat) : Prop :=
  l.segments id ≠ none ∨ l.contents id ≠ none ∨ l.regions id ≠ none

namespace Allocator

variable {a a' a'' : Allocator} {shm shm' : Shm} {s : Segment} {n id : Nat} {e : Error} {ids ids' : Counter}
  {batches : List Batch} {b b' : Batch} {l : Ledger} {r : Except Error Segment}

/-! ## Which operations draw nothing -/

theorem freeInTier_ids (h : a.freeInTier s shm = .ok (a', shm')) : a'.ids = a.ids := by
  unfold freeInTier at h
  split at h
  · split at h
    · cases h
    · rename_i b _
      cases hf : b.free s with
      | error e =>
        rw [hf] at h
        cases h
      | ok b' =>
        rw [hf] at h
        rw [← (Prod.mk.inj (Except.ok.inj h)).1]
        rfl
  · cases hf : a.ephemeral.free s shm with
    | error e =>
      rw [hf] at h
      cases h
    | ok freed =>
      rw [hf] at h
      rw [← (Prod.mk.inj (Except.ok.inj h)).1]
  · cases hf : a.cache.freeSegment s with
    | error e =>
      rw [hf] at h
      cases h
    | ok cache =>
      rw [hf] at h
      rw [← (Prod.mk.inj (Except.ok.inj h)).1]

theorem register_ids (a : Allocator) (s : Segment) (shm : Shm) : (a.register s shm).2.1.ids = a.ids := by
  unfold register
  simp only
  split
  · split
    · rename_i hf
      exact freeInTier_ids hf
    · rfl
  · rfl

theorem release_ids {expected : Option Tier} (h : a.release id expected shm = .ok (a', shm')) :
    a'.ids = a.ids := by
  obtain ⟨s, -, -, a₁, hf, rfl⟩ := release_find h
  exact (freeInTier_ids hf :)

theorem replaceEntry_ids {size : Nat} {replace : Cache → Except Error Unit × Cache} {answer : Except Error Unit}
    (h : a.replaceEntry id size replace = (answer, a')) : a'.ids = a.ids := by
  unfold replaceEntry at h
  split at h
  · rw [← (Prod.mk.inj h).2]
  split at h <;> rw [← (Prod.mk.inj h).2]

theorem getIn_plain {tier : Tier} (h : a.getIn tier id = .error e) : ¬e.Clash := by
  unfold getIn get at h
  cases hs : a.segments.get? id with
  | none =>
    simp only [hs, bind, Except.bind] at h
    rw [← Except.error.inj h]
    exact not_false
  | some s =>
    simp only [hs, bind, Except.bind] at h
    split at h
    · cases h
    · rw [← Except.error.inj h]
      exact not_false

theorem replace_ids {r : Replacement} {answer : Except Error Unit} (h : r.apply a = (answer, a')) :
    a'.ids = a.ids := by
  cases r with
  | set id data =>
    unfold Replacement.apply cacheSet at h
    exact replaceEntry_ids h
  | setWith id size content =>
    unfold Replacement.apply cacheSetWith at h
    exact replaceEntry_ids h

/-- A write changes bytes of the cache, or of memory. -/
theorem write_cases {offset : Nat} {data : Bytes} (h : a.write id offset data shm = .ok (a', shm')) :
    a' = a ∨ ∃ bytes cache, a.cache.contents? id = some bytes ∧ a' = { a with cache } ∧
      a.cache.Becomes (update a.cache.contents? id (some (bytes.splice offset data))) cache := by
  unfold write at h
  cases hg : a.get id with
  | error e =>
    simp only [hg, bind, Except.bind] at h
    cases h
  | ok s =>
    simp only [hg, bind, Except.bind] at h
    split at h
    · cases h
    split at h
    · split at h
      · cases h
      · exact Or.inl (written_ok h).1
    · split at h
      · cases h
      · exact Or.inl (written_ok h).1
    · cases hw : a.writeCached id offset data with
      | error e =>
        rw [hw] at h
        cases h
      | ok a₁ =>
        rw [hw] at h
        obtain ⟨rfl, -⟩ := Prod.mk.inj (Except.ok.inj h)
        unfold writeCached at hw
        split at hw
        · cases hw
        split at hw
        · cases hm : a.cache.modify id offset data with
          | error e =>
            rw [hm] at hw
            cases hw
          | ok cache =>
            rw [hm] at hw
            obtain ⟨bytes, hb, hc⟩ := Cache.modify_ok hm
            exact Or.inr ⟨bytes, cache, hb, (Except.ok.inj hw).symm, hc⟩
        · cases hw

theorem await_ids {p : Pending} (h : a.await? p shm = some (r, a', shm')) : a'.ids = a.ids := by
  unfold await? at h
  split at h
  · cases h
  · rw [← (Prod.mk.inj (Prod.mk.inj (Option.some.inj h)).2).1]
  split at h
  · rw [← (Prod.mk.inj (Prod.mk.inj (Option.some.inj h)).2).1]
    exact register_ids ..
  · rw [← (Prod.mk.inj (Prod.mk.inj (Option.some.inj h)).2).1]

/-! ## Requests for chunks -/

/-- There is a batch, and all have the limit of the configuration. -/
def Uniform (a : Allocator) : Prop :=
  a.batches ≠ [] ∧ ∀ b ∈ a.batches, b.maxChunkSize = a.config.geometry.maxChunkSize

theorem askBatches_new (h : askBatches n batches ids = (.ok (s, b'), ids')) :
    ids.issued ≤ s.id ∧ s.id < ids'.issued ∧ ∃ b ∈ batches, b'.maxChunkSize = b.maxChunkSize := by
  induction batches generalizing ids with
  | nil => cases h
  | cons b rest ih =>
    rw [askBatches] at h
    split at h
    · rename_i m ids₁ ha
      have hids := b.allocate_ids ids n
      rw [ha] at hids
      obtain ⟨hle, hlt, c, hc, hmax⟩ := ih h
      exact ⟨Nat.le_trans hids hle, hlt, c, List.mem_cons_of_mem _ hc, hmax⟩
    · obtain ⟨hle, hlt, hmax⟩ := Batch.allocate_new h
      exact ⟨hle, hlt, b, List.mem_cons_self, hmax⟩

theorem askBatches_error (hle : ∀ b ∈ batches, n ≤ b.sizeLimit) (h : askBatches n batches ids = (.error e, ids')) :
    e = .zeroSize ∨ e = .noMemory n ∨ e.Panics := by
  induction batches generalizing ids with
  | nil => exact Or.inr (Or.inl (Except.error.inj (Prod.mk.inj h).1).symm)
  | cons b rest ih =>
    obtain ⟨hb, hrest⟩ := List.forall_mem_cons.mp hle
    rw [askBatches] at h
    split at h
    · exact ih hrest h
    · rcases Batch.allocate_error h with ⟨hgt, -⟩ | ⟨-, he⟩
      · omega
      · exact he

/-- The ledger with the segment that was made, if one was. -/
def recorded (l : Ledger) : Except Error Segment → Ledger
  | .ok s => l.record s
  | .error _ => l

/-- What a request for chunks does, whatever the batches are like otherwise. -/
structure Chunked (a : Allocator) (r : Except Error Segment) (a' : Allocator) : Prop where
  uniform : a'.Uniform
  after : ∃ batches, a.Becomes (recorded { a.ledger with batches } r) a'
  new : ∀ s, r = .ok s → a.ids.issued ≤ s.id ∧ s.id < a'.ids.issued
  plain : ∀ e, r = .error e → ¬e.Clash
  oversized : ∀ m limit, r = .error (.oversizedRequest m limit) → a'.ids = a.ids

theorem serveStatic_error_ids (hnew : a.Unissued) (h : a.serveStatic batches n shm = (.error e, a', shm')) :
    ∃ ids : Counter, a.ids.issued ≤ ids.issued ∧ a' = { a with ids } := by
  cases hask : askBatches n batches a.ids with
  | mk answer ids =>
    cases answer with
    | error e₀ =>
      have hids := askBatches_ids n batches a.ids
      rw [hask] at hids
      rw [serveStatic_of_refused hask] at h
      exact ⟨ids, hids, (Prod.mk.inj (Prod.mk.inj h).2).1.symm⟩
    | ok served =>
      rw [serveStatic_of_ask hnew (askBatches_new hask).1 hask] at h
      cases (Prod.mk.inj h).1

/-- A request that is not too large. -/
theorem serveStatic_chunked (hu : a.Uniform) (hnew : a.Unissued) (hsub : ∀ b ∈ batches, b ∈ a.batches)
    (hle : n ≤ a.config.geometry.maxChunkSize * oversizeFactor)
    (h : a.serveStatic batches n shm = (r, a', shm')) :
    a.Chunked r a' ∧ ∀ m limit, r ≠ .error (.oversizedRequest m limit) := by
  have hlimit : ∀ b ∈ batches, n ≤ b.sizeLimit := by
    intro b hb
    rw [Batch.sizeLimit, hu.2 b (hsub b hb)]
    exact hle
  cases hask : askBatches n batches a.ids with
  | mk answer ids =>
    cases answer with
    | error e =>
      have hids := askBatches_ids n batches a.ids
      rw [hask] at hids
      rw [serveStatic_of_refused hask] at h
      obtain ⟨rfl, hrest⟩ := Prod.mk.inj h
      obtain ⟨rfl, -⟩ := Prod.mk.inj hrest
      have he := askBatches_error hlimit hask
      have hnot : ∀ m limit, Except.error e ≠ (.error (.oversizedRequest m limit) : Except Error Segment) := by
        intro m limit he'
        obtain rfl := Except.error.inj he'
        rcases he with he | he | he
        · cases he
        · cases he
        · exact he
      refine ⟨⟨hu, ⟨a.batches, becomes_draw hids⟩, by simp, fun e' he' => ?_,
        fun m limit he' => absurd he' (hnot m limit)⟩, hnot⟩
      obtain rfl := Except.error.inj he'
      rcases he with rfl | rfl | hpanics
      · exact not_false
      · exact not_false
      · exact hpanics.plain
    | ok served =>
      obtain ⟨s, b'⟩ := served
      obtain ⟨hge, hlt, b, hb, hmax⟩ := askBatches_new hask
      rw [serveStatic_of_ask hnew hge hask] at h
      obtain ⟨rfl, hrest⟩ := Prod.mk.inj h
      obtain ⟨rfl, -⟩ := Prod.mk.inj hrest
      refine ⟨⟨⟨?_, fun c hc => ?_⟩, ⟨a.batches.set b'.id b', rfl, ?_, rfl, rfl, rfl, ?_⟩, fun t ht => ?_,
        by simp, by simp⟩, by simp⟩
      · rw [ne_eq, List.set_eq_nil_iff]
        exact hu.1
      · rcases List.mem_or_eq_of_mem_set hc with hc | rfl
        · exact hu.2 c hc
        · exact hmax.trans (hu.2 b (hsub b hb))
      · exact Nat.le_trans hge (Nat.le_of_lt hlt)
      · unfold ledger recorded Ledger.record
        rw [Table.get?_insert_eq]
        rfl
      · obtain rfl := Except.ok.inj ht
        exact ⟨hge, hlt⟩

/-- What is done from a later state on, with more batches. -/
theorem Chunked.grown (hids : a.ids.issued ≤ ids.issued) (h : Chunked { a with ids, batches } r a')
    (hnot : ∀ m limit, r ≠ .error (.oversizedRequest m limit)) : a.Chunked r a' := by
  obtain ⟨bs, hb⟩ := h.after
  refine ⟨h.uniform, ⟨bs, hb.config, Nat.le_trans hids hb.ids, hb.ephemeral, hb.manager, hb.exchange,
    hb.ledger⟩, fun s hs => ?_, h.plain, fun m limit he => absurd he (hnot m limit)⟩
  obtain ⟨hge, hlt⟩ := h.new s hs
  exact ⟨Nat.le_trans hids hge, hlt⟩

/-- A request for chunks makes a segment under an id that it drew, and draws none when it is
too large. -/
theorem staticAlloc_chunked (hu : a.Uniform) (hnew : a.Unissued) (h : a.staticAlloc n shm = (r, a', shm')) :
    a.Chunked r a' := by
  by_cases hle : n ≤ a.config.geometry.maxChunkSize * oversizeFactor
  · unfold staticAlloc at h
    split at h
    · rename_i m a₁ shm₁ hserve
      obtain ⟨ids, hids, rfl⟩ := serveStatic_error_ids hnew hserve
      split at h
      · rename_i e₁ a₂ shm₂ hgrow
        obtain ⟨rfl, -⟩ := grow_error hgrow
        have hset : e₁.Setup := by
          unfold grow at hgrow
          split at hgrow
          · rename_i hc
            rw [← Except.error.inj (Prod.mk.inj hgrow).1]
            exact Batch.create_setup hc
          · cases hgrow
        obtain ⟨rfl, hrest⟩ := Prod.mk.inj h
        obtain ⟨rfl, -⟩ := Prod.mk.inj hrest
        refine ⟨hu, ⟨a.batches, becomes_draw hids⟩, by simp, fun e' he' => ?_, fun m limit he' => ?_⟩
        · rw [← Except.error.inj he']
          exact hset.plain
        · exact absurd (Except.error.inj he') (hset.not_oversized m limit)
      · rename_i b a₂ shm₂ hgrow
        obtain ⟨hmade, rfl⟩ := grow_ok hgrow
        have hu' : Uniform { a with ids, batches := a.batches ++ [b] } := by
          refine ⟨List.append_ne_nil_of_left_ne_nil hu.1 _, fun c hc => ?_⟩
          rcases List.mem_append.mp hc with hc | hc
          · exact hu.2 c hc
          · obtain rfl := List.mem_singleton.mp hc
            exact Batch.create_limit hmade
        obtain ⟨hc, hnot⟩ := serveStatic_chunked hu' (fun k hk => hnew k (Nat.le_trans hids hk))
          (fun c hc => List.mem_append_right _ hc) hle h
        exact hc.grown hids hnot
    · exact (serveStatic_chunked hu hnew (fun _ => id) hle h).1
  · obtain ⟨first, rest, hb⟩ := List.exists_cons_of_ne_nil hu.1
    have hlimit : first.sizeLimit < n := by
      rw [Batch.sizeLimit, hu.2 first (by simp [hb])]
      omega
    rw [staticAlloc_of_refused hb (Batch.allocate_oversized hlimit a.ids) (by simp)] at h
    obtain ⟨rfl, hrest⟩ := Prod.mk.inj h
    obtain ⟨rfl, -⟩ := Prod.mk.inj hrest
    refine ⟨hu, ⟨a.batches, .refl a⟩, by simp, fun e' he' => ?_, fun _ _ _ => rfl⟩
    rw [← Except.error.inj he']
    exact not_false

/-! ## Other requests -/

theorem cacheStoreWith_draws (a : Allocator) (n : Nat) (content : Bytes) (shm : Shm) :
    (a.cacheStoreWith n content shm).2.1.ids.issued = a.ids.issued + 1 := by
  unfold cacheStoreWith
  rw [Cache.storeWith_eq]
  unfold registerCached
  split
  · rename_i h
    rw [← (Prod.mk.inj (Prod.mk.inj h).2).2]
    rfl
  · rename_i h
    rw [register_ids, ← (Prod.mk.inj (Prod.mk.inj h).2).2]
    rfl

theorem cacheStore_draws (a : Allocator) (data : Bytes) (shm : Shm) :
    (a.cacheStore data shm).2.1.ids.issued = a.ids.issued + 1 := by
  rw [cacheStore_eq]
  split
  · rfl
  · exact cacheStoreWith_draws ..

theorem instantAlloc_draws (a : Allocator) (n : Nat) (shm : Shm) :
    (a.instantAlloc n shm).2.1.ids.issued = a.ids.issued + 1 := by
  rw [instantAlloc_eq]
  split
  · rfl
  · rw [register_ids]
    rfl

theorem cacheStoreWith_plain {content : Bytes} (hnew : a.Unissued)
    (hnone : a.cache.contents? a.ids.issued = none)
    (h : a.cacheStoreWith n content shm = (.error e, a', shm')) : ¬e.Clash := by
  unfold cacheStoreWith at h
  rw [Cache.storeWith_eq] at h
  cases hp : a.cache.place a.ids.issued n content with
  | mk answer cache =>
    rw [hp] at h
    cases answer with
    | error e₀ =>
      obtain rfl := Except.error.inj (Prod.mk.inj h).1
      exact Cache.place_plain hnone hp
    | ok s₀ =>
      obtain ⟨-, -, rfl, -⟩ := Cache.place_ok hp
      have hfree : a.segments.get? a.ids.issued = none := hnew _ (Nat.le_refl _)
      unfold registerCached at h
      simp only at h
      rw [register_new (by exact hfree)] at h
      cases (Prod.mk.inj h).1

theorem cacheStore_plain {data : Bytes} (hnew : a.Unissued) (hnone : a.cache.contents? a.ids.issued = none)
    (h : a.cacheStore data shm = (.error e, a', shm')) : ¬e.Clash := by
  rw [cacheStore_eq] at h
  split at h
  · rw [← Except.error.inj (Prod.mk.inj h).1]
    exact not_false
  · exact cacheStoreWith_plain hnew hnone h

theorem instantAlloc_plain (hnew : a.Unissued) (hnone : a.ephemeral.region? a.ids.issued = none)
    (h : a.instantAlloc n shm = (.error e, a', shm')) : ¬e.Clash := by
  rw [instantAlloc_eq] at h
  split at h
  · rename_i e₀ shm₁ hserve
    obtain rfl := Except.error.inj (Prod.mk.inj h).1
    exact Ephemeral.serve_plain hnone hserve
  · rename_i s₀ ephemeral shm₁ hserve
    obtain ⟨rfl, -⟩ := Ephemeral.serve_ok hserve
    have hfree : a.segments.get? a.ids.issued = none := hnew _ (Nat.le_refl _)
    rw [register_new (by exact hfree)] at h
    cases (Prod.mk.inj h).1

/-! ## What an allocator holds -/

/-- Segments are in the table under their own ids, and the batches have the same limit. -/
structure Indexed (a : Allocator) : Prop where
  uniform : a.Uniform
  own : ∀ id s, a.ledger.segments id = some s → s.id = id

/-- The ids that an allocator holds, with its handoffs and callbacks. -/
def holding (a : Allocator) (t : Traffic) (fills : List Fill) : Holding := ⟨setAside t fills, a.ledger.Has⟩

end Allocator

namespace Ledger

variable {l : Ledger} {s : Segment} {id k : Nat}

theorem has_record (h : (l.record s).Has k) : l.Has k ∨ some s.id = some k := by
  rcases h with hs | hother
  · exact (update_ne_none hs).imp_left Or.inl
  · exact Or.inl (Or.inr hother)

theorem has_setContents {v : Option Bytes} (h : (l.setContents id v).Has k) : l.Has k ∨ some id = some k := by
  rcases h with hs | hc | hr
  · exact Or.inl (Or.inl hs)
  · exact (update_ne_none hc).imp_left fun hc => Or.inr (Or.inl hc)
  · exact Or.inl (Or.inr (Or.inr hr))

theorem has_setRegion {v : Option Region} (h : (l.setRegion id v).Has k) : l.Has k ∨ some id = some k := by
  rcases h with hs | hc | hr
  · exact Or.inl (Or.inl hs)
  · exact Or.inl (Or.inr (Or.inl hc))
  · exact (update_ne_none hr).imp_left fun hr => Or.inr (Or.inr hr)

/-- What is changed was there. -/
theorem has_of_has (hid : l.Has id) (h : l.Has k ∨ some id = some k) : l.Has k :=
  h.elim (fun hk => hk) fun he => Option.some.inj he ▸ hid

/-- A segment in the table gets other bytes, and another size. -/
theorem has_resized {bytes : Bytes} {n : Nat} (hlive : l.segments id = some s) (hid : s.id = id)
    (h : ((l.setContents id (some bytes)).record { s with size := n }).Has k) : l.Has k := by
  have hhas : l.Has id := Or.inl (by rw [hlive]; nofun)
  rcases has_record h with hk | he
  · exact has_of_has hhas (has_setContents hk)
  · exact has_of_has hhas (Or.inr (hid ▸ he))

theorem has_forget (h : (l.forget id).Has k) : l.Has k := by
  rcases h with hs | hother
  · refine Or.inl fun hn => hs ?_
    simp only [forget, Function.update_apply, hn, ite_self]
  · exact Or.inr hother

theorem own_record (hown : ∀ id s, l.segments id = some s → s.id = id) :
    ∀ id t, (l.record s).segments id = some t → t.id = id := by
  intro id t ht
  simp only [record, Function.update_apply] at ht
  split at ht
  · rename_i hid
    rw [← Option.some.inj ht, hid]
  · exact hown id t ht

theorem own_forget (hown : ∀ id s, l.segments id = some s → s.id = id) :
    ∀ id t, (l.forget k).segments id = some t → t.id = id := by
  intro id t ht
  simp only [forget, Function.update_apply] at ht
  split at ht
  · cases ht
  · exact hown id t ht

end Ledger

namespace Allocator

variable {a a' : Allocator} {shm shm' : Shm} {s : Segment} {id : Nat} {l : Ledger} {t : Traffic}
  {fills : List Fill} {answer : Except Error Segment} {r : Request}

theorem Becomes.has (hb : a.Becomes l a') {k : Nat} (hk : a'.ledger.Has k) : l.Has k := hb.ledger ▸ hk

theorem Becomes.indexed (hb : a.Becomes l a') (hi : a.Indexed) (hbatches : l.batches = a.batches)
    (hown : ∀ id s, l.segments id = some s → s.id = id) : a'.Indexed := by
  have hb' : a'.batches = a.batches := (congrArg Ledger.batches hb.ledger).trans hbatches
  refine ⟨⟨hb' ▸ hi.uniform.1, fun b hmem => ?_⟩, fun id s hs => ?_⟩
  · rw [hb.config]
    exact hi.uniform.2 b (hb' ▸ hmem)
  · rw [hb.ledger] at hs
    exact hown id s hs

section
variable (hi : a.Indexed) (ho : (a.holding t fills).Orderly a.ids)

include ho

theorem unissued_of_orderly : a.Unissued := fun _ hid =>
  by_contra fun hn => ho.not_taken hid (Or.inl hn)

theorem contents_none {id : Nat} (hid : id ∈ setAside t fills ∨ a.ids.issued ≤ id) :
    a.cache.contents? id = none :=
  by_contra fun hn => hid.elim (fun hr => ho.free id hr (Or.inr (Or.inl hn)))
    fun hge => ho.not_taken hge (Or.inr (Or.inl hn))

theorem regions_none {id : Nat} (hid : a.ids.issued ≤ id) : a.ephemeral.region? id = none :=
  by_contra fun hn => ho.not_taken hid (Or.inr (Or.inr hn))

/-- Nothing new is held. -/
theorem moves_becomes (hb : a.Becomes l a') (hkeep : ∀ k, l.Has k → a.ledger.Has k) :
    Moves a.ids (a.holding t fills) none none a'.ids (a'.holding t fills) :=
  .idle hb.ids ho.nodup (fun _ => id) fun k hk => hkeep k (hb.has hk)

/-- A segment is made under a new id. -/
theorem moves_made (hb : a.Becomes l a') (hid : a.ids.issued ≤ id) (hlt : id < a'.ids.issued)
    (hkeep : ∀ k, l.Has k → a.ledger.Has k ∨ some id = some k) :
    Moves a.ids (a.holding t fills) none (some id) a'.ids (a'.holding t fills) :=
  ho.make hb.ids (fun _ hk => Option.some.inj hk ▸ ⟨hid, hlt⟩) rfl fun k hk => hkeep k (hb.has hk)

end

/-- What became of a cache segment's request is said by its ledger. -/
theorem has_stored {bytes : Bytes} {k : Nat}
    (hk : ((a.ledger.setContents s.id (some bytes)).record s).Has k) : a.ledger.Has k ∨ some s.id = some k := by
  rcases Ledger.has_record hk with hk | he
  · exact Ledger.has_setContents hk
  · exact Or.inr he

section
variable {n : Nat} {content : Bytes} (hi : a.Indexed) (ho : (a.holding t fills).Orderly a.ids)

include hi ho

/-- An operation under whose ids there was something before. -/
theorem moves_same (hb : a.Becomes l a') (hbatches : l.batches = a.batches)
    (hown : ∀ id s, l.segments id = some s → s.id = id) (hkeep : ∀ k, l.Has k → a.ledger.Has k) :
    a'.Indexed ∧ Moves a.ids (a.holding t fills) none none a'.ids (a'.holding t fills) :=
  ⟨hb.indexed hi hbatches hown, moves_becomes ho hb hkeep⟩

/-- One that may have drawn ids for nothing. -/
theorem moves_refused (hb : a.Becomes a.ledger a') : a'.Indexed ∧
    Moves a.ids (a.holding t fills) none none a'.ids (a'.holding t fills) :=
  moves_same hi ho hb rfl hi.own fun _ => id

theorem moves_stored {bytes : Bytes} (hid : s.id = a.ids.issued) (hs : a.Stored shm s bytes a' shm') :
    a'.Indexed ∧ Moves a.ids (a.holding t fills) none (some s.id) a'.ids (a'.holding t fills) :=
  ⟨hs.after.indexed hi rfl (Ledger.own_record hi.own),
    moves_made ho hs.after (Nat.le_of_eq hid.symm) hs.drawn fun _ => has_stored⟩

theorem cacheStoreWith_moves (h : a.cacheStoreWith n content shm = (answer, a', shm')) :
    a'.Indexed ∧ Moves a.ids (a.holding t fills) none (answer.toOption.map Segment.id) a'.ids
      (a'.holding t fills) := by
  have hnew := unissued_of_orderly ho
  cases answer with
  | error e => exact moves_refused hi ho (cacheStoreWith_error hnew h).1
  | ok s =>
    obtain ⟨hid, -, hs⟩ := cacheStoreWith_ok hnew h
    exact moves_stored hi ho hid hs

theorem cacheStore_moves (h : a.cacheStore content shm = (answer, a', shm')) :
    a'.Indexed ∧ Moves a.ids (a.holding t fills) none (answer.toOption.map Segment.id) a'.ids
      (a'.holding t fills) := by
  have hnew := unissued_of_orderly ho
  cases answer with
  | error e => exact moves_refused hi ho (cacheStore_error hnew h).1
  | ok s =>
    obtain ⟨hid, -, hs⟩ := cacheStore_ok hnew h
    exact moves_stored hi ho hid hs

theorem staticAlloc_moves (h : a.staticAlloc n shm = (answer, a', shm')) :
    a'.Indexed ∧ Moves a.ids (a.holding t fills) none (answer.toOption.map Segment.id) a'.ids
      (a'.holding t fills) := by
  have hc := staticAlloc_chunked hi.uniform (unissued_of_orderly ho) h
  obtain ⟨bs, hb⟩ := hc.after
  cases answer with
  | error e =>
    refine ⟨⟨hc.uniform, fun id s hs => hi.own id s ?_⟩, moves_becomes ho hb fun _ hk => hk⟩
    rwa [hb.ledger] at hs
  | ok s =>
    obtain ⟨hge, hlt⟩ := hc.new s rfl
    refine ⟨⟨hc.uniform, fun id t ht => ?_⟩, moves_made ho hb hge hlt fun k hk => ?_⟩
    · rw [hb.ledger] at ht
      exact Ledger.own_record (l := { a.ledger with batches := bs }) hi.own id t ht
    · exact (Ledger.has_record hk :)

theorem instantAlloc_moves (h : a.instantAlloc n shm = (answer, a', shm')) :
    a'.Indexed ∧ Moves a.ids (a.holding t fills) none (answer.toOption.map Segment.id) a'.ids
      (a'.holding t fills) := by
  have hnew := unissued_of_orderly ho
  cases answer with
  | error e => exact moves_refused hi ho (instantAlloc_error hnew (regions_none ho (Nat.le_refl _)) h).1
  | ok s =>
    obtain ⟨-, r, hm⟩ := instantAlloc_ok hnew h
    refine ⟨hm.after.indexed hi rfl (Ledger.own_record hi.own),
      moves_made ho hm.after (Nat.le_of_eq hm.fresh.symm) hm.drawn fun k hk => ?_⟩
    rcases Ledger.has_record hk with hk | he
    · exact Ledger.has_setRegion hk
    · exact Or.inr he

/-- Whatever a request asks for, a segment that it makes is under an id that it drew. -/
theorem request_moves (h : r.apply a shm = (answer, a', shm')) :
    a'.Indexed ∧ Moves a.ids (a.holding t fills) none (answer.toOption.map Segment.id) a'.ids
      (a'.holding t fills) := by
  cases r with
  | allocate n =>
    unfold Request.apply allocate at h
    cases hc : a.classify n <;> simp only [hc] at h
    · exact staticAlloc_moves hi ho h
    · exact cacheStoreWith_moves hi ho (show a.cacheStoreWith n [] shm = _ from h)
    · exact instantAlloc_moves hi ho h
  | staticAlloc n => exact staticAlloc_moves hi ho h
  | instantAlloc n => exact instantAlloc_moves hi ho h
  | cacheMalloc n => exact cacheStoreWith_moves hi ho (show a.cacheStoreWith n [] shm = _ from h)
  | cacheStore data => exact cacheStore_moves hi ho h
  | cacheStoreWith n content => exact cacheStoreWith_moves hi ho h

theorem freed_moves (hlive : a.ledger.segments s.id = some s) (hf : a.Freed shm s a' shm') :
    a'.Indexed ∧ Moves a.ids (a.holding t fills) none none a'.ids (a'.holding t fills) := by
  have hhas : a.ledger.Has s.id := Or.inl (by rw [hlive]; nofun)
  cases hf with
  | @chunks b p p' _ _ hb hp _ hafter =>
    have hbatches : a'.batches = a.batches.set b.id (b.putPool p') := congrArg Ledger.batches hafter.ledger
    refine ⟨⟨⟨?_, fun c hc => ?_⟩, fun id t ht => ?_⟩, moves_becomes ho hafter fun k hk => (Ledger.has_forget hk :)⟩
    · rw [hbatches, ne_eq, List.set_eq_nil_iff]
      exact hi.uniform.1
    · rw [hafter.config]
      rw [hbatches] at hc
      rcases List.mem_or_eq_of_mem_set hc with hc | rfl
      · exact hi.uniform.2 c hc
      · exact hi.uniform.2 b (List.mem_of_getElem? hb)
    · rw [hafter.ledger] at ht
      exact Ledger.own_forget (l := a.ledger.setBatch (b.putPool p')) hi.own id t ht
  | region _ _ hafter =>
    exact moves_same hi ho hafter rfl (Ledger.own_forget hi.own) fun k hk =>
      Ledger.has_of_has hhas (Ledger.has_setRegion (Ledger.has_forget hk))
  | entry _ hafter =>
    exact moves_same hi ho hafter rfl (Ledger.own_forget hi.own) fun k hk =>
      Ledger.has_of_has hhas (Ledger.has_setContents (Ledger.has_forget hk))

theorem write_moves {offset : Nat} {data : Bytes} (hw : a.write id offset data shm = .ok (a', shm')) :
    a'.Indexed ∧ Moves a.ids (a.holding t fills) none none a'.ids (a'.holding t fills) := by
  rcases write_cases hw with rfl | ⟨bytes, cache, hc, rfl, hb⟩
  · exact moves_refused hi ho (.refl _)
  · have hbec : a.Becomes (a.ledger.setContents id (some (bytes.splice offset data))) { a with cache } := by
      refine ⟨rfl, Nat.le_refl _, rfl, hb.manager, hb.exchange, ?_⟩
      unfold ledger Ledger.setContents
      rw [hb.contents]
    have hhas : a.ledger.Has id := Or.inr (Or.inl fun hn => by
      rw [show a.ledger.contents id = a.cache.contents? id from rfl, hc] at hn
      cases hn)
    exact moves_same hi ho hbec rfl hi.own fun k hk => Ledger.has_of_has hhas (Ledger.has_setContents hk)

end

end Allocator

namespace Request

/-- The tier that serves the request. -/
def tier (a : Allocator) : Request → Tier
  | allocate n => a.classify n
  | staticAlloc _ => .static
  | instantAlloc _ => .ephemeral
  | cacheMalloc _ | cacheStore _ | cacheStoreWith .. => .cache

/-- How many ids a request draws, unless it is one for chunks that are looked for. -/
def draws? (a : Allocator) (answer : Except Error Segment) (r : Request) : Option Nat :=
  if r.tier a = .static then
    match answer with
    | .error (.oversizedRequest ..) => some 0
    | _ => none
  else some 1

variable {a a' : Allocator} {shm shm' : Shm} {answer : Except Error Segment} {e : Error} {r : Request}
  {t : Traffic} {fills : List Fill} {k : Nat}

theorem apply_draws (hi : a.Indexed) (ho : (a.holding t fills).Orderly a.ids)
    (h : r.apply a shm = (answer, a', shm')) (hk : r.draws? a answer = some k) :
    a'.ids.issued = a.ids.issued + k := by
  have hone : ∀ {x : Except Error Segment × Allocator × Shm}, x.2.1.ids.issued = a.ids.issued + 1 →
      x = (answer, a', shm') → a'.ids.issued = a.ids.issued + 1 := by
    rintro x hx rfl
    exact hx
  have hstatic : ∀ {n}, a.staticAlloc n shm = (answer, a', shm') → r.tier a = .static →
      a'.ids.issued = a.ids.issued + k := by
    intro n h ht
    unfold draws? at hk
    rw [if_pos ht] at hk
    split at hk
    · have hc := Allocator.staticAlloc_chunked hi.uniform (Allocator.unissued_of_orderly ho) h
      rw [hc.oversized _ _ rfl, ← Option.some.inj hk, Nat.add_zero]
    · cases hk
  have hother : r.tier a ≠ .static → a'.ids.issued = a.ids.issued + 1 → a'.ids.issued = a.ids.issued + k := by
    intro ht hids
    unfold draws? at hk
    rw [if_neg ht] at hk
    rw [hids, ← Option.some.inj hk]
  cases r with
  | allocate n =>
    unfold apply Allocator.allocate at h
    cases hc : a.classify n <;> simp only [hc] at h
    · exact hstatic h hc
    · exact hother (by simp [tier, hc]) (hone (a.cacheStoreWith_draws n [] shm) h)
    · exact hother (by simp [tier, hc]) (hone (a.instantAlloc_draws n shm) h)
  | staticAlloc n => exact hstatic h rfl
  | instantAlloc n => exact hother nofun (hone (a.instantAlloc_draws n shm) h)
  | cacheMalloc n => exact hother nofun (hone (a.cacheStoreWith_draws n [] shm) h)
  | cacheStore data => exact hother nofun (hone (a.cacheStore_draws data shm) h)
  | cacheStoreWith n content => exact hother nofun (hone (a.cacheStoreWith_draws n content shm) h)

/-- No request finds its new id taken. -/
theorem apply_plain (hi : a.Indexed) (ho : (a.holding t fills).Orderly a.ids)
    (h : r.apply a shm = (.error e, a', shm')) : ¬e.Clash := by
  have hnew := Allocator.unissued_of_orderly ho
  have hnone := Allocator.contents_none ho (Or.inr (Nat.le_refl _))
  have hregion := Allocator.regions_none ho (Nat.le_refl _)
  have hstatic : ∀ {n}, a.staticAlloc n shm = (.error e, a', shm') → ¬e.Clash := fun h =>
    (Allocator.staticAlloc_chunked hi.uniform hnew h).plain e rfl
  cases r with
  | allocate n =>
    unfold apply Allocator.allocate at h
    cases hc : a.classify n <;> simp only [hc] at h
    · exact hstatic h
    · exact Allocator.cacheStoreWith_plain hnew hnone (show a.cacheStoreWith n [] shm = _ from h)
    · exact Allocator.instantAlloc_plain hnew hregion h
  | staticAlloc n => exact hstatic h
  | instantAlloc n => exact Allocator.instantAlloc_plain hnew hregion h
  | cacheMalloc n => exact Allocator.cacheStoreWith_plain hnew hnone (show a.cacheStoreWith n [] shm = _ from h)
  | cacheStore data => exact Allocator.cacheStore_plain hnew hnone h
  | cacheStoreWith n content => exact Allocator.cacheStoreWith_plain hnew hnone h

end Request

/-! ## Other operations -/

namespace Allocator

variable {a a' : Allocator} {shm shm' : Shm} {s : Segment} {id : Nat} {t : Traffic} {fills : List Fill}
  {e : Error}

theorem offerMalloc_draws {n : Nat} (h : a.offerMalloc n = (.error e, a')) :
    ¬e.Clash ∧ a'.ids.issued = a.ids.issued + if e = .handoffDisabled then 0 else 1 := by
  unfold offerMalloc at h
  cases hc : a.cache.offerMalloc a.ids n with
  | mk r ids =>
    rw [hc] at h
    obtain ⟨rfl, rfl⟩ := Prod.mk.inj h
    obtain ⟨hplain, -, hids⟩ := Cache.offerMalloc_draws hc
    exact ⟨hplain, hids⟩

theorem await_plain {p : Pending} (hnew : p.direction = .inbound → a.ledger.segments p.segment.id = none)
    (hnone : p.direction = .inbound → a.cache.contents? p.segment.id = none)
    (h : a.await? p shm = some (.error e, a', shm')) : ¬e.Clash := by
  obtain ⟨-, cache, hw⟩ := await_error hnew h
  exact Pending.settle_plain hnone hw

end Allocator

/-! ## Steps of an allocator -/

namespace System

namespace Event

/-- The id that is set aside. -/
def aside? : Event → Option Nat
  | askMalloc _ (.ok o) => some o.id
  | _ => none

/-- What a call answers that is to make a segment, with the id of one that is made. -/
def outcome? : Event → Option (Except Error (Option Nat))
  | granted _ s _ => some (.ok (some s.id))
  | refused _ e => some (.error e)
  | askMalloc _ (.error e) | exchange (.place _ (.error e)) => some (.error e)
  | await k (.ok _) => some (.ok k.pending.awaits)
  | await _ (.error e) => some (.error e)
  | _ => none

/-- The id of the segment that is made. -/
def made? (e : Event) : Option Nat :=
  match e.outcome? with
  | some (.ok made) => made
  | _ => none

/-- How many ids are drawn, but for requests for chunks that are looked for. -/
def draws? (a : Allocator) : Event → Option Nat
  | granted r s _ => r.draws? a (.ok s)
  | refused r e => r.draws? a (.error e)
  | askMalloc _ (.error .handoffDisabled) => some 0
  | askMalloc _ _ => some 1
  | _ => some 0

end Event

variable {allowed : Traffic → Descriptor → Prop} {s s' : System} {e : Event} {fills : List Fill}

section
variable (hi : s.allocator.Indexed) (ho : (s.allocator.holding s.traffic fills).Orderly s.allocator.ids)

include ho

/-- No segment has the id of an inbound handoff. -/
theorem await_free {pre post : List Cycle} {k : Cycle} (ht : s.traffic.cycles = pre ++ k :: post)
    (hd : k.pending.direction = .inbound) : s.allocator.ledger.segments k.pending.segment.id = none :=
  by_contra fun hn => ho.free _ (mem_setAside ht hd fills) (Or.inl hn)

theorem moves_await {pre post : List Cycle} {k : Cycle} {r : Except Error Segment} {a : Allocator} {shm : Shm}
    (hown : ∀ id s', s.allocator.ledger.segments id = some s' → s'.id = id)
    (ht : s.traffic.cycles = pre ++ k :: post)
    (ha : s.allocator.await? k.pending s.shm = some (r, a, shm)) :
    (∃ l, s.allocator.Becomes l a ∧ l.batches = s.allocator.batches ∧
      ∀ id s', l.segments id = some s' → s'.id = id) ∧
    Moves s.allocator.ids (s.allocator.holding s.traffic fills) none (r.toOption.bind fun _ => k.pending.awaits)
      a.ids (a.holding { s.traffic with cycles := pre ++ post } fills) := by
  have hres := setAside_finish ht fills
  have hle : s.allocator.ids.issued ≤ a.ids.issued := Nat.le_of_eq (by rw [Allocator.await_ids ha])
  cases r with
  | error e =>
    have hb := (Allocator.await_error (await_free ho ht) ha).1
    exact ⟨⟨_, hb, rfl, hown⟩, ho.abandon hle hres fun id => hb.has⟩
  | ok seg =>
    obtain ⟨s₀, cache, -, ⟨-, hb⟩ | ⟨hd, hid, bytes, -, hstored⟩⟩ := Allocator.await_ok (await_free ho ht)
      (fun hd => ho.lt _ (mem_setAside ht hd fills)) ha
    · exact ⟨⟨_, hb, rfl, hown⟩, ho.fulfil hle hres fun id hid => Or.inl (hb.has hid)⟩
    · refine ⟨⟨_, hstored.after, rfl, Ledger.own_record hown⟩, ho.fulfil hle hres fun k' hk => ?_⟩
      have hk := Allocator.has_stored (hstored.after.has hk)
      rw [hid] at hk
      rw [Pending.awaits_of_inbound hd]
      exact hk

include hi

/-- Every step of an allocator is a move of its ids. -/
theorem Step.moves (hs : Step allowed s e s') : s'.allocator.Indexed ∧
    Moves s.allocator.ids (s.allocator.holding s.traffic fills) e.aside? e.made? s'.allocator.ids
      (s'.allocator.holding s'.traffic fills) := by
  have hstay : s.allocator.Indexed ∧ Moves s.allocator.ids (s.allocator.holding s.traffic fills) none none
      s.allocator.ids (s.allocator.holding s.traffic fills) := Allocator.moves_refused hi ho (.refl _)
  cases hs with
  | granted hr => exact Allocator.request_moves hi ho hr
  | refused hr => exact Allocator.request_moves hi ho hr
  | @replace r answer a hr =>
    cases answer with
    | error e => exact Allocator.moves_refused hi ho (Replacement.error hr)
    | ok u =>
      obtain ⟨seg, hlive, hid, -, hb⟩ := Replacement.ok (hi.own r.id) hr
      exact Allocator.moves_same hi ho hb rfl (Ledger.own_record hi.own) fun k => Ledger.has_resized hlive hid
  | @released id expected a shm hr =>
    obtain ⟨seg, hlive, rfl, -, hf⟩ := Allocator.release_ok (hi.own id) hr
    exact Allocator.freed_moves hi ho hlive hf
  | unreleased => exact hstay
  | written hw => exact Allocator.write_moves hi ho hw
  | unwritten => exact hstay
  | read => exact hstay
  | askMalloc hask =>
    obtain ⟨rfl, x, -, -, rfl⟩ := Allocator.offerMalloc_ok hask
    exact ⟨⟨hi.uniform, hi.own⟩, ho.setAside (Nat.lt_succ_self _) (.refl _) fun _ => id⟩
  | denyMalloc hask => exact Allocator.moves_refused hi ho (Allocator.offerMalloc_ids hask)
  | askRetrieve _ hask =>
    obtain ⟨seg, x, payload, -, -, -, -, -, rfl⟩ := Allocator.offerRetrieve_ok hask
    exact hstay
  | denyRetrieve => exact hstay
  | @exchange e shm t hx =>
    have hm := moves_exchange ho hx
    cases hx <;> exact ⟨hi, hm⟩
  | @await pre k post r a shm ht ha =>
    obtain ⟨⟨l, hb, hbatches, hown⟩, hm⟩ := moves_await ho hi.own ht ha
    refine ⟨hb.indexed hi hbatches hown, ?_⟩
    cases r <;> exact hm
  | drop ht => exact ⟨hi, ho.abandon (Nat.le_refl _) (setAside_finish ht fills) fun _ => id⟩
  | outside => exact hstay

/-- A step draws as many ids as its event says. -/
theorem Step.draws (hs : Step allowed s e s') {k : Nat} (hk : e.draws? s.allocator = some k) :
    s'.allocator.ids.issued = s.allocator.ids.issued + k := by
  have hzero : ∀ {a : Allocator}, a.ids = s.allocator.ids → some 0 = some k →
      a.ids.issued = s.allocator.ids.issued + k := by
    intro a ha hk
    rw [ha, ← Option.some.inj hk, Nat.add_zero]
  cases hs with
  | granted hr => exact Request.apply_draws hi ho hr hk
  | refused hr => exact Request.apply_draws hi ho hr hk
  | replace hr => exact hzero (Allocator.replace_ids hr) hk
  | released hr => exact hzero (Allocator.release_ids hr) hk
  | written hw =>
    rcases Allocator.write_cases hw with rfl | ⟨bytes, cache, -, rfl, -⟩
    · exact hzero rfl hk
    · exact hzero rfl hk
  | askMalloc hask =>
    obtain ⟨rfl, -⟩ := Allocator.offerMalloc_ok hask
    rw [← Option.some.inj hk]
    rfl
  | @denyMalloc n err a hask =>
    rw [(Allocator.offerMalloc_draws hask).2]
    by_cases hd : err = .handoffDisabled
    · subst hd
      rw [← Option.some.inj hk]
      rfl
    · rw [if_neg hd]
      unfold Event.draws? at hk
      split at hk <;> simp_all
  | await _ ha => exact hzero (Allocator.await_ids ha) hk
  | _ => exact hzero rfl hk

/-- No call finds the id of its segment taken. -/
theorem Step.plain (hs : Step allowed s e s') {err : Error} (he : e.outcome? = some (.error err)) :
    ¬err.Clash := by
  cases hs with
  | refused hr =>
    obtain rfl := Except.error.inj (Option.some.inj he)
    exact Request.apply_plain hi ho hr
  | denyMalloc hask =>
    obtain rfl := Except.error.inj (Option.some.inj he)
    exact (Allocator.offerMalloc_draws hask).1
  | exchange hx =>
    cases hx with
    | refused ht hp =>
      obtain rfl := Except.error.inj (Option.some.inj he)
      exact Offer.place?_plain hp
    | _ => cases he
  | @await pre k post r a shm ht ha =>
    cases r with
    | ok seg => cases he
    | error e₀ =>
      obtain rfl := Except.error.inj (Option.some.inj he)
      exact Allocator.await_plain (await_free ho ht)
        (fun hd => Allocator.contents_none ho (Or.inl (mem_setAside ht hd fills))) ha
  | _ => cases he

end
end System
end TierAlloc
