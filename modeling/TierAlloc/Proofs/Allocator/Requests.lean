import TierAlloc.Proofs.Allocator.Ledger

/-!
# What requests do

A request that succeeds has made a segment: an entry of the cache (`Stored`), a run of
chunks (`Took`) or a region (`Mapped`), with the ledger that results. One that fails leaves
the ledger, but for a batch that may have been added (`Grown`).

This is said under two assumptions that hold in every state that is reached: the batches
are sound, and no segment has an id that was not drawn yet (`Unissued`).

**Results.**
* `cacheStoreWith_ok`, `cacheStore_ok`, `cacheMalloc_ok`, `cacheStoreWith_error`: the cache.
* `staticAlloc_ok`, `staticAlloc_error`: chunks.
* `instantAlloc_ok`, `instantAlloc_error`: regions.
-/
namespace TierAlloc

open Function (update)

namespace Ephemeral

variable {e e' : Ephemeral} {id n : Nat} {shm shm' : Shm} {s : Segment} {err : Error}

theorem serve_ok (h : e.serve id n shm = (.ok (s, e'), shm')) :
    s = { id, size := n, manager := e.manager, kind := .ephemeral } ∧ e.region? id = none ∧
      ∃ r, Shm.Made (ephemeralRegionName e.manager id) n shm r shm' ∧
        e' = { e with regions := e.regions.insert id r } := by
  unfold serve at h
  split at h
  · cases h
  split at h
  · cases h
  rename_i r shm₁ hc
  split at h
  · cases h
  rename_i habsent
  simp only [Prod.mk.injEq, Except.ok.injEq] at h
  obtain ⟨⟨rfl, rfl⟩, rfl⟩ := h
  rw [Table.contains_eq, Option.not_isSome_iff_eq_none] at habsent
  exact ⟨rfl, habsent, r, Shm.create_made hc, rfl⟩

theorem serve_error (hfree : e.region? id = none) (h : e.serve id n shm = (.error err, shm')) :
    shm' = shm ∨ shm' = shm.unlink (ephemeralRegionName e.manager id) := by
  unfold serve at h
  split at h
  · exact Or.inl (Prod.mk.inj h).2.symm
  split at h
  · rename_i hc
    rw [← (Prod.mk.inj h).2]
    exact Shm.create_refused hc
  have habsent : e.regions.contains id = false := by
    rw [Table.contains_eq, Option.isSome_eq_false_iff, Option.isNone_iff_eq_none]
    exact hfree
  rw [habsent] at h
  cases (Prod.mk.inj h).1

/-- An id is drawn, and the request is served under it. -/
theorem allocate_serve {ids ids' : Counter} {answer : Except Error (Segment × Ephemeral)}
    (h : e.allocate ids n shm = (answer, ids', shm')) :
    ids' = ids.draw.2 ∧ e.serve ids.issued n shm = (answer, shm') := by
  obtain ⟨hanswer, hrest⟩ := Prod.mk.inj h
  obtain ⟨hids, hshm⟩ := Prod.mk.inj hrest
  exact ⟨hids.symm, Prod.ext hanswer hshm⟩

theorem free_ok (h : e.free s shm = .ok (e', shm')) : s.tier = .ephemeral ∧ ∃ r,
    e.region? s.id = some r ∧ e' = { e with regions := e.regions.erase s.id } ∧ shm' = shm.release r := by
  unfold free at h
  split at h
  · cases h
  rename_i ht
  split at h
  · cases h
  · rename_i r hr
    simp only [Except.ok.injEq, Prod.mk.injEq] at h
    exact ⟨Decidable.not_not.mp ht, r, hr, h.1.symm, h.2.symm⟩

end Ephemeral

namespace Allocator

variable {a a' : Allocator} {shm shm' shm'' : Shm} {s : Segment} {n id : Nat} {e : Error}

/-! ## The cache -/

/-- What became of a request for a cache entry that succeeded: the entry and its segment
are there. -/
structure Stored (a : Allocator) (shm : Shm) (s : Segment) (bytes : Bytes) (a' : Allocator) (shm' : Shm) :
    Prop where
  kind : s.kind = .cache .inProcess
  size : s.size = bytes.length
  manager : s.manager = a.name
  absent : a.ledger.contents s.id = none
  drawn : s.id < a'.ids.issued
  after : a.Becomes ((a.ledger.setContents s.id (some bytes)).record s) a'
  memory : shm' = shm

theorem stored_register {cache : Cache} {ids : Counter} {bytes : Bytes} {size : Nat}
    (hids : a.ids.issued ≤ ids.issued) (hid : id < ids.issued) (hsize : size = bytes.length)
    (hnew : a.ledger.segments id = none) (habsent : a.ledger.contents id = none)
    (hc : a.cache.Becomes (update a.cache.contents? id (some bytes)) cache)
    (h : { a with cache, ids }.register (a.cache.entrySegment id size) shm = (.ok s, a', shm')) :
    s.id = id ∧ a.Stored shm s bytes a' shm' := by
  rw [register_new (by exact hnew), Prod.mk.injEq, Prod.mk.injEq, Except.ok.injEq] at h
  obtain ⟨rfl, rfl, rfl⟩ := h
  refine ⟨rfl, rfl, hsize, rfl, habsent, hid, ⟨rfl, hids, rfl, hc.manager, hc.exchange, ?_⟩, rfl⟩
  unfold ledger Ledger.record Ledger.setContents
  rw [Table.get?_insert_eq, hc.contents]
  rfl

theorem cacheStoreWith_ok {content : Bytes} (hnew : a.Unissued)
    (h : a.cacheStoreWith n content shm = (.ok s, a', shm')) :
    s.id = a.ids.issued ∧ 0 < n ∧ a.Stored shm s ((Bytes.zeros n).overlay content) a' shm' := by
  unfold cacheStoreWith at h
  rw [Cache.storeWith_eq] at h
  cases hp : a.cache.place a.ids.issued n content with
  | mk r cache =>
    rw [hp] at h
    cases r with
    | error e => cases (Prod.mk.inj h).1
    | ok s₀ =>
      obtain ⟨hn, habsent, rfl, hc⟩ := Cache.place_ok hp
      have hsize : n = ((Bytes.zeros n).overlay content).length := by simp
      obtain ⟨hid, hstored⟩ := stored_register (Nat.le_succ _) (Nat.lt_succ_self _) hsize
        (hnew _ (Nat.le_refl _)) habsent hc h
      exact ⟨hid, hn, hstored⟩

theorem cacheStore_eq (a : Allocator) (data : Bytes) (shm : Shm) : a.cacheStore data shm =
    if data.isEmpty then (.error .noBuffer, { a with ids := a.ids.draw.2 }, shm)
    else a.cacheStoreWith data.length data shm := by
  unfold cacheStore cacheStoreWith
  rw [Cache.store_eq]
  split <;> rfl

theorem cacheStore_ok {data : Bytes} (hnew : a.Unissued)
    (h : a.cacheStore data shm = (.ok s, a', shm')) :
    s.id = a.ids.issued ∧ 0 < data.length ∧ a.Stored shm s data a' shm' := by
  rw [cacheStore_eq] at h
  split at h
  · cases (Prod.mk.inj h).1
  · have hs := cacheStoreWith_ok hnew h
    rwa [Bytes.overlay_eq_self (Bytes.length_zeros _).symm] at hs

theorem cacheMalloc_ok (hnew : a.Unissued) (h : a.cacheMalloc n shm = (.ok s, a', shm')) :
    s.id = a.ids.issued ∧ 0 < n ∧ a.Stored shm s (.zeros n) a' shm' := by
  have hs := cacheStoreWith_ok hnew (show a.cacheStoreWith n [] shm = _ from h)
  rwa [Bytes.overlay_nil] at hs

theorem cacheStoreWith_error {content : Bytes} (hnew : a.Unissued)
    (h : a.cacheStoreWith n content shm = (.error e, a', shm')) : a.Becomes a.ledger a' ∧ shm' = shm := by
  unfold cacheStoreWith at h
  rw [Cache.storeWith_eq] at h
  cases hp : a.cache.place a.ids.issued n content with
  | mk r cache =>
    rw [hp] at h
    cases r with
    | error e =>
      obtain ⟨-, rfl, rfl⟩ := by simpa [registerCached] using h
      exact ⟨becomes_idle (Nat.le_succ _) (Cache.place_error hp), rfl⟩
    | ok s₀ =>
      obtain ⟨-, -, rfl, -⟩ := Cache.place_ok hp
      have hnone : a.segments.get? a.ids.issued = none := hnew _ (Nat.le_refl _)
      unfold registerCached at h
      simp only at h
      rw [register_new (by exact hnone)] at h
      cases (Prod.mk.inj h).1

/-! ## The static tier -/

/-- What became of a request for chunks that succeeded: pool `p` of batch `b`, which is one of
the batches, took the chunks that cover the segment. -/
structure Took (a : Allocator) (s : Segment) (b : Batch) (p p' : Pool) (offset : Nat) (a' : Allocator) :
    Prop where
  batch : a.batches[b.id]? = some b
  served : b.Served (b.putPool p') s p p' offset
  manager : s.manager = a.name
  fresh : a.ids.issued ≤ s.id
  drawn : s.id < a'.ids.issued
  after : a.Becomes ((a.ledger.setBatch (b.putPool p')).record s) a'

/-- What became of the static tier when no batch had room: ids were used up, and there may be a
new batch. -/
inductive Grown (a : Allocator) (shm : Shm) : Allocator → Shm → Prop
  | refused {a₁ : Allocator} {shm₁ : Shm} (after : a.Becomes a.ledger a₁)
      (memory : shm₁ = shm ∨ shm₁ = shm.unlink (staticRegionName a.name a.batches.length)) :
      Grown a shm a₁ shm₁
  | added {a₁ : Allocator} {shm₁ : Shm} {b : Batch}
      (made : Batch.create a.name a.batches.length a.config.geometry shm = (.ok b, shm₁))
      (after : a.Becomes (a.ledger.addBatch b) a₁)
      (drawn : (∃ c ∈ a.batches, c.pools ≠ []) → a.ids.issued < a₁.ids.issued) : Grown a shm a₁ shm₁

theorem askBatches_ok {batches : List Batch} {ids ids' : Counter} {b' : Batch}
    (hb : ∀ b ∈ batches, b.Sound) (h : askBatches n batches ids = (.ok (s, b'), ids')) :
    s.size = n ∧ ids.issued ≤ s.id ∧ ids'.issued = s.id + 1 ∧
      ∃ b ∈ batches, ∃ p p' offset, b.Served b' s p p' offset := by
  induction batches generalizing ids with
  | nil => cases h
  | cons b rest ih =>
    rw [askBatches] at h
    split at h
    · rename_i m ids₁ ha
      have hids := b.allocate_ids ids n
      rw [ha] at hids
      obtain ⟨hsize, hle, hlt, c, hc, hserved⟩ := ih (fun c hc => hb c (List.mem_cons_of_mem _ hc)) h
      exact ⟨hsize, Nat.le_trans hids hle, hlt, c, List.mem_cons_of_mem _ hc, hserved⟩
    · obtain ⟨hsize, hle, hlt, hserved⟩ := Batch.allocate_ok (hb b List.mem_cons_self) h
      exact ⟨hsize, hle, hlt, b, List.mem_cons_self, hserved⟩

theorem askBatches_ids (n : Nat) (batches : List Batch) (ids : Counter) :
    ids.issued ≤ (askBatches n batches ids).2.issued := by
  induction batches generalizing ids with
  | nil => exact Nat.le_refl _
  | cons b rest ih =>
    have hids := b.allocate_ids ids n
    rw [askBatches]
    split
    · rename_i m ids₁ ha
      rw [ha] at hids
      exact Nat.le_trans hids (ih _)
    · exact hids

/-- When no batch has room, at least one id was used up to find that out. -/
theorem askBatches_drawn {batches : List Batch} {ids ids' : Counter} {m : Nat}
    (hb : ∃ b ∈ batches, b.pools ≠ []) (h : askBatches n batches ids = (.error (.noMemory m), ids')) :
    ids.issued < ids'.issued := by
  induction batches generalizing ids with
  | nil =>
    obtain ⟨b, hb, -⟩ := hb
    exact absurd hb List.not_mem_nil
  | cons c rest ih =>
    rw [askBatches] at h
    split at h
    · rename_i k ids₁ ha
      by_cases hc : c.pools = []
      · have hids := c.allocate_ids ids n
        rw [ha] at hids
        obtain ⟨b, hb, hpools⟩ := hb
        rcases List.mem_cons.mp hb with rfl | hb
        · exact absurd hc hpools
        · exact Nat.lt_of_le_of_lt hids (ih ⟨b, hb, hpools⟩ h)
      · have hids := askBatches_ids n rest ids₁
        rw [h] at hids
        exact Nat.lt_of_lt_of_le (Batch.allocate_drawn hc ha) hids
    · rename_i hother
      exact absurd h (hother m ids')

section
variable {batches : List Batch} (hs : SoundBatches a.batches) (hsub : ∀ b ∈ batches, b ∈ a.batches)
  (hnew : a.Unissued)

include hs hsub hnew

theorem serveStatic_ok (h : a.serveStatic batches n shm = (.ok s, a', shm')) :
    s.size = n ∧ shm' = shm ∧ ∃ b p p' offset, a.Took s b p p' offset a' := by
  have hsound : ∀ b ∈ batches, a.batches[b.id]? = some b ∧ b.Sound := fun b hb =>
    sound_of_mem hs (hsub b hb)
  unfold serveStatic at h
  split at h
  · cases (Prod.mk.inj h).1
  rename_i s₀ b' ids hask
  obtain ⟨rfl, hle, hlt, b, hb, p, p', offset, hserved⟩ := askBatches_ok (fun b hb => (hsound b hb).2) hask
  obtain rfl := hserved.after
  have hnone : a.segments.get? s₀.id = none := hnew _ hle
  rw [register_new (by exact hnone), Prod.mk.injEq, Prod.mk.injEq, Except.ok.injEq] at h
  obtain ⟨rfl, rfl, rfl⟩ := h
  refine ⟨rfl, rfl, b, p, p', offset, (hsound b hb).1, ?_, rfl, hle, ?_, rfl, ?_, rfl, rfl, rfl, ?_⟩
  · exact ⟨hserved.pool, hserved.kind, hserved.fits, hserved.same, hserved.sound, hserved.free,
      hserved.taken, rfl⟩
  · show s₀.id < ids.issued
    omega
  · show a.ids.issued ≤ ids.issued
    omega
  · unfold ledger Ledger.record Ledger.setBatch putBatch
    rw [Table.get?_insert_eq]
    rfl

theorem serveStatic_error (h : a.serveStatic batches n shm = (.error e, a', shm')) :
    (∃ ids : Counter, a.ids.issued ≤ ids.issued ∧ a' = { a with ids }) ∧ shm' = shm := by
  unfold serveStatic at h
  split at h
  · rename_i e₀ ids hask
    have hids := askBatches_ids n batches a.ids
    rw [hask] at hids
    obtain ⟨-, rfl, rfl⟩ := by simpa using h
    exact ⟨⟨ids, hids, rfl⟩, rfl⟩
  · rename_i s₀ b' ids hask
    obtain ⟨-, hle, -⟩ := askBatches_ok (fun b hb => (sound_of_mem hs (hsub b hb)).2) hask
    have hnone : a.segments.get? s₀.id = none := hnew _ hle
    rw [register_new (by exact hnone)] at h
    cases (Prod.mk.inj h).1

theorem serveStatic_drawn {m : Nat} (hb : ∃ b ∈ batches, b.pools ≠ [])
    (h : a.serveStatic batches n shm = (.error (.noMemory m), a', shm')) : a.ids.issued < a'.ids.issued := by
  unfold serveStatic at h
  split at h
  · rename_i e₀ ids hask
    obtain ⟨he, rfl, -⟩ := by simpa using h
    rw [he] at hask
    exact askBatches_drawn hb hask
  · rename_i s₀ b' ids hask
    obtain ⟨-, hle, -⟩ := askBatches_ok (fun b hb => (sound_of_mem hs (hsub b hb)).2) hask
    have hnone : a.segments.get? s₀.id = none := hnew _ hle
    rw [register_new (by exact hnone)] at h
    cases (Prod.mk.inj h).1

end

theorem grow_ok {b : Batch} (h : a.grow shm = (.ok b, a', shm')) :
    Batch.create a.name a.batches.length a.config.geometry shm = (.ok b, shm') ∧
      a' = { a with batches := a.batches ++ [b] } := by
  unfold grow at h
  split at h
  · cases h
  · rename_i b₀ shm₀ hc
    simp only [Prod.mk.injEq, Except.ok.injEq] at h
    obtain ⟨rfl, rfl, rfl⟩ := h
    exact ⟨hc, rfl⟩

theorem grow_error (h : a.grow shm = (.error e, a', shm')) :
    a' = a ∧ (shm' = shm ∨ shm' = shm.unlink (staticRegionName a.name a.batches.length)) := by
  unfold grow at h
  split at h
  · rename_i e₀ shm₀ hc
    simp only [Prod.mk.injEq] at h
    obtain ⟨-, rfl, rfl⟩ := h
    exact ⟨rfl, Batch.create_error hc⟩
  · cases h

section
variable (hs : SoundBatches a.batches) (hnew : a.Unissued)

include hs hnew

/-- The second attempt, at the batch that was added. -/
theorem serveAdded {b : Batch} {ids : Counter} {r : Except Error Segment}
    (hids : a.ids.issued ≤ ids.issued)
    (hc : Batch.create a.name a.batches.length a.config.geometry shm = (.ok b, shm'))
    (h : { a with ids, batches := a.batches ++ [b] }.serveStatic [b] n shm' = (r, a', shm'')) :
    shm'' = shm' ∧ match r with
      | .ok s => s.size = n ∧ ∃ c p p' offset,
          Took { a with ids, batches := a.batches ++ [b] } s c p p' offset a'
      | .error _ => a.Becomes (a.ledger.addBatch b) a' ∧ ids.issued ≤ a'.ids.issued := by
  have hs' : SoundBatches (a.batches ++ [b]) := by
    obtain ⟨hid, -, hb, -⟩ := Batch.create_sound hc
    exact sound_append hs hid hb
  have hsub : ∀ c ∈ [b], c ∈ a.batches ++ [b] := fun c hc => List.mem_append_right _ hc
  have hnew' : Unissued { a with ids, batches := a.batches ++ [b] } := fun k hk =>
    hnew k (Nat.le_trans hids hk)
  cases r with
  | ok s =>
    obtain ⟨hsize, hshm, htook⟩ := serveStatic_ok hs' hsub hnew' h
    exact ⟨hshm, hsize, htook⟩
  | error e =>
    obtain ⟨⟨ids', hids', rfl⟩, hshm⟩ := serveStatic_error hs' hsub hnew' h
    exact ⟨hshm, ⟨rfl, Nat.le_trans hids hids', rfl, rfl, rfl, rfl⟩, hids'⟩

/-- A request for chunks that succeeds is served by a batch that was there, or by a new one. -/
theorem staticAlloc_ok (h : a.staticAlloc n shm = (.ok s, a', shm')) :
    s.size = n ∧ ∃ a₁, a.Grown shm a₁ shm' ∧ ∃ b p p' offset, a₁.Took s b p p' offset a' := by
  unfold staticAlloc at h
  split at h
  · rename_i m a₁ shm₁ hserve
    have hdrawn := fun hb => serveStatic_drawn hs (fun _ => id) hnew hb hserve
    obtain ⟨⟨ids, hids, rfl⟩, rfl⟩ := serveStatic_error hs (fun _ => id) hnew hserve
    split at h
    · cases (Prod.mk.inj h).1
    · rename_i b a₂ shm₂ hgrow
      obtain ⟨hc, rfl⟩ := grow_ok hgrow
      obtain ⟨rfl, hsize, htook⟩ := serveAdded hs hnew hids hc h
      exact ⟨hsize, { a with ids, batches := a.batches ++ [b] },
        .added hc ⟨rfl, hids, rfl, rfl, rfl, rfl⟩ hdrawn, htook⟩
  · obtain ⟨hsize, rfl, htook⟩ := serveStatic_ok hs (fun _ => id) hnew h
    exact ⟨hsize, a, .refused (.refl a) (Or.inl rfl), htook⟩

theorem staticAlloc_error (h : a.staticAlloc n shm = (.error e, a', shm')) : a.Grown shm a' shm' := by
  unfold staticAlloc at h
  split at h
  · rename_i m a₁ shm₁ hserve
    have hdrawn := fun hb => serveStatic_drawn hs (fun _ => id) hnew hb hserve
    obtain ⟨⟨ids, hids, rfl⟩, rfl⟩ := serveStatic_error hs (fun _ => id) hnew hserve
    split at h
    · rename_i e₁ a₂ shm₂ hgrow
      obtain ⟨rfl, hmem⟩ := grow_error hgrow
      simp only [Prod.mk.injEq] at h
      obtain ⟨-, rfl, rfl⟩ := h
      exact .refused (becomes_draw hids) hmem
    · rename_i b a₂ shm₂ hgrow
      obtain ⟨hc, rfl⟩ := grow_ok hgrow
      obtain ⟨rfl, hafter, hids'⟩ := serveAdded hs hnew hids hc h
      exact .added hc hafter fun hb => Nat.lt_of_lt_of_le (hdrawn hb) hids'
  · obtain ⟨⟨ids, hids, rfl⟩, rfl⟩ := serveStatic_error hs (fun _ => id) hnew h
    exact .refused (becomes_draw hids) (Or.inl rfl)

end

/-! ## Regions of their own -/

/-- What became of a request for a region that succeeded. -/
structure Mapped (a : Allocator) (shm : Shm) (s : Segment) (r : Region) (a' : Allocator) (shm' : Shm) :
    Prop where
  kind : s.kind = .ephemeral
  manager : s.manager = a.name
  fresh : s.id = a.ids.issued
  drawn : s.id < a'.ids.issued
  absent : a.ledger.regions s.id = none
  made : Shm.Made (ephemeralRegionName a.ephemeral.manager s.id) s.size shm r shm'
  after : a.Becomes ((a.ledger.setRegion s.id (some r)).record s) a'

theorem instantAlloc_eq (a : Allocator) (n : Nat) (shm : Shm) : a.instantAlloc n shm =
    match a.ephemeral.serve a.ids.issued n shm with
    | (.error e, shm) => (.error e, { a with ids := a.ids.draw.2 }, shm)
    | (.ok (s, ephemeral), shm) => { a with ids := a.ids.draw.2, ephemeral }.register s shm := by
  unfold instantAlloc Ephemeral.allocate
  rw [Counter.draw_fst]
  cases a.ephemeral.serve a.ids.issued n shm with
  | mk r shm' => cases r <;> rfl

theorem instantAlloc_ok (hnew : a.Unissued) (h : a.instantAlloc n shm = (.ok s, a', shm')) :
    s.size = n ∧ ∃ r, a.Mapped shm s r a' shm' := by
  rw [instantAlloc_eq] at h
  split at h
  · cases (Prod.mk.inj h).1
  rename_i s₀ ephemeral shm₁ hserve
  obtain ⟨rfl, habsent, r, hmade, rfl⟩ := Ephemeral.serve_ok hserve
  have hnone : a.segments.get? a.ids.issued = none := hnew _ (Nat.le_refl _)
  rw [register_new (by exact hnone), Prod.mk.injEq, Prod.mk.injEq, Except.ok.injEq] at h
  obtain ⟨rfl, rfl, rfl⟩ := h
  refine ⟨rfl, r, rfl, rfl, rfl, Nat.lt_succ_self _, habsent, hmade, rfl, Nat.le_succ _, rfl, rfl, rfl, ?_⟩
  unfold ledger Ledger.record Ledger.setRegion Ephemeral.region?
  rw [Table.get?_insert_eq, Table.get?_insert_eq]
  rfl

theorem instantAlloc_error (hnew : a.Unissued) (hfree : a.ledger.regions a.ids.issued = none)
    (h : a.instantAlloc n shm = (.error e, a', shm')) : a.Becomes a.ledger a' ∧
      (shm' = shm ∨ shm' = shm.unlink (ephemeralRegionName a.ephemeral.manager a.ids.issued)) := by
  rw [instantAlloc_eq] at h
  split at h
  · rename_i e₀ shm₁ hserve
    simp only [Prod.mk.injEq] at h
    obtain ⟨-, rfl, rfl⟩ := h
    exact ⟨becomes_draw (Nat.le_succ _), Ephemeral.serve_error hfree hserve⟩
  · rename_i s₀ ephemeral shm₁ hserve
    obtain ⟨rfl, -⟩ := Ephemeral.serve_ok hserve
    have hnone : a.segments.get? a.ids.issued = none := hnew _ (Nat.le_refl _)
    rw [register_new (by exact hnone)] at h
    cases (Prod.mk.inj h).1

end Allocator
end TierAlloc
