import TierAlloc.Proofs.Ids.Allocators

/-!
# Sizes by the events

The size of a segment stands in the table of the allocator. For a cache segment there is also the
length of its entry. `Sizes` is both, and what an operation makes of them can be told from its
event alone: its answer, and the tier that the table says.

**Results.**
* `Request.granted_sizes`: a segment that is granted, in whichever tier, has a byte at least.
* `System.Step.sizes`: every step of an allocator does to the sizes what its event says.
-/
namespace TierAlloc

open Function (update)

/-- The sizes of segments and entries. -/
structure Sizes where
  /-- Tier and size of each segment in the table. -/
  recorded : Nat → Option (Tier × Nat)
  /-- Length of each entry of the cache. -/
  stored : Nat → Option Nat

namespace Sizes

def empty : Sizes := ⟨fun _ => none, fun _ => none⟩

/-- A cache segment of `n` bytes, with its entry. -/
def put (m : Sizes) (id n : Nat) : Sizes :=
  ⟨update m.recorded id (some (.cache, n)), update m.stored id (some n)⟩

theorem put_recorded (m : Sizes) (id n : Nat) : (m.put id n).recorded id = some (.cache, n) :=
  Function.update_self ..

theorem put_stored (m : Sizes) (id n : Nat) : (m.put id n).stored id = some n := Function.update_self ..

/-- A new segment. -/
def grant (m : Sizes) (s : Segment) : Sizes :=
  if s.tier = .cache then m.put s.id s.size
  else { m with recorded := update m.recorded s.id (some (s.tier, s.size)) }

theorem grant_recorded (m : Sizes) (s : Segment) :
    (m.grant s).recorded = update m.recorded s.id (some (s.tier, s.size)) := by
  unfold grant
  split
  · rename_i ht
    rw [put, ht]
  · rfl

/-- Without a segment of the table, and without its entry if it is a cache segment. -/
def forget (m : Sizes) (id : Nat) : Sizes where
  recorded := update m.recorded id none
  stored :=
    match m.recorded id with
    | some (.cache, _) => update m.stored id none
    | _ => m.stored

end Sizes

namespace Ledger

variable {l : Ledger} {s : Segment} {bytes : Bytes} {n : Nat}

/-- The sizes that a ledger shows. -/
def sizes (l : Ledger) : Sizes where
  recorded := Option.map (fun s => (s.tier, s.size)) ∘ l.segments
  stored := Option.map List.length ∘ l.contents

theorem sizes_record (l : Ledger) (s : Segment) :
    (l.record s).sizes = { l.sizes with recorded := update l.sizes.recorded s.id (some (s.tier, s.size)) } := by
  simp only [sizes, record, Function.comp_update, Option.map_some]

theorem sizes_put (ht : s.tier = .cache) (hn : s.size = bytes.length) :
    ((l.setContents s.id (some bytes)).record s).sizes = l.sizes.put s.id s.size := by
  rw [sizes_record]
  simp only [sizes, setContents, Sizes.put, Function.comp_update, Option.map_some, ht, hn]

/-- Other bytes of the same length. -/
theorem sizes_edit {id : Nat} (hlive : l.contents id = some bytes) {bytes' : Bytes}
    (hn : bytes'.length = bytes.length) : (l.setContents id (some bytes')).sizes = l.sizes := by
  have hsame : update l.sizes.stored id (some bytes'.length) = l.sizes.stored := by
    rw [hn, Function.update_eq_self_iff]
    simp only [sizes, Function.comp_apply, hlive, Option.map_some]
  simp only [sizes, setContents, Function.comp_update, Option.map_some]
  exact congrArg (Sizes.mk _) hsame

theorem sizes_forget (ht : s.tier ≠ .cache) (hlive : l.segments s.id = some s) :
    (l.forget s.id).sizes = l.sizes.forget s.id := by
  have hrecorded : l.sizes.recorded s.id = some (s.tier, s.size) := by
    simp only [sizes, Function.comp_apply, hlive, Option.map_some]
  unfold Sizes.forget
  rw [hrecorded]
  split
  · rename_i he
    exact absurd (congrArg Prod.fst (Option.some.inj he)) ht
  · simp only [sizes, forget, Function.comp_update, Option.map_none]

theorem sizes_forget_entry (ht : s.tier = .cache) (hlive : l.segments s.id = some s) :
    ((l.setContents s.id none).forget s.id).sizes = l.sizes.forget s.id := by
  have hrecorded : l.sizes.recorded s.id = some (.cache, s.size) := by
    simp only [sizes, Function.comp_apply, hlive, Option.map_some, ht]
  unfold Sizes.forget
  rw [hrecorded]
  simp only [sizes, setContents, forget, Function.comp_update, Option.map_none]

end Ledger

/-! ## Requests for chunks -/

/-- The segment is one of chunks that was asked for with `n` bytes. -/
structure Segment.Chunks (s : Segment) (n : Nat) : Prop where
  tier : s.tier = .static
  size : s.size = n
  pos : 0 < n

section
variable {p p' : Pool} {b b' : Batch} {a a' : Allocator} {ids ids' : Counter} {s : Segment} {n id : Nat}
  {shm shm' : Shm}

theorem Segment.Chunks.stamp (h : s.Chunks n) (manager : String) : (s.stamp manager).Chunks n :=
  ⟨h.tier, h.size, h.pos⟩

theorem Segment.Chunks.inBatch (h : s.Chunks n) (batch : Nat) : (s.inBatch batch).Chunks n := by
  unfold Segment.inBatch
  split
  · exact ⟨rfl, h.size, h.pos⟩
  · exact h

theorem Pool.serve_chunks (h : p.serve id n = .ok (s, p')) : s.Chunks n := by
  obtain ⟨start, hr, -, rfl⟩ := serve_eq_ok.mp h
  exact ⟨rfl, rfl, (reserve_eq_ok.mp hr).1⟩

theorem Batch.askPools_chunks {pools : List Pool} (h : Batch.askPools n pools ids = (.ok (s, p), ids')) :
    s.Chunks n := by
  induction pools generalizing ids with
  | nil => cases h
  | cons q rest ih =>
    rw [askPools] at h
    split at h
    · exact ih h
    · exact Pool.serve_chunks (Prod.mk.inj h).1

theorem Batch.allocate_chunks (h : b.allocate ids n = (.ok (s, b'), ids')) : s.Chunks n := by
  unfold allocate at h
  split at h
  · cases h
  split at h
  · cases h
  · rename_i hask
    obtain ⟨rfl, -⟩ := Prod.mk.inj (Except.ok.inj (Prod.mk.inj h).1)
    exact ((askPools_chunks hask).inBatch _).stamp _

namespace Allocator

theorem askBatches_chunks {batches : List Batch} (h : askBatches n batches ids = (.ok (s, b), ids')) :
    s.Chunks n := by
  induction batches generalizing ids with
  | nil => cases h
  | cons c rest ih =>
    rw [askBatches] at h
    split at h
    · exact ih h
    · exact Batch.allocate_chunks h

theorem register_ok (h : a.register s shm = (.ok s', a', shm')) : s' = s.stamp a.name := by
  unfold register at h
  simp only at h
  split at h
  · split at h <;> cases (Prod.mk.inj h).1
  · exact (Except.ok.inj (Prod.mk.inj h).1).symm

theorem serveStatic_chunks {batches : List Batch} (h : a.serveStatic batches n shm = (.ok s, a', shm')) :
    s.Chunks n := by
  unfold serveStatic at h
  split at h
  · cases (Prod.mk.inj h).1
  · rename_i hask
    rw [register_ok h]
    exact (askBatches_chunks hask).stamp _

theorem staticAlloc_chunks (h : a.staticAlloc n shm = (.ok s, a', shm')) : s.Chunks n := by
  unfold staticAlloc at h
  split at h
  · split at h
    · cases (Prod.mk.inj h).1
    · exact serveStatic_chunks h
  · exact serveStatic_chunks h

end Allocator

end

/-! ## Requests and replacements -/

namespace Allocator

variable {a a' : Allocator} {shm shm' : Shm} {s : Segment} {bytes : Bytes} {l : Ledger}

theorem Becomes.sizes (hb : a.Becomes l a') : a'.ledger.sizes = l.sizes := congrArg Ledger.sizes hb.ledger

theorem Stored.sizes (h : a.Stored shm s bytes a' shm') : a'.ledger.sizes = a.ledger.sizes.put s.id s.size :=
  h.after.sizes.trans (Ledger.sizes_put (Segment.tier_of_cache h.kind) h.size)

theorem Stored.grants (h : a.Stored shm s bytes a' shm') : a'.ledger.sizes = a.ledger.sizes.grant s := by
  rw [Sizes.grant, if_pos (Segment.tier_of_cache h.kind), h.sizes]

end Allocator

namespace Request

variable {a a' : Allocator} {shm shm' : Shm} {s : Segment} {e : Error} {r : Request} {t : Traffic}
  {fills : List Fill} (hi : a.Indexed) (ho : (a.holding t fills).Orderly a.ids)

include hi ho

/-- A segment that is granted is not empty. -/
theorem granted_sizes (h : r.apply a shm = (.ok s, a', shm')) :
    0 < s.size ∧ a'.ledger.sizes = a.ledger.sizes.grant s := by
  have hnew := Allocator.unissued_of_orderly ho
  have hstatic : ∀ {n}, a.staticAlloc n shm = (.ok s, a', shm') →
      0 < s.size ∧ a'.ledger.sizes = a.ledger.sizes.grant s := by
    intro n h
    have hchunks := Allocator.staticAlloc_chunks h
    obtain ⟨batches, hb⟩ := (Allocator.staticAlloc_chunked hi.uniform hnew h).after
    refine ⟨hchunks.size ▸ hchunks.pos, ?_⟩
    rw [Sizes.grant, if_neg (by rw [hchunks.tier]; nofun), hb.sizes]
    exact Ledger.sizes_record { a.ledger with batches } s
  have hinstant : ∀ {n}, a.instantAlloc n shm = (.ok s, a', shm') →
      0 < s.size ∧ a'.ledger.sizes = a.ledger.sizes.grant s := by
    intro n h
    obtain ⟨-, region, hm⟩ := Allocator.instantAlloc_ok hnew h
    refine ⟨hm.made.positive, ?_⟩
    rw [Sizes.grant, if_neg (by rw [Segment.tier_of_ephemeral hm.kind]; nofun), hm.after.sizes]
    exact Ledger.sizes_record (a.ledger.setRegion s.id (some region)) s
  have hcache : ∀ {n content}, a.cacheStoreWith n content shm = (.ok s, a', shm') →
      0 < s.size ∧ a'.ledger.sizes = a.ledger.sizes.grant s := by
    intro n content h
    obtain ⟨-, hn, hs⟩ := Allocator.cacheStoreWith_ok hnew h
    refine ⟨?_, hs.grants⟩
    rwa [hs.size, Bytes.length_overlay, Bytes.length_zeros]
  cases r with
  | allocate n =>
    unfold apply Allocator.allocate at h
    cases hc : a.classify n <;> simp only [hc] at h
    · exact hstatic h
    · exact hcache (show a.cacheStoreWith n [] shm = _ from h)
    · exact hinstant h
  | staticAlloc n => exact hstatic h
  | instantAlloc n => exact hinstant h
  | cacheMalloc n => exact hcache (show a.cacheStoreWith n [] shm = _ from h)
  | cacheStore data =>
    obtain ⟨-, hn, hs⟩ := Allocator.cacheStore_ok hnew h
    exact ⟨hs.size ▸ hn, hs.grants⟩
  | cacheStoreWith n content => exact hcache h

theorem refused_sizes (h : r.apply a shm = (.error e, a', shm')) : a'.ledger.sizes = a.ledger.sizes := by
  have hnew := Allocator.unissued_of_orderly ho
  have hstatic : ∀ {n}, a.staticAlloc n shm = (.error e, a', shm') → a'.ledger.sizes = a.ledger.sizes := by
    intro n h
    obtain ⟨batches, hb⟩ := (Allocator.staticAlloc_chunked hi.uniform hnew h).after
    exact hb.sizes
  have hinstant : ∀ {n}, a.instantAlloc n shm = (.error e, a', shm') → a'.ledger.sizes = a.ledger.sizes :=
    fun h => (Allocator.instantAlloc_error hnew (Allocator.regions_none ho (Nat.le_refl _)) h).1.sizes
  have hcache : ∀ {n content}, a.cacheStoreWith n content shm = (.error e, a', shm') →
      a'.ledger.sizes = a.ledger.sizes := fun h => (Allocator.cacheStoreWith_error hnew h).1.sizes
  cases r with
  | allocate n =>
    unfold apply Allocator.allocate at h
    cases hc : a.classify n <;> simp only [hc] at h
    · exact hstatic h
    · exact hcache (show a.cacheStoreWith n [] shm = _ from h)
    · exact hinstant h
  | staticAlloc n => exact hstatic h
  | instantAlloc n => exact hinstant h
  | cacheMalloc n => exact hcache (show a.cacheStoreWith n [] shm = _ from h)
  | cacheStore data => exact (Allocator.cacheStore_error hnew h).1.sizes
  | cacheStoreWith n content => exact hcache h

end Request

namespace Replacement

variable {a a' : Allocator} {r : Replacement}

/-- What an entry is replaced by is not empty. -/
theorem ok_sizes (hown : ∀ s, a.ledger.segments r.id = some s → s.id = r.id) (h : r.apply a = (.ok (), a')) :
    0 < r.content.length ∧ a'.ledger.sizes = a.ledger.sizes.put r.id r.content.length := by
  have hpos : 0 < r.content.length := by
    cases r with
    | set id data => exact (Allocator.cacheSet_ok hown h).1
    | setWith id size content =>
      simpa [Replacement.content] using (Allocator.cacheSetWith_ok hown h).1
  obtain ⟨s, -, hid, ht, hb⟩ := ok hown h
  refine ⟨hpos, hb.sizes.trans ?_⟩
  rw [← hid]
  exact Ledger.sizes_put (s := { s with size := r.content.length }) ht rfl

end Replacement

/-! ## Steps of an allocator -/

namespace System

/-- What an event makes of the sizes. -/
def Event.sizes (m : Sizes) : Event → Sizes
  | granted _ s _ => m.grant s
  | replace r (.ok ()) => m.put r.id r.content.length
  | release id _ (.ok ()) => m.forget id
  | await k (.ok s) =>
    match k.pending.direction with
    | .inbound => m.put s.id s.size
    | .outbound => m
  | _ => m

/-- A request that is granted, or a replacement that is made, is one of some bytes. -/
def Event.Filled : Event → Prop
  | granted _ s _ => 0 < s.size
  | replace r (.ok ()) => 0 < r.content.length
  | _ => True

variable {allowed : Traffic → Descriptor → Prop} {s s' : System} {e : Event} {fills : List Fill}
  (hi : s.allocator.Indexed) (ho : (s.allocator.holding s.traffic fills).Orderly s.allocator.ids)

include hi ho

/-- Every step of an allocator does to the sizes what its event says. -/
theorem Step.sizes (hs : Step allowed s e s') :
    e.Filled ∧ s'.allocator.ledger.sizes = e.sizes s.allocator.ledger.sizes := by
  cases hs with
  | granted hr => exact Request.granted_sizes hi ho hr
  | refused hr => exact ⟨trivial, Request.refused_sizes hi ho hr⟩
  | @replace r answer a hr =>
    cases answer with
    | error e => exact ⟨trivial, (Replacement.error hr).sizes⟩
    | ok u => exact Replacement.ok_sizes (hi.own r.id) hr
  | @released id expected a shm hr =>
    obtain ⟨seg, hlive, rfl, -, hf⟩ := Allocator.release_ok (hi.own id) hr
    refine ⟨trivial, ?_⟩
    cases hf with
    | @chunks b p p' _ hkind _ _ _ hafter =>
      have ht : seg.tier ≠ .cache := by
        rw [Segment.tier_of_static hkind]
        nofun
      exact hafter.sizes.trans (Ledger.sizes_forget (l := s.allocator.ledger.setBatch _) ht hlive)
    | region hkind _ hafter =>
      have ht : seg.tier ≠ .cache := by
        rw [Segment.tier_of_ephemeral hkind]
        nofun
      exact hafter.sizes.trans (Ledger.sizes_forget (l := s.allocator.ledger.setRegion _ _) ht hlive)
    | entry ht hafter => exact hafter.sizes.trans (Ledger.sizes_forget_entry ht hlive)
  | @written id offset data a shm hw =>
    refine ⟨trivial, ?_⟩
    rcases Allocator.write_cases hw with rfl | ⟨bytes, cache, hc, rfl, hb⟩
    · rfl
    · refine Eq.trans ?_ (Ledger.sizes_edit (l := s.allocator.ledger) hc (Bytes.length_splice bytes offset data))
      unfold Allocator.ledger Ledger.setContents
      rw [hb.contents]
  | askMalloc hask => exact ⟨trivial, (Allocator.offerMalloc_ids hask).sizes⟩
  | denyMalloc hask => exact ⟨trivial, (Allocator.offerMalloc_ids hask).sizes⟩
  | @await pre k post r a shm ht ha =>
    refine ⟨trivial, ?_⟩
    cases r with
    | error e => exact (Allocator.await_error (await_free ho ht) ha).1.sizes
    | ok seg =>
      obtain ⟨s₀, cache, -, ⟨hd, hb⟩ | ⟨hd, -, bytes, -, hstored⟩⟩ := Allocator.await_ok (await_free ho ht)
        (fun hd => ho.lt _ (mem_setAside ht hd fills)) ha
      · simp only [Event.sizes, hd]
        exact hb.sizes
      · simp only [Event.sizes, hd]
        exact hstored.sizes
  | _ => exact ⟨trivial, rfl⟩

end System
end TierAlloc
