import TierAlloc.Proofs.Ids.Allocators

/-!
# Families

All who draw from one counter are a `Family`: pools, batches, ephemeral tiers and caches on
their own, and allocators with all their tiers, whose cache and whose ephemeral tier may also
be worked on directly. They take turns in any order. A call that waits or calls back is cut
where it does, and whatever may happen meanwhile are turns in between; what becomes of shared
memory is left open, since no id depends on it.

The counter of a family is counted without end, where one of 64 bits starts again after 2^64
ids. Up to there the two agree, since all ids are 64-bit numbers (`Disciplined.word`).

**Results.**
* `Member.Step.moves`: every turn is a move of the ids of the member that has it.
* `Numbered.step`: every step of a family keeps the ids of its members apart.
* `id_discipline`: which ids segments have, how many are drawn, and that none is taken.
-/
namespace TierAlloc

open Holding

/-! ## Members -/

/-- Who draws from a counter. The counter that an allocator has itself does not matter. -/
inductive Member where
  | pool (p : Pool)
  | batch (b : Batch)
  | ephemeral (m : Ephemeral)
  | channel (c : Cache) (t : Traffic) (fills : List Fill)
  | allocator (a : Allocator) (t : Traffic) (fills : List Fill)

/-- A member that has its turn, with the counter and the shared memory. -/
structure Turn where
  ids : Counter
  shm : Shm
  member : Member

namespace Member

inductive Event where
  /-- A request to a pool. -/
  | chunk (n : Nat) (answer : Except Error Segment)
  /-- A request to a batch. -/
  | chunks (n : Nat) (answer : Except Error Segment)
  /-- A request to an ephemeral tier. -/
  | region (n : Nat) (answer : Except Error Segment)
  /-- What is given back to one of these. -/
  | back
  | cache (e : Working.Event)
  | allocator (e : System.Event)
  /-- The end of a callback for a new entry of an allocator. -/
  | filled (f : Fill) (answer : Except Error Segment)
  /-- The end of a callback for an entry of an allocator that is replaced. -/
  | replaced (f : Fill) (answer : Except Error Unit)

/-- The turns of an ephemeral tier. -/
inductive Regions : Counter → Shm → Ephemeral → Event → Counter → Shm → Ephemeral → Prop
  | made {ids shm m n s m' ids' shm'} (h : m.allocate ids n shm = (.ok (s, m'), ids', shm')) :
      Regions ids shm m (.region n (.ok s)) ids' shm' m'
  | refused {ids shm m n e ids' shm'} (h : m.allocate ids n shm = (.error e, ids', shm')) :
      Regions ids shm m (.region n (.error e)) ids' shm' m
  | freed {ids shm m s m' shm'} (h : m.free s shm = .ok (m', shm')) : Regions ids shm m .back ids shm' m'
  | cleared {ids shm m} : Regions ids shm m .back ids (m.clear shm).2 (m.clear shm).1

inductive Step : Turn → Event → Turn → Prop
  | chunk {ids shm p n s p' ids'} (h : p.allocate ids n = (.ok (s, p'), ids')) :
      Step ⟨ids, shm, .pool p⟩ (.chunk n (.ok s)) ⟨ids', shm, .pool p'⟩
  | noChunk {ids shm p n e ids'} (h : p.allocate ids n = (.error e, ids')) :
      Step ⟨ids, shm, .pool p⟩ (.chunk n (.error e)) ⟨ids', shm, .pool (p.afterFailure n)⟩
  | chunkFreed {ids shm p offset size p'} (h : p.freeRange offset size = .ok p') :
      Step ⟨ids, shm, .pool p⟩ .back ⟨ids, shm, .pool p'⟩
  | poolCleared {ids shm p} : Step ⟨ids, shm, .pool p⟩ .back ⟨ids, shm, .pool p.clear⟩
  | chunks {ids shm b n s b' ids'} (h : b.allocate ids n = (.ok (s, b'), ids')) :
      Step ⟨ids, shm, .batch b⟩ (.chunks n (.ok s)) ⟨ids', shm, .batch b'⟩
  | noChunks {ids shm b n e ids'} (h : b.allocate ids n = (.error e, ids')) :
      Step ⟨ids, shm, .batch b⟩ (.chunks n (.error e)) ⟨ids', shm, .batch b⟩
  | chunksFreed {ids shm b s b'} (h : b.free s = .ok b') :
      Step ⟨ids, shm, .batch b⟩ .back ⟨ids, shm, .batch b'⟩
  | batchCleared {ids shm b} : Step ⟨ids, shm, .batch b⟩ .back ⟨ids, shm, .batch b.clear⟩
  | regions {ids shm m e ids' shm' m'} (h : Regions ids shm m e ids' shm' m') :
      Step ⟨ids, shm, .ephemeral m⟩ e ⟨ids', shm', .ephemeral m'⟩
  | cache {ids shm c t fills e ids' shm' c' t' fills'}
      (h : Working.Step c.manager (fun _ _ => True) ⟨⟨c, ids, shm, t⟩, fills⟩ e
        ⟨⟨c', ids', shm', t'⟩, fills'⟩) :
      Step ⟨ids, shm, .channel c t fills⟩ (.cache e) ⟨ids', shm', .channel c' t' fills'⟩
  | allocator {ids shm a t fills e a' shm' t'}
      (h : System.Step (fun _ _ => True) ⟨{ a with ids }, shm, t⟩ e ⟨a', shm', t'⟩) :
      Step ⟨ids, shm, .allocator a t fills⟩ (.allocator e) ⟨a'.ids, shm', .allocator a' t' fills⟩
  /-- Direct use of an allocator's cache. The callbacks of the allocator itself begin so, too. -/
  | itsCache {ids shm a t fills e ids' shm' c' t' fills'}
      (h : Working.Step a.name (fun _ _ => True) ⟨⟨a.cache, ids, shm, t⟩, fills⟩ e
        ⟨⟨c', ids', shm', t'⟩, fills'⟩) :
      Step ⟨ids, shm, .allocator a t fills⟩ (.cache e)
        ⟨ids', shm', .allocator { a with cache := c' } t' fills'⟩
  /-- Direct use of an allocator's ephemeral tier. -/
  | itsRegions {ids shm a t fills e ids' shm' m'} (h : Regions ids shm a.ephemeral e ids' shm' m') :
      Step ⟨ids, shm, .allocator a t fills⟩ e ⟨ids', shm', .allocator { a with ephemeral := m' } t fills⟩
  /-- An entry that a callback has filled is put in place, and recorded. -/
  | filled {ids shm a t pre f post content answer cache r a' shm'} (hp : f.purpose = .store)
      (hf : f.finish a.cache content = (answer, cache))
      (h : { a with ids }.registerCached
        (answer.map fun _ => a.cache.entrySegment f.id f.buffer.size, cache, ids) shm = (r, a', shm')) :
      Step ⟨ids, shm, .allocator a t (pre ++ f :: post)⟩ (.filled f r)
        ⟨a'.ids, shm', .allocator a' t (pre ++ post)⟩
  /-- An entry that a callback has filled takes the place of another. -/
  | replaced {ids shm a t pre f post content answer a'} (hp : f.purpose = .replace)
      (h : { a with ids }.replaceEntry f.id f.buffer.size (fun c => f.finish c content) = (answer, a')) :
      Step ⟨ids, shm, .allocator a t (pre ++ f :: post)⟩ (.replaced f answer)
        ⟨a'.ids, shm, .allocator a' t (pre ++ post)⟩

/-- A member as it is made. -/
inductive Made (shm : Shm) : Member → Shm → Prop
  | pool {id chunkSize chunkCount base p} (h : Pool.create id chunkSize chunkCount base = .ok p) :
      Made shm (.pool p) shm
  | batch {manager id g b shm'} (h : Batch.create manager id g shm = (.ok b, shm')) : Made shm (.batch b) shm'
  | ephemeral (manager : String) : Made shm (.ephemeral (.ofManager manager)) shm
  | channel {manager mode capacity c shm'} (h : Cache.create manager mode capacity shm = (.ok c, shm')) :
      Made shm (.channel c .empty []) shm'
  | allocator {config a shm'} (h : Allocator.create config shm = (.ok a, shm')) :
      Made shm (.allocator a .empty []) shm'

/-! ## What members do to ids -/

/-- The ids that a member holds. Pools and batches keep none. -/
def holding : Member → Holding
  | pool _ | batch _ => ⟨[], fun _ => False⟩
  | ephemeral m => ⟨[], fun id => m.region? id ≠ none⟩
  | channel c t fills => ⟨TierAlloc.setAside t fills, fun id => c.contents? id ≠ none⟩
  | allocator a t fills => ⟨TierAlloc.setAside t fills, fun id =>
      a.segments.get? id ≠ none ∨ a.cache.contents? id ≠ none ∨ a.ephemeral.region? id ≠ none⟩

/-- The member finds what it holds. -/
def Indexed : Member → Prop
  | allocator a _ _ => a.Indexed
  | _ => True

namespace Event

/-- The id that is set aside, for a segment that is to be made later. -/
def aside? : Event → Option Nat
  | cache e => e.aside?
  | allocator e => e.aside?
  | _ => none

/-- What a call answers that is to make a segment, with the id of one that is made. -/
def outcome? : Event → Option (Except Error (Option Nat))
  | chunk _ answer | chunks _ answer | region _ answer | filled _ answer => some (answer.map fun s => some s.id)
  | replaced _ answer => some (answer.map fun _ => none)
  | cache e => e.outcome?
  | allocator e => e.outcome?
  | back => none

/-- The id of the segment that is made. -/
def made? (e : Event) : Option Nat :=
  match e.outcome? with
  | some (.ok made) => made
  | _ => none

end Event

/-- How many ids an event draws, but for requests to an allocator for chunks that are looked for. -/
def draws? (m : Member) : Event → Option Nat
  | .chunk .. | .region .. => some 1
  | .chunks n _ =>
    match m with
    | .batch b => some (if b.sizeLimit < n then 0 else (b.tried n).length)
    | _ => none
  | .back | .filled .. | .replaced .. => some 0
  | .cache e => some e.draws
  | .allocator e =>
    match m with
    | .allocator a .. => e.draws? a
    | _ => none

section
variable {T T' : Turn} {e : Event} {ids ids' : Counter} {shm shm' : Shm} {m m' : Ephemeral}

/-- What an ephemeral tier does to ids. -/
theorem regions_made (hr : Regions ids shm m e ids' shm' m') : e.aside? = none ∧ ids.issued ≤ ids'.issued ∧
    (∀ id, e.made? = some id → ids.issued ≤ id ∧ id < ids'.issued) ∧
    ∀ k, m'.region? k ≠ none → m.region? k ≠ none ∨ e.made? = some k := by
  cases hr with
  | made h =>
    obtain ⟨rfl, hserve⟩ := Ephemeral.allocate_serve h
    obtain ⟨rfl, -, r, -, rfl⟩ := Ephemeral.serve_ok hserve
    refine ⟨rfl, Nat.le_succ _, fun id hid => ?_, fun k hk => ?_⟩
    · obtain rfl : ids.issued = id := Option.some.inj hid
      exact ⟨Nat.le_refl _, Nat.lt_succ_self _⟩
    · have hk : (m.regions.insert ids.issued r).get? k ≠ none := hk
      rw [Table.get?_insert_eq] at hk
      exact update_ne_none hk
  | refused h =>
    obtain ⟨rfl, -⟩ := Ephemeral.allocate_serve h
    exact ⟨rfl, Nat.le_succ _, nofun, fun _ => Or.inl⟩
  | freed h =>
    obtain ⟨-, r, -, rfl, -⟩ := Ephemeral.free_ok h
    refine ⟨rfl, Nat.le_refl _, nofun, fun k hk => ?_⟩
    have hk : (m.regions.erase _).get? k ≠ none := hk
    rw [Table.get?_erase_eq, Function.update_apply] at hk
    split at hk
    · exact absurd rfl hk
    · exact Or.inl hk
  | cleared => exact ⟨rfl, Nat.le_refl _, nofun, fun k hk => absurd rfl hk⟩

theorem regions_draws (hr : Regions ids shm m e ids' shm' m') (mem : Member) {k : Nat}
    (hk : mem.draws? e = some k) : ids'.issued = ids.issued + k := by
  have hone : ∀ {n : Nat} {answer : Except Error Segment} {served},
      m.allocate ids n shm = (served, ids', shm') → mem.draws? (.region n answer) = some k →
      ids'.issued = ids.issued + k := by
    intro n answer served h hk
    obtain ⟨rfl, -⟩ := Ephemeral.allocate_serve h
    rw [← Option.some.inj hk]
    rfl
  cases hr with
  | made h => exact hone h hk
  | refused h => exact hone h hk
  | freed => rw [← Option.some.inj hk, Nat.add_zero]
  | cleared => rw [← Option.some.inj hk, Nat.add_zero]

theorem regions_plain (hnone : m.region? ids.issued = none)
    (hr : Regions ids shm m e ids' shm' m') {err : Error} (he : e.outcome? = some (.error err)) :
    ¬err.Clash := by
  cases hr with
  | refused h =>
    obtain rfl := Except.error.inj (Option.some.inj he)
    exact Ephemeral.serve_plain hnone (Ephemeral.allocate_serve h).2
  | _ => cases he

end

section
variable {a a' : Allocator} {t : Traffic} {ids ids' : Counter} {shm shm' : Shm} {pre post : List Fill} {f : Fill}
  {content : Bytes} {answer : Except Error Unit} {cache : Cache} {r : Except Error Segment}

/-- A callback for a new entry of an allocator ends with a segment under the id that was set aside. -/
theorem filled_stored (ho : (a.holding t (pre ++ f :: post)).Orderly ids) (hp : f.purpose = .store)
    (hf : f.finish a.cache content = (answer, cache))
    (h : { a with ids }.registerCached
      (answer.map fun _ => a.cache.entrySegment f.id f.buffer.size, cache, ids) shm = (r, a', shm')) :
    ∃ s, r = .ok s ∧ s.id = f.id ∧
      { a with ids }.Stored shm s (f.buffer.bytes.overlay content) a' shm' := by
  have hmem : f.id ∈ TierAlloc.setAside t (pre ++ f :: post) := by
    rw [(setAside_filled ..).mem_iff, Fill.reserves, hp]
    exact List.mem_append_left _ (List.mem_singleton_self _)
  have hfree : ¬a.ledger.Has f.id := ho.free _ hmem
  unfold Fill.finish at hf
  rw [hp] at hf
  cases answer with
  | error e => exact absurd hf (Cache.insert_plain (by_contra fun hn => hfree (Or.inr (Or.inl hn))))
  | ok u =>
    obtain ⟨habsent, hb⟩ := Cache.insert_ok hf
    have hnone : a.segments.get? f.id = none := by_contra fun hn => hfree (Or.inl hn)
    cases r with
    | error e =>
      unfold Allocator.registerCached at h
      simp only [Except.map] at h
      rw [Allocator.register_new (by exact hnone)] at h
      cases (Prod.mk.inj h).1
    | ok s =>
      obtain ⟨hid, hs⟩ := Allocator.stored_register (a := { a with ids }) (Nat.le_refl _) (ho.lt _ hmem)
        (Bytes.length_overlay _ content).symm hnone habsent hb h
      exact ⟨s, rfl, hid, hs⟩

/-- What an allocator does when a callback for a new entry ends. -/
theorem filled_cases (ho : (a.holding t (pre ++ f :: post)).Orderly ids) (hi : a.Indexed) (hp : f.purpose = .store)
    (hf : f.finish a.cache content = (answer, cache))
    (h : { a with ids }.registerCached
      (answer.map fun _ => a.cache.entrySegment f.id f.buffer.size, cache, ids) shm = (r, a', shm')) :
    (∃ s, r = .ok s ∧ s.id = f.id) ∧ a'.ids = ids ∧ a'.Indexed ∧
      ∀ k, a'.ledger.Has k → a.ledger.Has k ∨ some f.id = some k := by
  obtain ⟨s, rfl, hid, hs⟩ := filled_stored ho hp hf h
  have hids : a'.ids = ids := by
    unfold Allocator.registerCached at h
    cases answer with
    | error e => cases (Prod.mk.inj h).1
    | ok u =>
      rw [← (Prod.mk.inj (Prod.mk.inj h).2).1]
      exact Allocator.register_ids ..
  have hi' : Allocator.Indexed { a with ids } := ⟨hi.uniform, hi.own⟩
  refine ⟨⟨s, rfl, hid⟩, hids, hs.after.indexed hi' rfl (Ledger.own_record hi.own), fun k hk => ?_⟩
  have hk := Allocator.has_stored (hs.after.has hk)
  rwa [hid] at hk

/-- What an allocator does when a callback for another entry ends. -/
theorem replaced_cases {answer : Except Error Unit} (hi : a.Indexed)
    (h : { a with ids }.replaceEntry f.id f.buffer.size (fun c => f.finish c content) = (answer, a')) :
    a'.Indexed ∧ ∀ k, a'.ledger.Has k → a.ledger.Has k := by
  have hi' : Allocator.Indexed { a with ids } := ⟨hi.uniform, hi.own⟩
  cases answer with
  | error e =>
    have hb := Allocator.replaceEntry_error Fill.finish_error h
    exact ⟨hb.indexed hi' rfl hi.own, fun k => hb.has⟩
  | ok u =>
    obtain ⟨s, cache, hlive, -, hs, rfl⟩ := Allocator.replaceEntry_ok h
    have hid := hi.own _ s hlive
    have hb := Allocator.replaceEntry_becomes (a := { a with ids }) (n := f.buffer.size) hid (Fill.finish_ok hs)
    exact ⟨hb.indexed hi' rfl (Ledger.own_record hi.own), fun k hk =>
      Ledger.has_resized (l := a.ledger) hlive hid (hb.has hk)⟩

theorem replaced_plain {err : Error} (hp : f.purpose = .replace)
    (h : { a with ids }.replaceEntry f.id f.buffer.size (fun c => f.finish c content) = (.error err, a')) :
    ¬err.Clash := by
  unfold Fill.finish Allocator.replaceEntry at h
  rw [hp] at h
  split at h
  · rename_i e₀ hg
    obtain rfl := Except.error.inj (Prod.mk.inj h).1
    exact Allocator.getIn_plain hg
  split at h
  · rename_i e₀ cache hs
    obtain rfl := Except.error.inj (Prod.mk.inj h).1
    exact Cache.swap_plain hs
  · cases (Prod.mk.inj h).1

end

section
variable {T T' : Turn} {e : Event} (hi : T.member.Indexed) (ho : T.member.holding.Orderly T.ids)

include hi ho

/-- Every turn is a move of the ids of the member that has it. -/
theorem Step.moves (hs : Step T e T') :
    T'.member.Indexed ∧ Moves T.ids T.member.holding e.aside? e.made? T'.ids T'.member.holding := by
  cases hs with
  | chunk h =>
    obtain ⟨hs, rfl⟩ := Prod.mk.inj h
    refine ⟨trivial, ho.make (Nat.le_succ _) (fun id hid => ?_) rfl fun _ => False.elim⟩
    obtain rfl := Option.some.inj hid
    rw [Pool.serve_id hs]
    exact ⟨Nat.le_refl _, Nat.lt_succ_self _⟩
  | noChunk h =>
    obtain ⟨-, rfl⟩ := Prod.mk.inj h
    exact ⟨trivial, .idle (Nat.le_succ _) ho.nodup (fun _ => id) fun _ => id⟩
  | chunkFreed => exact ⟨trivial, .idle (Nat.le_refl _) ho.nodup (fun _ => id) fun _ => id⟩
  | poolCleared => exact ⟨trivial, .idle (Nat.le_refl _) ho.nodup (fun _ => id) fun _ => id⟩
  | @chunks ids shm b n s b' ids' h =>
    obtain ⟨hge, hlt, -⟩ := Batch.allocate_new h
    refine ⟨trivial, ho.make (Nat.le_trans hge (Nat.le_of_lt hlt)) (fun id hid => ?_) rfl fun _ => False.elim⟩
    obtain rfl := Option.some.inj hid
    exact ⟨hge, hlt⟩
  | @noChunks ids shm b n e ids' h =>
    have hids := b.allocate_ids ids n
    rw [h] at hids
    exact ⟨trivial, .idle hids ho.nodup (fun _ => id) fun _ => id⟩
  | chunksFreed => exact ⟨trivial, .idle (Nat.le_refl _) ho.nodup (fun _ => id) fun _ => id⟩
  | batchCleared => exact ⟨trivial, .idle (Nat.le_refl _) ho.nodup (fun _ => id) fun _ => id⟩
  | regions hr =>
    obtain ⟨hnone, hle, hnew, htaken⟩ := regions_made hr
    rw [hnone]
    exact ⟨trivial, ho.make hle hnew rfl htaken⟩
  | @cache ids shm c t fills e ids' shm' c' t' fills' h =>
    exact ⟨trivial, Working.Step.moves (s := ⟨⟨c, ids, shm, t⟩, fills⟩) ho h⟩
  | @allocator ids shm a t fills e a' shm' t' h =>
    have hi' : Allocator.Indexed { a with ids } := ⟨hi.uniform, hi.own⟩
    exact System.Step.moves (s := ⟨{ a with ids }, shm, t⟩) hi' ho h
  | @itsCache ids shm a t fills e ids' shm' c' t' fills' h =>
    have ho' : (Working.holding ⟨⟨a.cache, ids, shm, t⟩, fills⟩).Orderly ids :=
      ho.part fun id hc => Or.inr (Or.inl hc)
    refine ⟨⟨hi.uniform, hi.own⟩, (Working.Step.moves (s := ⟨⟨a.cache, ids, shm, t⟩, fills⟩) ho' h).within
      (fun id hc => Or.inr (Or.inl hc)) fun id hid => ?_⟩
    rcases hid with hs | hc | hr
    · exact Or.inl (Or.inl hs)
    · exact Or.inr hc
    · exact Or.inl (Or.inr (Or.inr hr))
  | itsRegions hr =>
    obtain ⟨hnone, hle, hnew, htaken⟩ := regions_made hr
    rw [hnone]
    refine ⟨⟨hi.uniform, hi.own⟩, ho.make hle hnew rfl fun k hk => ?_⟩
    rcases hk with hs | hc | hr
    · exact Or.inl (Or.inl hs)
    · exact Or.inl (Or.inr (Or.inl hc))
    · exact (htaken k hr).imp_left fun hr => Or.inr (Or.inr hr)
  | @filled ids shm a t pre f post content answer cache r a' shm' hp hf h =>
    obtain ⟨⟨s, rfl, hid⟩, hids, hi', htaken⟩ := filled_cases ho hi hp hf h
    have hres := setAside_filled t pre post f
    have hreserves : f.reserves = some f.id := by rw [Fill.reserves, hp]
    rw [hreserves] at hres
    have hmade : (Event.filled f (.ok s)).made? = some f.id := congrArg some hid
    refine ⟨hi', ?_⟩
    rw [hmade]
    exact ho.fulfil (Nat.le_of_eq (by rw [hids])) hres htaken
  | @replaced ids shm a t pre f post content answer a' hp h =>
    obtain ⟨hi', hkeep⟩ := replaced_cases hi h
    have hres := setAside_filled t pre post f
    have hmade : (Event.replaced f answer).made? = none := by cases answer <;> rfl
    refine ⟨hi', ?_⟩
    rw [hmade]
    exact ho.abandon (Nat.le_of_eq (by rw [Allocator.replaceEntry_ids h])) hres hkeep

/-- A turn draws as many ids as its event says. -/
theorem Step.draws (hs : Step T e T') {k : Nat} (hk : T.member.draws? e = some k) :
    T'.ids.issued = T.ids.issued + k := by
  have hzero : ∀ {ids : Counter}, ids = T.ids → some 0 = some k → ids.issued = T.ids.issued + k := by
    rintro ids rfl hk
    rw [← Option.some.inj hk, Nat.add_zero]
  cases hs with
  | chunk h =>
    obtain ⟨-, rfl⟩ := Prod.mk.inj h
    rw [← Option.some.inj hk]
    rfl
  | noChunk h =>
    obtain ⟨-, rfl⟩ := Prod.mk.inj h
    rw [← Option.some.inj hk]
    rfl
  | @chunks ids shm b n s b' ids' h =>
    rw [← Option.some.inj hk, ← Batch.allocate_draws, h]
  | @noChunks ids shm b n e ids' h =>
    rw [← Option.some.inj hk, ← Batch.allocate_draws, h]
  | @regions ids shm m e ids' shm' m' hr => exact regions_draws hr (.ephemeral m) hk
  | @cache ids shm c t fills e ids' shm' c' t' fills' h =>
    rw [← Option.some.inj hk]
    exact Working.Step.draws (s := ⟨⟨c, ids, shm, t⟩, fills⟩) h
  | @allocator ids shm a t fills e a' shm' t' h =>
    exact System.Step.draws (s := ⟨{ a with ids }, shm, t⟩) ⟨hi.uniform, hi.own⟩ ho h hk
  | @itsCache ids shm a t fills e ids' shm' c' t' fills' h =>
    rw [← Option.some.inj hk]
    exact Working.Step.draws (s := ⟨⟨a.cache, ids, shm, t⟩, fills⟩) h
  | @itsRegions ids shm a t fills e ids' shm' m' hr => exact regions_draws hr (.allocator a t fills) hk
  | filled hp hf h => exact hzero (filled_cases ho hi hp hf h).2.1 hk
  | replaced hp h => exact hzero (Allocator.replaceEntry_ids h) hk
  | _ => exact hzero rfl hk

/-- No call finds the id of its segment taken. -/
theorem Step.plain (hs : Step T e T') {err : Error} (he : e.outcome? = some (.error err)) : ¬err.Clash := by
  cases hs with
  | noChunk h =>
    obtain rfl := Except.error.inj (Option.some.inj he)
    exact Pool.serve_plain (Prod.mk.inj h).1
  | noChunks h =>
    obtain rfl := Except.error.inj (Option.some.inj he)
    exact Batch.allocate_plain h
  | @regions ids shm m e ids' shm' m' hr =>
    exact regions_plain (by_contra fun hn => ho.not_taken (Nat.le_refl _) hn) hr he
  | @cache ids shm c t fills e ids' shm' c' t' fills' h =>
    exact Working.Step.plain (s := ⟨⟨c, ids, shm, t⟩, fills⟩) ho h he
  | @allocator ids shm a t fills e a' shm' t' h =>
    exact System.Step.plain (s := ⟨{ a with ids }, shm, t⟩) ⟨hi.uniform, hi.own⟩ ho h he
  | @itsCache ids shm a t fills e ids' shm' c' t' fills' h =>
    have ho' : (Working.holding ⟨⟨a.cache, ids, shm, t⟩, fills⟩).Orderly ids :=
      ho.part fun id hc => Or.inr (Or.inl hc)
    exact Working.Step.plain (s := ⟨⟨a.cache, ids, shm, t⟩, fills⟩) ho' h he
  | @itsRegions ids shm a t fills e ids' shm' m' hr =>
    exact regions_plain (by_contra fun hn => ho.not_taken (Nat.le_refl _) (Or.inr (Or.inr hn))) hr he
  | filled hp hf h =>
    obtain ⟨⟨s, rfl, -⟩, -⟩ := filled_cases ho hi hp hf h
    cases he
  | @replaced ids shm a t pre f post content answer a' hp h =>
    cases answer with
    | ok u => cases he
    | error e₀ =>
      obtain rfl := Except.error.inj (Option.some.inj he)
      exact replaced_plain hp h
  | _ => cases he

end

/-- A member that was just made holds nothing. -/
theorem Made.fresh {shm shm' : Shm} {m : Member} (h : Made shm m shm') :
    m.Indexed ∧ m.holding.reserved = [] ∧ ∀ id, ¬m.holding.taken id := by
  cases h with
  | pool => exact ⟨trivial, rfl, fun _ => id⟩
  | batch => exact ⟨trivial, rfl, fun _ => id⟩
  | ephemeral => exact ⟨trivial, rfl, fun _ hid => hid rfl⟩
  | channel hc => exact ⟨trivial, rfl, fun id hid => hid (Cache.create_contents hc id)⟩
  | allocator ha =>
    obtain ⟨first, shm₁, cache, -, hb, hc, rfl⟩ := Allocator.create_ok ha
    refine ⟨⟨⟨nofun, fun b hb' => ?_⟩, nofun⟩, rfl, fun id hid => ?_⟩
    · obtain rfl := List.mem_singleton.mp hb'
      exact Batch.create_limit hb
    · rcases hid with hs | hc' | hr
      · exact hs rfl
      · exact hc' (Cache.create_contents hc id)
      · exact hr rfl

end Member

/-! ## Families -/

/-- All who draw from one counter. -/
structure Family where
  ids : Counter
  shm : Shm
  members : List Member

namespace Family

inductive Event where
  /-- Somebody has a turn. `issued` is the counter before it. -/
  | turn (issued : Nat) (m : Member) (e : Member.Event)
  /-- A member comes or goes, an id is drawn for nothing, or memory changes. -/
  | other

inductive Step : Family → Event → Family → Prop
  | turn {ids shm pre m post e ids' shm' m'} (h : Member.Step ⟨ids, shm, m⟩ e ⟨ids', shm', m'⟩) :
      Step ⟨ids, shm, pre ++ m :: post⟩ (.turn ids.issued m e) ⟨ids', shm', pre ++ m' :: post⟩
  | joined {ids shm members m shm'} (h : Member.Made shm m shm') :
      Step ⟨ids, shm, members⟩ .other ⟨ids, shm', m :: members⟩
  | left {ids shm pre m post} : Step ⟨ids, shm, pre ++ m :: post⟩ .other ⟨ids, shm, pre ++ post⟩
  | drawn {ids shm members} : Step ⟨ids, shm, members⟩ .other ⟨ids.draw.2, shm, members⟩
  | memory {ids shm members shm'} : Step ⟨ids, shm, members⟩ .other ⟨ids, shm', members⟩

namespace Event

/-- The id of the segment that is made. -/
def made? : Event → Option Nat
  | turn _ _ e => e.made?
  | other => none

/-- The id that is set aside. -/
def aside? : Event → Option Nat
  | turn _ _ e => e.aside?
  | other => none

/-- The id was not issued before the turn. -/
def New (e : Event) (id : Nat) : Prop :=
  match e with
  | turn issued _ _ => issued ≤ id
  | other => False

end Event

/-- The ids of all segments that were ever made. -/
def made (events : List Event) : List Nat := events.filterMap Event.made?

/-- A call has set the id aside when it was new. -/
def SetAside (events : List Event) (id : Nat) : Prop := ∃ e ∈ events, e.aside? = some id ∧ e.New id

/-- The ids that are set aside. -/
def reserved (members : List Member) : List Nat := members.flatMap fun m => m.holding.reserved

variable {events : List Event} {f f' : Family} {e : Event} {pre post : List Member} {m : Member} {id : Nat}

theorem reserved_split (pre post : List Member) (m : Member) :
    (reserved (pre ++ m :: post)).Perm (m.holding.reserved ++ reserved (pre ++ post)) := by
  unfold reserved
  rw [List.flatMap_append, List.flatMap_append, List.flatMap_cons]
  exact List.perm_append_comm_assoc ..

theorem made_append (events : List Event) (e : Event) : made (events ++ [e]) = made events ++ e.made?.toList := by
  unfold made
  rw [List.filterMap_append]
  cases h : e.made? <;> simp [h]

theorem mem_made_append : id ∈ made (events ++ [e]) ↔ id ∈ made events ∨ e.made? = some id := by
  rw [made_append, List.mem_append, Option.mem_toList]

theorem SetAside.mono (h : SetAside events id) (e : Event) : SetAside (events ++ [e]) id := by
  obtain ⟨e₀, he, hid⟩ := h
  exact ⟨e₀, List.mem_append_left _ he, hid⟩

/-- The ids of a family are in order, after these events. -/
structure Numbered (events : List Event) (f : Family) : Prop where
  indexed : ∀ m ∈ f.members, m.Indexed
  orderly : ∀ m ∈ f.members, m.holding.Orderly f.ids
  apart : (reserved f.members).Nodup
  distinct : (made events).Nodup
  drawn : ∀ id ∈ made events, id < f.ids.issued
  unreserved : ∀ id ∈ made events, id ∉ reserved f.members
  taken : ∀ m ∈ f.members, ∀ id, m.holding.taken id → id ∈ made events
  aside : ∀ id ∈ reserved f.members, SetAside events id
  origin : ∀ before e after, events = before ++ e :: after → ∀ id, e.made? = some id →
    e.New id ∨ SetAside before id

/-- Nothing is made, and fewer ids may be set aside. -/
theorem Numbered.quiet {ids' : Counter} {shm' : Shm} {members' : List Member} (h : Numbered events f)
    (hle : f.ids.issued ≤ ids'.issued)
    (hmem : ∀ m ∈ members', m ∈ f.members ∨ m.Indexed ∧ m.holding.reserved = [] ∧ ∀ id, ¬m.holding.taken id)
    (hres : (reserved members').Sublist (reserved f.members)) :
    Numbered (events ++ [.other]) ⟨ids', shm', members'⟩ := by
  have hmade : made (events ++ [Event.other]) = made events := by
    rw [made_append]
    exact List.append_nil _
  refine ⟨fun m hm => ?_, fun m hm => ?_, h.apart.sublist hres, hmade ▸ h.distinct, fun id hid => ?_,
    fun id hid hr => ?_, fun m hm id hid => ?_, fun id hid => ?_, fun before e after he id hid => ?_⟩
  · rcases hmem m hm with hm | hm
    · exact h.indexed m hm
    · exact hm.1
  · rcases hmem m hm with hm | ⟨-, hnil, htaken⟩
    · exact (h.orderly m hm).mono hle
    · exact orderly_of_fresh hnil htaken
  · exact Nat.lt_of_lt_of_le (h.drawn id (hmade ▸ hid)) hle
  · exact h.unreserved id (hmade ▸ hid) (hres.subset hr)
  · rcases hmem m hm with hm | ⟨-, -, htaken⟩
    · exact hmade ▸ h.taken m hm id hid
    · exact absurd hid (htaken id)
  · exact (h.aside id (hres.subset hid)).mono _
  · rcases split_snoc he with ⟨-, rfl, -⟩ | ⟨rest, -, hsplit⟩
    · cases hid
    · exact h.origin before e rest hsplit id hid

/-- A turn of a member. -/
theorem Numbered.turn {ids ids' : Counter} {shm shm' : Shm} {m' : Member} {e : Member.Event}
    (h : Numbered events ⟨ids, shm, pre ++ m :: post⟩) (hi : m'.Indexed)
    (hm : Holding.Moves ids m.holding e.aside? e.made? ids' m'.holding) :
    Numbered (events ++ [.turn ids.issued m e]) ⟨ids', shm', pre ++ m' :: post⟩ := by
  have hself : m ∈ pre ++ m :: post := List.mem_append_right _ List.mem_cons_self
  have ho : m.holding.Orderly ids := h.orderly m hself
  have hother : ∀ x ∈ pre ++ post, x.holding.Orderly ids := fun x hx => h.orderly x (mem_of_split rfl hx)
  obtain ⟨-, hrest, hapart⟩ := List.nodup_append.mp ((reserved_split pre post m).nodup_iff.mp h.apart)
  have hold : ∀ {id}, id ∈ m.holding.reserved ∨ id ∈ reserved (pre ++ post) → id ∈ reserved (pre ++ m :: post) :=
    fun hid => (reserved_split pre post m).mem_iff.mpr (List.mem_append.mpr hid)
  have hrestlt : ∀ id ∈ reserved (pre ++ post), id < ids.issued := by
    intro id hid
    obtain ⟨x, hx, hid⟩ := List.mem_flatMap.mp hid
    exact (hother x hx).lt id hid
  -- an id of the member after its turn is none that another has set aside
  have hown : ∀ id, id ∈ m.holding.reserved ∨ ids.issued ≤ id → id ∉ reserved (pre ++ post) := by
    intro id hid hr
    rcases hid with hid | hge
    · exact hapart id hid id hr rfl
    · exact absurd (hrestlt id hr) (Nat.not_lt_of_le hge)
  have hkept : ∀ id ∈ m'.holding.reserved, id ∈ m.holding.reserved ∨ e.aside? = some id ∧ ids.issued ≤ id :=
    fun id hid => (hm.reserved id hid).imp_right fun ha => ⟨ha, (hm.aside_new id ha).1⟩
  have hmade : ∀ id, e.made? = some id → id ∉ made events ∧ id < ids'.issued := by
    intro id hid
    rcases (hm.made_own id hid).1 with hr | ⟨hge, hlt⟩
    · exact ⟨fun hold' => h.unreserved id hold' (hold (Or.inl hr)), Nat.lt_of_lt_of_le (ho.lt id hr) hm.ids_le⟩
    · exact ⟨fun hold' => absurd (h.drawn id hold') (Nat.not_lt_of_le hge), hlt⟩
  have hres' := reserved_split pre post m'
  refine ⟨fun x hx => ?_, fun x hx => ?_, ?_, ?_, fun id hid => ?_, fun id hid hr => ?_, fun x hx id hid => ?_,
    fun id hid => ?_, fun before e₀ after he id hid => ?_⟩
  · rcases mem_split hx with rfl | hx
    · exact hi
    · exact h.indexed x (mem_of_split rfl hx)
  · rcases mem_split hx with rfl | hx
    · exact hm.orderly ho
    · exact (hother x hx).mono hm.ids_le
  · refine hres'.nodup_iff.mpr (List.nodup_append.mpr ⟨hm.nodup, hrest, fun id hid id' hid' he => ?_⟩)
    subst he
    exact hown id ((hkept id hid).imp_right And.right) hid'
  · rw [made_append]
    refine List.nodup_append.mpr ⟨h.distinct, ?_, fun id hid id' hid' he => ?_⟩
    · cases (Event.turn ids.issued m e).made? <;> simp
    · subst he
      exact (hmade id (Option.mem_toList.mp hid')).1 hid
  · rcases mem_made_append.mp hid with hid | hid
    · exact Nat.lt_of_lt_of_le (h.drawn id hid) hm.ids_le
    · exact (hmade id hid).2
  · rcases List.mem_append.mp (hres'.mem_iff.mp hr) with hr | hr
    · rcases mem_made_append.mp hid with hid | hid
      · rcases hkept id hr with hr | ⟨-, hge⟩
        · exact h.unreserved id hid (hold (Or.inl hr))
        · exact absurd (h.drawn id hid) (Nat.not_lt_of_le hge)
      · exact (hm.made_own id hid).2 hr
    · rcases mem_made_append.mp hid with hid | hid
      · exact h.unreserved id hid (hold (Or.inr hr))
      · exact hown id ((hm.made_own id hid).1.imp_right And.left) hr
  · rcases mem_split hx with rfl | hx
    · rcases hm.taken id hid with hid | hid
      · exact mem_made_append.mpr (Or.inl (h.taken m hself id hid))
      · exact mem_made_append.mpr (Or.inr hid)
    · exact mem_made_append.mpr (Or.inl (h.taken x (mem_of_split rfl hx) id hid))
  · rcases List.mem_append.mp (hres'.mem_iff.mp hid) with hid | hid
    · rcases hkept id hid with hid | hnew
      · exact (h.aside id (hold (Or.inl hid))).mono _
      · exact ⟨_, List.mem_append_right _ (List.mem_singleton_self _), hnew⟩
    · exact (h.aside id (hold (Or.inr hid))).mono _
  · rcases split_snoc he with ⟨rfl, rfl, -⟩ | ⟨rest, -, hsplit⟩
    · rcases (hm.made_own id hid).1 with hr | hnew
      · exact Or.inr (h.aside id (hold (Or.inl hr)))
      · exact Or.inl hnew.1
    · exact h.origin before e₀ rest hsplit id hid

/-- Every step keeps the ids in order. -/
theorem Numbered.step (h : Numbered events f) (hs : Step f e f') : Numbered (events ++ [e]) f' := by
  cases hs with
  | @turn ids shm pre m post e ids' shm' m' hs =>
    have hself : m ∈ pre ++ m :: post := List.mem_append_right _ List.mem_cons_self
    obtain ⟨hi, hm⟩ := hs.moves (h.indexed m hself) (h.orderly m hself)
    exact h.turn hi hm
  | @joined ids shm members m shm' hm =>
    have hnil : reserved (m :: members) = reserved members := by
      unfold reserved
      rw [List.flatMap_cons, hm.fresh.2.1, List.nil_append]
    refine h.quiet (Nat.le_refl _) (fun x hx => ?_) (hnil ▸ .refl _)
    rcases List.mem_cons.mp hx with rfl | hx
    · exact Or.inr hm.fresh
    · exact Or.inl hx
  | @left ids shm pre m post =>
    refine h.quiet (Nat.le_refl _) (fun x hx => Or.inl (mem_of_split rfl hx)) ?_
    unfold reserved
    rw [List.flatMap_append, List.flatMap_append, List.flatMap_cons]
    exact (List.sublist_append_right _ _).append_left _
  | drawn => exact h.quiet (Nat.le_succ _) (fun _ => Or.inl) (.refl _)
  | memory => exact h.quiet (Nat.le_refl _) (fun _ => Or.inl) (.refl _)

theorem numbered_start (ids : Counter) (shm : Shm) : Numbered [] ⟨ids, shm, []⟩ where
  indexed := nofun
  orderly := nofun
  apart := .nil
  distinct := .nil
  drawn := nofun
  unreserved := nofun
  taken := nofun
  aside := nofun
  origin before e after h := by simp at h

theorem Step.ids_le (h : Numbered events f) (hs : Step f e f') : f.ids.issued ≤ f'.ids.issued := by
  cases hs with
  | @turn ids shm pre m post e ids' shm' m' hs =>
    have hself : m ∈ pre ++ m :: post := List.mem_append_right _ List.mem_cons_self
    exact (hs.moves (h.indexed m hself) (h.orderly m hself)).2.ids_le
  | drawn => exact Nat.le_succ _
  | _ => exact Nat.le_refl _

/-! ## What it says -/

/-- The ids that the members have given out, and those that they hold. -/
structure Disciplined (events : List Event) (f : Family) : Prop where
  /-- No two segments that were ever made have the same id. -/
  distinct : (made events).Nodup
  /-- A segment is under an id that was new in the turn that made it, or when the call that
  has made it since has set it aside. -/
  new : ∀ before e after, events = before ++ e :: after → ∀ id, e.made? = some id →
    e.New id ∨ SetAside before id
  /-- What is found under an id was made, and never under an id that is set aside. -/
  found : ∀ m ∈ f.members, ∀ id, m.holding.taken id → id ∈ made events ∧ id ∉ reserved f.members
  /-- No call has set aside what another has. -/
  apart : (reserved f.members).Nodup
  issued : ∀ m ∈ f.members, ∀ id, m.holding.taken id ∨ id ∈ m.holding.reserved → id < f.ids.issued
  /-- As long as no more than 2^64 ids are drawn, the counter does not leave the 64-bit numbers. -/
  word : f.ids.issued ≤ wordRange → (∀ id ∈ made events, id < wordRange) ∧
    ∀ m ∈ f.members, ∀ id, m.holding.taken id ∨ id ∈ m.holding.reserved → id < wordRange

/-- **The discipline of ids.** Whoever draws from one counter, whatever they do and in whatever
order, with calls that fail and calls within calls, and whatever memory does: no two
segments ever made have the same id, and each has one that was not issued before the call that
made it began. The counter never goes back. A call draws as many ids as `draws?` says, and none
finds the id of its segment taken. -/
theorem id_discipline {ids : Counter} {shm : Shm} (hrun : Run Step ⟨ids, shm, []⟩ events f) :
    Disciplined events f ∧
      ∀ e f', Step f e f' → f.ids.issued ≤ f'.ids.issued ∧
        ∀ issued m turn, e = .turn issued m turn → issued = f.ids.issued ∧
          (∀ k, m.draws? turn = some k → f'.ids.issued = f.ids.issued + k) ∧
          ∀ err, turn.outcome? = some (.error err) → ¬err.Clash := by
  have h := hrun.invariant (P := Numbered) (numbered_start ids shm) Numbered.step
  have hissued : ∀ m ∈ f.members, ∀ id, m.holding.taken id ∨ id ∈ m.holding.reserved → id < f.ids.issued :=
    fun m hm id hid => hid.elim ((h.orderly m hm).drawn id) ((h.orderly m hm).lt id)
  refine ⟨⟨h.distinct, h.origin, fun m hm id hid => ?_, h.apart, hissued, fun hids => ⟨fun id hid => ?_,
    fun m hm id hid => ?_⟩⟩, fun e f' hs => ⟨hs.ids_le h, fun issued m turn he => ?_⟩⟩
  · exact ⟨h.taken m hm id hid, h.unreserved id (h.taken m hm id hid)⟩
  · exact Nat.lt_of_lt_of_le (h.drawn id hid) hids
  · exact Nat.lt_of_lt_of_le (hissued m hm id hid) hids
  · subst he
    cases hs with
    | @turn ids shm pre m post e ids' shm' m' hs =>
      have hself : m ∈ pre ++ m :: post := List.mem_append_right _ List.mem_cons_self
      exact ⟨rfl, fun k => hs.draws (h.indexed m hself) (h.orderly m hself),
        fun err => hs.plain (h.indexed m hself) (h.orderly m hself)⟩

/-! ## A pool and a cache

Both draw from one counter: the pool makes the segment 0, the cache the entry 1. -/

def samplePool : Pool :=
  { id := 0, chunkSize := 64, chunkCount := 4, base := 0, chunks := .ofLength 4, free := 4 }

/-- The cache, after it has stored two bytes. -/
def sampleCache : Cache := ((EntryOp.store [1, 2]).apply (.inProcess "m" none) ⟨1⟩).1

theorem id_discipline_of_two : ∃ events f, Run Step ⟨{}, .empty, []⟩ events f ∧ made events = [0, 1] ∧
    f.ids.issued = 2 ∧ Disciplined events f := by
  have hp : Pool.create 0 64 4 0 = .ok samplePool := rfl
  obtain ⟨s, p, ha, hid⟩ : ∃ s p, samplePool.allocate {} 10 = (.ok (s, p), ⟨1⟩) ∧ s.id = 0 := by
    have hok : (samplePool.serve 0 10).isOk = true := by decide +kernel
    cases hs : samplePool.serve 0 10 with
    | error e =>
      rw [hs] at hok
      cases hok
    | ok served => exact ⟨served.1, served.2, Prod.ext hs rfl, Pool.serve_id hs⟩
  have hc : Cache.create "m" .inProcess none .empty = (.ok (.inProcess "m" none), .empty) := rfl
  have hrun : Run Step ⟨{}, .empty, []⟩ _ ⟨⟨2⟩, .empty, [.channel sampleCache .empty [], .pool p]⟩ :=
    .next (.next (.next (.next .start (.joined (.pool hp))) (.joined (.channel hc)))
      (@Step.turn _ _ [_] _ _ _ _ _ _ (.chunk ha)))
      (@Step.turn _ _ [] _ _ _ _ _ _ (.cache (.op (.store [1, 2]) trivial)))
  exact ⟨_, _, hrun, by rw [← hid]; rfl, rfl, (id_discipline hrun).1⟩

end Family
end TierAlloc
