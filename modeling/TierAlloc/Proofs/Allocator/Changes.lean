import TierAlloc.Proofs.Allocator.Requests

/-!
# What is done to segments

Giving a segment back, replacing and overwriting its bytes, and recording what a peer
delivered: each has its effect in the tier that the segment is of and on the table, and
nothing else is seen to change.

**Results.**
* `release_ok`: a segment that is given back (`Freed`).
* `cacheSet_ok`, `cacheSetWith_ok`, `cacheSet_error`, `cacheSetWith_error`: replacements.
* `write_ok`: a write (`Written`).
* `offerMalloc_ok`, `offerRetrieve_ok`, `await_ok`, `await_error`: handoffs.
-/
namespace TierAlloc

open Function (update)

/-! ## Tiers of segments -/

theorem Segment.tier_of_static {s : Segment} {batch bin offset : Nat} (h : s.kind = .static batch bin offset) :
    s.tier = .static := by
  rw [tier, h, Kind.tier]

theorem Segment.tier_of_ephemeral {s : Segment} (h : s.kind = .ephemeral) : s.tier = .ephemeral := by
  rw [tier, h, Kind.tier]

theorem Segment.tier_of_cache {s : Segment} {place : Locator} (h : s.kind = .cache place) :
    s.tier = .cache := by
  rw [tier, h, Kind.tier]

/-! ## The end of a handoff -/

/-- The owner's part ends with the payload, or without one and with the cache as it was. -/
theorem Pending.settle_cases {p : Pending} {goal : Goal} {c c' : Cache} {shm shm' : Shm}
    {r : Except Error Segment} (h : p.settle? goal [] c shm = some (r, c', shm')) :
    (∃ shm₁, p.take c shm₁ = (r, c')) ∨ r = .error (.handoffTimeout p.segment.id) ∧ c' = c := by
  unfold settle? at h
  split at h
  · cases h
  simp only at h
  split at h
  · obtain ⟨hr, hc⟩ := Prod.mk.inj (Option.some.inj h)
    exact Or.inl ⟨_, Prod.ext hr (Prod.mk.inj hc).1⟩
  · obtain ⟨hr, hc⟩ := Prod.mk.inj (Option.some.inj h)
    exact Or.inr ⟨hr.symm, (Prod.mk.inj hc).1.symm⟩
  · obtain ⟨hr, hc⟩ := Prod.mk.inj (Option.some.inj h)
    exact Or.inr ⟨hr.symm, (Prod.mk.inj hc).1.symm⟩

namespace Allocator

variable {a a' : Allocator} {shm shm' : Shm} {s : Segment} {n id : Nat} {e : Error}

/-! ## Giving segments back -/

/-- What giving the segment `s` back has done, in the tier that it is of. -/
inductive Freed (a : Allocator) (shm : Shm) (s : Segment) : Allocator → Shm → Prop
  | chunks {a₁ : Allocator} {b : Batch} {p p' : Pool} {offset : Nat}
      (kind : s.kind = .static b.id p.id offset) (batch : a.batches[b.id]? = some b)
      (pool : b.pool? p.id = some p) (freed : p.freeRange offset s.size = .ok p')
      (after : a.Becomes ((a.ledger.setBatch (b.putPool p')).forget s.id) a₁) : Freed a shm s a₁ shm
  | region {a₁ : Allocator} {r : Region} (kind : s.kind = .ephemeral)
      (region : a.ledger.regions s.id = some r)
      (after : a.Becomes ((a.ledger.setRegion s.id none).forget s.id) a₁) :
      Freed a shm s a₁ (shm.release r)
  | entry {a₁ : Allocator} (tier : s.tier = .cache)
      (after : a.Becomes ((a.ledger.setContents s.id none).forget s.id) a₁) : Freed a shm s a₁ shm

theorem freeInTier_ok {a₁ : Allocator} (hf : a.freeInTier s shm = .ok (a₁, shm')) :
    a.Freed shm s { a₁ with segments := a₁.segments.erase s.id } shm' := by
  unfold freeInTier at hf
  split at hf
  · rename_i batch bin offset hkind
    split at hf
    · cases hf
    rename_i b hb
    cases hfree : b.free s with
    | error e =>
      simp only [hfree, bind, Except.bind] at hf
      cases hf
    | ok b' =>
      obtain ⟨p, p', offset', hk, hpool, hrange, rfl⟩ := Batch.free_ok hfree
      simp only [hfree, bind, Except.bind, pure, Except.pure, Except.ok.injEq, Prod.mk.injEq] at hf
      obtain ⟨rfl, rfl⟩ := hf
      rw [hkind, Kind.static.injEq] at hk
      obtain ⟨rfl, rfl, rfl⟩ := hk
      refine .chunks hkind hb hpool hrange ⟨rfl, Nat.le_refl _, rfl, rfl, rfl, ?_⟩
      unfold ledger Ledger.forget Ledger.setBatch putBatch
      rw [Table.get?_erase_eq]
      rfl
  · rename_i hkind
    cases hfree : a.ephemeral.free s shm with
    | error e =>
      simp only [hfree, bind, Except.bind] at hf
      cases hf
    | ok freed =>
      obtain ⟨ephemeral, shm₁⟩ := freed
      obtain ⟨-, r, hr, rfl, rfl⟩ := Ephemeral.free_ok hfree
      simp only [hfree, bind, Except.bind, pure, Except.pure, Except.ok.injEq, Prod.mk.injEq] at hf
      obtain ⟨rfl, rfl⟩ := hf
      refine .region hkind hr ⟨rfl, Nat.le_refl _, rfl, rfl, rfl, ?_⟩
      unfold ledger Ledger.forget Ledger.setRegion Ephemeral.region?
      rw [Table.get?_erase_eq, Table.get?_erase_eq]
  · cases hfs : a.cache.freeSegment s with
    | error e =>
      simp only [hfs, bind, Except.bind] at hf
      cases hf
    | ok cache =>
      obtain ⟨ht, hfree⟩ := Cache.freeSegment_ok hfs
      obtain ⟨-, hc⟩ := Cache.free_ok hfree
      simp only [hfs, bind, Except.bind, pure, Except.pure, Except.ok.injEq, Prod.mk.injEq] at hf
      obtain ⟨rfl, rfl⟩ := hf
      refine .entry ht ⟨rfl, Nat.le_refl _, rfl, hc.manager, hc.exchange, ?_⟩
      unfold ledger Ledger.forget Ledger.setContents
      rw [Table.get?_erase_eq, hc.contents]

theorem release_find {expected : Option Tier} (h : a.release id expected shm = .ok (a', shm')) :
    ∃ s, a.ledger.segments id = some s ∧ (∀ t ∈ expected, s.tier = t) ∧ ∃ a₁,
      a.freeInTier s shm = .ok (a₁, shm') ∧ a' = { a₁ with segments := a₁.segments.erase id } := by
  have hfree : ∀ s, (a.freeInTier s shm >>= fun freed =>
        pure ({ freed.1 with segments := freed.1.segments.erase id }, freed.2)) =
      Except.ok (a', shm') → ∃ a₁, a.freeInTier s shm = .ok (a₁, shm') ∧
        a' = { a₁ with segments := a₁.segments.erase id } := by
    intro s h
    cases hf : a.freeInTier s shm with
    | error e =>
      rw [hf] at h
      cases h
    | ok freed =>
      rw [hf] at h
      obtain ⟨rfl, rfl⟩ := Prod.mk.inj (Except.ok.inj h)
      exact ⟨freed.1, rfl, rfl⟩
  cases expected with
  | none =>
    cases hs : a.get id with
    | error e =>
      simp only [release, hs, bind, Except.bind] at h
      cases h
    | ok s =>
      simp only [release, hs] at h
      exact ⟨s, get_eq_ok.mp hs, nofun, hfree s h⟩
  | some tier =>
    cases hs : a.getIn tier id with
    | error e =>
      simp only [release, hs, bind, Except.bind] at h
      cases h
    | ok s =>
      simp only [release, hs] at h
      obtain ⟨hs, ht⟩ := getIn_eq_ok.mp hs
      exact ⟨s, hs, fun t hm => ht.trans (Option.some.inj hm), hfree s h⟩

/-- Only a live segment can be given back, and none of another tier than the one expected. -/
theorem release_ok {expected : Option Tier} (hown : ∀ s, a.ledger.segments id = some s → s.id = id)
    (h : a.release id expected shm = .ok (a', shm')) :
    ∃ s, a.ledger.segments id = some s ∧ s.id = id ∧ (∀ t ∈ expected, s.tier = t) ∧
      a.Freed shm s a' shm' := by
  obtain ⟨s, hs, ht, a₁, hf, rfl⟩ := release_find h
  obtain rfl := hown s hs
  exact ⟨s, hs, rfl, ht, freeInTier_ok hf⟩

/-! ## Changing bytes -/

/-- A live cache segment is the only one whose entry is replaced; its size is the new one. -/
theorem replaceEntry_ok {replace : Cache → Except Error Unit × Cache}
    (h : a.replaceEntry id n replace = (.ok (), a')) :
    ∃ s cache, a.ledger.segments id = some s ∧ s.tier = .cache ∧ replace a.cache = (.ok (), cache) ∧
      a' = { a with cache, segments := a.segments.insert id { s with size := n } } := by
  unfold replaceEntry at h
  split at h
  · cases h
  rename_i s hs
  split at h
  · cases h
  rename_i cache hr
  obtain ⟨hs, ht⟩ := getIn_eq_ok.mp hs
  exact ⟨s, cache, hs, ht, hr, (Prod.mk.inj h).2.symm⟩

theorem replaceEntry_error {replace : Cache → Except Error Unit × Cache}
    (hr : ∀ {e c}, replace a.cache = (.error e, c) → a.cache.Becomes a.cache.contents? c)
    (h : a.replaceEntry id n replace = (.error e, a')) : a.Becomes a.ledger a' := by
  unfold replaceEntry at h
  split at h
  · rw [← (Prod.mk.inj h).2]
    exact .refl a
  split at h
  · rename_i e₀ cache he
    rw [← (Prod.mk.inj h).2]
    exact becomes_idle (Nat.le_refl _) (hr he)
  · cases h

theorem replaceEntry_becomes {cache : Cache} {bytes : Bytes} (hid : s.id = id)
    (hc : a.cache.Becomes (update a.cache.contents? id (some bytes)) cache) :
    a.Becomes ((a.ledger.setContents id (some bytes)).record { s with size := n })
      { a with cache, segments := a.segments.insert id { s with size := n } } := by
  subst hid
  refine ⟨rfl, Nat.le_refl _, rfl, hc.manager, hc.exchange, ?_⟩
  unfold ledger Ledger.record Ledger.setContents
  rw [Table.get?_insert_eq, hc.contents]

theorem cacheSetWith_ok {content : Bytes} (hown : ∀ s, a.ledger.segments id = some s → s.id = id)
    (h : a.cacheSetWith id n content = (.ok (), a')) :
    0 < n ∧ ∃ s, a.ledger.segments id = some s ∧ s.id = id ∧ s.tier = .cache ∧
      a.Becomes ((a.ledger.setContents id (some ((Bytes.zeros n).overlay content))).record
        { s with size := n }) a' := by
  obtain ⟨s, cache, hs, ht, hr, rfl⟩ := replaceEntry_ok h
  obtain ⟨hn, -, hc⟩ := Cache.setWith_ok hr
  exact ⟨hn, s, hs, hown s hs, ht, replaceEntry_becomes (hown s hs) hc⟩

theorem cacheSet_ok {data : Bytes} (hown : ∀ s, a.ledger.segments id = some s → s.id = id)
    (h : a.cacheSet id data = (.ok (), a')) :
    0 < data.length ∧ ∃ s, a.ledger.segments id = some s ∧ s.id = id ∧ s.tier = .cache ∧
      a.Becomes ((a.ledger.setContents id (some data)).record { s with size := data.length }) a' := by
  obtain ⟨s, cache, hs, ht, hr, rfl⟩ := replaceEntry_ok h
  obtain ⟨hn, -, hc⟩ := Cache.set_ok hr
  exact ⟨hn, s, hs, hown s hs, ht, replaceEntry_becomes (hown s hs) hc⟩

theorem cacheSetWith_error {content : Bytes} (h : a.cacheSetWith id n content = (.error e, a')) :
    a.Becomes a.ledger a' :=
  replaceEntry_error Cache.setWith_error h

theorem cacheSet_error {data : Bytes} (h : a.cacheSet id data = (.error e, a')) :
    a.Becomes a.ledger a' :=
  replaceEntry_error Cache.set_error h

/-- What writing to the segment `s` has done, in the tier that it is of. -/
inductive Written (a : Allocator) (shm : Shm) (s : Segment) (offset : Nat) (data : Bytes) :
    Allocator → Shm → Prop
  | chunks {b : Batch} {bin start : Nat} (kind : s.kind = .static b.id bin start)
      (batch : a.batches[b.id]? = some b)
      (inside : start + offset + data.length ≤ b.region.size) :
      Written a shm s offset data a (shm.store b.region (start + offset) data)
  | region {r : Region} (kind : s.kind = .ephemeral) (region : a.ledger.regions s.id = some r)
      (inside : offset + data.length ≤ r.size) :
      Written a shm s offset data a (shm.store r offset data)
  | entry {a₁ : Allocator} {bytes : Bytes} (tier : s.tier = .cache)
      (stored : a.ledger.contents s.id = some bytes) (inside : offset + data.length ≤ bytes.length)
      (after : a.Becomes (a.ledger.setContents s.id (some (bytes.splice offset data))) a₁) :
      Written a shm s offset data a₁ shm

theorem writeCached_ok {offset : Nat} {data : Bytes} (h : a.writeCached id offset data = .ok a') :
    ∃ bytes, a.ledger.contents id = some bytes ∧ offset + data.length ≤ bytes.length ∧
      a.Becomes (a.ledger.setContents id (some (bytes.splice offset data))) a' := by
  unfold writeCached at h
  split at h
  · cases h
  rename_i bytes hb
  split at h
  · rename_i hle
    cases hm : a.cache.modify id offset data with
    | error e =>
      simp only [hm, bind, Except.bind] at h
      cases h
    | ok cache =>
      obtain ⟨bytes', hb', hc⟩ := Cache.modify_ok hm
      obtain rfl := Option.some.inj (hb'.symm.trans hb)
      simp only [hm, bind, Except.bind, pure, Except.pure, Except.ok.injEq] at h
      subst h
      refine ⟨_, hb, hle, rfl, Nat.le_refl _, rfl, hc.manager, hc.exchange, ?_⟩
      unfold ledger Ledger.setContents
      rw [hc.contents]
  · cases h

theorem written_ok {r : Region} {offset : Nat} {data : Bytes}
    (h : (do let shm ← shm.write r offset data; pure (a, shm)) = Except.ok (a', shm')) :
    a' = a ∧ offset + data.length ≤ r.size ∧ shm' = shm.store r offset data := by
  rw [Shm.write_eq] at h
  split at h
  · obtain ⟨rfl, rfl⟩ := Prod.mk.inj (Except.ok.inj h)
    exact ⟨rfl, ‹_›, rfl⟩
  · cases h

/-- A write that succeeds was inside a live segment. -/
theorem write_ok {offset : Nat} {data : Bytes} (hs : SoundBatches a.batches)
    (hown : ∀ s, a.ledger.segments id = some s → s.id = id)
    (h : a.write id offset data shm = .ok (a', shm')) :
    ∃ s, a.ledger.segments id = some s ∧ s.id = id ∧ offset + data.length ≤ s.size ∧
      a.Written shm s offset data a' shm' := by
  unfold write at h
  cases hg : a.get id with
  | error e =>
    simp only [hg, bind, Except.bind] at h
    cases h
  | ok s =>
    have hlive := get_eq_ok.mp hg
    obtain rfl := hown s hlive
    simp only [hg, bind, Except.bind] at h
    split at h
    · cases h
    rename_i hle
    refine ⟨s, hlive, rfl, by omega, ?_⟩
    split at h
    · rename_i batch bin start hkind
      split at h
      · cases h
      rename_i b hb
      obtain ⟨rfl, -⟩ := hs batch b hb
      have hstart : s.offset = start := by rw [Segment.offset, hkind, Kind.offset]
      rw [hstart] at h
      obtain ⟨rfl, hin, rfl⟩ := written_ok h
      exact .chunks hkind hb hin
    · rename_i hkind
      split at h
      · cases h
      rename_i r hr
      obtain ⟨rfl, hin, rfl⟩ := written_ok h
      exact .region hkind hr hin
    · rename_i place hkind
      cases hw : a.writeCached s.id offset data with
      | error e =>
        rw [hw] at h
        cases h
      | ok a₁ =>
        rw [hw] at h
        obtain ⟨rfl, rfl⟩ := Prod.mk.inj (Except.ok.inj h)
        obtain ⟨bytes, hb, hin, hafter⟩ := writeCached_ok hw
        have ht : s.tier = .cache := Segment.tier_of_cache hkind
        exact .entry ht hb hin hafter

/-! ## Handoffs -/

theorem offerMalloc_ids {r : Except Error Offer} (h : a.offerMalloc n = (r, a')) :
    a.Becomes a.ledger a' := by
  rw [← (Prod.mk.inj h).2]
  exact becomes_draw (Cache.offerMalloc_ids ..)

theorem offerMalloc_ok {o : Offer} (h : a.offerMalloc n = (.ok o, a')) :
    a' = { a with ids := a.ids.draw.2 } ∧ ∃ x, a.cache.exchange = some x ∧ n ≤ x.layout.areaSize ∧
      o = { exchange := x, manager := a.cache.manager, id := a.ids.issued, transfer := .inbound n } := by
  unfold offerMalloc at h
  cases hc : a.cache.offerMalloc a.ids n with
  | mk r ids =>
    rw [hc] at h
    obtain ⟨rfl, rfl⟩ := Prod.mk.inj h
    obtain ⟨x, hx, hle, rfl, ho⟩ := Cache.offerMalloc_ok hc
    exact ⟨rfl, x, hx, hle, ho⟩

theorem offerRetrieve_ok {o : Offer} (h : a.offerRetrieve id = .ok o) :
    ∃ s x payload, a.ledger.segments id = some s ∧ s.tier = .cache ∧ a.cache.exchange = some x ∧
      a.ledger.contents id = some payload ∧ payload.length ≤ x.layout.areaSize ∧
      o = { exchange := x, manager := a.cache.manager, id, transfer := .outbound payload } := by
  unfold offerRetrieve at h
  cases hs : a.getIn .cache id with
  | error e =>
    simp only [hs, bind, Except.bind] at h
    cases h
  | ok s =>
    simp only [hs, bind, Except.bind] at h
    obtain ⟨hs, ht⟩ := getIn_eq_ok.mp hs
    obtain ⟨x, payload, hx, hp, hle, ho⟩ := Cache.offerRetrieve_ok h
    exact ⟨s, x, payload, hs, ht, hx, hp, hle, ho⟩

theorem await_error {p : Pending} (hnew : p.direction = .inbound → a.ledger.segments p.segment.id = none)
    (h : a.await? p shm = some (.error e, a', shm')) :
    a.Becomes a.ledger a' ∧ ∃ cache, p.wait? a.cache shm = some (.error e, cache, shm') := by
  unfold await? at h
  split at h
  · cases h
  · rename_i e₀ cache shm₁ hw
    simp only [Option.some.injEq, Prod.mk.injEq, Except.error.injEq] at h
    obtain ⟨rfl, rfl, rfl⟩ := h
    refine ⟨becomes_idle (Nat.le_refl _) ?_, cache, hw⟩
    rcases Pending.settle_cases hw with ⟨shm₂, ht⟩ | ⟨-, rfl⟩
    · exact (Pending.take_error ht).2
    · exact .refl _
  · rename_i s₀ cache shm₁ hw
    rcases Pending.settle_cases hw with ⟨shm₂, ht⟩ | ⟨he, -⟩
    · rcases Pending.take_entry ht with ⟨hd, -⟩ | ⟨hd, -, bytes, rfl, -⟩
      · rw [hd] at h
        cases (Prod.mk.inj (Option.some.inj h)).1
      · rw [hd] at h
        simp only at h
        rw [register_new (by exact hnew hd)] at h
        cases (Prod.mk.inj (Option.some.inj h)).1
    · cases he

/-- A wait that succeeds has recorded the payload if one came; a payload that was given away
leaves all as it was. -/
theorem await_ok {p : Pending} (hnew : p.direction = .inbound → a.ledger.segments p.segment.id = none)
    (hid : p.direction = .inbound → p.segment.id < a.ids.issued)
    (h : a.await? p shm = some (.ok s, a', shm')) :
    ∃ s₀ cache, p.wait? a.cache shm = some (.ok s₀, cache, shm') ∧
      (p.direction = .outbound ∧ a.Becomes a.ledger a' ∨
        p.direction = .inbound ∧ s.id = p.segment.id ∧ ∃ bytes, cache.contents? s.id = some bytes ∧
          a.Stored shm' s bytes a' shm') := by
  unfold await? at h
  split at h
  · cases h
  · cases (Prod.mk.inj (Option.some.inj h)).1
  rename_i s₀ cache shm₁ hw
  rcases Pending.settle_cases hw with ⟨shm₂, ht⟩ | ⟨he, -⟩
  · rcases Pending.take_entry ht with ⟨hd, rfl⟩ | ⟨hd, habsent, bytes, rfl, hc⟩
    · rw [hd] at h
      simp only [Option.some.injEq, Prod.mk.injEq] at h
      obtain ⟨-, rfl, rfl⟩ := h
      exact ⟨s₀, _, hw, Or.inl ⟨hd, becomes_idle (Nat.le_refl _) (.refl _)⟩⟩
    · rw [hd] at h
      simp only [Option.some.injEq] at h
      obtain ⟨hsid, hstored⟩ := stored_register (Nat.le_refl _) (hid hd) rfl (hnew hd) habsent hc h
      obtain rfl := hstored.memory
      refine ⟨_, cache, hw, Or.inr ⟨hd, hsid, bytes, ?_, hstored⟩⟩
      rw [hc.contents, hsid, Function.update_self]
  · cases he

end Allocator
end TierAlloc
