import Mathlib.Logic.Function.Basic
import TierAlloc.Cache.Handoff
import TierAlloc.Proofs.Memory.Heap

/-!
# Cache entries

What each operation of a cache does, said through `contents?`: manager and
exchange region stay, and the bytes change under at most one id. The heap is left
out; it decides whether an operation succeeds and nothing else.

**Results.**
* `place_ok`, `modify_ok`, `free_ok`, `swap_ok`, `set_ok`: what stands under the id after.
* `place_error`, `set_error`, `swap_error`: an operation that fails changes no entry.
* `take_ok`, `take_error`: a payload becomes an entry whole or not at all.
-/
namespace TierAlloc

namespace Cache

variable {c c' c'' : Cache} {id : Nat} {view : Nat → Option Bytes}

/-- `c'` is a later state of `c` in which the entries are those of the view. -/
structure Becomes (c : Cache) (view : Nat → Option Bytes) (c' : Cache) : Prop where
  manager : c'.manager = c.manager
  exchange : c'.exchange = c.exchange
  contents : c'.contents? = view

theorem Becomes.refl (c : Cache) : c.Becomes c.contents? c := ⟨rfl, rfl, rfl⟩

/-- The heap is no part of the view. -/
theorem Becomes.heap (h : c.Becomes view c') (heap : BufferPool) :
    c.Becomes view { c' with heap } := ⟨h.manager, h.exchange, h.contents⟩

theorem contains_eq (c : Cache) (id : Nat) : c.contains id = (c.contents? id).isSome := by
  simp [contains, contents?, Table.contains]

theorem contains_eq_false : c.contains id = false ↔ c.contents? id = none := by
  rw [contains_eq, Option.isSome_eq_false_iff, Option.isNone_iff_eq_none]

theorem contents?_insert (c : Cache) (id : Nat) (b : Buffer) :
    ({ c with entries := c.entries.insert id b } : Cache).contents? =
      Function.update c.contents? id (some b.bytes) := by
  funext k
  simp only [contents?, Table.get?_insert, Function.update_apply]
  split <;> rfl

theorem contents?_erase (c : Cache) (id : Nat) :
    ({ c with entries := c.entries.erase id } : Cache).contents? =
      Function.update c.contents? id none := by
  funext k
  simp only [contents?, Table.get?_erase, Function.update_apply]
  split <;> rfl

theorem contents?_of_get? {b : Buffer} (h : c.entries.get? id = some b) :
    c.contents? id = some b.bytes := by rw [contents?, h, Option.map_some]

theorem entrySegment_congr (h : c'.manager = c.manager) (id size : Nat) :
    c'.entrySegment id size = c.entrySegment id size := by rw [entrySegment, h, entrySegment]

theorem insert_ok {b : Buffer} (h : c.insert id b = (.ok (), c')) :
    c.contents? id = none ∧ c.Becomes (Function.update c.contents? id (some b.bytes)) c' := by
  unfold insert at h
  split at h
  · cases h
  · rename_i hc
    simp only [Prod.mk.injEq, true_and] at h
    subst h
    exact ⟨contains_eq_false.mp (by simpa using hc), rfl, rfl, contents?_insert c id b⟩

theorem insert_error {b : Buffer} {e : Error} (h : c.insert id b = (.error e, c')) :
    c.contains id = true ∧ c.Becomes c.contents? c' := by
  unfold insert at h
  split at h
  · rename_i hc
    rw [← (Prod.mk.inj h).2]
    exact ⟨hc, (Becomes.refl c).heap _⟩
  · cases h

/-- A new entry: its id was free, and its bytes are the content over zeros. -/
theorem place_ok {size : Nat} {content : Bytes} {s : Segment}
    (h : c.place id size content = (.ok s, c')) :
    0 < size ∧ c.contents? id = none ∧ s = c.entrySegment id size ∧
      c.Becomes (Function.update c.contents? id (some ((Bytes.zeros size).overlay content))) c' := by
  unfold place at h
  split at h
  · cases h
  rename_i hz
  split at h
  · cases h
  rename_i b heap ha
  simp only at h
  split at h
  · cases h
  rename_i c₁ hi
  simp only [Prod.mk.injEq, Except.ok.injEq] at h
  obtain ⟨rfl, rfl⟩ := h
  obtain ⟨hnone, hb⟩ := insert_ok hi
  rw [BufferPool.acquire_ok ha] at hb
  exact ⟨Nat.pos_of_ne_zero hz, hnone, entrySegment_congr hb.manager id size, hb.manager,
    hb.exchange, hb.contents⟩

theorem place_error {size : Nat} {content : Bytes} {e : Error}
    (h : c.place id size content = (.error e, c')) : c.Becomes c.contents? c' := by
  unfold place at h
  split at h
  · rw [← (Prod.mk.inj h).2]
    exact .refl c
  split at h
  · rw [← (Prod.mk.inj h).2]
    exact (Becomes.refl c).heap _
  simp only at h
  split at h
  · rename_i hi
    rw [← (Prod.mk.inj h).2]
    obtain ⟨-, hb⟩ := insert_error hi
    exact ⟨hb.manager, hb.exchange, hb.contents⟩
  · cases (Prod.mk.inj h).1

theorem modify_ok {offset : Nat} {data : Bytes} (h : c.modify id offset data = .ok c') :
    ∃ bytes, c.contents? id = some bytes ∧
      c.Becomes (Function.update c.contents? id (some (bytes.splice offset data))) c' := by
  unfold modify at h
  split at h
  · cases h
  · rename_i b hb
    injection h with h
    subst h
    exact ⟨b.bytes, contents?_of_get? hb, rfl, rfl, contents?_insert c id _⟩

theorem modify_of_contains {bytes : Bytes} (hc : c.contents? id = some bytes) (offset : Nat)
    (data : Bytes) : ∃ c', c.modify id offset data = .ok c' := by
  unfold modify
  cases hg : c.entries.get? id with
  | none => simp [contents?, hg] at hc
  | some b => exact ⟨_, rfl⟩

theorem free_ok (h : c.free id = .ok c') :
    c.contains id = true ∧ c.Becomes (Function.update c.contents? id none) c' := by
  unfold free at h
  split at h
  · cases h
  · rename_i b hb
    injection h with h
    subst h
    refine ⟨by rw [contains_eq, contents?_of_get? hb, Option.isSome_some], rfl, rfl, ?_⟩
    exact contents?_erase c id

theorem freeSegment_ok {s : Segment} (h : c.freeSegment s = .ok c') :
    s.tier = .cache ∧ c.free s.id = .ok c' := by
  unfold freeSegment at h
  split at h
  · cases h
  · rename_i ht
    exact ⟨Decidable.not_not.mp ht, h⟩

theorem swap_ok {b : Buffer} (h : c.swap id b = (.ok (), c')) :
    c.contains id = true ∧ c.Becomes (Function.update c.contents? id (some b.bytes)) c' := by
  unfold swap at h
  split at h
  · cases h
  · rename_i old hold
    rw [← (Prod.mk.inj h).2]
    refine ⟨by rw [contains_eq, contents?_of_get? hold, Option.isSome_some], rfl, rfl, ?_⟩
    exact contents?_insert c id b

theorem swap_error {b : Buffer} {e : Error} (h : c.swap id b = (.error e, c')) :
    c.contains id = false ∧ c.Becomes c.contents? c' := by
  unfold swap at h
  split at h
  · rename_i hn
    rw [← (Prod.mk.inj h).2]
    exact ⟨contains_eq_false.mpr (by rw [contents?, hn, Option.map_none]), (Becomes.refl c).heap _⟩
  · cases h

theorem setWith_ok {size : Nat} {content : Bytes} (h : c.setWith id size content = (.ok (), c')) :
    0 < size ∧ c.contains id = true ∧
      c.Becomes (Function.update c.contents? id (some ((Bytes.zeros size).overlay content))) c' := by
  unfold setWith replaceBy at h
  split at h
  · cases h
  rename_i hz
  split at h
  · cases h
  split at h
  · cases h
  rename_i b heap ha
  obtain ⟨hc, hb⟩ := swap_ok h
  rw [BufferPool.acquire_ok ha] at hb
  exact ⟨Nat.pos_of_ne_zero hz, hc, hb.manager, hb.exchange, hb.contents⟩

/-- A replacement that is refused leaves every entry. -/
theorem setWith_error {size : Nat} {content : Bytes} {e : Error}
    (h : c.setWith id size content = (.error e, c')) : c.Becomes c.contents? c' := by
  unfold setWith replaceBy at h
  split at h
  · rw [← (Prod.mk.inj h).2]
    exact .refl c
  split at h
  · rw [← (Prod.mk.inj h).2]
    exact .refl c
  split at h
  · rw [← (Prod.mk.inj h).2]
    exact (Becomes.refl c).heap _
  · obtain ⟨-, hb⟩ := swap_error h
    exact ⟨hb.manager, hb.exchange, hb.contents⟩

theorem set_ok {data : Bytes} (h : c.set id data = (.ok (), c')) :
    0 < data.length ∧ c.contains id = true ∧
      c.Becomes (Function.update c.contents? id (some data)) c' := by
  unfold set at h
  split at h
  · cases h
  · obtain ⟨hz, hc, hb⟩ := setWith_ok h
    rw [Bytes.overlay_eq_self (Bytes.length_zeros _).symm] at hb
    exact ⟨hz, hc, hb⟩

theorem set_error {data : Bytes} {e : Error} (h : c.set id data = (.error e, c')) :
    c.Becomes c.contents? c' := by
  unfold set at h
  split at h
  · rw [← (Prod.mk.inj h).2]
    exact .refl c
  · exact setWith_error h

/-! ## Stores under a new id -/

theorem storeWith_eq (c : Cache) (ids : Counter) (size : Nat) (content : Bytes) :
    c.storeWith ids size content =
      ((c.place ids.issued size content).1, (c.place ids.issued size content).2, ids.draw.2) := rfl

/-- A store is a new entry that holds the data, or is refused. -/
theorem store_eq (c : Cache) (ids : Counter) (data : Bytes) :
    c.store ids data =
      if data.isEmpty then (.error .noBuffer, c, ids.draw.2) else c.storeWith ids data.length data :=
  rfl

theorem clear_becomes (c : Cache) : c.Becomes (fun _ => none) c.clear := by
  refine ⟨rfl, rfl, ?_⟩
  funext k
  rfl

/-! ## Ids without an entry -/

/-- What the owner's operations keep: manager, region, and that nothing is stored under an
id, unless that id was drawn meanwhile. -/
structure Kept (c : Cache) (ids : Counter) (c' : Cache) (ids' : Counter) : Prop where
  manager : c'.manager = c.manager
  exchange : c'.exchange = c.exchange
  ids_le : ids.issued ≤ ids'.issued
  absent : ∀ id, id < ids.issued ∨ ids'.issued ≤ id → c.contents? id = none → c'.contents? id = none

theorem Kept.refl (c : Cache) (ids : Counter) : c.Kept ids c ids :=
  ⟨rfl, rfl, Nat.le_refl _, fun _ _ hn => hn⟩

theorem Kept.draw (c : Cache) {ids ids' : Counter} (h : ids.issued ≤ ids'.issued) :
    c.Kept ids c ids' := ⟨rfl, rfl, h, fun _ _ hn => hn⟩

theorem Kept.trans {ids ids' ids'' : Counter} (h : c.Kept ids c' ids') (h' : c'.Kept ids' c'' ids'') :
    c.Kept ids c'' ids'' where
  manager := h'.manager.trans h.manager
  exchange := h'.exchange.trans h.exchange
  ids_le := Nat.le_trans h.ids_le h'.ids_le
  absent id hid hn := by
    have := h.ids_le
    have := h'.ids_le
    exact h'.absent id (by omega) (h.absent id (by omega) hn)

theorem Becomes.kept {ids : Counter} (h : c.Becomes view c')
    (hv : ∀ id, c.contents? id = none → view id = none) : c.Kept ids c' ids :=
  ⟨h.manager, h.exchange, Nat.le_refl _, fun id _ hn => by rw [h.contents]; exact hv id hn⟩

/-- Changing an entry that is there, or taking one away, makes no new one. -/
theorem update_absent {v : Option Bytes} (h : (view id).isSome = true ∨ v = none) (k : Nat)
    (hk : view k = none) : Function.update view id v k = none := by
  rw [Function.update_apply]
  split
  · rename_i he
    subst he
    rcases h with h | h
    · rw [hk] at h
      cases h
    · exact h
  · exact hk

theorem place_kept (c : Cache) (ids : Counter) (size : Nat) (content : Bytes) :
    c.Kept ids (c.place ids.issued size content).2 ids.draw.2 := by
  cases h : c.place ids.issued size content with
  | mk r c' =>
    cases r with
    | error e =>
      have hb := place_error h
      exact ⟨hb.manager, hb.exchange, Nat.le_succ _, fun id _ hn => by rw [hb.contents]; exact hn⟩
    | ok s =>
      obtain ⟨-, -, -, hb⟩ := place_ok h
      refine ⟨hb.manager, hb.exchange, Nat.le_succ _, fun id hid hn => ?_⟩
      have hne : id ≠ ids.issued := by
        rw [Counter.issued_draw_snd] at hid
        omega
      rw [hb.contents, Function.update_of_ne hne]
      exact hn

/-! ## Offers -/

/-- An offer to take bytes has a new id, and its area will hold them. -/
theorem offerMalloc_ok {ids ids' : Counter} {n : Nat} {o : Offer}
    (h : c.offerMalloc ids n = (.ok o, ids')) :
    ∃ x, c.exchange = some x ∧ n ≤ x.layout.areaSize ∧ ids' = ids.draw.2 ∧
      o = { exchange := x, manager := c.manager, id := ids.issued, transfer := .inbound n } := by
  unfold offerMalloc at h
  split at h
  · cases h
  rename_i x hx
  split at h
  · cases h
  split at h
  · cases h
  rename_i hn
  simp only [Prod.mk.injEq, Except.ok.injEq] at h
  exact ⟨x, hx, by omega, h.2.symm, h.1.symm⟩

theorem offerMalloc_ids (c : Cache) (ids : Counter) (n : Nat) :
    ids.issued ≤ (c.offerMalloc ids n).2.issued := by
  unfold offerMalloc
  split
  · exact Nat.le_refl _
  · split
    · exact Nat.le_succ _
    · split <;> exact Nat.le_succ _

/-- An offer of an entry is of its bytes as they are, and its area will hold them. -/
theorem offerRetrieve_ok {o : Offer} (h : c.offerRetrieve id = .ok o) :
    ∃ x payload, c.exchange = some x ∧ c.contents? id = some payload ∧
      payload.length ≤ x.layout.areaSize ∧
      o = { exchange := x, manager := c.manager, id, transfer := .outbound payload } := by
  unfold offerRetrieve at h
  split at h
  · cases h
  rename_i x hx
  split at h
  · cases h
  rename_i payload hp
  split at h
  · cases h
  · rename_i hn
    exact ⟨x, payload, hx, hp, by omega, (Except.ok.inj h).symm⟩

end Cache

namespace Pending

variable {p : Pending} {c c' : Cache} {shm : Shm}

/-- The payload of an inbound handoff that was taken is an entry under its id, which was
free; an outbound handoff leaves the cache alone. -/
theorem take_ok {s : Segment} (h : p.take c shm = (.ok s, c')) :
    (p.direction = .outbound ∧ s = p.segment ∧ c' = c) ∨
    (p.direction = .inbound ∧ c.contents? p.segment.id = none ∧
      s = c.entrySegment p.segment.id (p.exchange.payloadLength shm p.area) ∧
      c.Becomes (Function.update c.contents? p.segment.id (some (shm.bytes p.exchange.region
        (p.exchange.layout.areaOffset p.area) (p.exchange.payloadLength shm p.area)))) c') := by
  unfold take at h
  split at h
  · rename_i hd
    simp only [Prod.mk.injEq, Except.ok.injEq] at h
    exact Or.inl ⟨hd, h.1.symm, h.2.symm⟩
  rename_i hd
  simp only at h
  generalize p.exchange.payloadLength shm p.area = length at h ⊢
  split at h
  · cases h
  split at h
  · cases h
  rename_i bytes hb
  split at h
  · cases h
  rename_i c₁ hi
  simp only [Prod.mk.injEq, Except.ok.injEq] at h
  obtain ⟨rfl, rfl⟩ := h
  obtain ⟨hnone, hbec⟩ := Cache.insert_ok hi
  have hread : bytes = shm.bytes p.exchange.region (p.exchange.layout.areaOffset p.area) length := by
    rw [Shm.read_eq] at hb
    split at hb
    · exact (Except.ok.inj hb).symm
    · exact nomatch hb
  rw [← hread]
  exact Or.inr ⟨hd, hnone, Cache.entrySegment_congr hbec.manager _ _, hbec.manager, hbec.exchange,
    hbec.contents⟩

/-- The segment of a payload that was taken is as long as the payload. -/
theorem take_entry {s : Segment} (h : p.take c shm = (.ok s, c')) :
    (p.direction = .outbound ∧ c' = c) ∨
    (p.direction = .inbound ∧ c.contents? p.segment.id = none ∧ ∃ bytes : Bytes,
      s = c.entrySegment p.segment.id bytes.length ∧
      c.Becomes (Function.update c.contents? p.segment.id (some bytes)) c') := by
  rcases take_ok h with ⟨hd, -, hc⟩ | ⟨hd, hn, hs, hc⟩
  · exact Or.inl ⟨hd, hc⟩
  · refine Or.inr ⟨hd, hn, _, ?_, hc⟩
    rw [hs, Shm.bytes, Block.length_read]

theorem take_error {e : Error} (h : p.take c shm = (.error e, c')) :
    p.direction = .inbound ∧ c.Becomes c.contents? c' := by
  unfold take at h
  split at h
  · cases h
  rename_i hd
  refine ⟨hd, ?_⟩
  simp only at h
  generalize p.exchange.payloadLength shm p.area = length at h
  split at h
  · rw [← (Prod.mk.inj h).2]
    exact (Cache.Becomes.refl c).heap _
  split at h
  · rw [← (Prod.mk.inj h).2]
    exact (Cache.Becomes.refl c).heap _
  split at h
  · rename_i hi
    rw [← (Prod.mk.inj h).2]
    obtain ⟨-, hb⟩ := Cache.insert_error hi
    exact ⟨hb.manager, hb.exchange, hb.contents⟩
  · cases (Prod.mk.inj h).1

end Pending
end TierAlloc
