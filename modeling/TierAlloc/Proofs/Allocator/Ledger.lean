import TierAlloc.Allocator.Access
import TierAlloc.Allocator.Handoff
import TierAlloc.Proofs.Cache.Entries
import TierAlloc.Proofs.Memory.Tally
import TierAlloc.Proofs.Static.Tier

/-!
# Ledgers of an allocator

An allocator is seen through its `Ledger`: the batches, and by id the ephemeral regions,
the cache entries and the segments. What an operation does is said by the ledger after
it (`Allocator.Becomes`); ids that are used up and the state of the heap are not seen.

**Results.**
* `get_eq_ok`, `getIn_eq_ok`: looking a segment up is looking into the ledger.
* `register_new`: a segment under a new id is recorded, and its tier is left alone.
-/
namespace TierAlloc

open Function (update)

/-! ## Ledgers -/

/-- What there is to see of an allocator. -/
structure Ledger where
  batches : List Batch
  regions : Nat → Option Region
  contents : Nat → Option Bytes
  segments : Nat → Option Segment

namespace Ledger

/-- Batch `b` in place of the one with its id. -/
def setBatch (l : Ledger) (b : Batch) : Ledger := { l with batches := l.batches.set b.id b }

def addBatch (l : Ledger) (b : Batch) : Ledger := { l with batches := l.batches ++ [b] }

def setRegion (l : Ledger) (id : Nat) (r : Option Region) : Ledger :=
  { l with regions := update l.regions id r }

def setContents (l : Ledger) (id : Nat) (bytes : Option Bytes) : Ledger :=
  { l with contents := update l.contents id bytes }

/-- The segment is a live one from now on. -/
def record (l : Ledger) (s : Segment) : Ledger := { l with segments := update l.segments s.id (some s) }

def forget (l : Ledger) (id : Nat) : Ledger := { l with segments := update l.segments id none }

end Ledger

namespace Allocator

def ledger (a : Allocator) : Ledger := ⟨a.batches, a.ephemeral.region?, a.cache.contents?, a.segments.get?⟩

/-- `a'` is a later state of `a` with the ledger `l`. -/
structure Becomes (a : Allocator) (l : Ledger) (a' : Allocator) : Prop where
  config : a'.config = a.config
  ids : a.ids.issued ≤ a'.ids.issued
  ephemeral : a'.ephemeral.manager = a.ephemeral.manager
  manager : a'.cache.manager = a.cache.manager
  exchange : a'.cache.exchange = a.cache.exchange
  ledger : a'.ledger = l

/-- No segment has an id that was not drawn yet. -/
def Unissued (a : Allocator) : Prop := ∀ id, a.ids.issued ≤ id → a.ledger.segments id = none

variable {a a' a'' : Allocator} {l : Ledger} {s : Segment} {id : Nat}

theorem Becomes.refl (a : Allocator) : a.Becomes a.ledger a := ⟨rfl, Nat.le_refl _, rfl, rfl, rfl, rfl⟩

theorem Becomes.trans (h : a.Becomes l a') {l' : Ledger} (h' : a'.Becomes l' a'') : a.Becomes l' a'' where
  config := h'.config.trans h.config
  ids := Nat.le_trans h.ids h'.ids
  ephemeral := h'.ephemeral.trans h.ephemeral
  manager := h'.manager.trans h.manager
  exchange := h'.exchange.trans h.exchange
  ledger := h'.ledger

theorem Becomes.name_eq (h : a.Becomes l a') : a'.name = a.name := by rw [name, h.config, name]

/-- Using up ids and rearranging the heap is not seen. -/
theorem becomes_idle {cache : Cache} {ids : Counter} (hids : a.ids.issued ≤ ids.issued)
    (hc : a.cache.Becomes a.cache.contents? cache) : a.Becomes a.ledger { a with cache, ids } := by
  refine ⟨rfl, hids, rfl, hc.manager, hc.exchange, ?_⟩
  unfold ledger
  rw [hc.contents]

theorem becomes_draw {ids : Counter} (hids : a.ids.issued ≤ ids.issued) :
    a.Becomes a.ledger { a with ids } := ⟨rfl, hids, rfl, rfl, rfl, rfl⟩

theorem get_eq_ok : a.get id = .ok s ↔ a.ledger.segments id = some s := by
  show a.get id = .ok s ↔ a.segments.get? id = some s
  unfold get
  split <;> simp_all

theorem getIn_eq_ok {tier : Tier} : a.getIn tier id = .ok s ↔ a.ledger.segments id = some s ∧ s.tier = tier := by
  unfold getIn
  cases hg : a.get id with
  | error e =>
    have : a.ledger.segments id ≠ some s := fun h => by
      rw [get_eq_ok.mpr h] at hg
      cases hg
    simp [bind, Except.bind, this]
  | ok s₀ =>
    have hs := get_eq_ok.mp hg
    simp only [bind, Except.bind, hs, Option.some.injEq]
    split
    · rename_i ht
      constructor
      · intro h
        obtain rfl := Except.ok.inj h
        exact ⟨rfl, ht⟩
      · rintro ⟨rfl, -⟩
        rfl
    · rename_i ht
      constructor
      · intro h
        cases h
      · rintro ⟨rfl, h⟩
        exact absurd h ht

/-- A segment under a new id is recorded. -/
theorem register_new (hnew : a.segments.get? s.id = none) (shm : Shm) :
    a.register s shm = (.ok (s.stamp a.name),
      { a with segments := a.segments.insert s.id (s.stamp a.name) }, shm) := by
  have hc : a.segments.contains (s.stamp a.name).id = false := by
    show (a.segments.get? s.id).isSome = false
    rw [hnew]
    rfl
  unfold register
  simp only [hc, Bool.false_eq_true, if_false]
  rfl

end Allocator
end TierAlloc
