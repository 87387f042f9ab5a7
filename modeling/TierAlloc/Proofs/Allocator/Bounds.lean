import TierAlloc.Proofs.Allocator.Accounts
import TierAlloc.Proofs.Allocator.Sizes
import TierAlloc.Proofs.Ids.Family

/-!
# An allocator and direct use of its cache

The cache of an allocator can also be used directly: entries are stored, replaced, given back and
handed over under it, and its table hears nothing of that. So the size in the table and the length
of the entry can come apart, in either direction, and an entry can be gone that the table still
lists. A write goes by both.

What the two sizes are is told by the events (`sizesAfter`): an operation of the allocator on an
entry sets both, and direct use only the length.

**Results.**
* `Working.Step.stored`: what direct use of a cache does to the lengths of its entries.
* `Member.Step.sizes`: every turn of an allocator does to the sizes what its event says.
* `writes_bounded`: what a write to a cache segment does, and when both sizes are equal again.
-/
namespace TierAlloc

open Function (update)

/-! ## Direct use of a cache -/

/-- What a whole operation that succeeds with the answer `new` makes of the lengths. -/
def EntryOp.resized (new : Option Nat) (m : Nat → Option Nat) : EntryOp → Nat → Option Nat
  | malloc size | storeWith size _ => new.elim m fun id => update m id (some size)
  | store data => new.elim m fun id => update m id (some data.length)
  | set id data => update m id (some data.length)
  | setWith id size _ => update m id (some size)
  | free id => update m id none
  | freeSegment s => update m s.id none
  | clear => fun _ => none
  | modify .. | acquire _ | swap .. => m

/-- The lengths that an operation leaves are those of the bytes that it leaves. -/
theorem EntryOp.length_effect (o : EntryOp) (new : Option Nat) (m : Nat → Option Bytes) :
    Option.map List.length ∘ o.effect new m = o.resized new (Option.map List.length ∘ m) := by
  have hentered : ∀ bytes : Bytes, Option.map List.length ∘ entered m bytes new =
      new.elim (Option.map List.length ∘ m) fun id => update (Option.map List.length ∘ m) id (some bytes.length) := by
    intro bytes
    cases new with
    | none => rfl
    | some id => simp only [entered, Function.comp_update, Option.map_some, Option.elim_some]
  cases o with
  | malloc size => rw [effect, hentered, Bytes.length_zeros, resized]
  | store data => rw [effect, hentered, resized]
  | storeWith size content => rw [effect, hentered, Bytes.length_overlay, Bytes.length_zeros, resized]
  | set id data => simp only [effect, resized, Function.comp_update, Option.map_some]
  | setWith id size content =>
    simp only [effect, resized, Function.comp_update, Option.map_some, Bytes.length_overlay, Bytes.length_zeros]
  | modify id offset data =>
    have hsame : ((m id).map fun bytes => bytes.splice offset data).map List.length = (m id).map List.length := by
      cases m id with
      | none => rfl
      | some bytes => exact congrArg some (Bytes.length_splice bytes offset data)
    rw [effect, resized, Function.comp_update, hsame]
    exact Function.update_eq_self id (Option.map List.length ∘ m)
  | free id => simp only [effect, resized, Function.comp_update, Option.map_none]
  | freeSegment s => simp only [effect, resized, Function.comp_update, Option.map_none]
  | clear => rfl
  | acquire size => rfl
  | swap id b => rfl

namespace Working

/-- What the end of a handoff makes of the lengths: what was delivered is as long as its segment. -/
def handed (k : Cycle) (m : Nat → Option Nat) : Except Error Segment → Nat → Option Nat
  | .ok s =>
    match k.pending.direction with
    | .inbound => update m s.id (some s.size)
    | .outbound => m
  | .error _ => m

/-- What an event makes of the lengths. -/
def Event.resized (m : Nat → Option Nat) : Event → Nat → Option Nat
  | op o (.ok new) => o.resized new m
  | finished f _ (.ok ()) => update m f.id (some f.buffer.size)
  | channel (.wait k r) | channel (.waitTimeout k r) => handed k m r
  | _ => m

variable {manager : String} {allowed : Traffic → Descriptor → Prop} {s s' : Working} {e : Event}

theorem size_becomes {c c' : Cache} {view : Nat → Option Bytes} (h : c.Becomes view c') :
    c'.size? = Option.map List.length ∘ view := congrArg (Option.map List.length ∘ ·) h.contents

theorem size_settled {k : Cycle} {goal : Goal} {c cache : Cache} {shm shm' : Shm} {r : Except Error Segment}
    (h : k.pending.settle? goal [] c shm = some (r, cache, shm')) : cache.size? = handed k c.size? r := by
  rcases Pending.settle_cases h with ⟨shm₁, htake⟩ | ⟨rfl, rfl⟩
  · cases r with
    | error e => exact size_becomes (Pending.take_error htake).2
    | ok seg =>
      rcases Pending.take_entry htake with ⟨hd, rfl⟩ | ⟨hd, -, bytes, rfl, hb⟩
      · simp only [handed, hd]
      · simp only [handed, hd]
        rw [size_becomes hb, Function.comp_update]
        rfl
  · rfl

/-- Every step of a cache does to the lengths what its event says. -/
theorem Step.stored (hs : Step manager allowed s e s') :
    s'.channel.cache.size? = e.resized s.channel.cache.size? := by
  cases hs with
  | op o hw =>
    cases ha : o.answer s.channel.cache s.channel.ids with
    | error e => exact congrArg (Option.map List.length ∘ ·) (EntryOp.contents_of_error hw ha)
    | ok new =>
      exact (congrArg (Option.map List.length ∘ ·) (EntryOp.contents_of_ok hw ha)).trans (o.length_effect new _)
  | beganStore hb => exact size_becomes (begin_becomes (Or.inr hb))
  | refusedStore hb => exact size_becomes (begin_becomes (Or.inr hb))
  | beganReplace hb => exact size_becomes (begin_becomes (Or.inl ⟨_, hb⟩))
  | refusedReplace hb => exact size_becomes (begin_becomes (Or.inl ⟨_, hb⟩))
  | @finished pre f post content answer cache hf hd =>
    cases answer with
    | error e => exact size_becomes (Fill.finish_error hd)
    | ok u =>
      refine (size_becomes (Fill.finish_ok hd)).trans ?_
      rw [Function.comp_update, Option.map_some, Bytes.length_overlay]
      rfl
  | channel he hs =>
    cases hs with
    | entry o => exact absurd rfl (he o)
    | wait ht hw => exact size_settled hw
    | waitTimeout ht hw => exact size_settled hw
    | _ => rfl

end Working

/-! ## Writes -/

namespace Allocator

variable {a a' : Allocator} {shm : Shm} {s : Segment} {id : Nat}

/-- A write to a cache segment goes by the size in the table first, then by the entry. -/
theorem write_entry (hlive : a.get id = .ok s) (ht : s.tier = .cache) (offset : Nat) (data : Bytes) (shm : Shm) :
    a.write id offset data shm =
      if s.size < offset + data.length then .error (.rangeError offset data.length)
      else match a.cache.entries.get? id with
        | none => .error (.segmentNotFound id)
        | some b =>
          if offset + data.length ≤ b.size then
            .ok ({ a with cache.entries := a.cache.entries.insert id { b with bytes := b.bytes.splice offset data } },
              shm)
          else .error (.rangeError offset data.length) := by
  unfold write
  rw [hlive]
  simp only [bind, Except.bind]
  split
  · rfl
  cases hk : s.kind with
  | static batch bin start =>
    rw [Segment.tier_of_static hk] at ht
    cases ht
  | ephemeral =>
    rw [Segment.tier_of_ephemeral hk] at ht
    cases ht
  | cache place =>
    unfold writeCached Cache.contents? Cache.modify
    cases hb : a.cache.entries.get? id with
    | none => simp only [Option.map_none]
    | some b =>
      simp only [Option.map_some, Buffer.size, bind, Except.bind, pure, Except.pure]
      by_cases hle : offset + data.length ≤ b.bytes.length
      · simp only [if_pos hle]
        exact (if_pos hle).symm
      · simp only [if_neg hle]
        exact (if_neg hle).symm

/-- `a'` is `a` with `data` in the entry under `id`, from `offset` on. -/
structure Overwritten (a : Allocator) (id offset : Nat) (data : Bytes) (a' : Allocator) : Prop where
  rest : a' = { a with cache.entries := a'.cache.entries }
  others : ∀ k, k ≠ id → a'.cache.entries.get? k = a.cache.entries.get? k
  entry : ∃ b b', a.cache.entries.get? id = some b ∧ a'.cache.entries.get? id = some b' ∧
    b'.capacity = b.capacity ∧ b'.size = b.size ∧ ∀ i, b'.bytes[i]? =
      if offset ≤ i ∧ i < offset + data.length then data[i - offset]? else b.bytes[i]?

theorem overwritten {b : Buffer} {offset : Nat} {data : Bytes} (hb : a.cache.entries.get? id = some b)
    (hle : offset + data.length ≤ b.size) :
    a.Overwritten id offset data
      { a with cache.entries := a.cache.entries.insert id { b with bytes := b.bytes.splice offset data } } where
  rest := rfl
  others k hk := by rw [Table.get?_insert, if_neg hk]
  entry := by
    refine ⟨b, { b with bytes := b.bytes.splice offset data }, hb, ?_, rfl, Bytes.length_splice ..,
      Bytes.getElem?_splice hle⟩
    rw [Table.get?_insert, if_pos rfl]

/-- Inside of a segment that the table has `n` bytes for, and of its entry. -/
def Inside (n : Nat) (stored : Option Nat) (offset length : Nat) : Prop :=
  offset + length ≤ n ∧ ∃ m, stored = some m ∧ offset + length ≤ m

/-- Beyond one of the two. -/
def Beyond (n : Nat) (stored : Option Nat) (offset length : Nat) : Prop :=
  n < offset + length ∨ ∃ m, stored = some m ∧ m < offset + length

theorem Beyond.not_inside {n offset length : Nat} {stored : Option Nat} (h : Beyond n stored offset length) :
    ¬Inside n stored offset length := by
  rintro ⟨hn, m, hm, hle⟩
  rcases h with h | ⟨m', hm', h⟩
  · omega
  · rw [hm] at hm'
    obtain rfl := Option.some.inj hm'
    omega

/-- What writing to the cache segment `id` does, if the table has `n` bytes for it and the cache an
entry of this length, or none: it is bounded by both. -/
structure Bounded (a : Allocator) (shm : Shm) (id n : Nat) (stored : Option Nat) : Prop where
  ok_iff : ∀ offset data, (∃ a' shm', a.write id offset data shm = .ok (a', shm')) ↔
    Inside n stored offset data.length
  written : ∀ offset data a' shm', a.write id offset data shm = .ok (a', shm') →
    a.Overwritten id offset data a' ∧ shm' = shm
  refused : ∀ offset data e, a.write id offset data shm = .error e →
    Beyond n stored offset data.length ∧ e = .rangeError offset data.length ∨
      offset + data.length ≤ n ∧ stored = none ∧ e = .segmentNotFound id

/-- The three ways in which a write to a cache segment can end. -/
theorem write_outcome (hlive : a.get id = .ok s) (ht : s.tier = .cache) (offset : Nat)
    (data : Bytes) (shm : Shm) :
    (Inside s.size (a.cache.size? id) offset data.length ∧
      ∃ a', a.write id offset data shm = .ok (a', shm) ∧ a.Overwritten id offset data a') ∨
    (Beyond s.size (a.cache.size? id) offset data.length ∧
      a.write id offset data shm = .error (.rangeError offset data.length)) ∨
    (offset + data.length ≤ s.size ∧ a.cache.size? id = none ∧
      a.write id offset data shm = .error (.segmentNotFound id)) := by
  have hsize : a.cache.size? id = (a.cache.entries.get? id).map Buffer.size := Option.map_map ..
  rw [write_entry hlive ht, hsize]
  by_cases hn : s.size < offset + data.length
  · rw [if_pos hn]
    exact Or.inr (Or.inl ⟨Or.inl hn, rfl⟩)
  rw [if_neg hn]
  cases hb : a.cache.entries.get? id with
  | none => exact Or.inr (Or.inr ⟨Nat.le_of_not_lt hn, rfl, rfl⟩)
  | some b =>
    simp only [Option.map_some]
    by_cases hm : offset + data.length ≤ b.size
    · rw [if_pos hm]
      exact Or.inl ⟨⟨Nat.le_of_not_lt hn, _, rfl, hm⟩, _, rfl, overwritten hb hm⟩
    · rw [if_neg hm]
      exact Or.inr (Or.inl ⟨Or.inr ⟨_, rfl, Nat.lt_of_not_le hm⟩, rfl⟩)

theorem bounded (hlive : a.get id = .ok s) (ht : s.tier = .cache) (shm : Shm) :
    a.Bounded shm id s.size (a.cache.size? id) := by
  refine ⟨fun offset data => ?_, fun offset data a' shm' h => ?_, fun offset data e h => ?_⟩ <;>
    rcases write_outcome hlive ht offset data shm with ⟨hin, a₁, hw, ho⟩ | ⟨hbeyond, hw⟩ | ⟨hn, hnone, hw⟩
  · exact iff_of_true ⟨a₁, shm, hw⟩ hin
  · refine iff_of_false ?_ hbeyond.not_inside
    rintro ⟨a', shm', h⟩
    cases hw.symm.trans h
  · refine iff_of_false ?_ ?_
    · rintro ⟨a', shm', h⟩
      cases hw.symm.trans h
    · rintro ⟨-, m, hm, -⟩
      cases hnone.symm.trans hm
  · obtain ⟨rfl, rfl⟩ := Prod.mk.inj (Except.ok.inj (hw.symm.trans h))
    exact ⟨ho, rfl⟩
  · cases hw.symm.trans h
  · cases hw.symm.trans h
  · cases hw.symm.trans h
  · exact Or.inl ⟨hbeyond, (Except.error.inj (hw.symm.trans h)).symm⟩
  · exact Or.inr ⟨hn, hnone, (Except.error.inj (hw.symm.trans h)).symm⟩

end Allocator

/-! ## Turns of an allocator -/

namespace Member

/-- What a turn of an allocator makes of the sizes. -/
def Event.sizes (m : Sizes) : Event → Sizes
  | cache e => { m with stored := e.resized m.stored }
  | allocator e => e.sizes m
  | filled f (.ok _) | replaced f (.ok ()) => m.put f.id f.buffer.size
  | _ => m

/-- The sizes after these turns. -/
def sizesAfter (events : List Event) : Sizes := events.foldl Event.sizes .empty

theorem sizesAfter_append (events : List Event) (e : Event) :
    sizesAfter (events ++ [e]) = e.sizes (sizesAfter events) := by
  rw [sizesAfter, List.foldl_append]
  rfl

/-- The segment whose two sizes a turn makes equal: its entry is replaced through the allocator. -/
def Event.replaced? : Event → Option Nat
  | allocator (.replace r (.ok ())) => some r.id
  | replaced f (.ok ()) => some f.id
  | _ => none

theorem Event.sizes_replaced {e : Event} {id : Nat} (h : e.replaced? = some id) (m : Sizes) :
    ∃ n, e.sizes m = m.put id n := by
  unfold replaced? at h
  split at h
  · obtain rfl := Option.some.inj h
    exact ⟨_, rfl⟩
  · obtain rfl := Option.some.inj h
    exact ⟨_, rfl⟩
  · cases h

/-- What turns rely on, with the sizes that the events say. -/
structure Sized (events : List Event) (a : Allocator) (t : Traffic) (fills : List Fill) (ids : Counter) : Prop where
  indexed : a.Indexed
  orderly : (a.holding t fills).Orderly ids
  sizes : a.ledger.sizes = sizesAfter events

variable {events : List Event} {a : Allocator} {t : Traffic} {fills : List Fill} {ids : Counter} {shm : Shm}
  {e : Event} {T T' : Turn}

/-- Every turn of an allocator does to the sizes what its event says. -/
theorem Step.sizes (hi : a.Indexed) (ho : (a.holding t fills).Orderly ids)
    (hs : Step ⟨ids, shm, .allocator a t fills⟩ e T') :
    ∃ a' t' fills', T'.member = .allocator a' t' fills' ∧ a'.ledger.sizes = e.sizes a.ledger.sizes := by
  have hi' : Allocator.Indexed { a with ids } := ⟨hi.uniform, hi.own⟩
  cases hs with
  | @allocator _ _ _ _ _ e a' shm' t' h =>
    exact ⟨a', t', fills, rfl, (System.Step.sizes (s := ⟨{ a with ids }, shm, t⟩) hi' ho h).2⟩
  | @itsCache _ _ _ _ _ e ids' shm' c' t' fills' h =>
    exact ⟨_, t', fills', rfl, congrArg (Sizes.mk _) h.stored⟩
  | @itsRegions _ _ _ _ _ e ids' shm' m' h =>
    refine ⟨_, t, fills, rfl, ?_⟩
    cases h <;> rfl
  | @filled _ _ _ _ pre f post content answer cache r a' shm' hp hf h =>
    obtain ⟨s, rfl, hid, hstored⟩ := filled_stored ho hp hf h
    refine ⟨a', t, _, rfl, hstored.sizes.trans ?_⟩
    rw [hid, hstored.size, Bytes.length_overlay]
    rfl
  | @replaced _ _ _ _ pre f post content answer a' hp h =>
    refine ⟨a', t, _, rfl, ?_⟩
    cases answer with
    | error e => exact (Allocator.replaceEntry_error Fill.finish_error h).sizes
    | ok u =>
      obtain ⟨s, cache, hlive, ht, hd, rfl⟩ := Allocator.replaceEntry_ok h
      have hid : s.id = f.id := hi.own _ s hlive
      have hb := Allocator.replaceEntry_becomes (a := { a with ids }) (n := f.buffer.size) hid (Fill.finish_ok hd)
      have hlen : f.buffer.size = (f.buffer.bytes.overlay content).length := (Bytes.length_overlay ..).symm
      show _ = a.ledger.sizes.put f.id f.buffer.size
      rw [← hid] at hb ⊢
      exact hb.sizes.trans (Ledger.sizes_put (s := { s with size := f.buffer.size }) ht hlen)

theorem Sized.step (h : Sized events a t fills ids) (hs : Step ⟨ids, shm, .allocator a t fills⟩ e T') :
    ∃ a' t' fills', T'.member = .allocator a' t' fills' ∧ Sized (events ++ [e]) a' t' fills' T'.ids := by
  obtain ⟨a', t', fills', hm, hsizes⟩ := hs.sizes h.indexed h.orderly
  obtain ⟨hi, hmoves⟩ := Step.moves (T := ⟨ids, shm, .allocator a t fills⟩) h.indexed h.orderly hs
  rw [hm] at hi hmoves
  refine ⟨a', t', fills', hm, hi, hmoves.orderly h.orderly, ?_⟩
  rw [hsizes, h.sizes, sizesAfter_append]

/-- An allocator that was just made has no sizes. -/
theorem sized_create {config : Config} {shm₀ : Shm} (hc : Allocator.create config shm₀ = (.ok a, shm)) :
    Sized [] a .empty [] a.ids := by
  obtain ⟨hi, hnil, hnone⟩ := (Made.allocator hc).fresh
  refine ⟨hi, Holding.orderly_of_fresh hnil hnone, ?_⟩
  obtain ⟨first, shm₁, cache, -, -, hcache, rfl⟩ := Allocator.create_ok hc
  refine congrArg (Sizes.mk _) (funext fun id => ?_)
  exact congrArg (Option.map List.length) (Cache.create_contents hcache id)

/-- **Writes are bounded by both sizes.** Whatever is done with an allocator, and with its cache
directly, in whatever order and with calls within calls: the sizes of its segments and its entries
are those that the events say. A write to a cache segment is done when it is inside of both sizes,
and changes these bytes of the entry and nothing else. Otherwise it is refused, as out of
range or because the entry is gone. Whenever the allocator itself has replaced an entry, its two sizes
are equal. -/
theorem writes_bounded {config : Config} {shm₀ : Shm} (hc : Allocator.create config shm₀ = (.ok a, shm))
    (hrun : Run Step ⟨a.ids, shm, .allocator a .empty []⟩ events T) :
    ∃ b t fills, T.member = .allocator b t fills ∧ b.ledger.sizes = sizesAfter events ∧
      (∀ id s, b.get id = .ok s → s.tier = .cache → b.Bounded T.shm id s.size (b.cache.size? id)) ∧
      ∀ before e id, events = before ++ [e] → e.replaced? = some id →
        ∃ s, b.get id = .ok s ∧ s.tier = .cache ∧ b.cache.size? id = some s.size := by
  obtain ⟨b, t, fills, hm, h⟩ := hrun.invariant
    (P := fun events T => ∃ b t fills, T.member = .allocator b t fills ∧ Sized events b t fills T.ids)
    ⟨a, .empty, [], rfl, sized_create hc⟩ fun {events T e T'} ⟨b, t, fills, hm, h⟩ hs => by
      obtain ⟨ids, shm, m⟩ := T
      obtain rfl := hm
      exact h.step hs
  refine ⟨b, t, fills, hm, h.sizes, fun id s hlive ht => Allocator.bounded hlive ht T.shm,
    fun before e id he hid => ?_⟩
  subst he
  obtain ⟨n, hput⟩ := Event.sizes_replaced hid (sizesAfter before)
  have hsizes : b.ledger.sizes = (sizesAfter before).put id n := by rw [h.sizes, sizesAfter_append, hput]
  have hrecorded := (congrArg (fun m => m.recorded id) hsizes).trans (Sizes.put_recorded ..)
  have hstored := (congrArg (fun m => m.stored id) hsizes).trans (Sizes.put_stored ..)
  obtain ⟨s, hlive, hs⟩ := Option.map_eq_some_iff.mp hrecorded
  obtain ⟨ht, rfl⟩ := Prod.mk.inj hs
  exact ⟨s, Allocator.get_eq_ok.mpr hlive, ht, hstored⟩

/-! ## An entry that is replaced by a shorter one

Four bytes are stored through the sample allocator, and then two in their place directly. -/

def sampleStored : System := (System.start System.sampleAllocator System.sampleMemory).after (.cacheStore [1, 2, 3, 4])

def sampleShortened : Allocator :=
  { sampleStored.allocator with cache := (sampleStored.allocator.cache.set 0 [5, 6]).2 }

theorem writes_bounded_of_shortened : ∃ s, sampleShortened.get 0 = .ok s ∧ s.size = 4 ∧
    sampleShortened.Bounded sampleStored.shm 0 4 (some 2) := by
  obtain ⟨e, hs, -⟩ := @System.step_after (fun _ _ => True)
    (System.start System.sampleAllocator System.sampleMemory) (.cacheStore [1, 2, 3, 4])
  have hrun : Run Step ⟨System.sampleAllocator.ids, System.sampleMemory, .allocator System.sampleAllocator .empty []⟩
      _ ⟨sampleStored.allocator.ids, sampleStored.shm, .allocator sampleShortened .empty []⟩ :=
    .next (.next .start (.allocator hs)) (.itsCache (.op (.set 0 [5, 6]) trivial))
  obtain ⟨b, t, fills, hm, -, hb, -⟩ := writes_bounded System.sample_create hrun
  obtain ⟨rfl, -, -⟩ := Member.allocator.inj hm
  have hview : (sampleShortened.segments.get? 0).map (fun s => (s.tier, s.size)) = some (.cache, 4) := by
    decide +kernel
  obtain ⟨s, hlive, hs⟩ := Option.map_eq_some_iff.mp hview
  obtain ⟨ht, hn⟩ := Prod.mk.inj hs
  have hlive : sampleShortened.get 0 = .ok s := Allocator.get_eq_ok.mpr hlive
  have hstored : sampleShortened.cache.size? 0 = some 2 := by decide +kernel
  have h := hb 0 s hlive ht
  rw [hn, hstored] at h
  exact ⟨s, hlive, hn, h⟩

end Member
end TierAlloc
