import TierAlloc.Proofs.Cache.Entries
import TierAlloc.Proofs.Memory.Tally
import Mathlib.Algebra.BigOperators.Group.List.Basic

/-!
# The budget of a cache

What a cache has taken from its heap is what its entries count for, and what callbacks
hold that are still at work: `Budgeted c capacity held`, with `held` bytes for those. A
buffer moves between the heap, a callback and an entry, and each move carries its class
along. Since the charge depends on the stored bytes alone, an operation that changes no
entry and ends with the same buffers held has left the total as it was.

Storing and replacing may call back between taking the buffer and putting it in place.
`beginStore` and `beginReplace` are their first halves (`place_eq`, `replaceBy_eq`).

**Results.**
* `charge_congr`: the charge is a matter of the stored bytes.
* `Budgeted.insert`, `Budgeted.swap`: a buffer that was held is put in place, or goes back.
* `Budgeted.place`, `Budgeted.setWith`, `Budgeted.modify`, `Budgeted.free`, `Budgeted.clear`:
  every operation keeps the budget.
-/
namespace TierAlloc

namespace Table

universe u v w

variable {κ : Type u} {α : Type v} {β : Type w} [DecidableEq κ]

/-- Tables that look the same show the same values. -/
theorem map_values_perm {t t' : Table κ α} {f : α → β}
    (h : ∀ k, (t.get? k).map f = (t'.get? k).map f) : (t.values.map f).Perm (t'.values.map f) := by
  have hkeys : ∀ t : Table κ α, ((t.entries.map fun p => (p.1, f p.2)).map Prod.fst).Nodup := by
    intro t
    rw [List.map_map]
    exact t.nodup
  have hmem : ∀ (t : Table κ α) k y,
      (k, y) ∈ t.entries.map (fun p => (p.1, f p.2)) ↔ (t.get? k).map f = some y := by
    intro t k y
    simp only [List.mem_map, Prod.mk.injEq, Prod.exists, mem_entries_iff, Option.map_eq_some_iff]
    constructor
    · rintro ⟨k', v, hv, rfl, rfl⟩
      exact ⟨v, hv, rfl⟩
    · rintro ⟨v, hv, rfl⟩
      exact ⟨k, v, hv, rfl, rfl⟩
  have hp : (t.entries.map fun p => (p.1, f p.2)).Perm (t'.entries.map fun p => (p.1, f p.2)) := by
    refine (List.perm_ext_iff_of_nodup (.of_map _ (hkeys t)) (.of_map _ (hkeys t'))).mpr fun ⟨k, y⟩ => ?_
    rw [hmem, hmem, h]
  have hvalues : ∀ t : Table κ α,
      (t.entries.map fun p => (p.1, f p.2)).map Prod.snd = t.values.map f := by
    intro t
    rw [values, List.map_map, List.map_map]
    rfl
  rw [← hvalues, ← hvalues]
  exact hp.map Prod.snd

end Table

namespace Cache

variable {c c' : Cache} {capacity : Option Nat} {held n id : Nat} {b : Buffer} {heap : BufferPool}

/-! ## What the entries count for -/

/-- What buffers count for in use. -/
def chargeOf (entries : Table Nat Buffer) : Nat := (entries.values.map fun b => sizeClass b.size).sum

/-- What the entries of a cache count for. -/
def charge (c : Cache) : Nat := chargeOf c.entries

theorem charge_congr (h : c'.contents? = c.contents?) : c'.charge = c.charge := by
  have hp : (c'.entries.values.map Buffer.bytes).Perm (c.entries.values.map Buffer.bytes) :=
    Table.map_values_perm fun k => congrFun h k
  have := (hp.map fun bytes => sizeClass bytes.length).sum_eq
  rwa [List.map_map, List.map_map] at this

theorem chargeOf_insert {entries : Table Nat Buffer} (id : Nat) (b : Buffer) :
    chargeOf (entries.insert id b) = sizeClass b.size + chargeOf (entries.erase id) := by
  rw [chargeOf, Table.values_insert, List.map_cons, List.sum_cons, chargeOf]

theorem chargeOf_erase {entries : Table Nat Buffer} (h : entries.get? id = some b) :
    chargeOf entries = sizeClass b.size + chargeOf (entries.erase id) := by
  rw [chargeOf, ((Table.values_perm h).map _).sum_eq, List.map_cons, List.sum_cons, chargeOf]

/-! ## The budget -/

/-- The heap has handed out what the entries count for, and `held` bytes beside. -/
structure Budgeted (c : Cache) (capacity : Option Nat) (held : Nat) : Prop where
  heap : c.heap.Sound
  limit : c.heap.capacity = capacity
  classed : ∀ {id b}, c.entries.get? id = some b → b.Classed
  total : c.heap.inUse = c.charge + held

theorem Budgeted.le (h : c.Budgeted capacity held) {limit : Nat} (hl : capacity = some limit) :
    c.heap.inUse ≤ limit :=
  h.heap.within limit (h.limit.trans hl)

/-- A new cache has nothing from its heap. -/
theorem budgeted_new (manager : String) (capacity : Option Nat) (x : Option Exchange) :
    { inProcess manager capacity with exchange := x }.Budgeted capacity 0 :=
  ⟨BufferPool.sound_create capacity, rfl, nofun, rfl⟩

theorem Budgeted.acquire (h : c.Budgeted capacity held) (ha : c.heap.acquire n = (.ok b, heap)) :
    { c with heap }.Budgeted capacity (held + sizeClass b.size) ∧ b.Classed ∧ b.bytes = .zeros n := by
  obtain ⟨hsound, hclass, htotal, hlimit⟩ := BufferPool.acquire_charged h.heap ha
  have hbytes := BufferPool.acquire_ok ha
  have hsize : b.size = n := by rw [Buffer.size, hbytes, Bytes.length_zeros]
  refine ⟨⟨hsound, hlimit.trans h.limit, h.classed, ?_⟩, by rw [Buffer.Classed, hsize, hclass], hbytes⟩
  show heap.inUse = c.charge + (held + sizeClass b.size)
  rw [htotal, h.total, hsize, BufferPool.classOf_eq, Nat.add_assoc]

theorem Budgeted.refused {e : Error} (h : c.Budgeted capacity held)
    (ha : c.heap.acquire n = (.error e, heap)) : { c with heap }.Budgeted capacity held := by
  obtain ⟨hsound, htotal, hlimit⟩ := BufferPool.acquire_refused h.heap ha
  exact ⟨hsound, hlimit.trans h.limit, h.classed, htotal.trans h.total⟩

/-- A buffer that was held goes back. -/
theorem Budgeted.recycle (h : c.Budgeted capacity (held + sizeClass b.size)) (hb : b.Classed) :
    { c with heap := c.heap.recycle b }.Budgeted capacity held := by
  have hcap : b.capacity = sizeClass b.size := hb.trans (BufferPool.classOf_eq _)
  have htotal := h.total
  obtain ⟨hsound, hless, hlimit⟩ := BufferPool.recycle_ok h.heap hb (by omega)
  refine ⟨hsound, hlimit.trans h.limit, h.classed, ?_⟩
  show (c.heap.recycle b).inUse = c.charge + held
  omega

/-- Entries with one more under a new id. -/
theorem Budgeted.put (h : c.Budgeted capacity (held + sizeClass b.size)) (hb : b.Classed)
    (hn : c.entries.get? id = none) :
    { c with entries := c.entries.insert id b }.Budgeted capacity held := by
  refine ⟨h.heap, h.limit, fun {k b'} hk => ?_, ?_⟩
  · change (c.entries.insert id b).get? k = some b' at hk
    rw [Table.get?_insert] at hk
    split at hk
    · rw [← Option.some.inj hk]
      exact hb
    · exact h.classed hk
  · have htotal := h.total
    show c.heap.inUse = chargeOf (c.entries.insert id b) + held
    rw [chargeOf_insert, Table.erase_of_none hn, htotal, charge]
    omega

/-- An entry that is taken out is held. -/
theorem Budgeted.pull (h : c.Budgeted capacity held) (hid : c.entries.get? id = some b) :
    { c with entries := c.entries.erase id }.Budgeted capacity (held + sizeClass b.size) := by
  refine ⟨h.heap, h.limit, fun hk => h.classed (Table.get?_of_erase hk), ?_⟩
  have htotal := h.total
  rw [charge, chargeOf_erase hid] at htotal
  show c.heap.inUse = chargeOf (c.entries.erase id) + (held + sizeClass b.size)
  omega

theorem Budgeted.insert {r : Except Error Unit} (h : c.Budgeted capacity (held + sizeClass b.size))
    (hb : b.Classed) (hi : c.insert id b = (r, c')) : c'.Budgeted capacity held := by
  unfold Cache.insert at hi
  split at hi
  · obtain rfl := (Prod.mk.inj hi).2
    exact h.recycle hb
  · rename_i hc
    obtain rfl := (Prod.mk.inj hi).2
    exact h.put hb (by simpa [contains, Table.contains_eq] using hc)

/-- One buffer is put in place of another, which goes back. -/
theorem Budgeted.replace {old : Buffer} (h : c.Budgeted capacity (held + sizeClass b.size))
    (hb : b.Classed) (hid : c.entries.get? id = some old) :
    { c with heap := c.heap.recycle old, entries := c.entries.insert id b }.Budgeted capacity held := by
  have hpulled := h.pull hid
  have hswapped : held + sizeClass b.size + sizeClass old.size =
      held + sizeClass old.size + sizeClass b.size := by omega
  rw [hswapped] at hpulled
  have hnew : (c.entries.erase id).get? id = none := by rw [Table.get?_erase, if_pos rfl]
  have hput := hpulled.put hb hnew
  have hdone := hput.recycle (h.classed hid)
  -- inserting drops an earlier entry anyway
  have hentries : (c.entries.erase id).insert id b = c.entries.insert id b := by
    simp only [Table.insert, Table.erase, List.filter_filter, Bool.and_self]
  simp only [hentries] at hdone
  exact hdone

theorem Budgeted.swap {r : Except Error Unit} (h : c.Budgeted capacity (held + sizeClass b.size))
    (hb : b.Classed) (hs : c.swap id b = (r, c')) : c'.Budgeted capacity held := by
  unfold Cache.swap at hs
  split at hs
  · obtain rfl := (Prod.mk.inj hs).2
    exact h.recycle hb
  · rename_i old hid
    obtain rfl := (Prod.mk.inj hs).2
    exact h.replace hb hid

/-! ## Operations that call back, in two halves -/

/-- The first half of making a new entry: a buffer for it. -/
def beginStore (c : Cache) (size : Nat) : Except Error Buffer × Cache :=
  if size = 0 then (.error .zeroSize, c)
  else
    let (answer, heap) := c.heap.acquire size
    (answer, { c with heap })

/-- The first half of a replacement: a buffer, if there is an entry to replace. -/
def beginReplace (c : Cache) (id size : Nat) : Except Error Buffer × Cache :=
  if size = 0 then (.error .zeroSize, c)
  else if !c.contains id then (.error (.segmentNotFound id), c)
  else
    let (answer, heap) := c.heap.acquire size
    (answer, { c with heap })

theorem place_eq (c : Cache) (id size : Nat) (content : Bytes) :
    c.place id size content =
      match c.beginStore size with
      | (.error e, c) => (.error e, c)
      | (.ok b, c) =>
        match c.insert id { b with bytes := b.bytes.overlay content } with
        | (.error e, c) => (.error e, c)
        | (.ok (), c) => (.ok (c.entrySegment id size), c) := by
  unfold place beginStore
  split
  · rfl
  · rcases c.heap.acquire size with ⟨_ | _, _⟩ <;> rfl

theorem replaceBy_eq (c : Cache) (id size : Nat) (fill : Cache → Bytes × Cache) :
    c.replaceBy id size fill =
      match c.beginReplace id size with
      | (.error e, c) => (.error e, c)
      | (.ok b, c) => (fill c).2.swap id { b with bytes := b.bytes.overlay (fill c).1 } := by
  unfold replaceBy beginReplace
  split
  · rfl
  · split
    · rfl
    · rcases c.heap.acquire size with ⟨_ | _, _⟩ <;> rfl

/-- A buffer of `n` bytes was asked for: it is held now, or was refused. -/
inductive Begun (capacity : Option Nat) (held n : Nat) : Except Error Buffer → Cache → Prop
  | refused {e : Error} {c : Cache} (budget : c.Budgeted capacity held) :
      Begun capacity held n (.error e) c
  | taken {b : Buffer} {c : Cache} (budget : c.Budgeted capacity (held + sizeClass b.size))
      (classed : b.Classed) (zeros : b.bytes = .zeros n) : Begun capacity held n (.ok b) c

theorem Budgeted.asked {answer : Except Error Buffer} (h : c.Budgeted capacity held)
    (ha : c.heap.acquire n = (answer, heap)) : Begun capacity held n answer { c with heap } := by
  cases answer with
  | error e => exact .refused (h.refused ha)
  | ok b =>
    obtain ⟨hheld, hclassed, hzeros⟩ := h.acquire ha
    exact .taken hheld hclassed hzeros

theorem Budgeted.beginStore {answer : Except Error Buffer} (h : c.Budgeted capacity held)
    (hb : c.beginStore n = (answer, c')) : Begun capacity held n answer c' := by
  unfold Cache.beginStore at hb
  split at hb
  · obtain ⟨rfl, rfl⟩ := Prod.mk.inj hb
    exact .refused h
  · rcases ha : c.heap.acquire n with ⟨answer, heap⟩
    rw [ha] at hb
    obtain ⟨rfl, rfl⟩ := Prod.mk.inj hb
    exact h.asked ha

theorem Budgeted.beginReplace {answer : Except Error Buffer} (h : c.Budgeted capacity held)
    (hb : c.beginReplace id n = (answer, c')) : Begun capacity held n answer c' := by
  unfold Cache.beginReplace at hb
  split at hb
  · obtain ⟨rfl, rfl⟩ := Prod.mk.inj hb
    exact .refused h
  split at hb
  · obtain ⟨rfl, rfl⟩ := Prod.mk.inj hb
    exact .refused h
  · rcases ha : c.heap.acquire n with ⟨answer, heap⟩
    rw [ha] at hb
    obtain ⟨rfl, rfl⟩ := Prod.mk.inj hb
    exact h.asked ha

/-- Filling a buffer does not change what it counts for. -/
theorem Budgeted.filled (h : c.Budgeted capacity (held + sizeClass b.size)) {bytes : Bytes}
    (hl : bytes.length = b.size) :
    c.Budgeted capacity (held + sizeClass ({ b with bytes } : Buffer).size) := by
  rw [Buffer.size, hl]
  exact h

/-! ## Whole operations -/

theorem Budgeted.place (h : c.Budgeted capacity held) (id size : Nat) (content : Bytes) :
    (c.place id size content).2.Budgeted capacity held := by
  rw [place_eq]
  rcases hb : c.beginStore size with ⟨answer, c₁⟩
  cases h.beginStore hb with
  | refused budget => exact budget
  | @taken b _ hheld hclassed =>
    simp only
    rcases hi : c₁.insert id { b with bytes := b.bytes.overlay content } with ⟨answer, c₂⟩
    have hdone := (hheld.filled (Bytes.length_overlay ..)).insert (hclassed.filled (Bytes.length_overlay ..)) hi
    cases answer with
    | error e => exact hdone
    | ok u => exact hdone

theorem Budgeted.setWith (h : c.Budgeted capacity held) (id size : Nat) (content : Bytes) :
    (c.setWith id size content).2.Budgeted capacity held := by
  rw [Cache.setWith, replaceBy_eq]
  rcases hb : c.beginReplace id size with ⟨answer, c₁⟩
  cases h.beginReplace hb with
  | refused budget => exact budget
  | taken hheld hclassed =>
    exact (hheld.filled (Bytes.length_overlay ..)).swap (hclassed.filled (Bytes.length_overlay ..)) rfl

theorem Budgeted.set (h : c.Budgeted capacity held) (id : Nat) (data : Bytes) :
    (c.set id data).2.Budgeted capacity held := by
  unfold Cache.set
  split
  · exact h
  · exact h.setWith id data.length data

/-- Bytes of an entry may change, but not their number. -/
theorem Budgeted.modify {offset : Nat} {data : Bytes} (h : c.Budgeted capacity held)
    (hm : c.modify id offset data = .ok c') : c'.Budgeted capacity held := by
  unfold Cache.modify at hm
  split at hm
  · cases hm
  rename_i b hid
  obtain rfl := Except.ok.inj hm
  have hb := h.classed hid
  have hsize : ({ b with bytes := b.bytes.splice offset data } : Buffer).size = b.size :=
    Bytes.length_splice ..
  refine ⟨h.heap, h.limit, fun {k b'} hk => ?_, ?_⟩
  · change (c.entries.insert id _).get? k = some b' at hk
    rw [Table.get?_insert] at hk
    split at hk
    · rw [← Option.some.inj hk, Buffer.Classed, hsize]
      exact hb
    · exact h.classed hk
  · show c.heap.inUse = chargeOf (c.entries.insert id _) + held
    rw [chargeOf_insert, hsize, ← chargeOf_erase hid]
    exact h.total

theorem Budgeted.free (h : c.Budgeted capacity held) (hf : c.free id = .ok c') :
    c'.Budgeted capacity held := by
  unfold Cache.free at hf
  split at hf
  · cases hf
  rename_i b hid
  obtain rfl := Except.ok.inj hf
  exact (h.pull hid).recycle (h.classed hid)

theorem recycle_all {p : BufferPool} (hp : p.Sound) (buffers : List Buffer)
    (hb : ∀ b ∈ buffers, b.Classed) (hle : (buffers.map fun b => sizeClass b.size).sum ≤ p.inUse) :
    (buffers.foldl BufferPool.recycle p).Sound ∧
      (buffers.foldl BufferPool.recycle p).inUse + (buffers.map fun b => sizeClass b.size).sum = p.inUse ∧
      (buffers.foldl BufferPool.recycle p).capacity = p.capacity := by
  induction buffers generalizing p with
  | nil => exact ⟨hp, rfl, rfl⟩
  | cons b rest ih =>
    rw [List.forall_mem_cons] at hb
    rw [List.map_cons, List.sum_cons] at hle ⊢
    have hcap : b.capacity = sizeClass b.size := hb.1.trans (BufferPool.classOf_eq _)
    obtain ⟨hsound, hless, hlimit⟩ := BufferPool.recycle_ok hp hb.1 (by omega)
    obtain ⟨hsound', hless', hlimit'⟩ := ih hsound hb.2 (by omega)
    rw [List.foldl_cons]
    exact ⟨hsound', by omega, hlimit'.trans hlimit⟩

theorem Budgeted.clear (h : c.Budgeted capacity held) : c.clear.Budgeted capacity held := by
  have htotal := h.total
  rw [charge, chargeOf] at htotal
  have hclassed : ∀ b ∈ c.entries.values, b.Classed := by
    intro b hb
    obtain ⟨id, hid⟩ := Table.mem_values.mp hb
    exact h.classed hid
  obtain ⟨hsound, hless, hlimit⟩ := recycle_all h.heap c.entries.values hclassed (by omega)
  refine ⟨hsound, hlimit.trans h.limit, nofun, ?_⟩
  show (c.entries.values.foldl BufferPool.recycle c.heap).inUse = 0 + held
  omega

end Cache

/-- The payload of a finished handoff is charged when it becomes an entry. A payload that
lies in the region is never lost on the way. -/
theorem Pending.take_budgeted {p : Pending} {c c' : Cache} {shm : Shm} {r : Except Error Segment}
    {capacity : Option Nat} {held : Nat} (h : c.Budgeted capacity held)
    (hin : p.direction = .inbound → p.exchange.layout.areaOffset p.area +
      p.exchange.payloadLength shm p.area ≤ p.exchange.region.size)
    (ht : p.take c shm = (r, c')) : c'.Budgeted capacity held := by
  unfold take at ht
  split at ht
  · obtain rfl := (Prod.mk.inj ht).2
    exact h
  rename_i hd
  have hinside := hin hd
  simp only [Shm.read_eq, if_pos hinside] at ht
  split at ht
  · rename_i ha
    obtain rfl := (Prod.mk.inj ht).2
    exact h.refused ha
  rename_i b heap ha
  obtain ⟨hheld, hclassed, hzeros⟩ := h.acquire ha
  have hlength : (shm.bytes p.exchange.region (p.exchange.layout.areaOffset p.area)
      (p.exchange.payloadLength shm p.area)).length = b.size := by
    rw [Shm.bytes, Block.length_read, Buffer.size, hzeros, Bytes.length_zeros]
  split at ht
  · rename_i hi
    obtain rfl := (Prod.mk.inj ht).2
    exact (hheld.filled hlength).insert (hclassed.filled hlength) hi
  · rename_i hi
    obtain rfl := (Prod.mk.inj ht).2
    exact (hheld.filled hlength).insert (hclassed.filled hlength) hi

end TierAlloc
