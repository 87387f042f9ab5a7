import TierAlloc.Consumer
import TierAlloc.Proofs.Memory.Heap
import TierAlloc.Proofs.Memory.Names
import TierAlloc.Proofs.Memory.Tally
import TierAlloc.Proofs.Run

/-!
# Counting the users of a region

A consumer maps a region when the first segment that lies in it is registered and
unmaps it with the last one. `Counted` is what this bookkeeping amounts to: the count of
a mapping is the number of registered segments that name the region, all of them use
that one mapping, and each lies inside it. Only the look-up of regions matters, so the
mapping of a name is followed as a function of the name.

A segment that does not fit the region is refused after the region was mapped for it;
the count is then taken back, and every look-up is as it was (`detach_attach`).

**Results.**
* `attachRegion_ok`, `detachRegion_regions`: one user more, and one less.
* `register_cases`, `unregister_ok`, `write_ok`: what each operation does.
* `Counted.register`, `Counted.unregister`, `Counted.write`: each of them keeps the counts.
-/
namespace TierAlloc

open Function (update)

namespace Consumer

/-- Number of registered segments that use the region. -/
def users (entries : Table Nat Registration) (region : String) : Nat :=
  entries.values.countP fun e => e.segment.regionName = some region

/-- Where a registered segment has its bytes: a cache segment in a buffer of its size, any
other one inside the mapping of its region. -/
inductive Rests (regions : String → Option Attachment) (e : Registration) : Prop
  | buffer {b : Buffer} (tier : e.segment.tier = .cache) (unnamed : e.segment.regionName = none)
      (backing : e.backing = .buffer b) (size : b.bytes.length = e.segment.size)
  | mapped {region : String} {a : Attachment} (tier : e.segment.tier ≠ .cache)
      (named : e.segment.regionName = some region) (found : regions region = some a)
      (backing : e.backing = .mapped a.region)
      (inside : e.segment.offset + e.segment.size ≤ a.region.size)

/-- The counts of the mappings are right, and every registered segment has its bytes. -/
structure Counted (regions : String → Option Attachment) (entries : Table Nat Registration) : Prop where
  keyed : ∀ {id e}, entries.get? id = some e → e.segment.id = id
  rests : ∀ {id e}, entries.get? id = some e → Rests regions e
  counted : ∀ n, ((regions n).map Attachment.count).getD 0 = users entries n
  used : ∀ n a, regions n = some a → 0 < a.count

theorem counted_ofName (name : String) : Counted (ofName name).regions.get? (ofName name).entries :=
  ⟨nofun, nofun, fun _ => rfl, nofun⟩

variable {c c' : Consumer} {shm shm' : Shm} {region n : String} {r : Region} {id : Nat}
  {entries : Table Nat Registration} {regions : String → Option Attachment} {e : Registration}

theorem attachCount_eq (c : Consumer) (n : String) :
    c.attachCount n = ((c.regions.get? n).map Attachment.count).getD 0 := by
  unfold attachCount
  cases c.regions.get? n <;> rfl

/-! ## The number of users -/

theorem users_insert (h : entries.get? id = none) (n : String) :
    users (entries.insert id e) n =
      users entries n + if e.segment.regionName = some n then 1 else 0 := by
  unfold users
  rw [Table.values_insert, Table.erase_of_none h, List.countP_cons]
  simp only [decide_eq_true_eq]

theorem users_erase (h : entries.get? id = some e) (n : String) :
    users entries n =
      users (entries.erase id) n + if e.segment.regionName = some n then 1 else 0 := by
  unfold users
  rw [(Table.values_perm h).countP_eq, List.countP_cons]
  simp only [decide_eq_true_eq]

/-- Another backing for the same segment is no other user. -/
theorem users_replace {e' : Registration} (h : entries.get? id = some e)
    (hs : e'.segment.regionName = e.segment.regionName) (n : String) :
    users (entries.insert id e') n = users entries n := by
  rw [users_erase h]
  unfold users
  rw [Table.values_insert, List.countP_cons, hs]
  simp only [decide_eq_true_eq]

theorem users_pos : 0 < users entries n ↔
    ∃ id e, entries.get? id = some e ∧ e.segment.regionName = some n := by
  unfold users
  rw [List.countP_pos_iff]
  constructor
  · rintro ⟨e, he, hn⟩
    obtain ⟨id, hid⟩ := Table.mem_values.mp he
    exact ⟨id, e, hid, by simpa using hn⟩
  · rintro ⟨id, e, hid, hn⟩
    exact ⟨e, Table.mem_values.mpr ⟨id, hid⟩, by simpa using hn⟩

/-! ## One user more, one user less -/

/-- The mapping of a region with one more user: the one there is, or a new one. -/
theorem attachRegion_ok (h : c.attachRegion region shm = .ok (r, c')) :
    c'.name = c.name ∧ c'.entries = c.entries ∧ c'.heap = c.heap ∧
      c'.regions.get? = update c.regions.get? region (some ⟨r, c.attachCount region + 1⟩) ∧
      ((c.regions.get? region).map Attachment.region = some r ∨
        c.regions.get? region = none ∧ shm.attach region = .ok r) := by
  unfold attachRegion at h
  rw [attachCount_eq]
  cases hr : c.regions.get? region with
  | some a =>
    rw [hr] at h
    obtain ⟨rfl, rfl⟩ := Prod.mk.inj (Except.ok.inj h)
    exact ⟨rfl, rfl, rfl, Table.get?_insert_eq .., Or.inl rfl⟩
  | none =>
    rw [hr] at h
    cases ha : shm.attach region with
    | error e =>
      rw [ha] at h
      cases h
    | ok r₀ =>
      rw [ha] at h
      obtain ⟨rfl, rfl⟩ := Prod.mk.inj (Except.ok.inj h)
      exact ⟨rfl, rfl, rfl, Table.get?_insert_eq .., Or.inr ⟨rfl, rfl⟩⟩

/-- What is left of a mapping when one of its users leaves. -/
def Attachment.less (a : Attachment) : Option Attachment :=
  if a.count ≤ 1 then none else some { a with count := a.count - 1 }

theorem Attachment.less_eq_some {a a' : Attachment} (h : Attachment.less a = some a') :
    1 < a.count ∧ a' = { a with count := a.count - 1 } := by
  unfold less at h
  split at h
  · cases h
  · exact ⟨by omega, (Option.some.inj h).symm⟩

theorem Attachment.less_of_lt {a : Attachment} (h : 1 < a.count) :
    Attachment.less a = some { a with count := a.count - 1 } := if_neg (by omega)

theorem Attachment.count_less (a : Attachment) :
    ((Attachment.less a).map Attachment.count).getD 0 = a.count - 1 := by
  unfold less
  split
  · simp only [Option.map_none, Option.getD_none]
    omega
  · rfl

theorem detachRegion_kept (c : Consumer) (region : String) :
    (c.detachRegion region).name = c.name ∧ (c.detachRegion region).entries = c.entries ∧
      (c.detachRegion region).heap = c.heap := by
  unfold detachRegion
  split
  · exact ⟨rfl, rfl, rfl⟩
  · split <;> exact ⟨rfl, rfl, rfl⟩

theorem detachRegion_regions (c : Consumer) (region : String) :
    (c.detachRegion region).regions.get? =
      update c.regions.get? region ((c.regions.get? region).bind Attachment.less) := by
  cases hr : c.regions.get? region with
  | none =>
    have hsame : c.detachRegion region = c := by simp only [detachRegion, hr]
    rw [hsame, Option.bind_none, ← hr, Function.update_eq_self]
  | some a =>
    simp only [detachRegion, hr, Option.bind_some, Attachment.less]
    split
    · exact Table.get?_erase_eq ..
    · exact Table.get?_insert_eq ..

/-- Taking a user back that was just added leaves every look-up as it was. -/
theorem detach_attach (hc : Counted c.regions.get? c.entries)
    (h : c.attachRegion region shm = .ok (r, c')) :
    (c'.detachRegion region).regions.get? = c.regions.get? := by
  obtain ⟨-, -, -, hregions, hfound⟩ := attachRegion_ok h
  rw [detachRegion_regions, hregions, Function.update_self, Function.update_idem, Option.bind_some]
  refine Function.update_eq_self_iff.mpr ?_
  rw [attachCount_eq]
  rcases hfound with hfound | ⟨hnone, -⟩
  · obtain ⟨a, ha, rfl⟩ := Option.map_eq_some_iff.mp hfound
    have := hc.used _ _ ha
    simp [ha, Attachment.less, show ¬a.count = 0 by omega]
  · simp [hnone, Attachment.less]

/-! ## Registering -/

/-- What the answer to a registration says: a buffer that is handed out, a region that has one
user more, or a refusal that shows nowhere. -/
inductive Registered (c : Consumer) (d : Descriptor) (shm : Shm) :
    Except Error LocalSegment → Consumer → Prop
  | refused {e : Error} {c' : Consumer} (entries : c'.entries = c.entries)
      (regions : c'.regions.get? = c.regions.get?) : Registered c d shm (.error e) c'
  | buffer {b : Buffer} {heap : BufferPool} (new : c.entries.get? d.id = none)
      (tier : d.tier = .cache) (h : c.heap.acquire d.size = (.ok b, heap)) :
      Registered c d shm (.ok ⟨d.id, d.size, .cache, 0, none⟩)
        ({ c with heap }.enter ⟨d.id, d.size, .cache, 0, none⟩ (.buffer b))
  | mapped {region : String} {r : Region} {c₁ : Consumer} (new : c.entries.get? d.id = none)
      (tier : d.tier ≠ .cache) (named : d.regionName? = some region)
      (h : c.attachRegion region shm = .ok (r, c₁)) (inside : d.offset + d.size ≤ r.size) :
      Registered c d shm (.ok ⟨d.id, d.size, d.tier, d.offset, some region⟩)
        (c₁.enter ⟨d.id, d.size, d.tier, d.offset, some region⟩ (.mapped r))

theorem registerMapped_cases {d : Descriptor} {answer : Except Error LocalSegment}
    (hc : Counted c.regions.get? c.entries) (hnew : c.entries.get? d.id = none)
    (ht : d.tier ≠ .cache) (hn : d.regionName? = some region)
    (h : c.registerMapped d region shm = (answer, c')) : Registered c d shm answer c' := by
  unfold registerMapped at h
  split at h
  · obtain ⟨rfl, rfl⟩ := Prod.mk.inj h
    exact .refused rfl rfl
  · rename_i r c₁ ha
    split at h
    · rename_i hin
      obtain ⟨rfl, rfl⟩ := Prod.mk.inj h
      exact .mapped hnew ht hn ha (by simpa [Region.covers] using hin)
    · obtain ⟨rfl, rfl⟩ := Prod.mk.inj h
      exact .refused ((c₁.detachRegion_kept region).2.1.trans (attachRegion_ok ha).2.1)
        (detach_attach hc ha)

/-- A descriptor of shared memory is registered in the region that it names, unless its id is taken. -/
theorem register_of_region {d : Descriptor} {n : String} {shm : Shm} (hsize : d.size ≠ 0)
    (hm : d.manager.isEmpty = false) (hnew : c.entries.contains d.id = false) (ht : d.tier ≠ .cache)
    (hn : d.regionName? = some n) : c.register d shm = c.registerMapped d n shm := by
  unfold register
  rw [if_neg (by simp [hsize, hm]), if_neg (by simp [hnew])]
  cases hk : d.kind with
  | static batch bin offset =>
    rw [Descriptor.regionName?, hk] at hn
    rw [← Option.some.inj hn]
  | ephemeral =>
    rw [Descriptor.regionName?, hk] at hn
    rw [← Option.some.inj hn]
  | cache place =>
    rw [Descriptor.tier, hk] at ht
    exact absurd rfl ht

/-- Who has no mapping of the region, and can make none, cannot register a segment in it. -/
theorem register_unmapped {d : Descriptor} {n : String} {shm : Shm} {e : Error} (hsize : d.size ≠ 0)
    (hm : d.manager.isEmpty = false) (ht : d.tier ≠ .cache) (hn : d.regionName? = some n)
    (hnone : c.regions.get? n = none) (ha : shm.attach n = .error e) :
    c.register d shm = (.error (if c.isRegistered d.id then .alreadyExists d.id else e), c) := by
  cases hr : c.entries.contains d.id with
  | true =>
    unfold register
    rw [if_neg (by simp [hsize, hm]), if_pos hr, isRegistered, if_pos hr]
  | false =>
    rw [register_of_region hsize hm hr ht hn, isRegistered, hr]
    simp only [registerMapped, attachRegion, hnone, ha, bind, Except.bind, Bool.false_eq_true, if_false]

theorem register_cases {d : Descriptor} {answer : Except Error LocalSegment}
    (hc : Counted c.regions.get? c.entries) (h : c.register d shm = (answer, c')) :
    Registered c d shm answer c' := by
  unfold register at h
  split at h
  · obtain ⟨rfl, rfl⟩ := Prod.mk.inj h
    exact .refused rfl rfl
  split at h
  · obtain ⟨rfl, rfl⟩ := Prod.mk.inj h
    exact .refused rfl rfl
  rename_i hnew
  have hnew : c.entries.get? d.id = none := by simpa [Table.contains_eq] using hnew
  split at h
  · rename_i place hk
    unfold registerBuffer at h
    split at h
    · obtain ⟨rfl, rfl⟩ := Prod.mk.inj h
      exact .refused rfl rfl
    · rename_i b heap ha
      obtain ⟨rfl, rfl⟩ := Prod.mk.inj h
      exact .buffer hnew (by simp [Descriptor.tier, hk, Kind.tier]) ha
  · rename_i batch bin offset hk
    exact registerMapped_cases hc hnew (by simp [Descriptor.tier, hk, Kind.tier])
      (by simp [Descriptor.regionName?, hk, Kind.regionName?]) h
  · rename_i hk
    exact registerMapped_cases hc hnew (by simp [Descriptor.tier, hk, Kind.tier])
      (by simp [Descriptor.regionName?, hk, Kind.regionName?]) h


/-- A mapping that a segment uses may have other users, but is the same one. -/
theorem Rests.congr {regions' : String → Option Attachment} (h : Rests regions e)
    (hr : ∀ n a, e.segment.regionName = some n → regions n = some a →
      ∃ a', regions' n = some a' ∧ a'.region = a.region) : Rests regions' e := by
  cases h with
  | buffer tier unnamed backing size => exact .buffer tier unnamed backing size
  | mapped tier named found backing inside =>
    obtain ⟨a', ha, heq⟩ := hr _ _ named found
    rw [← heq] at backing inside
    exact .mapped tier named ha backing inside

/-- A new segment that has its bytes already. -/
theorem Counted.enter (hc : Counted regions entries) (hnew : entries.get? id = none)
    {regions' : String → Option Attachment} (hid : e.segment.id = id) (hrests : Rests regions' e)
    (hsame : ∀ n a, regions n = some a → ∃ a', regions' n = some a' ∧ a'.region = a.region)
    (hcount : ∀ n, ((regions' n).map Attachment.count).getD 0 =
      ((regions n).map Attachment.count).getD 0 + if e.segment.regionName = some n then 1 else 0)
    (hused : ∀ n a, regions' n = some a → 0 < a.count) : Counted regions' (entries.insert id e) := by
  constructor
  · intro k e' he'
    rw [Table.get?_insert] at he'
    split at he'
    · rename_i hk
      rw [← Option.some.inj he', hid, hk]
    · exact hc.keyed he'
  · intro k e' he'
    rw [Table.get?_insert] at he'
    split at he'
    · rw [← Option.some.inj he']
      exact hrests
    · exact (hc.rests he').congr fun n a _ => hsame n a
  · intro n
    rw [hcount, hc.counted, users_insert hnew]
  · exact hused

theorem Counted.register {d : Descriptor} {answer : Except Error LocalSegment}
    (hc : Counted c.regions.get? c.entries) (h : Registered c d shm answer c') :
    Counted c'.regions.get? c'.entries := by
  cases h with
  | refused entries regions =>
    rw [entries, regions]
    exact hc
  | @buffer b heap new tier h =>
    have hlen : b.bytes.length = d.size := by rw [BufferPool.acquire_ok h, Bytes.length_zeros]
    show Counted c.regions.get? (c.entries.insert d.id _)
    refine hc.enter new rfl (.buffer rfl rfl rfl hlen) (fun n a ha => ⟨a, ha, rfl⟩)
      (fun n => ?_) hc.used
    simp
  | @mapped region r c₁ new tier named h inside =>
    obtain ⟨-, hentries, -, hregions, hfound⟩ := attachRegion_ok h
    have hself : c₁.regions.get? region = some ⟨r, c.attachCount region + 1⟩ := by
      rw [hregions, Function.update_self]
    show Counted c₁.regions.get? (c₁.entries.insert _ _)
    rw [hentries]
    refine hc.enter (e := ⟨_, .mapped r⟩) new rfl (.mapped tier rfl hself rfl inside)
      (fun n a ha => ?_) (fun n => ?_) (fun n a ha => ?_)
    · by_cases hn : n = region
      · subst hn
        refine ⟨_, hself, ?_⟩
        rcases hfound with hfound | ⟨hnone, -⟩
        · rw [ha] at hfound
          exact (Option.some.inj hfound).symm
        · rw [ha] at hnone
          cases hnone
      · exact ⟨a, by rw [hregions, Function.update_of_ne hn, ha], rfl⟩
    · by_cases hn : n = region
      · subst hn
        simp [hself, attachCount_eq]
      · rw [hregions, Function.update_of_ne hn, if_neg (by simpa using Ne.symm hn), Nat.add_zero]
    · by_cases hn : n = region
      · subst hn
        rw [hself] at ha
        rw [← Option.some.inj ha]
        exact Nat.succ_pos _
      · rw [hregions, Function.update_of_ne hn] at ha
        exact hc.used n a ha

/-! ## Unregistering and writing -/

/-- What the last user leaves behind, or one of several. -/
theorem unregister_ok (hc : Counted c.regions.get? c.entries) (h : c.unregister id = .ok c') :
    ∃ e, c.entries.get? id = some e ∧ c'.entries = c.entries.erase id ∧
      match e.segment.regionName with
      | none => c'.regions.get? = c.regions.get?
      | some n => c'.regions.get? = update c.regions.get? n ((c.regions.get? n).bind Attachment.less) := by
  unfold unregister at h
  cases he : c.entries.get? id with
  | none =>
    rw [he] at h
    cases h
  | some e =>
    rw [he] at h
    refine ⟨e, rfl, ?_⟩
    cases hc.rests he with
    | buffer tier unnamed backing size =>
      simp only [backing] at h
      obtain rfl := Except.ok.inj h
      rw [unnamed]
      exact ⟨rfl, rfl⟩
    | mapped tier named found backing inside =>
      simp only [backing, named] at h
      obtain rfl := Except.ok.inj h
      rw [named]
      exact ⟨(detachRegion_kept ..).2.1, detachRegion_regions ..⟩

/-- The count of a mapping that a user is about to leave. -/
theorem Counted.count_left {a : Attachment} (hc : Counted regions entries) (he : entries.get? id = some e)
    (hn : e.segment.regionName = some n) (ha : regions n = some a) :
    a.count = users (entries.erase id) n + 1 := by
  have := hc.counted n
  rw [ha, users_erase he, hn, if_pos rfl] at this
  exact this

/-- A segment without a region is no user. -/
theorem Counted.erase (hc : Counted regions entries) (he : entries.get? id = some e)
    (hn : e.segment.regionName = none) : Counted regions (entries.erase id) := by
  refine ⟨fun h => hc.keyed (Table.get?_of_erase h), fun h => hc.rests (Table.get?_of_erase h), fun n => ?_, hc.used⟩
  rw [hc.counted, users_erase he, hn]
  simp

/-- A user leaves, and its mapping has one less. -/
theorem Counted.leave (hc : Counted regions entries) (he : entries.get? id = some e)
    (hn : e.segment.regionName = some region) :
    Counted (update regions region ((regions region).bind Attachment.less)) (entries.erase id) := by
  refine ⟨fun h => hc.keyed (Table.get?_of_erase h), fun {k e'} h => ?_, fun n => ?_, fun n a ha => ?_⟩
  · -- who stays in the region is another user of it
    refine (hc.rests (Table.get?_of_erase h)).congr fun n a hname ha => ?_
    by_cases hr : n = region
    · subst hr
      have hpos : 0 < users (entries.erase id) n := users_pos.mpr ⟨k, e', h, hname⟩
      have := hc.count_left he hn ha
      refine ⟨{ a with count := a.count - 1 }, ?_, rfl⟩
      rw [Function.update_self, ha, Option.bind_some, Attachment.less_of_lt (by omega)]
    · exact ⟨a, by rw [Function.update_of_ne hr, ha], rfl⟩
  · by_cases hr : n = region
    · subst hr
      rw [Function.update_self]
      cases ha : regions n with
      | none =>
        have := hc.counted n
        rw [ha, users_erase he, hn, if_pos rfl] at this
        cases this
      | some a => rw [Option.bind_some, Attachment.count_less, hc.count_left he hn ha, Nat.add_sub_cancel]
    · rw [Function.update_of_ne hr, hc.counted, users_erase he, hn,
        if_neg (by simpa using Ne.symm hr), Nat.add_zero]
  · by_cases hr : n = region
    · subst hr
      rw [Function.update_self] at ha
      obtain ⟨a₀, -, hless⟩ := Option.bind_eq_some_iff.mp ha
      obtain ⟨hlt, rfl⟩ := Attachment.less_eq_some hless
      exact Nat.sub_pos_of_lt hlt
    · rw [Function.update_of_ne hr] at ha
      exact hc.used n a ha

theorem Counted.unregister (hc : Counted c.regions.get? c.entries) (h : c.unregister id = .ok c') :
    Counted c'.regions.get? c'.entries := by
  obtain ⟨e, he, hentries, hregions⟩ := unregister_ok hc h
  rw [hentries]
  cases hn : e.segment.regionName with
  | none =>
    simp only [hn] at hregions
    rw [hregions]
    exact hc.erase he hn
  | some region =>
    simp only [hn] at hregions
    rw [hregions]
    exact hc.leave he hn

theorem entry_eq_ok : c.entry id = .ok e ↔ c.entries.get? id = some e := by
  unfold entry
  split <;> simp_all

theorem entry_of_get? (h : c.entries.get? id = some e) : c.entry id = .ok e := entry_eq_ok.mpr h

/-- What a write has stored into: a mapping, or the buffer of the segment. -/
theorem write_ok {offset : Nat} {data : Bytes} (h : c.write id offset data shm = .ok (c', shm')) :
    ∃ e, c.entries.get? id = some e ∧ offset + data.length ≤ e.segment.size ∧
      ((∃ r, e.backing = .mapped r ∧ c' = c ∧ shm' = shm.store r (e.segment.offset + offset) data) ∨
        ∃ b, e.backing = .buffer b ∧ shm' = shm ∧
          c' = c.enter e.segment (.buffer { b with bytes := b.bytes.splice offset data })) := by
  unfold write at h
  cases he : c.entry id with
  | error err =>
    rw [he] at h
    cases h
  | ok e =>
    rw [he] at h
    refine ⟨e, entry_eq_ok.mp he, ?_⟩
    simp only [bind, Except.bind] at h
    split at h
    · cases h
    rename_i hfits
    refine ⟨by omega, ?_⟩
    split at h
    · rename_i r hr
      cases hw : shm.write r (e.segment.offset + offset) data with
      | error err =>
        rw [hw] at h
        cases h
      | ok shm₁ =>
        rw [hw] at h
        obtain ⟨rfl, rfl⟩ := Prod.mk.inj (Except.ok.inj h)
        rw [Shm.write_eq] at hw
        split at hw
        · exact Or.inl ⟨r, hr, rfl, (Except.ok.inj hw).symm⟩
        · cases hw
    · rename_i b hb
      obtain ⟨rfl, rfl⟩ := Prod.mk.inj (Except.ok.inj h)
      exact Or.inr ⟨b, hb, rfl, rfl⟩

/-- A write to a segment that lies in a mapping. -/
theorem write_mapped {offset : Nat} {data : Bytes} (he : c.entries.get? id = some e)
    (hb : e.backing = .mapped r) (h : c.write id offset data shm = .ok (c', shm')) :
    offset + data.length ≤ e.segment.size ∧ c' = c ∧ shm' = shm.store r (e.segment.offset + offset) data := by
  obtain ⟨e', he', hle, hcases⟩ := write_ok h
  obtain rfl := Option.some.inj (he.symm.trans he')
  refine ⟨hle, ?_⟩
  rcases hcases with ⟨r', hr', rfl, rfl⟩ | ⟨b, hbuffer, -⟩
  · obtain rfl := Backing.mapped.inj (hb.symm.trans hr')
    exact ⟨rfl, rfl⟩
  · rw [hb] at hbuffer
    cases hbuffer

/-- A registered segment that has its bytes in another buffer. -/
theorem Counted.replace {e' : Registration} (hc : Counted regions entries)
    (he : entries.get? id = some e) (hs : e'.segment = e.segment) (hrests : Rests regions e') :
    Counted regions (entries.insert id e') := by
  constructor
  · intro k e₁ h
    rw [Table.get?_insert] at h
    split at h
    · rename_i hk
      rw [← Option.some.inj h, hs, hk]
      exact hc.keyed he
    · exact hc.keyed h
  · intro k e₁ h
    rw [Table.get?_insert] at h
    split at h
    · rw [← Option.some.inj h]
      exact hrests
    · exact hc.rests h
  · intro n
    rw [hc.counted, users_replace he (by rw [hs])]
  · exact hc.used

theorem Counted.write {offset : Nat} {data : Bytes} (hc : Counted c.regions.get? c.entries)
    (h : c.write id offset data shm = .ok (c', shm')) : Counted c'.regions.get? c'.entries := by
  obtain ⟨e, he, -, ⟨r, -, rfl, -⟩ | ⟨b, hb, -, rfl⟩⟩ := write_ok h
  · exact hc
  · have hid := hc.keyed he
    show Counted c.regions.get? (c.entries.insert e.segment.id _)
    rw [hid]
    refine hc.replace he rfl ?_
    cases hc.rests he with
    | mapped tier named found backing inside =>
      rw [backing] at hb
      cases hb
    | buffer tier unnamed backing size =>
      obtain rfl := Backing.buffer.inj (backing.symm.trans hb)
      exact .buffer tier unnamed rfl (by simpa using size)

end Consumer
end TierAlloc
