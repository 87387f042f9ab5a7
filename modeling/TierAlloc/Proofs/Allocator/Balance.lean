import TierAlloc.Proofs.Allocator.Changes

/-!
# Balanced ledgers

The table of segments and the tiers keep the same books twice. A ledger is `Balanced`
when they agree: the chunks that are taken are those that the static segments cover,
each by one segment, and the other tiers hold something of the right size under the ids
of their segments and under no others. Which chunks a segment covers is worked out from
its offset and its size, as it is when the segment is given back.

**Results.**
* `Occupied.serve`, `Occupied.free`, `Occupied.addBatch`: the static tier.
* `Balanced.took`, `Balanced.stored`, `Balanced.mapped`, `Balanced.freed`,
  `Balanced.replaced`, `Balanced.written`, `Balanced.grown`: what is done to a balanced
  ledger leaves it balanced.
-/
namespace TierAlloc

open Function (update)

/-- Chunk `j` of the pool `p` of a batch is one of those that cover the segment. -/
def Segment.Covers (s : Segment) (batch : Nat) (p : Pool) (j : Nat) : Prop :=
  ∃ offset, s.kind = .static batch p.id offset ∧ p.InRun offset s.size j

/-- The segment `id` covers chunk `j` of the pool `p` of a batch. -/
def Covering (segments : Nat → Option Segment) (batch : Nat) (p : Pool) (j id : Nat) : Prop :=
  ∃ s, segments id = some s ∧ s.Covers batch p j

section
variable {segments segments' : Nat → Option Segment} {s : Segment} {batch j id offset : Nat} {p p' : Pool}

theorem Segment.covers_iff {b : Nat} (h : s.kind = .static b p.id offset) {q : Pool} :
    s.Covers batch q j ↔ batch = b ∧ q.id = p.id ∧ q.InRun offset s.size j := by
  unfold Covers
  rw [h]
  simp only [Kind.static.injEq]
  constructor
  · rintro ⟨o, ⟨rfl, hid, rfl⟩, hin⟩
    exact ⟨rfl, hid.symm, hin⟩
  · rintro ⟨rfl, hid, hin⟩
    exact ⟨offset, ⟨rfl, hid.symm, rfl⟩, hin⟩

/-- Which chunks are covered does not depend on which are taken. -/
theorem covering_of_same (h : p.Same p') :
    Covering segments batch p' j id ↔ Covering segments batch p j id := by
  unfold Covering Segment.Covers
  simp only [h.id, h.inRun]

/-- Only static segments cover chunks. -/
theorem covering_congr (he : ∀ id s, s.tier = .static → (segments' id = some s ↔ segments id = some s)) :
    Covering segments' batch p j id ↔ Covering segments batch p j id := by
  have ht : ∀ {t : Segment}, t.Covers batch p j → t.tier = .static := by
    rintro t ⟨o, hk, -⟩
    exact Segment.tier_of_static hk
  constructor
  · rintro ⟨t, hs, hc⟩
    exact ⟨t, (he _ _ (ht hc)).mp hs, hc⟩
  · rintro ⟨t, hs, hc⟩
    exact ⟨t, (he _ _ (ht hc)).mpr hs, hc⟩

theorem covering_insert (hnone : segments s.id = none) :
    Covering (update segments s.id (some s)) batch p j id ↔
      Covering segments batch p j id ∨ id = s.id ∧ s.Covers batch p j := by
  unfold Covering
  by_cases hid : id = s.id
  · subst hid
    simp [hnone]
  · simp [hid]

theorem covering_erase {k : Nat} :
    Covering (update segments k none) batch p j id ↔ Covering segments batch p j id ∧ id ≠ k := by
  unfold Covering
  by_cases hid : id = k
  · subst hid
    simp
  · simp [hid]

end

/-! ## The static tier -/

/-- The chunks that are taken in the batches are those that the segments cover. -/
structure Occupied (batches : List Batch) (segments : Nat → Option Segment) : Prop where
  sound : SoundBatches batches
  placed : ∀ {id s batch bin offset}, segments id = some s → s.kind = .static batch bin offset →
    ∃ p, poolAt batches batch bin = some p ∧ p.Fits offset s.size
  apart : ∀ {batch p j id id'}, poolAt batches batch p.id = some p → Covering segments batch p j id →
    Covering segments batch p j id' → id = id'
  taken : ∀ {batch p}, poolAt batches batch p.id = some p →
    ∀ j, p.Taken j ↔ ∃ id, Covering segments batch p j id

namespace Occupied

variable {batches : List Batch} {segments segments' : Nat → Option Segment} {b : Batch} {p p' : Pool}
  {s : Segment} {offset : Nat}

/-- Segments of other tiers do not matter. -/
theorem congr (h : Occupied batches segments)
    (he : ∀ id s, s.tier = .static → (segments' id = some s ↔ segments id = some s)) :
    Occupied batches segments' where
  sound := h.sound
  placed hs hk := h.placed ((he _ _ (Segment.tier_of_static hk)).mp hs) hk
  apart hp hc hc' := h.apart hp ((covering_congr he).mp hc) ((covering_congr he).mp hc')
  taken hp j := by simp only [h.taken hp, covering_congr he]

theorem poolAt_of_pool? (hb : batches[b.id]? = some b) (hp : b.pool? p.id = some p) :
    poolAt batches b.id p.id = some p := by
  rw [poolAt, hb, Option.bind_some, hp]

/-- Another state of one pool, with the table to match. -/
theorem replace (h : Occupied batches segments) (hb : batches[b.id]? = some b)
    (hp : b.pool? p.id = some p) (hsame : p.Same p') (hsound : p'.Sound)
    (hplaced : ∀ {id s batch bin offset}, segments' id = some s → s.kind = .static batch bin offset →
      ∃ q, poolAt batches batch bin = some q ∧ q.Fits offset s.size)
    (helse : ∀ {i q j id}, ¬(i = b.id ∧ q.id = p.id) →
      (Covering segments' i q j id ↔ Covering segments i q j id))
    (hapart : ∀ {j id id'}, Covering segments' b.id p j id → Covering segments' b.id p j id' → id = id')
    (htaken : ∀ j, p'.Taken j ↔ ∃ id, Covering segments' b.id p j id) :
    Occupied (batches.set b.id (b.putPool p')) segments' := by
  have hput := poolAt_put hb (show b.pool? p'.id = some p by rwa [hsame.id])
  have hsplit : ∀ {i q}, poolAt (batches.set b.id (b.putPool p')) i q.id = some q →
      (i = b.id ∧ q = p') ∨ ¬(i = b.id ∧ q.id = p.id) ∧ poolAt batches i q.id = some q := by
    intro i q hq
    rw [hput, hsame.id] at hq
    split at hq
    · rename_i hi
      exact Or.inl ⟨hi.1, (Option.some.inj hq).symm⟩
    · rename_i hi
      exact Or.inr ⟨hi, hq⟩
  have hbs := (h.sound _ _ hb).2
  constructor
  · exact sound_set h.sound rfl
      (Batch.sound_putPool hbs ((Batch.pool?_eq_some hbs).mp hp).1 hsame hsound)
  · intro id t i bin o ht hk
    obtain ⟨q, hq, hfits⟩ := hplaced ht hk
    rw [hput]
    split
    · rename_i hi
      obtain ⟨rfl, rfl⟩ := hi
      rw [hsame.id, poolAt_of_pool? hb hp] at hq
      obtain rfl := Option.some.inj hq
      exact ⟨p', rfl, hsame.fits.mpr hfits⟩
    · exact ⟨q, hq, hfits⟩
  · intro i q j id id' hq hc hc'
    rcases hsplit hq with ⟨rfl, rfl⟩ | ⟨hne, hq⟩
    · exact hapart ((covering_of_same hsame).mp hc) ((covering_of_same hsame).mp hc')
    · exact h.apart hq ((helse hne).mp hc) ((helse hne).mp hc')
  · intro i q hq j
    rcases hsplit hq with ⟨rfl, rfl⟩ | ⟨hne, hq⟩
    · simp only [covering_of_same hsame, htaken]
    · simp only [helse hne, h.taken hq]

/-- Serving a segment takes the chunks that cover it, and no other segment covers those. -/
theorem serve (h : Occupied batches segments) (hb : batches[b.id]? = some b)
    (hserved : b.Served (b.putPool p') s p p' offset) (hnone : segments s.id = none) :
    Occupied (batches.set b.id (b.putPool p')) (update segments s.id (some s)) := by
  have hat := poolAt_of_pool? hb hserved.pool
  have hcovers : ∀ {j}, s.Covers b.id p j ↔ p.InRun offset s.size j := by
    intro j
    simp [Segment.covers_iff hserved.kind]
  have hfree : ∀ {j id}, Covering segments b.id p j id → ¬s.Covers b.id p j := fun hc hs =>
    hserved.free _ (hcovers.mp hs) ((h.taken hat _).mpr ⟨_, hc⟩)
  refine h.replace hb hserved.pool hserved.same hserved.sound ?_ ?_ ?_ ?_
  · intro id t i bin o ht hk
    rw [Function.update_apply] at ht
    split at ht
    · obtain rfl := Option.some.inj ht
      rw [hserved.kind, Kind.static.injEq] at hk
      obtain ⟨rfl, rfl, rfl⟩ := hk
      exact ⟨p, hat, hserved.fits⟩
    · exact h.placed ht hk
  · intro i q j id hne
    rw [covering_insert hnone, Segment.covers_iff hserved.kind]
    constructor
    · rintro (hc | ⟨-, hi, hq, -⟩)
      · exact hc
      · exact absurd ⟨hi, hq⟩ hne
    · exact Or.inl
  · intro j id id' hc hc'
    rcases (covering_insert hnone).mp hc with hc | ⟨hid, hc⟩ <;>
      rcases (covering_insert hnone).mp hc' with hc' | ⟨hid', hc'⟩
    · exact h.apart hat hc hc'
    · exact absurd hc' (hfree hc)
    · exact absurd hc (hfree hc')
    · rw [hid, hid']
  · intro j
    simp only [covering_insert hnone, exists_or, hserved.taken, h.taken hat, hcovers, exists_and_right,
      exists_eq, true_and]

/-- Giving a segment back frees the chunks that cover it, and leaves those of all others. -/
theorem free (h : Occupied batches segments) (hs : segments s.id = some s) (hb : batches[b.id]? = some b)
    (hp : b.pool? p.id = some p) (hkind : s.kind = .static b.id p.id offset)
    (hfree : p.freeRange offset s.size = .ok p') :
    Occupied (batches.set b.id (b.putPool p')) (update segments s.id none) := by
  have hat := poolAt_of_pool? hb hp
  have hps := (h.sound _ _ hb).2.pools p ((Batch.pool?_eq_some (h.sound _ _ hb).2).mp hp).1
  obtain ⟨q, hq, hfits⟩ := h.placed hs hkind
  obtain rfl := Option.some.inj (hat.symm.trans hq)
  obtain ⟨hsame, hsound, htaken⟩ := Pool.freeRange_ok hps hfits.pos hfree
  have hself : ∀ {j}, Covering segments b.id p j s.id ↔ p.InRun offset s.size j := by
    intro j
    simp [Covering, hs, Segment.covers_iff hkind]
  refine h.replace hb hp hsame hsound ?_ ?_ ?_ ?_
  · intro id t i bin o ht hk
    rw [Function.update_apply] at ht
    split at ht
    · cases ht
    · exact h.placed ht hk
  · intro i q j id hne
    rw [covering_erase, and_iff_left_iff_imp]
    rintro ⟨t, ht, hc⟩ rfl
    obtain rfl := Option.some.inj (ht.symm.trans hs)
    rw [Segment.covers_iff hkind] at hc
    exact hne ⟨hc.1, hc.2.1⟩
  · intro j id id' hc hc'
    exact h.apart hat (covering_erase.mp hc).1 (covering_erase.mp hc').1
  · intro j
    rw [htaken, h.taken hat]
    simp only [covering_erase]
    constructor
    · rintro ⟨⟨id, hc⟩, hn⟩
      refine ⟨id, hc, ?_⟩
      rintro rfl
      exact hn (hself.mp hc)
    · rintro ⟨id, hc, hne⟩
      exact ⟨⟨id, hc⟩, fun hin => hne (h.apart hat hc (hself.mpr hin))⟩

/-- A new batch has no chunk taken, and no segment covers one. -/
theorem addBatch (h : Occupied batches segments) (hid : b.id = batches.length) (hb : b.Sound)
    (hfree : ∀ p ∈ b.pools, ∀ j, ¬p.Taken j) : Occupied (batches ++ [b]) segments := by
  have hnone : ∀ {i bin}, i = batches.length → poolAt batches i bin = none := by
    rintro i bin rfl
    simp [poolAt]
  have hfar : ∀ {q : Pool} {j id}, ¬Covering segments batches.length q j id := by
    rintro q j id ⟨t, ht, o, hk, -⟩
    obtain ⟨p, hp, -⟩ := h.placed ht hk
    rw [hnone rfl] at hp
    cases hp
  constructor
  · exact sound_append h.sound hid hb
  · intro id t i bin o ht hk
    obtain ⟨p, hp, hfits⟩ := h.placed ht hk
    rw [poolAt_append, if_neg]
    · exact ⟨p, hp, hfits⟩
    · intro hi
      rw [hnone hi] at hp
      cases hp
  · intro i q j id id' hq hc hc'
    rw [poolAt_append] at hq
    split at hq
    · rename_i hi
      rw [hi] at hc
      exact absurd hc hfar
    · exact h.apart hq hc hc'
  · intro i q hq j
    rw [poolAt_append] at hq
    split at hq
    · rename_i hi
      subst hi
      have hmem := ((Batch.pool?_eq_some hb).mp hq).1
      simp [hfree q hmem j, hfar]
    · exact h.taken hq j

end Occupied

/-! ## All tiers -/

/-- The size of a live segment of one tier. -/
def sizeIn (segments : Nat → Option Segment) (tier : Tier) (id : Nat) : Option Nat :=
  (segments id).bind fun s => if s.tier = tier then some s.size else none

namespace Ledger

/-- The table of segments and the tiers agree. -/
structure Balanced (l : Ledger) : Prop where
  occupied : Occupied l.batches l.segments
  own : ∀ {id s}, l.segments id = some s → s.id = id
  cached : ∀ id, (l.contents id).map List.length = sizeIn l.segments .cache id
  mapped : ∀ id, (l.regions id).map Region.size = sizeIn l.segments .ephemeral id

end Ledger

section
variable {segments : Nat → Option Segment} {tier : Tier} {s : Segment} {id : Nat}

theorem sizeIn_of_some (h : segments id = some s) :
    sizeIn segments tier id = if s.tier = tier then some s.size else none := by simp [sizeIn, h]

/-- The sizes in a tier do not change with a segment of another one. -/
theorem sizeIn_update_of_ne {v : Option Segment} (hold : ∀ t, segments id = some t → t.tier ≠ tier)
    (hnew : ∀ t, v = some t → t.tier ≠ tier) (k : Nat) :
    sizeIn (update segments id v) tier k = sizeIn segments tier k := by
  by_cases hk : k = id
  · subst hk
    have hnone : ∀ {o : Option Segment}, (∀ t, o = some t → t.tier ≠ tier) →
        o.bind (fun s => if s.tier = tier then some s.size else none) = none := by
      intro o ho
      cases o with
      | none => rfl
      | some t => simp [ho t rfl]
    simp only [sizeIn, Function.update_self, hnone hold, hnone hnew]
  · simp [sizeIn, hk]

theorem sizeIn_update (segments : Nat → Option Segment) (tier : Tier) (id : Nat) (v : Option Segment)
    (k : Nat) : sizeIn (update segments id v) tier k =
      if k = id then v.bind fun s => if s.tier = tier then some s.size else none
      else sizeIn segments tier k := by
  unfold sizeIn
  rw [Function.update_apply]
  split <;> rfl

end

namespace Ledger.Balanced

variable {l : Ledger} {s : Segment} {id : Nat} {bytes : Bytes}

theorem own_update (h : l.Balanced) {v : Option Segment} (hv : ∀ s, v = some s → s.id = id) {k : Nat}
    {t : Segment} (ht : update l.segments id v k = some t) : t.id = k := by
  rw [Function.update_apply] at ht
  split at ht
  · rename_i hk
    rw [hk]
    exact hv t ht
  · exact h.own ht

/-- A segment that is no static one comes, goes or is changed. -/
theorem occupied_update (h : l.Balanced) {v : Option Segment}
    (hold : ∀ t, l.segments id = some t → t.tier ≠ .static) (hnew : ∀ t, v = some t → t.tier ≠ .static) :
    Occupied l.batches (update l.segments id v) := by
  refine h.occupied.congr fun k t ht => ?_
  by_cases hk : k = id
  · subst hk
    rw [Function.update_self]
    exact ⟨fun hv => absurd ht (hnew t hv), fun hs => absurd ht (hold t hs)⟩
  · rw [Function.update_of_ne hk]

theorem took (h : l.Balanced) {b : Batch} {p p' : Pool} {offset : Nat} (hb : l.batches[b.id]? = some b)
    (hserved : b.Served (b.putPool p') s p p' offset) (hnone : l.segments s.id = none) :
    ((l.setBatch (b.putPool p')).record s).Balanced := by
  have ht := Segment.tier_of_static hserved.kind
  constructor
  · exact h.occupied.serve hb hserved hnone
  · exact h.own_update fun t hv => by rw [Option.some.inj hv]
  · exact fun k => (h.cached k).trans (sizeIn_update_of_ne (by simp [hnone]) (by simp [ht]) k).symm
  · exact fun k => (h.mapped k).trans (sizeIn_update_of_ne (by simp [hnone]) (by simp [ht]) k).symm

theorem grown (h : l.Balanced) {b : Batch} (hid : b.id = l.batches.length) (hb : b.Sound)
    (hfree : ∀ p ∈ b.pools, ∀ j, ¬p.Taken j) : (l.addBatch b).Balanced :=
  ⟨h.occupied.addBatch hid hb hfree, h.own, h.cached, h.mapped⟩

/-- An entry is made or replaced together with its segment. -/
theorem stored (h : l.Balanced) (ht : s.tier = .cache) (hsize : s.size = bytes.length)
    (hold : ∀ t, l.segments s.id = some t → t.tier = .cache) :
    ((l.setContents s.id (some bytes)).record s).Balanced := by
  have hne : ∀ {tier : Tier}, tier ≠ .cache → ∀ t, l.segments s.id = some t → t.tier ≠ tier :=
    fun hn t hs => by rw [hold t hs]; exact hn.symm
  constructor
  · exact h.occupied_update (hne (by decide)) (by simp [ht])
  · exact h.own_update fun t hv => by rw [Option.some.inj hv]
  · intro k
    simp only [record, setContents, sizeIn_update, Function.update_apply]
    split
    · simp [ht, hsize]
    · exact h.cached k
  · exact fun k => (h.mapped k).trans (sizeIn_update_of_ne (hne (by decide)) (by simp [ht]) k).symm

theorem mapped_new (h : l.Balanced) {r : Region} (ht : s.tier = .ephemeral) (hsize : r.size = s.size)
    (hnone : l.segments s.id = none) : ((l.setRegion s.id (some r)).record s).Balanced := by
  constructor
  · exact h.occupied_update (by simp [hnone]) (by simp [ht])
  · exact h.own_update fun t hv => by rw [Option.some.inj hv]
  · exact fun k => (h.cached k).trans (sizeIn_update_of_ne (by simp [hnone]) (by simp [ht]) k).symm
  · intro k
    simp only [record, setRegion, sizeIn_update, Function.update_apply]
    split
    · simp [ht, hsize]
    · exact h.mapped k

/-- Bytes of an entry change, and their number does not. -/
theorem edited (h : l.Balanced) {old : Bytes} (hold : l.contents id = some old)
    (hlen : bytes.length = old.length) : (l.setContents id (some bytes)).Balanced := by
  refine ⟨h.occupied, h.own, ?_, h.mapped⟩
  intro k
  simp only [setContents, Function.update_apply]
  rw [← h.cached k]
  split
  · rename_i hk
    simp [hk, hold, hlen]
  · rfl

theorem gave (h : l.Balanced) {b : Batch} {p p' : Pool} {offset : Nat} (hs : l.segments s.id = some s)
    (hb : l.batches[b.id]? = some b) (hp : b.pool? p.id = some p) (hkind : s.kind = .static b.id p.id offset)
    (hfree : p.freeRange offset s.size = .ok p') :
    ((l.setBatch (b.putPool p')).forget s.id).Balanced := by
  have ht := Segment.tier_of_static hkind
  constructor
  · exact h.occupied.free hs hb hp hkind hfree
  · exact h.own_update (by simp)
  · exact fun k => (h.cached k).trans (sizeIn_update_of_ne (by simp [hs, ht]) (by simp) k).symm
  · exact fun k => (h.mapped k).trans (sizeIn_update_of_ne (by simp [hs, ht]) (by simp) k).symm

theorem unmapped (h : l.Balanced) (hs : l.segments s.id = some s) (ht : s.tier = .ephemeral) :
    ((l.setRegion s.id none).forget s.id).Balanced := by
  constructor
  · exact h.occupied_update (by simp [hs, ht]) (by simp)
  · exact h.own_update (by simp)
  · exact fun k => (h.cached k).trans (sizeIn_update_of_ne (by simp [hs, ht]) (by simp) k).symm
  · intro k
    simp only [forget, setRegion, sizeIn_update, Function.update_apply]
    split
    · rfl
    · exact h.mapped k

theorem removed (h : l.Balanced) (hs : l.segments s.id = some s) (ht : s.tier = .cache) :
    ((l.setContents s.id none).forget s.id).Balanced := by
  constructor
  · exact h.occupied_update (by simp [hs, ht]) (by simp)
  · exact h.own_update (by simp)
  · intro k
    simp only [forget, setContents, sizeIn_update, Function.update_apply]
    split
    · rfl
    · exact h.cached k
  · exact fun k => (h.mapped k).trans (sizeIn_update_of_ne (by simp [hs, ht]) (by simp) k).symm

end Ledger.Balanced
end TierAlloc
