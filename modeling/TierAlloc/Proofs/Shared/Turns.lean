import TierAlloc.Proofs.Shared.Tenure

/-!
# What a turn does to the regions

Whatever an allocator is asked for, and whether it succeeds or not, one turn does one thing to
the regions that it holds (`Change`): nothing at all, or it takes away a name that is not in
use, or it makes a region for the next batch or for a new segment, or it lets regions go. This
is said once of every turn (`Member.Step.turned`), and nothing else is needed to follow the
names through a run.

**Results.**
* `Change.tenure`, `Change.held`: what is under the names stays what is held.
* `Granted.turned`, `Refused.turned`, `Freed.turned`, `Written.turned`: what requests do.
* `System.Step.turned`, `Member.Step.turned`: every turn is such a change.
-/
namespace TierAlloc

open Shm (Made Steady Tenure validName)

/-- The segment, if it has a region to itself. -/
def Segment.alone? (s : Segment) : Option Segment :=
  match s.kind with
  | .ephemeral => some s
  | _ => none

/-- The segment that a step has made a region for. -/
def System.Event.mapped? : System.Event → Option Segment
  | granted _ s _ => s.alone?
  | _ => none

/-- The segment that a turn has made a region for. -/
def Member.Event.mapped? : Member.Event → Option Segment
  | region _ (.ok s) => some s
  | allocator e => e.mapped?
  | _ => none

namespace Allocator

/-- What a turn makes of the regions that an allocator holds, and the segment that a region was
made for. -/
inductive Change (a : Allocator) (shm : Shm) : Option Segment → (String → Region → Prop) → Shm → Prop
  /-- No name comes or goes. -/
  | steady {shm' : Shm} (h : Steady shm shm') : Change a shm none a.Holds shm'
  /-- A name that is not in use is taken away. -/
  | lost {n : String} (h : ∀ q, ¬a.Holds n q) : Change a shm none a.Holds (shm.unlink n)
  /-- There is one more batch. -/
  | added {r : Region} {shm' : Shm}
      (h : Made (staticRegionName a.name a.batches.length) a.config.geometry.totalBytes shm r shm') :
      Change a shm none (fun n q => a.Holds n q ∨ n = staticRegionName a.name a.batches.length ∧ q = r) shm'
  /-- There is one more segment with a region to itself. -/
  | mapped {s : Segment} {r : Region} {shm' : Shm} (kind : s.kind = .ephemeral) (manager : s.manager = a.name)
      (free : a.ephemeral.region? s.id = none) (h : Made (ephemeralRegionName a.name s.id) s.size shm r shm') :
      Change a shm (some s) (fun n q => a.Holds n q ∨ n = ephemeralRegionName a.name s.id ∧ q = r) shm'
  /-- Regions are let go. -/
  | gone {rs : List Region} (h : ∀ r ∈ rs, ∃ n, a.Holds n r) :
      Change a shm none (fun n q => a.Holds n q ∧ ¬∃ r ∈ rs, n = r.name) (rs.foldl Shm.release shm)

variable {a a' a₁ : Allocator} {shm shm' shm₁ : Shm} {s : Segment} {l : Ledger} {new : Option Segment}
  {r : Except Error Segment} {n : String} {q : Region} {id i : Nat} {holds : String → Region → Prop}

theorem not_holds_ephemeral (hfree : a.ephemeral.region? id = none) (q : Region) :
    ¬a.Holds (ephemeralRegionName a.name id) q := fun hq => by
  have hq := Holds.ephemeral_iff.mp hq
  rw [hfree] at hq
  cases hq

/-- The name of the next batch is not in use. -/
theorem not_holds_static (q : Region) : ¬a.Holds (staticRegionName a.name a.batches.length) q := fun hq => by
  have hlt := (List.getElem?_eq_some_iff.mp (Holds.static_iff.mp hq)).1
  simp at hlt

/-- What is under the names stays what is held. -/
theorem Change.tenure (ht : Tenure a.name a.Holds shm) (h : Change a shm new holds shm') :
    Tenure a.name holds shm' := by
  cases h with
  | steady h => exact ht.steady h
  | lost h => exact ht.lost h
  | added h => exact ht.made (Or.inl ⟨_, rfl⟩) not_holds_static h
  | mapped _ _ free h => exact ht.made (Or.inr (Or.inl ⟨_, rfl⟩)) (not_holds_ephemeral free) h
  | gone h => exact ht.released (ht.claims h)

/-- What is held after a change was held before, or it is the region that was made. -/
theorem Change.held (h : Change a shm new holds shm') (hq : holds n q) :
    a.Holds n q ∨
      n = staticRegionName a.name a.batches.length ∧ q.size = a.config.geometry.totalBytes ∨
      ∃ s, new = some s ∧ n = ephemeralRegionName a.name s.id ∧ q.size = s.size := by
  cases h with
  | steady => exact Or.inl hq
  | lost => exact Or.inl hq
  | added h =>
    rcases hq with hq | ⟨rfl, rfl⟩
    · exact Or.inl hq
    · exact Or.inr (Or.inl ⟨rfl, h.size_eq⟩)
  | mapped _ _ _ h =>
    rcases hq with hq | ⟨rfl, rfl⟩
    · exact Or.inl hq
    · exact Or.inr (Or.inr ⟨_, rfl, rfl, h.size_eq⟩)
  | gone => exact Or.inl hq.1

/-- A segment that a region was made for is an ephemeral one. -/
theorem Change.new_segment (h : Change a shm new holds shm') (hs : new = some s) : s.kind = .ephemeral ∧
    s.manager = a.name ∧ 0 < s.size ∧ validName (ephemeralRegionName a.name s.id) = true := by
  cases h with
  | mapped kind manager _ h =>
    obtain rfl := Option.some.inj hs
    exact ⟨kind, manager, h.positive, h.valid⟩
  | _ => cases hs

/-- The allocator after a turn, and what became of its regions. -/
structure Turned (a : Allocator) (shm : Shm) (new : Option Segment) (a' : Allocator) (shm' : Shm) : Prop where
  config : a'.config = a.config
  manager : a'.ephemeral.manager = a.ephemeral.manager
  exchange : a'.cache.exchange = a.cache.exchange
  sound : SoundBatches a'.batches
  fresh : ∀ s, new = some s → a.ids.issued ≤ s.id ∧ s.id < a'.ids.issued
  change : Change a shm new a'.Holds shm'

theorem Turned.name_eq (h : a.Turned shm new a' shm') : a'.name = a.name := by rw [name, h.config, name]

theorem Turned.tenure (h : a.Turned shm new a' shm') (ht : Tenure a.name a.Holds shm) :
    Tenure a'.name a'.Holds shm' := h.name_eq ▸ h.change.tenure ht

/-- A live segment was live before the turn, or it is the one that a region was made for. -/
theorem Turned.segment (h : a.Turned shm new a' shm') (hq : a'.ephemeral.region? id = some q) :
    a.ephemeral.region? id = some q ∨ ∃ s, new = some s ∧ s.id = id ∧ q.size = s.size := by
  have hholds : a'.Holds (ephemeralRegionName a'.name id) q := Holds.ephemeral_iff.mpr hq
  rw [h.name_eq] at hholds
  rcases h.change.held hholds with hq | ⟨hn, -⟩ | ⟨s, hs, hn, hsize⟩
  · exact Or.inl (Holds.ephemeral_iff.mp hq)
  · exact absurd hn (ephemeralRegionName_ne_static _ _ _ _)
  · exact Or.inr ⟨s, hs, (ephemeralRegionName_eq hn).2.symm, hsize⟩

/-- The region of a batch was there before the turn, or it was made with room for the batch. -/
theorem Turned.batch (h : a.Turned shm new a' shm') (hq : (a'.batches.map Batch.region)[i]? = some q) :
    (a.batches.map Batch.region)[i]? = some q ∨ q.size = a.config.geometry.totalBytes := by
  have hholds : a'.Holds (staticRegionName a'.name i) q := Holds.static_iff.mpr hq
  rw [h.name_eq] at hholds
  rcases h.change.held hholds with hq | ⟨-, hsize⟩ | ⟨s, -, hn, -⟩
  · exact Or.inl (Holds.static_iff.mp hq)
  · exact Or.inr hsize
  · exact absurd hn.symm (ephemeralRegionName_ne_static _ _ _ _)

/-- `a'` has the regions that `a` has. -/
structure Rests (a a' : Allocator) : Prop where
  config : a'.config = a.config
  manager : a'.ephemeral.manager = a.ephemeral.manager
  exchange : a'.cache.exchange = a.cache.exchange
  ids : a.ids.issued ≤ a'.ids.issued
  sound : SoundBatches a'.batches
  batches : a'.batches.map Batch.region = a.batches.map Batch.region
  segments : a'.ephemeral.region? = a.ephemeral.region?

theorem Rests.holds_eq (h : Rests a a') : a'.Holds = a.Holds := by
  unfold Holds
  rw [h.batches, h.segments, h.exchange, name, h.config, name]

theorem Rests.turned (h : Rests a a') (hs : Steady shm shm') : a.Turned shm none a' shm' where
  config := h.config
  manager := h.manager
  exchange := h.exchange
  sound := h.sound
  fresh := nofun
  change := h.holds_eq ▸ .steady hs

/-- A name that is not in use is taken away. -/
theorem Rests.lost (h : Rests a a') (hfree : ∀ q, ¬a.Holds n q) :
    a.Turned shm none a' (shm.unlink n) :=
  { h.turned (.refl shm) with change := h.holds_eq ▸ .lost hfree }

theorem Turned.rests (h : a.Turned shm new a₁ shm₁) (hr : Rests a₁ a') : a.Turned shm new a' shm₁ where
  config := hr.config.trans h.config
  manager := hr.manager.trans h.manager
  exchange := hr.exchange.trans h.exchange
  sound := hr.sound
  fresh s hs := ⟨(h.fresh s hs).1, Nat.lt_of_lt_of_le (h.fresh s hs).2 hr.ids⟩
  change := hr.holds_eq ▸ h.change

/-- `a'` has the batches and the exchange region that `a` has. -/
structure Anchored (a a' : Allocator) : Prop where
  config : a'.config = a.config
  manager : a'.ephemeral.manager = a.ephemeral.manager
  exchange : a'.cache.exchange = a.cache.exchange
  batches : a'.batches = a.batches

theorem Becomes.anchored (hb : a.Becomes l a') (hbatches : l.batches = a.batches) : Anchored a a' :=
  ⟨hb.config, hb.ephemeral, hb.exchange, (congrArg Ledger.batches hb.ledger).trans hbatches⟩

/-- What giving back a cache segment does. -/
theorem Freed.cached (ht : s.tier = .cache) (h : a.Freed shm s a' shm') :
    a.Becomes ((a.ledger.setContents s.id none).forget s.id) a' ∧ shm' = shm := by
  unfold Segment.tier at ht
  cases h with
  | chunks hkind =>
    rw [hkind] at ht
    cases ht
  | region hkind =>
    rw [hkind] at ht
    cases ht
  | entry _ hafter => exact ⟨hafter, rfl⟩

section
variable (hs : SoundBatches a.batches)

include hs

theorem Anchored.rests (h : Anchored a a') (hids : a.ids.issued ≤ a'.ids.issued)
    (hsegs : a'.ephemeral.region? = a.ephemeral.region?) : Rests a a' :=
  ⟨h.config, h.manager, h.exchange, hids, h.batches ▸ hs, by rw [h.batches], hsegs⟩

theorem Becomes.rests (hb : a.Becomes l a') (hbatches : l.batches = a.batches)
    (hregions : l.regions = a.ledger.regions) : Rests a a' :=
  (hb.anchored hbatches).rests hs hb.ids ((congrArg Ledger.regions hb.ledger).trans hregions)

theorem Rests.refl : Rests a a := (Becomes.refl a).rests hs rfl rfl

/-- Another state of a pool. -/
theorem Becomes.rests_pool {b : Batch} {p p' : Pool} (hb : a.Becomes l a')
    (hbatches : l.batches = a.batches.set b.id (b.putPool p')) (hregions : l.regions = a.ledger.regions)
    (hbatch : a.batches[b.id]? = some b) (hpool : b.pool? p.id = some p) (hp' : p.Sound → p.Same p' ∧ p'.Sound) :
    Rests a a' := by
  have hb' : a'.batches = a.batches.set b.id (b.putPool p') := (congrArg Ledger.batches hb.ledger).trans hbatches
  have hsound := (hs b.id b hbatch).2
  obtain ⟨hp, -⟩ := (Batch.pool?_eq_some hsound).mp hpool
  obtain ⟨hsame, hp'⟩ := hp' (hsound.pools p hp)
  refine ⟨hb.config, hb.ephemeral, hb.exchange, hb.ids, ?_, ?_, (congrArg Ledger.regions hb.ledger).trans hregions⟩
  · rw [hb']
    exact sound_set hs rfl (Batch.sound_putPool hsound hp hsame hp')
  · rw [hb', List.map_set]
    refine List.ext_getElem? fun i => ?_
    rw [List.getElem?_set]
    split
    · rename_i hi
      subst hi
      rw [List.getElem?_map, hbatch, List.length_map, if_pos (List.getElem?_eq_some_iff.mp hbatch).1]
      rfl
    · rfl

/-- A batch that may have been added. -/
theorem Grown.turned (hg : a.Grown shm a' shm') : a.Turned shm none a' shm' := by
  cases hg with
  | refused hb hmem =>
    have hr := hb.rests hs rfl rfl
    rcases hmem with rfl | rfl
    · exact hr.turned (.refl _)
    · exact hr.lost not_holds_static
  | @added b hmade hb =>
    obtain ⟨hid, -, hsound, -, hregion⟩ := Batch.create_sound hmade
    obtain ⟨-, -, -, -, htotal⟩ := Batch.create_plan hmade
    have hb' : a'.batches = a.batches ++ [b] := congrArg Ledger.batches hb.ledger
    have hsegs : a'.ephemeral.region? = a.ephemeral.region? := congrArg Ledger.regions hb.ledger
    refine ⟨hb.config, hb.ephemeral, hb.exchange, hb' ▸ sound_append hs hid hsound, nofun, ?_⟩
    have hholds : a'.Holds = fun n q => a.Holds n q ∨
        n = staticRegionName a.name a.batches.length ∧ q = b.region := by
      unfold Holds
      rw [hb', List.map_append, hsegs, hb.exchange, hb.name_eq, ← List.length_map Batch.region]
      exact Holds.add_batch b.region
    rw [hholds]
    rw [htotal] at hregion
    exact .added hregion

/-- A segment gets a region to itself. -/
theorem Anchored.mapped (h : Anchored a a')
    (hsegs : a'.ephemeral.region? = Function.update a.ephemeral.region? s.id (some q)) (hkind : s.kind = .ephemeral)
    (hname : s.manager = a.name) (hfresh : a.ids.issued ≤ s.id) (hdrawn : s.id < a'.ids.issued)
    (habsent : a.ephemeral.region? s.id = none) (hmade : Made (ephemeralRegionName a.name s.id) s.size shm q shm') :
    a.Turned shm (some s) a' shm' := by
  refine ⟨h.config, h.manager, h.exchange, h.batches ▸ hs, fun s' hs' => ?_, ?_⟩
  · obtain rfl := Option.some.inj hs'
    exact ⟨hfresh, hdrawn⟩
  · have hholds : a'.Holds = fun n q' => a.Holds n q' ∨ n = ephemeralRegionName a.name s.id ∧ q' = q := by
      unfold Holds
      rw [h.batches, hsegs, h.exchange, name, h.config]
      exact Holds.add_segment habsent q
    rw [hholds]
    exact .mapped hkind hname habsent hmade

theorem Mapped.turned (hm : a.ephemeral.manager = a.name) (h : a.Mapped shm s q a' shm') :
    a.Turned shm (some s) a' shm' := by
  have hmade := h.made
  rw [hm] at hmade
  exact (h.after.anchored rfl).mapped hs (congrArg Ledger.regions h.after.ledger) h.kind h.manager
    (Nat.le_of_eq h.fresh.symm) h.drawn h.absent hmade

/-- A request that is granted. -/
theorem Granted.turned (hm : a.ephemeral.manager = a.name) {content : Bytes}
    (h : a.Granted shm content s a' shm') : a.Turned shm s.alone? a' shm' := by
  cases h with
  | stored _ hst =>
    obtain rfl := hst.memory
    rw [Segment.alone?, hst.kind]
    exact (hst.after.rests hs rfl rfl).turned (.refl _)
  | took hg ht =>
    have hturned := hg.turned hs
    rw [Segment.alone?, ht.served.kind]
    exact hturned.rests (ht.after.rests_pool hturned.sound rfl rfl ht.batch ht.served.pool fun _ =>
      ⟨ht.served.same, ht.served.sound⟩)
  | mapped hmap =>
    rw [Segment.alone?, hmap.kind]
    exact hmap.turned hs hm

/-- A request that is refused. -/
theorem Refused.turned (hm : a.ephemeral.manager = a.name) (hfree : a.ephemeral.region? a.ids.issued = none)
    (h : a.Refused shm a' shm') : a.Turned shm none a' shm' := by
  cases h with
  | grown hg => exact hg.turned hs
  | unnamed hb =>
    rw [hm]
    exact (hb.rests hs rfl rfl).lost (not_holds_ephemeral hfree)

/-- Some segments lose their regions, which are let go. -/
theorem Anchored.gone {rs : List Region} {gone : Nat → Prop} (h : Anchored a a') (ht : Tenure a.name a.Holds shm)
    (hrs : ∀ r, r ∈ rs ↔ ∃ id, gone id ∧ a.ephemeral.region? id = some r)
    (hsegs : ∀ id r, a'.ephemeral.region? id = some r ↔ a.ephemeral.region? id = some r ∧ ¬gone id) :
    a.Turned shm none a' (rs.foldl Shm.release shm) := by
  have hname : ∀ {id r}, a.ephemeral.region? id = some r → r.name = ephemeralRegionName a.name id :=
    fun hr => (ht.leased (Holds.ephemeral_iff.mpr hr)).shows.name_eq
  have hholds : a'.Holds = fun n q => a.Holds n q ∧ ¬∃ r ∈ rs, n = r.name := by
    unfold Holds
    rw [h.batches, h.exchange, name, h.config]
    refine Holds.less_segments (fun n hn => ?_) fun id r => ?_
    · obtain ⟨r, hr, hn⟩ := hn
      obtain ⟨id, -, hid⟩ := (hrs r).mp hr
      exact ⟨id, hn.trans (hname hid)⟩
    · rw [hsegs]
      refine and_congr_right fun hid => not_congr ⟨fun hg => ⟨r, (hrs r).mpr ⟨id, hg, hid⟩, (hname hid).symm⟩, ?_⟩
      rintro ⟨r', hr', he⟩
      obtain ⟨id', hg, hid'⟩ := (hrs r').mp hr'
      rw [hname hid'] at he
      rwa [(ephemeralRegionName_eq he).2]
  refine ⟨h.config, h.manager, h.exchange, h.batches ▸ hs,
    fun _ hnew => absurd hnew.symm (Option.some_ne_none _), ?_⟩
  rw [hholds]
  exact .gone fun r hr => by
    obtain ⟨id, -, hid⟩ := (hrs r).mp hr
    exact ⟨_, Holds.ephemeral_iff.mpr hid⟩

/-- A segment loses its region. -/
theorem Anchored.freed (h : Anchored a a') (ht : Tenure a.name a.Holds shm) (hr : a.ephemeral.region? id = some q)
    (hsegs : a'.ephemeral.region? = Function.update a.ephemeral.region? id none) :
    a.Turned shm none a' (shm.release q) := by
  refine @Anchored.gone a a' shm hs [q] (· = id) h ht (fun r => ?_) fun k r => ?_
  · simp [hr, eq_comm]
  · rw [hsegs, Function.update_apply]
    split <;> simp_all

/-- A segment that is given back. -/
theorem Freed.turned (ht : Tenure a.name a.Holds shm) (h : a.Freed shm s a' shm') : a.Turned shm none a' shm' := by
  cases h with
  | chunks _ hb hp hfree hafter =>
    exact (hafter.rests_pool hs rfl rfl hb hp fun hps => Pool.freeRange_sound hps hfree).turned (.refl _)
  | region _ hr hafter =>
    exact (hafter.anchored rfl).freed hs ht hr (congrArg Ledger.regions hafter.ledger)
  | entry _ hafter => exact (hafter.rests hs rfl rfl).turned (.refl _)

/-- A write. -/
theorem Written.turned {offset : Nat} {data : Bytes} (h : a.Written shm s offset data a' shm') :
    a.Turned shm none a' shm' := by
  cases h with
  | chunks => exact (Rests.refl hs).turned (Shm.steady_store ..)
  | region => exact (Rests.refl hs).turned (Shm.steady_store ..)
  | entry _ _ _ hafter => exact (hafter.rests hs rfl rfl).turned (.refl _)

/-- A cache segment is recorded, or given back to the cache. -/
theorem register_cached (ht : s.tier = .cache) (h : a.register s shm = (r, a', shm')) :
    Rests a a' ∧ shm' = shm := by
  unfold register at h
  simp only at h
  split at h
  · split at h
    · rename_i a₁ shm₁ hf
      obtain ⟨-, h⟩ := Prod.mk.inj h
      obtain ⟨rfl, rfl⟩ := Prod.mk.inj h
      have ht : (s.stamp a.name).tier = .cache := ht
      obtain ⟨hb, hshm⟩ := (freeInTier_ok hf).cached ht
      have hr := hb.rests hs rfl rfl
      exact ⟨⟨hr.config, hr.manager, hr.exchange, hr.ids, hr.sound, hr.batches, hr.segments⟩, hshm⟩
    · obtain ⟨-, h⟩ := Prod.mk.inj h
      obtain ⟨rfl, rfl⟩ := Prod.mk.inj h
      exact ⟨.refl hs, rfl⟩
  · obtain ⟨-, h⟩ := Prod.mk.inj h
    obtain ⟨rfl, rfl⟩ := Prod.mk.inj h
    exact ⟨⟨rfl, rfl, rfl, Nat.le_refl _, hs, rfl, rfl⟩, rfl⟩

/-- The cache may be another, with the same exchange region. -/
theorem rests_cache {cache : Cache} (hx : cache.exchange = a.cache.exchange) : Rests a { a with cache } :=
  ⟨rfl, rfl, hx, Nat.le_refl _, hs, rfl, rfl⟩

/-- The end of a wait. -/
theorem await_turned {p : Pending} (h : a.await? p shm = some (r, a', shm')) : a.Turned shm none a' shm' := by
  unfold await? at h
  split at h
  · cases h
  · rename_i e cache shm₁ hw
    obtain ⟨hsteady, hx⟩ := Pending.steady_settle hw
    obtain ⟨-, h⟩ := Prod.mk.inj (Option.some.inj h)
    obtain ⟨rfl, rfl⟩ := Prod.mk.inj h
    exact (rests_cache hs hx).turned hsteady
  rename_i s₀ cache shm₁ hw
  obtain ⟨hsteady, hx⟩ := Pending.steady_settle hw
  have hturned := (rests_cache hs hx).turned hsteady
  split at h
  · rename_i hin
    have ht : s₀.tier = .cache := by
      rcases Pending.settle_cases hw with ⟨shm₂, ht⟩ | ⟨he, -⟩
      · rcases Pending.take_entry ht with ⟨hout, -⟩ | ⟨-, -, bytes, rfl, -⟩
        · rw [hin] at hout
          cases hout
        · rfl
      · cases he
    obtain ⟨hr, rfl⟩ := register_cached hturned.sound ht (Option.some.inj h)
    exact hturned.rests hr
  · obtain ⟨-, h⟩ := Prod.mk.inj (Option.some.inj h)
    obtain ⟨rfl, rfl⟩ := Prod.mk.inj h
    exact hturned

/-- The end of a callback, for an entry of the cache that is replaced. -/
theorem replaceEntry_rests {id n : Nat} {replace : Cache → Except Error Unit × Cache} {answer : Except Error Unit}
    (hx : (replace a.cache).2.exchange = a.cache.exchange) (h : a.replaceEntry id n replace = (answer, a')) :
    Rests a a' := by
  unfold replaceEntry at h
  split at h
  · rw [← (Prod.mk.inj h).2]
    exact .refl hs
  split at h
  · rename_i e cache hr
    rw [hr] at hx
    rw [← (Prod.mk.inj h).2]
    exact rests_cache hs hx
  · rename_i cache hr
    rw [hr] at hx
    rw [← (Prod.mk.inj h).2]
    exact ⟨rfl, rfl, hx, Nat.le_refl _, hs, rfl, rfl⟩

end

end Allocator

/-! ## Turns -/

open Allocator

section
variable {s s' : System} {fills : List Fill} (hi : s.allocator.Indexed)
  (ho : (s.allocator.holding s.traffic fills).Orderly s.allocator.ids) (hs : SoundBatches s.allocator.batches)
  (hm : s.allocator.ephemeral.manager = s.allocator.name) (ht : Tenure s.allocator.name s.allocator.Holds s.shm)

include hi ho hs hm ht

theorem System.Step.turned {allowed : Traffic → Descriptor → Prop} {e : System.Event} (h : Step allowed s e s')
    (he : e ≠ .outside) : Turned s.allocator s.shm e.mapped? s'.allocator s'.shm := by
  have hrest : Rests s.allocator s.allocator := .refl hs
  have hnew := unissued_of_orderly ho
  have hfree := regions_none ho (Nat.le_refl _)
  cases h with
  | granted hr => exact (Request.granted hs hnew hr).2.turned hs hm
  | refused hr => exact (Request.refused hs hnew hfree hr).turned hs hm hfree
  | @replace r answer _ hr =>
    cases answer with
    | error e => exact ((Replacement.error hr).rests hs rfl rfl).turned (.refl _)
    | ok u =>
      obtain ⟨seg, -, -, -, hb⟩ := Replacement.ok (hi.own r.id) hr
      exact (hb.rests hs rfl rfl).turned (.refl _)
  | @released id _ _ _ hr =>
    obtain ⟨seg, -, -, -, hf⟩ := release_ok (hi.own id) hr
    exact hf.turned hs ht
  | unreleased => exact hrest.turned (.refl _)
  | @written id _ _ _ _ hw =>
    obtain ⟨seg, -, -, -, hw⟩ := write_ok hs (hi.own id) hw
    exact hw.turned hs
  | unwritten => exact hrest.turned (.refl _)
  | read => exact hrest.turned (.refl _)
  | askMalloc h => exact ((offerMalloc_ids h).rests hs rfl rfl).turned (.refl _)
  | denyMalloc h => exact ((offerMalloc_ids h).rests hs rfl rfl).turned (.refl _)
  | askRetrieve => exact hrest.turned (.refl _)
  | denyRetrieve => exact hrest.turned (.refl _)
  | exchange hx => exact hrest.turned hx.steady
  | await _ ha => exact await_turned hs ha
  | @drop pre c post =>
    dsimp only
    exact hrest.turned (c.pending.steady_drop s.shm)
  | outside => exact absurd rfl he

end

section
variable {a a' : Allocator} {t t' : Traffic} {fills fills' : List Fill} {ids ids' : Counter} {shm shm' : Shm}
  (ho : (a.holding t fills).Orderly ids) (hs : SoundBatches a.batches)
  (hm : a.ephemeral.manager = a.name) (ht : Tenure a.name a.Holds shm) (hi : a.Indexed)

include ho hs hm ht

/-- Direct use of the ephemeral tier. -/
theorem Member.regions_turned {e : Member.Event} {m' : Ephemeral}
    (h : Member.Regions ids shm a.ephemeral e ids' shm' m') :
    Turned { a with ids } shm e.mapped? { a with ids := ids', ephemeral := m' } shm' := by
  have hfree : a.ephemeral.region? ids.issued = none := regions_none (a := { a with ids }) ho (Nat.le_refl _)
  cases h with
  | made h =>
    obtain ⟨rfl, hserve⟩ := Ephemeral.allocate_serve h
    obtain ⟨rfl, hnone, q, hmade, rfl⟩ := Ephemeral.serve_ok hserve
    rw [hm] at hmade
    exact Anchored.mapped (a := { a with ids }) hs ⟨rfl, rfl, rfl, rfl⟩ (Table.get?_insert_eq ..) rfl hm (Nat.le_refl _)
      (Nat.lt_succ_self _) hnone hmade
  | refused h =>
    obtain ⟨rfl, hserve⟩ := Ephemeral.allocate_serve h
    have hr : Rests { a with ids } { a with ids := ids.draw.2 } := ⟨rfl, rfl, rfl, Nat.le_succ _, hs, rfl, rfl⟩
    rcases Ephemeral.serve_error hfree hserve with rfl | rfl
    · exact hr.turned (.refl _)
    · rw [hm]
      exact hr.lost (not_holds_ephemeral hfree)
  | freed h =>
    obtain ⟨-, q, hq, rfl, rfl⟩ := Ephemeral.free_ok h
    exact Anchored.freed (a := { a with ids }) hs ⟨rfl, rfl, rfl, rfl⟩ ht hq (Table.get?_erase_eq ..)
  | cleared =>
    refine @Anchored.gone { a with ids } _ shm hs _ (fun _ => True) ⟨rfl, rfl, rfl, rfl⟩ ht (fun r => ?_) fun id r => ?_
    · rw [Table.mem_values]
      exact exists_congr fun id => (and_iff_right trivial).symm
    · exact ⟨nofun, fun h => absurd trivial h.2⟩

include hi

/-- Every turn of an allocator is one change of its regions, whatever it asks for and whether it
succeeds or not. -/
theorem Member.Step.turned {e : Member.Event}
    (h : Step ⟨ids, shm, .allocator a t fills⟩ e ⟨ids', shm', .allocator a' t' fills'⟩)
    (he : e ≠ .allocator .outside) (hb : e ≠ .cache (.channel .beside)) :
    Turned { a with ids } shm e.mapped? { a' with ids := ids' } shm' := by
  have hle : ids.issued ≤ ids'.issued := (Member.Step.moves (T := ⟨ids, shm, .allocator a t fills⟩) hi ho h).2.ids_le
  cases h with
  | allocator h =>
    have hi' : Allocator.Indexed { a with ids } := ⟨hi.uniform, hi.own⟩
    exact System.Step.turned (s := ⟨{ a with ids }, shm, t⟩) hi' ho hs hm ht h fun ho => he (congrArg _ ho)
  | itsCache h =>
    obtain ⟨hsteady, hx⟩ := h.steady fun hc => hb (congrArg _ hc)
    have hrest : Rests { a with ids } { a with ids := ids', cache := _ } := ⟨rfl, rfl, hx, hle, hs, rfl, rfl⟩
    exact hrest.turned hsteady
  | itsRegions h => exact Member.regions_turned ho hs hm ht h
  | @filled _ _ _ _ pre f post content answer cache r _ _ hp hf h =>
    have hrest := rests_cache (a := { a with ids }) hs (Fill.finish_exchange hf)
    unfold registerCached at h
    cases answer with
    | error e =>
      obtain ⟨-, h⟩ := Prod.mk.inj h
      obtain ⟨rfl, rfl⟩ := Prod.mk.inj h
      exact hrest.turned (.refl _)
    | ok u =>
      obtain ⟨hr, rfl⟩ := register_cached hrest.sound rfl h
      exact (hrest.turned (.refl _)).rests hr
  | replaced hp h =>
    exact (replaceEntry_rests (a := { a with ids }) hs (Fill.finish_exchange rfl) h).turned (.refl _)

end
end TierAlloc
