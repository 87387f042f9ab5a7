import TierAlloc.Proofs.Consumer.Attachments
import TierAlloc.Proofs.Shared.Turns

/-!
# The names of an allocator, from first to last

A `Life` is the shared memory with one allocator: there may be attempts to make it that fail,
then it has its turns, one after the other, and in the end it is dropped. All the while others
do with the memory what they like, but that no name of the allocator is theirs and no region of
it is kept by them (`Shm.Elsewhere`).

A region is made when a batch or a segment needs it, some calls fail with the region already
made, and regions go when their owners do. Nothing of this is looked at here: each turn is one
`Change` of the regions, so what is under the names stays what is due.

**Results.**
* `Allocator.create_tenure`, `Allocator.create_vacant`, `Allocator.drop_tenure`: the first step
  and the last.
* `Kept.step`: what is held at every point.
* `region_names_exact`: which names there are at every point, of what size, and which never
  come back.
-/
namespace TierAlloc

open Shm (Made Steady Tenure Elsewhere validName)

/-! ## Making and dropping an allocator -/

namespace Allocator

variable {a : Allocator} {config : Config} {shm shm' : Shm} {e : Error}

/-- There is an exchange region of the size that the mode asks for, or none. -/
def Placed (mode : CacheMode) (exchange : Option Exchange) : Prop :=
  match mode with
  | .inProcess => exchange = none
  | .handoff count size => ∃ x, exchange = some x ∧ x.region.size = Layout.totalBytes ⟨count, size⟩

/-- What is held once a batch and a cache are made. -/
theorem create_tenure (ht : Tenure config.name (fun _ _ => False) shm) (h : create config shm = (.ok a, shm')) :
    Tenure config.name a.Holds shm' ∧ Placed config.cacheMode a.cache.exchange := by
  obtain ⟨first, shm₁, cache, -, hb, hc, rfl⟩ := create_ok h
  obtain ⟨-, -, -, -, hregion⟩ := Batch.create_sound hb
  have hfirst := ht.made (Or.inl ⟨0, rfl⟩) (fun _ => id) hregion
  have hholds : TierAlloc.Holds config.name [first.region] (fun _ => none) none =
      fun n q => False ∨ n = staticRegionName config.name 0 ∧ q = first.region := by
    rw [← List.nil_append [first.region], TierAlloc.Holds.add_batch, TierAlloc.Holds.empty]
    rfl
  rw [← hholds] at hfirst
  rcases Cache.create_exchange hc with ⟨hmode, hx, rfl⟩ | ⟨count, size, x, shm₂, hmode, hx, hmade, hpatch⟩
  · refine ⟨?_, by rw [hmode]; exact hx⟩
    unfold Allocator.Holds
    simp only [hx]
    exact hfirst
  · refine ⟨?_, by rw [hmode]; exact ⟨x, hx, hmade.size_eq⟩⟩
    unfold Allocator.Holds
    simp only [hx]
    have hsecond := hfirst.made (Or.inr (Or.inr rfl)) (fun q hq => by cases Holds.cache_iff.mp hq) hmade
    rw [← Holds.add_exchange] at hsecond
    exact hsecond.steady hpatch.steady

/-- An allocator that could not be made leaves no name, though its first batch may have been made. -/
theorem create_vacant (ht : Tenure config.name (fun _ _ => False) shm) (h : create config shm = (.error e, shm')) :
    Tenure config.name (fun _ _ => False) shm' := by
  unfold create at h
  split at h
  · rw [← (Prod.mk.inj h).2]
    exact ht
  split at h
  · rename_i hb
    rw [← (Prod.mk.inj h).2]
    rcases Batch.create_error hb with rfl | rfl
    · exact ht
    · exact ht.lost fun _ => id
  rename_i first shm₁ hb
  obtain ⟨-, -, -, -, hregion⟩ := Batch.create_sound hb
  have hfirst := ht.made (Or.inl ⟨0, rfl⟩) (fun _ => id) hregion
  split at h
  · rename_i e₀ shm₂ hc
    rw [← (Prod.mk.inj h).2]
    have hsecond : Tenure config.name
        (fun n q => False ∨ n = staticRegionName config.name 0 ∧ q = first.region) shm₂ := by
      rcases Cache.create_refused hc with rfl | rfl
      · exact hfirst
      · exact hfirst.lost fun q hq => hq.elim id fun hq => staticRegionName_ne_cache _ _ _ hq.1.symm
    have hdropped : Tenure config.name (fun _ _ => False) ([first.region].foldl Shm.release shm₂) :=
      hsecond.vacated (fun r hr => ⟨_, Or.inr ⟨rfl, List.mem_singleton.mp hr⟩⟩)
        fun n r hr => List.mem_singleton.mpr (hr.resolve_left id).2
    exact hdropped
  · cases (Prod.mk.inj h).1

/-- All that is held is let go. -/
theorem drop_eq (a : Allocator) (shm : Shm) : a.drop shm = (a.batches.map Batch.region ++
    (a.ephemeral.regions.values ++ (a.cache.exchange.map Exchange.region).toList)).foldl Shm.release shm := by
  rw [List.foldl_append, List.foldl_append, List.foldl_map]
  unfold drop Cache.drop
  cases a.cache.exchange <;> rfl

theorem drop_tenure (ht : Tenure a.name a.Holds shm) : Tenure a.name (fun _ _ => False) (a.drop shm) := by
  rw [drop_eq]
  refine ht.vacated (fun r hr => ?_) fun n r h => ?_
  · rcases List.mem_append.mp hr with hr | hr
    · obtain ⟨i, hi⟩ := List.getElem?_of_mem hr
      exact ⟨_, .batch hi⟩
    rcases List.mem_append.mp hr with hr | hr
    · obtain ⟨id, hid⟩ := Table.mem_values.mp hr
      exact ⟨_, .segment hid⟩
    · exact ⟨_, .exchange (Option.mem_toList.mp hr)⟩
  · cases h with
    | batch h => exact List.mem_append_left _ (List.mem_of_getElem? h)
    | segment h => exact List.mem_append_right _ (List.mem_append_left _ (Table.mem_values.mpr ⟨_, h⟩))
    | exchange h => exact List.mem_append_right _ (List.mem_append_right _ (Option.mem_toList.mpr h))

end Allocator

/-! ## The life of an allocator -/

namespace Life

/-- How far the allocator has come. -/
inductive Phase where
  | before
  | serving (ids : Counter) (a : Allocator) (t : Traffic) (fills : List Fill)
  | after

namespace Phase

/-- The regions that are held. -/
def Holds : Phase → String → Region → Prop
  | serving _ a _ _ => a.Holds
  | _ => fun _ _ => False

def batchCount : Phase → Nat
  | serving _ a _ _ => a.batches.length
  | _ => 0

/-- There is a segment with a region to itself under this id. -/
def Live (id : Nat) : Phase → Prop
  | serving _ a _ _ => a.ephemeral.region? id ≠ none
  | _ => False

end Phase
end Life

structure Life where
  shm : Shm
  phase : Life.Phase

namespace Life

inductive Event where
  /-- The allocator could not be made. -/
  | refused (e : Error)
  | created
  | turn (e : Member.Event)
  | dropped
  | outside

namespace Event

/-- The segment that a region was made for. -/
def mapped? : Event → Option Segment
  | turn e => e.mapped?
  | _ => none

/-- The step gives a segment with a region to itself, or the allocator. No call that fails
does. -/
def Yields : Event → Prop
  | created => True
  | turn e => e.mapped? ≠ none
  | _ => False

end Event

inductive Step (config : Config) : Life → Event → Life → Prop
  | refused {shm e shm'} (h : Allocator.create config shm = (.error e, shm')) :
      Step config ⟨shm, .before⟩ (.refused e) ⟨shm', .before⟩
  | created {shm a shm'} (h : Allocator.create config shm = (.ok a, shm')) :
      Step config ⟨shm, .before⟩ .created ⟨shm', .serving a.ids a .empty []⟩
  | turn {ids shm a t fills e ids' shm' a' t' fills'}
      (h : Member.Step ⟨ids, shm, .allocator a t fills⟩ e ⟨ids', shm', .allocator a' t' fills'⟩)
      (own : e ≠ .allocator .outside ∧ e ≠ .cache (.channel .beside)) :
      Step config ⟨shm, .serving ids a t fills⟩ (.turn e) ⟨shm', .serving ids' a' t' fills'⟩
  | dropped {ids shm a t fills} : Step config ⟨shm, .serving ids a t fills⟩ .dropped ⟨a.drop shm, .after⟩
  | outside {shm phase shm'} (h : Elsewhere config.name phase.Holds shm shm') :
      Step config ⟨shm, phase⟩ .outside ⟨shm', phase⟩

/-- The segments that regions were made for. -/
def made (events : List Event) : List Segment := events.filterMap Event.mapped?

/-- A name that is due, with the size of what is to be under it. -/
inductive Due (config : Config) (made : List Segment) : Phase → String → Nat → Prop
  | batch {ids a t fills i} (h : i < a.batches.length) :
      Due config made (.serving ids a t fills) (staticRegionName config.name i) config.geometry.totalBytes
  | exchange {ids a t fills count size} (h : config.cacheMode = .handoff count size) :
      Due config made (.serving ids a t fills) (cacheRegionName config.name) (Layout.totalBytes ⟨count, size⟩)
  | segment {ids a t fills s} (h : s ∈ made) (live : a.ephemeral.region? s.id ≠ none) :
      Due config made (.serving ids a t fills) (ephemeralRegionName config.name s.id) s.size

/-! ## What is held at every point -/

/-- What is known of an allocator that serves, after regions were made for the segments `made`. -/
structure Serving (config : Config) (made : List Segment) (ids : Counter) (a : Allocator) (t : Traffic)
    (fills : List Fill) : Prop where
  config_eq : a.config = config
  checked : config.check = .ok ()
  manager : a.ephemeral.manager = a.name
  indexed : a.Indexed
  orderly : (a.holding t fills).Orderly ids
  sound : SoundBatches a.batches
  placed : Allocator.Placed config.cacheMode a.cache.exchange
  spans : ∀ (i : Nat) (q : Region), (a.batches.map Batch.region)[i]? = some q → q.size = config.geometry.totalBytes
  live : ∀ id q, a.ephemeral.region? id = some q → ∃ s ∈ made, s.id = id
  sizes : ∀ s ∈ made, ∀ q, a.ephemeral.region? s.id = some q → q.size = s.size
  drawn : ∀ s ∈ made, s.id < ids.issued

/-- The segment got a region under its own name. -/
structure Named (config : Config) (s : Segment) : Prop where
  kind : s.kind = .ephemeral
  manager : s.manager = config.name
  nonempty : config.name.isEmpty = false
  positive : 0 < s.size
  valid : validName (ephemeralRegionName config.name s.id) = true

/-- Before the allocator is made no region was made for a segment. -/
def Phase.Sound (config : Config) (made : List Segment) : Phase → Prop
  | .before => made = []
  | .serving ids a t fills => Serving config made ids a t fills
  | .after => True

/-- What is known after these events. -/
structure Kept (config : Config) (events : List Event) (L : Life) : Prop where
  tenure : Tenure config.name L.phase.Holds L.shm
  sound : L.phase.Sound config (made events)
  named : ∀ s ∈ made events, Named config s

variable {config : Config} {events : List Event} {e : Event} {L L' : Life} {ids ids' : Counter} {a a' : Allocator}
  {t t' : Traffic} {fills fills' : List Fill} {shm shm' : Shm} {segments : List Segment}

theorem made_append (events : List Event) (e : Event) : made (events ++ [e]) = made events ++ e.mapped?.toList := by
  unfold made
  rw [List.filterMap_append]
  cases h : e.mapped? <;> simp [h]

theorem made_quiet (h : e.mapped? = none) : made (events ++ [e]) = made events := by
  rw [made_append, h, Option.toList_none, List.append_nil]

/-- An allocator as it is made. -/
theorem serving_create {shm₀ : Shm} (hp : Allocator.Placed config.cacheMode a.cache.exchange)
    (h : Allocator.create config shm₀ = (.ok a, shm)) : Serving config [] a.ids a .empty [] := by
  obtain ⟨hi, hnil, hnone⟩ := (Member.Made.allocator h).fresh
  have horderly : (Member.allocator a .empty []).holding.Orderly a.ids :=
    ⟨hnil ▸ .nil, by rw [hnil]; nofun, by rw [hnil]; nofun, fun id hid => absurd hid (hnone id)⟩
  obtain ⟨first, shm₁, cache, hcheck, hb, -, rfl⟩ := Allocator.create_ok h
  obtain ⟨hid, -, hsound, -, hregion⟩ := Batch.create_sound hb
  obtain ⟨-, -, -, -, htotal⟩ := Batch.create_plan hb
  refine ⟨rfl, hcheck, rfl, hi, horderly, ?_, hp, fun i q hq => ?_, nofun, nofun, nofun⟩
  · have hnil : SoundBatches ([] ++ [first]) := sound_append nofun hid hsound
    exact hnil
  · obtain rfl := List.mem_singleton.mp (List.mem_of_getElem? hq)
    rw [hregion.size_eq, htotal]

/-- A turn is a change of the regions, and what is known stays known. -/
theorem Serving.turn {e : Member.Event} (h : Serving config segments ids a t fills)
    (ht : Tenure a.name a.Holds shm)
    (hs : Member.Step ⟨ids, shm, .allocator a t fills⟩ e ⟨ids', shm', .allocator a' t' fills'⟩)
    (own : e ≠ .allocator .outside ∧ e ≠ .cache (.channel .beside)) :
    Allocator.Turned { a with ids } shm e.mapped? { a' with ids := ids' } shm' ∧
      Serving config (segments ++ e.mapped?.toList) ids' a' t' fills' := by
  have hturned := hs.turned h.orderly h.sound h.manager ht h.indexed own.1 own.2
  obtain ⟨hi, hm⟩ := Member.Step.moves (T := ⟨ids, shm, .allocator a t fills⟩) h.indexed h.orderly hs
  have hname : a'.name = a.name := hturned.name_eq
  refine ⟨hturned, hturned.config.trans h.config_eq, h.checked, ?_, hi, hm.orderly h.orderly, hturned.sound, ?_,
    fun i q hq => ?_, fun id q hq => ?_, fun s hs q hq => ?_, fun s hs => ?_⟩
  · exact hturned.manager.trans (h.manager.trans hname.symm)
  · exact hturned.exchange ▸ h.placed
  · rcases hturned.batch hq with hq | hsize
    · exact h.spans i q hq
    · rw [hsize, ← h.config_eq]
  · rcases hturned.segment hq with hq | ⟨s, hs, hid, -⟩
    · obtain ⟨s, hs, hid⟩ := h.live id q hq
      exact ⟨s, List.mem_append_left _ hs, hid⟩
    · exact ⟨s, List.mem_append_right _ (Option.mem_toList.mpr hs), hid⟩
  · rcases List.mem_append.mp hs with hs | hs
    · rcases hturned.segment hq with hq | ⟨s', hs', hid, -⟩
      · exact h.sizes s hs q hq
      · have hge : ids.issued ≤ s'.id := (hturned.fresh s' hs').1
        have hlt := h.drawn s hs
        omega
    · have hnew := Option.mem_toList.mp hs
      rcases hturned.segment hq with hq | ⟨s', hs', -, hsize⟩
      · have hge : ids.issued ≤ s.id := (hturned.fresh s hnew).1
        rw [Allocator.regions_none (a := { a with ids }) h.orderly hge] at hq
        cases hq
      · rwa [Option.some.inj (hnew.symm.trans hs')]
  · rcases List.mem_append.mp hs with hs | hs
    · exact Nat.lt_of_lt_of_le (h.drawn s hs) hm.ids_le
    · exact (hturned.fresh s (Option.mem_toList.mp hs)).2

/-- Every step keeps what is known. -/
theorem Kept.step (h : Kept config events L) (hs : Step config L e L') : Kept config (events ++ [e]) L' := by
  have hquiet : ∀ {phase : Phase} {shm : Shm}, e.mapped? = none → Tenure config.name phase.Holds shm →
      phase.Sound config (made events) → Kept config (events ++ [e]) ⟨shm, phase⟩ := by
    intro phase shm he ht hsound
    refine ⟨ht, ?_, ?_⟩ <;> rw [made_quiet he]
    · exact hsound
    · exact h.named
  cases hs with
  | refused hc => exact hquiet rfl (Allocator.create_vacant h.tenure hc) h.sound
  | created hc =>
    obtain ⟨ht, hp⟩ := Allocator.create_tenure h.tenure hc
    have hnil : made events = [] := h.sound
    exact hquiet rfl ht (hnil ▸ serving_create hp hc)
  | turn hm own =>
    have hserving : Serving config (made events) _ _ _ _ := h.sound
    obtain rfl := hserving.config_eq
    obtain ⟨hturned, hserving'⟩ := hserving.turn h.tenure hm own
    refine ⟨?_, by rw [made_append]; exact hserving', fun s hs => ?_⟩
    · have ht := hturned.tenure h.tenure
      rwa [hturned.name_eq] at ht
    · rw [made_append] at hs
      rcases List.mem_append.mp hs with hs | hs
      · exact h.named s hs
      · obtain ⟨hkind, hmanager, hpositive, hvalid⟩ := hturned.change.new_segment (Option.mem_toList.mp hs)
        exact ⟨hkind, hmanager, Config.name_of_check hserving.checked, hpositive, hvalid⟩
  | dropped =>
    have hserving : Serving config (made events) _ _ _ _ := h.sound
    obtain rfl := hserving.config_eq
    exact hquiet rfl (Allocator.drop_tenure h.tenure) trivial
  | outside ho => exact hquiet rfl (h.tenure.elsewhere ho) h.sound

/-! ## What is under the names -/

section
variable {phase : Phase} {n : String} {size : Nat} {s : Segment}

/-- There is a region for each name that is due. -/
theorem Due.held (hd : Due config segments phase n size) (h : phase.Sound config segments) :
    ∃ q : Region, phase.Holds n q ∧ q.size = size := by
  cases hd with
  | @batch ids a t fills i hi =>
    have hs : Serving config segments ids a t fills := h
    obtain rfl := hs.config_eq
    have hq : (a.batches.map Batch.region)[i]? = some (a.batches[i]).region := by simp [hi]
    exact ⟨_, .batch hq, hs.spans i _ hq⟩
  | @exchange ids a t fills count size hmode =>
    have hs : Serving config segments ids a t fills := h
    obtain rfl := hs.config_eq
    have hp := hs.placed
    rw [hmode] at hp
    obtain ⟨x, hx, hsize⟩ := hp
    exact ⟨x.region, .exchange (by rw [hx]; rfl), hsize⟩
  | @segment ids a t fills s hmem hlive =>
    have hs : Serving config segments ids a t fills := h
    obtain rfl := hs.config_eq
    obtain ⟨q, hq⟩ := Option.ne_none_iff_exists'.mp hlive
    exact ⟨q, .segment hq, hs.sizes s hmem q hq⟩

/-- A region that is held is due. -/
theorem due_of_holds {q : Region} (hq : phase.Holds n q) (h : phase.Sound config segments) :
    ∃ size, Due config segments phase n size := by
  cases phase with
  | serving ids a t fills =>
    have hs : Serving config segments ids a t fills := h
    obtain rfl := hs.config_eq
    cases hq with
    | batch hi =>
      rw [List.getElem?_map, Option.map_eq_some_iff] at hi
      obtain ⟨b, hb, -⟩ := hi
      exact ⟨_, .batch (List.getElem?_eq_some_iff.mp hb).1⟩
    | segment hid =>
      obtain ⟨s, hmem, rfl⟩ := hs.live _ _ hid
      exact ⟨_, .segment hmem (by rw [hid]; nofun)⟩
    | exchange hx =>
      have hp := hs.placed
      unfold Allocator.Placed at hp
      split at hp
      · rw [hp] at hx
        cases hx
      · rename_i count size hmode
        exact ⟨_, .exchange hmode⟩
  | _ => exact hq.elim

theorem live_of_holds {q : Region} {id : Nat} (hq : phase.Holds (ephemeralRegionName config.name id) q)
    (h : phase.Sound config segments) : phase.Live id := by
  cases phase with
  | serving ids a t fills =>
    have hs : Serving config segments ids a t fills := h
    obtain rfl := hs.config_eq
    rw [Phase.Live, Holds.ephemeral_iff.mp hq]
    nofun
  | _ => exact hq.elim

/-- The names of the allocator are those that are due, and what is under them can be attached. -/
structure Exact (config : Config) (made : List Segment) (L : Life) : Prop where
  names : ∀ n, OfManager config.name n →
    (L.shm.names.get? n ≠ none ↔ ∃ size, Due config made L.phase n size)
  attach : ∀ n size, Due config made L.phase n size → ∃ r, L.shm.attach n = .ok r ∧ r.size = size
  /-- There are none before the allocator is made, nor after it is dropped. -/
  none : L.phase = .before ∨ L.phase = .after → ∀ n, OfManager config.name n → L.shm.names.get? n = none
  /-- A live id is that of a segment that a region was made for. -/
  live : ∀ id, L.phase.Live id → ∃ s ∈ made, s.id = id

theorem Kept.exact (h : Kept config events L) : Exact config (made events) L := by
  refine ⟨fun n hn => ⟨fun hi => ?_, fun ⟨size, hd⟩ => ?_⟩, fun n size hd => ?_, fun hp n hn => ?_,
    fun id hlive => ?_⟩
  · obtain ⟨q, hq⟩ := h.tenure.known hn hi
    exact due_of_holds hq h.sound
  · obtain ⟨q, hq, -⟩ := hd.held h.sound
    rw [(h.tenure.leased hq).shows.named]
    nofun
  · obtain ⟨q, hq, hsize⟩ := hd.held h.sound
    have hl := h.tenure.leased hq
    exact ⟨_, Shm.attach_of_shows hl.shows hl.mappable, hsize⟩
  · by_contra hi
    obtain ⟨q, hq⟩ := h.tenure.known hn hi
    rcases hp with hp | hp <;> rw [hp] at hq <;> exact hq
  · obtain ⟨shm, phase⟩ := L
    cases phase with
    | serving ids a t fills =>
      obtain ⟨q, hq⟩ := Option.ne_none_iff_exists'.mp hlive
      exact Serving.live (h.sound : Serving config (made events) ids a t fills) id q hq
    | _ => exact hlive.elim

/-- A step that yields nothing adds no name, but for those of batches that count from then on. -/
theorem Kept.adds (h : Kept config events L) (hs : Step config L e L') (he : ¬e.Yields) (hn : OfManager config.name n)
    (hi : L'.shm.names.get? n ≠ none) : L.shm.names.get? n ≠ none ∨
      ∃ i, L.phase.batchCount ≤ i ∧ i < L'.phase.batchCount ∧ n = staticRegionName config.name i := by
  obtain ⟨size, hd⟩ := ((h.step hs).exact.names n hn).mp hi
  have hdue : ∀ {size}, Due config (made events) L.phase n size → L.shm.names.get? n ≠ none := fun hd =>
    (h.exact.names n hn).mpr ⟨_, hd⟩
  cases hs with
  | refused => cases hd
  | created => exact absurd trivial he
  | dropped => cases hd
  | outside =>
    rw [made_quiet rfl] at hd
    exact Or.inl (hdue hd)
  | @turn ids shm a t fills e ids' shm' a' t' fills' hm own =>
    have hnone : e.mapped? = none := Decidable.not_not.mp he
    rw [made_quiet (e := .turn e) hnone] at hd
    cases hd with
    | @batch _ _ _ _ i hi' =>
      by_cases hlt : i < a.batches.length
      · exact Or.inl (hdue (.batch hlt))
      · exact Or.inr ⟨i, Nat.le_of_not_lt hlt, hi', rfl⟩
    | exchange hmode => exact Or.inl (hdue (.exchange hmode))
    | segment hmem hlive =>
      have hserving : Serving config (made events) _ _ _ _ := h.sound
      obtain rfl := hserving.config_eq
      obtain ⟨hturned, -⟩ := hserving.turn h.tenure hm own
      obtain ⟨q, hq⟩ := Option.ne_none_iff_exists'.mp hlive
      rcases hturned.segment hq with hq | ⟨s, hs, -⟩
      · exact Or.inl (hdue (.segment hmem (by rw [show a.ephemeral.region? _ = some q from hq]; nofun)))
      · rw [hnone] at hs
        cases hs

/-- A segment that has lost its region gets none again. -/
theorem Kept.dead (h : Kept config events L) (hs : Step config L e L') (hmem : s ∈ made events)
    (hdead : ¬L.phase.Live s.id) : ¬L'.phase.Live s.id := by
  cases hs with
  | refused => exact hdead
  | created =>
    rw [show made events = [] from h.sound] at hmem
    cases hmem
  | dropped => exact id
  | outside => exact hdead
  | turn hm own =>
    have hserving : Serving config (made events) _ _ _ _ := h.sound
    obtain rfl := hserving.config_eq
    obtain ⟨hturned, -⟩ := hserving.turn h.tenure hm own
    intro hlive
    obtain ⟨q, hq⟩ := Option.ne_none_iff_exists'.mp hlive
    rcases hturned.segment hq with hq | ⟨s', hs', hid, -⟩
    · exact hdead (by rw [Phase.Live, show _ = some q from hq]; nofun)
    · have hge := (hturned.fresh s' hs').1
      have hlt := hserving.drawn s hmem
      rw [hid] at hge
      exact absurd hlt (Nat.not_lt_of_le hge)

/-- Neither can the name of the segment be attached, nor can its descriptor be registered by a
consumer that has no mapping under the name. -/
def Unavailable (s : Segment) (shm : Shm) : Prop :=
  ∃ n, s.descriptor.regionName? = some n ∧ shm.attach n = .error (.regionUnavailable n .noSuchName) ∧
    ∀ c : Consumer, c.regions.get? n = none → c.register s.descriptor shm =
      (.error (if c.isRegistered s.id then .alreadyExists s.id else .regionUnavailable n .noSuchName), c)

theorem Kept.unavailable (h : Kept config events L) (hmem : s ∈ made events) (hdead : ¬L.phase.Live s.id) :
    Unavailable s L.shm := by
  obtain ⟨hkind, hmanager, hempty, hpositive, hvalid⟩ := h.named s hmem
  have hnone : L.shm.names.get? (ephemeralRegionName config.name s.id) = none := by
    by_contra hi
    obtain ⟨q, hq⟩ := h.tenure.known (Or.inr (Or.inl ⟨_, rfl⟩)) hi
    exact hdead (live_of_holds hq h.sound)
  have hname : s.descriptor.regionName? = some (ephemeralRegionName config.name s.id) := by
    simp only [Descriptor.regionName?, Segment.descriptor, hkind, hmanager, Kind.regionName?]
  have hattach : L.shm.attach (ephemeralRegionName config.name s.id) =
      .error (.regionUnavailable (ephemeralRegionName config.name s.id) .noSuchName) := by
    simp only [Shm.attach, hvalid, hnone, Bool.not_true, Bool.false_eq_true, if_false]
  refine ⟨_, hname, hattach, fun c hc => ?_⟩
  have hnamed : s.descriptor.manager.isEmpty = false := by
    rw [show s.descriptor.manager = config.name from hmanager]
    exact hempty
  have ht : s.descriptor.tier ≠ .cache := by
    rw [show s.descriptor.tier = .ephemeral from congrArg Kind.tier hkind]
    decide
  exact Consumer.register_unmapped (Nat.ne_of_gt hpositive) hnamed ht hname hc hattach

end

/-- **The names of an allocator.** Others leave its names alone and keep none of its regions. Then
at every point of a run, from the attempts to make it until after it was dropped:

* The names that start as its own do are those that are due and no others: one for each batch, one
  for the exchanges if there are any, and one for each live segment with a region to itself.
  What is under them can be attached, with the size that is due. Nothing is due before the
  allocator is made, nor after it is dropped.
* A step that yields nothing, as all that fail, leaves no other names than there were, but for
  those of batches that were added and stay.
* A segment that lost its region is never to be had again. -/
theorem region_names_exact {shm : Shm} (hissued : ∀ c ∈ shm.shared, c < shm.claims)
    (hfree : ∀ n, OfManager config.name n → shm.names.get? n = none)
    (hrun : Run (Step config) ⟨shm, .before⟩ events L) :
    Exact config (made events) L ∧
      (∀ e L', Step config L e L' → ¬e.Yields → ∀ n, OfManager config.name n → L'.shm.names.get? n ≠ none →
        L.shm.names.get? n ≠ none ∨
          ∃ i, L.phase.batchCount ≤ i ∧ i < L'.phase.batchCount ∧ n = staticRegionName config.name i) ∧
      ∀ s ∈ made events, ¬L.phase.Live s.id → ∀ later L', Run (Step config) L later L' →
        Unavailable s L'.shm := by
  have hstart : Kept config [] ⟨shm, .before⟩ :=
    ⟨⟨hissued, False.elim, False.elim, fun hn hi => absurd (hfree _ hn) hi⟩, rfl, nofun⟩
  have h := hrun.invariant (P := Kept config) hstart Kept.step
  refine ⟨h.exact, fun e L' hs he n => h.adds hs he, fun s hmem hdead later L' hlater => ?_⟩
  have hmade : ∀ later, s ∈ made (events ++ later) := fun later => by
    unfold made
    rw [List.filterMap_append]
    exact List.mem_append_left _ hmem
  obtain ⟨h', hdead'⟩ := hlater.invariant
    (P := fun later L' => Kept config (events ++ later) L' ∧ ¬L'.phase.Live s.id)
    ⟨by rwa [List.append_nil], hdead⟩
    fun ⟨h, hdead⟩ hs => ⟨by rw [← List.append_assoc]; exact h.step hs, h.dead hs (hmade _) hdead⟩
  exact h'.unavailable (hmade later) hdead'

/-! ## A segment that is freed -/

/-- The allocator once a hundred bytes were allocated, in a region of their own. -/
def sampleServing : System := System.after (.start System.sampleAllocator System.sampleMemory) (.allocate 100)

def sampleSegment : Segment := { id := 0, size := 100, manager := "m", kind := .ephemeral }

theorem region_names_of_freed : ∃ events L, Run (Step System.sampleConfig) ⟨.empty, .before⟩ events L ∧
    made events = [sampleSegment] ∧ Exact System.sampleConfig [sampleSegment] L ∧
    Unavailable sampleSegment L.shm := by
  have hgranted : (Request.allocate 100).apply System.sampleAllocator System.sampleMemory =
      (.ok sampleSegment, sampleServing.allocator, sampleServing.shm) := Prod.ext (by decide +kernel) rfl
  obtain ⟨a, shm, hfreed, hnone⟩ : ∃ a shm, sampleServing.allocator.release 0 none sampleServing.shm = .ok (a, shm) ∧
      a.ephemeral.region? 0 = none := by
    have hok : ((sampleServing.allocator.release 0 none sampleServing.shm).toOption.map
        fun freed => (freed.1.ephemeral.region? 0).isNone) = some true := by decide +kernel
    cases hr : sampleServing.allocator.release 0 none sampleServing.shm with
    | error e =>
      rw [hr] at hok
      cases hok
    | ok freed =>
      rw [hr] at hok
      exact ⟨freed.1, freed.2, rfl, Option.isNone_iff_eq_none.mp (Option.some.inj hok)⟩
  have hrun : Run (Step System.sampleConfig) ⟨.empty, .before⟩ _ ⟨shm, .serving a.ids a .empty []⟩ :=
    .next (.next (.one (.created System.sample_create)) (.turn (.allocator (.granted hgranted)) ⟨nofun, nofun⟩))
      (.turn (.allocator (.released hfreed)) ⟨nofun, nofun⟩)
  obtain ⟨hexact, -, hdead⟩ := region_names_exact (fun _ hc => absurd hc List.not_mem_nil) (fun _ _ => rfl) hrun
  exact ⟨_, _, hrun, rfl, hexact,
    hdead sampleSegment (List.mem_singleton_self _) (fun hlive => hlive hnone) _ _ .start⟩

end Life
end TierAlloc
