import TierAlloc.Proofs.Allocator.Balance
import TierAlloc.Proofs.Allocator.System
import TierAlloc.Proofs.Exchange.Awaited

/-!
# The accounts of an allocator

In every state that a system reaches the table of segments and the tiers agree, whatever
the operations were, in which order they came and which of them failed, and whatever
peers did at the exchange region. Beside the balance of the ledger this rests on the
ids: none is in use that was not drawn, and none that a handoff still waits for.

**Results.**
* `Accounted`: the invariant.
* `Accounted.step`: every step of a system keeps it.
* `accounts_agree`: what it says of the table, the chunks, the cache and the regions.
-/
namespace TierAlloc

open Function (update)

/-- The ledger is balanced, and no segment has an id that is still to be drawn or awaited. -/
structure Accounted (a : Allocator) (t : Traffic) : Prop where
  balanced : a.ledger.Balanced
  unissued : a.Unissued
  fresh : t.Fresh a.ids
  awaited : ∀ id ∈ t.awaited, a.ledger.segments id = none

namespace Accounted

variable {a a' : Allocator} {t t' : Traffic} {shm shm' : Shm} {s : Segment} {l : Ledger} {id : Nat}

theorem own (h : Accounted a t) : ∀ s, a.ledger.segments id = some s → s.id = id :=
  fun _ => h.balanced.own

theorem sound (h : Accounted a t) : SoundBatches a.batches := h.balanced.occupied.sound

/-- Nothing is in a tier under an id that no segment has. -/
theorem regions_none (h : Accounted a t) (hid : a.ledger.segments id = none) :
    a.ledger.regions id = none := by
  have := h.balanced.mapped id
  simpa [sizeIn, hid] using this

theorem contents_none (h : Accounted a t) (hid : a.ledger.segments id = none) :
    a.ledger.contents id = none := by
  have := h.balanced.cached id
  simpa [sizeIn, hid] using this

/-- Later states, if no segment comes under an id that is not in use. -/
theorem becomes (h : Accounted a t) (hb : a.Becomes l a') (hl : l.Balanced)
    (hkeep : ∀ id, a.ledger.segments id = none → l.segments id = none) : Accounted a' t where
  balanced := by
    rw [hb.ledger]
    exact hl
  unissued id hid := by
    rw [hb.ledger]
    exact hkeep id (h.unissued id (Nat.le_trans hb.ids hid))
  fresh := h.fresh.draw hb.ids
  awaited id hid := by
    rw [hb.ledger]
    exact hkeep id (h.awaited id hid)

theorem idle (h : Accounted a t) (hb : a.Becomes a.ledger a') : Accounted a' t :=
  h.becomes hb h.balanced fun _ hid => hid

/-- A segment comes under an id that was drawn and that no handoff waits for. -/
theorem insert (h : Accounted a t) (hb : a.Becomes l a') (hl : l.Balanced) (hlt : s.id < a'.ids.issued)
    (hnot : s.id ∉ t.awaited) (hsegs : l.segments = update a.ledger.segments s.id (some s)) :
    Accounted a' t where
  balanced := by
    rw [hb.ledger]
    exact hl
  unissued id hid := by
    rw [hb.ledger, hsegs, Function.update_of_ne (by omega)]
    exact h.unissued id (Nat.le_trans hb.ids hid)
  fresh := h.fresh.draw hb.ids
  awaited id hid := by
    rw [hb.ledger, hsegs, Function.update_of_ne]
    · exact h.awaited id hid
    · rintro rfl
      exact hnot hid

theorem not_awaited (h : Accounted a t) (hid : a.ids.issued ≤ id) : id ∉ t.awaited := fun hm => by
  have := h.fresh.lt id hm
  omega

/-- The traffic may change as long as no id is awaited that was not. -/
theorem traffic (h : Accounted a t) (hf : t'.Fresh a.ids) (hsub : ∀ id ∈ t'.awaited, id ∈ t.awaited) :
    Accounted a t' := ⟨h.balanced, h.unissued, hf, fun id hid => h.awaited id (hsub id hid)⟩

/-! ## Operations -/

theorem grown (h : Accounted a t) (hg : a.Grown shm a' shm') : Accounted a' t := by
  cases hg with
  | refused hb => exact h.idle hb
  | added hmade hb =>
    obtain ⟨hid, -, hsound, hfree, -⟩ := Batch.create_sound hmade
    exact h.becomes hb (h.balanced.grown hid hsound hfree) fun _ hid => hid

theorem stored (h : Accounted a t) {bytes : Bytes} (hs : a.Stored shm s bytes a' shm')
    (hnone : a.ledger.segments s.id = none) (hnot : s.id ∉ t.awaited) : Accounted a' t := by
  have ht : s.tier = .cache := Segment.tier_of_cache hs.kind
  exact h.insert hs.after (h.balanced.stored ht hs.size (by simp [hnone])) hs.drawn hnot rfl

theorem granted (h : Accounted a t) {content : Bytes} (hg : a.Granted shm content s a' shm') :
    Accounted a' t := by
  cases hg with
  | stored hfresh hs => exact h.stored hs (h.unissued _ hfresh) (h.not_awaited hfresh)
  | took hgrown htook =>
    have h₁ := h.grown hgrown
    have hnone := h₁.unissued _ htook.fresh
    exact h₁.insert htook.after (h₁.balanced.took htook.batch htook.served hnone) htook.drawn
      (h₁.not_awaited htook.fresh) rfl
  | mapped hm =>
    have ht : s.tier = .ephemeral := Segment.tier_of_ephemeral hm.kind
    have hle := Nat.le_of_eq hm.fresh.symm
    exact h.insert hm.after (h.balanced.mapped_new ht hm.made.size_eq (h.unissued _ hle)) hm.drawn
      (h.not_awaited hle) rfl

theorem refused (h : Accounted a t) (hr : a.Refused shm a' shm') : Accounted a' t := by
  cases hr with
  | grown hg => exact h.grown hg
  | unnamed hb => exact h.idle hb

theorem freed (h : Accounted a t) (hs : a.ledger.segments s.id = some s)
    (hf : a.Freed shm s a' shm') : Accounted a' t := by
  have hkeep : ∀ id, a.ledger.segments id = none → update a.ledger.segments s.id none id = none := by
    intro id hid
    rw [Function.update_apply, hid, ite_self]
  cases hf with
  | chunks hkind hb hp hfree hafter =>
    exact h.becomes hafter (h.balanced.gave hs hb hp hkind hfree) hkeep
  | region hkind hr hafter =>
    have ht : s.tier = .ephemeral := Segment.tier_of_ephemeral hkind
    exact h.becomes hafter (h.balanced.unmapped hs ht) hkeep
  | entry ht hafter => exact h.becomes hafter (h.balanced.removed hs ht) hkeep

theorem replaced (h : Accounted a t) {r : Replacement} {answer : Except Error Unit}
    (hr : r.apply a = (answer, a')) : Accounted a' t := by
  cases answer with
  | error e => exact h.idle (Replacement.error hr)
  | ok u =>
    obtain ⟨s, hs, hid, ht, hb⟩ := Replacement.ok h.own hr
    rw [← hid] at hs hb
    have hold : ∀ t, a.ledger.segments s.id = some t → t.tier = .cache := by simp [hs, ht]
    refine h.becomes hb (h.balanced.stored (s := { s with size := r.content.length }) ht rfl hold) ?_
    intro k hk
    show update a.ledger.segments s.id _ k = none
    rw [Function.update_of_ne]
    · exact hk
    · rintro rfl
      rw [hs] at hk
      cases hk

theorem written (h : Accounted a t) {offset : Nat} {data : Bytes}
    (hw : a.Written shm s offset data a' shm') : Accounted a' t := by
  cases hw with
  | chunks => exact h
  | region => exact h
  | entry _ hstored _ hafter =>
    exact h.becomes hafter (h.balanced.edited hstored (Bytes.length_splice ..)) fun _ hid => hid

theorem awaited_inbound {c : Cycle} (hc : c ∈ t.cycles) (hd : c.pending.direction = .inbound) :
    c.pending.awaits = some c.pending.segment.id ∧ c.pending.segment.id ∈ t.awaited := by
  have hw : c.pending.awaits = some c.pending.segment.id := by rw [Pending.awaits, hd]
  exact ⟨hw, Traffic.mem_awaited.mpr (Or.inr ⟨c, hc, hw⟩)⟩

theorem await_absent (h : Accounted a t) {c : Cycle} (hc : c ∈ t.cycles)
    (hd : c.pending.direction = .inbound) : a.ledger.segments c.pending.segment.id = none :=
  h.awaited _ (awaited_inbound hc hd).2

theorem await_drawn (h : Accounted a t) {c : Cycle} (hc : c ∈ t.cycles)
    (hd : c.pending.direction = .inbound) : c.pending.segment.id < a.ids.issued :=
  h.fresh.lt _ (awaited_inbound hc hd).2

theorem await (h : Accounted a t) {pre post : List Cycle} {c : Cycle} {r : Except Error Segment}
    (ht : t.cycles = pre ++ c :: post) (ha : a.await? c.pending shm = some (r, a', shm')) :
    Accounted a' { t with cycles := pre ++ post } := by
  have hc : c ∈ t.cycles := by simp [ht]
  obtain ⟨hfresh, hover, hsub⟩ := h.fresh.finish ht
  have h' := h.traffic hfresh hsub
  cases r with
  | error e => exact h'.idle (Allocator.await_error (h.await_absent hc) ha).1
  | ok s =>
    obtain ⟨s₀, cache, -, ⟨-, hb⟩ | ⟨hd, hid, bytes, -, hstored⟩⟩ :=
      Allocator.await_ok (h.await_absent hc) (h.await_drawn hc) ha
    · exact h'.idle hb
    · have hnew := h.await_absent hc hd
      rw [← hid] at hnew
      refine h'.stored hstored hnew ?_
      rw [hid]
      exact hover _ (awaited_inbound hc hd).1

/-- A step leads to a later state of the allocator. -/
theorem becomes_step {allowed : Traffic → Descriptor → Prop} {s s' : System} {e : System.Event}
    (h : Accounted s.allocator s.traffic) (hs : System.Step allowed s e s') :
    ∃ l, s.allocator.Becomes l s'.allocator := by
  have hgrown : ∀ {a a' : Allocator} {shm shm'}, a.Grown shm a' shm' → ∃ l, a.Becomes l a' := by
    intro a a' shm shm' hg
    cases hg with
    | refused hb => exact ⟨_, hb⟩
    | added _ hb => exact ⟨_, hb⟩
  cases hs with
  | granted hr =>
    cases (Request.granted h.sound h.unissued hr).2 with
    | stored _ hs => exact ⟨_, hs.after⟩
    | took hg ht =>
      obtain ⟨l, hb⟩ := hgrown hg
      exact ⟨_, hb.trans ht.after⟩
    | mapped hm => exact ⟨_, hm.after⟩
  | refused hr =>
    cases Request.refused h.sound h.unissued (h.regions_none (h.unissued _ (Nat.le_refl _))) hr with
    | grown hg => exact hgrown hg
    | unnamed hb => exact ⟨_, hb⟩
  | @replace r answer a hr =>
    cases answer with
    | error e => exact ⟨_, Replacement.error hr⟩
    | ok u =>
      obtain ⟨seg, -, -, -, hb⟩ := Replacement.ok h.own hr
      exact ⟨_, hb⟩
  | released hr =>
    obtain ⟨seg, -, -, -, hf⟩ := Allocator.release_ok h.own hr
    cases hf with
    | chunks _ _ _ _ hb => exact ⟨_, hb⟩
    | region _ _ hb => exact ⟨_, hb⟩
    | entry _ hb => exact ⟨_, hb⟩
  | written hw =>
    obtain ⟨seg, -, -, -, hw⟩ := Allocator.write_ok h.sound h.own hw
    cases hw with
    | chunks => exact ⟨_, .refl _⟩
    | region => exact ⟨_, .refl _⟩
    | entry _ _ _ hb => exact ⟨_, hb⟩
  | askMalloc ho => exact ⟨_, Allocator.offerMalloc_ids ho⟩
  | denyMalloc ho => exact ⟨_, Allocator.offerMalloc_ids ho⟩
  | @await pre c post r a shm ht ha =>
    have hc : c ∈ s.traffic.cycles := by simp [ht]
    cases r with
    | error e => exact ⟨_, (Allocator.await_error (h.await_absent hc) ha).1⟩
    | ok seg =>
      obtain ⟨_, _, -, ⟨-, hb⟩ | ⟨-, -, _, -, hstored⟩⟩ :=
        Allocator.await_ok (h.await_absent hc) (h.await_drawn hc) ha
      · exact ⟨_, hb⟩
      · exact ⟨_, hstored.after⟩
  | _ => exact ⟨_, .refl _⟩

/-- Every step of a system keeps the accounts. -/
theorem step {allowed : Traffic → Descriptor → Prop} {s s' : System} {e : System.Event}
    (h : Accounted s.allocator s.traffic) (hs : System.Step allowed s e s') :
    Accounted s'.allocator s'.traffic := by
  cases hs with
  | granted hr => exact h.granted (Request.granted h.sound h.unissued hr).2
  | refused hr =>
    exact h.refused (Request.refused h.sound h.unissued
      (h.regions_none (h.unissued _ (Nat.le_refl _))) hr)
  | replace hr => exact h.replaced hr
  | released hr =>
    obtain ⟨seg, hlive, rfl, -, hf⟩ := Allocator.release_ok h.own hr
    exact h.freed hlive hf
  | unreleased => exact h
  | written hw =>
    obtain ⟨seg, -, -, -, hw⟩ := Allocator.write_ok h.sound h.own hw
    exact h.written hw
  | unwritten => exact h
  | read => exact h
  | askMalloc ho =>
    obtain ⟨rfl, x, -, -, rfl⟩ := Allocator.offerMalloc_ok ho
    have h₁ := h.idle (Allocator.becomes_draw (Nat.le_succ _))
    refine ⟨h₁.balanced, h₁.unissued, h.fresh.ask rfl, fun id hid => ?_⟩
    rcases Traffic.mem_awaited.mp hid with ⟨k, hk, hw⟩ | ⟨k, hk, hw⟩
    · rcases List.mem_cons.mp hk with rfl | hk
      · obtain rfl := Option.some.inj hw
        exact h.unissued _ (Nat.le_refl _)
      · exact h.awaited id (Traffic.mem_awaited.mpr (Or.inl ⟨k, hk, hw⟩))
    · exact h.awaited id (Traffic.mem_awaited.mpr (Or.inr ⟨k, hk, hw⟩))
  | denyMalloc ho => exact h.idle (Allocator.offerMalloc_ids ho)
  | askRetrieve hst ho =>
    obtain ⟨s, x, payload, -, -, -, -, -, rfl⟩ := Allocator.offerRetrieve_ok ho
    refine h.traffic (h.fresh.offer rfl) fun id hid => ?_
    simpa [Traffic.awaited, Offer.awaits] using hid
  | denyRetrieve => exact h
  | exchange he =>
    obtain ⟨hf, hsub⟩ := h.fresh.step he
    exact h.traffic hf hsub
  | await ht ha => exact h.await ht ha
  | drop ht =>
    obtain ⟨hf, -, hsub⟩ := h.fresh.finish ht
    exact h.traffic hf hsub
  | outside => exact h

end Accounted

/-! ## A new allocator -/

/-- A configuration that passes has a name. -/
theorem Config.name_of_check {c : Config} (h : c.check = .ok ()) : c.name.isEmpty = false := by
  unfold check at h
  split at h
  · cases h
  · rename_i hname
    exact (Bool.or_eq_false_iff.mp (Bool.not_eq_true _ ▸ hname)).1

namespace Allocator

variable {config : Config} {a : Allocator} {shm₀ shm : Shm}

/-- A new allocator has one batch and nothing else. -/
theorem create_ok (h : create config shm₀ = (.ok a, shm)) : ∃ first shm₁ cache,
    config.check = .ok () ∧ Batch.create config.name 0 config.geometry shm₀ = (.ok first, shm₁) ∧
      Cache.create config.name config.cacheMode config.cacheCapacity shm₁ = (.ok cache, shm) ∧
      a = { config, ids := {}, batches := [first], ephemeral := .ofManager config.name, cache,
            segments := .empty } := by
  unfold create at h
  split at h
  · cases h
  rename_i hcheck
  split at h
  · cases h
  rename_i first shm₁ hb
  split at h
  · cases h
  rename_i cache shm₂ hc
  simp only [Prod.mk.injEq, Except.ok.injEq] at h
  obtain ⟨rfl, rfl⟩ := h
  exact ⟨first, shm₁, cache, hcheck, hb, hc, rfl⟩

end Allocator

/-- A new cache has no entry. -/
theorem Cache.create_contents {manager : String} {mode : CacheMode} {capacity : Option Nat}
    {shm shm' : Shm} {c : Cache} (h : create manager mode capacity shm = (.ok c, shm')) (id : Nat) :
    c.contents? id = none := by
  unfold create at h
  split at h
  · rw [← Except.ok.inj (Prod.mk.inj h).1]
    rfl
  · split at h
    · cases h
    · rw [← Except.ok.inj (Prod.mk.inj h).1]
      rfl

theorem balanced_nil : Ledger.Balanced ⟨[], fun _ => none, fun _ => none, fun _ => none⟩ :=
  ⟨⟨fun _ _ h => by simp at h, nofun, by simp [poolAt], by simp [poolAt]⟩, nofun, fun _ => rfl, fun _ => rfl⟩

theorem accounted_create {config : Config} {a : Allocator} {shm₀ shm : Shm}
    (h : Allocator.create config shm₀ = (.ok a, shm)) : Accounted a .empty := by
  obtain ⟨first, shm₁, cache, -, hb, hc, rfl⟩ := Allocator.create_ok h
  obtain ⟨hid, -, hsound, hfree, -⟩ := Batch.create_sound hb
  refine ⟨?_, fun _ _ => rfl, .empty _, fun _ _ => rfl⟩
  have hcache : cache.contents? = fun _ => none := funext (Cache.create_contents hc)
  have h := balanced_nil.grown hid hsound hfree
  unfold Allocator.ledger
  rw [hcache]
  exact h

/-- The table of segments and the tiers agree. -/
structure Allocator.Agrees (a : Allocator) : Prop where
  /-- A static segment is in a batch and a bin that exist, from the start of a chunk on, and the
  chunks that its bytes need are chunks of that bin. -/
  placed : ∀ id s batch bin offset, a.get id = .ok s → s.kind = .static batch bin offset →
    ∃ b p, a.batch? batch = some b ∧ b.pool? bin = some p ∧ p.Fits offset s.size
  /-- A chunk is covered by one segment at most. -/
  apart : ∀ id id' s s' batch b p j, a.batch? batch = some b → p ∈ b.pools → a.get id = .ok s →
    a.get id' = .ok s' → s.Covers batch p j → s'.Covers batch p j → id = id'
  /-- A chunk is taken when a segment covers it. -/
  taken : ∀ batch b p j, a.batch? batch = some b → p ∈ b.pools →
    (j < p.chunkCount ∧ p.chunks.isFree j = false ↔ ∃ id s, a.get id = .ok s ∧ s.Covers batch p j)
  /-- The ids of the cache are those of the cache segments, and the sizes are theirs. -/
  cached : ∀ id size, a.cache.size? id = some size ↔ ∃ s, a.get id = .ok s ∧ s.tier = .cache ∧ s.size = size
  /-- The ids of the regions are those of the ephemeral segments, and the sizes are theirs. -/
  mapped : ∀ id size, (a.ephemeral.region? id).map Region.size = some size ↔
    ∃ s, a.get id = .ok s ∧ s.tier = .ephemeral ∧ s.size = size

theorem sizeIn_eq_some {segments : Nat → Option Segment} {tier : Tier} {id size : Nat} :
    sizeIn segments tier id = some size ↔ ∃ s, segments id = some s ∧ s.tier = tier ∧ s.size = size := by
  simp only [sizeIn, Option.bind_eq_some_iff, Option.ite_none_right_eq_some, Option.some.injEq]

theorem agrees_of_accounted {a : Allocator} {t : Traffic} (h : Accounted a t) : a.Agrees := by
  obtain ⟨hocc, hown, hcached, hmapped⟩ := h.balanced
  have hat : ∀ {batch b p}, a.batch? batch = some b → p ∈ b.pools →
      poolAt a.batches batch p.id = some p := fun hb hp =>
    (poolAt_eq_some hocc.sound).mpr ⟨_, hb, hp, rfl⟩
  constructor
  · intro id s batch bin offset hs hk
    obtain ⟨p, hp, hfits⟩ := hocc.placed (Allocator.get_eq_ok.mp hs) hk
    obtain ⟨b, hb, hp⟩ := Option.bind_eq_some_iff.mp hp
    exact ⟨b, p, hb, hp, hfits⟩
  · intro id id' s s' batch b p j hb hp hs hs' hc hc'
    exact hocc.apart (hat hb hp) ⟨s, Allocator.get_eq_ok.mp hs, hc⟩ ⟨s', Allocator.get_eq_ok.mp hs', hc'⟩
  · intro batch b p j hb hp
    simp only [Allocator.get_eq_ok]
    exact hocc.taken (hat hb hp) j
  · intro id size
    simp only [Allocator.get_eq_ok]
    rw [← sizeIn_eq_some]
    exact Eq.congr_left (hcached id)
  · intro id size
    simp only [Allocator.get_eq_ok]
    rw [← sizeIn_eq_some]
    exact Eq.congr_left (hmapped id)

/-- **Accounts.** In every state that a system reaches, by whatever operations in whatever
order, the table of segments agrees with the chunks that are taken, with the entries of the
cache and with the regions of the ephemeral tier. -/
theorem accounts_agree {config : Config} {a : Allocator} {shm₀ shm : Shm} {events : List System.Event}
    {s : System} (hc : Allocator.create config shm₀ = (.ok a, shm))
    (hrun : Run (System.Step fun _ _ => True) (System.start a shm) events s) : s.allocator.Agrees := by
  have h := hrun.invariant (P := fun _ s => Accounted s.allocator s.traffic) (accounted_create hc)
    fun h hs => h.step hs
  exact agrees_of_accounted h

/-! ## A segment in each tier

Bins of four chunks of eight bytes; up to four bytes go to the cache, from 64 on there is
a region. -/

namespace System

/-- The system after a request. -/
def after (s : System) (r : Request) : System :=
  let (_, a, shm) := r.apply s.allocator s.shm
  ⟨a, shm, s.traffic⟩

theorem step_after {allowed : Traffic → Descriptor → Prop} (s : System) (r : Request) :
    ∃ e, Step allowed s e (s.after r) ∧ e ≠ .outside := by
  cases hr : r.apply s.allocator s.shm with
  | mk answer rest =>
    obtain ⟨a, shm⟩ := rest
    have ht : s.after r = ⟨a, shm, s.traffic⟩ := by rw [after, hr]
    rw [ht]
    cases answer with
    | error e => exact ⟨_, .refused hr, by simp⟩
    | ok seg => exact ⟨_, .granted hr, by simp⟩

theorem run_after {allowed : Traffic → Descriptor → Prop} {s t : System} {events : List Event}
    (h : Run (Step allowed) s events t) (r : Request) : ∃ events, Run (Step allowed) s events (t.after r) := by
  obtain ⟨e, hs, -⟩ := step_after t r
  exact ⟨_, h.next hs⟩

theorem run_requests {allowed : Traffic → Descriptor → Prop} {s t : System} {events : List Event}
    (h : Run (Step allowed) s events t) (rs : List Request) :
    ∃ events, Run (Step allowed) s events (rs.foldl after t) := by
  induction rs generalizing t events with
  | nil => exact ⟨events, h⟩
  | cons r rest ih =>
    obtain ⟨events', h'⟩ := run_after h r
    exact ih h'

def sampleConfig : Config where
  name := "m"
  cacheThreshold := 4
  instantThreshold := 64
  geometry := ⟨[⟨8, 4⟩]⟩
  cacheMode := .inProcess
  cacheCapacity := none

def sampleBatch : Batch where
  id := 0
  manager := "m"
  pools := [⟨0, 8, 4, 0, .ofLength 4, 4⟩]
  region := ⟨"m#batch0#statbin", 0, 32, some 0⟩
  totalBytes := 32
  maxChunkSize := 8

def sampleAllocator : Allocator where
  config := sampleConfig
  ids := {}
  batches := [sampleBatch]
  ephemeral := .ofManager "m"
  cache := .inProcess "m" none
  segments := .empty

def sampleMemory : Shm := (Batch.create "m" 0 ⟨[⟨8, 4⟩]⟩ .empty).2

theorem sample_create : Allocator.create sampleConfig .empty = (.ok sampleAllocator, sampleMemory) := by
  have hcheck : sampleConfig.check = .ok () := by decide
  have hb : (Batch.create "m" 0 ⟨[⟨8, 4⟩]⟩ .empty).1 = .ok sampleBatch := by decide +kernel
  unfold Allocator.create
  rw [hcheck]
  have hpair : Batch.create sampleConfig.name 0 sampleConfig.geometry .empty =
      (.ok sampleBatch, sampleMemory) := Prod.ext hb rfl
  simp only [hpair]
  rfl

/-- The system once three bytes, ten and a hundred were allocated. -/
def sample : System :=
  [Request.allocate 3, .allocate 10, .allocate 100].foldl after (start sampleAllocator sampleMemory)

end System

theorem accounts_agree_of_three_tiers :
    (List.range 3).map (fun id => (System.sample.allocator.get id).toOption.map Segment.tier) =
      [some .cache, some .static, some .ephemeral] ∧ System.sample.allocator.Agrees := by
  obtain ⟨events, hrun⟩ := System.run_requests .start [.allocate 3, .allocate 10, .allocate 100]
  exact ⟨by decide +kernel, accounts_agree System.sample_create hrun⟩

end TierAlloc
