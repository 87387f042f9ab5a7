import TierAlloc.Proofs.Cache.Budget
import TierAlloc.Proofs.Cache.Integrity

/-!
# A cache that calls back

A `Working` channel is one whose owner may be in the middle of operations that call back:
each callback at work is a `Fill`, which holds the buffer that it fills until the
operation ends and the buffer becomes an entry or goes back. Anything may happen between
the two ends, operations of the callback included, which is how an entry can be gone by
the time that its replacement is ready. A callback that changes an entry in place is
`modify` from the start of the entry on, with as many bytes.

The stored bytes are followed by the events alone (`contentsAfter`), as those of a map:
what an operation that succeeds does to it is written in `Event.effect`, and one that
fails does nothing.

**Results.**
* `EntryOp.contents_of_ok`, `EntryOp.contents_of_error`, `EntryOp.budgeted`: whole operations.
* `Step.exact`: every step follows the map and keeps the budget.
* `budget_exact`: what that says of the heap, of the entries and of operations that fail.
-/
namespace TierAlloc

open Function (update)

/-! ## Whole operations -/

namespace EntryOp

/-- The operation is not one half of another. -/
def Whole : EntryOp → Prop
  | acquire _ | swap _ _ => False
  | _ => True

/-- What an operation answers: for a new entry its id. -/
def answer (c : Cache) (ids : Counter) : EntryOp → Except Error (Option Nat)
  | malloc size => (c.malloc ids size).1.map fun s => some s.id
  | store data => (c.store ids data).1.map fun s => some s.id
  | storeWith size content => (c.storeWith ids size content).1.map fun s => some s.id
  | set id data => (c.set id data).1.map fun _ => none
  | setWith id size content => (c.setWith id size content).1.map fun _ => none
  | acquire size => (c.heap.acquire size).1.map fun _ => none
  | swap id b => (c.swap id b).1.map fun _ => none
  | modify id offset data => (c.modify id offset data).map fun _ => none
  | free id => (c.free id).map fun _ => none
  | freeSegment s => (c.freeSegment s).map fun _ => none
  | clear => .ok none

/-- A map with an entry under a new id. -/
def entered (m : Nat → Option Bytes) (bytes : Bytes) : Option Nat → Nat → Option Bytes
  | some id => update m id (some bytes)
  | none => m

/-- What a whole operation that succeeds with the answer `new` makes of the stored bytes. -/
def effect (new : Option Nat) (m : Nat → Option Bytes) : EntryOp → Nat → Option Bytes
  | malloc size => entered m (.zeros size) new
  | store data => entered m data new
  | storeWith size content => entered m ((Bytes.zeros size).overlay content) new
  | set id data => update m id (some data)
  | setWith id size content => update m id (some ((Bytes.zeros size).overlay content))
  | modify id offset data => update m id ((m id).map fun bytes => bytes.splice offset data)
  | free id => update m id none
  | freeSegment s => update m s.id none
  | clear => fun _ => none
  | acquire _ | swap _ _ => m

variable {c : Cache} {ids : Counter} {op : EntryOp} {capacity : Option Nat} {held : Nat} {new : Option Nat}

theorem answered {α : Type} {x : Except Error α} {f : α → Option Nat} (h : x.map f = .ok new) :
    ∃ a, x = .ok a ∧ f a = new := by
  cases x with
  | error e => cases h
  | ok a => exact ⟨a, rfl, Except.ok.inj h⟩

theorem refused {α : Type} {x : Except Error α} {f : α → Option Nat} {e : Error}
    (h : x.map f = .error e) : x = .error e := by
  cases x with
  | error e' =>
    obtain rfl := Except.error.inj h
    rfl
  | ok a => cases h

/-- A new entry is under the id of its segment. -/
theorem contents_storeWith {size : Nat} {content : Bytes} {s : Segment}
    (h : (c.storeWith ids size content).1 = .ok s) :
    (c.storeWith ids size content).2.1.contents? =
      update c.contents? s.id (some ((Bytes.zeros size).overlay content)) := by
  rw [Cache.storeWith_eq] at h ⊢
  obtain ⟨-, -, rfl, hb⟩ := Cache.place_ok (Prod.ext h rfl)
  exact hb.contents

theorem contents_storeWith_refused {size : Nat} {content : Bytes} {e : Error}
    (h : (c.storeWith ids size content).1 = .error e) :
    (c.storeWith ids size content).2.1.contents? = c.contents? := by
  rw [Cache.storeWith_eq] at h ⊢
  exact (Cache.place_error (Prod.ext h rfl)).contents

/-- An operation that succeeds has its effect on the stored bytes. -/
theorem contents_of_ok (hw : op.Whole) (h : op.answer c ids = .ok new) :
    (op.apply c ids).1.contents? = op.effect new c.contents? := by
  cases op with
  | acquire => exact hw.elim
  | swap => exact hw.elim
  | malloc size =>
    obtain ⟨s, hs, rfl⟩ := answered h
    have hs : (c.storeWith ids size []).1 = .ok s := hs
    have := contents_storeWith hs
    rwa [Bytes.overlay_nil] at this
  | store data =>
    obtain ⟨s, hs, rfl⟩ := answered h
    rw [Cache.store_eq] at hs
    split at hs
    · cases hs
    · rename_i hd
      have := contents_storeWith hs
      rw [Bytes.overlay_eq_self (Bytes.length_zeros _).symm] at this
      simp only [apply, Cache.store_eq, if_neg hd, this, effect, entered]
  | storeWith size content =>
    obtain ⟨s, hs, rfl⟩ := answered h
    exact contents_storeWith hs
  | set id data =>
    obtain ⟨u, hu, -⟩ := answered h
    exact (Cache.set_ok (Prod.ext hu rfl)).2.2.contents
  | setWith id size content =>
    obtain ⟨u, hu, -⟩ := answered h
    exact (Cache.setWith_ok (Prod.ext hu rfl)).2.2.contents
  | modify id offset data =>
    obtain ⟨c', hc, -⟩ := answered h
    obtain ⟨bytes, hb, hbecomes⟩ := Cache.modify_ok hc
    simp only [apply, hc, Except.toOption, Option.getD_some, effect, hb, Option.map_some,
      hbecomes.contents]
  | free id =>
    obtain ⟨c', hc, -⟩ := answered h
    simp only [apply, hc, Except.toOption, Option.getD_some, effect, (Cache.free_ok hc).2.contents]
  | freeSegment s =>
    obtain ⟨c', hc, -⟩ := answered h
    simp only [apply, hc, Except.toOption, Option.getD_some, effect,
      (Cache.free_ok (Cache.freeSegment_ok hc).2).2.contents]
  | clear => exact c.clear_becomes.contents

/-- An operation that fails has none. -/
theorem contents_of_error {e : Error} (hw : op.Whole) (h : op.answer c ids = .error e) :
    (op.apply c ids).1.contents? = c.contents? := by
  cases op with
  | acquire => exact hw.elim
  | swap => exact hw.elim
  | malloc size =>
    have hs : (c.storeWith ids size []).1 = .error e := refused h
    exact contents_storeWith_refused hs
  | store data =>
    have hs := refused h
    rw [Cache.store_eq] at hs
    split at hs
    · rename_i hd
      simp only [apply, Cache.store_eq, if_pos hd]
    · rename_i hd
      simp only [apply, Cache.store_eq, if_neg hd, contents_storeWith_refused hs]
  | storeWith size content => exact contents_storeWith_refused (refused h)
  | set id data => exact (Cache.set_error (Prod.ext (refused h) rfl)).contents
  | setWith id size content => exact (Cache.setWith_error (Prod.ext (refused h) rfl)).contents
  | modify id offset data => simp only [apply, refused h, Except.toOption, Option.getD_none]
  | free id => simp only [apply, refused h, Except.toOption, Option.getD_none]
  | freeSegment s => simp only [apply, refused h, Except.toOption, Option.getD_none]
  | clear => cases h

/-- Either way the budget is kept. -/
theorem budgeted (hw : op.Whole) (h : c.Budgeted capacity held) :
    (op.apply c ids).1.Budgeted capacity held := by
  have hgetD : ∀ x : Except Error Cache, (∀ c', x = .ok c' → c'.Budgeted capacity held) →
      (x.toOption.getD c).Budgeted capacity held := by
    intro x hx
    cases x with
    | error e => exact h
    | ok c' => exact hx c' rfl
  cases op with
  | acquire => exact hw.elim
  | swap => exact hw.elim
  | malloc size => exact h.place ids.issued size []
  | store data =>
    show (c.store ids data).2.1.Budgeted capacity held
    rw [Cache.store_eq]
    split
    · exact h
    · exact h.place ids.issued data.length data
  | storeWith size content => exact h.place ids.issued size content
  | set id data => exact h.set id data
  | setWith id size content => exact h.setWith id size content
  | modify id offset data => exact hgetD _ fun c' hc => h.modify hc
  | free id => exact hgetD _ fun c' hc => h.free hc
  | freeSegment s => exact hgetD _ fun c' hc => h.free (Cache.freeSegment_ok hc).2
  | clear => exact h.clear

end EntryOp

/-! ## Callbacks at work -/

/-- What a callback fills a buffer for: a new entry, or one in place of another. -/
inductive Purpose where
  | store | replace
  deriving DecidableEq

/-- A callback at work, with the buffer that it fills and the id that this is for. -/
structure Fill where
  buffer : Buffer
  id : Nat
  purpose : Purpose

/-- What is in the buffer when the callback has written `content` into it. -/
def Fill.bytes (f : Fill) (content : Bytes) : Bytes := (Bytes.zeros f.buffer.size).overlay content

/-- The other half of the operation: the buffer is put in place. -/
def Fill.finish (f : Fill) (c : Cache) (content : Bytes) : Except Error Unit × Cache :=
  let b := { f.buffer with bytes := f.buffer.bytes.overlay content }
  match f.purpose with
  | .store => c.insert f.id b
  | .replace => c.swap f.id b

section
variable {c cache : Cache} {f : Fill} {content : Bytes}

/-- The end of a callback that succeeds leaves its buffer under its id. -/
theorem Fill.finish_ok (h : f.finish c content = (.ok (), cache)) :
    c.Becomes (update c.contents? f.id (some (f.buffer.bytes.overlay content))) cache := by
  unfold finish at h
  split at h
  · exact (Cache.insert_ok h).2
  · exact (Cache.swap_ok h).2

theorem Fill.finish_error {e : Error} (h : f.finish c content = (.error e, cache)) :
    c.Becomes c.contents? cache := by
  unfold finish at h
  split at h
  · exact (Cache.insert_error h).2
  · exact (Cache.swap_error h).2

end

/-- A channel, and the callbacks of its owner that are at work. -/
structure Working where
  channel : Channel
  fills : List Fill

namespace Working

inductive Event where
  | op (o : EntryOp) (answer : Except Error (Option Nat))
  | began (purpose : Purpose) (id size : Nat) (answer : Except Error Unit)
  | finished (f : Fill) (content : Bytes) (answer : Except Error Unit)
  | channel (e : Channel.Event)

/-- What the end of a handoff makes of the stored bytes: what was delivered is stored. -/
def handedOver (k : Cycle) (m : Nat → Option Bytes) : Except Error Segment → Nat → Option Bytes
  | .ok _ =>
    match k.transfer with
    | .inbound _ => update m k.pending.segment.id k.moved.head?
    | .outbound _ => m
  | .error _ => m

/-- What an event makes of the stored bytes. -/
def Event.effect (m : Nat → Option Bytes) : Event → Nat → Option Bytes
  | op o (.ok new) => o.effect new m
  | finished f content (.ok ()) => update m f.id (some (f.bytes content))
  | channel (.wait k r) | channel (.waitTimeout k r) => handedOver k m r
  | _ => m

/-- The stored bytes after these events. -/
def contentsAfter (events : List Event) : Nat → Option Bytes :=
  events.foldl Event.effect fun _ => none

/-- What the callbacks at work hold. -/
def held (fills : List Fill) : Nat := (fills.map fun f => sizeClass f.buffer.size).sum

/-- The steps of a working channel, whose peers present descriptors that are `allowed`. -/
inductive Step (manager : String) (allowed : Traffic → Descriptor → Prop) :
    Working → Event → Working → Prop
  | op {s} (o : EntryOp) (hw : o.Whole) :
      Step manager allowed s (.op o (o.answer s.channel.cache s.channel.ids))
        { s with channel.cache := (o.apply s.channel.cache s.channel.ids).1,
                 channel.ids := (o.apply s.channel.cache s.channel.ids).2 }
  | beganStore {s size b cache} (h : s.channel.cache.beginStore size = (.ok b, cache)) :
      Step manager allowed s (.began .store s.channel.ids.issued size (.ok ()))
        ⟨{ s.channel with cache, ids := s.channel.ids.draw.2 }, ⟨b, s.channel.ids.issued, .store⟩ :: s.fills⟩
  | refusedStore {s size e cache} (h : s.channel.cache.beginStore size = (.error e, cache)) :
      Step manager allowed s (.began .store s.channel.ids.issued size (.error e))
        { s with channel.cache := cache, channel.ids := s.channel.ids.draw.2 }
  | beganReplace {s id size b cache} (h : s.channel.cache.beginReplace id size = (.ok b, cache)) :
      Step manager allowed s (.began .replace id size (.ok ()))
        ⟨{ s.channel with cache }, ⟨b, id, .replace⟩ :: s.fills⟩
  | refusedReplace {s id size e cache} (h : s.channel.cache.beginReplace id size = (.error e, cache)) :
      Step manager allowed s (.began .replace id size (.error e)) { s with channel.cache := cache }
  | finished {s pre f post content answer cache} (hf : s.fills = pre ++ f :: post)
      (h : f.finish s.channel.cache content = (answer, cache)) :
      Step manager allowed s (.finished f content answer) ⟨{ s.channel with cache }, pre ++ post⟩
  | channel {s e c} (he : ∀ op, e ≠ .entry op) (h : Channel.Step manager allowed s.channel e c) :
      Step manager allowed s (.channel e) { s with channel := c }

/-! ## What handoffs make of it -/

/-- The handoffs of a channel are in order; without an exchange region there are none. -/
def Carries (manager : String) (c : Channel) : Prop :=
  (c.cache.exchange = none ∧ c.traffic.asked = [] ∧ c.traffic.cycles = []) ∨
    ∃ x, Channel.Proper manager x c

section
variable {manager : String} {capacity : Option Nat} {n : Nat} {c c' : Channel} {cache : Cache} {ids : Counter}

theorem Carries.fresh (h : Carries manager c) : c.traffic.Fresh c.ids := by
  rcases h with ⟨-, hasked, hcycles⟩ | ⟨x, h⟩
  · have hnone : c.traffic.awaited = [] := by rw [Traffic.awaited, hasked, hcycles]; rfl
    refine ⟨?_, ?_⟩
    · rw [hnone]
      exact List.nodup_nil
    · rw [hnone]
      exact fun _ hid => absurd hid List.not_mem_nil
  · exact h.2.fresh

/-- Work of the owner that makes no entry but under an id that it drew just now. -/
theorem Carries.kept (h : Carries manager c) (hk : c.cache.Kept c.ids cache ids) :
    Carries manager { c with cache, ids } := by
  rcases h with ⟨hx, hasked, hcycles⟩ | ⟨x, hm, h⟩
  · exact Or.inl ⟨hk.exchange.trans hx, hasked, hcycles⟩
  · exact Or.inr ⟨x, hk.manager.trans hm, h.kept hk⟩

/-- A new entry under an id that was drawn and that no handoff awaits. -/
theorem Carries.stored (h : Carries manager c) {id : Nat} {bytes : Bytes}
    (hb : c.cache.Becomes (update c.cache.contents? id (some bytes)) cache) (hlt : id < c.ids.issued)
    (hid : id ∉ c.traffic.awaited) : Carries manager { c with cache } := by
  rcases h with ⟨hx, hasked, hcycles⟩ | ⟨x, hm, h⟩
  · exact Or.inl ⟨hb.exchange.trans hx, hasked, hcycles⟩
  · refine Or.inr ⟨x, hb.manager.trans hm, h.owner hb.manager hb.exchange (Nat.le_refl _) ?_ ?_⟩
    · intro k hk
      have hk : c.ids.issued ≤ k := hk
      rw [hb.contents, Function.update_of_ne (by omega)]
      exact h.drawn k hk
    · intro k hk
      rw [hb.contents, Function.update_of_ne]
      · exact h.absent k hk
      · rintro rfl
        exact hid hk

theorem Carries.step {e : Channel.Event} (h : Carries manager c) (hids : c.ids.issued ≤ wordRange)
    (hs : Channel.Step manager Channel.Unedited c e c') : Carries manager c' := by
  rcases h with ⟨hx, hasked, hcycles⟩ | ⟨x, h⟩
  · have hnocycle : ∀ {pre k post}, c.traffic.cycles ≠ pre ++ k :: post := by
      intro pre k post
      rw [hcycles]
      simp
    refine Or.inl ?_
    cases hs with
    | entry op => exact ⟨(op.apply_kept c.cache c.ids).exchange.trans hx, hasked, hcycles⟩
    | askMalloc ho =>
      obtain ⟨y, hy, -⟩ := Cache.offerMalloc_ok ho
      rw [hx] at hy
      cases hy
    | denyMalloc => exact ⟨hx, hasked, hcycles⟩
    | askRetrieve _ ho =>
      obtain ⟨y, -, hy, -⟩ := Cache.offerRetrieve_ok ho
      rw [hx] at hy
      cases hy
    | denyRetrieve => exact ⟨hx, hasked, hcycles⟩
    | exchange he =>
      have hnoted : ∀ d payload, (c.traffic.note d payload).cycles = [] := by
        intro d payload
        rw [Traffic.note, hcycles, List.map_nil]
      cases he with
      | placed ht => simp [hasked] at ht
      | refused ht => simp [hasked] at ht
      | attach => exact ⟨hx, hasked, hcycles⟩
      | delivered => exact ⟨hx, hasked, hnoted _ _⟩
      | undelivered => exact ⟨hx, hasked, hcycles⟩
      | collected => exact ⟨hx, hasked, hnoted _ _⟩
      | uncollected => exact ⟨hx, hasked, hcycles⟩
    | wait ht => exact absurd ht hnocycle
    | waitTimeout ht => exact absurd ht hnocycle
    | drop ht => exact absurd ht hnocycle
    | draw => exact ⟨hx, hasked, hcycles⟩
    | beside => exact ⟨hx, hasked, hcycles⟩
  · exact Or.inr ⟨x, h.step hids hs⟩

/-- A wait that succeeds for bytes stores what was delivered; any other wait changes no entry.
Nothing is charged but the new entry. -/
theorem Carries.settled (h : Carries manager c) {pre post : List Cycle} {k : Cycle} {goal : Goal}
    {r : Except Error Segment} {shm : Shm} (ht : c.traffic.cycles = pre ++ k :: post)
    (hs : k.pending.settle? goal [] c.cache c.shm = some (r, cache, shm))
    (hb : c.cache.Budgeted capacity n) : cache.Budgeted capacity n ∧
      cache.contents? = handedOver k c.cache.contents? r := by
  rcases h with ⟨-, -, hcycles⟩ | ⟨x, -, h⟩
  · rw [hcycles] at ht
    simp at ht
  have hk : k ∈ c.traffic.cycles := by simp [ht]
  have hmem := Sound.pending_mem hk
  refine ⟨?_, ?_⟩
  · rcases (h.held.settle hmem hs).2 with ⟨hdone, htake⟩ | ⟨-, -, rfl⟩
    · refine Pending.take_budgeted hb (fun hd => ?_) htake
      have hcar := h.carried k hk
      rw [Pending.signal, hd] at hdone
      rw [h.held.exchange _ hmem] at hdone ⊢
      unfold Carried at hcar
      split at hcar
      · rcases hcar.moved with ⟨-, hsig⟩ | ⟨data, -, -, hle, hlen, -⟩
        · rw [hsig] at hdone
          cases hdone
        · have hfits := hcar.fits
          have hin := h.held.placed.area_le (h.held.area_lt _ hmem)
          rw [hlen]
          omega
      · exact absurd (hd.symm.trans hcar.direction) (by decide)
    · exact hb
  · have hr := (h.settle ht hs).2.2
    cases r with
    | error e => exact hr.1
    | ok seg =>
      rcases hr with ⟨stored, htr, -, -, rfl⟩ | ⟨size, data, htr, hm, -, -, hbec⟩
      · simp only [handedOver, htr]
      · simp only [handedOver, htr, hm, List.head?_cons, hbec.contents]

/-! ## The invariant -/

/-- The entries are those of the events, and the heap has handed out what they and the
callbacks at work count for. -/
structure Exact (manager : String) (capacity : Option Nat) (events : List Event) (s : Working) : Prop where
  carried : Carries manager s.channel
  /-- A callback for a new entry has an id that no handoff awaits. -/
  reserved : ∀ f ∈ s.fills, f.purpose = .store →
    f.id < s.channel.ids.issued ∧ f.id ∉ s.channel.traffic.awaited
  filling : ∀ f ∈ s.fills, f.buffer.Classed ∧ f.buffer.bytes = .zeros f.buffer.size
  budget : s.channel.cache.Budgeted capacity (held s.fills)
  contents : s.channel.cache.contents? = contentsAfter events

variable {events : List Event} {s s' : Working} {e : Event}

theorem contentsAfter_append (events : List Event) (e : Event) :
    contentsAfter (events ++ [e]) = e.effect (contentsAfter events) := by
  rw [contentsAfter, List.foldl_append]
  rfl

theorem held_cons (f : Fill) (fills : List Fill) :
    held (f :: fills) = held fills + sizeClass f.buffer.size := by
  rw [held, List.map_cons, List.sum_cons, Nat.add_comm]
  rfl

theorem held_split (pre post : List Fill) (f : Fill) :
    held (pre ++ f :: post) = held (pre ++ post) + sizeClass f.buffer.size := by
  simp only [held, List.map_append, List.map_cons, List.sum_append, List.sum_cons]
  omega

/-- The buffer that a callback leaves has its content, and counts for what it did. -/
theorem Exact.finish (h : Exact manager capacity events s) {pre post : List Fill} {f : Fill}
    {content : Bytes} {answer : Except Error Unit} (hf : s.fills = pre ++ f :: post)
    (hd : f.finish s.channel.cache content = (answer, cache)) :
    Carries manager { s.channel with cache } ∧ cache.Budgeted capacity (held (pre ++ post)) ∧
      cache.contents? = (Event.finished f content answer).effect s.channel.cache.contents? := by
  have hmem : f ∈ s.fills := by simp [hf]
  obtain ⟨hclassed, hzeros⟩ := h.filling f hmem
  have hlen : (f.buffer.bytes.overlay content).length = f.buffer.size := Bytes.length_overlay ..
  have hbytes : f.buffer.bytes.overlay content = f.bytes content := by rw [hzeros]; rfl
  have hheld := h.budget
  rw [hf, held_split] at hheld
  have hheld := hheld.filled hlen
  have hclassed := hclassed.filled hlen
  unfold Fill.finish at hd
  split at hd
  · rename_i hp
    obtain ⟨hlt, hid⟩ := h.reserved f hmem hp
    cases answer with
    | ok u =>
      obtain ⟨-, hb⟩ := Cache.insert_ok hd
      refine ⟨h.carried.stored hb hlt hid, hheld.insert hclassed hd, ?_⟩
      rw [hb.contents, hbytes]
      rfl
    | error e =>
      obtain ⟨-, hb⟩ := Cache.insert_error hd
      exact ⟨h.carried.kept (hb.kept fun _ hn => hn), hheld.insert hclassed hd, hb.contents⟩
  · have hkept := EntryOp.apply_kept s.channel.cache s.channel.ids
      (.swap f.id { f.buffer with bytes := f.buffer.bytes.overlay content })
    simp only [EntryOp.apply, hd] at hkept
    refine ⟨h.carried.kept hkept, hheld.swap hclassed hd, ?_⟩
    cases answer with
    | ok u =>
      rw [(Cache.swap_ok hd).2.contents, hbytes]
      rfl
    | error e => exact (Cache.swap_error hd).2.contents

/-- Taking a buffer, or failing to, changes no entry. -/
theorem begin_becomes {size : Nat} {answer : Except Error Buffer} {c c' : Cache}
    (h : (∃ id, c.beginReplace id size = (answer, c')) ∨ c.beginStore size = (answer, c')) :
    c.Becomes c.contents? c' := by
  rcases h with ⟨id, h⟩ | h
  · unfold Cache.beginReplace at h
    split at h
    · rw [← (Prod.mk.inj h).2]
      exact .refl c
    split at h
    · rw [← (Prod.mk.inj h).2]
      exact .refl c
    · rw [← (Prod.mk.inj h).2]
      exact (Cache.Becomes.refl c).heap _
  · unfold Cache.beginStore at h
    split at h
    · rw [← (Prod.mk.inj h).2]
      exact .refl c
    · rw [← (Prod.mk.inj h).2]
      exact (Cache.Becomes.refl c).heap _

/-- A buffer that a callback holds from now on. -/
theorem Exact.begin (h : Exact manager capacity events s) {size : Nat} {f : Fill} (ids : Counter)
    (hids : s.channel.ids.issued ≤ ids.issued)
    (hbec : s.channel.cache.Becomes s.channel.cache.contents? cache)
    (hb : Cache.Begun capacity (held s.fills) size (.ok f.buffer) cache) (he : ∀ m, e.effect m = m)
    (hf : f.purpose = .store → f.id < ids.issued ∧ f.id ∉ s.channel.traffic.awaited) :
    Exact manager capacity (events ++ [e]) ⟨{ s.channel with cache, ids }, f :: s.fills⟩ := by
  cases hb with
  | taken budget classed zeros =>
    have hsize : f.buffer.size = size := by rw [Buffer.size, zeros, Bytes.length_zeros]
    have hkept : s.channel.cache.Kept s.channel.ids cache ids :=
      (hbec.kept fun _ hn => hn).trans (.draw _ hids)
    refine ⟨h.carried.kept hkept, List.forall_mem_cons.mpr ⟨hf, fun g hg hp => ?_⟩,
      List.forall_mem_cons.mpr ⟨⟨classed, by rw [zeros, hsize]⟩, h.filling⟩, ?_, ?_⟩
    · obtain ⟨hlt, hid⟩ := h.reserved g hg hp
      exact ⟨Nat.lt_of_lt_of_le hlt hids, hid⟩
    · rw [held_cons]
      exact budget
    · rw [contentsAfter_append, he, ← h.contents, hbec.contents]

/-- What changes no entry and holds no other buffer, but may use up ids. -/
theorem Exact.idle (h : Exact manager capacity events s) (ids : Counter)
    (hids : s.channel.ids.issued ≤ ids.issued)
    (hbec : s.channel.cache.Becomes s.channel.cache.contents? cache)
    (hb : cache.Budgeted capacity (held s.fills)) (he : ∀ m, e.effect m = m) :
    Exact manager capacity (events ++ [e]) { s with channel.cache := cache, channel.ids := ids } := by
  refine ⟨h.carried.kept ((hbec.kept fun _ hn => hn).trans (.draw _ hids)), fun g hg hp => ?_,
    h.filling, hb, ?_⟩
  · obtain ⟨hlt, hid⟩ := h.reserved g hg hp
    exact ⟨Nat.lt_of_lt_of_le hlt hids, hid⟩
  · rw [contentsAfter_append, he, ← h.contents, hbec.contents]

theorem Exact.channel {e : Channel.Event} {c : Channel} (h : Exact manager capacity events s)
    (hids : s.channel.ids.issued ≤ wordRange) (he : ∀ o, e ≠ .entry o)
    (hs : Channel.Step manager Channel.Unedited s.channel e c) :
    Exact manager capacity (events ++ [.channel e]) { s with channel := c } := by
  have hcarried := h.carried.step hids hs
  have hreserved : ∀ f ∈ s.fills, f.purpose = .store → f.id < c.ids.issued ∧ f.id ∉ c.traffic.awaited := by
    intro f hf hp
    obtain ⟨hlt, hid⟩ := h.reserved f hf hp
    refine ⟨Nat.lt_of_lt_of_le hlt hs.ids_le, fun hm => ?_⟩
    rcases hs.awaited h.carried.fresh hm with hm | hge
    · exact hid hm
    · omega
  have hdone : c.cache.Budgeted capacity (held s.fills) →
      c.cache.contents? = (Event.channel e).effect s.channel.cache.contents? →
      Exact manager capacity (events ++ [.channel e]) { s with channel := c } := by
    intro hb hc
    refine ⟨hcarried, hreserved, h.filling, hb, ?_⟩
    rw [contentsAfter_append, ← h.contents]
    exact hc
  cases hs with
  | entry o => exact absurd rfl (he o)
  | wait ht hs =>
    obtain ⟨hb, hc⟩ := h.carried.settled ht hs h.budget
    exact hdone hb hc
  | waitTimeout ht hs =>
    obtain ⟨hb, hc⟩ := h.carried.settled ht hs h.budget
    exact hdone hb hc
  | _ => exact hdone h.budget rfl

/-- Every step follows the map and keeps the budget. -/
theorem Step.exact (hs : Step manager Channel.Unedited s e s') (hids : s.channel.ids.issued ≤ wordRange)
    (h : Exact manager capacity events s) : Exact manager capacity (events ++ [e]) s' := by
  cases hs with
  | op o hw =>
    have hkept := EntryOp.apply_kept s.channel.cache s.channel.ids o
    refine ⟨h.carried.kept hkept, fun f hf hp => ?_, h.filling, EntryOp.budgeted hw h.budget, ?_⟩
    · obtain ⟨hlt, hid⟩ := h.reserved f hf hp
      exact ⟨Nat.lt_of_lt_of_le hlt hkept.ids_le, hid⟩
    · rw [contentsAfter_append, ← h.contents]
      cases ha : o.answer s.channel.cache s.channel.ids with
      | ok new => exact EntryOp.contents_of_ok hw ha
      | error e => exact EntryOp.contents_of_error hw ha
  | beganStore hb =>
    refine h.begin _ (Nat.le_succ _) (begin_becomes (Or.inr hb)) (h.budget.beginStore hb) (fun _ => rfl)
      fun _ => ⟨Nat.lt_succ_self _, fun hm => Nat.lt_irrefl _ (h.carried.fresh.lt _ hm)⟩
  | refusedStore hb =>
    have hbudget := h.budget.beginStore hb
    cases hbudget with
    | refused hbudget =>
      exact h.idle _ (Nat.le_succ _) (begin_becomes (Or.inr hb)) hbudget fun _ => rfl
  | beganReplace hb =>
    exact h.begin s.channel.ids (Nat.le_refl _) (begin_becomes (Or.inl ⟨_, hb⟩)) (h.budget.beginReplace hb)
      (fun _ => rfl) nofun
  | refusedReplace hb =>
    have hbudget := h.budget.beginReplace hb
    cases hbudget with
    | refused hbudget =>
      exact h.idle s.channel.ids (Nat.le_refl _) (begin_becomes (Or.inl ⟨_, hb⟩)) hbudget fun _ => rfl
  | finished hf hd =>
    obtain ⟨hcarried, hbudget, hcontents⟩ := h.finish hf hd
    refine ⟨hcarried, fun g hg => h.reserved g (mem_of_split hf hg),
      fun g hg => h.filling g (mem_of_split hf hg), hbudget, ?_⟩
    rw [contentsAfter_append, ← h.contents]
    exact hcontents
  | channel he hs => exact h.channel hids he hs

theorem Step.ids_le {allowed : Traffic → Descriptor → Prop} (hs : Step manager allowed s e s') :
    s.channel.ids.issued ≤ s'.channel.ids.issued := by
  cases hs with
  | op o => exact (EntryOp.apply_kept ..).ids_le
  | beganStore => exact Nat.le_succ _
  | refusedStore => exact Nat.le_succ _
  | channel _ hs => exact hs.ids_le
  | _ => exact Nat.le_refl _

theorem exact_start {mode : CacheMode} {shm₀ shm : Shm} {c : Cache} (ids : Counter)
    (h : Cache.create manager mode capacity shm₀ = (.ok c, shm)) :
    Exact manager capacity [] ⟨.start c ids shm, []⟩ := by
  cases mode with
  | inProcess =>
    obtain ⟨hc, rfl⟩ := Prod.mk.inj h
    obtain rfl := Except.ok.inj hc
    exact ⟨Or.inl ⟨rfl, rfl, rfl⟩, nofun, nofun, Cache.budgeted_new _ _ none, rfl⟩
  | handoff areaCount areaSize =>
    refine ⟨Or.inr (Channel.proper_start ids h), nofun, nofun, ?_, ?_⟩
    · unfold Cache.create at h
      simp only at h
      split at h
      · cases h
      · rw [← Except.ok.inj (Prod.mk.inj h).1]
        exact Cache.budgeted_new ..
    · unfold Cache.create at h
      simp only at h
      split at h
      · cases h
      · rw [← Except.ok.inj (Prod.mk.inj h).1]
        rfl

/-! ## What it says -/

/-- The event is an operation that fails. -/
def Event.Failed : Event → Prop
  | op _ (.error _) | began _ _ _ (.error _) | finished _ _ (.error _)
  | channel (.askMalloc _ (.error _)) | channel (.askRetrieve _ (.error _))
  | channel (.exchange (.place _ (.error _)))
  | channel (.wait _ (.error _)) | channel (.waitTimeout _ (.error _)) => True
  | _ => False

/-- What the event takes off the heap's total when it fails: the buffer that a callback held. -/
def Event.givenBack : Event → Nat
  | finished f _ _ => sizeClass f.buffer.size
  | _ => 0

theorem Event.effect_of_failed (he : e.Failed) (m : Nat → Option Bytes) : e.effect m = m := by
  unfold Failed at he
  split at he
  case h_9 => exact he.elim
  all_goals rfl

theorem Step.held_of_failed {allowed : Traffic → Descriptor → Prop} (hs : Step manager allowed s e s')
    (he : e.Failed) : held s'.fills + e.givenBack = held s.fills := by
  cases hs with
  | finished hf => rw [hf, held_split]; rfl
  | beganStore => exact he.elim
  | beganReplace => exact he.elim
  | _ => rfl

/-- A cache shows what a map from ids to bytes would, and its heap counts these bytes and
those that callbacks hold, by class. -/
structure Refines (capacity : Option Nat) (events : List Event) (s : Working) : Prop where
  retrieve : ∀ id, s.channel.cache.retrieve id =
    match contentsAfter events id with
    | some bytes => .ok bytes
    | none => .error (.segmentNotFound id)
  size : ∀ id, s.channel.cache.size? id = (contentsAfter events id).map List.length
  total : s.channel.cache.heap.inUse = s.channel.cache.charge + held s.fills
  within : ∀ limit, capacity = some limit → s.channel.cache.heap.inUse ≤ limit

theorem Exact.refines (h : Exact manager capacity events s) : Refines capacity events s := by
  refine ⟨fun id => ?_, fun id => ?_, h.budget.total, fun limit hl => h.budget.le hl⟩
  · unfold Cache.retrieve
    cases hid : contentsAfter events id <;> simp only [h.contents, hid]
  · rw [Cache.size?, h.contents]

/-- **The budget is exact.** Whatever the owner and honest peers of a cache do, with whatever
capacity and with callbacks that may do anything themselves, the entries are those of a map
on which each operation that succeeds has its effect, and the heap has handed out the size
classes of the entries, and of the buffers of callbacks at work, and nothing else. A callback
takes the class of its buffer on when it begins. An operation that fails leaves the entries
and the total as they were, but for giving back the buffer of its callback. -/
theorem budget_exact {mode : CacheMode} {shm₀ shm : Shm} {c : Cache} {ids : Counter}
    (hc : Cache.create manager mode capacity shm₀ = (.ok c, shm))
    (hrun : Run (Step manager Channel.Unedited) ⟨.start c ids shm, []⟩ events s)
    (hids : s.channel.ids.issued ≤ wordRange) :
    Refines capacity events s ∧
      (s.fills = [] → s.channel.cache.heap.inUse = s.channel.cache.charge) ∧
      (∀ purpose id size s', Step manager Channel.Unedited s (.began purpose id size (.ok ())) s' →
        (∃ f, s'.fills = f :: s.fills ∧ f.buffer.size = size) ∧
          s'.channel.cache.contents? = s.channel.cache.contents? ∧
          s'.channel.cache.heap.inUse = s.channel.cache.heap.inUse + sizeClass size) ∧
      ∀ e s', Step manager Channel.Unedited s e s' → e.Failed →
        s'.channel.cache.contents? = s.channel.cache.contents? ∧
          s'.channel.cache.heap.inUse + e.givenBack = s.channel.cache.heap.inUse := by
  have h := hrun.invariant (P := fun events s => s.channel.ids.issued ≤ wordRange →
    Exact manager capacity events s) (fun _ => exact_start ids hc) fun h hs hle => by
      have hle := Nat.le_trans hs.ids_le hle
      exact hs.exact hle (h hle)
  have h := h hids
  refine ⟨h.refines, fun hf => ?_, fun purpose id size s' hs => ?_, fun e s' hs he => ?_⟩
  · rw [h.budget.total, hf]
    rfl
  · have hcontents := (hs.exact hids h).contents
    rw [contentsAfter_append] at hcontents
    have hcontents : s'.channel.cache.contents? = s.channel.cache.contents? :=
      hcontents.trans h.contents.symm
    have hfill : ∃ f, s'.fills = f :: s.fills ∧ f.buffer.size = size := by
      cases hs with
      | beganStore hb =>
        cases h.budget.beginStore hb with
        | taken _ _ zeros => exact ⟨_, rfl, by rw [Buffer.size, zeros, Bytes.length_zeros]⟩
      | beganReplace hb =>
        cases h.budget.beginReplace hb with
        | taken _ _ zeros => exact ⟨_, rfl, by rw [Buffer.size, zeros, Bytes.length_zeros]⟩
    refine ⟨hfill, hcontents, ?_⟩
    obtain ⟨f, hf, hsize⟩ := hfill
    rw [(hs.exact hids h).budget.total, hf, held_cons, hsize, h.budget.total,
      Cache.charge_congr hcontents, Nat.add_assoc]
  · have hcontents := (hs.exact hids h).contents
    rw [contentsAfter_append, Event.effect_of_failed he, ← h.contents] at hcontents
    have hheld := hs.held_of_failed he
    refine ⟨hcontents, ?_⟩
    rw [(hs.exact hids h).budget.total, h.budget.total, Cache.charge_congr hcontents, Nat.add_assoc, hheld]

/-! ## A replacement that there is no room for

A cache of 48 bytes; three of them are stored, and forty are too many to replace them by. -/

/-- The working channel after a whole operation. -/
def after (s : Working) (o : EntryOp) : Working :=
  { s with channel.cache := (o.apply s.channel.cache s.channel.ids).1,
           channel.ids := (o.apply s.channel.cache s.channel.ids).2 }

def sample : Working :=
  [EntryOp.store [1, 2, 3], .set 0 (.zeros 40)].foldl after
    ⟨.start (.inProcess "m" (some 48)) {} .empty, []⟩

theorem budget_exact_of_three_bytes :
    sample.channel.cache.retrieve 0 = .ok [1, 2, 3] ∧ sample.channel.cache.heap.inUse = 16 ∧
      ∃ events, Refines (some 48) events sample := by
  have hrun : Run (Step "m" Channel.Unedited) ⟨.start (.inProcess "m" (some 48)) {} .empty, []⟩ _ sample :=
    .next (.next .start (.op (.store [1, 2, 3]) trivial)) (.op (.set 0 (.zeros 40)) trivial)
  have hids : sample.channel.ids.issued ≤ wordRange := by decide +kernel
  have hc : Cache.create "m" .inProcess (some 48) .empty = (.ok (.inProcess "m" (some 48)), .empty) := rfl
  exact ⟨by decide +kernel, by decide +kernel, _, (budget_exact hc hrun hids).1⟩

end
end Working
end TierAlloc
