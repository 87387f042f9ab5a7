import Mathlib.Data.List.Nodup
import TierAlloc.Proofs.Exchange.Owner
import TierAlloc.Proofs.Exchange.Peers

/-!
# The traffic of an exchange region

`Traffic` is who is about at an exchange region: handoffs that were asked for and
have no area yet, handoffs that hold one (each with the payloads moved so far),
the peers that mapped the region, and the descriptors that were issued. Its steps
are whole operations: a handoff gets its area, a peer maps the region, delivers or
collects, each with any descriptor that `allowed` admits.

What the region's owner does to end a handoff is not here, since it also concerns
the owner's cache; `Held.finish` is what that does to the region.

**Results.**
* `Held`: the invariant of the control words.
* `Held.step`: every step keeps it.
* `Held.finish`: so does the end of a handoff.
* `Held.beside`: so does all that happens to other objects.
-/
namespace TierAlloc

/-- What is left of a list when one entry is taken out was in it. -/
theorem mem_of_split {α : Type} {l pre post : List α} {a b : α} (h : l = pre ++ a :: post)
    (hb : b ∈ pre ++ post) : b ∈ l := by
  rw [h, List.perm_middle.mem_iff]
  exact List.mem_cons_of_mem _ hb

/-- What is in a list is that entry or was left. -/
theorem mem_split {α : Type} {pre post : List α} {a b : α} (h : b ∈ pre ++ a :: post) :
    b = a ∨ b ∈ pre ++ post := List.mem_cons.mp (List.perm_middle.mem_iff.mp h)

/-- A handoff that was asked for. `transfer` is what the call was about: the number of
bytes that it asked for, or the bytes stored at that moment. -/
structure Asked where
  offer : Offer
  transfer : Transfer

/-- A handoff that holds an area, and the payloads that peers moved for it. -/
structure Cycle where
  pending : Pending
  transfer : Transfer
  moved : List Bytes

structure Traffic where
  asked : List Asked
  cycles : List Cycle
  peers : List Peer
  issued : List Descriptor

namespace Traffic

def empty : Traffic := ⟨[], [], [], []⟩

/-- The handoffs that hold an area. -/
def pendings (t : Traffic) : List Pending := t.cycles.map Cycle.pending

inductive Event where
  | place (a : Asked) (answer : Except Error Pending)
  | attach (p : Peer)
  | deliver (p : Peer) (d : Descriptor) (data : Bytes) (answer : Except Error Unit)
  | collect (p : Peer) (d : Descriptor) (answer : Except Error Bytes)

end Traffic

/-- Notes a payload that was moved under a descriptor, if the descriptor is about this
handoff: about its segment in its area. -/
def Cycle.note (c : Cycle) (d : Descriptor) (payload : Bytes) : Cycle :=
  if c.pending.segment.id = d.id ∧ c.pending.segment.kind = d.kind then
    { c with moved := c.moved ++ [payload] }
  else c

namespace Traffic

def note (t : Traffic) (d : Descriptor) (payload : Bytes) : Traffic :=
  { t with cycles := t.cycles.map fun c => c.note d payload }

/-- The steps of the traffic at the region of `manager`. -/
inductive Step (manager : String) (allowed : Traffic → Descriptor → Prop) :
    Shm × Traffic → Event → Shm × Traffic → Prop
  | placed {shm shm' t a pre post p} (ht : t.asked = pre ++ a :: post)
      (h : a.offer.place? shm = some (.ok p, shm')) :
      Step manager allowed (shm, t) (.place a (.ok p))
        (shm', { t with asked := pre ++ post, cycles := ⟨p, a.transfer, []⟩ :: t.cycles,
                        issued := p.descriptor :: t.issued })
  | refused {shm shm' t a pre post e} (ht : t.asked = pre ++ a :: post)
      (h : a.offer.place? shm = some (.error e, shm')) :
      Step manager allowed (shm, t) (.place a (.error e)) (shm', { t with asked := pre ++ post })
  | attach {shm t p} (h : Peer.attach manager shm = .ok p) :
      Step manager allowed (shm, t) (.attach p) (shm, { t with peers := p :: t.peers })
  | delivered {shm shm' t p d data} (hp : p ∈ t.peers) (hd : allowed t d)
      (h : p.deliver d data shm = (.ok (), shm')) :
      Step manager allowed (shm, t) (.deliver p d data (.ok ())) (shm', t.note d data)
  | undelivered {shm shm' t p d data e} (hp : p ∈ t.peers) (hd : allowed t d)
      (h : p.deliver d data shm = (.error e, shm')) :
      Step manager allowed (shm, t) (.deliver p d data (.error e)) (shm', t)
  | collected {shm shm' t p d data} (hp : p ∈ t.peers) (hd : allowed t d)
      (h : p.collect d shm = (.ok data, shm')) :
      Step manager allowed (shm, t) (.collect p d (.ok data)) (shm', t.note d data)
  | uncollected {shm shm' t p d e} (hp : p ∈ t.peers) (hd : allowed t d)
      (h : p.collect d shm = (.error e, shm')) :
      Step manager allowed (shm, t) (.collect p d (.error e)) (shm', t)

theorem pending_of_split {t : Traffic} {pre post : List Cycle} {c : Cycle}
    (h : t.cycles = pre ++ c :: post) : c.pending ∈ t.pendings := by
  rw [pendings, h]
  simp

theorem pendings_note (t : Traffic) (d : Descriptor) (payload : Bytes) :
    (t.note d payload).pendings = t.pendings := by
  simp only [pendings, note, List.map_map]
  apply List.map_congr_left
  intro c _
  simp only [Function.comp, Cycle.note]
  split <;> rfl

end Traffic

/-- What goes on beside object `i` under `name`: both stay. -/
structure Shm.Beside (name : String) (i : Nat) (s s' : Shm) : Prop where
  count : s.objects.size ≤ s'.objects.size
  object : Shm.Same i s s'
  named : s'.names.get? name = s.names.get? name

namespace Exchange

variable {x : Exchange} {shm shm' : Shm} {dir : Direction} {area : Nat}

theorem words_congr
    (h : ∀ offset length, shm'.bytes x.region offset length = shm.bytes x.region offset length) :
    x.words shm' = x.words shm := by
  funext area
  unfold words lock signal payloadLength segment Shm.word32 Shm.word64
  simp only [h]

theorem header_congr
    (h : ∀ offset length, shm'.bytes x.region offset length = shm.bytes x.region offset length) :
    x.header shm' = x.header shm := by
  unfold header Shm.word32 Shm.word64
  simp only [h]

/-- A peer has moved the area of a waiting handoff on to the end. -/
structure Served (x : Exchange) (dir : Direction) (shm shm' : Shm) (area : Nat) : Prop where
  lt : area < x.layout.areaCount
  waiting : x.signal shm area = dir.waiting
  done : x.signal shm' area = dir.done
  lock : x.lock shm' area = x.lock shm area
  segment : x.segment shm' area = x.segment shm area
  others : ∀ b, b < x.layout.areaCount → b ≠ area → x.words shm' b = x.words shm b
  header : x.header shm' = x.header shm
  count : shm'.objects.size = shm.objects.size
  names : shm'.names = shm.names
  sized : (shm'.object x.region.object).size = (shm.object x.region.object).size

end Exchange

namespace Peer

variable {p : Peer} {x : Exchange} {d : Descriptor} {data : Bytes} {shm shm' : Shm} {area : Nat}

/-- The peer maps the region of this exchange. -/
structure Serves (p : Peer) (x : Exchange) : Prop where
  layout : p.exchange.layout = x.layout
  object : p.exchange.region.object = x.region.object
  size : p.exchange.region.size = x.region.size

/-- The peer as it would be with the owner's own mapping. -/
def through (p : Peer) (x : Exchange) : Peer := ⟨p.manager, x⟩

@[simp] theorem exchange_through (p : Peer) (x : Exchange) : (p.through x).exchange = x := rfl

section
variable (h : p.Serves x)

include h

theorem Serves.signal_eq : p.exchange.signal = x.signal := by
  funext shm area
  unfold Exchange.signal Shm.word32 Shm.bytes
  rw [h.object]

theorem Serves.segment_eq : p.exchange.segment = x.segment := by
  funext shm area
  unfold Exchange.segment Shm.word64 Shm.bytes
  rw [h.object]

theorem Serves.payloadLength_eq : p.exchange.payloadLength = x.payloadLength := by
  funext shm area
  unfold Exchange.payloadLength Shm.word64 Shm.bytes
  rw [h.object]

theorem Serves.store_eq (offset : Nat) (data : Bytes) (shm : Shm) :
    shm.store p.exchange.region offset data = shm.store x.region offset data := by
  unfold Shm.store
  rw [h.object]

theorem Serves.setSignal_eq : p.exchange.setSignal = x.setSignal := by
  funext area n shm
  exact h.store_eq _ _ shm

theorem Serves.setPayloadLength_eq : p.exchange.setPayloadLength = x.setPayloadLength := by
  funext area n shm
  exact h.store_eq _ _ shm

theorem Serves.locate_eq : p.exchange.locate = x.locate := by
  funext d
  unfold Exchange.locate
  rw [h.layout]

theorem Serves.claim_eq (d : Descriptor) (dir : Direction) (shm : Shm) :
    p.claim d dir shm = (p.through x).claim d dir shm := by
  unfold claim through
  rw [h.signal_eq, h.segment_eq, h.setSignal_eq, h.locate_eq]

theorem Serves.deliver_eq (d : Descriptor) (data : Bytes) (shm : Shm) :
    p.deliver d data shm = (p.through x).deliver d data shm := by
  unfold deliver
  simp only [h.claim_eq, h.setSignal_eq, h.setPayloadLength_eq, h.layout, Shm.write_eq, h.size,
    h.store_eq, exchange_through]

theorem Serves.collect_eq (d : Descriptor) (shm : Shm) :
    p.collect d shm = (p.through x).collect d shm := by
  unfold collect
  simp only [h.claim_eq, h.setSignal_eq, h.payloadLength_eq, h.layout, Shm.read_eq, h.size,
    Shm.bytes, h.object, exchange_through]

end

theorem Delivered.served (h : p.Delivered d data shm shm' area) :
    p.exchange.Served .inbound shm shm' area where
  lt := h.claims.lt
  waiting := h.claims.signal
  done := Exchange.signal_of_words h.words
  lock := by rw [Exchange.lock_of_words h.words]
  segment := by rw [Exchange.segment_of_words h.words]
  others b hb hne := by
    refine Exchange.words_eq_of_patch h.patch b fun k hk hp => ?_
    rcases hp with hp | hp
    · exact Exchange.not_inControl_of_ne hne hk hp
    · have := Exchange.inControl_lt_dataStart hb hk
      have := Exchange.dataStart_le_areaOffset p.exchange.layout area
      omega
  header := by
    refine Exchange.header_eq_of_patch h.patch fun k hk hp => ?_
    rcases hp with hp | hp
    · exact Exchange.not_inControl_header (by omega) hp
    · have := Exchange.releases_lt_dataStart p.exchange.layout
      have := Exchange.dataStart_le_areaOffset p.exchange.layout area
      omega
  count := h.patch.count
  names := h.patch.names
  sized := h.patch.sizes _

theorem Collected.served (h : p.Collected d data shm shm' area) :
    p.exchange.Served .outbound shm shm' area where
  lt := h.claims.lt
  waiting := h.claims.signal
  done := Exchange.signal_of_words h.words
  lock := by rw [Exchange.lock_of_words h.words]
  segment := by rw [Exchange.segment_of_words h.words]
  others _ _ hne :=
    Exchange.words_eq_of_patch h.patch _ fun _ hk => Exchange.not_inControl_of_ne hne hk
  header := Exchange.header_eq_of_control h.patch
  count := h.patch.count
  names := h.patch.names
  sized := h.patch.sizes _

end Peer

/-- The control words of the region are those of the handoffs that hold an area. -/
structure Held (x : Exchange) (shm : Shm) (t : Traffic) : Prop where
  placed : x.Placed shm
  named : shm.names.get? x.region.name = some x.region.object
  peers : ∀ p ∈ t.peers, p.Serves x
  asked : ∀ a ∈ t.asked, a.offer.exchange = x ∧ a.offer.transfer.size ≤ x.layout.areaSize
  exchange : ∀ p ∈ t.pendings, p.exchange = x
  area_lt : ∀ p ∈ t.pendings, p.area < x.layout.areaCount
  apart : (t.pendings.map Pending.area).Nodup
  locked : ∀ p ∈ t.pendings, x.lock shm p.area = Exchange.locked
  segment : ∀ p ∈ t.pendings, x.segment shm p.area = p.segment.id % wordRange
  signal : ∀ p ∈ t.pendings,
    x.signal shm p.area = p.direction.waiting ∨ x.signal shm p.area = p.direction.done
  free : ∀ area, area < x.layout.areaCount → (∀ p ∈ t.pendings, p.area ≠ area) →
    x.words shm area = .free

namespace Held

variable {x : Exchange} {shm shm' : Shm} {t t' : Traffic}

theorem object_lt (h : Held x shm t) : x.region.object < shm.objects.size := h.placed.object_lt

/-- Two handoffs that hold one area are the same one. -/
theorem pending_unique (h : Held x shm t) {p q : Pending} (hp : p ∈ t.pendings)
    (hq : q ∈ t.pendings) (he : p.area = q.area) : p = q :=
  List.inj_on_of_nodup_map h.apart hp hq he

/-- Whoever is left when a handoff is taken out holds another area. -/
theorem area_ne (h : Held x shm t) {pre post : List Pending} {p : Pending}
    (hsplit : t.pendings = pre ++ p :: post) {q : Pending} (hq : q ∈ pre ++ post) :
    q.area ≠ p.area := by
  have hnodup := h.apart
  rw [hsplit, List.map_append, List.map_cons, List.nodup_middle, List.nodup_cons,
    ← List.map_append] at hnodup
  exact fun he => hnodup.1 (List.mem_map.mpr ⟨q, hq, he⟩)

/-- The invariant speaks of the region through its words alone. -/
theorem congr (h : Held x shm t) (hcount : shm.objects.size ≤ shm'.objects.size)
    (hsized : (shm'.object x.region.object).size = (shm.object x.region.object).size)
    (hnamed : shm'.names.get? x.region.name = shm.names.get? x.region.name)
    (hheader : x.header shm' = x.header shm)
    (hwords : ∀ area, area < x.layout.areaCount → x.words shm' area = x.words shm area) :
    Held x shm' t where
  placed := h.placed.congr hcount hsized hheader
  named := hnamed.trans h.named
  peers := h.peers
  asked := h.asked
  exchange := h.exchange
  area_lt := h.area_lt
  apart := h.apart
  locked p hp := (congrArg AreaWords.lock (hwords _ (h.area_lt p hp))).trans (h.locked p hp)
  segment p hp := (congrArg AreaWords.segment (hwords _ (h.area_lt p hp))).trans (h.segment p hp)
  signal p hp := by
    have := congrArg AreaWords.signal (hwords _ (h.area_lt p hp))
    simp only [Exchange.words] at this
    rw [this]
    exact h.signal p hp
  free area ha hp := (hwords area ha).trans (h.free area ha hp)

/-- What happens to other objects and under other names does not matter. -/
theorem beside (h : Held x shm t) (hb : Shm.Beside x.region.name x.region.object shm shm') :
    Held x shm' t :=
  h.congr hb.count hb.object.size hb.named (Exchange.header_congr hb.object.bytes_eq)
    fun area _ => congrFun (Exchange.words_congr hb.object.bytes_eq) area

/-- Nor does an operation that put all bytes back. -/
theorem untouched (h : Held x shm t) (hp : Shm.Patch x.region.object (fun _ => False) shm shm') :
    Held x shm' t :=
  h.congr (Nat.le_of_eq hp.count.symm) (hp.sizes _) (by rw [hp.names])
    (Exchange.header_eq_of_patch hp fun _ _ => id)
    fun area _ => Exchange.words_eq_of_patch hp area fun _ _ => id

/-- An area is locked exactly as long as a handoff holds it. -/
theorem unlocked_iff (h : Held x shm t) {area : Nat} (ha : area < x.layout.areaCount) :
    x.lock shm area = Exchange.unlocked ↔ ∀ p ∈ t.pendings, p.area ≠ area := by
  constructor
  · rintro hu p hp rfl
    rw [h.locked p hp] at hu
    cases hu
  · intro hp
    exact congrArg AreaWords.lock (h.free area ha hp)

theorem locked_iff (h : Held x shm t) {area : Nat} (ha : area < x.layout.areaCount) :
    x.lock shm area = Exchange.locked ↔ area ∈ t.pendings.map Pending.area := by
  rw [List.mem_map]
  constructor
  · intro hl
    by_contra hn
    simp only [not_exists, not_and] at hn
    rw [(h.unlocked_iff ha).mpr hn] at hl
    cases hl
  · rintro ⟨p, hp, rfl⟩
    exact h.locked p hp

/-- The areas that are taken are as many as the handoffs that hold one. -/
theorem busy_eq (h : Held x shm t) : x.busy shm = t.cycles.length := by
  have hperm : ((List.range x.layout.areaCount).filter
      fun area => x.lock shm area = Exchange.locked).Perm (t.pendings.map Pending.area) := by
    rw [List.perm_ext_iff_of_nodup (List.nodup_range.filter _) h.apart]
    intro area
    simp only [List.mem_filter, List.mem_range, decide_eq_true_eq]
    constructor
    · rintro ⟨ha, hl⟩
      exact (h.locked_iff ha).mp hl
    · intro hm
      obtain ⟨p, hp, rfl⟩ := List.mem_map.mp hm
      exact ⟨h.area_lt p hp, h.locked p hp⟩
  rw [Exchange.busy, List.countP_eq_length_filter, hperm.length_eq, List.length_map, Traffic.pendings,
    List.length_map]

/-- An area that waits is held by a handoff in that direction. -/
theorem waiting (h : Held x shm t) {dir : Direction} {area : Nat} (ha : area < x.layout.areaCount)
    (hw : x.signal shm area = dir.waiting) : ∃ p ∈ t.pendings, p.area = area ∧ p.direction = dir := by
  have hheld : ∃ p ∈ t.pendings, p.area = area := by
    by_contra hn
    simp only [not_exists, not_and] at hn
    have hidle := congrArg AreaWords.signal (h.free area ha hn)
    have : x.signal shm area = Signal.idle := hidle
    rw [hw] at this
    cases dir <;> cases this
  obtain ⟨p, hp, rfl⟩ := hheld
  refine ⟨p, hp, rfl, ?_⟩
  have hsig := h.signal p hp
  rw [hw] at hsig
  cases dir <;> cases hd : p.direction <;> rw [hd] at hsig <;> first | rfl | (rcases hsig with h | h <;> cases h)

/-- A peer that moved an area on served the handoff that holds it. -/
theorem served (h : Held x shm t) {dir : Direction} {area : Nat} (hs : x.Served dir shm shm' area) :
    ∃ p ∈ t.pendings, p.area = area ∧ p.direction = dir := h.waiting hs.lt hs.waiting

theorem serve (h : Held x shm t) {dir : Direction} {area : Nat} (hs : x.Served dir shm shm' area)
    (ht : t'.pendings = t.pendings) (hpeers : t'.peers = t.peers) (hasked : t'.asked = t.asked) :
    Held x shm' t' := by
  obtain ⟨q, hq, rfl, hdir⟩ := h.served hs
  have heq : ∀ p ∈ t.pendings, p.area = q.area ∨ x.words shm' p.area = x.words shm p.area :=
    fun p hp => (eq_or_ne p.area q.area).imp_right (hs.others _ (h.area_lt p hp))
  refine ⟨h.placed.congr (Nat.le_of_eq hs.count.symm) hs.sized hs.header, ?_, ?_, ?_, ?_, ?_, ?_, ?_,
    ?_, ?_, ?_⟩
  · rw [hs.names]
    exact h.named
  · rw [hpeers]
    exact h.peers
  · rw [hasked]
    exact h.asked
  · rw [ht]
    exact h.exchange
  · rw [ht]
    exact h.area_lt
  · rw [ht]
    exact h.apart
  · rw [ht]
    intro p hp
    rcases heq p hp with he | he
    · rw [he, hs.lock]
      exact h.locked q hq
    · exact (congrArg AreaWords.lock he).trans (h.locked p hp)
  · rw [ht]
    intro p hp
    rcases heq p hp with he | he
    · rw [h.pending_unique hp hq he, hs.segment]
      exact h.segment q hq
    · exact (congrArg AreaWords.segment he).trans (h.segment p hp)
  · rw [ht]
    intro p hp
    rcases heq p hp with he | he
    · rw [h.pending_unique hp hq he, hdir]
      exact Or.inr hs.done
    · have he : x.signal shm' p.area = x.signal shm p.area := congrArg AreaWords.signal he
      rw [he]
      exact h.signal p hp
  · rw [ht]
    intro b hb hp
    rw [hs.others b hb (Ne.symm (hp q hq))]
    exact h.free b hb hp

/-- What was asked for gets the lowest free area, if it gets one, and is never turned away. -/
theorem asked_place (h : Held x shm t) {a : Asked} (ha : a ∈ t.asked) {r : Except Error Pending}
    (hp : a.offer.place? shm = some (r, shm')) :
    a.offer.exchange = x ∧ ∃ area, x.Lowest shm area ∧ r = .ok (a.offer.pending area) ∧
      Shm.Patch x.region.object (x.InPart area) shm shm' ∧ x.words shm' area = a.offer.shown ∧
      a.offer.Loaded area shm' := by
  obtain ⟨ho, hfit⟩ := h.asked a ha
  have hplaced : a.offer.exchange.Placed shm := by
    rw [ho]
    exact h.placed
  obtain ⟨area, hlow, hr, hpatch, hwords, hloaded⟩ := Offer.place?_placed hplaced (by rwa [ho]) hp
  rw [ho] at hlow hpatch hwords
  exact ⟨ho, area, hlow, hr, hpatch, hwords, hloaded⟩

theorem not_refused (h : Held x shm t) {a : Asked} (ha : a ∈ t.asked) {e : Error} :
    a.offer.place? shm ≠ some (.error e, shm') := by
  intro hp
  obtain ⟨-, area, -, hr, -⟩ := h.asked_place ha hp
  cases hr

/-- An offer that gets an area holds it from then on. -/
theorem place (h : Held x shm t) {o : Offer} {area : Nat} (ho : o.exchange = x)
    (hlow : x.Lowest shm area) (hpatch : Shm.Patch x.region.object (x.InPart area) shm shm')
    (hwords : x.words shm' area = o.shown) (hp : t'.pendings = o.pending area :: t.pendings)
    (hpeers : t'.peers = t.peers) (hasked : ∀ a ∈ t'.asked, a ∈ t.asked) : Held x shm' t' := by
  have hfree := (h.unlocked_iff hlow.lt).mp hlow.unlocked
  have heq : ∀ p ∈ t.pendings, x.words shm' p.area = x.words shm p.area := fun p hp =>
    Exchange.words_eq_of_part hpatch (hfree p hp) (h.area_lt p hp)
  refine ⟨h.placed.congr (Nat.le_of_eq hpatch.count.symm) (hpatch.sizes _)
    (Exchange.header_eq_of_part hpatch), ?_, ?_, fun a ha => h.asked a (hasked a ha), ?_, ?_, ?_, ?_,
    ?_, ?_, ?_⟩
  · rw [hpatch.names]
    exact h.named
  · rw [hpeers]
    exact h.peers
  · rw [hp, List.forall_mem_cons]
    exact ⟨ho, h.exchange⟩
  · rw [hp, List.forall_mem_cons]
    exact ⟨hlow.lt, h.area_lt⟩
  · rw [hp, List.map_cons, List.nodup_cons]
    refine ⟨?_, h.apart⟩
    rintro hmem
    obtain ⟨p, hp, he⟩ := List.mem_map.mp hmem
    exact hfree p hp he
  · rw [hp, List.forall_mem_cons]
    exact ⟨Exchange.lock_of_words hwords, fun p hp =>
      (congrArg AreaWords.lock (heq p hp)).trans (h.locked p hp)⟩
  · rw [hp, List.forall_mem_cons]
    exact ⟨Exchange.segment_of_words hwords, fun p hp =>
      (congrArg AreaWords.segment (heq p hp)).trans (h.segment p hp)⟩
  · rw [hp, List.forall_mem_cons]
    refine ⟨Or.inl (Exchange.signal_of_words hwords), fun p hp => ?_⟩
    have he : x.signal shm' p.area = x.signal shm p.area := congrArg AreaWords.signal (heq p hp)
    rw [he]
    exact h.signal p hp
  · intro b hb hn
    rw [hp, List.forall_mem_cons] at hn
    rw [Exchange.words_eq_of_part hpatch (Ne.symm hn.1) hb]
    exact h.free b hb hn.2

/-- The end of a handoff gives its area back. -/
theorem finish (h : Held x shm t) {p : Pending} {pre post : List Pending}
    (hsplit : t.pendings = pre ++ p :: post) (hend : p.Ended shm shm')
    (hp : t'.pendings = pre ++ post) (hpeers : t'.peers = t.peers) (hasked : t'.asked = t.asked) :
    Held x shm' t' := by
  have hmem : p ∈ t.pendings := by simp [hsplit]
  have hx := h.exchange p hmem
  obtain ⟨hpatch, hwords, hheader⟩ := hend
  rw [hx] at hpatch hwords hheader
  have hsub : ∀ q ∈ t'.pendings, q ∈ t.pendings := by
    rw [hp]
    exact fun q => mem_of_split hsplit
  have hnodup := h.apart
  rw [hsplit, List.map_append, List.map_cons] at hnodup
  have hnodup := (List.nodup_cons.mp (List.nodup_middle.mp hnodup)).2
  rw [← List.map_append, ← hp] at hnodup
  have hne : ∀ q ∈ t'.pendings, q.area ≠ p.area := by
    rw [hp]
    exact fun q => h.area_ne hsplit
  have heq : ∀ q ∈ t'.pendings, x.words shm' q.area = x.words shm q.area := fun q hq => by
    rw [hwords, Function.update_of_ne (hne q hq)]
  refine ⟨h.placed.congr (Nat.le_of_eq hpatch.count.symm) (hpatch.sizes _) hheader, ?_, ?_, ?_,
    fun q hq => h.exchange q (hsub q hq), fun q hq => h.area_lt q (hsub q hq), hnodup, ?_, ?_, ?_,
    ?_⟩
  · rw [hpatch.names]
    exact h.named
  · rw [hpeers]
    exact h.peers
  · rw [hasked]
    exact h.asked
  · exact fun q hq => (congrArg AreaWords.lock (heq q hq)).trans (h.locked q (hsub q hq))
  · exact fun q hq => (congrArg AreaWords.segment (heq q hq)).trans (h.segment q (hsub q hq))
  · intro q hq
    have he : x.signal shm' q.area = x.signal shm q.area := congrArg AreaWords.signal (heq q hq)
    rw [he]
    exact h.signal q (hsub q hq)
  · intro b hb hn
    rw [hwords]
    by_cases hbp : b = p.area
    · rw [hbp, Function.update_self]
    · rw [Function.update_of_ne hbp]
      refine h.free b hb fun q hq => ?_
      rw [hsplit, List.mem_append, List.mem_cons] at hq
      rcases hq with hq | rfl | hq
      · exact hn q (by rw [hp]; exact List.mem_append_left _ hq)
      · exact Ne.symm hbp
      · exact hn q (by rw [hp]; exact List.mem_append_right _ hq)

/-- An owner that stops waiting has found the word waiting or done. -/
theorem settle (h : Held x shm t) {p : Pending} (hp : p ∈ t.pendings) {goal : Goal} {c c' : Cache}
    {r : Except Error Segment} (hs : p.settle? goal [] c shm = some (r, c', shm')) :
    p.Ended shm shm' ∧
      (p.signal shm = p.direction.done ∧ p.take c shm = (r, c') ∨
        p.signal shm = p.direction.waiting ∧ r = .error (.handoffTimeout p.segment.id) ∧ c' = c) := by
  have hx := h.exchange p hp
  have hsig := h.signal p hp
  refine Pending.settle?_some ?_ ?_ ?_ hs
  · rw [hx]
    exact h.object_lt
  · rw [hx]
    exact h.area_lt p hp
  · rw [Pending.signal, hx]
    exact hsig

/-- An owner that gives up always gets the area back. -/
theorem drop (h : Held x shm t) {p : Pending} (hp : p ∈ t.pendings) : p.Ended shm (p.drop shm) := by
  have hx := h.exchange p hp
  have hsig := h.signal p hp
  have hlt : p.exchange.region.object < shm.objects.size := by
    rw [hx]
    exact h.object_lt
  have hword : p.signal shm = p.direction.waiting ∨ p.signal shm = p.direction.done := by
    rw [Pending.signal, hx]
    exact hsig
  obtain ⟨shm', ha, hend⟩ := Pending.abandon?_nil hlt hword
  rw [Pending.drop, ha]
  exact hend

/-- Whoever maps the region by its name gets this region, with this layout. -/
theorem attach (h : Held x shm t) {manager : String} (hname : x.region.name = cacheRegionName manager)
    {p : Peer} (hp : Peer.attach manager shm = .ok p) : p.Serves x ∧ p.manager = manager := by
  have hnamed := h.named
  have hheader := h.placed.header
  rw [hname] at hnamed
  rw [Exchange.header, Exchange.announcement, ExchangeHeader.mk.injEq] at hheader
  have hm := Peer.attach_ok hp
  have hobj : p.exchange.region.object = x.region.object :=
    Option.some.inj (hm.named.symm.trans hnamed)
  refine ⟨⟨?_, hobj, by rw [hm.sized, hobj, h.placed.sized]⟩, hm.own⟩
  rw [hm.layout]
  unfold Exchange.announced Shm.word32 Shm.bytes
  rw [hobj]
  exact congrArg₂ Layout.mk hheader.2.1 hheader.2.2

/-- **Control words.** Every step at the region keeps its words those of the handoffs that
hold an area, whatever the descriptors are that the peers present. -/
theorem step {manager : String} {allowed : Traffic → Descriptor → Prop} {e : Traffic.Event}
    (h : Held x shm t) (hname : x.region.name = cacheRegionName manager)
    (hs : Traffic.Step manager allowed (shm, t) e (shm', t')) : Held x shm' t' := by
  cases hs with
  | @placed _ _ _ a pre post p ht hp =>
    obtain ⟨ho, area, hlow, hr, hpatch, hwords, -⟩ := h.asked_place (by simp [ht]) hp
    obtain rfl := Except.ok.inj hr
    exact h.place ho hlow hpatch hwords rfl rfl fun b => mem_of_split ht
  | refused ht hp => exact absurd hp (h.not_refused (by simp [ht]))
  | attach hp =>
    have hserves := (h.attach hname hp).1
    exact { h with peers := List.forall_mem_cons.mpr ⟨hserves, h.peers⟩ }
  | @delivered _ _ _ p d data hp _ hd =>
    rw [(h.peers p hp).deliver_eq] at hd
    obtain ⟨area, hdel⟩ := Peer.deliver_ok h.object_lt hd
    exact h.serve hdel.served (t.pendings_note d data) rfl rfl
  | undelivered hp _ hd =>
    rw [(h.peers _ hp).deliver_eq] at hd
    exact h.untouched (Peer.deliver_error h.object_lt hd)
  | @collected _ _ _ p d data hp _ hd =>
    rw [(h.peers p hp).collect_eq] at hd
    obtain ⟨area, hcol⟩ := Peer.collect_ok h.object_lt hd
    exact h.serve hcol.served (t.pendings_note d data) rfl rfl
  | uncollected hp _ hd =>
    rw [(h.peers _ hp).collect_eq] at hd
    exact h.untouched (Peer.collect_error h.object_lt hd)

end Held
end TierAlloc
