import TierAlloc.Proofs.Cache.Entries
import TierAlloc.Proofs.Exchange.Awaited

/-!
# Payloads

Owner and peers share nothing but the words and data of the areas. `Carried` says
what an area holds for the handoff that has it, in terms of what peers have moved
for that handoff; `Sound` ties traffic, cache and counter together. It needs peers
that present only descriptors that were issued, and ids that fit in a word.

**Results.**
* `Sound.deliver`, `Sound.collect`: a peer that succeeds serves the handoff that its
  descriptor is about, for the first time.
* `Sound.step`, `Sound.kept`, `Sound.finish`: what keeps the invariant.
* `Sound.taken`: what the end of a handoff makes of its payload.
-/
namespace TierAlloc

namespace Exchange

variable {x : Exchange} {shm shm' : Shm} {area : Nat}

/-- Words and data of the other areas are as they were. -/
structure Others (x : Exchange) (area : Nat) (shm shm' : Shm) : Prop where
  words : ∀ b, b < x.layout.areaCount → b ≠ area → x.words shm' b = x.words shm b
  data : ∀ b length, b ≠ area → length ≤ x.layout.areaSize →
    shm'.bytes x.region (x.layout.areaOffset b) length =
      shm.bytes x.region (x.layout.areaOffset b) length

theorem others_of_part (ha : area < x.layout.areaCount)
    (h : Shm.Patch x.region.object (x.InPart area) shm shm') : x.Others area shm shm' :=
  ⟨fun _ hb hne => words_eq_of_part h hne hb, fun _ _ hne hl => data_eq_of_part h hne ha hl⟩

theorem others_of_release (ha : area < x.layout.areaCount)
    (h : Shm.Patch x.region.object (InRelease area) shm shm')
    (hw : x.words shm' = Function.update (x.words shm) area .free) : x.Others area shm shm' := by
  refine ⟨fun b _ hne => by rw [hw, Function.update_of_ne hne], fun b length _ _ => ?_⟩
  refine h.bytes_eq _ _ _ (Or.inr fun k hk _ hp => ?_)
  have := dataStart_le_areaOffset x.layout b
  rcases hp with hp | hp
  · have := inControl_lt_dataStart ha hp
    omega
  · have := releases_lt_dataStart x.layout
    omega

/-- The offsets of an area tell which one it is. -/
theorem locator_inj {l : Layout} {area b : Nat} (h : l.locator area = l.locator b) : area = b := by
  simp only [Layout.locator, Locator.area.injEq, Layout.signalOffset, Layout.controlOffset,
    Layout.blockSize] at h
  omega

end Exchange

/-- An inbound handoff for `n` bytes: nothing was moved yet, or one payload was, and it is
in the area, with its length. -/
structure Inbound (x : Exchange) (shm : Shm) (k : Cycle) (n : Nat) : Prop where
  direction : k.pending.direction = .inbound
  size : k.pending.segment.size = n
  fits : n ≤ x.layout.areaSize
  moved : k.moved = [] ∧ x.signal shm k.pending.area = Signal.awaitData ∨
    ∃ data, k.moved = [data] ∧ x.signal shm k.pending.area = Signal.dataReady ∧
      data.length ≤ n ∧ x.payloadLength shm k.pending.area = data.length ∧
      shm.bytes x.region (x.layout.areaOffset k.pending.area) data.length = data

/-- An outbound handoff of `stored`: it is in the area, and nobody took it yet, or one did. -/
structure Outbound (x : Exchange) (shm : Shm) (k : Cycle) (stored : Bytes) : Prop where
  direction : k.pending.direction = .outbound
  fits : stored.length ≤ x.layout.areaSize
  length : x.payloadLength shm k.pending.area = stored.length
  bytes : shm.bytes x.region (x.layout.areaOffset k.pending.area) stored.length = stored
  moved : k.moved = [] ∧ x.signal shm k.pending.area = Signal.awaitConsume ∨
    k.moved = [stored] ∧ x.signal shm k.pending.area = Signal.consumed

/-- What was moved for a handoff, and what its area holds. -/
def Carried (x : Exchange) (shm : Shm) (k : Cycle) : Prop :=
  match k.transfer with
  | .inbound n => Inbound x shm k n
  | .outbound stored => Outbound x shm k stored

/-- Only the words and the data of its own area matter to a handoff. -/
theorem Carried.congr {x : Exchange} {shm shm' : Shm} {k : Cycle} (h : Carried x shm k)
    (hw : x.words shm' k.pending.area = x.words shm k.pending.area)
    (hd : ∀ length, length ≤ x.layout.areaSize →
      shm'.bytes x.region (x.layout.areaOffset k.pending.area) length =
        shm.bytes x.region (x.layout.areaOffset k.pending.area) length) : Carried x shm' k := by
  have hs : x.signal shm' k.pending.area = x.signal shm k.pending.area := by
    rw [Exchange.signal_of_words hw, Exchange.words]
  have hl : x.payloadLength shm' k.pending.area = x.payloadLength shm k.pending.area := by
    rw [Exchange.payloadLength_of_words hw, Exchange.words]
  unfold Carried at h ⊢
  split at h
  · refine { h with moved := ?_ }
    rw [hs, hl]
    rcases h.moved with hm | ⟨data, hm, hsig, hle, hlen, hb⟩
    · exact Or.inl hm
    · exact Or.inr ⟨data, hm, hsig, hle, hlen, (hd _ (Nat.le_trans hle h.fits)).trans hb⟩
  · refine { h with length := hl.trans h.length, bytes := (hd _ h.fits).trans h.bytes, moved := ?_ }
    rw [hs]
    exact h.moved

/-- Traffic, cache and counter of a region that is used as it should be. -/
structure Sound (x : Exchange) (shm : Shm) (t : Traffic) (c : Cache) (ids : Counter) : Prop where
  exchange : c.exchange = some x
  name : x.region.name = cacheRegionName c.manager
  held : Held x shm t
  fresh : t.Fresh ids
  /-- No id has an entry before it is drawn. -/
  drawn : ∀ id, ids.issued ≤ id → c.contents? id = none
  absent : ∀ id ∈ t.awaited, c.contents? id = none
  asked : ∀ a ∈ t.asked, a.offer.transfer = a.transfer ∧ a.offer.id < ids.issued ∧
    (a.offer.awaits = none → a.offer.id ∉ t.awaited)
  cycles : ∀ k ∈ t.cycles, k.pending.segment.id < ids.issued ∧
    k.pending.segment.kind = .cache (x.layout.locator k.pending.area)
  carried : ∀ k ∈ t.cycles, Carried x shm k
  issued_lt : ∀ d ∈ t.issued, d.id < ids.issued
  /-- A descriptor with an awaited id is that of the handoff that awaits it. -/
  issued : ∀ d ∈ t.issued, d.id ∈ t.awaited →
    ∃ k ∈ t.cycles, k.pending.awaits = some d.id ∧ d = k.pending.descriptor

namespace Sound

variable {x : Exchange} {shm shm' : Shm} {t t' : Traffic} {c c' : Cache} {ids ids' : Counter}

theorem pending_mem {k : Cycle} (hk : k ∈ t.cycles) : k.pending ∈ t.pendings :=
  List.mem_map_of_mem hk

/-- Handoffs in one area are the same one. -/
theorem cycle_unique (h : Sound x shm t c ids) {k k' : Cycle} (hk : k ∈ t.cycles)
    (hk' : k' ∈ t.cycles) (he : k.pending.area = k'.pending.area) : k = k' := by
  have hn := h.held.apart
  rw [Traffic.pendings, List.map_map] at hn
  exact List.inj_on_of_nodup_map hn hk hk' he

theorem awaits_mem {k : Cycle} (hk : k ∈ t.cycles) (hd : k.pending.direction = .inbound) :
    k.pending.awaits = some k.pending.segment.id ∧ k.pending.segment.id ∈ t.awaited := by
  have ha : k.pending.awaits = some k.pending.segment.id := by
    unfold Pending.awaits
    rw [hd]
  exact ⟨ha, Traffic.mem_awaited.mpr (Or.inr ⟨k, hk, ha⟩)⟩

/-- The handoff that a peer serves is the one that its descriptor is about. -/
theorem served (h : Sound x shm t c ids) (hids : ids.issued ≤ wordRange) {d : Descriptor}
    {dir : Direction} {area : Nat} (hs : x.Served dir shm shm' area)
    (hseg : x.segment shm area = d.id) (hkind : d.kind = .cache (x.layout.locator area)) :
    ∃ k ∈ t.cycles, k.pending.area = area ∧ k.pending.direction = dir ∧
      k.pending.segment.id = d.id ∧ k.pending.segment.kind = d.kind := by
  obtain ⟨p, hp, rfl, hdir⟩ := h.held.served hs
  obtain ⟨k, hk, rfl⟩ := List.mem_map.mp hp
  obtain ⟨hlt, hkk⟩ := h.cycles k hk
  have hword := h.held.segment _ hp
  rw [Nat.mod_eq_of_lt (Nat.lt_of_lt_of_le hlt hids), hseg] at hword
  exact ⟨k, hk, rfl, hdir, hword.symm, hkk.trans hkind.symm⟩

/-- Noting a payload under a descriptor of the handoff in `area` concerns no other one. -/
theorem note_other {d : Descriptor} {payload : Bytes} {k : Cycle} {area : Nat}
    (h : Sound x shm t c ids) (hkind : d.kind = .cache (x.layout.locator area)) (hk : k ∈ t.cycles)
    (hne : k.pending.area ≠ area) : k.note d payload = k := by
  unfold Cycle.note
  rw [if_neg]
  rintro ⟨-, he⟩
  rw [(h.cycles k hk).2, hkind] at he
  exact hne (Exchange.locator_inj (Kind.cache.inj he))

theorem note_self {d : Descriptor} {payload : Bytes} {k : Cycle} (hid : k.pending.segment.id = d.id)
    (hkind : k.pending.segment.kind = d.kind) :
    k.note d payload = { k with moved := k.moved ++ [payload] } := by
  unfold Cycle.note
  rw [if_pos ⟨hid, hkind⟩]

theorem pending_note (k : Cycle) (d : Descriptor) (payload : Bytes) :
    (k.note d payload).pending = k.pending := by
  unfold Cycle.note
  split <;> rfl

/-- After a payload was moved for the handoff in `area`, everything but that handoff is as
it was. -/
theorem note (h : Sound x shm t c ids) {d : Descriptor} {payload : Bytes} {area : Nat}
    (hheld : Held x shm' (t.note d payload)) (ho : x.Others area shm shm')
    (hkind : d.kind = .cache (x.layout.locator area))
    (hcar : ∀ k ∈ t.cycles, k.pending.area = area → Carried x shm' (k.note d payload)) :
    Sound x shm' (t.note d payload) c ids := by
  have hawaited := t.awaited_note d payload
  refine { h with held := hheld, fresh := ?_, absent := ?_, asked := ?_, cycles := ?_, carried := ?_,
                  issued := ?_ }
  · exact h.fresh.of_perm (.of_eq hawaited) (Nat.le_refl _)
  · rw [hawaited]
    exact h.absent
  · rw [hawaited]
    exact h.asked
  · intro k' hk'
    obtain ⟨k, hk, rfl⟩ := List.mem_map.mp hk'
    rw [pending_note]
    exact h.cycles k hk
  · intro k' hk'
    obtain ⟨k, hk, rfl⟩ := List.mem_map.mp hk'
    by_cases ha : k.pending.area = area
    · exact hcar k hk ha
    · rw [h.note_other hkind hk ha]
      have hlt := h.held.area_lt _ (pending_mem hk)
      exact (h.carried k hk).congr (ho.words _ hlt ha) fun length hl => ho.data _ length ha hl
  · rw [hawaited]
    intro d' hd' hid
    obtain ⟨k, hk, ha, he⟩ := h.issued d' hd' hid
    refine ⟨k.note d payload, List.mem_map_of_mem hk, ?_, ?_⟩
    · rw [pending_note]
      exact ha
    · rw [pending_note]
      exact he

/-- **Delivery.** With issued descriptors only, a delivery that succeeds is the first for a
live inbound handoff, the one whose descriptor the peer has, and fits its size. -/
theorem deliver (h : Sound x shm t c ids) (hids : ids.issued ≤ wordRange) {p : Peer}
    (hp : p ∈ t.peers) {d : Descriptor} {data : Bytes} (hd : d ∈ t.issued)
    (hdel : p.deliver d data shm = (.ok (), shm')) :
    Sound x shm' (t.note d data) c ids ∧
      ∃ k ∈ t.cycles, ∃ n, k.transfer = .inbound n ∧ d = k.pending.descriptor ∧ k.moved = [] ∧
        data.length ≤ n := by
  rw [(h.held.peers p hp).deliver_eq] at hdel
  obtain ⟨area, hdel⟩ := Peer.deliver_ok h.held.object_lt hdel
  have hserved : x.Served .inbound shm shm' area := hdel.served
  obtain ⟨k, hk, rfl, hdir, hid, hkind⟩ := h.served hids hserved hdel.claims.segment hdel.claims.kind
  obtain ⟨-, hmem⟩ := awaits_mem hk hdir
  rw [hid] at hmem
  have hdesc : d = k.pending.descriptor := by
    obtain ⟨k', hk', -, he⟩ := h.issued d hd hmem
    have harea : k.pending.area = k'.pending.area := by
      have hkk := (h.cycles k hk).2.symm.trans (hkind.trans ((congrArg Descriptor.kind he).trans
        (h.cycles k' hk').2))
      exact Exchange.locator_inj (Kind.cache.inj hkk)
    rw [h.cycle_unique hk hk' harea]
    exact he
  have hcar := h.carried k hk
  unfold Carried at hcar
  split at hcar
  · rename_i n ht
    have hsize : d.size = n := by
      rw [hdesc]
      exact hcar.size
    have hlen : data.length ≤ n := hsize ▸ hdel.length_le
    have hfits := hcar.fits
    have hmoved : k.moved = [] := by
      rcases hcar.moved with hm | ⟨_, -, hs, -⟩
      · exact hm.1
      · rw [hserved.waiting] at hs
        cases hs
    refine ⟨h.note (h.held.serve hserved (t.pendings_note d data) rfl rfl) ?_ hdel.claims.kind ?_, k,
      hk, n, ht, hdesc, hmoved, hlen⟩
    · refine Exchange.others_of_part hserved.lt (hdel.patch.mono fun i hi => hi.imp_right fun hi => ?_)
      refine ⟨hi.1, ?_⟩
      have : i < x.layout.areaOffset k.pending.area + data.length := hi.2
      rw [Exchange.areaOffset_succ]
      omega
    · intro k' hk' he
      rw [h.cycle_unique hk' hk he, note_self hid hkind]
      have hlt : data.length < wordRange := by
        have := h.held.placed.areaSize_lt
        simp only [halfRange, wordRange] at this ⊢
        omega
      unfold Carried
      rw [ht]
      refine ⟨hdir, hcar.size, hfits, Or.inr ⟨data, by rw [hmoved, List.nil_append], hserved.done, hlen,
        ?_, hdel.bytes⟩⟩
      have := Exchange.payloadLength_of_words hdel.words
      rw [Nat.mod_eq_of_lt hlt] at this
      exact this
  · exact absurd (hcar.direction.symm.trans hdir) (by decide)

/-- **Collection.** With issued descriptors only, a collection that succeeds is the first for
the live outbound handoff of that segment in that area, and gives what was stored. -/
theorem collect (h : Sound x shm t c ids) (hids : ids.issued ≤ wordRange) {p : Peer}
    (hp : p ∈ t.peers) {d : Descriptor} {data : Bytes}
    (hcol : p.collect d shm = (.ok data, shm')) :
    Sound x shm' (t.note d data) c ids ∧
      ∃ k ∈ t.cycles, k.transfer = .outbound data ∧ k.pending.segment.id = d.id ∧
        k.pending.segment.kind = d.kind ∧ k.moved = [] := by
  rw [(h.held.peers p hp).collect_eq] at hcol
  obtain ⟨area, hcol⟩ := Peer.collect_ok h.held.object_lt hcol
  have hserved : x.Served .outbound shm shm' area := hcol.served
  obtain ⟨k, hk, rfl, hdir, hid, hkind⟩ := h.served hids hserved hcol.claims.segment hcol.claims.kind
  have hcar := h.carried k hk
  unfold Carried at hcar
  split at hcar
  · exact absurd (hcar.direction.symm.trans hdir) (by decide)
  rename_i stored ht
  have hdata : data = stored := by
    have := hcol.data_eq
    rw [Peer.exchange_through, hcar.length] at this
    exact this.trans hcar.bytes
  subst hdata
  have hmoved : k.moved = [] := by
    rcases hcar.moved with hm | ⟨-, hs⟩
    · exact hm.1
    · rw [hserved.waiting] at hs
      cases hs
  refine ⟨h.note (h.held.serve hserved (t.pendings_note d data) rfl rfl) ?_ hcol.claims.kind ?_, k, hk,
    ht, hid, hkind, hmoved⟩
  · exact Exchange.others_of_part hserved.lt (hcol.patch.mono fun _ => Or.inl)
  · intro k' hk' he
    rw [h.cycle_unique hk' hk he, note_self hid hkind]
    unfold Carried
    rw [ht]
    refine ⟨hdir, hcar.fits, ?_, ?_, Or.inr ⟨by rw [hmoved, List.nil_append], hserved.done⟩⟩
    · have := Exchange.payloadLength_of_words hcol.words
      exact this.trans hcar.length
    · rw [Exchange.data_eq_of_control hserved.lt hcol.patch]
      exact hcar.bytes

/-- After a delivery, the handoff that awaits its id has this payload, and all that await
other ids are as they were. -/
theorem mem_note_inbound (h : Sound x shm t c ids) {k k' : Cycle} {d : Descriptor} {data : Bytes}
    {id : Nat} (hk : k ∈ t.cycles) (hdir : k.pending.direction = .inbound)
    (hd : d = k.pending.descriptor) (hm : k.moved = []) (hk' : k' ∈ (t.note d data).cycles)
    (haw : k'.pending.awaits = some id) :
    d.id = id ∧ k'.moved = [data] ∨ d.id ≠ id ∧ k' ∈ t.cycles := by
  have hid : k.pending.segment.id = d.id := by
    rw [hd]
    rfl
  obtain ⟨k₀, hk₀, rfl⟩ := List.mem_map.mp hk'
  rw [pending_note] at haw
  by_cases he : d.id = id
  · subst he
    obtain ⟨hw, -⟩ := awaits_mem hk hdir
    rw [hid] at hw
    obtain rfl := h.fresh.cycle_unique hk₀ hk haw hw
    rw [note_self hid (by rw [hd]; rfl), hm]
    exact Or.inl ⟨rfl, rfl⟩
  · have hne : k₀.pending.segment.id ≠ d.id := by
      unfold Pending.awaits at haw
      split at haw
      · exact fun hc => he (hc.symm.trans (Option.some.inj haw))
      · cases haw
    rw [Cycle.note, if_neg fun hc => hne hc.1]
    exact Or.inr ⟨he, hk₀⟩

/-- After a collection, all handoffs that await an id are as they were. -/
theorem mem_note_outbound (h : Sound x shm t c ids) {k k' : Cycle} {d : Descriptor}
    {stored data : Bytes} (hk : k ∈ t.cycles) (htr : k.transfer = .outbound stored)
    (hkind : k.pending.segment.kind = d.kind) (hk' : k' ∈ (t.note d data).cycles)
    (haw : k'.pending.awaits ≠ none) : k' ∈ t.cycles := by
  obtain ⟨k₀, hk₀, rfl⟩ := List.mem_map.mp hk'
  rw [h.note_other (hkind.symm.trans (h.cycles k hk).2) hk₀]
  · exact hk₀
  · intro he
    obtain rfl := h.cycle_unique hk₀ hk he
    have hcar := h.carried k₀ hk₀
    unfold Carried at hcar
    rw [htr] at hcar
    rw [pending_note, Pending.awaits, hcar.direction] at haw
    exact haw rfl

/-- Bytes that were put back, or that are elsewhere, do not matter. -/
theorem frame (h : Sound x shm t c ids) (hheld : Held x shm' t)
    (hw : ∀ area, area < x.layout.areaCount → x.words shm' area = x.words shm area)
    (hb : ∀ offset length, shm'.bytes x.region offset length = shm.bytes x.region offset length) :
    Sound x shm' t c ids :=
  { h with
    held := hheld
    carried := fun k hk => (h.carried k hk).congr (hw _ (h.held.area_lt _ (pending_mem hk)))
      fun _ _ => hb _ _ }

theorem untouched (h : Sound x shm t c ids)
    (hp : Shm.Patch x.region.object (fun _ => False) shm shm') : Sound x shm' t c ids :=
  h.frame (h.held.untouched hp)
    (fun area _ => Exchange.words_eq_of_patch hp area fun _ _ => id)
    fun offset length => hp.bytes_eq _ offset length (Or.inr fun _ _ _ => id)

theorem beside (h : Sound x shm t c ids)
    (hb : Shm.Beside x.region.name x.region.object shm shm') : Sound x shm' t c ids :=
  h.frame (h.held.beside hb)
    (fun area _ => congrFun (Exchange.words_congr hb.object.bytes_eq) area) hb.object.bytes_eq

/-- An offer that gets an area carries nothing yet, and issues its descriptor. -/
theorem place (h : Sound x shm t c ids) {a : Asked} {pre post : List Asked} {p : Pending}
    (ht : t.asked = pre ++ a :: post) (hp : a.offer.place? shm = some (.ok p, shm')) :
    Sound x shm' { t with asked := pre ++ post, cycles := ⟨p, a.transfer, []⟩ :: t.cycles,
                          issued := p.descriptor :: t.issued } c ids := by
  have ha : a ∈ t.asked := by simp [ht]
  obtain ⟨-, hfit⟩ := h.held.asked a ha
  obtain ⟨htransfer, hlt, hother⟩ := h.asked a ha
  obtain ⟨ho, area, hlow, hr, hpatch, hwords, hloaded⟩ := h.held.asked_place ha hp
  obtain rfl := Except.ok.inj hr
  have hperm := Traffic.Fresh.awaited_placed ht (a.offer.awaits_pending area) a.transfer
    ((a.offer.pending area).descriptor :: t.issued)
  have hothers := Exchange.others_of_part hlow.lt hpatch
  have hfree := (h.held.unlocked_iff hlow.lt).mp hlow.unlocked
  constructor
  · exact h.exchange
  · exact h.name
  · exact h.held.place ho hlow hpatch hwords rfl rfl fun b => mem_of_split ht
  · exact h.fresh.of_perm hperm (Nat.le_refl _)
  · exact h.drawn
  · exact fun id hid => h.absent id (hperm.mem_iff.mp hid)
  · intro b hb
    obtain ⟨hbt, hbl, hbo⟩ := h.asked b (mem_of_split ht hb)
    exact ⟨hbt, hbl, fun hn hm => hbo hn (hperm.mem_iff.mp hm)⟩
  · rw [List.forall_mem_cons]
    refine ⟨⟨hlt, ?_⟩, h.cycles⟩
    simp only [Offer.pending, ho]
  · rw [List.forall_mem_cons]
    constructor
    · have hsignal := Exchange.signal_of_words hwords
      have hlength := Exchange.payloadLength_of_words hwords
      unfold Carried
      unfold Offer.Loaded at hloaded
      rw [← htransfer]
      cases htr : a.offer.transfer with
      | inbound n =>
        rw [htr] at hfit
        simp only [Offer.shown, htr] at hsignal
        exact ⟨by simp [htr, Transfer.direction], by simp [Offer.pending, htr, Transfer.size], hfit,
          Or.inl ⟨rfl, hsignal⟩⟩
      | outbound payload =>
        simp only [htr, ho] at hloaded
        rw [htr] at hfit
        have hlt : payload.length < wordRange := by
          have := h.held.placed.areaSize_lt
          simp only [halfRange, wordRange, Transfer.size] at this hfit ⊢
          omega
        simp only [Offer.shown, htr, Transfer.size, Nat.mod_eq_of_lt hlt] at hlength hsignal
        exact ⟨by simp [htr, Transfer.direction], hfit, hlength, hloaded, Or.inl ⟨rfl, hsignal⟩⟩
    · intro k hk
      have hne := hfree _ (pending_mem hk)
      have hlt := h.held.area_lt _ (pending_mem hk)
      exact (h.carried k hk).congr (hothers.words _ hlt hne) fun length hl => hothers.data _ length hne hl
  · rw [List.forall_mem_cons]
    exact ⟨hlt, h.issued_lt⟩
  · intro d hd hid
    have hid := hperm.mem_iff.mp hid
    rcases List.mem_cons.mp hd with rfl | hd
    · have hid : a.offer.id ∈ t.awaited := hid
      refine ⟨_, List.mem_cons_self, ?_, rfl⟩
      cases haw : a.offer.awaits with
      | none => exact absurd hid (hother haw)
      | some id =>
        have he : id = a.offer.id := by
          unfold Offer.awaits at haw
          split at haw
          · exact (Option.some.inj haw).symm
          · cases haw
        rw [Offer.awaits_pending, haw, he]
        rfl
    · obtain ⟨k, hk, haw, he⟩ := h.issued d hd hid
      exact ⟨k, List.mem_cons_of_mem _ hk, haw, he⟩

/-- Every step of the traffic keeps the invariant, if the peers present issued descriptors. -/
theorem step {e : Traffic.Event} (h : Sound x shm t c ids) (hids : ids.issued ≤ wordRange)
    (hs : Traffic.Step c.manager (fun t d => d ∈ t.issued) (shm, t) e (shm', t')) :
    Sound x shm' t' c ids := by
  have hheld := h.held.step h.name hs
  cases hs with
  | placed ht hp => exact h.place ht hp
  | refused ht hp => exact absurd hp (h.held.not_refused (by simp [ht]))
  | attach => exact { h with held := hheld, fresh := ⟨h.fresh.nodup, h.fresh.lt⟩ }
  | delivered hp hd hdel => exact (h.deliver hids hp hd hdel).1
  | undelivered hp _ hdel =>
    rw [(h.held.peers _ hp).deliver_eq] at hdel
    exact h.untouched (Peer.deliver_error h.held.object_lt hdel)
  | collected hp _ hcol => exact (h.collect hids hp hcol).1
  | uncollected hp _ hcol =>
    rw [(h.held.peers _ hp).collect_eq] at hcol
    exact h.untouched (Peer.collect_error h.held.object_lt hcol)

/-! ## The owner -/

/-- The owner's cache may change, but that nothing comes under an id that is awaited or was
not drawn. -/
theorem owner (h : Sound x shm t c ids) (hm : c'.manager = c.manager) (hx : c'.exchange = c.exchange)
    (hids : ids.issued ≤ ids'.issued) (hdrawn : ∀ id, ids'.issued ≤ id → c'.contents? id = none)
    (habsent : ∀ id ∈ t.awaited, c'.contents? id = none) : Sound x shm t c' ids' where
  exchange := hx.trans h.exchange
  name := by rw [hm]; exact h.name
  held := h.held
  fresh := h.fresh.draw hids
  drawn := hdrawn
  absent := habsent
  asked a ha := by
    obtain ⟨ht, hl, ho⟩ := h.asked a ha
    exact ⟨ht, Nat.lt_of_lt_of_le hl hids, ho⟩
  cycles k hk := by
    obtain ⟨hl, hkind⟩ := h.cycles k hk
    exact ⟨Nat.lt_of_lt_of_le hl hids, hkind⟩
  carried := h.carried
  issued_lt d hd := Nat.lt_of_lt_of_le (h.issued_lt d hd) hids
  issued := h.issued

/-- Other work of the owner keeps the invariant. -/
theorem kept (h : Sound x shm t c ids) (hk : c.Kept ids c' ids') : Sound x shm t c' ids' := by
  refine h.owner hk.manager hk.exchange hk.ids_le (fun id hid => ?_) fun id hid => ?_
  · exact hk.absent id (Or.inr hid) (h.drawn id (Nat.le_trans hk.ids_le hid))
  · exact hk.absent id (Or.inl (h.fresh.lt id hid)) (h.absent id hid)

/-- Asking for bytes from a peer. -/
theorem askMalloc (h : Sound x shm t c ids) {n : Nat} {o : Offer}
    (ho : c.offerMalloc ids n = (.ok o, ids')) :
    Sound x shm { t with asked := ⟨o, .inbound n⟩ :: t.asked } c ids' := by
  obtain ⟨y, hy, hn, rfl, rfl⟩ := Cache.offerMalloc_ok ho
  obtain rfl := Option.some.inj (hy.symm.trans h.exchange)
  have hlt := h.fresh.lt
  have hmem : ∀ id, id ∈ Traffic.awaited { t with asked := ⟨⟨y, c.manager, ids.issued, .inbound n⟩,
      .inbound n⟩ :: t.asked } ↔ id = ids.issued ∨ id ∈ t.awaited := by
    intro id
    simp [Traffic.awaited, Offer.awaits, List.mem_append]
  constructor
  · exact h.exchange
  · exact h.name
  · exact { h.held with asked := List.forall_mem_cons.mpr ⟨⟨rfl, hn⟩, h.held.asked⟩ }
  · exact h.fresh.ask rfl
  · exact fun id hid => h.drawn id (Nat.le_of_succ_le hid)
  · intro id hid
    rcases (hmem id).mp hid with rfl | hid
    · exact h.drawn _ (Nat.le_refl _)
    · exact h.absent id hid
  · rw [List.forall_mem_cons]
    refine ⟨⟨rfl, Nat.lt_succ_self _, fun hn => by simp [Offer.awaits] at hn⟩, fun a ha => ?_⟩
    obtain ⟨htr, hl, hother⟩ := h.asked a ha
    refine ⟨htr, Nat.lt_succ_of_lt hl, fun hn hm => ?_⟩
    rcases (hmem _).mp hm with he | hm
    · omega
    · exact hother hn hm
  · intro k hk
    obtain ⟨hl, hkind⟩ := h.cycles k hk
    exact ⟨Nat.lt_succ_of_lt hl, hkind⟩
  · exact h.carried
  · exact fun d hd => Nat.lt_succ_of_lt (h.issued_lt d hd)
  · intro d hd hid
    have := h.issued_lt d hd
    rcases (hmem _).mp hid with he | hid
    · omega
    · exact h.issued d hd hid

/-- Offering what is stored to a peer. -/
theorem askRetrieve (h : Sound x shm t c ids) {id : Nat} {o : Offer} {stored : Bytes}
    (hs : c.retrieve id = .ok stored) (ho : c.offerRetrieve id = .ok o) :
    Sound x shm { t with asked := ⟨o, .outbound stored⟩ :: t.asked } c ids := by
  obtain ⟨y, payload, hy, hc, hn, rfl⟩ := Cache.offerRetrieve_ok ho
  obtain rfl := Option.some.inj (hy.symm.trans h.exchange)
  have hstored : stored = payload := by
    unfold Cache.retrieve at hs
    rw [hc] at hs
    exact (Except.ok.inj hs).symm
  subst hstored
  have hnot : id ∉ t.awaited := fun hm => by
    rw [h.absent id hm] at hc
    cases hc
  have hlt : id < ids.issued := by
    by_contra hge
    rw [h.drawn id (Nat.le_of_not_lt hge)] at hc
    cases hc
  have hawaited : Traffic.awaited { t with asked := ⟨⟨y, c.manager, id, .outbound stored⟩,
      .outbound stored⟩ :: t.asked } = t.awaited := by
    simp [Traffic.awaited, Offer.awaits]
  refine { h with held := ?_, fresh := h.fresh.offer rfl, absent := ?_, asked := ?_, issued := ?_ }
  · exact { h.held with asked := List.forall_mem_cons.mpr ⟨⟨rfl, hn⟩, h.held.asked⟩ }
  · rw [hawaited]
    exact h.absent
  · rw [hawaited, List.forall_mem_cons]
    exact ⟨⟨rfl, hlt, fun _ => hnot⟩, h.asked⟩
  · rw [hawaited]
    exact h.issued

/-- What a handoff leaves in the cache when its payload is taken: the payload that was
delivered, under its id; and nothing, if it is outbound. -/
theorem taken (h : Sound x shm t c ids) {k : Cycle} (hk : k ∈ t.cycles)
    (hdone : k.pending.signal shm = k.pending.direction.done) {seg : Segment}
    (htake : k.pending.take c shm = (.ok seg, c')) :
    (∃ stored, k.transfer = .outbound stored ∧ k.moved = [stored] ∧ seg = k.pending.segment ∧ c' = c) ∨
    ∃ n data, k.transfer = .inbound n ∧ k.moved = [data] ∧ data.length ≤ n ∧
      seg = c.entrySegment k.pending.segment.id data.length ∧
      c.Becomes (Function.update c.contents? k.pending.segment.id (some data)) c' := by
  have hx := h.held.exchange _ (pending_mem hk)
  have hcar := h.carried k hk
  rw [Pending.signal, hx] at hdone
  unfold Carried at hcar
  split at hcar
  · rename_i n ht
    rw [hcar.direction] at hdone
    rcases hcar.moved with ⟨-, hs⟩ | ⟨data, hm, -, hle, hlen, hbytes⟩
    · rw [hs] at hdone
      cases hdone
    rcases Pending.take_ok htake with ⟨hd, -⟩ | ⟨-, -, hseg, hb⟩
    · exact absurd (hd.symm.trans hcar.direction) (by decide)
    rw [hx, hlen] at hseg hb
    rw [hbytes] at hb
    exact Or.inr ⟨n, data, ht, hm, hle, hseg, hb⟩
  · rename_i stored ht
    rw [hcar.direction] at hdone
    rcases hcar.moved with ⟨-, hs⟩ | ⟨hm, -⟩
    · rw [hs] at hdone
      cases hdone
    rcases Pending.take_ok htake with ⟨-, hseg, hc⟩ | ⟨hd, -⟩
    · exact Or.inl ⟨stored, ht, hm, hseg, hc⟩
    · exact absurd (hd.symm.trans hcar.direction) (by decide)

/-- The end of a handoff keeps the invariant, whatever became of its payload. -/
theorem finish (h : Sound x shm t c ids) {k : Cycle} {pre post : List Cycle}
    (ht : t.cycles = pre ++ k :: post) (hend : k.pending.Ended shm shm')
    (hm : c'.manager = c.manager) (hx : c'.exchange = c.exchange)
    (hc : c'.contents? = c.contents? ∨ k.pending.awaits = some k.pending.segment.id ∧
      ∃ data, c'.contents? = Function.update c.contents? k.pending.segment.id (some data)) :
    Sound x shm' { t with cycles := pre ++ post } c' ids := by
  have hk : k ∈ t.cycles := by simp [ht]
  have hsub : ∀ k' ∈ pre ++ post, k' ∈ t.cycles := fun k' => mem_of_split ht
  obtain ⟨hfresh, hgone, hstill⟩ := h.fresh.finish ht
  have hsplit : t.pendings = pre.map Cycle.pending ++ k.pending :: post.map Cycle.pending := by
    rw [Traffic.pendings, ht, List.map_append, List.map_cons]
  have hheld : Held x shm' { t with cycles := pre ++ post } :=
    h.held.finish hsplit hend (List.map_append ..) rfl rfl
  have hpx := h.held.exchange _ (pending_mem hk)
  have hothers : x.Others k.pending.area shm shm' := by
    rw [← hpx]
    refine Exchange.others_of_release ?_ hend.patch hend.words
    rw [hpx]
    exact h.held.area_lt _ (pending_mem hk)
  have hne : ∀ k' ∈ pre ++ post, k'.pending.area ≠ k.pending.area := by
    intro k' hk'
    refine h.held.area_ne hsplit ?_
    rw [← List.map_append]
    exact List.mem_map_of_mem hk'
  have hnone : ∀ id, id ≠ k.pending.segment.id ∨ k.pending.awaits ≠ some id →
      c.contents? id = none → c'.contents? id = none := by
    intro id hid hn
    rcases hc with hc | ⟨haw, data, hc⟩
    · rw [hc, hn]
    · have hne : id ≠ k.pending.segment.id := by
        rcases hid with hid | hid
        · exact hid
        · exact fun he => hid (he ▸ haw)
      rw [hc, Function.update_of_ne hne, hn]
  constructor
  · exact hx.trans h.exchange
  · rw [hm]
    exact h.name
  · exact hheld
  · exact hfresh
  · intro id hid
    have := (h.cycles k hk).1
    exact hnone id (Or.inl (by omega)) (h.drawn id hid)
  · intro id hid
    exact hnone id (Or.inr fun haw => hgone id haw hid) (h.absent id (hstill id hid))
  · intro a ha
    obtain ⟨htr, hl, hother⟩ := h.asked a ha
    exact ⟨htr, hl, fun hn hmem => hother hn (hstill _ hmem)⟩
  · exact fun k' hk' => h.cycles k' (hsub k' hk')
  · intro k' hk'
    have hlt := h.held.area_lt _ (pending_mem (hsub k' hk'))
    exact (h.carried k' (hsub k' hk')).congr (hothers.words _ hlt (hne k' hk'))
      fun length hl => hothers.data _ length (hne k' hk') hl
  · exact h.issued_lt
  · intro d hd hid
    obtain ⟨k', hk', haw, he⟩ := h.issued d hd (hstill _ hid)
    rw [ht, List.mem_append, List.mem_cons] at hk'
    rcases hk' with hk' | rfl | hk'
    · exact ⟨k', List.mem_append_left _ hk', haw, he⟩
    · exact absurd hid (hgone _ haw)
    · exact ⟨k', List.mem_append_right _ hk', haw, he⟩

/-- How a wait ends: the payload is taken, or the entries are as they were. -/
theorem settle (h : Sound x shm t c ids) {k : Cycle} {pre post : List Cycle} {goal : Goal}
    {r : Except Error Segment} (ht : t.cycles = pre ++ k :: post)
    (hs : k.pending.settle? goal [] c shm = some (r, c', shm')) :
    Sound x shm' { t with cycles := pre ++ post } c' ids ∧ c'.manager = c.manager ∧
      match r with
      | .ok seg => (∃ stored, k.transfer = .outbound stored ∧ k.moved = [stored] ∧
            seg = k.pending.segment ∧ c' = c) ∨
          ∃ n data, k.transfer = .inbound n ∧ k.moved = [data] ∧ data.length ≤ n ∧
            seg = c.entrySegment k.pending.segment.id data.length ∧
            c.Becomes (Function.update c.contents? k.pending.segment.id (some data)) c'
      | .error _ => c'.contents? = c.contents? ∧ (k.pending.direction = .outbound → c' = c) := by
  have hk : k ∈ t.cycles := by simp [ht]
  obtain ⟨hend, hout⟩ := h.held.settle (pending_mem hk) hs
  rcases hout with ⟨hdone, htake⟩ | ⟨-, rfl, rfl⟩
  · cases r with
    | ok seg =>
      have htaken := h.taken hk hdone htake
      refine ⟨?_, ?_, htaken⟩
      · rcases htaken with ⟨stored, -, -, -, rfl⟩ | ⟨n, data, htr, -, -, -, hb⟩
        · exact h.finish ht hend rfl rfl (Or.inl rfl)
        · have hdir : k.pending.direction = .inbound := by
            have hcar := h.carried k hk
            unfold Carried at hcar
            rw [htr] at hcar
            exact hcar.direction
          exact h.finish ht hend hb.manager hb.exchange
            (Or.inr ⟨(awaits_mem hk hdir).1, data, hb.contents⟩)
      · rcases htaken with ⟨stored, -, -, -, rfl⟩ | ⟨n, data, -, -, -, -, hb⟩
        · rfl
        · exact hb.manager
    | error e =>
      obtain ⟨hdir, hb⟩ := Pending.take_error htake
      refine ⟨h.finish ht hend hb.manager hb.exchange (Or.inl hb.contents), hb.manager, hb.contents, ?_⟩
      intro hd
      rw [hdir] at hd
      cases hd
  · exact ⟨h.finish ht hend rfl rfl (Or.inl rfl), rfl, rfl, fun _ => rfl⟩

/-- Giving a handoff up keeps the invariant. -/
theorem drop (h : Sound x shm t c ids) {k : Cycle} {pre post : List Cycle}
    (ht : t.cycles = pre ++ k :: post) :
    Sound x (k.pending.drop shm) { t with cycles := pre ++ post } c ids := by
  have hk : k ∈ t.cycles := by simp [ht]
  exact h.finish ht (h.held.drop (pending_mem hk)) rfl rfl (Or.inl rfl)

end Sound
end TierAlloc
