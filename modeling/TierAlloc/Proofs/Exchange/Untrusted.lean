import TierAlloc.Proofs.Exchange.Parts

/-!
# Regions that anybody has written

Whoever may put an object under the name of an exchange region can write into it what they
like. A peer looks at the mark, and holds the geometry in the header against the length of its
mapping; it believes nothing else that is there. Descriptors are not believed either: offsets
must be those of one area.

Number and size of the areas have 32 bits each. What they need in all may have more than 64 bits.
Such a geometry is not refused as one that does not fit into the mapping: the length
overflows while it is worked out (`Overflows`), and the peer has no answer at all.

**Results.**
* `Exchange.locate_iff`: the descriptors that name an area.
* `Peer.deliver_confined`, `Peer.collect_confined`: what a peer reads and writes.
* `Peer.attach_guarded`: how mapping ends and what holds of a peer that has mapped a region,
  whatever is in it.
* `Peer.attach_overflows`: a mapping of one header that announces 2^32 - 1 areas.
-/
namespace TierAlloc

namespace Shm

variable {i : Nat} {P : Nat → Prop} {s s' : Shm} {r : Region}

/-- Both memories have object `i`, with the same bytes at the positions that satisfy `P`. -/
structure Agree (i : Nat) (P : Nat → Prop) (s s' : Shm) : Prop where
  left : i < s.objects.size
  right : i < s'.objects.size
  byte : ∀ k, P k → (s'.object i).byte k = (s.object i).byte k

theorem Agree.bytes_eq (h : Agree r.object P s s') {offset length : Nat}
    (hp : ∀ k, offset ≤ k → k < offset + length → P k) :
    s'.bytes r offset length = s.bytes r offset length := by
  unfold bytes Block.read
  apply List.map_congr_left
  intro k hk
  rw [List.mem_range] at hk
  exact h.byte _ (hp _ (by omega) (by omega))

theorem Agree.store (h : Agree r.object P s s') (offset : Nat) (data : Bytes) :
    Agree r.object P (s.store r offset data) (s'.store r offset data) where
  left := by simpa using h.left
  right := by simpa using h.right
  byte k hk := by
    rw [object_store s h.left, object_store s' h.right, if_pos rfl, if_pos rfl, Block.byte_write,
      Block.byte_write, h.byte k hk]

/-- An object that cannot be mapped is refused with an answer. -/
theorem attach_error {name : String} {e : Error} (h : s.attach name = .error e) : ¬e.Panics := by
  unfold attach at h
  split at h
  · rw [← Except.error.inj h]
    exact not_false
  split at h
  · rw [← Except.error.inj h]
    exact not_false
  simp only at h
  split at h
  · rw [← Except.error.inj h]
    exact not_false
  · cases h

/-- The operation changes no byte of object `i` but at positions that satisfy `P`, and does the
same whatever is at others. -/
structure Confines {α : Type} (i : Nat) (P : Nat → Prop) (op : Shm → α × Shm) : Prop where
  writes : ∀ s, i < s.objects.size → Patch i P s (op s).2
  reads : ∀ s s', Agree i P s s' → (op s').1 = (op s).1 ∧ Agree i P (op s).2 (op s').2

end Shm

namespace Exchange

variable {x : Exchange} {d : Descriptor} {area : Nat} {s s' : Shm}

/-- The header, the control blocks and the areas lie in the mapping. -/
structure Inside (x : Exchange) : Prop where
  header : Layout.blockSize ≤ x.region.size
  control : ∀ area, area < x.layout.areaCount → Layout.controlOffset (area + 1) ≤ x.region.size
  area : ∀ area, area < x.layout.areaCount → x.layout.areaOffset area + x.layout.areaSize ≤ x.region.size

theorem inside_of_total (h : x.layout.totalBytes ≤ x.region.size) : x.Inside where
  header := Nat.le_trans (Layout.Part.inside (p := .header) trivial) h
  control area ha := by
    rw [← Layout.Part.stop_control x.layout]
    exact Nat.le_trans (Layout.Part.inside ha) h
  area area ha := Nat.le_trans (Layout.Part.inside (p := .data area) ha) h

/-- Position `k` is in the mapping. -/
def InMapping (x : Exchange) (k : Nat) : Prop := k < x.region.size

/-- The descriptors that name an area are those with its two offsets. -/
theorem locate_iff (hpos : 0 < x.layout.areaSize) : x.locate d = .ok area ↔
    area < x.layout.areaCount ∧
      d.kind = .cache (.area (x.layout.areaOffset area) (Layout.signalOffset area)) := by
  refine ⟨locate_eq_ok, ?_⟩
  rintro ⟨ha, hkind⟩
  unfold locate
  rw [hkind]
  simp only [Layout.areaAt?_locator ha hpos]

theorem locate_error (h : ∀ area, area < x.layout.areaCount → d.kind ≠ .cache (x.layout.locator area)) :
    ∃ why, x.locate d = .error (.invalidDescriptor why) := by
  cases hl : x.locate d with
  | ok area => exact absurd (locate_eq_ok hl).2 (h area (locate_eq_ok hl).1)
  | error e =>
    unfold locate at hl
    split at hl
    · split at hl
      · cases hl
      · rw [← Except.error.inj hl]
        exact ⟨_, rfl⟩
    · rw [← Except.error.inj hl]
      exact ⟨_, rfl⟩

/-! ## Words of two memories -/

section
variable (hin : x.Inside) (h : Shm.Agree x.region.object x.InMapping s s') (ha : area < x.layout.areaCount)

include hin ha

/-- A word of a control block is in the mapping. -/
theorem Inside.word {base width k : Nat}
    (hwidth : base + width ≤ Layout.controlOffset area + Layout.blockSize) (hk : k < base + width) :
    x.InMapping k := by
  have hblock := hin.control area ha
  simp only [Layout.controlOffset] at hwidth hblock
  rw [Nat.succ_mul] at hblock
  exact Nat.lt_of_lt_of_le hk (by omega)

include h

theorem signal_agree : x.signal s' area = x.signal s area := by
  unfold signal Shm.word32
  rw [h.bytes_eq fun k _ => hin.word ha (by simp [Layout.signalOffset, Layout.blockSize])]

theorem segment_agree : x.segment s' area = x.segment s area := by
  unfold segment Shm.word64
  rw [h.bytes_eq fun k _ => hin.word ha (by simp [Layout.segmentOffset, Layout.blockSize])]

theorem payloadLength_agree : x.payloadLength s' area = x.payloadLength s area := by
  unfold payloadLength Shm.word64
  rw [h.bytes_eq fun k _ => hin.word ha (by simp [Layout.lengthOffset, Layout.blockSize])]

end

end Exchange

namespace Peer

variable {p : Peer} {d : Descriptor} {dir : Direction} {data : Bytes} {s s' : Shm} {manager : String} {shm : Shm}

/-! ## What a peer reads and writes -/

section
variable (hin : p.exchange.Inside)

include hin

theorem claim_agree (h : Shm.Agree p.exchange.region.object p.exchange.InMapping s s') (d : Descriptor)
    (dir : Direction) : (p.claim d dir s').1 = (p.claim d dir s).1 ∧
      Shm.Agree p.exchange.region.object p.exchange.InMapping (p.claim d dir s).2 (p.claim d dir s').2 := by
  unfold claim
  split
  · exact ⟨rfl, h⟩
  cases hl : p.exchange.locate d with
  | error e => exact ⟨rfl, h⟩
  | ok area =>
    have ha := (Exchange.locate_eq_ok hl).1
    have hmoved : Shm.Agree p.exchange.region.object p.exchange.InMapping
        (p.exchange.setSignal area dir.copying s) (p.exchange.setSignal area dir.copying s') := h.store _ _
    simp only [Exchange.signal_agree hin h ha, Exchange.segment_agree hin hmoved ha]
    split
    · exact ⟨rfl, h⟩
    split
    · exact ⟨rfl, hmoved.store _ _⟩
    · exact ⟨rfl, hmoved⟩

/-- A delivery reads and writes in the mapping. -/
theorem deliver_confined (d : Descriptor) (data : Bytes) :
    Shm.Confines p.exchange.region.object p.exchange.InMapping (p.deliver d data) where
  writes s hx := by
    cases hd : p.deliver d data s with
    | mk answer s' =>
      cases answer with
      | error e => exact (deliver_error hx hd).mono fun _ => False.elim
      | ok u =>
        obtain ⟨area, hdel⟩ := deliver_ok hx hd
        refine hdel.patch.mono fun k hk => ?_
        rcases hk with hk | hk
        · exact Nat.lt_of_lt_of_le hk.2 (hin.control area hdel.claims.lt)
        · exact Nat.lt_of_lt_of_le hk.2 hdel.inside
  reads s s' h := by
    obtain ⟨hanswer, hafter⟩ := claim_agree hin h d .inbound
    unfold deliver
    cases hc : p.claim d .inbound s with
    | mk answer t =>
      cases hc' : p.claim d .inbound s' with
      | mk answer' t' =>
        rw [hc, hc'] at hanswer hafter
        obtain rfl : answer' = answer := hanswer
        cases answer' with
        | error e => exact ⟨rfl, hafter⟩
        | ok area =>
          simp only [Shm.write_eq]
          by_cases hsize : d.size < data.length
          · simp only [if_pos hsize]
            exact ⟨trivial, hafter.store _ _⟩
          by_cases hinside : p.exchange.layout.areaOffset area + data.length ≤ p.exchange.region.size
          · simp only [if_neg hsize, if_pos hinside]
            exact ⟨trivial, ((hafter.store _ _).store _ _).store _ _⟩
          · simp only [if_neg hsize, if_neg hinside]
            exact ⟨trivial, hafter.store _ _⟩

/-- So does a collection. -/
theorem collect_confined (d : Descriptor) :
    Shm.Confines p.exchange.region.object p.exchange.InMapping (p.collect d) where
  writes s hx := by
    cases hc : p.collect d s with
    | mk answer s' =>
      cases answer with
      | error e => exact (collect_error hx hc).mono fun _ => False.elim
      | ok data =>
        obtain ⟨area, hcol⟩ := collect_ok hx hc
        exact hcol.patch.mono fun k hk => Nat.lt_of_lt_of_le hk.2 (hin.control area hcol.claims.lt)
  reads s s' h := by
    obtain ⟨hanswer, hafter⟩ := claim_agree hin h d .outbound
    unfold collect
    cases hc : p.claim d .outbound s with
    | mk answer t =>
      cases hc' : p.claim d .outbound s' with
      | mk answer' t' =>
        rw [hc, hc'] at hanswer hafter
        obtain rfl : answer' = answer := hanswer
        cases answer' with
        | error e => exact ⟨rfl, hafter⟩
        | ok area =>
          simp only [Exchange.payloadLength_agree hin hafter (claim_ok hc).1.lt, Shm.read_eq]
          by_cases hinside : p.exchange.layout.areaOffset area + p.exchange.payloadLength t area ≤
              p.exchange.region.size
          · have hbytes := hafter.bytes_eq (r := p.exchange.region) fun k _ hk =>
              Nat.lt_of_lt_of_le hk hinside
            simp only [if_pos hinside, hbytes]
            exact ⟨trivial, hafter.store _ _⟩
          · simp only [if_neg hinside]
            exact ⟨trivial, hafter.store _ _⟩

end

/-! ## Descriptors that name no area -/

section
variable (hd : ∀ area, area < p.exchange.layout.areaCount → d.kind ≠ .cache (p.exchange.layout.locator area))

include hd

theorem claim_unlocated (dir : Direction) (shm : Shm) :
    ∃ why, p.claim d dir shm = (.error (.invalidDescriptor why), shm) := by
  obtain ⟨why, hl⟩ := Exchange.locate_error hd
  unfold claim
  split
  · exact ⟨_, rfl⟩
  · rw [hl]
    exact ⟨why, rfl⟩

theorem deliver_unlocated (data : Bytes) (shm : Shm) :
    ∃ why, p.deliver d data shm = (.error (.invalidDescriptor why), shm) := by
  obtain ⟨why, hc⟩ := claim_unlocated hd .inbound shm
  unfold deliver
  rw [hc]
  exact ⟨why, rfl⟩

theorem collect_unlocated (shm : Shm) :
    ∃ why, p.collect d shm = (.error (.invalidDescriptor why), shm) := by
  obtain ⟨why, hc⟩ := claim_unlocated hd .outbound shm
  unfold collect
  rw [hc]
  exact ⟨why, rfl⟩

end

/-! ## A peer that has mapped a region -/

/-- What holds of a peer that has mapped a region, whoever has written it. -/
structure Guarded (p : Peer) : Prop where
  areaCount_pos : 0 < p.exchange.layout.areaCount
  areaSize_pos : 0 < p.exchange.layout.areaSize
  /-- All that the header announces lies in the mapping. -/
  inside : p.exchange.Inside
  /-- An area is named by its two offsets, and by nothing else. -/
  located : ∀ d area, p.exchange.locate d = .ok area ↔ area < p.exchange.layout.areaCount ∧
    d.kind = .cache (.area (p.exchange.layout.areaOffset area) (Layout.signalOffset area))
  /-- What names none is refused, and nothing is done. -/
  refused : ∀ d, (∀ area, area < p.exchange.layout.areaCount →
      d.kind ≠ .cache (p.exchange.layout.locator area)) → ∀ shm,
    (∀ data, ∃ why, p.deliver d data shm = (.error (.invalidDescriptor why), shm)) ∧
      ∃ why, p.collect d shm = (.error (.invalidDescriptor why), shm)
  /-- Whatever else is presented, and whatever memory is like by then, only the mapping is looked
  at and changed. -/
  deliver : ∀ d data, Shm.Confines p.exchange.region.object p.exchange.InMapping (p.deliver d data)
  collect : ∀ d, Shm.Confines p.exchange.region.object p.exchange.InMapping (p.collect d)

theorem Mapped.guarded (h : p.Mapped manager shm) : p.Guarded := by
  have hin := Exchange.inside_of_total h.total_le
  refine ⟨h.areaCount_pos, h.areaSize_pos, hin, fun d area => Exchange.locate_iff h.areaSize_pos,
    fun d hd shm => ⟨fun data => ?_, ?_⟩, deliver_confined hin, collect_confined hin⟩
  · exact deliver_unlocated hd data shm
  · exact collect_unlocated hd shm

/-- The header of the region passes for one of an exchange region, and announces areas that need
more bytes than a 64-bit number counts. -/
structure Overflows (r : Region) (shm : Shm) : Prop where
  header : Layout.blockSize ≤ r.size
  mark : shm.word64 r Layout.markOffset = Exchange.mark
  areaCount_pos : 0 < (Exchange.announced r shm).areaCount
  areaSize_pos : 0 < (Exchange.announced r shm).areaSize
  wide : wordRange ≤ (Exchange.announced r shm).totalBytes

theorem attach_overflow_iff {r : Region} (hr : shm.attach (cacheRegionName manager) = .ok r) :
    attach manager shm = .error (.overflow .sum) ↔ Overflows r shm := by
  rw [attach_region hr]
  constructor
  · intro h
    split at h
    · cases h
    rename_i hheader
    split at h
    · cases h
    rename_i hmark
    split at h
    · cases h
    rename_i hempty
    split at h
    · rename_i hwide
      obtain ⟨hcount, hsize⟩ := not_or.mp hempty
      exact ⟨Nat.le_of_not_lt hheader, Decidable.not_not.mp hmark, Nat.pos_of_ne_zero hcount,
        Nat.pos_of_ne_zero hsize, hwide⟩
    · split at h <;> cases h
  · rintro ⟨hheader, hmark, hcount, hsize, hwide⟩
    rw [if_neg (Nat.not_lt.mpr hheader), if_neg (not_not_intro hmark),
      if_neg (not_or.mpr ⟨Nat.ne_of_gt hcount, Nat.ne_of_gt hsize⟩), if_pos hwide]

/-- Mapping is refused with an answer, but for the one overflow. -/
theorem attach_error {e : Error} (h : attach manager shm = .error e) : ¬e.Panics ∨ e = .overflow .sum := by
  cases hr : shm.attach (cacheRegionName manager) with
  | error e' =>
    unfold attach Exchange.attach at h
    rw [hr] at h
    obtain rfl := Except.error.inj h
    exact Or.inl (Shm.attach_error hr)
  | ok r =>
    rw [attach_region hr] at h
    split at h
    · rw [← Except.error.inj h]
      exact Or.inl not_false
    split at h
    · rw [← Except.error.inj h]
      exact Or.inl not_false
    split at h
    · rw [← Except.error.inj h]
      exact Or.inl not_false
    split at h
    · exact Or.inr (Except.error.inj h).symm
    split at h
    · rw [← Except.error.inj h]
      exact Or.inl not_false
    · cases h

/-- **Regions that anybody has written.** Whatever is under the name of the exchange region, a peer
is refused it, or has mapped all of it, with areas that are neither none nor empty and lie in the
mapping. From then on, whatever descriptors and payloads are presented and whatever happens to
the bytes, it refuses descriptors that do not name an area and keeps to the mapping. Only where
the announced length has more than 64 bits there is no answer. -/
theorem attach_guarded (manager : String) (shm : Shm) :
    (∀ e, attach manager shm = .error e → ¬e.Panics ∨ e = .overflow .sum) ∧
      (attach manager shm = .error (.overflow .sum) ↔
        ∃ r, shm.attach (cacheRegionName manager) = .ok r ∧ Overflows r shm) ∧
      ∀ p, attach manager shm = .ok p → p.manager = manager ∧
        shm.names.get? (cacheRegionName manager) = some p.exchange.region.object ∧
        p.exchange.region.size = (shm.object p.exchange.region.object).size ∧ p.Guarded := by
  refine ⟨fun e => attach_error, ⟨fun h => ?_, ?_⟩, fun p h => ?_⟩
  · cases hr : shm.attach (cacheRegionName manager) with
    | error e =>
      unfold attach Exchange.attach at h
      rw [hr] at h
      obtain rfl := Except.error.inj h
      exact absurd trivial (Shm.attach_error hr)
    | ok r => exact ⟨r, rfl, (attach_overflow_iff hr).mp h⟩
  · rintro ⟨r, hr, hover⟩
    exact (attach_overflow_iff hr).mpr hover
  · have hm := attach_ok h
    exact ⟨hm.own, hm.named, hm.sized, hm.guarded⟩

/-- The memory with a region of two areas of eight bytes. -/
def servedMemory : Shm := (Exchange.create "m" ⟨2, 8⟩ .empty).2

/-- What a peer finds there. -/
def serving : Peer := ⟨"m", ⟨⟨"m#cachbin", 0, 208, none⟩, ⟨2, 8⟩⟩⟩

theorem attach_of_two_areas : attach "m" servedMemory = .ok serving ∧ serving.Guarded := by
  have h : attach "m" servedMemory = .ok serving := by rfl
  obtain ⟨-, -, hguarded⟩ := attach_guarded "m" servedMemory
  exact ⟨h, (hguarded serving h).2.2.2⟩

/-! ### A length of more than 64 bits

The header announces 2^32 - 1 areas of 2^32 - 63 bytes. With their control blocks they need 2^64 + 63
bytes, and the region has 64. -/

/-- The mapping of whoever made that region. -/
def forgedRegion : Region := ⟨"m#cachbin", 0, 64, some 0⟩

/-- The memory with that region. -/
def forgedMemory : Shm :=
  (Shm.setWord32 · forgedRegion Layout.areaSizeOffset (halfRange - 63)) <|
    (Shm.setWord32 · forgedRegion Layout.areaCountOffset (halfRange - 1)) <|
      Shm.setWord64 (Shm.empty.create "m#cachbin" 64).2 forgedRegion Layout.markOffset Exchange.mark

/-- The areas need far more than the mapping has, and the peer is not refused but has no answer. -/
theorem attach_overflows : attach "m" forgedMemory = .error (.overflow .sum) ∧
    (Error.overflow .sum).Panics ∧ forgedRegion.size = 64 ∧
    forgedRegion.size < (Exchange.announced forgedRegion forgedMemory).totalBytes := by
  have hannounced : Exchange.announced forgedRegion forgedMemory = ⟨halfRange - 1, halfRange - 63⟩ := by
    decide +kernel
  refine ⟨by rfl, trivial, rfl, ?_⟩
  rw [hannounced]
  decide

end Peer
end TierAlloc
