import TierAlloc.Proofs.Exchange.Words

/-!
# What a peer does to an exchange region

A peer maps what is under the name of the region, if its header is in order. One that
succeeds after that has moved one area on, from waiting to done, and has stored in its words
and its data alone; a peer that fails has done nothing.

**Results.**
* `attach_region`, `attach_ok`: which regions are mapped, and as what.
* `claim_ok`, `claim_error`: the area of a descriptor is claimed, or nothing is.
* `deliver_ok`, `collect_ok`: the payload that was moved.
* `deliver_error`, `collect_error`: all bytes are as they were.
-/
namespace TierAlloc

namespace Layout

/-- The offsets of a locator name one area. -/
theorem areaAt?_eq_some {l : Layout} {data signal area : Nat}
    (h : l.areaAt? data signal = some area) :
    area < l.areaCount ∧ data = l.areaOffset area ∧ signal = signalOffset area := by
  unfold areaAt? at h
  simp only [Option.ite_none_right_eq_some, Option.some.injEq] at h
  obtain ⟨⟨hstart, hmod, hlt, hsignal⟩, rfl⟩ := h
  refine ⟨hlt, ?_, hsignal.symm⟩
  have := Nat.div_add_mod' (data - l.dataStart) l.areaSize
  unfold areaOffset
  omega

theorem areaAt?_locator {l : Layout} {area : Nat} (h : area < l.areaCount) (hs : 0 < l.areaSize) :
    l.areaAt? (l.areaOffset area) (signalOffset area) = some area := by
  have he : (l.areaOffset area - l.dataStart) = area * l.areaSize := by
    unfold areaOffset
    omega
  unfold areaAt?
  rw [he, Nat.mul_div_cancel _ hs, if_pos]
  exact ⟨Exchange.dataStart_le_areaOffset l area, Nat.mul_mod_left .., h, rfl⟩

end Layout

namespace Exchange

theorem locate_eq_ok {x : Exchange} {d : Descriptor} {area : Nat} (h : x.locate d = .ok area) :
    area < x.layout.areaCount ∧ d.kind = .cache (x.layout.locator area) := by
  unfold locate at h
  split at h
  · rename_i data signal hkind
    split at h
    · rename_i b hb
      injection h with h
      subst h
      obtain ⟨hlt, rfl, rfl⟩ := Layout.areaAt?_eq_some hb
      exact ⟨hlt, hkind⟩
    · cases h
  · cases h

variable {x : Exchange} {shm : Shm}

/-- Moving a signal word on and back again is doing nothing. -/
theorem patch_restore (hx : x.region.object < shm.objects.size) {area n : Nat}
    (hn : x.signal shm area = n) (m : Nat) :
    Shm.Patch x.region.object (fun _ => False) shm (x.setSignal area n (x.setSignal area m shm)) := by
  have hp : Shm.Patch x.region.object
      (fun k => Layout.signalOffset area ≤ k ∧ k < Layout.signalOffset area + 4) shm
      (x.setSignal area n (x.setSignal area m shm)) := by
    have hset : ∀ (s : Shm) (n : Nat), Shm.Patch x.region.object
        (fun k => Layout.signalOffset area ≤ k ∧ k < Layout.signalOffset area + 4) s
        (x.setSignal area n s) := by
      intro s n
      refine (s.patch_store _ _ _).mono fun k hk => ?_
      rwa [Bytes.length_ofNat] at hk
    exact (hset shm m).trans (hset _ n)
  refine hp.of_bytes_eq (Bytes.toNat_inj (by simp [Shm.bytes]) ?_)
  have hlt : n < halfRange := by
    rw [← hn]
    exact shm.word32_lt _ _
  have := Shm.word32_setWord32 (x.setSignal area m shm) (r := x.region)
    (by simpa using hx) (Layout.signalOffset area) n
  rw [Nat.mod_eq_of_lt hlt] at this
  exact this.trans hn.symm

end Exchange

namespace Peer

variable {p : Peer} {d : Descriptor} {dir : Direction} {shm shm' : Shm} {manager : String}

/-! ## Mapping the region -/

/-- What becomes of a region that is there: its header decides. -/
theorem attach_region {r : Region} (hr : shm.attach (cacheRegionName manager) = .ok r) :
    attach manager shm =
      if r.size < Layout.blockSize then .error (.invalidDescriptor (.truncatedExchange manager))
      else if shm.word64 r Layout.markOffset ≠ Exchange.mark then
        .error (.invalidDescriptor (.noExchange manager))
      else if (Exchange.announced r shm).areaCount = 0 ∨ (Exchange.announced r shm).areaSize = 0 then
        .error (.invalidDescriptor (.exchangeGeometry manager))
      else if wordRange ≤ (Exchange.announced r shm).totalBytes then .error (.overflow .sum)
      else if r.size < (Exchange.announced r shm).totalBytes then
        .error (.invalidDescriptor (.exchangeGeometry manager))
      else .ok ⟨manager, ⟨r, Exchange.announced r shm⟩⟩ := by
  unfold attach Exchange.attach
  simp only [hr, bind, Except.bind, pure, Except.pure]
  by_cases hheader : r.size < Layout.blockSize
  · simp only [if_pos hheader]
  by_cases hmark : shm.word64 r Layout.markOffset ≠ Exchange.mark
  · simp only [if_neg hheader, if_pos hmark]
  by_cases hempty : (Exchange.announced r shm).areaCount = 0 ∨ (Exchange.announced r shm).areaSize = 0
  · simp only [if_neg hheader, if_neg hmark, if_pos hempty]
  simp only [if_neg hheader, if_neg hmark, if_neg hempty]
  by_cases hwide : wordRange ≤ (Exchange.announced r shm).totalBytes
  · have hcount : (Exchange.announced r shm).areaCount < halfRange := shm.word32_lt r _
    have hsize : (Exchange.announced r shm).areaSize < halfRange := shm.word32_lt r _
    simp only [Layout.total_of_wide hcount hsize hwide, if_pos hwide]
  simp only [Layout.total_of_lt (Nat.not_le.mp hwide), if_neg hwide]
  by_cases hlong : r.size < (Exchange.announced r shm).totalBytes
  · simp only [if_pos hlong]
  · simp only [if_neg hlong]

/-- What a peer that maps the region of `manager` has found. -/
structure Mapped (p : Peer) (manager : String) (shm : Shm) : Prop where
  own : p.manager = manager
  named : shm.names.get? (cacheRegionName manager) = some p.exchange.region.object
  sized : p.exchange.region.size = (shm.object p.exchange.region.object).size
  layout : p.exchange.layout = Exchange.announced p.exchange.region shm
  header : Layout.blockSize ≤ p.exchange.region.size
  areaCount_pos : 0 < p.exchange.layout.areaCount
  areaSize_pos : 0 < p.exchange.layout.areaSize
  total_lt : p.exchange.layout.totalBytes < wordRange
  total_le : p.exchange.layout.totalBytes ≤ p.exchange.region.size

theorem attach_ok (h : attach manager shm = .ok p) : p.Mapped manager shm := by
  cases hr : shm.attach (cacheRegionName manager) with
  | error e =>
    unfold attach Exchange.attach at h
    rw [hr] at h
    cases h
  | ok r =>
    obtain ⟨hnamed, -, hsize, -⟩ := Shm.attach_ok hr
    rw [attach_region hr] at h
    split at h
    · cases h
    rename_i hheader
    split at h
    · cases h
    split at h
    · cases h
    rename_i hempty
    split at h
    · cases h
    rename_i hwide
    split at h
    · cases h
    rename_i hlong
    obtain rfl := Except.ok.inj h
    obtain ⟨hcount, hsizes⟩ := not_or.mp hempty
    exact ⟨rfl, hnamed, hsize, rfl, Nat.le_of_not_lt hheader, Nat.pos_of_ne_zero hcount,
      Nat.pos_of_ne_zero hsizes, Nat.not_le.mp hwide, Nat.le_of_not_lt hlong⟩

/-! ## Moving an area on -/

/-- What a peer checks before it copies: the descriptor is of its manager and names
an area, and that area waits in this direction, for this segment. -/
structure Claims (p : Peer) (d : Descriptor) (dir : Direction) (shm : Shm) (area : Nat) : Prop where
  manager : d.manager = p.manager
  lt : area < p.exchange.layout.areaCount
  kind : d.kind = .cache (p.exchange.layout.locator area)
  signal : p.exchange.signal shm area = dir.waiting
  segment : p.exchange.segment shm area = d.id

theorem claim_ok {area : Nat} (h : p.claim d dir shm = (.ok area, shm')) :
    p.Claims d dir shm area ∧ shm' = p.exchange.setSignal area dir.copying shm := by
  unfold claim at h
  split at h
  · cases h
  rename_i hm
  split at h
  · cases h
  rename_i b hb
  split at h
  · cases h
  rename_i hw
  simp only at h
  split at h
  · cases h
  rename_i hs
  simp only [Prod.mk.injEq, Except.ok.injEq] at h
  obtain ⟨rfl, rfl⟩ := h
  obtain ⟨hlt, hkind⟩ := Exchange.locate_eq_ok hb
  refine ⟨⟨Decidable.not_not.mp hm, hlt, hkind, Decidable.not_not.mp hw, ?_⟩, rfl⟩
  rw [← Exchange.segment_setSignal]
  exact Decidable.not_not.mp hs

/-- A claim that is refused leaves the region as it was. -/
theorem claim_error (hx : p.exchange.region.object < shm.objects.size) {e : Error}
    (h : p.claim d dir shm = (.error e, shm')) :
    Shm.Patch p.exchange.region.object (fun _ => False) shm shm' := by
  unfold claim at h
  split at h
  · rw [← (Prod.mk.inj h).2]
    exact .refl ..
  split at h
  · rw [← (Prod.mk.inj h).2]
    exact .refl ..
  split at h
  · rw [← (Prod.mk.inj h).2]
    exact .refl ..
  rename_i hw
  simp only at h
  split at h
  · rw [← (Prod.mk.inj h).2]
    exact Exchange.patch_restore hx (Decidable.not_not.mp hw) _
  · cases (Prod.mk.inj h).1

/-- What a delivery that succeeds has checked and done. -/
structure Delivered (p : Peer) (d : Descriptor) (data : Bytes) (shm shm' : Shm) (area : Nat) :
    Prop where
  claims : p.Claims d .inbound shm area
  length_le : data.length ≤ d.size
  inside : p.exchange.layout.areaOffset area + data.length ≤ p.exchange.region.size
  patch : Shm.Patch p.exchange.region.object
    (fun k => Exchange.InControl area k ∨ p.exchange.layout.areaOffset area ≤ k ∧
      k < p.exchange.layout.areaOffset area + data.length) shm shm'
  words : p.exchange.words shm' area = ⟨p.exchange.lock shm area, Signal.dataReady,
    data.length % wordRange, p.exchange.segment shm area⟩
  bytes : shm'.bytes p.exchange.region (p.exchange.layout.areaOffset area) data.length = data

theorem deliver_ok (hx : p.exchange.region.object < shm.objects.size) {data : Bytes}
    (h : p.deliver d data shm = (.ok (), shm')) : ∃ area, p.Delivered d data shm shm' area := by
  unfold deliver at h
  split at h
  · cases h
  rename_i area shm₁ hc
  obtain ⟨hclaims, rfl⟩ := claim_ok hc
  have hx₁ : p.exchange.region.object <
      (p.exchange.setSignal area Direction.inbound.copying shm).objects.size := by simpa using hx
  simp only [Shm.write_eq] at h
  split at h
  · cases h
  rename_i shm₂ hw
  by_cases hd : d.size < data.length
  · rw [if_pos hd] at hw
    cases hw
  by_cases hr : p.exchange.layout.areaOffset area + data.length ≤ p.exchange.region.size
  · rw [if_neg hd, if_pos hr] at hw
    injection hw with hw
    subst hw
    obtain rfl := (Prod.mk.inj h).2.symm
    have hstart := Exchange.dataStart_le_areaOffset p.exchange.layout area
    refine ⟨area, hclaims, by omega, hr, ?_, ?_, ?_⟩
    · refine ((p.exchange.patch_setSignal area Direction.inbound.copying shm).mono
        fun k hk => Or.inl hk).trans ?_
      refine ((Shm.patch_store _ _ _ _).mono fun k hk => Or.inr hk).trans ?_
      refine ((p.exchange.patch_setPayloadLength area data.length _).mono
        fun k hk => Or.inl hk).trans ?_
      exact (p.exchange.patch_setSignal area _ _).mono fun k hk => Or.inl hk
    · rw [Exchange.words_setSignal (by simpa using hx), Exchange.words_setPayloadLength (by simpa using hx),
        Function.update_self, Function.update_self, Exchange.words_store_data _ hstart hclaims.lt,
        Exchange.words_setSignal hx, Function.update_self]
      rfl
    · rw [Exchange.data_eq_of_control hclaims.lt (p.exchange.patch_setSignal area _ _),
        Exchange.data_eq_of_control hclaims.lt (p.exchange.patch_setPayloadLength area _ _)]
      exact Shm.bytes_store _ hx₁ _ _
  · rw [if_neg hd, if_neg hr] at hw
    cases hw

/-- A delivery that fails leaves the region as it was. -/
theorem deliver_error (hx : p.exchange.region.object < shm.objects.size) {data : Bytes} {e : Error}
    (h : p.deliver d data shm = (.error e, shm')) :
    Shm.Patch p.exchange.region.object (fun _ => False) shm shm' := by
  unfold deliver at h
  split at h
  · rename_i hc
    rw [← (Prod.mk.inj h).2]
    exact claim_error hx hc
  rename_i area shm₁ hc
  obtain ⟨hclaims, rfl⟩ := claim_ok hc
  simp only at h
  split at h
  · rw [← (Prod.mk.inj h).2]
    exact Exchange.patch_restore hx hclaims.signal _
  · cases (Prod.mk.inj h).1

/-- What a collection that succeeds has checked and done. -/
structure Collected (p : Peer) (d : Descriptor) (data : Bytes) (shm shm' : Shm) (area : Nat) :
    Prop where
  claims : p.Claims d .outbound shm area
  patch : Shm.Patch p.exchange.region.object (Exchange.InControl area) shm shm'
  words : p.exchange.words shm' area = ⟨p.exchange.lock shm area, Signal.consumed,
    p.exchange.payloadLength shm area, p.exchange.segment shm area⟩
  data_eq : data = shm.bytes p.exchange.region (p.exchange.layout.areaOffset area)
    (p.exchange.payloadLength shm area)

theorem collect_ok (hx : p.exchange.region.object < shm.objects.size) {data : Bytes}
    (h : p.collect d shm = (.ok data, shm')) : ∃ area, p.Collected d data shm shm' area := by
  unfold collect at h
  split at h
  · cases h
  rename_i area shm₁ hc
  obtain ⟨hclaims, rfl⟩ := claim_ok hc
  simp only [Shm.read_eq] at h
  split at h
  · cases h
  rename_i bytes hb
  simp only [Prod.mk.injEq, Except.ok.injEq] at h
  obtain ⟨rfl, rfl⟩ := h
  refine ⟨area, hclaims, ?_, ?_, ?_⟩
  · exact (p.exchange.patch_setSignal area Direction.outbound.copying shm).trans
      (p.exchange.patch_setSignal area _ _)
  · rw [Exchange.words_setSignal (by simpa using hx), Function.update_self, Exchange.words_setSignal hx,
      Function.update_self]
    rfl
  · split at hb
    · have hb := Except.ok.inj hb
      rw [Exchange.length_setSignal] at hb
      exact hb.symm.trans (Exchange.data_eq_of_control hclaims.lt
        (p.exchange.patch_setSignal area Direction.outbound.copying shm) area _)
    · exact nomatch hb

/-- A collection that fails leaves the region as it was. -/
theorem collect_error (hx : p.exchange.region.object < shm.objects.size) {e : Error}
    (h : p.collect d shm = (.error e, shm')) :
    Shm.Patch p.exchange.region.object (fun _ => False) shm shm' := by
  unfold collect at h
  split at h
  · rename_i hc
    rw [← (Prod.mk.inj h).2]
    exact claim_error hx hc
  rename_i area shm₁ hc
  obtain ⟨hclaims, rfl⟩ := claim_ok hc
  simp only at h
  split at h
  · rw [← (Prod.mk.inj h).2]
    exact Exchange.patch_restore hx hclaims.signal _
  · cases (Prod.mk.inj h).1

end Peer

end TierAlloc
