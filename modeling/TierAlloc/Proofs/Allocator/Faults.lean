import Mathlib.Data.Nat.Digits.Defs
import TierAlloc.Proofs.Allocator.Blame
import TierAlloc.Proofs.Allocator.Managers

/-!
# Faults of the configuration

The configuration of an allocator is checked when the allocator is made, and most of what
can be wrong with it is found then. What is not found is a name that is too long: the names
of regions grow with the numbers in them, and each is looked at only when its region is
made. So requests may be refused because of the configuration long afterwards, a request for
chunks when it needs a batch more, and one for a region of its own. These are the only
operations that are, and only by such a name.

**Results.**
* `validName_static`, `validName_ephemeral`: which names of a manager are usable.
* `Allocator.staticAlloc_fault`, `Allocator.instantAlloc_fault`: the requests that are refused so.
* `faults_located`: of all operations in all states that are reached.
* `eleventh_chunk_refused`: a manager with a long name, whose tenth further batch cannot be made.
-/
namespace TierAlloc

/-! ## Names of regions -/

/-- No character of the text stops it from being part of the name of a region. -/
def Spelled (text : String) : Prop := '/' ∉ text.toList ∧ '\x00' ∉ text.toList

theorem validName_iff {name : String} :
    Shm.validName name = true ↔ name ≠ "" ∧ name.utf8ByteSize ≤ regionNameLimit ∧ Spelled name := by
  unfold Shm.validName Spelled
  simp only [Bool.and_eq_true, Bool.not_eq_true', decide_eq_true_eq, List.contains_eq_mem,
    decide_eq_false_iff_not, and_assoc]
  rw [← Bool.not_eq_true, String.isEmpty_iff]

variable {m : String} {i : Nat}

/-- Digits can be part of a name. -/
theorem spelled_toString (n : Nat) : Spelled (toString n) := by
  constructor <;> intro h <;> exact absurd (isDigit_of_mem_toString h) (by decide)

theorem Spelled.append {s t : String} : Spelled (s ++ t) ↔ Spelled s ∧ Spelled t := by
  unfold Spelled
  simp only [String.toList_append, List.mem_append, not_or]
  exact and_and_and_comm

theorem spelled_static : Spelled (staticRegionName m i) ↔ Spelled m := by
  unfold staticRegionName
  have hmarks : Spelled "#batch" ∧ Spelled "#statbin" := by
    unfold Spelled
    decide
  simp only [Spelled.append, spelled_toString, hmarks, and_true]

theorem spelled_ephemeral : Spelled (ephemeralRegionName m i) ↔ Spelled m := by
  unfold ephemeralRegionName
  have hmark : Spelled "#instbin#seg" := by
    unfold Spelled
    decide
  simp only [Spelled.append, spelled_toString, hmark, and_true]

/-- A name without a slash or a NUL is usable if it is not too long. -/
theorem validName_of_spelled {name : String} (hne : name ≠ "") (hs : Spelled name) :
    Shm.validName name = true ↔ name.utf8ByteSize ≤ regionNameLimit :=
  validName_iff.trans ⟨fun h => h.2.1, fun h => ⟨hne, h, hs⟩⟩

theorem validName_static (hm : Spelled m) : Shm.validName (staticRegionName m i) = true ↔
    (staticRegionName m i).utf8ByteSize ≤ regionNameLimit :=
  validName_of_spelled (by simp [staticRegionName]) (spelled_static.mpr hm)

theorem validName_ephemeral (hm : Spelled m) : Shm.validName (ephemeralRegionName m i) = true ↔
    (ephemeralRegionName m i).utf8ByteSize ≤ regionNameLimit :=
  validName_of_spelled (by simp [ephemeralRegionName]) (spelled_ephemeral.mpr hm)

/-- Where every character takes one byte. -/
theorem size_ofList {l : List Char} (hl : ∀ c ∈ l, c.utf8Size = 1) : (String.ofList l).utf8ByteSize = l.length := by
  induction l with
  | nil => rfl
  | cons c l ih =>
    obtain ⟨hc, hl⟩ := List.forall_mem_cons.mp hl
    rw [String.ofList_cons, String.utf8ByteSize_append, String.utf8ByteSize_singleton, ih hl, hc,
      List.length_cons, Nat.add_comm]

theorem size_toString_le {n k : Nat} (hk : 0 < k) (hn : n < 10 ^ k) : (toString n).utf8ByteSize ≤ k := by
  have hdigit : ∀ c ∈ (toString n).toList, c.utf8Size = 1 := by
    intro c hc
    have hd := isDigit_of_mem_toString hc
    unfold Char.isDigit at hd
    rw [Bool.and_eq_true, decide_eq_true_eq, decide_eq_true_eq] at hd
    exact Char.utf8Size_eq_one_iff.mpr (UInt32.le_trans hd.2 (by decide))
  have hsize := size_ofList hdigit
  rw [String.ofList_toList] at hsize
  rw [hsize, Nat.toString_eq_repr, Nat.toList_repr]
  exact Nat.toDigits_length 10 n k hk hn

theorem size_static : (staticRegionName m i).utf8ByteSize = m.utf8ByteSize + (toString i).utf8ByteSize + 14 := by
  have hmarks : "#batch".utf8ByteSize = 6 ∧ "#statbin".utf8ByteSize = 8 := by decide
  simp only [staticRegionName, String.utf8ByteSize_append, hmarks]
  omega

theorem size_ephemeral :
    (ephemeralRegionName m i).utf8ByteSize = m.utf8ByteSize + (toString i).utf8ByteSize + 12 := by
  have hmark : "#instbin#seg".utf8ByteSize = 12 := by decide
  simp only [ephemeralRegionName, String.utf8ByteSize_append, hmark]
  omega

/-! ## Requests that need a region -/

/-- The name is too long for a region. -/
def Overlong (name : String) : Prop := regionNameLimit < name.utf8ByteSize

variable {shm shm₁ : Shm} {fault : ConfigFault} {n : Nat}

theorem Shm.create_fault {name : String} : (shm.create name n).1 = .error (.invalidConfig fault) ↔
    0 < n ∧ ¬validName name = true ∧ fault = .regionName name := by
  unfold create
  split
  · rename_i hz
    exact ⟨fun h => absurd h (by simp), fun h => absurd hz (Nat.ne_of_gt h.1)⟩
  rename_i hpos
  split
  · rename_i hv
    have hv : ¬validName name = true := by simpa using hv
    constructor
    · intro h
      exact ⟨Nat.pos_of_ne_zero hpos, hv, (Error.invalidConfig.inj (Except.error.inj h)).symm⟩
    · rintro ⟨-, -, rfl⟩
      rfl
  · rename_i hv
    have hv : validName name = true := by simpa using hv
    refine ⟨fun h => ?_, fun h => absurd hv h.2.1⟩
    split at h
    · cases h
    · split at h <;> cases h

/-- A region of a usable name can be made while it is not too large. -/
theorem Shm.create_of_validName {name : String} (hname : validName name = true) (hpos : 0 < n)
    (hsize : n < regionSizeLimit) : ∃ r, (shm.create name n).1 = .ok r := by
  have hceiling : ¬regionSizeCeiling ≤ n := Nat.not_le.mpr (Nat.lt_trans hsize (by decide))
  unfold create
  rw [if_neg (Nat.ne_of_gt hpos), hname, if_neg (by decide), if_neg hceiling, if_neg (Nat.not_le.mpr hsize)]
  exact ⟨_, rfl⟩

theorem Ephemeral.serve_fault {m : Ephemeral} (hm : Spelled m.manager) :
    (m.serve i n shm).1 = .error (.invalidConfig fault) ↔
      0 < n ∧ Overlong (ephemeralRegionName m.manager i) ∧
        fault = .regionName (ephemeralRegionName m.manager i) := by
  have hcreate : (shm.create (ephemeralRegionName m.manager i) n).1 = .error (.invalidConfig fault) ↔ _ :=
    Shm.create_fault
  rw [validName_ephemeral hm, Nat.not_le] at hcreate
  refine Iff.trans ?_ hcreate
  unfold serve
  split
  · rename_i hz
    rw [Shm.create, if_pos hz]
    simp
  split
  · rename_i h
    rw [h]
    exact passed_iff
  · rename_i h
    rw [h]
    split <;> simp

/-- The first batch shows that the name of its manager can be part of a name. -/
theorem Batch.create_named {manager : String} {g : Geometry} {b : Batch}
    (h : create manager i g shm = (.ok b, shm₁)) : Spelled manager ∧ 0 < g.totalBytes := by
  unfold create at h
  split at h
  · cases h
  rename_i pools total hplan
  obtain ⟨-, -, -, rfl⟩ := plan_ok hplan
  split at h
  · cases h
  rename_i r shm₂ hc
  obtain ⟨-, -, hpos, -⟩ := Shm.create_ok hc
  refine ⟨?_, hpos⟩
  by_contra hm
  have hfault : (shm.create (staticRegionName manager i) g.totalBytes).1 =
      .error (.invalidConfig (.regionName (staticRegionName manager i))) := by
    refine Shm.create_fault.mpr ⟨hpos, fun hv => hm ?_, rfl⟩
    exact spelled_static.mp (validName_iff.mp hv).2.2
  rw [hc] at hfault
  cases hfault

/-- Where the plan is in order, only the region can be at fault. -/
theorem Batch.create_fault {manager : String} {g : Geometry} {pools : List Pool}
    (hplan : plan g = .ok (pools, g.totalBytes)) (hm : Spelled manager) (hg : 0 < g.totalBytes) :
    (create manager i g shm).1 = .error (.invalidConfig fault) ↔
      Overlong (staticRegionName manager i) ∧ fault = .regionName (staticRegionName manager i) := by
  have hcreate : (shm.create (staticRegionName manager i) g.totalBytes).1 = .error (.invalidConfig fault) ↔ _ :=
    Shm.create_fault
  rw [validName_static hm, Nat.not_le, and_iff_right hg] at hcreate
  refine Iff.trans ?_ hcreate
  unfold create
  rw [hplan]
  simp only
  split
  · rename_i h
    rw [h]
    exact passed_iff
  · rename_i h
    rw [h]
    simp

namespace Allocator

variable {a a' : Allocator} {config : Config} {e : Error} {ids : Counter}

/-- What the names of all regions of an allocator have in common. -/
structure Named (a : Allocator) : Prop where
  manager : a.ephemeral.manager = a.name
  spelled : Spelled a.name
  bytes : 0 < a.config.geometry.totalBytes

theorem named_create {shm₀ : Shm} (h : create config shm₀ = (.ok a, shm)) : a.Named := by
  obtain ⟨first, shm₁, cache, -, hb, -, rfl⟩ := create_ok h
  obtain ⟨hspelled, hbytes⟩ := Batch.create_named hb
  exact ⟨rfl, hspelled, hbytes⟩

theorem Named.becomes {l : Ledger} (h : a.Named) (hb : a.Becomes l a') : a'.Named := by
  refine ⟨?_, ?_, ?_⟩
  · rw [hb.ephemeral, name, hb.config, ← name, h.manager]
  · rw [name, hb.config]
    exact h.spelled
  · rw [hb.config]
    exact h.bytes

theorem staticAlloc_of_ungrown (hask : askBatches n a.batches a.ids = (.error (.noMemory n), ids))
    (hmade : Batch.create a.name a.batches.length a.config.geometry shm = (.error e, shm₁)) :
    a.staticAlloc n shm = (.error e, { a with ids }, shm₁) := by
  have hgrow : grow { a with ids } shm = (.error e, { a with ids }, shm₁) := by
    unfold grow
    rw [show Batch.create (name { a with ids }) a.batches.length a.config.geometry shm = _ from hmade]
  unfold staticAlloc
  rw [serveStatic_of_refused hask]
  simp only [hgrow]

/-- The tier has to grow for the request. -/
def Grows (a : Allocator) (n : Nat) : Prop :=
  0 < n ∧ n ≤ 8 * a.config.geometry.maxChunkSize ∧ ∀ b ∈ a.batches, ¬b.Room n

theorem staticAlloc_fault (hs : SoundBatches a.batches) (hnew : a.Unissued) (ht : a.Tiered config)
    (hm : a.Named) : (a.staticAlloc n shm).1 = .error (.invalidConfig fault) ↔
      a.Grows n ∧ Overlong (staticRegionName a.name a.batches.length) ∧
        fault = .regionName (staticRegionName a.name a.batches.length) := by
  have hanswer := staticAnswer hs hnew ht n shm
  have hconfig := ht.configured
  subst hconfig
  obtain ⟨pools, hplan⟩ := ht.planned
  have hanswered : ∀ answer, (a.staticAlloc n shm).1 = answer → Blameless answer →
      (a.staticAlloc n shm).1 ≠ .error (.invalidConfig fault) := by
    intro answer h hb hf
    rw [h] at hf
    exact hb fault hf
  by_cases hgrows : a.Grows n
  · obtain ⟨hn, hle, hfull⟩ := id hgrows
    obtain ⟨ids, hask⟩ := askBatches_of_full (ht.usable hs fun _ => id) hn hle hfull a.ids
    have hcreate : (Batch.create a.name a.batches.length a.config.geometry shm).1 =
        .error (.invalidConfig fault) ↔ _ := Batch.create_fault hplan hm.spelled hm.bytes
    rw [and_iff_right hgrows, ← hcreate]
    cases hmade : Batch.create a.name a.batches.length a.config.geometry shm with
    | mk made shm₁ =>
      cases made with
      | error e =>
        rw [staticAlloc_of_ungrown hask hmade]
        exact passed_iff
      | ok b =>
        rw [staticAlloc_of_grown hask hmade]
        exact ⟨fun he => absurd he (blameless_serveStatic _ _ _ _ fault), fun he => absurd he (by simp)⟩
  · refine ⟨fun h => absurd h ?_, fun h => absurd h.1 hgrows⟩
    rcases Nat.eq_zero_or_pos n with hz | hn
    · exact hanswered _ (hanswer.zero hz).1 (by simp)
    rcases Nat.lt_or_ge (8 * a.config.geometry.maxChunkSize) n with hgt | hle
    · exact hanswered _ (hanswer.oversized hgt).1 (by simp)
    -- The first batch with room serves the request.
    have hroom : ∃ i b, a.batch? i = some b ∧ b.Room n := by
      by_contra hnone
      refine hgrows ⟨hn, hle, fun b hb hroom => hnone ?_⟩
      obtain ⟨i, hi⟩ := List.getElem?_of_mem hb
      exact ⟨i, b, hi, hroom⟩
    classical
    obtain ⟨b, hb, hfits⟩ := Nat.find_spec hroom
    obtain ⟨⟨s, hs, -⟩, -⟩ := hanswer.served hn hle _ b hb hfits fun j c hj hc hr =>
      Nat.find_min hroom hj ⟨c, hc, hr⟩
    exact hanswered _ hs (blameless_ok s)

theorem instantAlloc_fault (hm : a.Named) : (a.instantAlloc n shm).1 = .error (.invalidConfig fault) ↔
    0 < n ∧ Overlong (ephemeralRegionName a.name a.ids.issued) ∧
      fault = .regionName (ephemeralRegionName a.name a.ids.issued) := by
  have hserve : (a.ephemeral.serve a.ids.issued n shm).1 = .error (.invalidConfig fault) ↔ _ :=
    Ephemeral.serve_fault (by rw [hm.manager]; exact hm.spelled)
  rw [hm.manager] at hserve
  refine Iff.trans ?_ hserve
  rw [instantAlloc_eq]
  split
  · rename_i h
    rw [h]
    exact passed_iff
  · rename_i h
    rw [h]
    exact ⟨fun he => absurd he (blameless_register _ _ _ fault), fun he => absurd he (by simp)⟩

end Allocator
namespace Request

variable {a : Allocator} {config : Config} {r : Request}

/-- The request with its tier chosen. -/
def direct (a : Allocator) : Request → Request
  | allocate n =>
    match a.classify n with
    | .cache => cacheMalloc n
    | .static => staticAlloc n
    | .ephemeral => instantAlloc n
  | r => r

theorem apply_direct (a : Allocator) (r : Request) (shm : Shm) : (r.direct a).apply a shm = r.apply a shm := by
  cases r with
  | allocate n =>
    simp only [direct, apply, Allocator.allocate]
    cases a.classify n <;> rfl
  | _ => rfl

theorem direct_ne_allocate (a : Allocator) (r : Request) (n : Nat) : r.direct a ≠ .allocate n := by
  cases r with
  | allocate k =>
    unfold direct
    simp only
    cases a.classify k <;> exact nofun
  | _ => exact nofun

/-- The name of the region that has to be made for the request. -/
inductive Makes (a : Allocator) (r : Request) : String → Prop
  | batch {n : Nat} (hr : r.direct a = .staticAlloc n) (h : a.Grows n) :
      Makes a r (staticRegionName a.name a.batches.length)
  | region {n : Nat} (hr : r.direct a = .instantAlloc n) (hn : 0 < n) :
      Makes a r (ephemeralRegionName a.name a.ids.issued)

section
variable {name : String}

theorem makes_of_static (hr : r.direct a = .staticAlloc n) :
    r.Makes a name ↔ a.Grows n ∧ name = staticRegionName a.name a.batches.length := by
  constructor
  · rintro (⟨hr', hg⟩ | ⟨hr', -⟩)
    · obtain rfl := staticAlloc.inj (hr.symm.trans hr')
      exact ⟨hg, rfl⟩
    · cases hr.symm.trans hr'
  · rintro ⟨hg, rfl⟩
    exact .batch hr hg

theorem makes_of_instant (hr : r.direct a = .instantAlloc n) :
    r.Makes a name ↔ 0 < n ∧ name = ephemeralRegionName a.name a.ids.issued := by
  constructor
  · rintro (⟨hr', -⟩ | ⟨hr', hn⟩)
    · cases hr.symm.trans hr'
    · obtain rfl := instantAlloc.inj (hr.symm.trans hr')
      exact ⟨hn, rfl⟩
  · rintro ⟨hn, rfl⟩
    exact .region hr hn

/-- Entries of the cache need no region. -/
theorem not_makes (h : ∀ n, r.direct a ≠ .staticAlloc n ∧ r.direct a ≠ .instantAlloc n) : ¬r.Makes a name := by
  rintro (⟨hr, -⟩ | ⟨hr, -⟩)
  · exact (h _).1 hr
  · exact (h _).2 hr

end

/-- A request is refused because of the configuration if a region has to be made for it and the name
is too long, and only then. -/
theorem fault_iff (hs : SoundBatches a.batches) (hnew : a.Unissued) (ht : a.Tiered config) (hm : a.Named)
    (r : Request) : (r.apply a shm).1 = .error (.invalidConfig fault) ↔
      ∃ name, r.Makes a name ∧ Overlong name ∧ fault = .regionName name := by
  have hcached : Blameless (r.apply a shm).1 →
      (∀ n, r.direct a ≠ .staticAlloc n ∧ r.direct a ≠ .instantAlloc n) →
      ((r.apply a shm).1 = .error (.invalidConfig fault) ↔
        ∃ name, r.Makes a name ∧ Overlong name ∧ fault = .regionName name) := by
    intro hb hother
    refine ⟨fun h => absurd h (hb fault), ?_⟩
    rintro ⟨name, hmakes, -⟩
    exact absurd hmakes (not_makes hother)
  rw [← apply_direct] at hcached ⊢
  cases hr : r.direct a with
  | allocate n => exact absurd hr (direct_ne_allocate a r n)
  | staticAlloc n =>
    simp only [makes_of_static hr, and_assoc, exists_and_left, exists_eq_left]
    exact Allocator.staticAlloc_fault hs hnew ht hm
  | instantAlloc n =>
    simp only [makes_of_instant hr, and_assoc, exists_and_left, exists_eq_left]
    exact Allocator.instantAlloc_fault hm
  | cacheMalloc n =>
    rw [hr] at hcached
    exact hcached (a.blameless_cached shm (a.cache.blameless_place _ _ _)) fun _ => ⟨nofun, nofun⟩
  | cacheStore data =>
    rw [hr] at hcached
    exact hcached (a.blameless_cached shm (a.cache.blameless_store _ _)) fun _ => ⟨nofun, nofun⟩
  | cacheStoreWith n content =>
    rw [hr] at hcached
    exact hcached (a.blameless_cached shm (a.cache.blameless_place _ _ _)) fun _ => ⟨nofun, nofun⟩

/-- The names of a manager with a short name stay short. -/
theorem Makes.short {name : String} (h : r.Makes a name) (hname : a.name.utf8ByteSize ≤ 220)
    (hids : a.ids.issued < wordRange) (hbatches : a.batches.length < wordRange) : ¬Overlong name := by
  have hdigits : ∀ {k}, k < wordRange → (toString k).utf8ByteSize ≤ 20 := fun hk =>
    size_toString_le (by decide) (Nat.lt_trans hk (by decide))
  unfold Overlong regionNameLimit
  cases h with
  | batch =>
    have := hdigits hbatches
    rw [size_static]
    omega
  | region =>
    have := hdigits hids
    rw [size_ephemeral]
    omega

end Request
namespace Allocator

variable {a : Allocator} {config : Config}

/-- Where the configuration can be at fault once the allocator is made. -/
structure Located (a : Allocator) (shm : Shm) : Prop where
  /-- In a request, if a region has to be made for it and the name is too long. -/
  requested : ∀ r fault, (Request.apply a shm r).1 = .error (.invalidConfig fault) ↔
    ∃ name, r.Makes a name ∧ Overlong name ∧ fault = .regionName name
  /-- With a short name no number of 64 bits is too long. -/
  short : a.name.utf8ByteSize ≤ 220 → a.ids.issued < wordRange → a.batches.length < wordRange →
    ∀ r, Blameless (Request.apply a shm r).1
  replaced : ∀ r, Blameless (Replacement.apply a r).1
  released : ∀ id expected, Blameless (a.release id expected shm)
  written : ∀ id offset data, Blameless (a.write id offset data shm)
  read : ∀ id, Blameless (a.read id shm)
  found : ∀ id, Blameless (a.get id)
  retrieved : ∀ id, Blameless (a.cacheRetrieve id)
  offered : ∀ n, Blameless (a.offerMalloc n).1
  lent : ∀ id, Blameless (a.offerRetrieve id)
  placed : ∀ o answer shm', Offer.place? o shm = some (answer, shm') → Blameless answer
  awaited : ∀ p answer a' shm', a.await? p shm = some (answer, a', shm') → Blameless answer

theorem located (hs : SoundBatches a.batches) (hnew : a.Unissued) (ht : a.Tiered config) (hm : a.Named)
    (shm : Shm) : a.Located shm := by
  refine ⟨fun r fault => Request.fault_iff hs hnew ht hm r, fun hname hids hbatches r fault h => ?_,
    fun r => ?_, fun id expected => a.blameless_release id expected shm,
    fun id offset data => a.blameless_write id offset data shm, fun id => a.blameless_read id shm,
    a.blameless_get, fun id => ?_, fun n => a.cache.blameless_offerMalloc a.ids n, fun id => ?_,
    fun o answer shm' h => Offer.blameless_place h, fun p answer a' shm' h => blameless_await h⟩
  · obtain ⟨name, hmakes, hlong, -⟩ := (Request.fault_iff hs hnew ht hm r).mp h
    exact hmakes.short hname hids hbatches hlong
  · cases r with
    | set id data => exact a.blameless_replaceEntry id _ (a.cache.blameless_set id data)
    | setWith id size content => exact a.blameless_replaceEntry id _ (a.cache.blameless_setWith id size content)
  · exact (a.blameless_getIn .cache id).bind fun _ => a.cache.blameless_retrieve id
  · exact (a.blameless_getIn .cache id).bind fun _ => a.cache.blameless_offerRetrieve id

end Allocator

/-- What holds in every state that a system reaches. -/
theorem System.reached {config : Config} {a : Allocator} {shm₀ shm : Shm} {events : List System.Event}
    {s : System} (hc : Allocator.create config shm₀ = (.ok a, shm))
    (hrun : Run (System.Step fun _ _ => True) (System.start a shm) events s) :
    Accounted s.allocator s.traffic ∧ s.allocator.Tiered config ∧ s.allocator.Named :=
  hrun.invariant (P := fun _ s => Accounted s.allocator s.traffic ∧ s.allocator.Tiered config ∧ s.allocator.Named)
    ⟨accounted_create hc, Allocator.tiered_create hc, Allocator.named_create hc⟩ fun h hs => by
      obtain ⟨l, hb⟩ := h.1.becomes_step hs
      exact ⟨h.1.step hs, h.2.1.step h.1 hs, h.2.2.becomes hb⟩

/-- **Faults.** In every state that a system reaches, by whatever operations in whatever order, only a
request for memory can be refused because of the configuration, and it is if a region has to be
made for it and the name of the region is too long. -/
theorem faults_located {config : Config} {a : Allocator} {shm₀ shm : Shm} {events : List System.Event}
    {s : System} (hc : Allocator.create config shm₀ = (.ok a, shm))
    (hrun : Run (System.Step fun _ _ => True) (System.start a shm) events s) : s.allocator.Located s.shm := by
  obtain ⟨h, ht, hm⟩ := System.reached hc hrun
  exact Allocator.located h.sound h.unissued ht hm s.shm

/-- The sample system, whose name has one byte. -/
theorem faults_located_of_short_name : System.sample.allocator.name.utf8ByteSize ≤ 220 ∧
    System.sample.allocator.Located System.sample.shm := by
  obtain ⟨events, hrun⟩ := System.run_requests .start [.allocate 3, .allocate 10, .allocate 100]
  exact ⟨by decide +kernel, faults_located System.sample_create hrun⟩

/-! ## A name that becomes too long

The name of the manager has 239 bytes, so the name of the first batch has 254, which is as long as
a name can be. A batch is a single chunk. The tenth further batch has a number of two digits. -/

def longConfig : Config where
  name := String.ofList (List.replicate 239 'a')
  cacheThreshold := 4
  instantThreshold := 64
  geometry := ⟨[⟨8, 1⟩]⟩
  cacheMode := .inProcess
  cacheCapacity := none

theorem longConfig_size : longConfig.name.utf8ByteSize = 239 := by
  refine (size_ofList fun c hc => ?_).trans List.length_replicate
  obtain rfl := List.eq_of_mem_replicate hc
  rfl

theorem longConfig_spelled : Spelled longConfig.name := by
  unfold Spelled longConfig
  simp only [String.toList_ofList, List.mem_replicate]
  decide

theorem longConfig_check : longConfig.check = .ok () := by
  have hname : longConfig.name.isEmpty = false := by
    rw [← Bool.not_eq_true, String.isEmpty_iff]
    intro h
    have hsize := longConfig_size
    rw [h] at hsize
    cases hsize
  have hslash : longConfig.name.toList.contains '/' = false := by
    rw [List.contains_eq_mem, decide_eq_false_iff_not]
    exact longConfig_spelled.1
  unfold Config.check
  rw [hname, hslash]
  decide

theorem longConfig_overlong : Overlong (staticRegionName longConfig.name 10) := by
  have hten : (toString 10).utf8ByteSize = 2 := by decide
  rw [Overlong, size_static, longConfig_size, hten]
  decide

/-- A pool of one chunk that is free. -/
def spareChunk : Pool := ⟨0, 8, 1, 0, .ofLength 1, 1⟩

/-- The pool with the chunk taken. -/
def takenChunk : Pool := ⟨0, 8, 1, 0, ⟨1, #[0]⟩, 0⟩

theorem longConfig_plan : Batch.plan longConfig.geometry = .ok ([spareChunk], longConfig.geometry.totalBytes) := by
  decide +kernel

/-- The first ten batches can be made. -/
theorem longConfig_batch {i : Nat} (hi : i < 10) (shm : Shm) :
    ∃ b shm', Batch.create longConfig.name i longConfig.geometry shm = (.ok b, shm') ∧
      b.pools = [spareChunk] ∧ b.maxChunkSize = 8 := by
  have hname : Shm.validName (staticRegionName longConfig.name i) = true := by
    have hdigit : (toString i).utf8ByteSize ≤ 1 := size_toString_le (by decide) hi
    rw [validName_static longConfig_spelled, size_static, longConfig_size, regionNameLimit]
    omega
  obtain ⟨r, hr⟩ : ∃ r, (shm.create (staticRegionName longConfig.name i) longConfig.geometry.totalBytes).1 = .ok r :=
    Shm.create_of_validName hname (by decide) (by decide)
  obtain ⟨b, shm', hb⟩ := Batch.create_of_region longConfig_plan hr
  obtain ⟨pools, hplan, hperm, hmax, -⟩ := Batch.create_plan hb
  have hpools : [spareChunk] = pools := (Prod.mk.inj (Except.ok.inj (longConfig_plan.symm.trans hplan))).1
  rw [← hpools, List.perm_singleton] at hperm
  exact ⟨b, shm', hb, hperm, hmax⟩

theorem Allocator.create_of_first {config : Config} {shm₀ shm : Shm} {b : Batch} (hcheck : config.check = .ok ())
    (hb : Batch.create config.name 0 config.geometry shm₀ = (.ok b, shm)) (hmode : config.cacheMode = .inProcess) :
    ∃ a, create config shm₀ = (.ok a, shm) ∧ a.batches = [b] := by
  unfold create Cache.create
  simp only [hcheck, hb, hmode]
  exact ⟨_, rfl, rfl⟩

theorem longConfig_create : ∃ b a shm, Allocator.create longConfig .empty = (.ok a, shm) ∧ a.batches = [b] ∧
    b.pools = [spareChunk] := by
  obtain ⟨b, shm, hb, hpools, -⟩ := longConfig_batch (i := 0) (by decide) .empty
  obtain ⟨a, hc, hbatches⟩ := Allocator.create_of_first longConfig_check hb rfl
  exact ⟨b, a, shm, hc, hbatches, hpools⟩

namespace Batch

variable {b : Batch}

theorem allocate_spare (hp : b.pools = [spareChunk]) (hmax : b.maxChunkSize = 8) (ids : Counter) :
    ∃ s, b.allocate ids 8 = (.ok (s, { b with pools := [takenChunk] }), ids.draw.2) ∧ s.id = ids.issued := by
  have horder : b.searchOrder 8 = [spareChunk] := by
    unfold searchOrder
    rw [hp]
    simp [spareChunk]
  have hlimit : ¬b.sizeLimit < 8 := by
    rw [sizeLimit, hmax]
    decide
  have hserve : spareChunk.serve ids.draw.1 8 = .ok (⟨ids.issued, 8, "", .static 0 0 0⟩, takenChunk) := by
    have hreserve : spareChunk.reserve 8 = .ok (0, takenChunk) := by decide +kernel
    exact Pool.serve_eq_ok.mpr ⟨0, hreserve, by decide, rfl⟩
  have hput : b.putPool takenChunk = { b with pools := [takenChunk] } := by
    unfold putPool
    rw [hp]
    rfl
  unfold allocate
  rw [if_neg hlimit, horder, askPools, Pool.allocate, hserve, ← hput]
  exact ⟨_, rfl, rfl⟩

theorem full_of_taken (hp : b.pools = [takenChunk]) : ¬b.Room 8 := by
  rintro ⟨p, hmem, start, hrun⟩
  rw [hp] at hmem
  obtain rfl := List.mem_singleton.mp hmem
  have hlen : start + 1 ≤ 1 := hrun.le_length (by decide)
  have hfree : takenChunk.chunks.isFree 0 = true := hrun 0 (by omega) (show 0 < start + 1 by omega)
  exact absurd hfree (by decide)

end Batch
namespace Allocator

/-- There are so many batches, and all are full. -/
structure Filled (a : Allocator) (k : Nat) : Prop where
  count : a.batches.length = k
  full : ∀ b ∈ a.batches, b.pools = [takenChunk]

variable {a : Allocator} {b : Batch} {pre : List Batch} {k : Nat}

/-- The last batch serves the request if its chunk is free. -/
theorem serveStatic_spare (hs : SoundBatches a.batches) (hnew : a.Unissued) (hb : a.batches = pre ++ [b])
    (hp : b.pools = [spareChunk]) (hmax : b.maxChunkSize = 8) (shm : Shm) :
    ∃ s a', a.serveStatic [b] 8 shm = (.ok s, a', shm) ∧
      a'.batches = pre ++ [{ b with pools := [takenChunk] }] := by
  have hid : b.id = pre.length := (hs pre.length b (by simp [hb])).1
  obtain ⟨s, hseg, hissued⟩ := Batch.allocate_spare hp hmax a.ids
  have hask : askBatches 8 [b] a.ids = (.ok (s, { b with pools := [takenChunk] }), a.ids.draw.2) := by
    rw [askBatches, hseg]
  refine ⟨_, _, serveStatic_of_ask hnew (Nat.le_of_eq hissued.symm) hask shm, ?_⟩
  simp [hb, hid]

section
variable (hs : SoundBatches a.batches) (hnew : a.Unissued) (ht : a.Tiered longConfig) (shm : Shm)

include hs hnew ht

theorem filled_first (hb : a.batches = [b]) (hp : b.pools = [spareChunk]) : Filled (a.staticAlloc 8 shm).2.1 1 := by
  have hmax : b.maxChunkSize = 8 := (ht.regular b (by simp [hb])).limit
  have hlast : a.batches = [] ++ [b] := hb
  obtain ⟨s, a', hserve, hbatches⟩ := serveStatic_spare hs hnew hlast hp hmax shm
  have hanswer : a.staticAlloc 8 shm = (.ok s, a', shm) := by
    unfold staticAlloc
    rw [hb, hserve]
  rw [hanswer]
  exact ⟨by simp [hbatches], by simp [hbatches]⟩

theorem filled_next (h : a.Filled k) (hk : k < 10) : Filled (a.staticAlloc 8 shm).2.1 (k + 1) := by
  obtain ⟨fresh, shm₁, hmade, hp, hmax⟩ := longConfig_batch hk shm
  rw [← h.count, ← ht.configured] at hmade
  obtain ⟨ids, hask⟩ := askBatches_of_full (ht.usable hs fun _ => id) (n := 8) (by decide) (by decide)
    (fun c hc => Batch.full_of_taken (h.full c hc)) a.ids
  have hids := askBatches_ids 8 a.batches a.ids
  rw [hask] at hids
  obtain ⟨hs₁, hnew₁, -⟩ := tiered_added hs hnew ht hids hmade
  obtain ⟨s, a', hserve, hbatches⟩ := serveStatic_spare hs₁ hnew₁ rfl hp hmax shm₁
  rw [staticAlloc_of_grown hask hmade, hserve]
  constructor
  · simp only [hbatches, List.length_append, h.count, List.length_singleton]
  · simp only [hbatches, List.mem_append, List.mem_singleton]
    rintro c (hc | rfl)
    · exact h.full c hc
    · rfl

end

end Allocator

/-- Requests for one chunk each fill as many batches. -/
theorem System.filled_after {a : Allocator} {b : Batch} {shm : Shm} {k : Nat}
    (hc : Allocator.create longConfig .empty = (.ok a, shm)) (hb : a.batches = [b]) (hp : b.pools = [spareChunk])
    (hk : k < 10) :
    ((List.replicate (k + 1) (Request.staticAlloc 8)).foldl after (start a shm)).allocator.Filled (k + 1) := by
  induction k with
  | zero =>
    obtain ⟨h, ht, -⟩ := reached hc .start
    exact Allocator.filled_first h.sound h.unissued ht shm hb hp
  | succ k ih =>
    obtain ⟨events, hrun⟩ := run_requests .start (List.replicate (k + 1) (Request.staticAlloc 8))
    obtain ⟨h, ht, -⟩ := reached hc hrun
    rw [List.replicate_succ', List.foldl_append]
    exact Allocator.filled_next h.sound h.unissued ht _ (ih (by omega)) hk

/-- The eleventh chunk is refused, though there is memory for it. -/
theorem eleventh_chunk_refused : ∃ a shm s events,
    Allocator.create longConfig .empty = (.ok a, shm) ∧
      s = (List.replicate 10 (Request.staticAlloc 8)).foldl System.after (System.start a shm) ∧
      Run (System.Step fun _ _ => True) (System.start a shm) events s ∧
      (s.allocator.staticAlloc 8 s.shm).1 =
        .error (.invalidConfig (.regionName (staticRegionName longConfig.name 10))) := by
  obtain ⟨b, a, shm, hc, hb, hp⟩ := longConfig_create
  obtain ⟨events, hrun⟩ := System.run_requests .start (List.replicate 10 (Request.staticAlloc 8))
  have hfilled := System.filled_after hc hb hp (show 9 < 10 by decide)
  obtain ⟨s, hs⟩ : ∃ s, s = (List.replicate 10 (Request.staticAlloc 8)).foldl System.after (System.start a shm) :=
    ⟨_, rfl⟩
  rw [← hs] at hrun hfilled
  obtain ⟨h, ht, hm⟩ := System.reached hc hrun
  refine ⟨a, shm, s, events, hc, hs, hrun, ?_⟩
  refine (Allocator.staticAlloc_fault h.sound h.unissued ht hm).mpr ?_
  rw [Allocator.name, ht.configured, hfilled.count]
  refine ⟨⟨by decide, ?_, fun c hmem => Batch.full_of_taken (hfilled.full c hmem)⟩, longConfig_overlong, rfl⟩
  rw [ht.configured]
  decide

end TierAlloc
