import TierAlloc.Proofs.Allocator.System

/-!
# Names of several managers

Allocators share one name space. The names of their regions are put together without
marks, and a manager may have digits and suffixes in its own name, so they have to be
taken apart from the right: what follows the last character that is no digit is the
number, and that character tells the ephemeral names from the others.

**Results.**
* `staticRegionName_eq`, `ephemeralRegionName_eq`, `cacheRegionName_eq`: a name tells the
  manager and the number.
* `Home.regionName_inj`, `OfManager.unique`: no name is one of two regions or of two managers.
* `Kind.region_names_distinct`: which segments name the same region.
-/
namespace TierAlloc

/-! ## Taking names apart -/

/-- Where the last element is that does not satisfy `p`. -/
theorem split_last_unique {α : Type} {p : α → Bool} {a a' d d' : List α} {c c' : α}
    (hd : ∀ x ∈ d, p x = true) (hd' : ∀ x ∈ d', p x = true) (hc : p c = false) (hc' : p c' = false)
    (h : a ++ c :: d = a' ++ c' :: d') : a = a' ∧ c = c' ∧ d = d' := by
  have hrun : ∀ {a d : List α} {c : α}, (∀ x ∈ d, p x = true) → p c = false →
      (a ++ c :: d).reverse.takeWhile p = d.reverse := by
    intro a d c hd hc
    rw [List.reverse_append, List.reverse_cons, List.append_assoc, List.takeWhile_append_of_pos
      (fun x hx => hd x (List.mem_reverse.mp hx))]
    simp [hc]
  have hdd : d = d' := by
    rw [← List.reverse_inj, ← hrun hd hc, h, hrun hd' hc']
  subst hdd
  rw [← List.concat_append, ← List.concat_append, List.append_left_inj, List.concat_eq_append,
    List.concat_eq_append] at h
  obtain ⟨ha, hc⟩ := List.append_inj' h rfl
  exact ⟨ha, (List.cons.inj hc).1, rfl⟩

theorem isDigit_of_mem_toString {n : Nat} {c : Char} (h : c ∈ (toString n).toList) : c.isDigit = true := by
  rw [Nat.toString_eq_repr, Nat.toList_repr] at h
  exact Nat.isDigit_of_mem_toDigits (by decide) (by decide) h

theorem natToString_inj {a b : Nat} (h : toString a = toString b) : a = b := by
  have h := congrArg (fun s : String => Nat.ofDigitChars 10 s.toList 0) h
  simpa using h

variable {m m' n : String} {i j : Nat}

theorem toList_ephemeralRegionName (m : String) (i : Nat) : (ephemeralRegionName m i).toList =
    (m.toList ++ "#instbin#se".toList) ++ 'g' :: (toString i).toList := by
  simp [ephemeralRegionName]

theorem toList_staticRegionName (m : String) (i : Nat) : (staticRegionName m i).toList =
    (m.toList ++ "#batc".toList ++ 'h' :: (toString i).toList ++ "#sta".toList) ++ 't' :: "bin".toList := by
  simp [staticRegionName]

theorem toList_cacheRegionName (m : String) : (cacheRegionName m).toList =
    (m.toList ++ "#cac".toList) ++ 'h' :: "bin".toList := by
  simp [cacheRegionName]

theorem ephemeralRegionName_eq (h : ephemeralRegionName m i = ephemeralRegionName m' j) : m = m' ∧ i = j := by
  have hl := congrArg String.toList h
  rw [toList_ephemeralRegionName, toList_ephemeralRegionName] at hl
  obtain ⟨hm, -, hn⟩ := split_last_unique (p := Char.isDigit) (fun _ => isDigit_of_mem_toString)
    (fun _ => isDigit_of_mem_toString) rfl rfl hl
  exact ⟨String.toList_inj.mp (List.append_cancel_right hm), natToString_inj (String.toList_inj.mp hn)⟩

theorem staticRegionName_eq (h : staticRegionName m i = staticRegionName m' j) : m = m' ∧ i = j := by
  have hl := congrArg String.toList h
  rw [toList_staticRegionName, toList_staticRegionName] at hl
  have hl := List.append_cancel_right (List.append_cancel_right hl)
  obtain ⟨hm, -, hn⟩ := split_last_unique (p := Char.isDigit) (fun _ => isDigit_of_mem_toString)
    (fun _ => isDigit_of_mem_toString) rfl rfl hl
  exact ⟨String.toList_inj.mp (List.append_cancel_right hm), natToString_inj (String.toList_inj.mp hn)⟩

theorem cacheRegionName_eq (h : cacheRegionName m = cacheRegionName m') : m = m' := by
  unfold cacheRegionName at h
  rwa [String.append_left_inj] at h

/-- A name that ends in a letter is no ephemeral one. -/
theorem ephemeralRegionName_ne {l : List Char} (hn : n.toList = l ++ ['n']) : ephemeralRegionName m i ≠ n := by
  rintro rfl
  rw [toList_ephemeralRegionName] at hn
  have hnone : ∀ c ∈ ([] : List Char), c.isDigit = true := nofun
  obtain ⟨-, hc, -⟩ := split_last_unique (fun _ => isDigit_of_mem_toString) hnone rfl rfl hn
  exact absurd hc (by decide)

theorem ephemeralRegionName_ne_static (m m' : String) (i j : Nat) :
    ephemeralRegionName m i ≠ staticRegionName m' j := by
  refine ephemeralRegionName_ne (l := m'.toList ++ "#batch".toList ++ (toString j).toList ++ "#statbi".toList) ?_
  simp [staticRegionName]

theorem ephemeralRegionName_ne_cache (m m' : String) (i : Nat) :
    ephemeralRegionName m i ≠ cacheRegionName m' := by
  refine ephemeralRegionName_ne (l := m'.toList ++ "#cachbi".toList) ?_
  simp [cacheRegionName]

theorem staticRegionName_ne_cache (m m' : String) (i : Nat) : staticRegionName m i ≠ cacheRegionName m' := by
  intro h
  have hl := congrArg String.toList h
  rw [toList_staticRegionName, toList_cacheRegionName] at hl
  obtain ⟨-, hc⟩ := List.append_inj' hl rfl
  exact absurd (List.cons.inj hc).1 (by decide)

/-! ## Names of segments -/

/-- The name of a region that static or ephemeral segments of `manager` are in. -/
def SegmentName (manager name : String) : Prop :=
  (∃ batch, name = staticRegionName manager batch) ∨ ∃ id, name = ephemeralRegionName manager id

theorem SegmentName.ofManager (h : SegmentName m n) : OfManager m n := h.imp_right Or.inl

theorem SegmentName.ne_cache (h : SegmentName m n) (m' : String) : n ≠ cacheRegionName m' := by
  rcases h with ⟨batch, rfl⟩ | ⟨id, rfl⟩
  · exact staticRegionName_ne_cache _ _ _
  · exact ephemeralRegionName_ne_cache _ _ _

/-! ## Names of regions -/

/-- Which of the regions of a manager. -/
inductive Home where
  | batch (id : Nat)
  | segment (id : Nat)
  | exchange
  deriving DecidableEq, Repr

namespace Home

def regionName (manager : String) : Home → String
  | batch id => staticRegionName manager id
  | segment id => ephemeralRegionName manager id
  | exchange => cacheRegionName manager

/-- Different regions have different names, whoever their managers are. -/
theorem regionName_inj {h h' : Home} (hn : h.regionName m = h'.regionName m') : m = m' ∧ h = h' := by
  cases h with
  | batch i =>
    cases h' with
    | batch j =>
      obtain ⟨rfl, rfl⟩ := staticRegionName_eq hn
      exact ⟨rfl, rfl⟩
    | segment j => exact absurd hn.symm (ephemeralRegionName_ne_static _ _ _ _)
    | exchange => exact absurd hn (staticRegionName_ne_cache _ _ _)
  | segment i =>
    cases h' with
    | batch j => exact absurd hn (ephemeralRegionName_ne_static _ _ _ _)
    | segment j =>
      obtain ⟨rfl, rfl⟩ := ephemeralRegionName_eq hn
      exact ⟨rfl, rfl⟩
    | exchange => exact absurd hn (ephemeralRegionName_ne_cache _ _ _)
  | exchange =>
    cases h' with
    | batch j => exact absurd hn.symm (staticRegionName_ne_cache _ _ _)
    | segment j => exact absurd hn.symm (ephemeralRegionName_ne_cache _ _ _)
    | exchange => exact ⟨cacheRegionName_eq hn, rfl⟩

end Home

theorem OfManager.home (h : OfManager m n) : ∃ home : Home, n = home.regionName m := by
  rcases h with ⟨i, rfl⟩ | ⟨i, rfl⟩ | rfl
  · exact ⟨.batch i, rfl⟩
  · exact ⟨.segment i, rfl⟩
  · exact ⟨.exchange, rfl⟩

/-- No name is one of two managers. -/
theorem OfManager.unique (h : OfManager m n) (h' : OfManager m' n) : m = m' := by
  obtain ⟨home, rfl⟩ := h.home
  obtain ⟨home', hn⟩ := h'.home
  exact (Home.regionName_inj hn).1

namespace Kind

/-- The region that holds a segment: that of its batch, its own, or the exchange region; none
holds bytes in process memory. -/
def home? (id : Nat) : Kind → Option Home
  | .static batch _ _ => some (.batch batch)
  | .ephemeral => some (.segment id)
  | .cache (.area ..) => some .exchange
  | .cache .inProcess => none

variable {k k' : Kind}

theorem regionName?_eq (m : String) (id : Nat) (k : Kind) :
    k.regionName? m id = (k.home? id).map (Home.regionName m) := by
  cases k with
  | static batch bin offset => rfl
  | ephemeral => rfl
  | cache place => cases place <;> rfl

theorem regionName?_eq_some :
    k.regionName? m i = some n ↔ ∃ home, k.home? i = some home ∧ home.regionName m = n := by
  rw [regionName?_eq, Option.map_eq_some_iff]

/-- **Names of regions.** Two segments name one region exactly if they are of one manager and in
one region of it: both in the same batch, both the same ephemeral segment, or both in the exchange
region. What characters the managers are called by makes no difference. -/
theorem region_names_distinct (m m' : String) (i j : Nat) (k k' : Kind) :
    (∃ n, k.regionName? m i = some n ∧ k'.regionName? m' j = some n) ↔
      m = m' ∧ ∃ home, k.home? i = some home ∧ k'.home? j = some home := by
  simp only [regionName?_eq_some]
  constructor
  · rintro ⟨n, ⟨home, hk, rfl⟩, home', hk', hn⟩
    obtain ⟨rfl, rfl⟩ := Home.regionName_inj hn
    exact ⟨rfl, home', hk, hk'⟩
  · rintro ⟨rfl, home, hk, hk'⟩
    exact ⟨home.regionName m, ⟨home, hk, rfl⟩, home, hk', rfl⟩

end Kind

end TierAlloc
