import TierAlloc.Proofs.Memory.Patch

/-!
# Names of shared objects

What making, sharing and releasing a region does to the names and to the objects
of others. A region that was made is the only one its name refers to, and its
object is not the object of any other name, whether the object was there before or
not: this is what keeps the regions of one allocator apart.

**Results.**
* `create_made`: all that is to be said of a region that was made.
* `create_refused`: a refused request takes at most its own name away.
* `release_names`: letting a region go takes at most its own name away.
* `Keeps`, `Shows`: what is under another name is as it was after each of these.
-/
namespace TierAlloc.Shm

@[simp] theorem get?_unlink (s : Shm) (name n : String) :
    (s.unlink name).names.get? n = if n = name then none else s.names.get? n :=
  Table.get?_erase ..

@[simp] theorem object_unlink (s : Shm) (name : String) (i : Nat) :
    (s.unlink name).object i = s.object i := rfl

theorem object_placeEmpty (s : Shm) (name : String) (i : Nat) :
    (s.placeEmpty name).object i = s.object i := by
  simp only [placeEmpty, object, Array.getD_eq_getD_getElem?, Array.getElem?_push]
  split
  · next h => simp [h]
  · rfl

/-- `s'` is `s` with the region `r` made under `name`. -/
structure Made (name : String) (size : Nat) (s : Shm) (r : Region) (s' : Shm) : Prop where
  valid : validName name = true
  positive : 0 < size
  below : size < regionSizeLimit
  name_eq : r.name = name
  size_eq : r.size = size
  claim : r.claim = some s.claims
  claims : s'.claims = s.claims + 1
  shared : s'.shared = s.shared
  count : s.objects.size ≤ s'.objects.size
  object_lt : r.object < s'.objects.size
  named : s'.names.get? name = some r.object
  /-- The object was there under this name, or it is a new one. -/
  origin : s.names.get? name = some r.object ∨ s.objects.size ≤ r.object
  names : ∀ n, n ≠ name → s'.names.get? n = s.names.get? n
  sized : (s'.object r.object).size = size
  objects : ∀ i, i ≠ r.object → s'.object i = s.object i

/-- No other name refers to the object of a region that was made. -/
theorem Made.apart {name n : String} {size i : Nat} {s s' : Shm} {r : Region}
    (h : Made name size s r s') (hn : n ≠ name) (hi : s.names.get? n = some i) : i ≠ r.object := by
  rintro rfl
  rw [← h.names n hn] at hi
  exact hn (s'.named_inj hi h.named)

theorem openOrMake_spec (s : Shm) (name : String) :
    (s.openOrMake name).2.names.get? name = some (s.openOrMake name).1 ∧
      (∀ n, n ≠ name → (s.openOrMake name).2.names.get? n = s.names.get? n) ∧
      (∀ i, (s.openOrMake name).2.object i = s.object i) ∧
      s.objects.size ≤ (s.openOrMake name).2.objects.size ∧
      (s.openOrMake name).2.claims = s.claims ∧ (s.openOrMake name).2.shared = s.shared := by
  unfold openOrMake
  split
  · next i hi => exact ⟨hi, fun _ _ => rfl, fun _ => rfl, Nat.le_refl _, rfl, rfl⟩
  · refine ⟨?_, ?_, s.object_placeEmpty name, ?_, rfl, rfl⟩
    · simp [placeEmpty, Table.get?_insert]
    · intro n hn
      simp [placeEmpty, Table.get?_insert, hn]
    · simp [placeEmpty]

theorem openOrMake_origin (s : Shm) (name : String) :
    s.names.get? name = some (s.openOrMake name).1 ∨ s.objects.size ≤ (s.openOrMake name).1 := by
  unfold openOrMake
  split
  · next hi => exact Or.inl hi
  · exact Or.inr (Nat.le_refl _)

theorem create_made {s s' : Shm} {name : String} {size : Nat} {r : Region}
    (h : s.create name size = (.ok r, s')) : Made name size s r s' := by
  obtain ⟨hnamed, hnames, hobjects, hcount, hclaims, hshared⟩ := s.openOrMake_spec name
  unfold create at h
  split at h
  · cases h
  split at h
  · cases h
  split at h
  · cases h
  split at h
  · cases h
  rename_i hz hv _ hl
  simp only [Prod.mk.injEq, Except.ok.injEq] at h
  obtain ⟨rfl, rfl⟩ := h
  have hlt := (s.openOrMake name).2.named_lt hnamed
  refine ⟨by simpa using hv, Nat.pos_of_ne_zero hz, by omega, rfl, rfl, congrArg some hclaims,
    congrArg (· + 1) hclaims, hshared, ?_, ?_, hnamed, s.openOrMake_origin name, hnames, ?_, ?_⟩
  · simpa [setObject] using hcount
  · simpa [setObject] using hlt
  · exact congrArg Block.size ((object_setObject _ hlt _ _).trans (if_pos rfl))
  · intro i hi
    exact ((object_setObject _ hlt _ _).trans (if_neg (Ne.symm hi))).trans (hobjects i)

/-- What a refused request leaves: all as it was, or all but the name. -/
theorem create_refused {s s' : Shm} {name : String} {size : Nat} {e : Error}
    (h : s.create name size = (.error e, s')) : s' = s ∨ s' = s.unlink name := by
  unfold create at h
  split at h
  · exact Or.inl (Prod.mk.inj h).2.symm
  split at h
  · exact Or.inl (Prod.mk.inj h).2.symm
  split at h
  · exact Or.inr (Prod.mk.inj h).2.symm
  split at h
  · exact Or.inr (Prod.mk.inj h).2.symm
  · cases (Prod.mk.inj h).1

theorem release_eq (s : Shm) (r : Region) :
    (∀ i, (s.release r).object i = s.object i) ∧
      (s.release r).objects.size = s.objects.size ∧ (s.release r).claims = s.claims := by
  unfold release
  split
  · exact ⟨fun _ => rfl, rfl, rfl⟩
  · split <;> exact ⟨fun _ => rfl, rfl, rfl⟩

/-- The only holder of an owner takes the name along. -/
theorem release_unshared (s : Shm) {r : Region} {c : Nat} (hc : r.claim = some c) (hs : c ∉ s.shared) :
    s.release r = s.unlink r.name := by
  unfold release
  simp only [hc, if_neg hs]

/-- Letting a region go takes at most its own name away. -/
theorem release_names (s : Shm) (r : Region) {n : String} (hn : n ≠ r.name) :
    (s.release r).names.get? n = s.names.get? n := by
  unfold release
  split
  · rfl
  · split
    · rfl
    · rw [get?_unlink, if_neg hn]

/-! ## What stays under a name -/

/-- The name refers to what it did, and that is as it was. -/
structure Keeps (n : String) (s s' : Shm) : Prop where
  count : s.objects.size ≤ s'.objects.size
  named : s'.names.get? n = s.names.get? n
  object : ∀ i, s.names.get? n = some i → Same i s s'

/-- The region `r` is the one under this name. -/
structure Shows (n : String) (r : Region) (s : Shm) : Prop where
  name_eq : r.name = n
  named : s.names.get? n = some r.object
  sized : (s.object r.object).size = r.size

variable {s s' s'' : Shm} {n m : String} {r : Region} {size i : Nat} {P : Nat → Prop}

theorem Keeps.refl (n : String) (s : Shm) : Keeps n s s := ⟨Nat.le_refl _, rfl, fun i _ => .refl i s⟩

theorem Keeps.trans (h : Keeps n s s') (h' : Keeps n s' s'') : Keeps n s s'' :=
  ⟨Nat.le_trans h.count h'.count, h'.named.trans h.named,
    fun i hi => (h.object i hi).trans (h'.object i (h.named.trans hi))⟩

theorem keeps_unlink (hn : n ≠ m) : Keeps n s (s.unlink m) :=
  ⟨Nat.le_refl _, by simp [hn], fun i _ => same_of_eq (object_unlink s m i)⟩

theorem Made.keeps (h : Made m size s r s') (hn : n ≠ m) : Keeps n s s' :=
  ⟨h.count, h.names n hn, fun i hi => same_of_eq (h.objects i (h.apart hn hi))⟩

theorem Made.shows (h : Made m size s r s') : Shows m r s' :=
  ⟨h.name_eq, h.named, h.sized.trans h.size_eq.symm⟩

theorem keeps_release (hn : n ≠ r.name) : Keeps n s (s.release r) := by
  obtain ⟨hobjects, hcount, -⟩ := s.release_eq r
  exact ⟨Nat.le_of_eq hcount.symm, s.release_names r hn, fun i _ => same_of_eq (hobjects i)⟩

/-- An object under another name is another object. -/
theorem Patch.keeps (h : Patch i P s s') (hi : s.names.get? m = some i) (hn : n ≠ m) : Keeps n s s' := by
  refine ⟨Nat.le_of_eq h.count.symm, by rw [h.names], fun j hj => ?_⟩
  have hne : j ≠ i := by
    rintro rfl
    exact hn (s.named_inj hj hi)
  exact h.same hne

theorem Shows.keep (h : Shows n r s) (hk : Keeps n s s') : Shows n r s' :=
  ⟨h.name_eq, hk.named.trans h.named, (hk.object _ h.named).size.trans h.sized⟩

theorem Shows.bytes_eq (h : Shows n r s) (hk : Keeps n s s') (offset length : Nat) :
    s'.bytes r offset length = s.bytes r offset length :=
  (hk.object _ h.named).bytes_eq offset length

theorem Shows.patch (h : Shows n r s) (hp : Patch i P s s') : Shows n r s' :=
  ⟨h.name_eq, by rw [hp.names]; exact h.named, (hp.sizes _).trans h.sized⟩

theorem Shows.object_lt (h : Shows n r s) : r.object < s.objects.size := s.named_lt h.named

/-- Regions under different names are different objects. -/
theorem Shows.object_ne {r' : Region} (h : Shows n r s) (h' : Shows m r' s) (hn : n ≠ m) :
    r.object ≠ r'.object := by
  intro he
  have hm := h'.named
  rw [← he] at hm
  exact hn (s.named_inj h.named hm)

end TierAlloc.Shm
