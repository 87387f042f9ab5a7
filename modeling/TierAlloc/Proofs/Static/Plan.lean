import TierAlloc.Proofs.Static.Order

/-!
# From a geometry to pools

A geometry is checked as a whole before a batch is laid out by it, and every pool is checked
again when it is made, at the place where the pools before it end (`Geometry.start`). The two
checks agree: what the first one lets pass, the second one never refuses, since a sum of
aligned sizes is aligned. Neither of them looks at how large the sum is. If it is no 64-bit
number, the bins are not laid out, and the geometry cannot tell its bytes either. The
pools are then sorted, and found again by their ids.

**Results.**
* `Geometry.check_iff`, `Batch.plan_iff`: the two checks agree.
* `Geometry.total_eq_ok`, `Batch.layOut_total`: the bytes of a geometry, and of what is laid out.
* `Geometry.exists_bin`: the bins leave no byte out.
* `Batch.layOut_get`, `Batch.create_pool?`: the pools that a geometry is laid out as.
* `Batch.create_sorted`: a new batch has them by size.
-/
namespace TierAlloc

/-- There are chunks, of an aligned size. -/
structure Bin.Usable (b : Bin) : Prop where
  size_pos : 0 < b.chunkSize
  aligned : alignment ∣ b.chunkSize
  count_pos : 0 < b.chunkCount

/-- The bytes of all chunks. -/
def Bin.span (b : Bin) : Nat := b.chunkSize * b.chunkCount

namespace Geometry

/-- Where bin `i` starts: after the bins declared before it. -/
def start (g : Geometry) (i : Nat) : Nat := totalBytes ⟨g.bins.take i⟩

variable {g : Geometry} {b : Bin} {bins : List Bin} {i x : Nat}

theorem totalBytes_cons (b : Bin) (bins : List Bin) : totalBytes ⟨b :: bins⟩ = b.span + totalBytes ⟨bins⟩ := rfl

@[simp] theorem start_zero (g : Geometry) : g.start 0 = 0 := rfl

theorem start_cons (b : Bin) (bins : List Bin) (i : Nat) :
    start ⟨b :: bins⟩ (i + 1) = b.span + start ⟨bins⟩ i := rfl

theorem start_succ (h : g.bins[i]? = some b) : g.start (i + 1) = g.start i + b.span := by
  obtain ⟨bins⟩ := g
  induction bins generalizing i with
  | nil => simp at h
  | cons first rest ih =>
    cases i with
    | zero =>
      obtain rfl : first = b := by simpa using h
      simp [start_cons]
    | succ i =>
      rw [start_cons, start_cons, ih (by simpa using h), Nat.add_assoc]

theorem start_length (g : Geometry) : g.start g.bins.length = g.totalBytes := by
  rw [start, List.take_length]

theorem stopFrom_cons_eq_ok {offset stop : Nat} : stopFrom (b :: bins) offset = .ok stop ↔
    offset + b.span < wordRange ∧ stopFrom bins (offset + b.span) = .ok stop := by
  rw [stopFrom, Bin.span]
  simp only [bind_eq_ok, Word.mul_eq_ok, Word.add_eq_ok]
  constructor
  · rintro ⟨_, ⟨-, rfl⟩, _, ⟨hlt, rfl⟩, h⟩
    exact ⟨hlt, h⟩
  · rintro ⟨hlt, h⟩
    exact ⟨_, ⟨by omega, rfl⟩, _, ⟨hlt, rfl⟩, h⟩

/-- The bytes of the bins are added up as long as the sum is below 2^64. -/
theorem stopFrom_eq_ok {offset stop : Nat} (hoffset : offset < wordRange) : stopFrom bins offset = .ok stop ↔
    offset + totalBytes ⟨bins⟩ < wordRange ∧ stop = offset + totalBytes ⟨bins⟩ := by
  induction bins generalizing offset with
  | nil =>
    have htotal : totalBytes ⟨[]⟩ = 0 := rfl
    simp [stopFrom, htotal, hoffset, eq_comm]
  | cons first rest ih =>
    rw [stopFrom_cons_eq_ok, totalBytes_cons, ← Nat.add_assoc]
    constructor
    · rintro ⟨hlt, h⟩
      exact (ih hlt).mp h
    · rintro ⟨hlt, h⟩
      have hfirst : offset + first.span < wordRange := by omega
      exact ⟨hfirst, (ih hfirst).mpr ⟨hlt, h⟩⟩

theorem total_eq_ok {t : Nat} : g.total = .ok t ↔ g.totalBytes < wordRange ∧ t = g.totalBytes := by
  rw [total, stopFrom_eq_ok (by decide), Nat.zero_add]

theorem stopFrom_error {offset : Nat} {e : Error} (h : stopFrom bins offset = .error e) :
    ∃ fault, e = .overflow fault := by
  induction bins generalizing offset with
  | nil => cases h
  | cons first rest ih =>
    rw [stopFrom] at h
    simp only [bind_eq_error, Word.mul_eq_error, Word.add_eq_error] at h
    rcases h with ⟨-, rfl⟩ | ⟨_, -, ⟨-, rfl⟩ | ⟨_, -, hrest⟩⟩
    · exact ⟨_, rfl⟩
    · exact ⟨_, rfl⟩
    · exact ih hrest

/-- A geometry cannot tell how many bytes it takes if a 64-bit number does not hold them. -/
theorem total_of_wide (h : wordRange ≤ g.totalBytes) : ∃ fault, g.total = .error (.overflow fault) := by
  cases ht : g.total with
  | ok t => exact absurd (total_eq_ok.mp ht).1 (Nat.not_lt.mpr h)
  | error e =>
    obtain ⟨fault, rfl⟩ := stopFrom_error ht
    exact ⟨fault, rfl⟩

/-- Every byte is in a bin. -/
theorem exists_bin (h : x < g.totalBytes) :
    ∃ i b, g.bins[i]? = some b ∧ g.start i ≤ x ∧ x < g.start i + b.span := by
  obtain ⟨bins⟩ := g
  induction bins generalizing x with
  | nil => exact absurd h (Nat.not_lt_zero x)
  | cons first rest ih =>
    rw [totalBytes_cons] at h
    by_cases hx : x < first.span
    · exact ⟨0, first, rfl, Nat.zero_le x, by rwa [start_zero, Nat.zero_add]⟩
    · obtain ⟨i, b, hb, hl, hu⟩ := ih (x := x - first.span) (by omega)
      refine ⟨i + 1, b, by simpa using hb, ?_, ?_⟩ <;>
        (rw [start_cons]; omega)

theorem aligned_start (h : ∀ b ∈ g.bins, b.Usable) (i : Nat) : alignment ∣ g.start i := by
  obtain ⟨bins⟩ := g
  induction bins generalizing i with
  | nil => simp [start, totalBytes]
  | cons first rest ih =>
    cases i with
    | zero => exact Nat.dvd_zero _
    | succ i =>
      obtain ⟨hfirst, hrest⟩ := List.forall_mem_cons.mp h
      rw [start_cons]
      exact Nat.dvd_add (Dvd.dvd.mul_right hfirst.aligned _) (ih i hrest)

theorem checkBins_iff (bins : List Bin) (bin : Nat) :
    checkBins bins bin = .ok () ↔ ∀ b ∈ bins, b.Usable := by
  induction bins generalizing bin with
  | nil => simp [checkBins]
  | cons first rest ih =>
    rw [checkBins, List.forall_mem_cons]
    split
    · rename_i hsize
      refine ⟨nofun, fun h => ?_⟩
      have := h.1.size_pos
      have := Nat.mod_eq_zero_of_dvd h.1.aligned
      omega
    · rename_i hsize
      split
      · rename_i hcount
        exact ⟨nofun, fun h => absurd hcount (Nat.ne_of_gt h.1.count_pos)⟩
      · rename_i hcount
        rw [ih]
        exact ⟨fun h => ⟨⟨by omega, Nat.dvd_of_mod_eq_zero (by omega), by omega⟩, h⟩, And.right⟩

end Geometry

namespace Pool

/-- The pool of a bin, with all of its chunks free. -/
def ofBin (id : Nat) (b : Bin) (base : Nat) : Pool where
  id
  chunkSize := b.chunkSize
  chunkCount := b.chunkCount
  base
  chunks := Bitmap.ofLength b.chunkCount
  free := b.chunkCount

/-- A pool is made of a usable bin, at an aligned place. -/
theorem create_iff {id base : Nat} {b : Bin} {p : Pool} :
    create id b.chunkSize b.chunkCount base = .ok p ↔ b.Usable ∧ alignment ∣ base ∧ p = ofBin id b base := by
  unfold create
  constructor
  · intro h
    split at h
    · cases h
    rename_i hempty
    split at h
    · cases h
    rename_i hsize
    split at h
    · cases h
    rename_i hbase
    exact ⟨⟨by omega, Nat.dvd_of_mod_eq_zero (by omega), by omega⟩, Nat.dvd_of_mod_eq_zero (by omega),
      (Except.ok.inj h).symm⟩
  · rintro ⟨⟨hsize, haligned, hcount⟩, hbase, rfl⟩
    rw [if_neg (by omega), if_neg (not_not_intro (Nat.mod_eq_zero_of_dvd haligned)),
      if_neg (not_not_intro (Nat.mod_eq_zero_of_dvd hbase))]
    rfl

end Pool

namespace Geometry

theorem check_iff_usable (g : Geometry) : g.check = .ok () ↔ g.bins ≠ [] ∧ ∀ b ∈ g.bins, b.Usable := by
  rw [check]
  cases hbins : g.bins with
  | nil => simp
  | cons first rest => simp [checkBins_iff]

/-- A geometry is usable if it has a bin, and a pool can be made of every bin at its place. -/
theorem check_iff (g : Geometry) : g.check = .ok () ↔ g.bins ≠ [] ∧
    ∀ i b, g.bins[i]? = some b → ∃ p, Pool.create i b.chunkSize b.chunkCount (g.start i) = .ok p := by
  rw [check_iff_usable]
  refine and_congr_right fun _ => ⟨fun h i b hb => ?_, fun h b hb => ?_⟩
  · exact ⟨_, Pool.create_iff.mpr ⟨h b (List.mem_of_getElem? hb), aligned_start h i, rfl⟩⟩
  · obtain ⟨i, hi⟩ := List.mem_iff_getElem?.mp hb
    obtain ⟨p, hp⟩ := h i b hi
    exact (Pool.create_iff.mp hp).1

end Geometry

namespace Batch

variable {b : Batch} {g : Geometry} {bins : List Bin} {pools : List Pool} {bin offset stop i : Nat} {p : Pool}
  {manager : String} {id : Nat} {shm shm' : Shm}

/-- Each pool is made of its bin, where the bins before it end. -/
theorem layOut_get (h : layOut bins bin offset = .ok (pools, stop)) (i : Nat) :
    pools[i]? = bins[i]?.map fun b => Pool.ofBin (bin + i) b (offset + Geometry.start ⟨bins⟩ i) := by
  induction bins generalizing bin offset pools i with
  | nil =>
    simp only [layOut, Except.ok.injEq, Prod.mk.injEq] at h
    simp [← h.1]
  | cons first rest ih =>
    obtain ⟨p, pools', hp, -, hl, rfl⟩ := layOut_cons_eq_ok.mp h
    cases i with
    | zero => simp [(Pool.create_iff.mp hp).2.2]
    | succ i =>
      rw [List.getElem?_cons_succ, List.getElem?_cons_succ, ih hl, Geometry.start_cons, Bin.span]
      simp only [Nat.add_assoc, Nat.add_comm 1 i]

/-- Of usable bins all pools are made, unless the sum of their bytes overflows. -/
theorem layOut_total (h : ∀ b ∈ bins, b.Usable) (bin : Nat) (hoffset : alignment ∣ offset) :
    (layOut bins bin offset).map Prod.snd = Geometry.stopFrom bins offset := by
  induction bins generalizing bin offset with
  | nil => rfl
  | cons first rest ih =>
    obtain ⟨hfirst, hrest⟩ := List.forall_mem_cons.mp h
    rw [layOut, Geometry.stopFrom, Pool.create_iff.mpr ⟨hfirst, hoffset, rfl⟩]
    simp only [bind, Except.bind]
    cases hspan : Word.mul first.chunkSize first.chunkCount with
    | error e => rfl
    | ok span =>
      simp only
      cases hnext : Word.add offset span with
      | error e => rfl
      | ok next =>
        obtain ⟨-, rfl⟩ := Word.mul_eq_ok.mp hspan
        obtain ⟨-, rfl⟩ := Word.add_eq_ok.mp hnext
        simp only
        rw [← ih hrest (bin + 1) (Nat.dvd_add hoffset (Dvd.dvd.mul_right hfirst.aligned first.chunkCount))]
        cases layOut rest (bin + 1) (offset + first.chunkSize * first.chunkCount) <;> rfl

/-- A usable geometry is laid out over as many bytes as it tells. -/
theorem plan_total (h : g.check = .ok ()) : (plan g).map Prod.snd = g.total := by
  rw [Geometry.total, ← layOut_total (g.check_iff_usable.mp h).2 0 (Nat.dvd_zero alignment), plan, h]
  rfl

theorem plan_check {laid : List Pool × Nat} (h : plan g = .ok laid) : g.check = .ok () := by
  obtain ⟨u, hg, -⟩ := bind_eq_ok.mp h
  exact hg

/-- The geometries that can be laid out are those that are usable and not too large. -/
theorem plan_iff (g : Geometry) : (∃ laid, plan g = .ok laid) ↔ g.check = .ok () ∧ g.totalBytes < wordRange := by
  constructor
  · rintro ⟨laid, h⟩
    have hcheck := plan_check h
    have htotal := plan_total hcheck
    rw [h] at htotal
    exact ⟨hcheck, (Geometry.total_eq_ok.mp htotal.symm).1⟩
  · rintro ⟨hcheck, hlt⟩
    have htotal := plan_total hcheck
    rw [Geometry.total_eq_ok.mpr ⟨hlt, rfl⟩] at htotal
    cases h : plan g with
    | ok laid => exact ⟨laid, rfl⟩
    | error e =>
      rw [h] at htotal
      cases htotal

/-- A usable geometry that is too large overflows when it is laid out, as when it tells its bytes. -/
theorem plan_of_wide (hcheck : g.check = .ok ()) (hwide : wordRange ≤ g.totalBytes) :
    ∃ fault, g.total = .error (.overflow fault) ∧ plan g = .error (.overflow fault) := by
  obtain ⟨fault, hfault⟩ := Geometry.total_of_wide hwide
  have htotal := plan_total hcheck
  rw [hfault] at htotal
  refine ⟨fault, hfault, ?_⟩
  cases h : plan g with
  | ok laid =>
    rw [h] at htotal
    cases htotal
  | error e =>
    rw [h] at htotal
    exact congrArg Except.error (Except.error.inj htotal)

theorem plan_get {total : Nat} (h : plan g = .ok (pools, total)) (i : Nat) :
    pools[i]? = g.bins[i]?.map fun b => Pool.ofBin i b (g.start i) := by
  unfold plan at h
  cases hg : g.check with
  | error e =>
    rw [hg] at h
    cases h
  | ok u =>
    rw [hg] at h
    simpa using layOut_get h i

/-- The id of a pool is the place where its bin was declared. -/
theorem plan_id {total : Nat} (h : plan g = .ok (pools, total)) (hi : pools[i]? = some p) : p.id = i := by
  rw [plan_get h] at hi
  obtain ⟨b, -, hb⟩ := Option.map_eq_some_iff.mp hi
  rw [← hb, Pool.ofBin]

theorem create_sorted (h : create manager id g shm = (.ok b, shm')) : b.pools.Pairwise Pool.Leads := by
  unfold create at h
  split at h
  · cases h
  rename_i pools total hplan
  split at h
  · cases h
  simp only [Prod.mk.injEq, Except.ok.injEq] at h
  rw [← h.1]
  refine leads_bySize (List.pairwise_iff_getElem.mpr fun i j hi hj hlt => ?_)
  rw [plan_id hplan (List.getElem?_eq_getElem hi), plan_id hplan (List.getElem?_eq_getElem hj)]
  exact hlt

/-- In a new batch, the pool of a bin is that of the bin declared at this place. -/
theorem create_pool? (h : create manager id g shm = (.ok b, shm')) (i : Nat) :
    b.pool? i = g.bins[i]?.map fun b => Pool.ofBin i b (g.start i) := by
  obtain ⟨-, -, hsound, -⟩ := create_sound h
  obtain ⟨pools, hplan, hperm, -⟩ := create_plan h
  rw [← plan_get hplan]
  apply Option.ext
  intro p
  rw [pool?_eq_some hsound, hperm.mem_iff]
  constructor
  · rintro ⟨hp, hi⟩
    obtain ⟨j, hj⟩ := List.mem_iff_getElem?.mp hp
    rwa [← hi, plan_id hplan hj]
  · intro hi
    exact ⟨List.mem_of_getElem? hi, plan_id hplan hi⟩

end Batch
end TierAlloc
