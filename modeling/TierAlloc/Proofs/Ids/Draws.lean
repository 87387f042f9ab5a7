import TierAlloc.Proofs.Allocator.Growth
import TierAlloc.Proofs.Cache.Filling

/-!
# What calls draw from the counter

Each call of a tier that may make a segment draws ids for it, and draws them before it
tries: a pool, the cache, the ephemeral tier and a handoff one, a batch one for each pool
that it tries. What it makes is under an id that it drew itself, and when it makes nothing
the ids are used up all the same.

Nothing here rests on a tier being in order, so a caller may have done anything to it.

**Results.**
* `Batch.allocate_draws`: one id for each pool that is tried.
* `Cache.storeWith_plain`, `Ephemeral.serve_plain` and the like: no call finds its new id taken.
-/
namespace TierAlloc

/-- The error says that an id is taken. -/
def Error.Clash : Error → Prop
  | duplicatedKey _ | registrationFailed _ => True
  | _ => False

theorem Error.Panics.plain {e : Error} (h : e.Panics) : ¬e.Clash := by
  cases e with
  | runOutOfBounds => exact not_false
  | overflow => exact not_false
  | _ => exact h.elim

theorem Bitmap.occupy_error {b : Bitmap} {start run : Nat} {e : Error} (h : b.occupy start run = .error e) :
    e.Panics := by
  rcases bind_eq_error.mp h with hstop | ⟨stop, -, hmark⟩
  · unfold stop at hstop
    split at hstop
    · cases hstop
    · rw [(Word.add_eq_error.mp hstop).2]
      trivial
  · split at hmark
    · cases hmark
    · rw [← Except.error.inj hmark]
      trivial

/-! ## Pools and batches -/

namespace Pool

variable {p p' : Pool} {id n : Nat} {s : Segment} {e : Error}

/-- The pool has no room for `n` bytes. -/
def refuses (p : Pool) (n : Nat) : Bool :=
  match p.serve 0 n with
  | .error (.noMemory _) => true
  | _ => false

/-- Only the id of the segment depends on the id that was drawn. -/
theorem serve_eq (p : Pool) (id n : Nat) :
    p.serve id n = (p.serve 0 n).map fun served => ({ served.1 with id }, served.2) := by
  unfold serve
  cases p.reserve n with
  | error e => rfl
  | ok served =>
    simp only [bind, Except.bind]
    cases p.offsetOf served.1 <;> rfl

theorem serve_id (h : p.serve id n = .ok (s, p')) : s.id = id := by
  rw [serve_eq] at h
  cases hs : p.serve 0 n with
  | error e =>
    rw [hs] at h
    cases h
  | ok served =>
    rw [hs] at h
    rw [← (Prod.mk.inj (Except.ok.inj h)).1]

/-- Why a pool does not take chunks for a request. -/
theorem reserve_error (h : p.reserve n = .error e) : e = .zeroSize ∨ e = .noMemory n ∨ e.Panics := by
  unfold reserve at h
  split at h
  · exact Or.inl (Except.error.inj h).symm
  simp only at h
  split at h
  · exact Or.inr (Or.inl (Except.error.inj h).symm)
  split at h
  · exact Or.inr (Or.inl (Except.error.inj h).symm)
  · rcases bind_eq_error.mp h with ho | ⟨chunks, -, hnone⟩
    · exact Or.inr (Or.inr (Bitmap.occupy_error ho))
    · cases hnone

/-- Why a pool does not serve a request. -/
theorem serve_error (h : p.serve id n = .error e) : e = .zeroSize ∨ e = .noMemory n ∨ e.Panics := by
  rcases serve_eq_error.mp h with hr | ⟨start, p', -, -, rfl⟩
  · exact reserve_error hr
  · exact Or.inr (Or.inr trivial)

theorem serve_plain (h : p.serve id n = .error e) : ¬e.Clash := by
  rcases serve_error h with rfl | rfl | hpanics
  · exact not_false
  · exact not_false
  · exact hpanics.plain

/-- A pool without room says so, whatever the id. -/
theorem serve_of_refuses (h : p.refuses n = true) (id : Nat) : p.serve id n = .error (.noMemory n) := by
  unfold refuses at h
  split at h
  · rename_i m hs
    rcases serve_error hs with he | he | he
    · cases he
    · rw [serve_eq, hs, he]
      rfl
    · exact he.elim
  · cases h

theorem serve_of_not_refuses (h : p.refuses n = false) (id m : Nat) : p.serve id n ≠ .error (.noMemory m) := by
  intro hs
  rw [serve_eq] at hs
  cases h0 : p.serve 0 n with
  | ok served =>
    rw [h0] at hs
    cases hs
  | error e =>
    rw [h0] at hs
    obtain rfl := Except.error.inj hs
    simp [refuses, h0] at h

end Pool

namespace Batch

variable {b b' : Batch} {p' : Pool} {n : Nat} {ids ids' : Counter} {s : Segment} {e : Error}
  {pools : List Pool}

/-- The pools that are tried for `n` bytes: in order, up to the first that does not refuse. -/
def triedOf (n : Nat) (pools : List Pool) : List Pool :=
  pools.take ((pools.takeWhile (·.refuses n)).length + 1)

/-- The pools that the batch tries for `n` bytes. -/
def tried (b : Batch) (n : Nat) : List Pool := triedOf n (b.searchOrder n)

theorem triedOf_cons (n : Nat) (p : Pool) (rest : List Pool) :
    triedOf n (p :: rest) = p :: if p.refuses n then triedOf n rest else [] := by
  unfold triedOf
  cases h : p.refuses n <;> simp [h]

theorem askPools_draws (n : Nat) (pools : List Pool) (ids : Counter) :
    (askPools n pools ids).2.issued = ids.issued + (triedOf n pools).length := by
  induction pools generalizing ids with
  | nil => rfl
  | cons p rest ih =>
    rw [askPools, triedOf_cons]
    cases h : p.refuses n with
    | true =>
      rw [Pool.allocate, Pool.serve_of_refuses h]
      simp only [ih, Counter.issued_draw_snd, if_true, List.length_cons]
      omega
    | false =>
      split
      · rename_i m ids₁ ha
        exact absurd (Prod.mk.inj ha).1 (Pool.serve_of_not_refuses h _ m)
      · rfl

theorem askPools_new (h : askPools n pools ids = (.ok (s, p'), ids')) :
    ids.issued ≤ s.id ∧ s.id < ids'.issued := by
  induction pools generalizing ids with
  | nil => cases h
  | cons p rest ih =>
    rw [askPools] at h
    split at h
    · rename_i m ids₁ ha
      obtain ⟨-, rfl⟩ := Prod.mk.inj ha
      obtain ⟨hle, hlt⟩ := ih h
      exact ⟨Nat.le_of_succ_le hle, hlt⟩
    · obtain ⟨hs, rfl⟩ := Prod.mk.inj h
      rw [Pool.serve_id hs]
      exact ⟨Nat.le_refl _, Nat.lt_succ_self _⟩

theorem askPools_error (h : askPools n pools ids = (.error e, ids')) :
    e = .zeroSize ∨ e = .noMemory n ∨ e.Panics := by
  induction pools generalizing ids with
  | nil => exact Or.inr (Or.inl (Except.error.inj (Prod.mk.inj h).1).symm)
  | cons p rest ih =>
    rw [askPools] at h
    split at h
    · exact ih h
    · exact Pool.serve_error (Prod.mk.inj h).1

/-- A batch draws one id for each pool that it tries, and none for a request that is too large. -/
theorem allocate_draws (b : Batch) (ids : Counter) (n : Nat) :
    (b.allocate ids n).2.issued = ids.issued + if b.sizeLimit < n then 0 else (b.tried n).length := by
  unfold allocate
  split
  · rfl
  · rw [tried, ← askPools_draws]
    split <;> rename_i h <;> rw [h]

/-- The segment that a batch makes is under an id that it drew. -/
theorem allocate_new (h : b.allocate ids n = (.ok (s, b'), ids')) :
    ids.issued ≤ s.id ∧ s.id < ids'.issued ∧ b'.maxChunkSize = b.maxChunkSize := by
  unfold allocate at h
  split at h
  · cases h
  split at h
  · cases h
  · rename_i s₀ p ids₁ ha
    obtain ⟨hs, rfl⟩ := Prod.mk.inj h
    obtain ⟨rfl, rfl⟩ := Prod.mk.inj (Except.ok.inj hs)
    obtain ⟨hle, hlt⟩ := askPools_new ha
    have hid : ((s₀.inBatch b.id).stamp b.manager).id = s₀.id := by
      unfold Segment.stamp Segment.inBatch
      split <;> rfl
    rw [hid]
    exact ⟨hle, hlt, rfl⟩

/-- Why a batch does not serve a request. -/
theorem allocate_error (h : b.allocate ids n = (.error e, ids')) :
    b.sizeLimit < n ∧ e = .oversizedRequest n b.sizeLimit ∨
      n ≤ b.sizeLimit ∧ (e = .zeroSize ∨ e = .noMemory n ∨ e.Panics) := by
  unfold allocate at h
  split at h
  · rename_i hlt
    exact Or.inl ⟨hlt, (Except.error.inj (Prod.mk.inj h).1).symm⟩
  rename_i hle
  split at h
  · rename_i e₀ ids₁ ha
    obtain rfl := Except.error.inj (Prod.mk.inj h).1
    exact Or.inr ⟨Nat.le_of_not_lt hle, askPools_error ha⟩
  · cases h

theorem allocate_plain (h : b.allocate ids n = (.error e, ids')) : ¬e.Clash := by
  rcases allocate_error h with ⟨-, rfl⟩ | ⟨-, rfl | rfl | hpanics⟩
  · exact not_false
  · exact not_false
  · exact not_false
  · exact hpanics.plain

end Batch

/-! ## Regions -/

/-- The error says that a region, or the plan for one, is not to be had. -/
def Error.Setup : Error → Prop
  | zeroSize | invalidConfig _ | regionUnavailable .. | overflow _ => True
  | _ => False

theorem Error.Setup.plain {e : Error} (h : e.Setup) : ¬e.Clash := by
  unfold Setup at h
  split at h
  case h_5 => exact h.elim
  all_goals exact id

theorem Error.Setup.not_oversized {e : Error} (h : e.Setup) (n limit : Nat) : e ≠ .oversizedRequest n limit := by
  rintro rfl
  exact h

theorem Shm.create_setup {name : String} {size : Nat} {shm shm' : Shm} {e : Error}
    (h : shm.create name size = (.error e, shm')) : e.Setup := by
  unfold create at h
  split at h
  · rw [← Except.error.inj (Prod.mk.inj h).1]
    trivial
  split at h
  · rw [← Except.error.inj (Prod.mk.inj h).1]
    trivial
  split at h
  · rw [← Except.error.inj (Prod.mk.inj h).1]
    trivial
  split at h
  · rw [← Except.error.inj (Prod.mk.inj h).1]
    trivial
  · cases h

theorem Geometry.checkBins_setup {bins : List Bin} {bin : Nat} {e : Error}
    (h : checkBins bins bin = .error e) : e.Setup := by
  induction bins generalizing bin with
  | nil => cases h
  | cons b rest ih =>
    unfold checkBins at h
    split at h
    · rw [← Except.error.inj h]
      trivial
    split at h
    · rw [← Except.error.inj h]
      trivial
    · exact ih h

theorem Pool.create_setup {id chunkSize chunkCount base : Nat} {e : Error}
    (h : create id chunkSize chunkCount base = .error e) : e.Setup := by
  unfold create at h
  split at h
  · rw [← Except.error.inj h]
    trivial
  split at h
  · rw [← Except.error.inj h]
    trivial
  split at h
  · rw [← Except.error.inj h]
    trivial
  · cases h

namespace Batch

theorem layOut_setup {bins : List Bin} {bin offset : Nat} {e : Error}
    (h : layOut bins bin offset = .error e) : e.Setup := by
  induction bins generalizing bin offset with
  | nil => cases h
  | cons b rest ih =>
    rcases layOut_cons_eq_error h with hp | ⟨-, fault, rfl⟩ | hl
    · exact Pool.create_setup hp
    · trivial
    · exact ih hl

theorem create_setup {manager : String} {id : Nat} {g : Geometry} {shm shm' : Shm} {e : Error}
    (h : create manager id g shm = (.error e, shm')) : e.Setup := by
  unfold create at h
  split at h
  · rename_i e₀ hp
    rw [← Except.error.inj (Prod.mk.inj h).1]
    unfold plan at hp
    cases hc : g.check with
    | error e₁ =>
      simp only [hc, bind, Except.bind] at hp
      rw [← Except.error.inj hp]
      unfold Geometry.check at hc
      split at hc
      · rw [← Except.error.inj hc]
        trivial
      · exact Geometry.checkBins_setup hc
    | ok u =>
      simp only [hc, bind, Except.bind] at hp
      exact layOut_setup hp
  split at h
  · rename_i e₀ shm₁ hr
    rw [← Except.error.inj (Prod.mk.inj h).1]
    exact Shm.create_setup hr
  · cases h

theorem create_limit {manager : String} {id : Nat} {g : Geometry} {shm shm' : Shm} {b : Batch}
    (h : create manager id g shm = (.ok b, shm')) : b.maxChunkSize = g.maxChunkSize := by
  unfold create at h
  split at h
  · cases h
  split at h
  · cases h
  · rw [← Except.ok.inj (Prod.mk.inj h).1]

end Batch

/-- A region under an id that has none. -/
theorem Ephemeral.serve_plain {m : Ephemeral} {id n : Nat} {shm shm' : Shm} {e : Error}
    (hnone : m.region? id = none) (h : m.serve id n shm = (.error e, shm')) : ¬e.Clash := by
  unfold serve at h
  split at h
  · rw [← Except.error.inj (Prod.mk.inj h).1]
    exact not_false
  split at h
  · rename_i e₀ shm₁ hc
    rw [← Except.error.inj (Prod.mk.inj h).1]
    exact (Shm.create_setup hc).plain
  have hfree : m.regions.contains id = false := by
    rw [Table.contains_eq, Option.isSome_eq_false_iff, Option.isNone_iff_eq_none]
    exact hnone
  rw [hfree] at h
  cases (Prod.mk.inj h).1

/-! ## The cache -/

namespace Cache

variable {c c' : Cache} {ids ids' : Counter} {id n size : Nat} {content data : Bytes} {e : Error}

/-- A buffer goes under an id that has none. -/
theorem insert_plain {b : Buffer} (hnone : c.contents? id = none) : c.insert id b ≠ (.error e, c') := by
  intro h
  obtain ⟨hc, -⟩ := insert_error h
  rw [contains_eq, hnone] at hc
  cases hc

theorem beginStore_plain {answer : Except Error Buffer} (h : c.beginStore size = (answer, c')) :
    ∀ e, answer = .error e → ¬e.Clash := by
  rintro e rfl
  unfold beginStore at h
  split at h
  · rw [← Except.error.inj (Prod.mk.inj h).1]
    exact not_false
  · rw [BufferPool.acquire_error (Prod.ext (Prod.mk.inj h).1 rfl)]
    exact not_false

theorem place_plain (hnone : c.contents? id = none) (h : c.place id size content = (.error e, c')) :
    ¬e.Clash := by
  rw [place_eq] at h
  split at h
  · rename_i e₀ c₁ hb
    rw [← Except.error.inj (Prod.mk.inj h).1]
    exact beginStore_plain hb e₀ rfl
  · rename_i b c₁ hb
    have hnone : c₁.contents? id = none := by
      rw [(Working.begin_becomes (Or.inr hb)).contents, hnone]
    split at h
    · rename_i hi
      exact absurd hi (insert_plain hnone)
    · cases h

theorem swap_plain {b : Buffer} (h : c.swap id b = (.error e, c')) : ¬e.Clash := by
  unfold swap at h
  split at h
  · rw [← Except.error.inj (Prod.mk.inj h).1]
    exact not_false
  · cases h

/-- An offer to take bytes draws one id, unless there is no exchange region. -/
theorem offerMalloc_draws (h : c.offerMalloc ids n = (.error e, ids')) :
    ¬e.Clash ∧ (∀ m limit, e ≠ .oversizedRequest m limit) ∧
      ids'.issued = ids.issued + if e = .handoffDisabled then 0 else 1 := by
  unfold offerMalloc at h
  split at h
  · obtain ⟨he, rfl⟩ := Prod.mk.inj h
    obtain rfl := Except.error.inj he
    exact ⟨not_false, nofun, rfl⟩
  split at h
  · obtain ⟨he, rfl⟩ := Prod.mk.inj h
    obtain rfl := Except.error.inj he
    exact ⟨not_false, nofun, rfl⟩
  split at h
  · obtain ⟨he, rfl⟩ := Prod.mk.inj h
    obtain rfl := Except.error.inj he
    exact ⟨not_false, nofun, rfl⟩
  · cases h

end Cache

namespace EntryOp

variable {c : Cache} {ids : Counter} {op : EntryOp} {new : Option Nat} {e : Error}

/-- How many ids the operation draws. -/
def draws : EntryOp → Nat
  | malloc _ | store _ | storeWith .. => 1
  | _ => 0

theorem apply_draws (c : Cache) (ids : Counter) (op : EntryOp) :
    (op.apply c ids).2.issued = ids.issued + op.draws := by
  cases op with
  | store data =>
    show (c.store ids data).2.2.issued = _
    rw [Cache.store_eq]
    split <;> rfl
  | _ => rfl

/-- An operation makes an entry under the id that it draws, or none. -/
theorem answer_new {id : Nat} (h : op.answer c ids = .ok (some id)) : id = ids.issued ∧ op.draws = 1 := by
  have hstore : ∀ {size content s}, (c.storeWith ids size content).1 = .ok s → s.id = ids.issued := by
    intro size content s hs
    rw [Cache.storeWith_eq] at hs
    obtain ⟨-, -, rfl, -⟩ := Cache.place_ok (Prod.ext hs rfl)
    rfl
  cases op with
  | malloc size =>
    obtain ⟨s, hs, he⟩ := answered h
    exact ⟨(Option.some.inj he) ▸ hstore hs, rfl⟩
  | store data =>
    obtain ⟨s, hs, he⟩ := answered h
    rw [Cache.store_eq] at hs
    split at hs
    · cases hs
    · exact ⟨(Option.some.inj he) ▸ hstore hs, rfl⟩
  | storeWith size content =>
    obtain ⟨s, hs, he⟩ := answered h
    exact ⟨(Option.some.inj he) ▸ hstore hs, rfl⟩
  | clear => cases h
  | _ =>
    obtain ⟨-, -, he⟩ := answered h
    cases he

/-- An operation that succeeds and makes no entry draws no id. -/
theorem answer_old (h : op.answer c ids = .ok none) : op.draws = 0 := by
  cases op with
  | malloc size =>
    obtain ⟨s, -, he⟩ := answered h
    cases he
  | store data =>
    obtain ⟨s, -, he⟩ := answered h
    cases he
  | storeWith size content =>
    obtain ⟨s, -, he⟩ := answered h
    cases he
  | _ => rfl

/-- No operation finds its new id taken. -/
theorem answer_plain (hone : op.draws = 1) (hnone : c.contents? ids.issued = none)
    (h : op.answer c ids = .error e) : ¬e.Clash := by
  have hstore : ∀ {size content}, (c.storeWith ids size content).1 = .error e → ¬e.Clash := by
    intro size content hs
    rw [Cache.storeWith_eq] at hs
    exact Cache.place_plain hnone (Prod.ext hs rfl)
  cases op with
  | malloc size => exact hstore (refused h)
  | store data =>
    have hs := refused h
    rw [Cache.store_eq] at hs
    split at hs
    · rw [← Except.error.inj hs]
      exact not_false
    · exact hstore hs
  | storeWith size content => exact hstore (refused h)
  | _ => cases hone

end EntryOp

/-! ## Handoffs -/

theorem Shm.write_plain {shm : Shm} {r : Region} {offset : Nat} {data : Bytes} {e : Error}
    (h : shm.write r offset data = .error e) : ¬e.Clash := by
  rw [write_eq] at h
  split at h
  · cases h
  · rw [← Except.error.inj h]
    exact not_false

theorem Shm.read_plain {shm : Shm} {r : Region} {offset length : Nat} {e : Error}
    (h : shm.read r offset length = .error e) : ¬e.Clash := by
  rw [read_eq] at h
  split at h
  · cases h
  · rw [← Except.error.inj h]
    exact not_false

theorem Offer.place?_plain {o : Offer} {shm shm' : Shm} {e : Error}
    (h : o.place? shm = some (.error e, shm')) : ¬e.Clash := by
  unfold place? at h
  split at h
  · cases h
  split at h
  · rename_i e₀ hl
    obtain rfl := Except.error.inj (Prod.mk.inj (Option.some.inj h)).1
    unfold load at hl
    split at hl
    · cases hl
    · exact Shm.write_plain hl
  · cases h

namespace Pending

variable {p : Pending} {goal : Goal} {c c' : Cache} {shm shm' : Shm} {r : Except Error Segment} {e : Error}

theorem take_plain (hnone : p.direction = .inbound → c.contents? p.segment.id = none)
    (h : p.take c shm = (.error e, c')) : ¬e.Clash := by
  have hd := (take_error h).1
  unfold take at h
  rw [hd] at h
  simp only at h
  split at h
  · rename_i e₀ heap ha
    obtain rfl := Except.error.inj (Prod.mk.inj h).1
    rw [BufferPool.acquire_error ha]
    exact not_false
  split at h
  · rename_i e₀ hr
    obtain rfl := Except.error.inj (Prod.mk.inj h).1
    exact Shm.read_plain hr
  split at h
  · rename_i hi
    exact absurd hi (Cache.insert_plain (hnone hd))
  · cases h

theorem settle_plain (hnone : p.direction = .inbound → c.contents? p.segment.id = none)
    (h : p.settle? goal [] c shm = some (.error e, c', shm')) : ¬e.Clash := by
  rcases settle_cases h with ⟨shm₁, ht⟩ | ⟨he, -⟩
  · exact take_plain hnone ht
  · rw [Except.error.inj he]
    exact not_false

end Pending
end TierAlloc
