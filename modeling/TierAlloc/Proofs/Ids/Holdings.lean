import TierAlloc.Proofs.Ids.Draws

/-!
# Ids that are held

Who draws from a counter holds ids of two sorts: those that it has set aside for segments
that are still to be made, which are those of inbound handoffs and of callbacks at work,
and those under which there is something. A step draws ids, may set one aside and may
make a segment: under an id that it drew just now, or under one that was set aside.

**Results.**
* `Moves`: what a step does to the ids of one holder; `Moves.orderly`: they stay in order.
* `Working.Step.moves`: every step of a cache, with its handoffs and callbacks.
* `Working.Step.draws`, `Working.Step.plain`: how many ids it draws, and that none is taken.
-/
namespace TierAlloc

/-! ## Holdings -/

/-- The ids of one holder. -/
structure Holding where
  /-- Set aside for segments that are still to be made. -/
  reserved : List Nat
  /-- There is something under the id. -/
  taken : Nat → Prop

namespace Holding

/-- All ids were drawn, and those that are set aside are distinct and free. -/
structure Orderly (h : Holding) (ids : Counter) : Prop where
  nodup : h.reserved.Nodup
  lt : ∀ id ∈ h.reserved, id < ids.issued
  free : ∀ id ∈ h.reserved, ¬h.taken id
  drawn : ∀ id, h.taken id → id < ids.issued

/-- What a step does to the ids of one holder. `aside` is the id that it sets aside, and `made`
the one that it gives to a segment. -/
structure Moves (ids : Counter) (h : Holding) (aside made : Option Nat) (ids' : Counter) (h' : Holding) :
    Prop where
  ids_le : ids.issued ≤ ids'.issued
  nodup : h'.reserved.Nodup
  reserved : ∀ id ∈ h'.reserved, id ∈ h.reserved ∨ aside = some id
  aside_new : ∀ id, aside = some id → ids.issued ≤ id ∧ id < ids'.issued
  made_own : ∀ id, made = some id → (id ∈ h.reserved ∨ ids.issued ≤ id ∧ id < ids'.issued) ∧ id ∉ h'.reserved
  taken : ∀ id, h'.taken id → h.taken id ∨ made = some id

variable {h h' : Holding} {ids ids' : Counter} {id : Nat} {aside made : Option Nat}

theorem orderly_of_fresh (hnil : h.reserved = []) (hnone : ∀ id, ¬h.taken id) : h.Orderly ids where
  nodup := hnil ▸ .nil
  lt := by rw [hnil]; nofun
  free := by rw [hnil]; nofun
  drawn id hid := absurd hid (hnone id)

theorem Orderly.mono (ho : h.Orderly ids) (hle : ids.issued ≤ ids'.issued) : h.Orderly ids' where
  nodup := ho.nodup
  lt id hid := Nat.lt_of_lt_of_le (ho.lt id hid) hle
  free := ho.free
  drawn id hid := Nat.lt_of_lt_of_le (ho.drawn id hid) hle

theorem Orderly.not_taken (ho : h.Orderly ids) (hid : ids.issued ≤ id) : ¬h.taken id := fun ht =>
  absurd (ho.drawn id ht) (Nat.not_lt_of_le hid)

theorem Orderly.not_reserved (ho : h.Orderly ids) (hid : ids.issued ≤ id) : id ∉ h.reserved := fun hm =>
  absurd (ho.lt id hm) (Nat.not_lt_of_le hid)

/-- A step leaves the ids in order. -/
theorem Moves.orderly (hm : Moves ids h aside made ids' h') (ho : h.Orderly ids) : h'.Orderly ids' where
  nodup := hm.nodup
  lt id hid := by
    rcases hm.reserved id hid with hr | ha
    · exact Nat.lt_of_lt_of_le (ho.lt id hr) hm.ids_le
    · exact (hm.aside_new id ha).2
  free id hid ht := by
    rcases hm.taken id ht with ht | hmade
    · rcases hm.reserved id hid with hr | ha
      · exact ho.free id hr ht
      · exact ho.not_taken (hm.aside_new id ha).1 ht
    · exact (hm.made_own id hmade).2 hid
  drawn id ht := by
    rcases hm.taken id ht with ht | hmade
    · exact Nat.lt_of_lt_of_le (ho.drawn id ht) hm.ids_le
    · rcases (hm.made_own id hmade).1 with hr | hnew
      · exact Nat.lt_of_lt_of_le (ho.lt id hr) hm.ids_le
      · exact hnew.2

/-- A step that makes nothing and sets nothing aside. -/
theorem Moves.idle (hle : ids.issued ≤ ids'.issued) (hnodup : h'.reserved.Nodup)
    (hsub : ∀ id ∈ h'.reserved, id ∈ h.reserved) (htaken : ∀ id, h'.taken id → h.taken id) :
    Moves ids h none none ids' h' :=
  ⟨hle, hnodup, fun id hid => Or.inl (hsub id hid), nofun, nofun, fun id ht => Or.inl (htaken id ht)⟩

/-- A segment that is made has a new id. -/
theorem Orderly.make (ho : h.Orderly ids) (hle : ids.issued ≤ ids'.issued)
    (hnew : ∀ id, made = some id → ids.issued ≤ id ∧ id < ids'.issued) (hres : h'.reserved = h.reserved)
    (htaken : ∀ k, h'.taken k → h.taken k ∨ made = some k) : Moves ids h none made ids' h' where
  ids_le := hle
  nodup := hres ▸ ho.nodup
  reserved _ hk := Or.inl (hres ▸ hk)
  aside_new := nofun
  made_own _ hk := ⟨Or.inr (hnew _ hk), hres ▸ ho.not_reserved (hnew _ hk).1⟩
  taken := htaken

/-- A move of a part of what is held. -/
theorem Moves.within {r r' : List Nat} {p p' q q' : Nat → Prop} (hm : Moves ids ⟨r, p⟩ aside made ids' ⟨r', p'⟩)
    (hpart : ∀ id, p id → q id) (hrest : ∀ id, q' id → q id ∨ p' id) :
    Moves ids ⟨r, q⟩ aside made ids' ⟨r', q'⟩ :=
  ⟨hm.ids_le, hm.nodup, hm.reserved, hm.aside_new, hm.made_own, fun id hid =>
    (hrest id hid).elim Or.inl fun hp => (hm.taken id hp).imp_left (hpart id)⟩

theorem Orderly.part {r : List Nat} {p q : Nat → Prop} (ho : Orderly ⟨r, q⟩ ids) (hpart : ∀ id, p id → q id) :
    Orderly ⟨r, p⟩ ids :=
  ⟨ho.nodup, ho.lt, fun id hid hp => ho.free id hid (hpart id hp), fun id hp => ho.drawn id (hpart id hp)⟩

/-- The next id is set aside. -/
theorem Orderly.setAside (ho : h.Orderly ids) (hlt : ids.issued < ids'.issued)
    (hres : h'.reserved.Perm (ids.issued :: h.reserved)) (htaken : ∀ k, h'.taken k → h.taken k) :
    Moves ids h (some ids.issued) none ids' h' where
  ids_le := Nat.le_of_lt hlt
  nodup := hres.nodup_iff.mpr (List.nodup_cons.mpr ⟨ho.not_reserved (Nat.le_refl _), ho.nodup⟩)
  reserved k hk := by
    rcases List.mem_cons.mp (hres.mem_iff.mp hk) with rfl | hk
    · exact Or.inr rfl
    · exact Or.inl hk
  aside_new k hk := by
    obtain rfl := Option.some.inj hk
    exact ⟨Nat.le_refl _, hlt⟩
  made_own := nofun
  taken k hk := Or.inl (htaken k hk)

section
variable {m : Option Nat} (ho : h.Orderly ids) (hle : ids.issued ≤ ids'.issued)
  (hres : h.reserved.Perm (m.toList ++ h'.reserved))

include ho hle hres

/-- What an id may have been set aside for is made. -/
theorem Orderly.fulfil (htaken : ∀ k, h'.taken k → h.taken k ∨ m = some k) :
    Moves ids h none m ids' h' where
  ids_le := hle
  nodup := (List.nodup_append.mp (hres.nodup_iff.mp ho.nodup)).2.1
  reserved k hk := Or.inl (hres.mem_iff.mpr (List.mem_append_right _ hk))
  aside_new := nofun
  made_own k hk := by
    have hmem : k ∈ m.toList := Option.mem_toList.mpr hk
    have hapart := (List.nodup_append.mp (hres.nodup_iff.mp ho.nodup)).2.2
    exact ⟨Or.inl (hres.mem_iff.mpr (List.mem_append_left _ hmem)), fun hk' => hapart k hmem k hk' rfl⟩
  taken := htaken

/-- What an id may have been set aside for is given up. -/
theorem Orderly.abandon (htaken : ∀ k, h'.taken k → h.taken k) : Moves ids h none none ids' h' :=
  .idle hle (List.nodup_append.mp (hres.nodup_iff.mp ho.nodup)).2.1
    (fun _ hk => hres.mem_iff.mpr (List.mem_append_right _ hk)) htaken

end

end Holding

theorem update_ne_none {α : Type} {f : Nat → Option α} {id k : Nat} {v : Option α}
    (h : Function.update f id v k ≠ none) : f k ≠ none ∨ some id = some k := by
  by_cases he : k = id
  · exact Or.inr (congrArg some he.symm)
  · rw [Function.update_of_ne he] at h
    exact Or.inl h

/-! ## What handoffs and callbacks set aside -/

open Holding

/-- The id that the callback will make an entry under. -/
def Fill.reserves (f : Fill) : Option Nat :=
  match f.purpose with
  | .store => some f.id
  | .replace => none

/-- The ids that inbound handoffs and callbacks have set aside. -/
def setAside (t : Traffic) (fills : List Fill) : List Nat := t.awaited ++ fills.filterMap Fill.reserves

section
variable {t t' : Traffic} {fills : List Fill} {ids : Counter} {pre post : List Fill} {f : Fill}

theorem fresh_of_nodup (hn : (setAside t fills).Nodup) (hlt : ∀ id ∈ setAside t fills, id < ids.issued) :
    t.Fresh ids :=
  ⟨(List.nodup_append.mp hn).1, fun id hid => hlt id (List.mem_append_left _ hid)⟩

/-- What happens at the region sets no id aside. -/
theorem moves_exchange {taken : Nat → Prop} {manager : String} {allowed : Traffic → Descriptor → Prop}
    {shm shm' : Shm} {e : Traffic.Event} (ho : Orderly ⟨setAside t fills, taken⟩ ids)
    (hs : Traffic.Step manager allowed (shm, t) e (shm', t')) :
    Moves ids ⟨setAside t fills, taken⟩ none none ids ⟨setAside t' fills, taken⟩ := by
  obtain ⟨hfresh, hsub⟩ := (fresh_of_nodup ho.nodup ho.lt).step hs
  obtain ⟨-, hfills, hapart⟩ := List.nodup_append.mp ho.nodup
  refine .idle (Nat.le_refl _) ?_ (fun id hid => ?_) fun _ => id
  · exact List.nodup_append.mpr ⟨hfresh.nodup, hfills, fun id hid => hapart id (hsub id hid)⟩
  · exact List.mem_append.mpr ((List.mem_append.mp hid).imp_left (hsub id))

theorem setAside_finish {before after : List Cycle} {k : Cycle} (ht : t.cycles = before ++ k :: after)
    (fills : List Fill) : (setAside t fills).Perm
      (k.pending.awaits.toList ++ setAside { t with cycles := before ++ after } fills) := by
  unfold setAside
  rw [← List.append_assoc]
  exact (Traffic.Fresh.awaited_finish ht).append_right _

theorem Pending.awaits_of_inbound {p : Pending} (hd : p.direction = .inbound) : p.awaits = some p.segment.id := by
  rw [awaits, hd]

/-- The id of an inbound handoff is set aside. -/
theorem mem_setAside {before after : List Cycle} {k : Cycle} (ht : t.cycles = before ++ k :: after)
    (hd : k.pending.direction = .inbound) (fills : List Fill) : k.pending.segment.id ∈ setAside t fills := by
  refine (setAside_finish ht fills).mem_iff.mpr (List.mem_append_left _ ?_)
  rw [Pending.awaits_of_inbound hd]
  exact List.mem_singleton_self _

theorem setAside_filled (t : Traffic) (pre post : List Fill) (f : Fill) :
    (setAside t (pre ++ f :: post)).Perm (f.reserves.toList ++ setAside t (pre ++ post)) := by
  unfold setAside
  simp only [List.filterMap_append, List.filterMap_cons]
  cases f.reserves with
  | none => exact .refl _
  | some id =>
    simp only [Option.toList_some, List.singleton_append]
    rw [← List.append_assoc, ← List.append_assoc]
    exact List.perm_middle

end

/-! ## Steps of a cache -/

namespace Working

/-- The ids that a cache holds. -/
def holding (s : Working) : Holding :=
  ⟨setAside s.channel.traffic s.fills, fun id => s.channel.cache.contents? id ≠ none⟩

namespace Event

/-- The id that is set aside. -/
def aside? : Event → Option Nat
  | began .store id _ (.ok ()) => some id
  | channel (.askMalloc _ (.ok o)) => some o.id
  | _ => none

/-- What a call answers that is to make a segment, with the id of one that is made. -/
def outcome? : Event → Option (Except Error (Option Nat))
  | op o answer => if o.draws = 1 then some answer else none
  | began .store _ _ (.error e) => some (.error e)
  | finished f _ (.ok ()) => some (.ok f.reserves)
  | finished _ _ (.error e) => some (.error e)
  | channel (.askMalloc _ (.error e)) | channel (.exchange (.place _ (.error e))) => some (.error e)
  | channel (.wait k (.ok _)) | channel (.waitTimeout k (.ok _)) => some (.ok k.pending.awaits)
  | channel (.wait _ (.error e)) | channel (.waitTimeout _ (.error e)) => some (.error e)
  | _ => none

/-- The id of the segment that is made. -/
def made? (e : Event) : Option Nat :=
  match e.outcome? with
  | some (.ok made) => made
  | _ => none

theorem made?_op {o : EntryOp} {answer : Except Error (Option Nat)}
    (h : ∀ id, answer = .ok (some id) → o.draws = 1) : (op o answer).made? = answer.toOption.join := by
  by_cases hd : o.draws = 1
  · simp only [made?, outcome?, if_pos hd]
    cases answer <;> rfl
  · simp only [made?, outcome?, if_neg hd]
    cases answer with
    | error e => rfl
    | ok new =>
      cases new with
      | none => rfl
      | some id => exact absurd (h id rfl) hd

/-- How many ids are drawn. -/
def draws : Event → Nat
  | op o _ => o.draws
  | began .store _ _ _ => 1
  | channel (.askMalloc _ (.error .handoffDisabled)) => 0
  | channel (.askMalloc _ _) => 1
  | channel .draw => 1
  | _ => 0

end Event

variable {manager : String} {allowed : Traffic → Descriptor → Prop} {s s' : Working} {e : Event}

/-- Nothing is under an id that is awaited, or that was not drawn. -/
theorem contents_none (ho : s.holding.Orderly s.channel.ids) {id : Nat}
    (hid : id ∈ s.holding.reserved ∨ s.channel.ids.issued ≤ id) : s.channel.cache.contents? id = none := by
  by_contra hn
  exact hid.elim (fun hr => ho.free id hr hn) fun hge => ho.not_taken hge hn

/-- A step draws as many ids as its event says. -/
theorem Step.draws (hs : Step manager allowed s e s') :
    s'.channel.ids.issued = s.channel.ids.issued + e.draws := by
  cases hs with
  | op o => exact EntryOp.apply_draws ..
  | beganStore => rfl
  | refusedStore => rfl
  | beganReplace => rfl
  | refusedReplace => rfl
  | finished => rfl
  | channel he hs =>
    cases hs with
    | entry o => exact absurd rfl (he o)
    | askMalloc ho =>
      obtain ⟨-, -, -, rfl, -⟩ := Cache.offerMalloc_ok ho
      rfl
    | @denyMalloc n e ids ho =>
      obtain ⟨-, -, hids⟩ := Cache.offerMalloc_draws ho
      rw [hids]
      by_cases hd : e = .handoffDisabled
      · subst hd
        rfl
      · rw [if_neg hd]
        unfold Event.draws
        split <;> simp_all
    | _ => rfl

/-- No call finds the id of its segment taken. -/
theorem Step.plain (ho : s.holding.Orderly s.channel.ids) (hs : Step manager allowed s e s') {err : Error}
    (he : e.outcome? = some (.error err)) : ¬err.Clash := by
  have hsettle : ∀ {goal pre post cache shm} {k : Cycle} {r : Except Error Segment},
      s.channel.traffic.cycles = pre ++ k :: post →
      k.pending.settle? goal [] s.channel.cache s.channel.shm = some (r, cache, shm) →
      r = .error err → ¬err.Clash := by
    rintro goal pre post cache shm k r ht hw rfl
    exact Pending.settle_plain (fun hd => contents_none ho (Or.inl (mem_setAside ht hd s.fills))) hw
  cases hs with
  | op o hw =>
    simp only [Event.outcome?] at he
    split at he
    · rename_i hone
      exact EntryOp.answer_plain hone (contents_none ho (Or.inr (Nat.le_refl _))) (Option.some.inj he)
    · cases he
  | beganStore => cases he
  | refusedStore hb =>
    obtain rfl := Except.error.inj (Option.some.inj he)
    exact Cache.beginStore_plain hb _ rfl
  | beganReplace => cases he
  | refusedReplace => cases he
  | @finished pre f post content answer cache hf hd =>
    cases answer with
    | ok u => cases he
    | error e₀ =>
      obtain rfl := Except.error.inj (Option.some.inj he)
      unfold Fill.finish at hd
      split at hd
      · rename_i hp
        have hr : f.id ∈ s.holding.reserved := by
          rw [holding, hf, (setAside_filled ..).mem_iff, Fill.reserves, hp]
          exact List.mem_append_left _ (List.mem_singleton_self _)
        exact absurd hd (Cache.insert_plain (contents_none ho (Or.inl hr)))
      · exact Cache.swap_plain hd
  | channel hne hs =>
    cases hs with
    | entry o => exact absurd rfl (hne o)
    | denyMalloc ho =>
      obtain rfl := Except.error.inj (Option.some.inj he)
      exact (Cache.offerMalloc_draws ho).1
    | exchange hx =>
      cases hx with
      | refused ht hp =>
        obtain rfl := Except.error.inj (Option.some.inj he)
        exact Offer.place?_plain hp
      | _ => cases he
    | @wait pre k post r cache shm ht hw =>
      refine hsettle ht hw ?_
      cases r with
      | ok seg => cases he
      | error e₀ => rw [Except.error.inj (Option.some.inj he)]
    | @waitTimeout pre k post r cache shm ht hw =>
      refine hsettle ht hw ?_
      cases r with
      | ok seg => cases he
      | error e₀ => rw [Except.error.inj (Option.some.inj he)]
    | _ => cases he

theorem contents_congr {c c' : Cache} (h : c'.contents? = c.contents?) (id : Nat)
    (hid : c'.contents? id ≠ none) : c.contents? id ≠ none := by rwa [h] at hid

/-- What is stored under one id is under no other. -/
theorem contents_update {c c' : Cache} {id : Nat} {v : Option Bytes}
    (h : c'.contents? = Function.update c.contents? id v) (k : Nat) (hk : c'.contents? k ≠ none) :
    c.contents? k ≠ none ∨ some id = some k := by
  rw [h] at hk
  exact update_ne_none hk

/-- The end of a callback makes an entry under the id that was set aside for it, or none. -/
theorem finish_contents {c cache : Cache} {f : Fill} {content : Bytes} {answer : Except Error Unit}
    (h : f.finish c content = (answer, cache)) :
    (∀ e, answer = .error e → cache.contents? = c.contents?) ∧
      ∀ k, cache.contents? k ≠ none → c.contents? k ≠ none ∨ f.reserves = some k := by
  cases answer with
  | error e =>
    have hc := (Fill.finish_error h).contents
    exact ⟨fun _ _ => hc, fun k hk => Or.inl (contents_congr hc k hk)⟩
  | ok u =>
    refine ⟨nofun, fun k hk => ?_⟩
    unfold Fill.finish at h
    unfold Fill.reserves
    cases hp : f.purpose with
    | store =>
      rw [hp] at h
      exact contents_update (Cache.insert_ok h).2.contents k hk
    | replace =>
      rw [hp] at h
      obtain ⟨hc, hb⟩ := Cache.swap_ok h
      rw [Cache.contains_eq] at hc
      refine Or.inl fun hn => hk ?_
      rw [hb.contents]
      exact Cache.update_absent (Or.inl hc) k hn

/-- The end of a handoff. -/
theorem moves_settled (ho : s.holding.Orderly s.channel.ids) {goal : Goal} {pre post : List Cycle}
    {k : Cycle} {r : Except Error Segment} {cache : Cache} {shm : Shm}
    (ht : s.channel.traffic.cycles = pre ++ k :: post)
    (hs : k.pending.settle? goal [] s.channel.cache s.channel.shm = some (r, cache, shm)) :
    Moves s.channel.ids s.holding none (r.toOption.bind fun _ => k.pending.awaits) s.channel.ids
      ⟨setAside (Channel.ended s.channel.traffic pre post) s.fills, fun id => cache.contents? id ≠ none⟩ := by
  have hres := setAside_finish ht s.fills
  rcases Pending.settle_cases hs with ⟨shm₁, htake⟩ | ⟨rfl, rfl⟩
  · cases r with
    | error e =>
      have hb := (Pending.take_error htake).2
      exact ho.abandon (Nat.le_refl _) hres (contents_congr hb.contents)
    | ok seg =>
      refine ho.fulfil (Nat.le_refl _) hres fun id hid => ?_
      rcases Pending.take_entry htake with ⟨-, rfl⟩ | ⟨hd, -, bytes, -, hb⟩
      · exact Or.inl hid
      · rw [Pending.awaits_of_inbound hd]
        exact contents_update hb.contents id hid
  · exact ho.abandon (Nat.le_refl _) hres fun _ => id

/-- Whole operations. -/
theorem moves_op (ho : s.holding.Orderly s.channel.ids) {o : EntryOp} (hw : o.Whole) :
    Moves s.channel.ids s.holding none (o.answer s.channel.cache s.channel.ids).toOption.join
      (o.apply s.channel.cache s.channel.ids).2
      ⟨setAside s.channel.traffic s.fills,
        fun id => (o.apply s.channel.cache s.channel.ids).1.contents? id ≠ none⟩ := by
  have hkept := EntryOp.apply_kept s.channel.cache s.channel.ids o
  have hdraws := EntryOp.apply_draws s.channel.cache s.channel.ids o
  cases ha : o.answer s.channel.cache s.channel.ids with
  | error e =>
    have hc := EntryOp.contents_of_error hw ha
    exact .idle hkept.ids_le ho.nodup (fun _ => id) (contents_congr hc)
  | ok new =>
    cases new with
    | some id =>
      obtain ⟨rfl, hone⟩ := EntryOp.answer_new ha
      refine ho.make hkept.ids_le (fun k hk => ?_) rfl fun k hk => ?_
      · obtain rfl : s.channel.ids.issued = k := Option.some.inj hk
        omega
      · by_contra hn
        rw [not_or] at hn
        have hne : s.channel.ids.issued ≠ k := fun he => hn.2 (congrArg some he)
        exact hk (hkept.absent k (by omega) (by_contra hn.1))
    | none =>
      have hzero := EntryOp.answer_old ha
      refine .idle hkept.ids_le ho.nodup (fun _ => id) fun k hk => ?_
      by_contra hn
      exact hk (hkept.absent k (by omega) (by_contra hn))

/-- Every step of a cache is a move of its ids. -/
theorem Step.moves (ho : s.holding.Orderly s.channel.ids) (hs : Step manager allowed s e s') :
    Moves s.channel.ids s.holding e.aside? e.made? s'.channel.ids s'.holding := by
  cases hs with
  | op o hw =>
    have hm := moves_op ho hw
    have hmade := Event.made?_op fun id => fun ha : o.answer s.channel.cache s.channel.ids = .ok (some id) =>
      (EntryOp.answer_new ha).2
    rw [hmade]
    exact hm
  | beganStore hb =>
    have hc := (begin_becomes (Or.inr hb)).contents
    exact ho.setAside (Nat.lt_succ_self _) List.perm_middle (contents_congr hc)
  | refusedStore hb =>
    have hc := (begin_becomes (Or.inr hb)).contents
    exact .idle (Nat.le_succ _) ho.nodup (fun _ => id) (contents_congr hc)
  | beganReplace hb =>
    have hc := (begin_becomes (Or.inl ⟨_, hb⟩)).contents
    exact .idle (Nat.le_refl _) ho.nodup (fun _ => id) (contents_congr hc)
  | refusedReplace hb =>
    have hc := (begin_becomes (Or.inl ⟨_, hb⟩)).contents
    exact .idle (Nat.le_refl _) ho.nodup (fun _ => id) (contents_congr hc)
  | @finished pre f post content answer cache hf hd =>
    have hres : s.holding.reserved.Perm (f.reserves.toList ++ setAside s.channel.traffic (pre ++ post)) := by
      rw [holding, hf]
      exact setAside_filled ..
    obtain ⟨hkept, hfilled⟩ := finish_contents hd
    cases answer with
    | error e => exact ho.abandon (Nat.le_refl _) hres (contents_congr (hkept e rfl))
    | ok u => exact ho.fulfil (Nat.le_refl _) hres hfilled
  | channel he hs =>
    cases hs with
    | entry o => exact absurd rfl (he o)
    | askMalloc hask =>
      obtain ⟨x, -, -, rfl, rfl⟩ := Cache.offerMalloc_ok hask
      exact ho.setAside (Nat.lt_succ_self _) (.refl _) fun _ => id
    | denyMalloc hask =>
      refine .idle ?_ ho.nodup (fun _ => id) fun _ => id
      rw [(Cache.offerMalloc_draws hask).2.2]
      exact Nat.le_add_right _ _
    | askRetrieve _ hask =>
      obtain ⟨x, payload, -, -, -, rfl⟩ := Cache.offerRetrieve_ok hask
      exact .idle (Nat.le_refl _) ho.nodup (fun _ => id) fun _ => id
    | denyRetrieve => exact .idle (Nat.le_refl _) ho.nodup (fun _ => id) fun _ => id
    | @exchange e shm t hx =>
      have hm := moves_exchange ho hx
      cases hx <;> exact hm
    | @wait pre k post r cache shm ht hw =>
      have hm := moves_settled ho ht hw
      cases r <;> exact hm
    | @waitTimeout pre k post r cache shm ht hw =>
      have hm := moves_settled ho ht hw
      cases r <;> exact hm
    | drop ht => exact ho.abandon (Nat.le_refl _) (setAside_finish ht s.fills) fun _ => id
    | draw => exact .idle (Nat.le_succ _) ho.nodup (fun _ => id) fun _ => id
    | beside => exact .idle (Nat.le_refl _) ho.nodup (fun _ => id) fun _ => id

end Working
end TierAlloc
