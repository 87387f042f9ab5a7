import TierAlloc.Proofs.Allocator.Places

/-!
# Values of segments

The bytes of a live segment are in its place, or they are an entry of the cache.
`Allocator.value` is the map from ids to bytes that an allocator with its memory stands
for. Reading looks into that map, and each operation changes it as it would change a
map: at one id, or nowhere.

**Results.**
* `read_eq`, `exists_write`: reading and writing, by the value.
* `value_granted`, `value_freed`, `value_replaced`, `value_written`: operations that change
  the value of one segment.
* `value_keep`, `value_idle`, `value_refused`: what changes no value.
-/
namespace TierAlloc.Allocator

open Function (update)

variable {a a' : Allocator} {t : Traffic} {shm shm' : Shm} {s : Segment} {l : Ledger} {id offset : Nat}
  {data bytes : Bytes}

/-- The bytes of a live segment. -/
def value (a : Allocator) (shm : Shm) (id : Nat) : Option Bytes :=
  (a.ledger.segments id).bind fun s =>
    if s.tier = .cache then a.ledger.contents id else some (a.shown s shm)

theorem value_none (hs : a.ledger.segments id = none) (shm : Shm) : a.value shm id = none := by
  rw [value, hs, Option.bind_none]

theorem value_entry (hs : a.ledger.segments id = some s) (ht : s.tier = .cache) (shm : Shm) :
    a.value shm id = a.ledger.contents id := by
  rw [value, hs, Option.bind_some, if_pos ht]

theorem value_shown (hs : a.ledger.segments id = some s) (ht : s.tier ≠ .cache) (shm : Shm) :
    a.value shm id = some (a.shown s shm) := by
  rw [value, hs, Option.bind_some, if_neg ht]

/-- The entry of a cache segment has its size. -/
theorem exists_entry (h : Accounted a t) (hs : a.ledger.segments id = some s) (ht : s.tier = .cache) :
    ∃ bytes, a.ledger.contents id = some bytes ∧ bytes.length = s.size := by
  have hsize := h.balanced.cached id
  rw [sizeIn_of_some hs, if_pos ht, Option.map_eq_some_iff] at hsize
  exact hsize

theorem exists_value (h : Accounted a t) (hm : Mapping a shm) (hs : a.ledger.segments id = some s) :
    ∃ bytes, a.value shm id = some bytes ∧ bytes.length = s.size := by
  by_cases ht : s.tier = .cache
  · rw [value_entry hs ht]
    exact exists_entry h hs ht
  · obtain ⟨r, offset, hp, -⟩ := exists_place h hm hs ht
    refine ⟨_, value_shown hs ht shm, ?_⟩
    rw [shown_eq hp]
    simp [Shm.bytes]

/-! ## Reading and writing -/

/-- Reading a live segment gives its value. -/
theorem read_of_live (h : Accounted a t) (hm : Mapping a shm) (hs : a.ledger.segments id = some s)
    (hv : a.value shm id = some bytes) : a.read id shm = .ok bytes := by
  have hget := get_eq_ok.mpr hs
  obtain rfl := h.own s hs
  cases hk : s.kind with
  | cache place =>
    have ht : s.tier = .cache := Segment.tier_of_cache hk
    have hc : a.cache.contents? s.id = some bytes := (value_entry hs ht shm).symm.trans hv
    simp only [read, hget, bind, Except.bind, hk, Cache.retrieve, hc]
  | static batch bin start =>
    have ht : s.tier ≠ .cache := by simp [Segment.tier_of_static hk]
    obtain ⟨r, offset, hp, hle⟩ := exists_place h hm hs ht
    rw [value_shown hs ht, shown_eq hp, Option.some.injEq] at hv
    simp only [place?, hk, Option.map_eq_some_iff, Prod.mk.injEq] at hp
    obtain ⟨b, hb, rfl, rfl⟩ := hp
    have hoff : s.offset = start := by rw [Segment.offset, hk, Kind.offset]
    simp only [read, hget, bind, Except.bind, hk, hb, hoff, Shm.read_eq, if_pos hle, hv]
  | ephemeral =>
    have ht : s.tier ≠ .cache := by simp [Segment.tier_of_ephemeral hk]
    obtain ⟨r, offset, hp, hle⟩ := exists_place h hm hs ht
    rw [value_shown hs ht, shown_eq hp, Option.some.injEq] at hv
    simp only [place?, hk, Option.map_eq_some_iff, Prod.mk.injEq] at hp
    obtain ⟨q, hq, rfl, rfl⟩ := hp
    simp only [read, hget, bind, Except.bind, hk, hq, Shm.read_eq, if_pos hle, hv]

theorem read_of_dead (hs : a.ledger.segments id = none) (shm : Shm) :
    a.read id shm = .error (.segmentNotFound id) := by
  have hs : a.segments.get? id = none := hs
  simp only [read, get, hs, bind, Except.bind]

/-- Reading is looking the value up. -/
theorem read_eq (h : Accounted a t) (hm : Mapping a shm) (id : Nat) :
    a.read id shm = match a.value shm id with
      | some bytes => .ok bytes
      | none => .error (.segmentNotFound id) := by
  cases hs : a.ledger.segments id with
  | none =>
    rw [value_none hs]
    exact read_of_dead hs shm
  | some s =>
    obtain ⟨bytes, hv, -⟩ := exists_value h hm hs
    rw [hv]
    exact read_of_live h hm hs hv

/-- What fits in a live segment can be written to it. -/
theorem exists_write (h : Accounted a t) (hm : Mapping a shm) (hs : a.ledger.segments id = some s)
    (hle : offset + data.length ≤ s.size) :
    ∃ a' shm', a.write id offset data shm = .ok (a', shm') := by
  have hget := get_eq_ok.mpr hs
  have hfit : ¬s.size < offset + data.length := by omega
  obtain rfl := h.own s hs
  cases hk : s.kind with
  | cache place =>
    have ht : s.tier = .cache := Segment.tier_of_cache hk
    obtain ⟨bytes, hc, hlen⟩ := exists_entry h hs ht
    have hc : a.cache.contents? s.id = some bytes := hc
    obtain ⟨c, hmod⟩ := Cache.modify_of_contains hc offset data
    refine ⟨{ a with cache := c }, shm, ?_⟩
    simp only [write, hget, bind, Except.bind, hfit, if_false, hk, writeCached, hc, hlen, hle, if_true,
      hmod, pure, Except.pure]
  | static batch bin start =>
    have ht : s.tier ≠ .cache := by simp [Segment.tier_of_static hk]
    obtain ⟨r, o, hp, hin⟩ := exists_place h hm hs ht
    simp only [place?, hk, Option.map_eq_some_iff, Prod.mk.injEq] at hp
    obtain ⟨b, hb, rfl, rfl⟩ := hp
    have hoff : s.offset = start := by rw [Segment.offset, hk, Kind.offset]
    have hle : start + offset + data.length ≤ b.region.size := by omega
    refine ⟨a, shm.store b.region (start + offset) data, ?_⟩
    simp only [write, hget, bind, Except.bind, hfit, if_false, hk, hb, hoff, Shm.write_eq, if_pos hle,
      pure, Except.pure]
  | ephemeral =>
    have ht : s.tier ≠ .cache := by simp [Segment.tier_of_ephemeral hk]
    obtain ⟨r, o, hp, hin⟩ := exists_place h hm hs ht
    simp only [place?, hk, Option.map_eq_some_iff, Prod.mk.injEq] at hp
    obtain ⟨q, hq, rfl, rfl⟩ := hp
    have hle : offset + data.length ≤ q.size := by omega
    refine ⟨a, shm.store q offset data, ?_⟩
    simp only [write, hget, bind, Except.bind, hfit, if_false, hk, hq, Shm.write_eq, if_pos hle, pure,
      Except.pure]

/-! ## What changes no value -/

/-- A segment that is as it was, in a region that is as it was, has the value that it had. -/
theorem value_other (h : Accounted a t) (hm : Mapping a shm) (hb : a.Becomes l a')
    (hbatches : Persist a.ledger.batches l.batches) (hsegs : l.segments id = a.ledger.segments id)
    (hconts : l.contents id = a.ledger.contents id) (hregion : l.regions id = a.ledger.regions id)
    (hm' : Mapping a' shm') (hk : ∀ n, a.Uses n → a'.Uses n → Shm.Keeps n shm shm') :
    a'.value shm' id = a.value shm id := by
  have hsegs : a'.ledger.segments id = a.ledger.segments id := by rw [hb.ledger, hsegs]
  cases hs : a.ledger.segments id with
  | none => rw [value_none hs, value_none (hsegs.trans hs)]
  | some s =>
    by_cases ht : s.tier = .cache
    · rw [value_entry hs ht, value_entry (hsegs.trans hs) ht, hb.ledger, hconts]
    · obtain ⟨r, offset, hp, -⟩ := exists_place h hm hs ht
      obtain rfl := h.own s hs
      have hp' := place?_becomes hb hbatches hregion hp
      obtain ⟨huses, hshows, -⟩ := place_cases hm hp
      obtain ⟨huses', -⟩ := place_cases hm' hp'
      rw [value_shown hs ht, value_shown (hsegs.trans hs) ht, shown_eq hp, shown_eq hp',
        hshows.bytes_eq (hk _ huses huses')]

/-- What happens to memory elsewhere. -/
theorem value_keep (h : Accounted a t) (hm : Mapping a shm) (hk : ∀ n, a.Uses n → Shm.Keeps n shm shm') :
    a.value shm' = a.value shm :=
  funext fun _ => value_other h hm (.refl a) (.refl _) rfl rfl rfl (hm.keep hk) fun n hn _ => hk n hn

theorem value_idle (h : Accounted a t) (hm : Mapping a shm) (hb : a.Becomes a.ledger a') :
    a'.value shm = a.value shm :=
  funext fun _ => value_other h hm hb (.refl _) rfl rfl rfl (hm.idle hb rfl rfl) fun n _ _ => .refl n shm

theorem value_grown (h : Accounted a t) (hm : Mapping a shm) (hg : a.Grown shm a' shm') :
    a'.value shm' = a.value shm := by
  obtain ⟨hm', hk⟩ := hm.grown hg
  have hkeep : ∀ n, a.Uses n → a'.Uses n → Shm.Keeps n shm shm' := fun n hn _ => hk n (Or.inl hn)
  funext id
  cases hg with
  | refused hb => exact value_other h hm hb (.refl _) rfl rfl rfl hm' hkeep
  | added _ hb => exact value_other h hm hb (persist_append _ _) rfl rfl rfl hm' hkeep

theorem value_refused (h : Accounted a t) (hm : Mapping a shm) (hr : a.Refused shm a' shm') :
    a'.value shm' = a.value shm := by
  have hfree := h.regions_none (h.unissued _ (Nat.le_refl _))
  obtain ⟨hm', hk⟩ := hm.refused hfree hr
  cases hr with
  | grown hg => exact value_grown h hm hg
  | unnamed hb =>
    exact funext fun _ => value_other h hm hb (.refl _) rfl rfl rfl hm' fun n hn _ => hk n (Or.inl hn)

/-! ## What changes the value of one segment -/

/-- When the segments but one are as they were, so are their values. -/
theorem value_update (h : Accounted a t) (hm : Mapping a shm) (hb : a.Becomes l a')
    (hbatches : Persist a.ledger.batches l.batches) {k : Nat}
    (hsegs : ∀ id, id ≠ k → l.segments id = a.ledger.segments id)
    (hconts : ∀ id, id ≠ k → l.contents id = a.ledger.contents id)
    (hregion : ∀ id, id ≠ k → l.regions id = a.ledger.regions id)
    (hm' : Mapping a' shm') (hk : ∀ n, a.Uses n → a'.Uses n → Shm.Keeps n shm shm') :
    a'.value shm' = update (a.value shm) k (a'.value shm' k) := by
  funext id
  rw [Function.update_apply]
  split
  · rename_i hid
    rw [hid]
  · rename_i hid
    exact value_other h hm hb hbatches (hsegs id hid) (hconts id hid) (hregion id hid) hm' hk

theorem segments_record (hb : a.Becomes (l.record s) a') : a'.ledger.segments s.id = some s := by
  rw [hb.ledger]
  exact Function.update_self ..

theorem segments_forget {k : Nat} (hb : a.Becomes (l.forget k) a') : a'.ledger.segments k = none := by
  rw [hb.ledger]
  exact Function.update_self ..

/-- An entry that is made or replaced together with its segment has the new content. -/
theorem value_stored (h : Accounted a t) (hm : Mapping a shm) (ht : s.tier = .cache)
    (hb : a.Becomes ((a.ledger.setContents s.id (some bytes)).record s) a') :
    a'.value shm = update (a.value shm) s.id (some bytes) := by
  rw [value_update h hm hb (.refl _) (fun _ hid => Function.update_of_ne hid ..)
    (fun _ hid => Function.update_of_ne hid ..) (fun _ _ => rfl) (hm.idle hb rfl rfl)
    fun n _ _ => .refl n _, value_entry (segments_record hb) ht, hb.ledger]
  congr 1
  exact Function.update_self ..

theorem value_granted (h : Accounted a t) (hm : Mapping a shm) {content : Bytes}
    (hg : a.Granted shm content s a' shm') :
    a'.value shm' = update (a.value shm) s.id
      (some (if s.tier = .cache then content else a'.shown s shm')) := by
  obtain ⟨hm', hk⟩ := hm.granted hg
  cases hg with
  | stored _ hs =>
    have ht : s.tier = .cache := Segment.tier_of_cache hs.kind
    obtain rfl := hs.memory
    rw [if_pos ht, value_stored h hm ht hs.after]
  | took hgrown htook =>
    have ht : s.tier ≠ .cache := by simp [Segment.tier_of_static htook.served.kind]
    obtain ⟨hm₁, -⟩ := hm.grown hgrown
    rw [if_neg ht, ← value_grown h hm hgrown, ← value_shown (segments_record htook.after) ht]
    exact value_update (h.grown hgrown) hm₁ htook.after (persist_putPool htook.batch _)
      (fun _ hid => Function.update_of_ne hid ..) (fun _ _ => rfl) (fun _ _ => rfl) hm'
      fun n _ _ => .refl n _
  | mapped hmap =>
    have ht : s.tier ≠ .cache := by simp [Segment.tier_of_ephemeral hmap.kind]
    rw [if_neg ht, ← value_shown (segments_record hmap.after) ht]
    exact value_update h hm hmap.after (.refl _) (fun _ hid => Function.update_of_ne hid ..)
      (fun _ _ => rfl) (fun _ hid => Function.update_of_ne hid ..) hm' fun n hn _ => hk n (Or.inl hn)

theorem value_freed (h : Accounted a t) (hm : Mapping a shm) (hf : a.Freed shm s a' shm') :
    a'.value shm' = update (a.value shm) s.id none := by
  obtain ⟨hm', hk⟩ := hm.freed hf
  have hkeep : ∀ n, a.Uses n → a'.Uses n → Shm.Keeps n shm shm' := fun n _ hn => hk n (Or.inl hn)
  cases hf with
  | chunks _ hb _ _ hafter =>
    rw [← value_none (segments_forget hafter) shm]
    exact value_update h hm hafter (persist_putPool hb _) (fun _ hid => Function.update_of_ne hid ..)
      (fun _ _ => rfl) (fun _ _ => rfl) hm' hkeep
  | region _ _ hafter =>
    rw [← value_none (segments_forget hafter) (shm.release _)]
    exact value_update h hm hafter (.refl _) (fun _ hid => Function.update_of_ne hid ..)
      (fun _ _ => rfl) (fun _ hid => Function.update_of_ne hid ..) hm' hkeep
  | entry _ hafter =>
    rw [← value_none (segments_forget hafter) shm]
    exact value_update h hm hafter (.refl _) (fun _ hid => Function.update_of_ne hid ..)
      (fun _ hid => Function.update_of_ne hid ..) (fun _ _ => rfl) hm' hkeep

theorem value_replaced (h : Accounted a t) (hm : Mapping a shm) {r : Replacement}
    (hr : r.apply a = (.ok (), a')) :
    a'.value shm = update (a.value shm) r.id (some r.content) := by
  obtain ⟨s, -, hid, ht, hb⟩ := Replacement.ok h.own hr
  rw [← hid] at hb ⊢
  exact value_stored (s := { s with size := r.content.length }) h hm ht hb

/-- A store in the place of one segment is not seen in those of the others. -/
theorem value_store (h : Accounted a t) (hm : Mapping a shm) {r : Region} {start : Nat}
    (hs : a.ledger.segments s.id = some s) (ht : s.tier ≠ .cache) (hp : a.place? s = some (r, start))
    (hle : offset + data.length ≤ s.size) :
    a.value (shm.store r (start + offset) data) =
      update (a.value shm) s.id (some ((a.shown s shm).splice offset data)) := by
  have hobject := ((place_cases hm hp).2.1).object_lt
  funext id
  rw [Function.update_apply]
  split
  · rename_i hid
    rw [hid, value_shown hs ht, shown_eq hp, shown_eq hp, Shm.bytes_store_within shm hobject _ _ _ _ hle]
  · rename_i hid
    cases hs' : a.ledger.segments id with
    | none => rw [value_none hs', value_none hs']
    | some s' =>
      by_cases ht' : s'.tier = .cache
      · rw [value_entry hs' ht', value_entry hs' ht']
      · obtain ⟨r', start', hp', -⟩ := exists_place h hm hs' ht'
        have hapart := places_apart h hm hs hs' (Ne.symm hid) hp hp'
        rw [value_shown hs' ht', value_shown hs' ht', shown_eq hp', shown_eq hp',
          Shm.bytes_store_of_disjoint shm hobject]
        omega

theorem value_written (h : Accounted a t) (hm : Mapping a shm) (hs : a.ledger.segments s.id = some s)
    (hle : offset + data.length ≤ s.size) (hw : a.Written shm s offset data a' shm') :
    a'.value shm' = update (a.value shm) s.id ((a.value shm s.id).map (·.splice offset data)) := by
  cases hw with
  | chunks hk hb =>
    have ht : s.tier ≠ .cache := by simp [Segment.tier_of_static hk]
    rw [value_store h hm hs ht (place?_static hk hb) hle, value_shown hs ht, Option.map_some]
  | region hk hr =>
    have ht : s.tier ≠ .cache := by simp [Segment.tier_of_ephemeral hk]
    have hv := value_store h hm hs ht (place?_ephemeral hk hr) hle
    rw [Nat.zero_add] at hv
    rw [hv, value_shown hs ht, Option.map_some]
  | entry ht hstored _ hafter =>
    have hsegs : a'.ledger.segments s.id = some s := by
      rw [hafter.ledger]
      exact hs
    rw [value_update h hm hafter (.refl _) (fun _ _ => rfl) (fun _ hid => Function.update_of_ne hid ..)
      (fun _ _ => rfl) (hm.idle hafter rfl rfl) fun n _ _ => .refl n _, value_entry hsegs ht,
      value_entry hs ht, hstored, hafter.ledger]
    congr 1
    exact Function.update_self ..

end TierAlloc.Allocator
