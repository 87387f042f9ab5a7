import TierAlloc.Proofs.Allocator.Steady
import TierAlloc.Proofs.Ids.Family
import TierAlloc.Proofs.Shared.Footprint

/-!
# The regions that an allocator holds

An allocator holds a region for each batch, one for each ephemeral segment and one for its
exchanges, each under its own name (`Allocator.Holds`). While nobody else has a hand in these
names, what is under them is exactly what is held, and letting a region go takes its name away
(`Shm.Tenure`).

**Results.**
* `Tenure.made`, `Tenure.lost`, `Tenure.released`, `Tenure.elsewhere`: what happens to the names.
* `Holds.add_batch`, `Holds.add_segment`, `Holds.add_exchange`, `Holds.less_segments`: what
  happens to the regions.
-/
namespace TierAlloc

open Shm (Made Shows Mappable Steady)

/-! ## Names that are held -/

namespace Shm

/-- The region `r` is what is under the name `n`, and it has one holder. -/
structure Leased (n : String) (r : Region) (s : Shm) : Prop where
  shows : Shows n r s
  mappable : Mappable n r.size
  claim : ∃ c, r.claim = some c ∧ c < s.claims ∧ c ∉ s.shared

/-- What is under the names of `manager` is what is held. -/
structure Tenure (manager : String) (holds : String → Region → Prop) (s : Shm) : Prop where
  issued : ∀ c ∈ s.shared, c < s.claims
  own : ∀ {n r}, holds n r → OfManager manager n
  leased : ∀ {n r}, holds n r → Leased n r s
  known : ∀ {n}, OfManager manager n → s.names.get? n ≠ none → ∃ r, holds n r

/-- What goes on elsewhere: the names of `manager` stay with what is under them, and nobody
becomes one more holder of a region that is held. -/
structure Elsewhere (manager : String) (holds : String → Region → Prop) (s s' : Shm) : Prop where
  names : ∀ n, OfManager manager n → s'.names.get? n = s.names.get? n
  sizes : ∀ n i, OfManager manager n → s.names.get? n = some i → (s'.object i).size = (s.object i).size
  claims : s.claims ≤ s'.claims
  issued : ∀ c ∈ s'.shared, c < s'.claims
  unshared : ∀ n r c, holds n r → r.claim = some c → c ∉ s.shared → c ∉ s'.shared

variable {manager n : String} {holds : String → Region → Prop} {s s' : Shm} {r : Region} {size : Nat}

namespace Tenure

theorem elsewhere (h : Tenure manager holds s) (he : Elsewhere manager holds s s') : Tenure manager holds s' where
  issued := he.issued
  own := h.own
  leased hr := by
    obtain ⟨⟨hname, hnamed, hsized⟩, hmap, c, hc, hlt, hs⟩ := h.leased hr
    have hn := h.own hr
    exact ⟨⟨hname, (he.names _ hn).trans hnamed, (he.sizes _ _ hn hnamed).trans hsized⟩, hmap, c, hc,
      Nat.lt_of_lt_of_le hlt he.claims, he.unshared _ _ c hr hc hs⟩
  known hn hi := h.known hn (by rwa [he.names _ hn] at hi)

theorem steady (h : Tenure manager holds s) (hs : Steady s s') : Tenure manager holds s' := by
  refine h.elsewhere ⟨fun n _ => by rw [hs.names], fun n i _ _ => hs.sizes i, Nat.le_of_eq hs.claims.symm, ?_, ?_⟩
  · rw [hs.claims, hs.shared]
    exact h.issued
  · rw [hs.shared]
    exact fun _ _ _ _ _ hc => hc

/-- A region is made under a name that was free. -/
theorem made (h : Tenure manager holds s) (hn : OfManager manager n) (hfree : ∀ q, ¬holds n q)
    (hm : Made n size s r s') : Tenure manager (fun n' q => holds n' q ∨ n' = n ∧ q = r) s' where
  issued c hc := by
    rw [hm.shared] at hc
    rw [hm.claims]
    exact Nat.lt_succ_of_lt (h.issued c hc)
  own hr := by
    rcases hr with hr | ⟨rfl, -⟩
    · exact h.own hr
    · exact hn
  leased {n' q} hr := by
    rcases hr with hr | ⟨rfl, rfl⟩
    · have hne : n' ≠ n := fun he => hfree q (he ▸ hr)
      obtain ⟨hshows, hmap, c, hc, hlt, hs⟩ := h.leased hr
      refine ⟨hshows.keep (hm.keeps hne), hmap, c, hc, ?_, ?_⟩
      · rw [hm.claims]
        exact Nat.lt_succ_of_lt hlt
      · rwa [hm.shared]
    · refine ⟨hm.shows, ⟨hm.valid, ?_, ?_⟩, s.claims, hm.claim, ?_, ?_⟩
      · rw [hm.size_eq]
        exact hm.positive
      · rw [hm.size_eq]
        exact hm.below
      · rw [hm.claims]
        exact Nat.lt_succ_self _
      · rw [hm.shared]
        exact fun hc => Nat.lt_irrefl _ (h.issued _ hc)
  known {n'} hn' hi := by
    by_cases he : n' = n
    · exact ⟨r, Or.inr ⟨he, rfl⟩⟩
    · rw [hm.names n' he] at hi
      obtain ⟨q, hq⟩ := h.known hn' hi
      exact ⟨q, Or.inl hq⟩

theorem unlinked (h : Tenure manager holds s) (n : String) :
    Tenure manager (fun n' q => holds n' q ∧ n' ≠ n) (s.unlink n) where
  issued := h.issued
  own hr := h.own hr.1
  leased hr := by
    obtain ⟨hshows, hmap, hclaim⟩ := h.leased hr.1
    exact ⟨hshows.keep (keeps_unlink hr.2), hmap, hclaim⟩
  known {n'} hn' hi := by
    rw [get?_unlink] at hi
    split at hi
    · exact absurd rfl hi
    · rename_i hne
      obtain ⟨q, hq⟩ := h.known hn' hi
      exact ⟨q, hq, hne⟩

/-- A name that is not in use is taken away. -/
theorem lost (h : Tenure manager holds s) (hfree : ∀ q, ¬holds n q) : Tenure manager holds (s.unlink n) := by
  have hsame : (fun n' q => holds n' q ∧ n' ≠ n) = holds := by
    funext n' q
    exact propext ⟨And.left, fun hq => ⟨hq, fun he => hfree q (he ▸ hq)⟩⟩
  rw [← hsame]
  exact h.unlinked n

/-- Regions with one holder each are let go. -/
theorem released {rs : List Region} (h : Tenure manager holds s)
    (hrs : ∀ r ∈ rs, ∃ c, r.claim = some c ∧ c ∉ s.shared) :
    Tenure manager (fun n q => holds n q ∧ ¬∃ r ∈ rs, n = r.name) (rs.foldl release s) := by
  induction rs generalizing holds s with
  | nil => simpa using h
  | cons r rest ih =>
    obtain ⟨⟨c, hc, hs⟩, hrest⟩ := List.forall_mem_cons.mp hrs
    rw [List.foldl_cons, s.release_unshared hc hs]
    have h' := ih (h.unlinked r.name) hrest
    simpa only [List.exists_mem_cons_iff, not_or, and_assoc] using h'

/-- Regions that are held have one holder each. -/
theorem claims {rs : List Region} (h : Tenure manager holds s) (hrs : ∀ r ∈ rs, ∃ n, holds n r) :
    ∀ r ∈ rs, ∃ c, r.claim = some c ∧ c ∉ s.shared := fun r hr => by
  obtain ⟨n, hn⟩ := hrs r hr
  obtain ⟨c, hc, -, hs⟩ := (h.leased hn).claim
  exact ⟨c, hc, hs⟩

/-- All regions are let go. -/
theorem vacated {rs : List Region} (h : Tenure manager holds s) (hrs : ∀ r ∈ rs, ∃ n, holds n r)
    (hall : ∀ n r, holds n r → r ∈ rs) : Tenure manager (fun _ _ => False) (rs.foldl release s) := by
  have hnone : (fun n q => holds n q ∧ ¬∃ r ∈ rs, n = r.name) = fun _ _ => False := by
    funext n q
    exact eq_false fun ⟨hq, hn⟩ => hn ⟨q, hall n q hq, (h.leased hq).shows.name_eq.symm⟩
  rw [← hnone]
  exact h.released (h.claims hrs)

end Tenure
end Shm

open Shm (Tenure)

/-! ## What an allocator holds -/

/-- The regions of a manager, each under its name. -/
inductive Holds (manager : String) (batches : List Region) (segments : Nat → Option Region)
    (exchange : Option Region) : String → Region → Prop
  | batch {i r} (h : batches[i]? = some r) : Holds manager batches segments exchange (staticRegionName manager i) r
  | segment {id r} (h : segments id = some r) :
      Holds manager batches segments exchange (ephemeralRegionName manager id) r
  | exchange {r} (h : exchange = some r) : Holds manager batches segments exchange (cacheRegionName manager) r

namespace Holds

variable {manager n : String} {batches : List Region} {segments : Nat → Option Region} {exchange : Option Region}
  {r : Region} {i id : Nat}

theorem static_iff : Holds manager batches segments exchange (staticRegionName manager i) r ↔
    batches[i]? = some r := by
  refine ⟨fun h => ?_, .batch⟩
  generalize hn : staticRegionName manager i = n at h
  cases h with
  | batch h => rwa [(staticRegionName_eq hn).2]
  | segment => exact absurd hn.symm (ephemeralRegionName_ne_static _ _ _ _)
  | exchange => exact absurd hn (staticRegionName_ne_cache _ _ _)

theorem ephemeral_iff : Holds manager batches segments exchange (ephemeralRegionName manager id) r ↔
    segments id = some r := by
  refine ⟨fun h => ?_, .segment⟩
  generalize hn : ephemeralRegionName manager id = n at h
  cases h with
  | batch => exact absurd hn (ephemeralRegionName_ne_static _ _ _ _)
  | segment h => rwa [(ephemeralRegionName_eq hn).2]
  | exchange => exact absurd hn (ephemeralRegionName_ne_cache _ _ _)

theorem cache_iff : Holds manager batches segments exchange (cacheRegionName manager) r ↔ exchange = some r := by
  refine ⟨fun h => ?_, .exchange⟩
  generalize hn : cacheRegionName manager = n at h
  cases h with
  | batch => exact absurd hn.symm (staticRegionName_ne_cache _ _ _)
  | segment => exact absurd hn.symm (ephemeralRegionName_ne_cache _ _ _)
  | exchange h => exact h

/-- To begin with there is none. -/
theorem empty : Holds manager [] (fun _ => none) none = fun _ _ => False := by
  funext n q
  exact eq_false fun h => by cases h <;> contradiction

/-- One more batch. -/
theorem add_batch (r : Region) : Holds manager (batches ++ [r]) segments exchange =
    fun n q => Holds manager batches segments exchange n q ∨ n = staticRegionName manager batches.length ∧ q = r := by
  funext n q
  refine propext ⟨fun h => ?_, fun h => ?_⟩
  · cases h with
    | @batch i _ h =>
      rcases Nat.lt_trichotomy i batches.length with hlt | rfl | hgt
      · rw [List.getElem?_append_left hlt] at h
        exact Or.inl (.batch h)
      · rw [List.getElem?_concat_length] at h
        exact Or.inr ⟨rfl, (Option.some.inj h).symm⟩
      · rw [List.getElem?_eq_none (by simp only [List.length_append, List.length_singleton]; omega)] at h
        cases h
    | segment h => exact Or.inl (.segment h)
    | exchange h => exact Or.inl (.exchange h)
  · rcases h with h | ⟨rfl, rfl⟩
    · cases h with
      | batch h => exact .batch (by rw [List.getElem?_append_left (List.getElem?_eq_some_iff.mp h).1, h])
      | segment h => exact .segment h
      | exchange h => exact .exchange h
    · exact .batch List.getElem?_concat_length

/-- One more segment. -/
theorem add_segment (hnone : segments id = none) (r : Region) :
    Holds manager batches (Function.update segments id (some r)) exchange =
      fun n q => Holds manager batches segments exchange n q ∨ n = ephemeralRegionName manager id ∧ q = r := by
  funext n q
  refine propext ⟨fun h => ?_, fun h => ?_⟩
  · cases h with
    | batch h => exact Or.inl (.batch h)
    | @segment k _ h =>
      rw [Function.update_apply] at h
      split at h
      · rename_i hk
        exact Or.inr ⟨by rw [hk], (Option.some.inj h).symm⟩
      · exact Or.inl (.segment h)
    | exchange h => exact Or.inl (.exchange h)
  · rcases h with h | ⟨rfl, rfl⟩
    · cases h with
      | batch h => exact .batch h
      | @segment k _ h =>
        refine .segment ?_
        rwa [Function.update_of_ne]
        rintro rfl
        rw [hnone] at h
        cases h
      | exchange h => exact .exchange h
    · exact .segment (Function.update_self ..)

/-- A region for exchanges. -/
theorem add_exchange (r : Region) : Holds manager batches segments (some r) =
    fun n q => Holds manager batches segments none n q ∨ n = cacheRegionName manager ∧ q = r := by
  funext n q
  refine propext ⟨fun h => ?_, fun h => ?_⟩
  · cases h with
    | batch h => exact Or.inl (.batch h)
    | segment h => exact Or.inl (.segment h)
    | exchange h => exact Or.inr ⟨rfl, (Option.some.inj h).symm⟩
  · rcases h with h | ⟨rfl, rfl⟩
    · cases h with
      | batch h => exact .batch h
      | segment h => exact .segment h
      | exchange h => cases h
    · exact .exchange rfl

/-- Fewer segments. -/
theorem less_segments {segments' : Nat → Option Region} {gone : String → Prop}
    (hgone : ∀ n, gone n → ∃ id, n = ephemeralRegionName manager id)
    (hsegs : ∀ id r, segments' id = some r ↔ segments id = some r ∧ ¬gone (ephemeralRegionName manager id)) :
    Holds manager batches segments' exchange =
      fun n q => Holds manager batches segments exchange n q ∧ ¬gone n := by
  funext n q
  refine propext ⟨fun h => ?_, fun ⟨h, hn⟩ => ?_⟩
  · cases h with
    | batch h =>
      refine ⟨.batch h, fun hg => ?_⟩
      obtain ⟨id, he⟩ := hgone _ hg
      exact ephemeralRegionName_ne_static _ _ _ _ he.symm
    | segment h =>
      obtain ⟨h, hn⟩ := (hsegs _ _).mp h
      exact ⟨.segment h, hn⟩
    | exchange h =>
      refine ⟨.exchange h, fun hg => ?_⟩
      obtain ⟨id, he⟩ := hgone _ hg
      exact ephemeralRegionName_ne_cache _ _ _ he.symm
  · cases h with
    | batch h => exact .batch h
    | segment h => exact .segment ((hsegs _ _).mpr ⟨h, hn⟩)
    | exchange h => exact .exchange h

end Holds

/-- The allocator has the region `r` under the name `n`. -/
def Allocator.Holds (a : Allocator) : String → Region → Prop :=
  TierAlloc.Holds a.name (a.batches.map Batch.region) a.ephemeral.region? (a.cache.exchange.map Exchange.region)

end TierAlloc
