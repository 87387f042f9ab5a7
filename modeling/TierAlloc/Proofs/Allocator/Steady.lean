import TierAlloc.Proofs.Allocator.Changes
import TierAlloc.Proofs.Cache.Filling

/-!
# What leaves the names alone

Handoffs, peers and cache entries move bytes. Whatever they do, and whatever the words of the
exchange region say, no name comes or goes, no object changes its size, and nobody gains or
loses a claim (`Shm.Steady`). So none of this has to be looked at again where only the names
matter.

**Results.**
* `Traffic.Step.steady`: every step at an exchange region is steady.
* `Working.Step.steady`: so is every step of a cache with handoffs and callbacks, and the cache
  keeps its exchange region.
-/
namespace TierAlloc

/-- `s'` is `s` but for the bytes of its objects. -/
structure Shm.Steady (s s' : Shm) : Prop where
  names : s'.names = s.names
  claims : s'.claims = s.claims
  shared : s'.shared = s.shared
  sizes : ∀ i, (s'.object i).size = (s.object i).size

namespace Shm

variable {s s' s'' : Shm}

theorem Steady.refl (s : Shm) : Steady s s := ⟨rfl, rfl, rfl, fun _ => rfl⟩

theorem Steady.trans (h : Steady s s') (h' : Steady s' s'') : Steady s s'' where
  names := h'.names.trans h.names
  claims := h'.claims.trans h.claims
  shared := h'.shared.trans h.shared
  sizes i := (h'.sizes i).trans (h.sizes i)

theorem Patch.steady {i : Nat} {P : Nat → Prop} (h : Patch i P s s') : Steady s s' :=
  ⟨h.names, h.claims, h.shared, h.sizes⟩

theorem steady_store (s : Shm) (r : Region) (offset : Nat) (data : Bytes) : Steady s (s.store r offset data) :=
  (s.patch_store r offset data).steady

theorem steady_write {r : Region} {offset : Nat} {data : Bytes} (h : s.write r offset data = .ok s') :
    Steady s s' := by
  rw [write_eq] at h
  split at h
  · rw [← Except.ok.inj h]
    exact s.steady_store ..
  · cases h

end Shm

open Shm (Steady)

/-! ## The owner and the peers -/

namespace Offer

variable {o : Offer} {shm shm' : Shm}

theorem steady_load {area : Nat} (h : o.load area shm = .ok shm') : Steady shm shm' := by
  unfold load at h
  split at h
  · rw [← Except.ok.inj h]
    exact .refl shm
  · exact Shm.steady_write h

theorem steady_place {r : Except Error Pending} (h : o.place? shm = some (r, shm')) : Steady shm shm' := by
  unfold place? at h
  split at h
  · cases h
  rename_i area shm₁ hr
  obtain ⟨-, rfl⟩ := Exchange.reserve?_eq_some.mp hr
  have hlock := (o.exchange.patch_setLock area Exchange.locked shm).steady
  split at h
  · rw [← (Prod.mk.inj (Option.some.inj h)).2]
    exact hlock.trans (o.exchange.patch_release area _).steady
  · rename_i shm₂ hload
    rw [← (Prod.mk.inj (Option.some.inj h)).2]
    exact (hlock.trans (steady_load hload)).trans (o.patch_announce area shm₂).steady

end Offer

namespace Peer

variable {p : Peer} {d : Descriptor} {dir : Direction} {shm shm' : Shm}

theorem steady_setSignal (p : Peer) (area n : Nat) (shm : Shm) :
    Steady shm (p.exchange.setSignal area n shm) := (p.exchange.patch_setSignal area n shm).steady

theorem steady_claim {r : Except Error Nat} (h : p.claim d dir shm = (r, shm')) : Steady shm shm' := by
  unfold claim at h
  split at h
  · rw [← (Prod.mk.inj h).2]
    exact .refl shm
  split at h
  · rw [← (Prod.mk.inj h).2]
    exact .refl shm
  split at h
  · rw [← (Prod.mk.inj h).2]
    exact .refl shm
  simp only at h
  split at h
  · rw [← (Prod.mk.inj h).2]
    exact (p.steady_setSignal ..).trans (p.steady_setSignal ..)
  · rw [← (Prod.mk.inj h).2]
    exact p.steady_setSignal ..

theorem steady_deliver {data : Bytes} {r : Except Error Unit} (h : p.deliver d data shm = (r, shm')) :
    Steady shm shm' := by
  unfold deliver at h
  split at h
  · rename_i hc
    rw [← (Prod.mk.inj h).2]
    exact steady_claim hc
  rename_i area shm₁ hc
  have hclaim := steady_claim hc
  simp only at h
  split at h
  · rw [← (Prod.mk.inj h).2]
    exact hclaim.trans (p.steady_setSignal ..)
  rename_i shm₂ hw
  rw [← (Prod.mk.inj h).2]
  have hwrite : Steady shm₁ shm₂ := by
    split at hw
    · cases hw
    · exact Shm.steady_write hw
  exact ((hclaim.trans hwrite).trans (p.exchange.patch_setPayloadLength area _ _).steady).trans
    (p.steady_setSignal ..)

theorem steady_collect {r : Except Error Bytes} (h : p.collect d shm = (r, shm')) : Steady shm shm' := by
  unfold collect at h
  split at h
  · rename_i hc
    rw [← (Prod.mk.inj h).2]
    exact steady_claim hc
  rename_i area shm₁ hc
  have hclaim := steady_claim hc
  simp only at h
  split at h
  · rw [← (Prod.mk.inj h).2]
    exact hclaim.trans (p.steady_setSignal ..)
  · rw [← (Prod.mk.inj h).2]
    exact hclaim.trans (p.steady_setSignal ..)

end Peer

namespace Pending

variable {p : Pending} {c c' : Cache} {shm shm' : Shm}

/-- The word is put in place, and the area is released. -/
theorem steady_end (p : Pending) (word : Nat) (shm : Shm) : Steady shm (p.release (p.setSignal word shm)) :=
  (p.exchange.patch_setSignal p.area word shm).steady.trans (p.exchange.patch_release p.area _).steady

theorem steady_settle {goal : Goal} {r : Except Error Segment}
    (h : p.settle? goal [] c shm = some (r, c', shm')) : Steady shm shm' ∧ c'.exchange = c.exchange := by
  have hcases := settle_cases h
  have hexchange : c'.exchange = c.exchange := by
    rcases hcases with ⟨shm₁, ht⟩ | ⟨-, rfl⟩
    · exact Channel.take_exchange ht
    · rfl
  refine ⟨?_, hexchange⟩
  unfold settle? at h
  split at h
  · cases h
  simp only at h
  split at h <;>
    (rw [← (Prod.mk.inj (Prod.mk.inj (Option.some.inj h)).2).2]
     exact p.steady_end ..)

theorem steady_drop (p : Pending) (shm : Shm) : Steady shm (p.drop shm) := by
  unfold drop abandon?
  split
  · exact .refl shm
  · exact p.steady_end ..

end Pending

theorem Traffic.Step.steady {manager : String} {allowed : Traffic → Descriptor → Prop} {t t' : Traffic}
    {e : Traffic.Event} {shm shm' : Shm} (h : Step manager allowed (shm, t) e (shm', t')) : Steady shm shm' := by
  cases h with
  | placed _ hp => exact Offer.steady_place hp
  | refused _ hp => exact Offer.steady_place hp
  | attach => exact .refl shm
  | delivered _ _ hd => exact Peer.steady_deliver hd
  | undelivered _ _ hd => exact Peer.steady_deliver hd
  | collected _ _ hc => exact Peer.steady_collect hc
  | uncollected _ _ hc => exact Peer.steady_collect hc

/-! ## Caches -/

section
variable {manager : String} {allowed : Traffic → Descriptor → Prop}

theorem Channel.Step.steady {s s' : Channel} {e : Channel.Event} (h : Step manager allowed s e s')
    (he : e ≠ .beside) : Steady s.shm s'.shm ∧ s'.cache.exchange = s.cache.exchange := by
  cases h with
  | entry op => exact ⟨.refl _, (EntryOp.apply_kept ..).exchange⟩
  | exchange hx => exact ⟨hx.steady, rfl⟩
  | wait _ hw => exact Pending.steady_settle hw
  | waitTimeout _ hw => exact Pending.steady_settle hw
  | @drop pre c post =>
    dsimp only
    exact ⟨c.pending.steady_drop s.shm, rfl⟩
  | beside => exact absurd rfl he
  | _ => exact ⟨.refl _, rfl⟩

theorem Fill.finish_exchange {f : Fill} {c c' : Cache} {content : Bytes} {answer : Except Error Unit}
    (h : f.finish c content = (answer, c')) : c'.exchange = c.exchange := by
  unfold finish Cache.insert Cache.swap at h
  split at h <;> split at h <;> rw [← (Prod.mk.inj h).2]

theorem Cache.beginStore_exchange {c c' : Cache} {size : Nat} {r : Except Error Buffer}
    (h : c.beginStore size = (r, c')) : c'.exchange = c.exchange := by
  unfold beginStore at h
  split at h <;> rw [← (Prod.mk.inj h).2]

theorem Cache.beginReplace_exchange {c c' : Cache} {id size : Nat} {r : Except Error Buffer}
    (h : c.beginReplace id size = (r, c')) : c'.exchange = c.exchange := by
  unfold beginReplace at h
  split at h
  · rw [← (Prod.mk.inj h).2]
  · split at h <;> rw [← (Prod.mk.inj h).2]

theorem Working.Step.steady {s s' : Working} {e : Working.Event} (h : Step manager allowed s e s')
    (he : e ≠ .channel .beside) :
    Steady s.channel.shm s'.channel.shm ∧ s'.channel.cache.exchange = s.channel.cache.exchange := by
  cases h with
  | op o => exact ⟨.refl _, (EntryOp.apply_kept ..).exchange⟩
  | beganStore hb => exact ⟨.refl _, Cache.beginStore_exchange hb⟩
  | refusedStore hb => exact ⟨.refl _, Cache.beginStore_exchange hb⟩
  | beganReplace hb => exact ⟨.refl _, Cache.beginReplace_exchange hb⟩
  | refusedReplace hb => exact ⟨.refl _, Cache.beginReplace_exchange hb⟩
  | finished _ hf => exact ⟨.refl _, Fill.finish_exchange hf⟩
  | channel _ hc => exact hc.steady fun hb => he (congrArg _ hb)

end
end TierAlloc
