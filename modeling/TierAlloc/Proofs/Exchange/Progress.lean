import TierAlloc.Proofs.Exchange.Meeting
import TierAlloc.Proofs.Exchange.Peers

/-!
# The owner gets to its end

What `Pending.settle?` and `Pending.abandon?` do in one go is one way for a meeting to
go, and leaves the same bytes in shared memory; so all that is proved of meetings holds
of them. An owner that has a deadline, or gives up, is never stuck: once no peer is copying,
its own steps lead to the end of the call.

**Results.**
* `Meeting.Tracked.ends`: a call that is not waiting for a peer gets to its end.
* `Meeting.of_settle?`, `Meeting.of_abandon?`: whole operations of the owner are meetings.
* `Meeting.of_deliver`, `Meeting.of_collect`: so are those of a peer.
-/
namespace TierAlloc

/-! ## Memories with the same bytes -/

namespace Shm

variable {i : Nat} {P : Nat → Prop} {s s' : Shm}

theorem Patch.symm (h : Patch i P s s') : Patch i P s' s where
  names := h.names.symm
  claims := h.claims.symm
  shared := h.shared.symm
  count := h.count.symm
  sizes j := (h.sizes j).symm
  bytes j k hk := (h.bytes j k hk).symm

/-- The same store, in memories with the same bytes. -/
theorem store_congr {r : Region} (h : Patch r.object (fun _ => False) s s')
    (hr : r.object < s.objects.size) (offset : Nat) (data : Bytes) :
    Patch r.object (fun _ => False) (s.store r offset data) (s'.store r offset data) := by
  have hr' : r.object < s'.objects.size := by rwa [h.count]
  have hrange := ((s.patch_store r offset data).symm.trans (h.mono fun _ => False.elim)).trans
    (s'.patch_store r offset data)
  refine hrange.of_bytes_eq ?_
  rw [bytes_store s' hr', bytes_store s hr]

end Shm

namespace Exchange

variable {x : Exchange} {area : Nat} {shm shm' shm₁ shm₂ : Shm}

/-- Position `k` of the region is in the signal word of the area. -/
def InSignal (area k : Nat) : Prop := Layout.signalOffset area ≤ k ∧ k < Layout.signalOffset area + 4

theorem patch_signal (x : Exchange) (area n : Nat) (shm : Shm) :
    Shm.Patch x.region.object (InSignal area) shm (x.setSignal area n shm) := by
  refine (shm.patch_store _ _ _).mono fun k hk => ?_
  rwa [Bytes.length_ofNat] at hk

/-- Memories that differ at most in a signal word, and not in what it says. -/
theorem patch_of_signal_eq (h₁ : Shm.Patch x.region.object (InSignal area) shm shm₁)
    (h₂ : Shm.Patch x.region.object (InSignal area) shm shm₂)
    (he : x.signal shm₁ area = x.signal shm₂ area) :
    Shm.Patch x.region.object (fun _ => False) shm₁ shm₂ :=
  (h₁.symm.trans h₂).of_bytes_eq (Bytes.toNat_inj (by simp [Shm.bytes]) he.symm)

/-- The same release, in memories with the same bytes. -/
theorem release_congr (h : Shm.Patch x.region.object (fun _ => False) shm shm')
    (hx : x.region.object < shm.objects.size) (area : Nat) :
    Shm.Patch x.region.object (fun _ => False) (x.release area shm) (x.release area shm') := by
  have hfree : Shm.Patch x.region.object (fun _ => False) (x.freeArea area shm)
      (x.freeArea area shm') := by
    refine Shm.store_congr (Shm.store_congr (Shm.store_congr (Shm.store_congr h hx _ _) ?_ _ _)
      ?_ _ _) ?_ _ _ <;> simpa using hx
  have hlt : x.region.object < (x.freeArea area shm).objects.size := by
    rw [(x.patch_freeArea area shm).count]
    exact hx
  unfold release
  simp only [hfree.word32_eq x.region Layout.releasesOffset (Or.inr fun _ _ _ => id)]
  exact Shm.store_congr hfree hlt _ _

end Exchange

namespace Pending

variable {p : Pending} {shm shm' : Shm}

/-- What is taken depends on the bytes alone. -/
theorem take_congr (h : Shm.Patch p.exchange.region.object (fun _ => False) shm shm') (c : Cache) :
    p.take c shm' = p.take c shm := by
  unfold take Exchange.payloadLength
  simp only [h.word64_eq p.exchange.region _ (Or.inr fun _ _ _ => id), Shm.read_eq,
    h.bytes_eq p.exchange.region _ _ (Or.inr fun _ _ _ => id)]

end Pending

namespace Meeting

variable {p : Pending} {start s s' s₁ : Meeting} {events later later' : List Event}

/-- The events lead from `s` to a meeting that differs in the call, in who is copying and in
the signal word. -/
structure Leads (p : Pending) (s : Meeting) (later : List Event) (s' : Meeting) (call : Call)
    (word : Nat) : Prop where
  run : Run (Step p) s later s'
  call : s'.call = call
  signal : p.signal s'.shm = word
  cache : s'.cache = s.cache
  patch : Shm.Patch p.exchange.region.object (Exchange.InSignal p.area) s.shm s'.shm

theorem Leads.refl (s : Meeting) : Leads p s [] s s.call (p.signal s.shm) :=
  ⟨.start, rfl, rfl, rfl, .refl ..⟩

theorem Leads.trans {call call' : Call} {word word' : Nat} (h : Leads p s later s₁ call word)
    (h' : Leads p s₁ later' s' call' word') : Leads p s (later ++ later') s' call' word' where
  run := h.run.trans h'.run
  call := h'.call
  signal := h'.signal
  cache := h'.cache.trans h.cache
  patch := h.patch.trans h'.patch

theorem Tracked.run (h : Tracked p start events s) (hrun : Run (Step p) s later s') :
    Tracked p start (events ++ later) s' := by
  induction hrun with
  | start => rwa [List.append_nil]
  | next _ hs ih =>
    rw [← List.append_assoc]
    exact ih.step hs

/-- A word that says a peer is copying is right. -/
theorem Stands.copier {call : Call} {copying : List Nat} {word : Nat}
    (h : Stands p start events call copying word) (hw : word = p.direction.copying) :
    ∃ peer, peer ∈ copying := by
  have hshown : ∀ copying, Shown p.direction copying word → ∃ peer, peer ∈ copying := by
    intro copying hs
    cases hs with
    | waiting => exact absurd hw p.direction.waiting_ne_copying
    | copying peer => exact ⟨peer, List.mem_singleton_self _⟩
    | done => exact absurd hw p.direction.copying_ne_done.symm
  cases h with
  | unmade hs => exact hshown _ hs
  | working _ hs => exact hshown _ hs
  | completed => exact absurd hw p.direction.copying_ne_done.symm
  | withdrawn => exact absurd hw p.direction.copying_ne_idle.symm
  | finishing ha =>
    cases ha with
    | dropped => exact absurd hw p.direction.copying_ne_done.symm
    | taken => exact absurd hw p.direction.copying_ne_done.symm
    | withdrew => exact absurd hw p.direction.copying_ne_idle.symm
    | timedOut => exact absurd hw p.direction.copying_ne_idle.symm
  | returned => exact absurd hw p.direction.copying_ne_idle.symm

/-! ## The loop

The signal word is compared with others, and never worked out. -/

section
attribute [local irreducible] Pending.signal

theorem wake?_timedOut {goal : Goal} {stage : Stage} {word : Nat}
    (h : stage.wake? goal word = some .timedOut) : goal = .deadline := by
  cases stage with
  | asleep seen =>
    by_contra hg
    have h := (if_neg hg).symm.trans h
    split at h <;> cases h
  | outwait seen =>
    simp only [Stage.wake?] at h
    split at h <;> cases h
  | look => cases h
  | cancel => cases h
  | lookAgain => cases h
  | ended => cases h

theorem settleFrom_awake {goal : Goal} {dir : Direction} {fuel : Nat} {moves : List Move}
    {stage stage' : Stage} {word word' : Nat} {wake : Wake} (ho : stage.Open)
    (hw : stage.wake? goal word = some wake)
    (hn : stage.next goal dir wake word = (stage', word')) :
    settleFrom goal dir (fuel + 1) moves stage word = settleFrom goal dir fuel moves stage' word' := by
  cases moves with
  | nil =>
    rw [settleFrom, hw]
    · simp only [hn]
    · exact ho
  | cons move rest =>
    rw [settleFrom, hw]
    · simp only [hn]
    · exact ho

theorem changed_ne_timedOut (goal : Goal) : Wake.changed = .timedOut → goal = .deadline := nofun

/-- A peer's move, as the word allows it. -/
theorem leads_move (h : Tracked p start events s) (move : Move) : ∃ later s',
    Leads p s later s' s.call ((move.next? p.direction (p.signal s.shm)).getD (p.signal s.shm)) := by
  have hstay : move.next? p.direction (p.signal s.shm) = none → ∃ later s',
      Leads p s later s' s.call ((move.next? p.direction (p.signal s.shm)).getD (p.signal s.shm)) := by
    intro hn
    rw [hn]
    exact ⟨_, _, .refl s⟩
  have hset : ∀ {n : Nat} {e : Event} {copying : List Nat}, n < halfRange →
      Step p s e { s with shm := p.setSignal n s.shm, copying } →
      Leads p s [e] { s with shm := p.setSignal n s.shm, copying } s.call n :=
    fun hn hs => ⟨.one hs, rfl, Pending.signal_setSignal h.object_lt hn, rfl,
      p.exchange.patch_signal ..⟩
  cases move with
  | claim =>
    by_cases hw : p.signal s.shm = p.direction.waiting
    · simp only [Move.next?, if_pos hw]
      exact ⟨_, _, hset p.direction.copying_lt (.claim 0 hw)⟩
    · exact hstay (by rw [Move.next?, if_neg hw])
  | finish =>
    by_cases hw : p.signal s.shm = p.direction.copying
    · obtain ⟨peer, hp⟩ := h.stands.copier hw
      simp only [Move.next?, if_pos hw]
      exact ⟨_, _, hset p.direction.done_lt (.finish hp)⟩
    · exact hstay (by rw [Move.next?, if_neg hw])
  | abort =>
    by_cases hw : p.signal s.shm = p.direction.copying
    · obtain ⟨peer, hp⟩ := h.stands.copier hw
      simp only [Move.next?, if_pos hw]
      exact ⟨_, _, hset p.direction.waiting_lt (.abort hp)⟩
    · exact hstay (by rw [Move.next?, if_neg hw])

/-- One step of the loop. -/
theorem leads_next {goal : Goal} {stage stage' : Stage} {failure : Option Error} {wake : Wake}
    {word : Nat} (hx : p.exchange.region.object < s.shm.objects.size)
    (hc : s.call = .working goal stage failure) (hw : wake = .timedOut → goal = .deadline)
    (hn : stage.next goal p.direction wake (p.signal s.shm) = (stage', word)) :
    Leads p s [.owner (p.signal s.shm) word]
      { s with call := .working goal stage' failure, shm := p.put word s.shm }
      (.working goal stage' failure) word := by
  have hsignal : p.signal (p.put word s.shm) = word := by
    rcases stage.next_word goal p.direction wake (p.signal s.shm) with he | he <;> rw [hn] at he
    · rw [show word = p.signal s.shm from he, p.put_signal]
    · exact Pending.signal_put hx (by rw [show word = Signal.idle from he]; decide)
  have hpatch : Shm.Patch p.exchange.region.object (Exchange.InSignal p.area) s.shm
      (p.put word s.shm) := by
    unfold Pending.put
    split
    · exact .refl ..
    · exact p.exchange.patch_signal ..
  exact ⟨.one (.owner wake hc hw hn), rfl, hsignal, rfl, hpatch⟩

/-- A run of the owner against given moves is a meeting. Without any, all its steps are the
owner's. -/
theorem leads_settle {goal : Goal} {failure : Option Error} {fuel : Nat} {moves : List Move}
    {stage : Stage} {word word' : Nat} {outcome : Outcome}
    (hs : settleFrom goal p.direction fuel moves stage word = some (outcome, word'))
    (h : Tracked p start events s) (hc : s.call = .working goal stage failure)
    (hword : p.signal s.shm = word) : ∃ later s',
      Leads p s later s' (.working goal (.ended outcome) failure) word' ∧
        (moves = [] → ∀ e ∈ later, e.isOwn = true) := by
  induction fuel, moves, stage, word using settleFrom.induct goal p.direction
    generalizing s events with
  | case1 fuel moves ended word =>
    simp only [settleFrom, Option.some.injEq, Prod.mk.injEq] at hs
    obtain ⟨rfl, rfl⟩ := hs
    refine ⟨[], s, ?_, fun _ => List.forall_mem_nil _⟩
    rw [← hc, ← hword]
    exact .refl s
  | case2 word moves stage hne =>
    cases stage with
    | ended o => exact absurd rfl (hne o)
    | look => cases hs
    | asleep => cases hs
    | cancel => cases hs
    | lookAgain => cases hs
    | outwait => cases hs
  | case3 fuel moves stage word hne wake hwake stage' next hnext ih =>
    subst hword
    rw [settleFrom_awake hne hwake hnext] at hs
    have hstep := leads_next h.object_lt hc (fun hw => wake?_timedOut (hw ▸ hwake)) hnext
    obtain ⟨later, s', hleads, hown⟩ := ih hs (h.run hstep.run) hstep.call hstep.signal
    refine ⟨_, s', hstep.trans hleads, fun hm => ?_⟩
    rw [List.singleton_append, List.forall_mem_cons]
    exact ⟨rfl, hown hm⟩
  | case4 fuel stage word hne hwake =>
    simp only [settleFrom, hwake, reduceCtorEq] at hs
  | case5 fuel stage word hne hwake move rest ih =>
    subst hword
    simp only [settleFrom, hwake] at hs
    obtain ⟨first, s₁, hmove⟩ := leads_move h move
    obtain ⟨later, s', hleads, -⟩ := ih hs (h.run hmove.run) (hmove.call.trans hc) hmove.signal
    exact ⟨_, s', hmove.trans hleads, nofun⟩

/-! ## From the end of the loop to the return -/

/-- The events are the owner's own, and lead to the return with this answer. -/
structure Returns (p : Pending) (s : Meeting) (later : List Event) (s' : Meeting)
    (answer : Option (Except Error Segment)) (cache : Cache) : Prop where
  run : Run (Step p) s later s'
  call : s'.call = .returned answer
  cache : s'.cache = cache
  shm : s'.shm = p.release s.shm
  own : ∀ e ∈ later, e.isOwn = true

/-- Without a payload to take the owner closes and releases. -/
theorem returns_close {goal : Goal} {outcome : Outcome} {failure : Option Error}
    (hc : s.call = .working goal (.ended outcome) failure)
    (hg : goal = .abandon ∨ outcome ≠ .completed) :
    ∃ s', Returns p s [.close, .release] s' (p.farewell failure goal) s.cache := by
  have hclose : Step p s .close { s with call := .finishing (p.farewell failure goal) } :=
    .close hc hg
  refine ⟨_, .trans (.one hclose) (.one (.release rfl)), rfl, rfl, rfl, ?_⟩
  simp [Event.isOwn]

/-- A payload that is there is taken; if that fails, the handoff is given up. -/
theorem returns_take {goal : Goal} (hx : p.exchange.region.object < s.shm.objects.size)
    (hc : s.call = .working goal (.ended .completed) none) (hg : goal ≠ .abandon)
    (hw : p.signal s.shm = p.direction.done) : ∃ later s',
      Returns p s later s' (some (p.take s.cache s.shm).1) (p.take s.cache s.shm).2 := by
  cases ht : p.take s.cache s.shm with
  | mk r cache =>
    cases r with
    | ok seg =>
      have htake : Step p s (.take (.ok seg)) { s with cache, call := .finishing (some (.ok seg)) } :=
        .take hc hg ht
      refine ⟨_, _, .trans (.one htake) (.one (.release rfl)), rfl, rfl, rfl, ?_⟩
      simp [Event.isOwn]
    | error e =>
      have hfail : Step p s (.take (.error e))
          { s with cache, call := .working .abandon .look (some e) } := .fail hc hg ht
      have hlook : Stage.look.next .abandon p.direction .changed (p.signal s.shm) =
          (.ended .completed, p.signal s.shm) := if_pos hw
      have hnext := leads_next (p := p)
        (s := { s with cache, call := .working .abandon .look (some e) }) hx rfl
        (changed_ne_timedOut _) hlook
      obtain ⟨s', hret⟩ := returns_close (p := p) (s := { s with
        cache, call := .working .abandon (.ended .completed) (some e),
        shm := p.put (p.signal s.shm) s.shm }) rfl (Or.inl rfl)
      refine ⟨_, s', ((Run.one hfail).trans hnext.run).trans hret.run, hret.call, hret.cache, ?_, ?_⟩
      · rw [hret.shm, p.put_signal]
      · simp [Event.isOwn]

/-- How a loop can have ended. -/
theorem Stands.ended {goal : Goal} {outcome : Outcome} {failure : Option Error} {copying : List Nat}
    {word : Nat} (h : Stands p start events (.working goal (.ended outcome) failure) copying word) :
    (outcome = .completed ∧ word = p.direction.done ∧ (failure = none ∨ goal = .abandon)) ∨
      (outcome = .withdrawn ∧ word = Signal.idle ∧ failure = none) := by
  cases h with
  | working ho => exact absurd rfl (ho _)
  | completed hu hm =>
    refine Or.inl ⟨rfl, rfl, ?_⟩
    cases failure with
    | none => exact Or.inl rfl
    | some e => exact Or.inr (hm.failed e rfl).1
  | withdrawn => exact Or.inr ⟨rfl, rfl, rfl⟩

/-- A loop that ended because of a peer has left the done word, and runs for the first time or
to give the handoff up. -/
theorem Tracked.completed (h : Tracked p start events s) {goal : Goal} {failure : Option Error}
    (hc : s.call = .working goal (.ended .completed) failure) :
    p.signal s.shm = p.direction.done ∧ (failure = none ∨ goal = .abandon) := by
  have hst := h.stands
  rw [hc] at hst
  rcases hst.ended with ⟨-, hdone⟩ | ⟨he, -⟩
  · exact hdone
  · cases he

/-- An owner that has come to the end of its loop returns. -/
theorem Tracked.returns (h : Tracked p start events s) {goal : Goal} {outcome : Outcome}
    {failure : Option Error} (hc : s.call = .working goal (.ended outcome) failure) :
    ∃ later s' answer cache, Returns p s later s' answer cache := by
  by_cases hclose : goal = .abandon ∨ outcome ≠ .completed
  · obtain ⟨s', hret⟩ := returns_close (p := p) hc hclose
    exact ⟨_, s', _, _, hret⟩
  rw [not_or, Decidable.not_not] at hclose
  obtain ⟨hg, rfl⟩ := hclose
  obtain ⟨hw, hf⟩ := h.completed hc
  obtain rfl := hf.resolve_right hg
  obtain ⟨later, s', hret⟩ := returns_take h.object_lt hc hg hw
  exact ⟨later, s', _, _, hret⟩

/-- The owner is on its way: its own steps lead to the return. -/
def Ends (p : Pending) (s : Meeting) : Prop :=
  ∃ later s', Run (Step p) s later s' ∧ s'.call.isReturned = true ∧ ∀ e ∈ later, e.isOwn = true

theorem Ends.of_run (h : Ends p s₁) (hrun : Run (Step p) s later s₁)
    (hown : ∀ e ∈ later, e.isOwn = true) : Ends p s := by
  obtain ⟨rest, s', hrest, hret, hown'⟩ := h
  exact ⟨_, s', hrun.trans hrest, hret, List.forall_mem_append.mpr ⟨hown, hown'⟩⟩

theorem Tracked.ends_of_ended (h : Tracked p start events s) {goal : Goal} {outcome : Outcome}
    {failure : Option Error} (hc : s.call = .working goal (.ended outcome) failure) : Ends p s := by
  obtain ⟨later, s', answer, cache, hret⟩ := h.returns hc
  exact ⟨later, s', hret.run, by rw [hret.call]; rfl, hret.own⟩

section
variable {goal : Goal} {failure : Option Error}
  (hw : p.signal s.shm = p.direction.waiting ∧ goal ≠ .completion ∨
    p.signal s.shm = p.direction.done)

include hw

theorem Tracked.ends_of_look (h : Tracked p start events s)
    (hc : s.call = .working goal .look failure) : Ends p s := by
  have hsome : ∃ outcome word, settle goal p.direction [] (p.signal s.shm) = some (outcome, word) := by
    rw [settle_cases goal p.direction (hw.imp_left And.left)]
    by_cases hd : p.signal s.shm = p.direction.done
    · exact ⟨_, _, if_pos hd⟩
    · obtain ⟨-, hg⟩ := hw.resolve_right hd
      exact ⟨_, _, (if_neg hd).trans (if_neg hg)⟩
  obtain ⟨outcome, word, hs⟩ := hsome
  obtain ⟨later, s', hleads, hown⟩ := leads_settle hs h hc rfl
  exact ((h.run hleads.run).ends_of_ended hleads.call).of_run hleads.run (hown rfl)

/-- One step of the owner's loop before the rest. -/
theorem Tracked.ends_of_next (h : Tracked p start events s) {stage stage' : Stage}
    (hc : s.call = .working goal stage failure)
    (hn : stage.next goal p.direction .changed (p.signal s.shm) = (stage', p.signal s.shm))
    (hrest : ∀ {events : List Event} {s' : Meeting}, Tracked p start events s' →
      s'.call = .working goal stage' failure →
      (p.signal s'.shm = p.direction.waiting ∧ goal ≠ .completion ∨
        p.signal s'.shm = p.direction.done) → Ends p s') : Ends p s := by
  have hnext := leads_next h.object_lt hc (changed_ne_timedOut _) hn
  refine (hrest (h.run hnext.run) hnext.call ?_).of_run hnext.run (by simp [Event.isOwn])
  rw [hnext.signal]
  exact hw

/-- An owner that is in its loop gets to the end of its call without anyone's help, once
nobody is copying, unless it waits for a peer to come. -/
theorem Tracked.ends (h : Tracked p start events s) {stage : Stage}
    (hc : s.call = .working goal stage failure) : Ends p s := by
  have hlook : ∀ {events : List Event} {s' : Meeting}, Tracked p start events s' →
      s'.call = .working goal .look failure →
      (p.signal s'.shm = p.direction.waiting ∧ goal ≠ .completion ∨
        p.signal s'.shm = p.direction.done) → Ends p s' :=
    fun h hc hw => Tracked.ends_of_look hw h hc
  have hagain : ∀ {events : List Event} {s' : Meeting}, Tracked p start events s' →
      s'.call = .working goal .lookAgain failure →
      (p.signal s'.shm = p.direction.waiting ∧ goal ≠ .completion ∨
        p.signal s'.shm = p.direction.done) → Ends p s' :=
    fun h hc hw => Tracked.ends_of_next hw h hc (if_pos (hw.imp_left And.left)) hlook
  cases stage with
  | look => exact hlook h hc hw
  | asleep seen => exact Tracked.ends_of_next hw h hc rfl hlook
  | lookAgain => exact hagain h hc hw
  | outwait seen => exact Tracked.ends_of_next hw h hc rfl hlook
  | ended outcome => exact h.ends_of_ended hc
  | cancel =>
    rcases hw with ⟨hwait, hg⟩ | hdone
    · have hn : Stage.cancel.next goal p.direction .changed (p.signal s.shm) =
          (.ended .withdrawn, Signal.idle) := if_pos hwait
      have hnext := leads_next h.object_lt hc (changed_ne_timedOut _) hn
      refine ((h.run hnext.run).ends_of_ended hnext.call).of_run hnext.run ?_
      simp [Event.isOwn]
    · have hne : p.signal s.shm ≠ p.direction.waiting := fun he =>
        p.direction.waiting_ne_done (he.symm.trans hdone)
      cases goal with
      | abandon => exact Tracked.ends_of_next (Or.inr hdone) h hc (if_neg hne) hlook
      | completion => exact Tracked.ends_of_next (Or.inr hdone) h hc (if_neg hne) hagain
      | deadline => exact Tracked.ends_of_next (Or.inr hdone) h hc (if_neg hne) hagain

end

end

/-! ## Whole operations -/

section
variable {goal : Goal} {moves : List Move} {c c' : Cache} {shm shm' : Shm}

/-- The owner's loop against given moves, from the call on. -/
theorem of_settle {outcome : Outcome} {word : Nat} (hb : Begins p ⟨c, shm, .unmade, []⟩)
    (hs : settle goal p.direction moves (p.signal shm) = some (outcome, word)) :
    ∃ later s, Run (Step p) ⟨c, shm, .unmade, []⟩ (.call goal :: later) s ∧
      s.call = .working goal (.ended outcome) none ∧ s.cache = c ∧
      Shm.Patch p.exchange.region.object (fun _ => False) (p.setSignal word shm) s.shm ∧
      Shm.Patch p.exchange.region.object (fun _ => False) (p.release (p.setSignal word shm))
        (p.release s.shm) := by
  have hcall : Step p ⟨c, shm, .unmade, []⟩ (.call goal) ⟨c, shm, .working goal .look none, []⟩ :=
    .call goal rfl
  obtain ⟨later, s, hleads, -⟩ := leads_settle hs (hb.tracked.step hcall) rfl rfl
  have hlt : word < halfRange := by
    rw [← hleads.signal]
    exact Nat.lt_of_lt_of_eq (Bytes.toNat_lt _) (by simp [Shm.bytes, halfRange])
  have hobject : p.exchange.region.object < (p.setSignal word shm).objects.size := by
    rw [Pending.size_setSignal]
    exact hb.object_lt
  have hpatch : Shm.Patch p.exchange.region.object (fun _ => False) (p.setSignal word shm) s.shm :=
    Exchange.patch_of_signal_eq (p.exchange.patch_signal p.area word shm) hleads.patch
      ((Pending.signal_setSignal hb.object_lt hlt).trans hleads.signal.symm)
  exact ⟨later, s, (Run.one hcall).trans hleads.run, hleads.call, hleads.cache, hpatch,
    Exchange.release_congr hpatch hobject p.area⟩

/-- A wait against given moves is a meeting, with the same answer, the same entries and the same
bytes at its end. -/
theorem of_settle? {r : Except Error Segment} (hb : Begins p ⟨c, shm, .unmade, []⟩)
    (hg : goal ≠ .abandon) (hs : p.settle? goal moves c shm = some (r, c', shm')) :
    ∃ later s, Run (Step p) ⟨c, shm, .unmade, []⟩ (.call goal :: later) s ∧
      s.call = .returned (some r) ∧ s.cache = c' ∧
      Shm.Patch p.exchange.region.object (fun _ => False) shm' s.shm := by
  unfold Pending.settle? at hs
  split at hs
  · cases hs
  rename_i outcome word hsettle
  obtain ⟨events, s, hrun, hcall, rfl, hpatch, hrelease⟩ := of_settle hb hsettle
  have hclose : outcome ≠ .completed → r = .error (.handoffTimeout p.segment.id) → c' = s.cache →
      shm' = p.release (p.setSignal word shm) → ∃ later s', Run (Step p) ⟨s.cache, shm, .unmade, []⟩
        (.call goal :: later) s' ∧ s'.call = .returned (some r) ∧ s'.cache = c' ∧
        Shm.Patch p.exchange.region.object (fun _ => False) shm' s'.shm := by
    rintro hne rfl rfl rfl
    obtain ⟨s', hret⟩ := returns_close (p := p) hcall (Or.inr hne)
    refine ⟨_, s', hrun.trans hret.run, hret.call.trans ?_, hret.cache, ?_⟩
    · cases goal with
      | abandon => exact absurd rfl hg
      | completion => rfl
      | deadline => rfl
    · rw [hret.shm]
      exact hrelease
  cases outcome with
  | completed =>
    simp only [Option.some.injEq, Prod.mk.injEq] at hs
    obtain ⟨rfl, rfl, rfl⟩ := hs
    have h := hb.run hrun
    obtain ⟨later, s', hret⟩ := returns_take h.object_lt hcall hg (h.completed hcall).1
    have htake := Pending.take_congr hpatch s.cache
    refine ⟨_, s', hrun.trans hret.run, ?_, ?_, ?_⟩
    · rw [hret.call, htake]
    · rw [hret.cache, htake]
    · rw [hret.shm]
      exact hrelease
  | withdrawn =>
    simp only [Option.some.injEq, Prod.mk.injEq] at hs
    exact hclose nofun hs.1.symm hs.2.1.symm hs.2.2.symm
  | idle =>
    simp only [Option.some.injEq, Prod.mk.injEq] at hs
    exact hclose nofun hs.1.symm hs.2.1.symm hs.2.2.symm

/-- So is giving the handoff up. -/
theorem of_abandon? (hb : Begins p ⟨c, shm, .unmade, []⟩) (hs : p.abandon? moves shm = some shm') :
    ∃ later s, Run (Step p) ⟨c, shm, .unmade, []⟩ (.call .abandon :: later) s ∧
      s.call = .returned none ∧ s.cache = c ∧
      Shm.Patch p.exchange.region.object (fun _ => False) shm' s.shm := by
  unfold Pending.abandon? at hs
  split at hs
  · cases hs
  rename_i outcome word hsettle
  obtain rfl := Option.some.inj hs
  obtain ⟨events, s, hrun, hcall, rfl, -, hrelease⟩ := of_settle hb hsettle
  obtain ⟨s', hret⟩ := returns_close (p := p) hcall (Or.inl rfl)
  refine ⟨_, s', hrun.trans hret.run, hret.call, hret.cache, ?_⟩
  rw [hret.shm]
  exact hrelease

end

/-! ## Whole operations of a peer -/

section
variable {q : Peer} {d : Descriptor} {shm shm' : Shm}

/-- A peer that claimed the area and puts the word back. -/
theorem run_aborted (peer : Nat) (hw : p.signal s.shm = p.direction.waiting) :
    Run (Step p) s [.claim peer, .abort peer]
      { s with shm := p.setSignal p.direction.waiting (p.setSignal p.direction.copying s.shm) } := by
  have habort := Step.abort (p := p) (s := { s with
    shm := p.setSignal p.direction.copying s.shm, copying := peer :: s.copying }) List.mem_cons_self
  have hrun := Run.trans (.one (Step.claim peer hw)) (.one habort)
  rwa [List.erase_cons_head] at hrun

/-- A peer that claimed the area, copied, and finished. -/
theorem run_finished (peer : Nat) (hw : p.signal s.shm = p.direction.waiting)
    (hb : Step p { s with
      shm := p.setSignal p.direction.copying s.shm, copying := peer :: s.copying } .beside
      { s with shm, copying := peer :: s.copying }) :
    Run (Step p) s [.claim peer, .beside, .finish peer]
      { s with shm := p.setSignal p.direction.done shm } := by
  have hfinish := Step.finish (p := p) (s := { s with shm, copying := peer :: s.copying })
    List.mem_cons_self
  have hrun := Run.trans (.trans (.one (Step.claim peer hw)) (.one hb)) (.one hfinish)
  rwa [List.erase_cons_head] at hrun

variable (hq : q.exchange = p.exchange) (hd : p.exchange.locate d = .ok p.area)

include hq hd

/-- A claim that is refused has left the word, or put it back. -/
theorem of_claim_error {e : Error} (h : q.claim d p.direction s.shm = (.error e, shm')) :
    ∃ events, Run (Step p) s events { s with shm := shm' } := by
  unfold Peer.claim at h
  rw [hq, hd] at h
  split at h
  · rw [← (Prod.mk.inj h).2]
    exact ⟨_, .start⟩
  simp only at h
  split at h
  · rw [← (Prod.mk.inj h).2]
    exact ⟨_, .start⟩
  rename_i hw
  split at h
  · rw [← (Prod.mk.inj h).2]
    exact ⟨_, run_aborted 0 (Decidable.not_not.mp hw)⟩
  · cases (Prod.mk.inj h).1

theorem claim_area {area : Nat} (h : q.claim d p.direction s.shm = (.ok area, shm')) :
    area = p.area ∧ area < p.exchange.layout.areaCount ∧ p.signal s.shm = p.direction.waiting ∧
      shm' = p.setSignal p.direction.copying s.shm := by
  have harea : area = p.area := by
    unfold Peer.claim at h
    rw [hq, hd] at h
    split at h
    · cases (Prod.mk.inj h).1
    simp only at h
    split at h
    · cases (Prod.mk.inj h).1
    split at h
    · cases (Prod.mk.inj h).1
    · exact (Except.ok.inj (Prod.mk.inj h).1).symm
  subst harea
  obtain ⟨hclaims, rfl⟩ := Peer.claim_ok h
  refine ⟨rfl, ?_, ?_, ?_⟩
  · rw [← hq]
    exact hclaims.lt
  · rw [Pending.signal, ← hq]
    exact hclaims.signal
  · rw [Pending.setSignal, hq]

/-- A collection is a meeting in which the peer claims, and finishes or aborts. -/
theorem of_collect {r : Except Error Bytes} (hdir : p.direction = .outbound)
    (h : q.collect d s.shm = (r, shm')) : ∃ events, Run (Step p) s events { s with shm := shm' } := by
  unfold Peer.collect at h
  rw [← hdir] at h
  split at h
  · rename_i e shm₁ hc
    rw [← (Prod.mk.inj h).2]
    exact of_claim_error hq hd hc
  rename_i area shm₁ hc
  obtain ⟨rfl, -, hw, rfl⟩ := claim_area hq hd hc
  simp only [hq] at h
  split at h
  · rw [← (Prod.mk.inj h).2]
    exact ⟨_, run_aborted 0 hw⟩
  · rw [← (Prod.mk.inj h).2]
    exact ⟨_, run_finished 0 hw (.beside s.cache (Nat.le_refl _) rfl rfl)⟩

/-- So is a delivery; in between the peer stores the payload and its length. -/
theorem of_deliver {data : Bytes} {r : Except Error Unit} (hdir : p.direction = .inbound)
    (hx : p.exchange.region.object < s.shm.objects.size) (h : q.deliver d data s.shm = (r, shm')) :
    ∃ events, Run (Step p) s events { s with shm := shm' } := by
  unfold Peer.deliver at h
  rw [← hdir] at h
  split at h
  · rename_i e shm₁ hc
    rw [← (Prod.mk.inj h).2]
    exact of_claim_error hq hd hc
  rename_i area shm₁ hc
  obtain ⟨rfl, hlt, hw, rfl⟩ := claim_area hq hd hc
  simp only [hq, Shm.write_eq] at h
  split at h
  · rw [← (Prod.mk.inj h).2]
    exact ⟨_, run_aborted 0 hw⟩
  rename_i shm₂ hwrite
  split at hwrite
  · cases hwrite
  split at hwrite
  · obtain rfl := Except.ok.inj hwrite
    rw [← (Prod.mk.inj h).2]
    have hobject : p.exchange.region.object < ((p.setSignal p.direction.copying s.shm).store
        p.exchange.region (p.exchange.layout.areaOffset p.area) data).objects.size := by
      simpa using hx
    have hwords := congrFun (Exchange.words_setPayloadLength hobject p.area data.length) p.area
    rw [Function.update_self, Exchange.words_store_data _ (Exchange.dataStart_le_areaOffset ..) hlt]
      at hwords
    have hlock := Exchange.lock_of_words hwords
    have hsignal := Exchange.signal_of_words hwords
    refine ⟨_, run_finished 0 hw (.beside s.cache ?_ hlock hsignal)⟩
    simp
  · cases hwrite

end

end Meeting
end TierAlloc
