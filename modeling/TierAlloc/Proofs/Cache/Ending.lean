import TierAlloc.Proofs.Cache.Integrity
import TierAlloc.Proofs.Exchange.Progress

/-!
# How a handoff of a channel ends

The owner of a channel waits for a handoff, with or without a deadline, or drops it, and
peers claim its area, finish and abort meanwhile, as often as they like. Each of these
is a step at the signal word, in any order (`Meeting.Step`); the handoff is any that a
channel has come to hold.

**Results.**
* `Channel.handoff_ends`: the area is released once and not under a peer that copies, a
  timeout means that the offer was taken back, and a peer that was first is heard.
-/
namespace TierAlloc

namespace Meeting

/-- How the end of the handoff `p` goes, after these turns and in the next one. -/
structure Orderly (p : Pending) (start : Meeting) (turns : List Event) (m : Meeting) : Prop where
  /-- The area is released once, when the call returns; until then it is locked. -/
  released : turns.countP Event.isRelease = if m.call.isReturned then 1 else 0
  locked : p.exchange.lock m.shm p.area = if m.call.isReturned then 0 else 1
  /-- The call returns by the release, and before that every peer that had claimed the area
  has finished or aborted. -/
  returns : ∀ e m', Step p m e m' → m.call.isReturned = false → m'.call.isReturned = true →
    e = .release
  release : ∀ m', Step p m .release m' → (∀ dir : Direction, p.signal m.shm ≠ dir.copying) ∧
    m.copying = [] ∧ ∀ before peer after, turns = before ++ .claim peer :: after →
      .finish peer ∈ after ∨ .abort peer ∈ after
  /-- An answer is a timeout only if there was a deadline and the owner exchanged the waiting
  word for the idle one itself. -/
  timeout : m.call.answer? = some (.error (.handoffTimeout p.segment.id)) →
    withdrawal p ∈ turns ∧ .call .deadline ∈ turns
  /-- After that no peer claims the area for this handoff, whatever it presents. -/
  withdrawn : ∀ before after, turns = before ++ withdrawal p :: after →
    ∀ peer, .claim peer ∉ after
  refused : withdrawal p ∈ turns → ∀ (q : Peer) d dir m', q.Serves p.exchange →
    q.claim d dir m.shm ≠ (.ok p.area, m')
  /-- If a peer finishes first, the owner does not withdraw, and answers what comes of the
  payload. -/
  reached : Reached p start turns → withdrawal p ∉ turns ∧
    ∀ r, m.call.answer? = some r → .take r ∈ turns ∧ r ≠ .error (.handoffTimeout p.segment.id)
  /-- That is the segment that is complete, unless an inbound payload cannot be stored. -/
  taken : ∀ r m', Step p m (.take r) m' → p.signal m.shm = p.direction.done ∧
    r = (p.take m.cache m.shm).1 ∧ p.Taken m.cache m.shm r
  /-- A call that is made gets to its end by steps of the owner alone, as soon as nobody is
  copying and, without a deadline, a peer has finished. -/
  ends : m.call ≠ .unmade → m.call.isReturned = false → m.copying = [] →
    (∀ stage failure, m.call = .working .completion stage failure →
      p.signal m.shm = p.direction.done) → Ends p m

section
variable {p : Pending} {start m : Meeting} {turns : List Event}

theorem Stands.answer {call : Call} {copying : List Nat} {word : Nat}
    (h : Stands p start turns call copying word) {r : Except Error Segment}
    (hr : call.answer? = some r) :
    (.take r ∈ turns ∧ withdrawal p ∉ turns) ∨
      (r = .error (.handoffTimeout p.segment.id) ∧ Withdrawn p start turns ∧
        .call .deadline ∈ turns) := by
  have hanswered : ∀ {answer word}, Answered p start turns answer word → answer = some r →
      (.take r ∈ turns ∧ withdrawal p ∉ turns) ∨
        (r = .error (.handoffTimeout p.segment.id) ∧ Withdrawn p start turns ∧
          .call .deadline ∈ turns) := by
    intro answer word ha he
    cases ha with
    | dropped => cases he
    | taken hu ht =>
      obtain rfl := Option.some.inj he
      exact Or.inl ⟨ht, hu.kept⟩
    | withdrew => cases he
    | timedOut hw hc => exact Or.inr ⟨(Option.some.inj he).symm, hw, hc⟩
  cases h with
  | unmade => cases hr
  | working => cases hr
  | completed => cases hr
  | withdrawn => cases hr
  | finishing ha => exact hanswered ha hr
  | returned ha => exact hanswered ha hr

/-- Nobody is copying when the owner is about to release the area. -/
theorem Stands.quiet {answer : Option (Except Error Segment)} {copying : List Nat} {word : Nat}
    (h : Stands p start turns (.finishing answer) copying word) :
    (∀ dir : Direction, word ≠ dir.copying) ∧ copying = [] := by
  have hdone : ∀ d dir : Direction, d.done ≠ dir.copying := by
    intro d dir
    cases d <;> cases dir <;> decide
  have hidle : ∀ dir : Direction, Signal.idle ≠ dir.copying := fun dir => dir.copying_ne_idle.symm
  cases h with
  | finishing ha =>
    refine ⟨?_, rfl⟩
    cases ha with
    | dropped => exact hdone _
    | taken => exact hdone _
    | withdrew => exact hidle
    | timedOut => exact hidle

/-- A loop that has not ended, with nobody copying, finds the word waiting or done. -/
theorem Stands.settled {goal : Goal} {stage : Stage} {failure : Option Error} {copying : List Nat}
    {word : Nat} (h : Stands p start turns (.working goal stage failure) copying word)
    (hnil : copying = []) : (word = p.direction.waiting ∨ word = p.direction.done) ∨
      ∃ outcome, stage = .ended outcome := by
  cases h with
  | working ho hs =>
    cases hs with
    | waiting => exact Or.inl (Or.inl rfl)
    | copying => cases hnil
    | done => exact Or.inl (Or.inr rfl)
  | completed => exact Or.inr ⟨_, rfl⟩
  | withdrawn => exact Or.inr ⟨_, rfl⟩

theorem Tracked.ends_of_quiet (h : Tracked p start turns m) (hmade : m.call ≠ .unmade)
    (hreturned : m.call.isReturned = false) (hnil : m.copying = [])
    (hg : ∀ stage failure, m.call = .working .completion stage failure →
      p.signal m.shm = p.direction.done) : Ends p m := by
  have hst := h.stands
  cases hc : m.call with
  | unmade => exact absurd hc hmade
  | returned answer =>
    rw [hc] at hreturned
    cases hreturned
  | finishing answer => exact ⟨_, _, .one (.release hc), rfl, by simp [Event.isOwn]⟩
  | working goal stage failure =>
    rw [hc] at hst
    rcases hst.settled hnil with hw | ⟨outcome, rfl⟩
    · refine Tracked.ends ?_ h hc
      by_cases hcompletion : goal = .completion
      · subst hcompletion
        exact Or.inr (hg stage failure hc)
      · exact hw.imp_left fun hw => ⟨hw, hcompletion⟩
    · exact h.ends_of_ended hc

theorem orderly_of_tracked (h : Tracked p start turns m) : Orderly p start turns m where
  released := h.released
  locked := h.lock
  returns e m' hs hr hr' := by
    rcases hs.lock h.object_lt with ⟨-, he, -⟩ | ⟨he, -⟩
    · rw [he, hr] at hr'
      cases hr'
    · cases e <;> first | rfl | cases he
  release m' hs := by
    have hst := h.stands
    have hclaimed := h.claimed
    cases hs with
    | release hc =>
      rw [hc] at hst
      obtain ⟨hcopying, hnil⟩ := hst.quiet
      refine ⟨hcopying, hnil, fun before peer after hsplit => ?_⟩
      have hp := hclaimed before peer after hsplit
      rw [hnil] at hp
      exact hp.resolve_left List.not_mem_nil
  timeout hr := by
    rcases h.stands.answer hr with ⟨ht, -⟩ | ⟨-, hw, hc⟩
    · exact absurd rfl (h.takes _ ht)
    · exact ⟨hw.withdrew, hc⟩
  withdrawn := h.last
  refused hw q d dir m' hq hclaim := by
    obtain ⟨hclaims, -⟩ := Peer.claim_ok hclaim
    have hwaiting := hclaims.signal
    rw [hq.signal_eq] at hwaiting
    exact dir.waiting_ne_idle (hwaiting.symm.trans (h.stands.of_withdrawal hw).2)
  reached hr := by
    have hkept : withdrawal p ∉ turns := fun hw => (h.stands.of_withdrawal hw).1.first hr
    refine ⟨hkept, fun r ha => ?_⟩
    rcases h.stands.answer ha with ⟨ht, -⟩ | ⟨-, hw, -⟩
    · exact ⟨ht, h.takes r ht⟩
    · exact absurd hw.withdrew hkept
  taken r m' hs := by
    have htaken := p.take_taken m.cache m.shm
    cases hs with
    | take hc _ ht =>
      rw [ht] at htaken ⊢
      exact ⟨(h.completed hc).1, rfl, htaken⟩
    | fail hc _ ht =>
      rw [ht] at htaken ⊢
      exact ⟨(h.completed hc).1, rfl, htaken⟩
  ends := h.ends_of_quiet

end

end Meeting

namespace Channel

section
variable {manager : String} {count size : Nat} {capacity : Option Nat} {shm₀ shm : Shm} {c : Cache}
  {ids : Counter} {events : List Event} {s : Channel} {p : Pending}

/-- Any handoff that holds an area can be ended. -/
theorem begins (hc : Cache.create manager (.handoff count size) capacity shm₀ = (.ok c, shm))
    (hrun : Run (Step manager fun _ _ => True) (start c ids shm) events s)
    (hp : p ∈ s.traffic.pendings) : Meeting.Begins p ⟨s.cache, s.shm, .unmade, []⟩ := by
  obtain ⟨x, -, h0⟩ := inOrder_start ids hc
  have h := (hrun.invariant (P := fun _ s => InOrder manager x s) h0 fun h hs => h.step hs).held
  have hx := h.exchange p hp
  refine ⟨?_, ?_, ?_, rfl, rfl⟩
  · rw [hx]
    exact h.object_lt
  · rw [hx]
    exact h.locked p hp
  · rw [Pending.signal, hx]
    exact h.signal p hp

/-- **How a handoff ends.** Whatever handoff a channel has come to hold, whatever its owner
then calls, and in whatever order the owner's steps and those of peers follow each other:
the end of the handoff is orderly. -/
theorem handoff_ends {turns : List Meeting.Event} {m : Meeting}
    (hc : Cache.create manager (.handoff count size) capacity shm₀ = (.ok c, shm))
    (hrun : Run (Step manager fun _ _ => True) (start c ids shm) events s)
    (hp : p ∈ s.traffic.pendings)
    (hturns : Run (Meeting.Step p) ⟨s.cache, s.shm, .unmade, []⟩ turns m) :
    Meeting.Orderly p ⟨s.cache, s.shm, .unmade, []⟩ turns m :=
  Meeting.orderly_of_tracked ((begins hc hrun hp).run hturns)

end

/-- A wait of the sample channel, up to its deadline, with no peer about. -/
theorem handoff_ends_by_timeout : ∃ turns m,
    Run (Meeting.Step (sampleOffer.pending 0)) ⟨sampleCache, samplePlaced, .unmade, []⟩
      (.call .deadline :: turns) m ∧
    m.call = .returned (some (.error (.handoffTimeout 0))) ∧
    Meeting.Orderly (sampleOffer.pending 0) ⟨sampleCache, samplePlaced, .unmade, []⟩
      (.call .deadline :: turns) m := by
  have hp : sampleOffer.pending 0 ∈ sample.traffic.pendings := List.mem_singleton_self _
  have hanswer : ((sampleOffer.pending 0).settle? .deadline [] sampleCache samplePlaced).map Prod.fst =
      some (.error (.handoffTimeout 0)) := by decide +kernel
  obtain ⟨⟨r, c, shm⟩, hs, rfl⟩ := Option.map_eq_some_iff.mp hanswer
  have hgoal : Goal.deadline ≠ .abandon := nofun
  obtain ⟨turns, m, hturns, hcall, -⟩ :=
    Meeting.of_settle? (begins sample_create (sample_run _) hp) hgoal hs
  exact ⟨turns, m, hturns, hcall, handoff_ends sample_create (sample_run _) hp hturns⟩

/-! ## A payload without room

Two bytes need a buffer of sixteen. In a cache of less they stay where they are, although
the peer has delivered them. -/

def narrowCache : Cache := { sampleCache with heap := .create (some 15) }

/-- The channel over that cache, after two bytes were delivered. -/
def narrowServed : Channel := { sampleServed with cache := narrowCache }

/-- A peer delivers two bytes to the sample channel, whatever the heap of its cache. -/
theorem served_run (heap : BufferPool) (allowed : Traffic → Descriptor → Prop)
    (hd : ∀ t, allowed t (sampleOffer.pending 0).descriptor) : ∃ events,
    Run (Step "m" allowed) (start { sampleCache with heap } {} sampleMemory) events
      { sampleServed with cache := { sampleCache with heap } } := by
  have hask : Step "m" allowed (start { sampleCache with heap } {} sampleMemory)
      (.askMalloc 3 (.ok sampleOffer)) _ := .askMalloc rfl
  have hplace : Traffic.Step "m" allowed (sampleMemory, ⟨[⟨sampleOffer, .inbound 3⟩], [], [], []⟩)
      (.place ⟨sampleOffer, .inbound 3⟩ (.ok (sampleOffer.pending 0))) _ :=
    .placed (List.nil_append _).symm sample_place
  have hpeer : Peer.attach "m" samplePlaced = .ok samplePeer := by decide +kernel
  have hok : (samplePeer.deliver (sampleOffer.pending 0).descriptor [1, 2] samplePlaced).1 = .ok () := by
    decide +kernel
  have hdeliver : Traffic.Step "m" allowed
      (samplePlaced, { sample.traffic with peers := [samplePeer] })
      (.deliver samplePeer (sampleOffer.pending 0).descriptor [1, 2] (.ok ())) _ :=
    .delivered List.mem_cons_self (hd _) (Prod.ext hok rfl)
  exact ⟨_, (((Run.one hask).next (.exchange hplace)).next (.exchange (.attach hpeer))).next
    (.exchange hdeliver)⟩

/-- The peer has finished before the owner calls, and the owner neither times out nor gets
the segment. -/
theorem reached_without_room : ∃ events turns m,
    Cache.create "m" (.handoff 1 8) (some 15) .empty = (.ok narrowCache, sampleMemory) ∧
    Run (Step "m" fun _ _ => True) (start narrowCache {} sampleMemory) events narrowServed ∧
    sampleOffer.pending 0 ∈ narrowServed.traffic.pendings ∧
    (sampleOffer.pending 0).isSignalled narrowServed.shm = true ∧
    Run (Meeting.Step (sampleOffer.pending 0)) ⟨narrowCache, narrowServed.shm, .unmade, []⟩
      (.call .deadline :: turns) m ∧
    m.call = .returned (some (.error (.noMemory 2))) := by
  obtain ⟨events, hrun⟩ : ∃ events, Run (Step "m" fun _ _ => True)
      (start narrowCache {} sampleMemory) events narrowServed := served_run _ _ fun _ => trivial
  have hcreate : Cache.create "m" (.handoff 1 8) (some 15) .empty = (.ok narrowCache, sampleMemory) :=
    rfl
  have hp : sampleOffer.pending 0 ∈ narrowServed.traffic.pendings := List.mem_singleton_self _
  have hsignalled : (sampleOffer.pending 0).isSignalled narrowServed.shm = true := by decide +kernel
  have hanswer : ((sampleOffer.pending 0).settle? .deadline [] narrowCache narrowServed.shm).map
      Prod.fst = some (.error (.noMemory 2)) := by decide +kernel
  obtain ⟨⟨r, c, shm⟩, hs, rfl⟩ := Option.map_eq_some_iff.mp hanswer
  have hgoal : Goal.deadline ≠ .abandon := nofun
  obtain ⟨turns, m, hturns, hcall, -⟩ := Meeting.of_settle? (begins hcreate hrun hp) hgoal hs
  exact ⟨events, turns, m, hcreate, hrun, hp, hsignalled, hturns, hcall⟩

end Channel
end TierAlloc
