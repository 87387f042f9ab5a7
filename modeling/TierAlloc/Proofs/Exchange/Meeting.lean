import TierAlloc.Proofs.Exchange.Owner
import TierAlloc.Proofs.Memory.Heap
import TierAlloc.Proofs.Run

/-!
# Owner and peers at a signal word

`Pending.settle?` runs the owner of a handoff to its end in one go. Here the owner's
loop and the peers take turns at the signal word of the area, one load, store or
exchange at a time. A `Meeting` is the cache and the shared memory, how far the
owner's call has come, and which peers have claimed the area and not left it. A peer
claims only a word that waits; when it finishes or aborts it stores, whatever the word
is by then. Anything else may happen in between that leaves the lock and the signal of
this area: other areas, the payload, the entries of the cache.

Sleeps end when the deadline passes or the word has changed, and sometimes for no
reason. They do not fail.

**Results.**
* `Meeting.Stands.step`: the invariant. It says for each stage of the call what the word
  can be, who is copying, and what has happened so far.
* `Meeting.Tracked.step`, `Meeting.Begins.run`: with it the lock and the history of the area,
  at every point of every meeting that begins with the handoff.
-/
namespace TierAlloc

/-- How far the owner's call has come. An `answer` is none where the handoff was only
dropped. -/
inductive Call where
  | unmade
  /-- In the loop. Taking the payload may have failed already: then the handoff is being
  given up, and `failure` is what the call will answer. -/
  | working (goal : Goal) (stage : Stage) (failure : Option Error)
  /-- The area is about to be released. -/
  | finishing (answer : Option (Except Error Segment))
  | returned (answer : Option (Except Error Segment))

def Call.isReturned : Call → Bool
  | .returned _ => true
  | _ => false

/-- What the call answers, once that is known. -/
def Call.answer? : Call → Option (Except Error Segment)
  | .finishing answer => answer
  | .returned answer => answer
  | _ => none

structure Meeting where
  cache : Cache
  shm : Shm
  call : Call
  /-- The peers that claimed the area and have not left it. -/
  copying : List Nat

/-- The owner's store of a word that it means to change. -/
@[irreducible]
def Pending.put (p : Pending) (word : Nat) (shm : Shm) : Shm :=
  if p.signal shm = word then shm else p.setSignal word shm

/-- What a call answers that ends without a payload. -/
def Pending.farewell (p : Pending) (failure : Option Error) :
    Goal → Option (Except Error Segment)
  | .abandon => failure.map .error
  | .completion | .deadline => some (.error (.handoffTimeout p.segment.id))

namespace Meeting

inductive Event where
  | claim (peer : Nat)
  | finish (peer : Nat)
  | abort (peer : Nat)
  | call (goal : Goal)
  /-- A step of the owner's loop: the word that it found, and the word that it left. -/
  | owner (found left : Nat)
  | take (answer : Except Error Segment)
  | close
  | release
  | beside

def Event.isRelease : Event → Bool
  | .release => true
  | _ => false

/-- The event is one of the owner's call. -/
def Event.isOwn : Event → Bool
  | .owner .. | .take _ | .close | .release => true
  | _ => false

/-- The owner's exchange of the waiting word for the idle one. -/
def withdrawal (p : Pending) : Event := .owner p.direction.waiting Signal.idle

/-- What may happen at the area of the handoff `p`. -/
inductive Step (p : Pending) : Meeting → Event → Meeting → Prop
  | claim {s} (peer : Nat) (h : p.signal s.shm = p.direction.waiting) :
      Step p s (.claim peer)
        { s with shm := p.setSignal p.direction.copying s.shm, copying := peer :: s.copying }
  | finish {s peer} (h : peer ∈ s.copying) :
      Step p s (.finish peer)
        { s with shm := p.setSignal p.direction.done s.shm, copying := s.copying.erase peer }
  | abort {s peer} (h : peer ∈ s.copying) :
      Step p s (.abort peer)
        { s with shm := p.setSignal p.direction.waiting s.shm, copying := s.copying.erase peer }
  | call {s} (goal : Goal) (h : s.call = .unmade) :
      Step p s (.call goal) { s with call := .working goal .look none }
  | owner {s goal stage failure stage' word} (wake : Wake) (h : s.call = .working goal stage failure)
      (hw : wake = .timedOut → goal = .deadline)
      (hn : stage.next goal p.direction wake (p.signal s.shm) = (stage', word)) :
      Step p s (.owner (p.signal s.shm) word)
        { s with call := .working goal stage' failure, shm := p.put word s.shm }
  | take {s goal seg cache} (h : s.call = .working goal (.ended .completed) none)
      (hg : goal ≠ .abandon) (ht : p.take s.cache s.shm = (.ok seg, cache)) :
      Step p s (.take (.ok seg)) { s with cache, call := .finishing (some (.ok seg)) }
  | fail {s goal e cache} (h : s.call = .working goal (.ended .completed) none)
      (hg : goal ≠ .abandon) (ht : p.take s.cache s.shm = (.error e, cache)) :
      Step p s (.take (.error e)) { s with cache, call := .working .abandon .look (some e) }
  | close {s goal outcome failure} (h : s.call = .working goal (.ended outcome) failure)
      (hg : goal = .abandon ∨ outcome ≠ .completed) :
      Step p s .close { s with call := .finishing (p.farewell failure goal) }
  | release {s answer} (h : s.call = .finishing answer) :
      Step p s .release { s with shm := p.release s.shm, call := .returned answer }
  | beside {s shm} (cache : Cache) (hc : s.shm.objects.size ≤ shm.objects.size)
      (hl : p.exchange.lock shm p.area = p.exchange.lock s.shm p.area)
      (hs : p.signal shm = p.signal s.shm) :
      Step p s .beside { s with cache, shm }

end Meeting

/-! ## Words -/

namespace Direction

theorem waiting_ne_done (d : Direction) : d.waiting ≠ d.done := by cases d <;> decide

theorem waiting_ne_copying (d : Direction) : d.waiting ≠ d.copying := by cases d <;> decide

theorem copying_ne_done (d : Direction) : d.copying ≠ d.done := by cases d <;> decide

theorem waiting_ne_idle (d : Direction) : d.waiting ≠ Signal.idle := by cases d <;> decide

theorem copying_ne_idle (d : Direction) : d.copying ≠ Signal.idle := by cases d <;> decide

theorem done_ne_idle (d : Direction) : d.done ≠ Signal.idle := by cases d <;> decide

theorem waiting_lt (d : Direction) : d.waiting < halfRange := by cases d <;> decide

theorem copying_lt (d : Direction) : d.copying < halfRange := by cases d <;> decide

theorem done_lt (d : Direction) : d.done < halfRange := by cases d <;> decide

end Direction

namespace Pending

variable {p : Pending} {shm : Shm} {n : Nat}

@[simp] theorem size_setSignal (p : Pending) (n : Nat) (shm : Shm) :
    (p.setSignal n shm).objects.size = shm.objects.size := Exchange.size_setSignal ..

@[simp] theorem size_put (p : Pending) (n : Nat) (shm : Shm) :
    (p.put n shm).objects.size = shm.objects.size := by
  unfold put
  split
  · rfl
  · exact p.size_setSignal n shm

theorem put_signal (p : Pending) (shm : Shm) : p.put (p.signal shm) shm = shm := by
  rw [put, if_pos rfl]

section
variable (hx : p.exchange.region.object < shm.objects.size)

include hx

theorem words_setSignal : p.exchange.words (p.setSignal n shm) p.area =
    { p.exchange.words shm p.area with signal := n % halfRange } := by
  rw [setSignal, Exchange.words_setSignal hx, Function.update_self]

theorem signal_setSignal (hn : n < halfRange) : p.signal (p.setSignal n shm) = n :=
  (Exchange.signal_of_words (words_setSignal hx)).trans (Nat.mod_eq_of_lt hn)

theorem lock_setSignal :
    p.exchange.lock (p.setSignal n shm) p.area = p.exchange.lock shm p.area :=
  Exchange.lock_of_words (words_setSignal hx)

theorem signal_put (hn : n < halfRange) : p.signal (p.put n shm) = n := by
  unfold put
  split
  · assumption
  · exact signal_setSignal hx hn

theorem lock_put : p.exchange.lock (p.put n shm) p.area = p.exchange.lock shm p.area := by
  unfold put
  split
  · rfl
  · exact lock_setSignal hx

theorem words_release : p.exchange.words (p.release shm) p.area = .free := by
  rw [release, Exchange.words_release hx, Function.update_self]

end

end Pending

/-! ## Taking the payload -/

/-- What taking the payload of a finished handoff answers: its segment or, for bytes that came
in, why there is no entry for them. -/
inductive Pending.Taken (p : Pending) (c : Cache) (shm : Shm) : Except Error Segment → Prop
  | outbound (hd : p.direction = .outbound) : p.Taken c shm (.ok p.segment)
  | inbound (hd : p.direction = .inbound) :
      p.Taken c shm (.ok (c.entrySegment p.segment.id (p.exchange.payloadLength shm p.area)))
  | noMemory (hd : p.direction = .inbound) :
      p.Taken c shm (.error (.noMemory (p.exchange.payloadLength shm p.area)))
  | outside (hd : p.direction = .inbound) (hr : p.exchange.region.size <
      p.exchange.layout.areaOffset p.area + p.exchange.payloadLength shm p.area) :
      p.Taken c shm (.error (.rangeError (p.exchange.layout.areaOffset p.area)
        (p.exchange.payloadLength shm p.area)))
  | present (hd : p.direction = .inbound) (hc : c.contains p.segment.id = true) :
      p.Taken c shm (.error (.duplicatedKey p.segment.id))

namespace Pending

theorem take_taken (p : Pending) (c : Cache) (shm : Shm) : p.Taken c shm (p.take c shm).1 := by
  unfold take
  split
  · exact .outbound ‹_›
  rename_i hd
  simp only
  split
  · rename_i e heap ha
    obtain rfl := BufferPool.acquire_error ha
    exact .noMemory hd
  split
  · rename_i e hr
    rw [Shm.read_eq] at hr
    split at hr
    · cases hr
    · rename_i hcover
      obtain rfl := Except.error.inj hr
      exact .outside hd (Nat.lt_of_not_le hcover)
  split
  · rename_i e c' hi
    unfold Cache.insert at hi
    split at hi
    · rename_i hcontains
      obtain rfl := Except.error.inj (Prod.mk.inj hi).1
      exact .present hd hcontains
    · exact nomatch (Prod.mk.inj hi).1
  · rename_i hi
    unfold Cache.insert at hi
    split at hi
    · exact nomatch (Prod.mk.inj hi).1
    · rw [← (Prod.mk.inj hi).2]
      exact .inbound hd

theorem Taken.ne_timeout {p : Pending} {c : Cache} {shm : Shm} {r : Except Error Segment}
    (h : p.Taken c shm r) : r ≠ .error (.handoffTimeout p.segment.id) := by
  cases h <;> exact nofun

end Pending

/-! ## Steps of the owner's loop -/

namespace Stage

/-- The loop has not come to its end. -/
def Open (stage : Stage) : Prop := ∀ outcome, stage ≠ .ended outcome

theorem open_or_ended (stage : Stage) : stage.Open ∨ ∃ outcome, stage = .ended outcome := by
  by_cases h : ∃ outcome, stage = .ended outcome
  · exact Or.inr h
  · exact Or.inl fun outcome he => h ⟨outcome, he⟩

/-- What one step of the loop can do: it goes on and leaves the word; it finds the word
done; it withdraws a word that waits; or it finds the word idle. -/
theorem next_cases {stage : Stage} (ho : stage.Open) (goal : Goal) (dir : Direction) (wake : Wake)
    (word : Nat) :
    ((stage.next goal dir wake word).1.Open ∧ (stage.next goal dir wake word).2 = word) ∨
      (stage.next goal dir wake word = (.ended .completed, word) ∧ word = dir.done) ∨
      (stage.next goal dir wake word = (.ended .withdrawn, Signal.idle) ∧ word = dir.waiting ∧
        stage = .cancel) ∨
      (stage.next goal dir wake word = (.ended .idle, word) ∧ word = Signal.idle) := by
  have hopen : ∀ stage' : Stage, stage'.Open → stage.next goal dir wake word = (stage', word) →
      (stage.next goal dir wake word).1.Open ∧ (stage.next goal dir wake word).2 = word := by
    intro stage' h he
    rw [he]
    exact ⟨h, rfl⟩
  cases stage with
  | look =>
    by_cases hd : word = dir.done
    · exact Or.inr (Or.inl ⟨if_pos hd, hd⟩)
    · cases goal with
      | completion => exact Or.inl (hopen (.asleep word) nofun (if_neg hd))
      | deadline => exact Or.inl (hopen (.asleep word) nofun (if_neg hd))
      | abandon =>
        by_cases hi : word = Signal.idle
        · exact Or.inr (Or.inr (Or.inr ⟨(if_neg hd).trans (if_pos hi), hi⟩))
        by_cases hw : word = dir.waiting
        · exact Or.inl (hopen .cancel nofun ((if_neg hd).trans ((if_neg hi).trans (if_pos hw))))
        · exact Or.inl (hopen (.outwait word) nofun ((if_neg hd).trans ((if_neg hi).trans (if_neg hw))))
  | asleep seen =>
    cases wake with
    | changed => exact Or.inl (hopen .look nofun rfl)
    | timedOut => exact Or.inl (hopen .cancel nofun rfl)
  | cancel =>
    by_cases hw : word = dir.waiting
    · exact Or.inr (Or.inr (Or.inl ⟨if_pos hw, hw, rfl⟩))
    · cases goal with
      | abandon => exact Or.inl (hopen .look nofun (if_neg hw))
      | completion => exact Or.inl (hopen .lookAgain nofun (if_neg hw))
      | deadline => exact Or.inl (hopen .lookAgain nofun (if_neg hw))
  | lookAgain =>
    by_cases hw : word = dir.waiting ∨ word = dir.done
    · exact Or.inl (hopen .look nofun (if_pos hw))
    · exact Or.inl (hopen (.outwait word) nofun (if_neg hw))
  | outwait seen => exact Or.inl (hopen .look nofun rfl)
  | ended outcome => exact absurd rfl (ho outcome)

/-- The owner leaves the word, or makes it idle. -/
theorem next_word (stage : Stage) (goal : Goal) (dir : Direction) (wake : Wake) (word : Nat) :
    (stage.next goal dir wake word).2 = word ∨ (stage.next goal dir wake word).2 = Signal.idle := by
  rcases stage.open_or_ended with ho | ⟨outcome, rfl⟩
  · rcases next_cases ho goal dir wake word with ⟨-, he⟩ | ⟨he, -⟩ | ⟨he, -⟩ | ⟨he, -⟩
    · exact Or.inl he
    · exact Or.inl (congrArg Prod.snd he)
    · exact Or.inr (congrArg Prod.snd he)
    · exact Or.inl (congrArg Prod.snd he)
  · exact Or.inl rfl

/-- An owner that waits without a deadline never tries to withdraw. -/
theorem next_ne_cancel (stage : Stage) (dir : Direction) {wake : Wake} (word : Nat)
    (hw : wake = .timedOut → Goal.completion = .deadline) :
    (stage.next .completion dir wake word).1 ≠ .cancel := by
  cases stage with
  | look =>
    simp only [next]
    split <;> exact nofun
  | asleep seen =>
    cases wake with
    | changed => exact nofun
    | timedOut => exact absurd (hw rfl) nofun
  | cancel =>
    simp only [next]
    split <;> exact nofun
  | lookAgain =>
    simp only [next]
    split <;> exact nofun
  | outwait seen => exact nofun
  | ended outcome => exact nofun

end Stage

/-! ## The invariant -/

/-- As long as the owner has not withdrawn, the word tells who is copying. -/
inductive Shown (dir : Direction) : (copying : List Nat) → (word : Nat) → Prop
  | waiting : Shown dir [] dir.waiting
  | copying (peer : Nat) : Shown dir [peer] dir.copying
  | done : Shown dir [] dir.done

namespace Shown

variable {dir : Direction} {copying : List Nat} {word : Nat}

theorem nil_of_ne (h : Shown dir copying word) (hw : word ≠ dir.copying) : copying = [] := by
  cases h with
  | waiting => rfl
  | copying => exact absurd rfl hw
  | done => rfl

theorem ne_idle (h : Shown dir copying word) : word ≠ Signal.idle := by
  cases h with
  | waiting => exact dir.waiting_ne_idle
  | copying => exact dir.copying_ne_idle
  | done => exact dir.done_ne_idle

/-- A peer that is copying is alone, and the word says so. -/
theorem of_mem (h : Shown dir copying word) {peer : Nat} (hp : peer ∈ copying) :
    word = dir.copying ∧ copying.erase peer = [] := by
  cases h with
  | waiting => exact absurd hp List.not_mem_nil
  | copying q =>
    obtain rfl := List.mem_singleton.mp hp
    exact ⟨rfl, List.erase_cons_head ..⟩
  | done => exact absurd hp List.not_mem_nil

end Shown

namespace Meeting

variable {p : Pending} {start s s' : Meeting} {events : List Event} {e : Event} {word word' : Nat}

/-- A peer has finished. -/
def Reached (p : Pending) (start : Meeting) (events : List Event) : Prop :=
  p.signal start.shm = p.direction.done ∨ ∃ peer, Event.finish peer ∈ events

/-- The owner has not withdrawn, and the word stays done once a peer has finished. -/
structure Unspent (p : Pending) (start : Meeting) (events : List Event) (word : Nat) : Prop where
  kept : withdrawal p ∉ events
  reached : Reached p start events → word = p.direction.done

/-- The owner has withdrawn, before any peer finished. -/
structure Withdrawn (p : Pending) (start : Meeting) (events : List Event) : Prop where
  withdrew : withdrawal p ∈ events
  first : ¬Reached p start events

/-- Why the call answers as it does, with the last word before the release. -/
inductive Answered (p : Pending) (start : Meeting) (events : List Event) :
    Option (Except Error Segment) → (word : Nat) → Prop
  | dropped (h : Unspent p start events p.direction.done) : Answered p start events none p.direction.done
  | taken {r} (h : Unspent p start events p.direction.done) (ht : .take r ∈ events) :
      Answered p start events (some r) p.direction.done
  | withdrew (h : Withdrawn p start events) : Answered p start events none Signal.idle
  | timedOut (h : Withdrawn p start events) (hc : .call .deadline ∈ events) :
      Answered p start events (some (.error (.handoffTimeout p.segment.id))) Signal.idle

/-- How the call came to be after `goal`. -/
structure Made (p : Pending) (events : List Event) (goal : Goal) (failure : Option Error)
    (word : Nat) : Prop where
  called : failure = none → .call goal ∈ events
  failed : ∀ e, failure = some e →
    goal = .abandon ∧ word = p.direction.done ∧ .take (.error e) ∈ events

/-- What is so at each stage of the call. -/
inductive Stands (p : Pending) (start : Meeting) (events : List Event) :
    Call → (copying : List Nat) → (word : Nat) → Prop
  | unmade {copying word} (hs : Shown p.direction copying word)
      (hu : Unspent p start events word) : Stands p start events .unmade copying word
  | working {goal stage failure copying word} (ho : stage.Open)
      (hs : Shown p.direction copying word) (hu : Unspent p start events word)
      (hc : goal = .completion → stage ≠ .cancel) (hm : Made p events goal failure word) :
      Stands p start events (.working goal stage failure) copying word
  | completed {goal failure} (hu : Unspent p start events p.direction.done)
      (hm : Made p events goal failure p.direction.done) :
      Stands p start events (.working goal (.ended .completed) failure) [] p.direction.done
  | withdrawn {goal} (hw : Withdrawn p start events) (hg : goal ≠ .completion)
      (hc : .call goal ∈ events) :
      Stands p start events (.working goal (.ended .withdrawn) none) [] Signal.idle
  | finishing {answer word} (ha : Answered p start events answer word) :
      Stands p start events (.finishing answer) [] word
  | returned {answer word} (ha : Answered p start events answer word) :
      Stands p start events (.returned answer) [] Signal.idle

/-! An event that is neither a withdrawal nor the end of a copy changes nothing in what
has happened so far. -/

/-- The event decides nothing. -/
def Plain (p : Pending) (e : Event) : Prop := e ≠ withdrawal p ∧ ∀ peer, e ≠ .finish peer

theorem reached_append (he : ∀ peer, e ≠ .finish peer) :
    Reached p start (events ++ [e]) ↔ Reached p start events := by
  unfold Reached
  simp only [List.mem_append, List.mem_singleton, (he _).symm, or_false]

theorem Unspent.append (h : Unspent p start events word) (he : Plain p e)
    (hw : word = p.direction.done → word' = p.direction.done) :
    Unspent p start (events ++ [e]) word' where
  kept hm := by
    rcases List.mem_append.mp hm with hm | hm
    · exact h.kept hm
    · exact he.1 (List.mem_singleton.mp hm).symm
  reached hr := hw (h.reached ((reached_append he.2).mp hr))

theorem Withdrawn.append (h : Withdrawn p start events) (he : Plain p e) :
    Withdrawn p start (events ++ [e]) where
  withdrew := List.mem_append_left _ h.withdrew
  first hr := h.first ((reached_append he.2).mp hr)

theorem Answered.append {answer : Option (Except Error Segment)}
    (h : Answered p start events answer word) (he : Plain p e) :
    Answered p start (events ++ [e]) answer word := by
  cases h with
  | dropped hu => exact .dropped (hu.append he id)
  | taken hu ht => exact .taken (hu.append he id) (List.mem_append_left _ ht)
  | withdrew hw => exact .withdrew (hw.append he)
  | timedOut hw hc => exact .timedOut (hw.append he) (List.mem_append_left _ hc)

theorem Made.append {goal : Goal} {failure : Option Error} (h : Made p events goal failure word)
    (hw : word = p.direction.done → word' = p.direction.done) (e : Event) :
    Made p (events ++ [e]) goal failure word' where
  called hf := List.mem_append_left _ (h.called hf)
  failed e he :=
    have ⟨hg, hd, ht⟩ := h.failed e he
    ⟨hg, hw hd, List.mem_append_left _ ht⟩

theorem Stands.append {call : Call} {copying : List Nat} (h : Stands p start events call copying word)
    (he : Plain p e) : Stands p start (events ++ [e]) call copying word := by
  cases h with
  | unmade hs hu => exact .unmade hs (hu.append he id)
  | working ho hs hu hc hm => exact .working ho hs (hu.append he id) hc (hm.append id e)
  | completed hu hm => exact .completed (hu.append he id) (hm.append id e)
  | withdrawn hw hg hc => exact .withdrawn (hw.append he) hg (List.mem_append_left _ hc)
  | finishing ha => exact .finishing (ha.append he)
  | returned ha => exact .returned (ha.append he)

/-- Peers are at work only as long as the loop is open, and then the word shows it. -/
theorem Stands.shown {call : Call} {copying : List Nat} (h : Stands p start events call copying word)
    (hw : word = p.direction.waiting ∨ copying ≠ []) : Shown p.direction copying word := by
  have hidle : ¬(Signal.idle = p.direction.waiting ∨ ([] : List Nat) ≠ []) := by
    simp [p.direction.waiting_ne_idle.symm]
  cases h with
  | unmade hs => exact hs
  | working _ hs => exact hs
  | completed => exact .done
  | withdrawn => exact absurd hw hidle
  | finishing ha =>
    cases ha with
    | dropped => exact .done
    | taken => exact .done
    | withdrew => exact absurd hw hidle
    | timedOut => exact absurd hw hidle
  | returned => exact absurd hw hidle

/-- A peer's step, at a word that waits or that it has claimed. -/
theorem Stands.move {call : Call} {copying copying' : List Nat}
    (h : Stands p start events call copying word) (hw : word = p.direction.waiting ∨ copying ≠ [])
    (hs : Shown p.direction copying' word')
    (hu : Unspent p start events word → Unspent p start (events ++ [e]) word')
    (hd : word = p.direction.done → word' = p.direction.done) :
    Stands p start (events ++ [e]) call copying' word' := by
  have hdone : ¬(p.direction.done = p.direction.waiting ∨ ([] : List Nat) ≠ []) := by
    simp [p.direction.waiting_ne_done.symm]
  have hidle : ¬(Signal.idle = p.direction.waiting ∨ ([] : List Nat) ≠ []) := by
    simp [p.direction.waiting_ne_idle.symm]
  cases h with
  | unmade _ hk => exact .unmade hs (hu hk)
  | working ho _ hk hc hm => exact .working ho hs (hu hk) hc (hm.append hd e)
  | completed => exact absurd hw hdone
  | withdrawn => exact absurd hw hidle
  | finishing ha =>
    cases ha with
    | dropped => exact absurd hw hdone
    | taken => exact absurd hw hdone
    | withdrew => exact absurd hw hidle
    | timedOut => exact absurd hw hidle
  | returned => exact absurd hw hidle

/-- A step of the owner's loop, taken with the word at `word`. -/
theorem Stands.loop {goal : Goal} {stage stage' : Stage} {failure : Option Error} {copying : List Nat}
    {wake : Wake} (h : Stands p start events (.working goal stage failure) copying word)
    (hw : wake = .timedOut → goal = .deadline)
    (hn : stage.next goal p.direction wake word = (stage', word')) :
    Stands p start (events ++ [.owner word word']) (.working goal stage' failure) copying word' := by
  have hfinish : ∀ found left peer, Event.owner found left ≠ .finish peer := nofun
  have hplain : ∀ found, Plain p (.owner found found) := by
    refine fun found => ⟨fun he => ?_, hfinish found found⟩
    injection he with hwaiting hidle
    exact p.direction.waiting_ne_idle (hwaiting.symm.trans hidle)
  have hended : ∀ outcome, stage = .ended outcome → stage' = stage ∧ word' = word := by
    rintro outcome rfl
    exact ⟨(congrArg Prod.fst hn).symm, (congrArg Prod.snd hn).symm⟩
  cases h with
  | working ho hs hu hc hm =>
    rcases Stage.next_cases ho goal p.direction wake word with
      ⟨hopen, he⟩ | ⟨he, hdone⟩ | ⟨he, hwait, hcancel⟩ | ⟨-, hidle⟩
    · rw [hn] at hopen he
      obtain rfl : word' = word := he
      refine .working hopen hs (hu.append (hplain _) id) ?_ (hm.append id _)
      rintro rfl
      have hne := stage.next_ne_cancel p.direction word' hw
      rwa [hn] at hne
    · obtain ⟨rfl, rfl⟩ := Prod.mk.inj (hn.symm.trans he)
      subst hdone
      obtain rfl := hs.nil_of_ne p.direction.copying_ne_done.symm
      exact .completed (hu.append (hplain _) id) (hm.append id _)
    · obtain ⟨rfl, rfl⟩ := Prod.mk.inj (hn.symm.trans he)
      subst hwait
      obtain rfl := hs.nil_of_ne p.direction.waiting_ne_copying
      have hnone : failure = none := by
        cases failure with
        | none => rfl
        | some e => exact absurd (hm.failed e rfl).2.1 p.direction.waiting_ne_done
      subst hnone
      refine .withdrawn ⟨List.mem_append_right _ (List.mem_singleton_self _), fun hr => ?_⟩
        (fun hg => hc hg hcancel) (List.mem_append_left _ (hm.called rfl))
      exact p.direction.waiting_ne_done (hu.reached ((reached_append (hfinish _ _)).mp hr))
    · exact absurd hidle hs.ne_idle
  | completed hu hm =>
    obtain ⟨rfl, rfl⟩ := hended _ rfl
    exact .completed (hu.append (hplain _) id) (hm.append id _)
  | withdrawn hw hg hc =>
    obtain ⟨rfl, rfl⟩ := hended _ rfl
    exact .withdrawn (hw.append (hplain _)) hg (List.mem_append_left _ hc)

/-- The owner closes with the answer that its way to the end calls for. -/
theorem Stands.close {goal : Goal} {outcome : Outcome} {failure : Option Error} {copying : List Nat}
    (h : Stands p start events (.working goal (.ended outcome) failure) copying word)
    (hg : goal = .abandon ∨ outcome ≠ .completed) :
    Stands p start events (.finishing (p.farewell failure goal)) copying word := by
  cases h with
  | working ho => exact absurd rfl (ho outcome)
  | completed hu hm =>
    obtain rfl := hg.resolve_right (not_not_intro rfl)
    refine .finishing ?_
    cases failure with
    | none => exact .dropped hu
    | some e => exact .taken hu (hm.failed e rfl).2.2
  | withdrawn hw hne hc =>
    refine .finishing ?_
    cases goal with
    | completion => exact absurd rfl hne
    | deadline => exact .timedOut hw hc
    | abandon => exact .withdrew hw

/-- Every step at the area keeps the invariant. -/
theorem Stands.step (h : Stands p start events s.call s.copying (p.signal s.shm))
    (hx : p.exchange.region.object < s.shm.objects.size) (hs : Step p s e s') :
    Stands p start (events ++ [e]) s'.call s'.copying (p.signal s'.shm) := by
  cases hs with
  | claim peer hw =>
    have hnil := (h.shown (Or.inl hw)).nil_of_ne (by rw [hw]; exact p.direction.waiting_ne_copying)
    have hnd : p.signal s.shm = p.direction.done → p.direction.copying = p.direction.done :=
      fun hd => absurd (hw.symm.trans hd) p.direction.waiting_ne_done
    rw [Pending.signal_setSignal hx p.direction.copying_lt, hnil]
    exact h.move (Or.inl hw) (.copying peer) (fun hu => hu.append ⟨nofun, nofun⟩ hnd) hnd
  | finish hp =>
    have hne := List.ne_nil_of_mem hp
    obtain ⟨-, herase⟩ := (h.shown (Or.inr hne)).of_mem hp
    rw [Pending.signal_setSignal hx p.direction.done_lt, herase]
    refine h.move (Or.inr hne) .done (fun hu => ⟨fun hm => ?_, fun _ => rfl⟩) fun _ => rfl
    exact hu.kept ((List.mem_append.mp hm).resolve_right (by simp [withdrawal]))
  | abort hp =>
    have hne := List.ne_nil_of_mem hp
    obtain ⟨hw, herase⟩ := (h.shown (Or.inr hne)).of_mem hp
    have hnd : p.signal s.shm = p.direction.done → p.direction.waiting = p.direction.done :=
      fun hd => absurd (hw.symm.trans hd) p.direction.copying_ne_done
    rw [Pending.signal_setSignal hx p.direction.waiting_lt, herase]
    exact h.move (Or.inr hne) .waiting (fun hu => hu.append ⟨nofun, nofun⟩ hnd) hnd
  | call goal hc =>
    rw [hc] at h
    cases h with
    | unmade hs hu =>
      refine .working nofun hs (hu.append ⟨nofun, nofun⟩ id) (fun _ => nofun) ⟨fun _ => ?_, nofun⟩
      exact List.mem_append_right _ (List.mem_singleton_self _)
  | @owner goal stage failure stage' word wake hc hw hn =>
    rw [hc] at h
    have hword : p.signal (p.put word s.shm) = word := by
      rcases stage.next_word goal p.direction wake (p.signal s.shm) with he | he <;> rw [hn] at he
      · exact (congrArg (fun n => p.signal (p.put n s.shm)) he).trans
          ((congrArg p.signal (p.put_signal s.shm)).trans he.symm)
      · exact Pending.signal_put hx (by rw [show word = Signal.idle from he]; decide)
    rw [hword]
    exact h.loop hw hn
  | @take goal seg cache hc hg ht =>
    rw [hc] at h
    generalize p.signal s.shm = word at h ⊢
    generalize s.copying = copying at h ⊢
    cases h with
    | working ho => exact absurd rfl (ho _)
    | completed hu hm =>
      exact .finishing (.taken (hu.append ⟨nofun, nofun⟩ id)
        (List.mem_append_right _ (List.mem_singleton_self _)))
  | @fail goal e cache hc hg ht =>
    rw [hc] at h
    generalize p.signal s.shm = word at h ⊢
    generalize s.copying = copying at h ⊢
    cases h with
    | working ho => exact absurd rfl (ho _)
    | completed hu hm =>
      refine .working nofun .done (hu.append ⟨nofun, nofun⟩ id) nofun ⟨nofun, fun e' he => ?_⟩
      obtain rfl := Option.some.inj he
      exact ⟨rfl, rfl, List.mem_append_right _ (List.mem_singleton_self _)⟩
  | close hc hg =>
    rw [hc] at h
    exact (h.close hg).append ⟨nofun, nofun⟩
  | release hc =>
    rw [hc] at h
    rw [show p.signal (p.release s.shm) = Signal.idle from
      Exchange.signal_of_words (Pending.words_release hx)]
    generalize p.signal s.shm = word at h
    generalize s.copying = copying at h ⊢
    cases h with
    | finishing ha => exact .returned (ha.append ⟨nofun, nofun⟩)
  | beside cache hc hl hsig =>
    rw [hsig]
    exact h.append ⟨nofun, nofun⟩

/-! ## Runs -/

/-- The state and the events of a meeting so far. -/
structure Tracked (p : Pending) (start : Meeting) (events : List Event) (s : Meeting) : Prop where
  object_lt : p.exchange.region.object < s.shm.objects.size
  stands : Stands p start events s.call s.copying (p.signal s.shm)
  lock : p.exchange.lock s.shm p.area =
    if s.call.isReturned then Exchange.unlocked else Exchange.locked
  released : events.countP Event.isRelease = if s.call.isReturned then 1 else 0
  claimed : ∀ before peer after, events = before ++ .claim peer :: after →
    peer ∈ s.copying ∨ .finish peer ∈ after ∨ .abort peer ∈ after
  last : ∀ before after, events = before ++ withdrawal p :: after → ∀ peer, .claim peer ∉ after
  takes : ∀ r, .take r ∈ events → r ≠ .error (.handoffTimeout p.segment.id)

theorem Step.object_lt (hs : Step p s e s') (hx : p.exchange.region.object < s.shm.objects.size) :
    p.exchange.region.object < s'.shm.objects.size := by
  cases hs with
  | claim => rwa [Pending.size_setSignal]
  | finish => rwa [Pending.size_setSignal]
  | abort => rwa [Pending.size_setSignal]
  | owner => rwa [Pending.size_put]
  | release =>
    rw [Pending.release, Exchange.size_release]
    exact hx
  | beside cache hc => exact Nat.lt_of_lt_of_le hx hc
  | call => exact hx
  | take => exact hx
  | fail => exact hx
  | close => exact hx

/-- The lock changes when the call returns, and only then. -/
theorem Step.lock (hs : Step p s e s') (hx : p.exchange.region.object < s.shm.objects.size) :
    (e.isRelease = false ∧ s'.call.isReturned = s.call.isReturned ∧
      p.exchange.lock s'.shm p.area = p.exchange.lock s.shm p.area) ∨
    (e.isRelease = true ∧ s.call.isReturned = false ∧ s'.call.isReturned = true ∧
      p.exchange.lock s'.shm p.area = Exchange.unlocked) := by
  cases hs with
  | claim => exact Or.inl ⟨rfl, rfl, Pending.lock_setSignal hx⟩
  | finish => exact Or.inl ⟨rfl, rfl, Pending.lock_setSignal hx⟩
  | abort => exact Or.inl ⟨rfl, rfl, Pending.lock_setSignal hx⟩
  | call goal hc => exact Or.inl ⟨rfl, by rw [hc]; rfl, rfl⟩
  | owner wake hc => exact Or.inl ⟨rfl, by rw [hc]; rfl, Pending.lock_put hx⟩
  | take hc => exact Or.inl ⟨rfl, by rw [hc]; rfl, rfl⟩
  | fail hc => exact Or.inl ⟨rfl, by rw [hc]; rfl, rfl⟩
  | close hc => exact Or.inl ⟨rfl, by rw [hc]; rfl, rfl⟩
  | release hc =>
    exact Or.inr ⟨rfl, by rw [hc]; rfl, rfl, Exchange.lock_of_words (Pending.words_release hx)⟩
  | beside cache hc hl => exact Or.inl ⟨rfl, rfl, hl⟩

/-- A peer that is copying goes on, unless this is its last step. -/
theorem Step.copying (hs : Step p s e s') {peer : Nat} (hp : peer ∈ s.copying) :
    peer ∈ s'.copying ∨ e = .finish peer ∨ e = .abort peer := by
  have herase : ∀ q, peer ∈ s.copying.erase q ∨ q = peer := fun q =>
    (eq_or_ne q peer).symm.imp_left fun hne => (List.mem_erase_of_ne hne.symm).mpr hp
  cases hs with
  | claim q => exact Or.inl (List.mem_cons_of_mem _ hp)
  | @finish q => exact (herase q).imp_right fun he => Or.inl (congrArg Event.finish he)
  | @abort q => exact (herase q).imp_right fun he => Or.inr (congrArg Event.abort he)
  | call => exact Or.inl hp
  | owner => exact Or.inl hp
  | take => exact Or.inl hp
  | fail => exact Or.inl hp
  | close => exact Or.inl hp
  | release => exact Or.inl hp
  | beside => exact Or.inl hp

/-- Who has withdrawn did so before any peer finished, and left the word idle. -/
theorem Stands.of_withdrawal {call : Call} {copying : List Nat}
    (h : Stands p start events call copying word) (hw : withdrawal p ∈ events) :
    Withdrawn p start events ∧ word = Signal.idle := by
  have hanswered : ∀ {answer word}, Answered p start events answer word →
      Withdrawn p start events ∧ word = Signal.idle := by
    intro answer word ha
    cases ha with
    | dropped hu => exact absurd hw hu.kept
    | taken hu => exact absurd hw hu.kept
    | withdrew hw => exact ⟨hw, rfl⟩
    | timedOut hw => exact ⟨hw, rfl⟩
  cases h with
  | unmade _ hu => exact absurd hw hu.kept
  | working _ _ hu => exact absurd hw hu.kept
  | completed hu => exact absurd hw hu.kept
  | withdrawn hw => exact ⟨hw, rfl⟩
  | finishing ha => exact hanswered ha
  | returned ha => exact ⟨(hanswered ha).1, rfl⟩

theorem Tracked.step (h : Tracked p start events s) (hs : Step p s e s') :
    Tracked p start (events ++ [e]) s' where
  object_lt := hs.object_lt h.object_lt
  stands := h.stands.step h.object_lt hs
  lock := by
    rcases hs.lock h.object_lt with ⟨-, hr, hl⟩ | ⟨-, -, hr, hl⟩
    · rw [hl, hr, h.lock]
    · rw [hl, hr, if_pos rfl]
  released := by
    rw [List.countP_append, List.countP_singleton, h.released]
    rcases hs.lock h.object_lt with ⟨he, hr, -⟩ | ⟨he, hr, hr', -⟩
    · simp only [he, hr, Bool.false_eq_true, if_false, Nat.add_zero]
    · simp only [he, hr, hr', Bool.false_eq_true, if_false, if_true, Nat.zero_add]
  claimed before peer after hsplit := by
    rcases split_snoc hsplit with ⟨-, rfl, rfl⟩ | ⟨rest, rfl, hevents⟩
    · cases hs with
      | claim => exact Or.inl List.mem_cons_self
    · rcases h.claimed before peer rest hevents with hp | hp | hp
      · refine (hs.copying hp).imp_right (Or.imp ?_ ?_) <;>
          exact fun he => he ▸ List.mem_append_right _ (List.mem_singleton_self _)
      · exact Or.inr (Or.inl (List.mem_append_left _ hp))
      · exact Or.inr (Or.inr (List.mem_append_left _ hp))
  last before after hsplit peer := by
    rcases split_snoc hsplit with ⟨-, -, rfl⟩ | ⟨rest, rfl, hevents⟩
    · exact List.not_mem_nil
    · rw [List.mem_append, List.mem_singleton]
      rintro (hm | rfl)
      · exact h.last before rest hevents peer hm
      · cases hs with
        | claim _ hw =>
          have hidle := (h.stands.of_withdrawal (by rw [hevents]; simp)).2
          exact p.direction.waiting_ne_idle (hw.symm.trans hidle)
  takes r hr := by
    rcases List.mem_append.mp hr with hr | hr
    · exact h.takes r hr
    · obtain rfl := List.mem_singleton.mp hr
      cases hs with
      | take => exact nofun
      | fail _ _ ht =>
        have htaken := p.take_taken s.cache s.shm
        rw [ht] at htaken
        exact htaken.ne_timeout

/-- A meeting as it begins: the handoff has its area, nobody copies, and the owner has not
called yet. -/
structure Begins (p : Pending) (s : Meeting) : Prop where
  object_lt : p.exchange.region.object < s.shm.objects.size
  locked : p.exchange.lock s.shm p.area = Exchange.locked
  signal : p.signal s.shm = p.direction.waiting ∨ p.signal s.shm = p.direction.done
  call : s.call = .unmade
  copying : s.copying = []

theorem Begins.tracked (h : Begins p s) : Tracked p s [] s where
  object_lt := h.object_lt
  stands := by
    have hreached : Reached p s [] → p.signal s.shm = p.direction.done := by
      rintro (hd | ⟨peer, hm⟩)
      · exact hd
      · exact absurd hm List.not_mem_nil
    rw [h.call, h.copying]
    refine .unmade ?_ ⟨List.not_mem_nil, hreached⟩
    rcases h.signal with hw | hw <;> rw [hw]
    · exact .waiting
    · exact .done
  lock := by
    rw [h.locked, h.call]
    rfl
  released := by
    rw [h.call]
    rfl
  claimed before peer after hsplit := by simp at hsplit
  last before after hsplit := by simp at hsplit
  takes r hr := absurd hr List.not_mem_nil

theorem Begins.run (h : Begins p start) (hrun : Run (Step p) start events s) :
    Tracked p start events s :=
  hrun.invariant (P := fun events s => Tracked p start events s) h.tracked fun h hs => h.step hs

end Meeting
end TierAlloc
