import TierAlloc.Limits

/-!
# Signals

The signal word of an exchange area says how far a handoff has come. The owner of
the region puts it to `awaitData` or `awaitConsume`; a peer moves it on while it
copies (`writing`, `reading`) and when it is done (`dataReady`, `consumed`).

Owner and peer meet in that word alone, and each step is one load or one
compare-exchange. `Stage` is where the owner of a pending handoff stands between
two steps and `Stage.next` is its next step; `Move` is what a peer can do.
`settle` runs the owner to its end against given moves of the peer, each made
when the owner is asleep, and is `none` if the owner would sleep for ever.
-/
namespace TierAlloc

namespace Signal

def idle : Nat := 0
def awaitData : Nat := 1
def writing : Nat := 2
def dataReady : Nat := 3
def awaitConsume : Nat := 4
def reading : Nat := 5
def consumed : Nat := 6

end Signal

/-- Which way the payload goes: to the owner of the region, or from it.
mirrors `Direction` -/
inductive Direction where
  | inbound | outbound
  deriving DecidableEq, Repr

namespace Direction

/-- The owner waits, and no peer has begun.
mirrors `Direction.waiting` -/
def waiting : Direction → Nat
  | .inbound => Signal.awaitData
  | .outbound => Signal.awaitConsume

/-- A peer is copying. -/
def copying : Direction → Nat
  | .inbound => Signal.writing
  | .outbound => Signal.reading

/-- The peer has finished.
mirrors `Direction.done` -/
def done : Direction → Nat
  | .inbound => Signal.dataReady
  | .outbound => Signal.consumed

end Direction

/-- What the owner of a pending handoff is after: its completion, its completion
by a deadline, or only to be rid of it. -/
inductive Goal where
  | completion | deadline | abandon
  deriving DecidableEq, Repr

/-- How the owner's part ends. -/
inductive Outcome where
  /-- The peer had finished. -/
  | completed
  /-- The owner took the offer back before any peer began. -/
  | withdrawn
  /-- The word was idle: there was nothing to take back. -/
  | idle
  deriving DecidableEq, Repr

/-- Where the owner stands. -/
inductive Stage where
  /-- About to load the word. -/
  | look
  /-- Asleep as long as the word is `seen`, or up to the deadline. -/
  | asleep (seen : Nat)
  /-- About to exchange the waiting state for the idle one. -/
  | cancel
  /-- The exchange failed; about to load the word again. -/
  | lookAgain
  /-- A peer is copying: asleep as long as the word is `seen`, deadline or not. -/
  | outwait (seen : Nat)
  | ended (outcome : Outcome)
  deriving DecidableEq, Repr

/-- How a sleep ends. -/
inductive Wake where
  | changed | timedOut
  deriving DecidableEq, Repr

/-- One step of the owner from a stage, with the word at `word` and, where it is
asleep, woken by `wake`. Gives the new stage and the new word.
mirrors one round of `PendingHandoff.wait_until` and of `PendingHandoff.drop` -/
def Stage.next (goal : Goal) (dir : Direction) (wake : Wake) (word : Nat) : Stage → Stage × Nat
  | .look =>
    if word = dir.done then (.ended .completed, word)
    else
      match goal with
      | .completion | .deadline => (.asleep word, word)
      | .abandon =>
        if word = Signal.idle then (.ended .idle, word)
        else if word = dir.waiting then (.cancel, word)
        else (.outwait word, word)
  | .asleep _ =>
    match wake with
    | .changed => (.look, word)
    | .timedOut => (.cancel, word)
  | .cancel =>
    if word = dir.waiting then (.ended .withdrawn, Signal.idle)
    else
      match goal with
      | .abandon => (.look, word)
      | .completion | .deadline => (.lookAgain, word)
  | .lookAgain =>
    if word = dir.waiting ∨ word = dir.done then (.look, word) else (.outwait word, word)
  | .outwait _ => (.look, word)
  | .ended outcome => (.ended outcome, word)

/-- A peer's steps on the word. Each happens only where the word allows it. -/
inductive Move where
  /-- Waiting to copying. -/
  | claim
  /-- Copying to done. -/
  | finish
  /-- Copying back to waiting. -/
  | abort
  deriving DecidableEq, Repr

/-- The word after a move, if the word allows it. -/
def Move.next? (dir : Direction) (word : Nat) : Move → Option Nat
  | .claim => if word = dir.waiting then some dir.copying else none
  | .finish => if word = dir.copying then some dir.done else none
  | .abort => if word = dir.copying then some dir.waiting else none

/-- What would end the present sleep with the word as it is; none if nothing does
but a change of the word. A deadline counts as passed. -/
def Stage.wake? (goal : Goal) (word : Nat) : Stage → Option Wake
  | .asleep seen =>
    if goal = .deadline then some .timedOut else if word = seen then none else some .changed
  | .outwait seen => if word = seen then none else some .changed
  | _ => some .changed

/-- Steps that the owner takes at most between two changes of the word. -/
def stepsPerChange : Nat := 6

/-- Runs the owner for at most `fuel` steps. Whenever it is asleep for good, the
peer makes its next move. -/
def settleFrom (goal : Goal) (dir : Direction) :
    (fuel : Nat) → List Move → Stage → (word : Nat) → Option (Outcome × Nat)
  | _, _, .ended outcome, word => some (outcome, word)
  | 0, _, _, _ => none
  | fuel + 1, moves, stage, word =>
    match stage.wake? goal word with
    | some wake =>
      let (stage, word) := stage.next goal dir wake word
      settleFrom goal dir fuel moves stage word
    | none =>
      match moves with
      | [] => none
      | move :: rest => settleFrom goal dir fuel rest stage ((move.next? dir word).getD word)

/-- How the owner's part ends, and the word after it. -/
def settle (goal : Goal) (dir : Direction) (moves : List Move) (word : Nat) :
    Option (Outcome × Nat) :=
  settleFrom goal dir (stepsPerChange * (moves.length + 1)) moves .look word

end TierAlloc
