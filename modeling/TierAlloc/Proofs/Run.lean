/-!
# Runs

A run is a finite sequence of events, each one a step of a labelled step relation.
Everything that is proved of "every reachable state" is proved of the last state of
every run; since a prefix of a run is a run, it holds at every point of it.

**Results.**
* `Run.invariant`: what holds at the start and is kept by every step holds after
  every run. The invariant may speak of the events so far.
* `Run.mono`: a run stays a run when fewer steps are ruled out.
* `Run.trans`: what happens after a run makes it longer.
* `split_snoc`: what came last, or what came before it.
-/
namespace TierAlloc

universe u v

/-- The events, in this order, lead from the first state to the second. -/
inductive Run {σ : Type u} {ε : Type v} (step : σ → ε → σ → Prop) (s : σ) : List ε → σ → Prop
  | start : Run step s [] s
  | next {events t e t'} : Run step s events t → step t e t' → Run step s (events ++ [e]) t'

namespace Run

variable {σ : Type u} {ε : Type v} {step : σ → ε → σ → Prop} {s t : σ} {events : List ε}

theorem invariant {P : List ε → σ → Prop} (h0 : P [] s)
    (hstep : ∀ {events t e t'}, P events t → step t e t' → P (events ++ [e]) t')
    (hrun : Run step s events t) : P events t := by
  induction hrun with
  | start => exact h0
  | next _ hs ih => exact hstep ih hs

theorem mono {step' : σ → ε → σ → Prop} (h : ∀ {t e t'}, step t e t' → step' t e t')
    (hrun : Run step s events t) : Run step' s events t := by
  induction hrun with
  | start => exact .start
  | next _ hs ih => exact .next ih (h hs)

/-- A run of one event. -/
theorem one {e : ε} (h : step s e t) : Run step s [e] t := .next .start h

theorem trans {u : σ} {later : List ε} (hrun : Run step s events t) (hlater : Run step t later u) :
    Run step s (events ++ later) u := by
  induction hlater with
  | start =>
    rw [List.append_nil]
    exact hrun
  | next _ hs ih =>
    rw [← List.append_assoc]
    exact .next ih hs

end Run

/-- An event of a run with one more event is that one, or it has that one after it. -/
theorem split_snoc {α : Type u} {l before after : List α} {a b : α}
    (h : l ++ [b] = before ++ a :: after) :
    (l = before ∧ b = a ∧ after = []) ∨ ∃ rest, after = rest ++ [b] ∧ l = before ++ a :: rest := by
  rcases List.eq_nil_or_concat after with rfl | ⟨rest, c, rfl⟩
  · obtain ⟨hl, hb⟩ := List.append_inj' h rfl
    exact Or.inl ⟨hl, (List.cons.inj hb).1, rfl⟩
  · rw [List.concat_eq_append, ← List.cons_append, ← List.append_assoc] at h
    obtain ⟨hl, hb⟩ := List.append_inj' h rfl
    rw [List.concat_eq_append, (List.cons.inj hb).1]
    exact Or.inr ⟨rest, rfl, hl⟩

end TierAlloc
