import Mathlib.Tactic.Common

/-!
# Runs of a state machine

A state machine is a partial function from a state and an action to the next
state.  An action that is not possible in a state has no next state.

* `run` performs a list of actions.
* `Along P` says that `P` holds of every action of a run and of the state in which
  it happens.
* `invariant` and `invariant_along` carry an invariant through a run.
* `iff_along` is for a property that is lost for good at the first action that breaks `P`.
-/

namespace Transition

variable {σ α : Type} {step : σ → α → Option σ}

/-- Perform a list of actions. -/
def run (step : σ → α → Option σ) : σ → List α → Option σ
  | s, [] => some s
  | s, action :: actions => (step s action).bind fun s => run step s actions

/-- `P` holds of every action and of the state in which it happens. -/
def Along (step : σ → α → Option σ) (P : σ → α → Prop) : σ → List α → Prop
  | _, [] => True
  | s, action :: actions => P s action ∧ ∀ s' ∈ step s action, Along step P s' actions

instance Along.decidable {P : σ → α → Prop} [∀ s action, Decidable (P s action)] :
    ∀ s actions, Decidable (Along step P s actions)
  | _, [] => isTrue trivial
  | s, action :: actions =>
    have : DecidablePred fun s' => Along step P s' actions := fun s' => Along.decidable s' actions
    inferInstanceAs (Decidable (P s action ∧ ∀ s' ∈ step s action, Along step P s' actions))

theorem Along.mono {P Q : σ → α → Prop} (hPQ : ∀ s action, P s action → Q s action) :
    ∀ {s : σ} {actions : List α}, Along step P s actions → Along step Q s actions
  | _, [], _ => trivial
  | s, action :: _, h => ⟨hPQ s action h.1, fun s' hs' => (h.2 s' hs').mono hPQ⟩

theorem run_cons {s t : σ} {action : α} {actions : List α}
    (h : run step s (action :: actions) = some t) :
    ∃ s', step s action = some s' ∧ run step s' actions = some t :=
  Option.bind_eq_some_iff.1 h

/-- What every step keeps holds after any run in which `P` holds along. -/
theorem invariant_along {P : σ → α → Prop} {Inv : σ → Prop}
    (hstep : ∀ s action s', Inv s → P s action → step s action = some s' → Inv s')
    {actions : List α} {s t : σ} (hinv : Inv s) (halong : Along step P s actions)
    (hrun : run step s actions = some t) : Inv t := by
  induction actions generalizing s with
  | nil =>
    obtain rfl := Option.some.inj hrun
    exact hinv
  | cons action actions ih =>
    obtain ⟨s', hnext, hrest⟩ := run_cons hrun
    exact ih (hstep s action s' hinv halong.1 hnext) (halong.2 s' hnext) hrest

/-- What every step keeps holds after any run. -/
theorem invariant {Inv : σ → Prop} (hstep : ∀ s action s', Inv s → step s action = some s' → Inv s')
    {actions : List α} {s t : σ} (hinv : Inv s) (hrun : run step s actions = some t) : Inv t := by
  induction actions generalizing s with
  | nil =>
    obtain rfl := Option.some.inj hrun
    exact hinv
  | cons action actions ih =>
    obtain ⟨s', hnext, hrest⟩ := run_cons hrun
    exact ih (hstep s action s' hinv hnext) hrest

/-- A property that cannot be gained, and that an action keeps exactly if `P` holds of it,
holds after a run exactly if `P` holds along. -/
theorem iff_along {P : σ → α → Prop} {Inv D : σ → Prop}
    (hinv : ∀ s action s', Inv s → step s action = some s' → Inv s')
    (hstep : ∀ s action s', Inv s → D s → step s action = some s' → (D s' ↔ P s action))
    (hback : ∀ s action s', step s action = some s' → D s' → D s)
    {actions : List α} {s t : σ} (hs : Inv s) (hd : D s) (hrun : run step s actions = some t) :
    D t ↔ Along step P s actions := by
  induction actions generalizing s with
  | nil =>
    obtain rfl := Option.some.inj hrun
    exact iff_of_true hd trivial
  | cons action actions ih =>
    obtain ⟨s', hnext, hrest⟩ := run_cons hrun
    have hone := hstep s action s' hs hd hnext
    by_cases hd' : D s'
    · refine (ih (hinv s action s' hs hnext) hd' hrest).trans ⟨fun halong => ?_, fun halong => ?_⟩
      · refine ⟨hone.1 hd', fun other hother => ?_⟩
        obtain rfl := Option.some.inj (hnext.symm.trans hother)
        exact halong
      · exact halong.2 s' hnext
    · have hlost : ¬D t := @invariant σ α step (fun s => ¬D s)
        (fun s action s' hnot hnext => mt (hback s action s' hnext) hnot) actions s' t hd' hrest
      exact iff_of_false hlost fun halong => hd' (hone.2 halong.1)

end Transition
