/-!
# How the kernel stops

`PANIC` and a failed `ASSERT` both print a line and park the core for
good.  A function of the kernel that can do either is modelled in
`Except Halt`, so that the text of the line stays part of the model.
-/

namespace X64HK

/-- Why a computation of the kernel does not produce a value. -/
inductive Halt where
  /-- `PANIC(MESSAGE)`. -/
  | panic (message : String)
  /-- `ASSERT(EXPRESSION)` with a false expression. -/
  | assertion (expression : String)
  /-- A division by zero, at which the processor traps. -/
  | divideError
  /-- A loop of the model that did not finish within its fuel. -/
  | outOfFuel
  deriving DecidableEq, Repr

/-- A computation of the kernel that either produces a value or stops. -/
abbrev Outcome (α : Type) := Except Halt α

/-- `ASSERT(EXPRESSION)`. -/
def assert (expression : String) (holds : Bool) : Outcome Unit :=
  if holds then .ok () else .error (.assertion expression)

variable {α : Type}

/-- A sequence of two computations succeeds exactly when the first one
does and the second one does on its value. -/
theorem bind_ok_iff {β : Type} (x : Outcome α) (f : α → Outcome β) (b : β) :
    x >>= f = .ok b ↔ ∃ a, x = .ok a ∧ f a = .ok b := by
  match x with
  | .error _ => exact ⟨nofun, fun ⟨_, h, _⟩ => nomatch h⟩
  | .ok a =>
    refine ⟨fun h => ⟨a, rfl, h⟩, ?_⟩
    rintro ⟨a', ha, hf⟩
    rw [Except.ok.inj ha]
    exact hf

/-- What follows a computation only matters for the value that it produces. -/
theorem bind_congr_ok {β : Type} {x : Outcome α} {f g : α → Outcome β}
    (h : ∀ a, x = .ok a → f a = g a) : x >>= f = x >>= g := by
  match x with
  | .error _ => rfl
  | .ok a => exact h a rfl

theorem assert_eq_ok {expression : String} {holds : Bool} {u : Unit} :
    assert expression holds = .ok u ↔ holds = true := by
  unfold assert
  cases holds <;> simp

/-- What every step keeps holds after a loop that got through. -/
theorem foldlM_invariant {σ : Type} {step : σ → α → Outcome σ} {P : σ → Prop} {xs : List α}
    (hstep : ∀ x ∈ xs, ∀ s s', P s → step s x = .ok s' → P s') {s t : σ} (hinv : P s)
    (hloop : xs.foldlM step s = .ok t) : P t := by
  induction xs generalizing s with
  | nil =>
    obtain rfl := Except.ok.inj hloop
    exact hinv
  | cons x xs ih =>
    rw [List.foldlM_cons] at hloop
    obtain ⟨s', hnext, hrest⟩ := (bind_ok_iff _ _ _).1 hloop
    exact ih (fun y hy => hstep y (List.mem_cons_of_mem _ hy))
      (hstep x (List.mem_cons_self ..) s s' hinv hnext) hrest

/-- A closed computation is evaluated once, together with what is to hold of its value. -/
theorem exists_ok_of_check {x : Outcome α} (P : α → Prop) [DecidablePred P]
    (h : (match x with | .ok a => decide (P a) | .error _ => false) = true) :
    ∃ a, x = .ok a ∧ P a := by
  match x with
  | .error _ => exact absurd h nofun
  | .ok a => exact ⟨a, rfl, of_decide_eq_true h⟩

end X64HK
