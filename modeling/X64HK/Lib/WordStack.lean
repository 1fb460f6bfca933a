import Mathlib.Logic.Function.Basic

/-!
# Words on a stack

A stack that grows down in a memory of words.  A word takes eight addresses and is kept
at the lowest of them.

`Holds memory base words` says which words stand from `base` up.  The words are optional:
`none` stands for a word that nothing is known about.

* `Holds.agree` is the frame rule.
* `Holds.push` and `Holds.head` are for a `push` and a `pop`, and `Holds.concat` adds a word
  on the other side.
-/

namespace WordStack

variable {α : Type} {memory memory' : Nat → α} {base : Nat} {word : Option α}
  {words : List (Option α)}

def Holds (memory : Nat → α) : Nat → List (Option α) → Prop
  | _, [] => True
  | base, word :: words => (∀ value, word = some value → memory base = value) ∧
      Holds memory (base + 8) words

theorem Holds.agree (h : Holds memory base words)
    (hagree : ∀ a, base ≤ a → a < base + 8 * words.length → memory' a = memory a) :
    Holds memory' base words := by
  induction words generalizing base with
  | nil => trivial
  | cons word words ih =>
    rw [List.length_cons] at hagree
    refine ⟨fun value hvalue => ?_, ih h.2 fun a ha ha' => hagree a (by omega) (by omega)⟩
    rw [hagree base (Nat.le_refl _) (by omega)]
    exact h.1 value hvalue

theorem Holds.head (h : Holds memory base (word :: words)) {value : α}
    (hword : word = some value) : memory base = value :=
  h.1 value hword

theorem Holds.tail (h : Holds memory base (word :: words)) : Holds memory (base + 8) words :=
  h.2

theorem Holds.concat (h : Holds memory base words)
    (hlast : ∀ value, word = some value → memory (base + 8 * words.length) = value) :
    Holds memory base (words ++ [word]) := by
  induction words generalizing base with
  | nil => exact ⟨hlast, trivial⟩
  | cons head words ih =>
    refine ⟨h.1, ih h.2 fun value hvalue => ?_⟩
    rw [← hlast value hvalue, List.length_cons]
    exact congrArg memory (by omega)

/-- A word that nothing is known about. -/
theorem Holds.skip (h : Holds memory (base + 8) words) : Holds memory base (none :: words) :=
  ⟨nofun, h⟩

theorem Holds.push (h : Holds memory (base + 8) words) {value : α}
    (hword : ∀ v, word = some v → value = v) :
    Holds (Function.update memory base value) base (word :: words) := by
  refine ⟨fun v hv => ?_, h.agree fun a ha _ => ?_⟩
  · rw [Function.update_self]
    exact hword v hv
  · exact Function.update_of_ne (by omega) ..

end WordStack
