import Mathlib.Data.List.Basic
import Mathlib.Data.List.Range
import Mathlib.Tactic.Common

/-!
# Bitmaps over machine words

A bitmap is a list of words of one width.  Bit `i` lives in word `i / w`
at position `i % w`.  `test`, `mark` and `unmark` are the three operations
as code computes them, with a one-bit mask and a bitwise operation on the
word that holds the bit.

The lemmas read the three operations through `test` alone: `test_mark` and
`test_unmark` say which bits change, `ext_test` says that the bits
determine the words, and `clearCount_mark` and `clearCount_unmark` say how
the number of clear bits moves.  The last section lifts them to a run of
consecutive bits.
-/

namespace Bitmap

variable {w : Nat} {i n : Nat} {words : List (BitVec w)} {first : Nat}

/-- Bit `i`, read through a one-bit mask. -/
def test (words : List (BitVec w)) (i : Nat) : Bool :=
  (words.getD (i / w) 0 &&& (1#w <<< (i % w))) != 0

/-- Set bit `i`. -/
def mark (words : List (BitVec w)) (i : Nat) : List (BitVec w) :=
  words.modify (i / w) (fun word => word ||| (1#w <<< (i % w)))

/-- Clear bit `i`. -/
def unmark (words : List (BitVec w)) (i : Nat) : List (BitVec w) :=
  words.modify (i / w) (fun word => word &&& ~~~(1#w <<< (i % w)))

/-- The number of clear bits. -/
def clearCount (words : List (BitVec w)) : Nat :=
  (List.range (w * words.length)).countP (fun i => !test words i)

/-! ## Reading a bit -/

/-- A one-bit mask picks out the bit. -/
theorem and_mask_ne_zero (word : BitVec w) {k : Nat} (hk : k < w) :
    ((word &&& (1#w <<< k)) != 0) = word.getLsbD k := by
  rw [show 1#w <<< k = BitVec.twoPow w k from rfl, BitVec.and_twoPow]
  cases hbit : word.getLsbD k with
  | false => simp
  | true =>
    have hne : BitVec.twoPow w k ≠ 0#w := by
      intro h
      have hget := congrArg (fun x => x.getLsbD k) h
      simp [hk] at hget
    simpa using hne

theorem test_eq_getLsbD (hw : 0 < w) (words : List (BitVec w)) (i : Nat) :
    test words i = (words.getD (i / w) 0).getLsbD (i % w) :=
  and_mask_ne_zero _ (Nat.mod_lt i hw)

/-- Two indices in the same word at the same position are the same. -/
theorem eq_of_div_mod {j : Nat} (hd : i / w = j / w) (hm : i % w = j % w) : i = j := by
  rw [← Nat.div_add_mod i w, ← Nat.div_add_mod j w, hd, hm]

/-! ## Writing a bit -/

@[simp] theorem length_mark (words : List (BitVec w)) (i : Nat) :
    (mark words i).length = words.length := by
  simp [mark]

@[simp] theorem length_unmark (words : List (BitVec w)) (i : Nat) :
    (unmark words i).length = words.length := by
  simp [unmark]

/-- A word of a list in which one word was rewritten. -/
theorem getD_modify (words : List (BitVec w)) (k j : Nat)
    (f : BitVec w → BitVec w) (hk : k < words.length) :
    (words.modify k f).getD j 0 =
      if k = j then f (words.getD j 0) else words.getD j 0 := by
  simp only [List.getD_eq_getElem?_getD, List.getElem?_modify]
  by_cases h : k = j
  · subst h
    simp [List.getElem?_eq_getElem hk]
  · simp [h]

/-- A word rewritten at one position. -/
theorem test_modify (hw : 0 < w) (hi : i / w < words.length) {f : BitVec w → BitVec w}
    {b : Bool}
    (hf : ∀ word k, k < w → (f word).getLsbD k = if i % w = k then b else word.getLsbD k)
    (j : Nat) : test (words.modify (i / w) f) j = if i = j then b else test words j := by
  rw [test_eq_getLsbD hw, test_eq_getLsbD hw, getD_modify _ _ _ _ hi]
  by_cases hd : i / w = j / w
  · rw [if_pos hd, hf _ _ (Nat.mod_lt j hw)]
    by_cases hm : i % w = j % w
    · rw [if_pos hm, if_pos (eq_of_div_mod hd hm)]
    · rw [if_neg hm, if_neg fun h => hm (by rw [h])]
  · rw [if_neg hd, if_neg fun h => hd (by rw [h])]

/-- `mark` sets its own bit and no other. -/
theorem test_mark (hw : 0 < w) (hi : i / w < words.length) (j : Nat) :
    test (mark words i) j = (decide (i = j) || test words j) := by
  rw [mark, test_modify (b := true) hw hi]
  · by_cases hij : i = j <;> simp [hij]
  · intro word k hk
    rw [BitVec.getLsbD_or, show 1#w <<< (i % w) = BitVec.twoPow w (i % w) from rfl,
      BitVec.getLsbD_twoPow]
    by_cases hm : i % w = k <;> simp [hm, hk]

/-- `unmark` clears its own bit and no other. -/
theorem test_unmark (hw : 0 < w) (hi : i / w < words.length) (j : Nat) :
    test (unmark words i) j = (decide (i ≠ j) && test words j) := by
  rw [unmark, test_modify (b := false) hw hi]
  · by_cases hij : i = j <;> simp [hij]
  · intro word k hk
    rw [BitVec.getLsbD_and, BitVec.getLsbD_not,
      show 1#w <<< (i % w) = BitVec.twoPow w (i % w) from rfl, BitVec.getLsbD_twoPow]
    by_cases hm : i % w = k <;> simp [hm, hk]

/-- The bits determine the words. -/
theorem ext_test (hw : 0 < w) {a b : List (BitVec w)} (hlen : a.length = b.length)
    (h : ∀ i, i < w * a.length → test a i = test b i) : a = b := by
  refine List.ext_getElem hlen fun k hka hkb => ?_
  refine BitVec.eq_of_getLsbD_eq fun j hj => ?_
  have hi : w * k + j < w * a.length := by
    have : w * (k + 1) ≤ w * a.length := Nat.mul_le_mul_left w hka
    rw [Nat.mul_succ] at this
    omega
  have hbit := h (w * k + j) hi
  have hdiv : (w * k + j) / w = k := by
    rw [Nat.mul_add_div hw, Nat.div_eq_of_lt hj, Nat.add_zero]
  have hmod : (w * k + j) % w = j := by
    rw [Nat.mul_add_mod, Nat.mod_eq_of_lt hj]
  rw [test_eq_getLsbD hw, test_eq_getLsbD hw, hdiv, hmod] at hbit
  simpa [List.getD_eq_getElem?_getD, hka, hkb] using hbit

/-! ## Counting clear bits -/

/-- Flipping a predicate at one point of a range moves the count by one. -/
theorem countP_range_update (hi : i < n) (p q : Nat → Bool) (hp : p i = true) (hq : q i = false)
    (h : ∀ j, j ≠ i → p j = q j) :
    (List.range n).countP p = (List.range n).countP q + 1 := by
  induction n with
  | zero => omega
  | succ n ih =>
    rw [List.range_succ, List.countP_append, List.countP_append]
    by_cases hin : i = n
    · subst hin
      have hsame : (List.range i).countP p = (List.range i).countP q := by
        refine List.countP_congr fun j hj => ?_
        rw [h j (by have := List.mem_range.1 hj; omega)]
      simp [hsame, hp, hq]
    · rw [ih (by omega)]
      have hn := h n (fun hni => hin hni.symm)
      simp only [List.countP_singleton, hn]
      omega

/-- A bit of a word that exists is one of the bits that `clearCount`
visits. -/
theorem lt_of_div_lt (hw : 0 < w) (h : i / w < n) : i < w * n := by
  rw [Nat.mul_comm]
  exact (Nat.div_lt_iff_lt_mul hw).1 h

theorem clearCount_mark (hw : 0 < w) (hi : i / w < words.length) (hclear : test words i = false) :
    clearCount words = clearCount (mark words i) + 1 := by
  unfold clearCount
  rw [length_mark]
  refine countP_range_update (lt_of_div_lt hw hi) _ _ ?_ ?_ ?_
  · simp [hclear]
  · simp [test_mark hw hi]
  · intro j hj
    simp [test_mark hw hi, Ne.symm hj]

theorem clearCount_unmark (hw : 0 < w) (hi : i / w < words.length) (hset : test words i = true) :
    clearCount (unmark words i) = clearCount words + 1 := by
  have hi' : i / w < (unmark words i).length := by rwa [length_unmark]
  -- Marking the bit again gives the words back.
  have hback : mark (unmark words i) i = words := by
    refine ext_test hw (by simp) fun j _ => ?_
    rw [test_mark hw hi', test_unmark hw hi]
    by_cases hij : i = j
    · simp [← hij, hset]
    · simp [hij]
  rw [clearCount_mark hw hi' (by simp [test_unmark hw hi]), hback]

/-- A bitmap in which every bit is set has no clear bit. -/
theorem clearCount_eq_zero (h : ∀ i, i < w * words.length → test words i = true) :
    clearCount words = 0 := by
  unfold clearCount
  rw [List.countP_eq_zero]
  intro i hi
  simp [h i (List.mem_range.1 hi)]

/-! ## Runs of bits -/

/-- Set the `n` bits from `first` on, one after the other. -/
def markRun (words : List (BitVec w)) (first n : Nat) : List (BitVec w) :=
  (List.range' first n).foldl mark words

/-- Clear the `n` bits from `first` on, one after the other. -/
def unmarkRun (words : List (BitVec w)) (first n : Nat) : List (BitVec w) :=
  (List.range' first n).foldl unmark words

theorem markRun_succ (words : List (BitVec w)) (first n : Nat) :
    markRun words first (n + 1) = markRun (mark words first) (first + 1) n := by
  rw [markRun, List.range'_succ, List.foldl_cons, markRun]

theorem unmarkRun_succ (words : List (BitVec w)) (first n : Nat) :
    unmarkRun words first (n + 1) = unmarkRun (unmark words first) (first + 1) n := by
  rw [unmarkRun, List.range'_succ, List.foldl_cons, unmarkRun]

@[simp] theorem length_markRun (words : List (BitVec w)) (first n : Nat) :
    (markRun words first n).length = words.length := by
  induction n generalizing words first with
  | zero => rfl
  | succ n ih => rw [markRun_succ, ih, length_mark]

@[simp] theorem length_unmarkRun (words : List (BitVec w)) (first n : Nat) :
    (unmarkRun words first n).length = words.length := by
  induction n generalizing words first with
  | zero => rfl
  | succ n ih => rw [unmarkRun_succ, ih, length_unmark]

/-- A word index in range, from a bit index in range. -/
theorem div_lt_of_lt (h : i < w * n) : i / w < n :=
  Nat.div_lt_of_lt_mul h

theorem test_markRun (hw : 0 < w) (h : first + n ≤ w * words.length) (j : Nat) :
    test (markRun words first n) j = (decide (first ≤ j ∧ j < first + n) || test words j) := by
  induction n generalizing words first with
  | zero => simp [markRun, show ¬(first ≤ j ∧ j < first) by omega]
  | succ n ih =>
    have hfirst : first / w < words.length := div_lt_of_lt (by omega)
    rw [markRun_succ, ih (by rw [length_mark]; omega), test_mark hw hfirst, ← Bool.or_assoc]
    congr 1
    rw [Bool.eq_iff_iff]
    simp only [Bool.or_eq_true, decide_eq_true_eq]
    omega

theorem test_unmarkRun (hw : 0 < w) (h : first + n ≤ w * words.length) (j : Nat) :
    test (unmarkRun words first n) j = (decide (¬(first ≤ j ∧ j < first + n)) && test words j) := by
  induction n generalizing words first with
  | zero => simp [unmarkRun, show ¬(first ≤ j ∧ j < first) by omega]
  | succ n ih =>
    have hfirst : first / w < words.length := div_lt_of_lt (by omega)
    rw [unmarkRun_succ, ih (by rw [length_unmark]; omega), test_unmark hw hfirst, ← Bool.and_assoc]
    congr 1
    rw [Bool.eq_iff_iff]
    simp only [Bool.and_eq_true, decide_eq_true_eq]
    omega

/-- Marking a run of clear bits leaves as many clear bits fewer. -/
theorem clearCount_markRun (hw : 0 < w) (h : first + n ≤ w * words.length)
    (hclear : ∀ j, first ≤ j → j < first + n → test words j = false) :
    clearCount words = clearCount (markRun words first n) + n := by
  induction n generalizing words first with
  | zero => rfl
  | succ n ih =>
    have hfirst : first / w < words.length := div_lt_of_lt (by omega)
    have hrest : ∀ j, first + 1 ≤ j → j < first + 1 + n → test (mark words first) j = false := by
      intro j h1 h2
      rw [test_mark hw hfirst, hclear j (by omega) (by omega)]
      simp [show first ≠ j by omega]
    rw [markRun_succ,
      clearCount_mark hw hfirst (hclear first (Nat.le_refl _) (by omega)),
      ih (by rw [length_mark]; omega) hrest]
    omega

/-- Clearing a run of set bits leaves as many clear bits more. -/
theorem clearCount_unmarkRun (hw : 0 < w) (h : first + n ≤ w * words.length)
    (hset : ∀ j, first ≤ j → j < first + n → test words j = true) :
    clearCount (unmarkRun words first n) = clearCount words + n := by
  have h' : first + n ≤ w * (unmarkRun words first n).length := by rwa [length_unmarkRun]
  have hback : markRun (unmarkRun words first n) first n = words := by
    refine ext_test hw (by simp) fun j _ => ?_
    rw [test_markRun hw h', test_unmarkRun hw h]
    by_cases hj : first ≤ j ∧ j < first + n
    · simp [hj, hset j hj.1 hj.2]
    · simp [hj]
  rw [clearCount_markRun hw h' fun j hlo hhi => by simp [test_unmarkRun hw h, hlo, hhi], hback]

end Bitmap
