import Mathlib.Algebra.Order.Group.Nat
import Mathlib.Tactic.Ring
import X64HK.Config
import X64HK.Debug.Panic

/-!
# Formatted output

A model of the integers in `Kernel/Lib/OutputStream.cpp` over the buffer of
`Kernel/Lib/StringBuffer.h`.  A stream collects characters and hands them to its
backend in blocks, so what it emits is what it handed over and what it still has.

A number is printed from its first digit on.  The divisor grows to the power of the
base that this digit stands for, and then shrinks again.

* `growDivisor_spec`: the first loop stops at this power, and no product on the way
  there overflows.
* `printDigits_spec`: the second loop puts the digits of `numeral`.
* `integer_output_faithful`: what the three operators emit.
-/

namespace X64HK

/-- The bytes of a string literal. -/
def ascii (text : String) : List (BitVec 8) := text.toList.map fun c => BitVec.ofNat 8 c.toNat

/-- `StringBuffer` and `OutputStream`. -/
structure OutputStream where
  /-- `m_Buffer` up to `m_Position`. -/
  buffer : List (BitVec 8) := []
  /-- What `Flush` handed to the backend. -/
  handedOver : List (BitVec 8) := []
  base : Int := 10
  deriving DecidableEq, Repr

namespace OutputStream

def BUFFER_SIZE : Nat := 128

/-- All characters, in the order in which they were put. -/
def emitted (s : OutputStream) : List (BitVec 8) := s.handedOver ++ s.buffer

def flush (s : OutputStream) : OutputStream :=
  { s with buffer := [], handedOver := s.handedOver ++ s.buffer }

def put (s : OutputStream) (c : BitVec 8) : OutputStream :=
  let s := if s.buffer.length = BUFFER_SIZE then s.flush else s
  { s with buffer := s.buffer ++ [c] }

/-- `operator<<(const char*)`. -/
def putString (s : OutputStream) (text : List (BitVec 8)) : OutputStream := text.foldl put s

/-- The character of a digit. -/
def digitChar (digit : Nat) : BitVec 8 :=
  if digit < 10 then BitVec.ofNat 8 (48 + digit) else BitVec.ofNat 8 (97 + digit - 10)

/-- The loop that looks for the first digit. -/
def growDivisor (base value : Nat) : Nat → Nat → Outcome Nat
  | 0, _ => .error .outOfFuel
  | fuel + 1, divisor =>
    if value / divisor ≥ base then growDivisor base value fuel (wrap64 (divisor * base))
    else .ok divisor

/-- The loop that puts the digits. -/
def printDigits (base : Nat) : Nat → Nat → Nat → OutputStream → Outcome OutputStream
  | 0, _, _, _ => .error .outOfFuel
  | fuel + 1, divisor, value, s =>
    if divisor > 0 then
      printDigits base fuel (divisor / base) (value % divisor) (s.put (digitChar (value / divisor)))
    else .ok s

/-- `operator<<(unsigned long long)`. -/
def printUnsigned (s : OutputStream) (value : BitVec 64) : Outcome OutputStream := do
  let base := if s.base < 2 then 16 else s.base.toNat
  let s :=
    if base = 2 then s.putString (ascii "0b")
    else if base = 8 then s.put 48
    else if base = 16 then s.putString (ascii "0x")
    else s
  let divisor ← growDivisor base value.toNat 65 1
  printDigits base 66 divisor value.toNat s

/-- `operator<<(long long)`. -/
def printSigned (s : OutputStream) (value : BitVec 64) : Outcome OutputStream :=
  if value.toInt < 0 ∧ s.base = 10 then printUnsigned (s.put 45) (~~~value + 1)
  else printUnsigned s value

/-- `operator<<(const void*)`. -/
def printPointer (s : OutputStream) (pointer : BitVec 64) : Outcome OutputStream := do
  let previousBase := s.base
  let s ← printUnsigned { s with base := 16 } pointer
  return { s with base := previousBase }

/-! ## Characters -/

@[simp] theorem put_base (s : OutputStream) (c : BitVec 8) : (s.put c).base = s.base := by
  unfold put flush
  split <;> rfl

@[simp] theorem emitted_put (s : OutputStream) (c : BitVec 8) :
    (s.put c).emitted = s.emitted ++ [c] := by
  unfold put flush emitted
  split
  · simp
  · rw [List.append_assoc]

@[simp] theorem putString_base (s : OutputStream) (text : List (BitVec 8)) :
    (s.putString text).base = s.base := by
  induction text generalizing s with
  | nil => rfl
  | cons c text ih => exact (ih (s.put c)).trans (s.put_base c)

@[simp] theorem emitted_putString (s : OutputStream) (text : List (BitVec 8)) :
    (s.putString text).emitted = s.emitted ++ text := by
  induction text generalizing s with
  | nil => exact (List.append_nil _).symm
  | cons c text ih =>
    calc ((s.put c).putString text).emitted = (s.put c).emitted ++ text := ih (s.put c)
      _ = s.emitted ++ c :: text := by rw [emitted_put, List.append_assoc, List.singleton_append]

theorem putString_append (s : OutputStream) (text text' : List (BitVec 8)) :
    s.putString (text ++ text') = (s.putString text).putString text' :=
  List.foldl_append ..

/-! ## Digits -/

/-- The digits of a value below `base ^ (k + 1)`, the first one first. -/
def numeral (base : Nat) : Nat → Nat → List Nat
  | 0, value => [value]
  | k + 1, value => value / base ^ (k + 1) :: numeral base k (value % base ^ (k + 1))

/-- Digits that spell a value. -/
structure Spells (base value : Nat) (digits : List Nat) : Prop where
  digit_lt : ∀ digit ∈ digits, digit < base
  value_eq : digits.foldl (fun n digit => n * base + digit) 0 = value
  ne_nil : digits ≠ []
  no_leading_zero : digits.head? = some 0 → digits = [0]

variable {base value : Nat}

theorem numeral_lt (hbase : 2 ≤ base) : ∀ {k value : Nat}, value < base ^ (k + 1) →
    ∀ digit ∈ numeral base k value, digit < base := by
  intro k
  induction k with
  | zero =>
    intro value hvalue digit hdigit
    rw [List.mem_singleton.1 hdigit]
    rwa [Nat.zero_add, Nat.pow_one] at hvalue
  | succ k ih =>
    intro value hvalue digit hdigit
    have hpos : 0 < base ^ (k + 1) := Nat.pow_pos (by omega)
    rcases List.mem_cons.1 hdigit with rfl | hrest
    · rw [Nat.div_lt_iff_lt_mul hpos]
      rwa [Nat.pow_succ, Nat.mul_comm] at hvalue
    · exact ih (Nat.mod_lt _ hpos) digit hrest

/-- Behind digits that spell `n`. -/
theorem foldl_numeral (base n : Nat) : ∀ (k value : Nat),
    (numeral base k value).foldl (fun n digit => n * base + digit) n =
      n * base ^ (k + 1) + value := by
  intro k
  induction k generalizing n with
  | zero =>
    intro value
    rw [Nat.zero_add, Nat.pow_one]
    rfl
  | succ k ih =>
    intro value
    have hdivide := Nat.div_add_mod value (base ^ (k + 1))
    calc (numeral base (k + 1) value).foldl (fun n digit => n * base + digit) n
        = (n * base + value / base ^ (k + 1)) * base ^ (k + 1) + value % base ^ (k + 1) := ih ..
      _ = n * base ^ (k + 1 + 1) +
          (base ^ (k + 1) * (value / base ^ (k + 1)) + value % base ^ (k + 1)) := by ring
      _ = n * base ^ (k + 1 + 1) + value := by rw [hdivide]

theorem spells_numeral (hbase : 2 ≤ base) {k : Nat} (hvalue : value < base ^ (k + 1))
    (hfirst : k = 0 ∨ base ^ k ≤ value) : Spells base value (numeral base k value) := by
  refine ⟨numeral_lt hbase hvalue, ?_, ?_, ?_⟩
  · rw [foldl_numeral, Nat.zero_mul, Nat.zero_add]
  · cases k <;> exact List.cons_ne_nil _ _
  · intro hzero
    cases k with
    | zero => rw [numeral, Option.some.inj hzero]
    | succ k =>
      have hle := hfirst.resolve_left (Nat.succ_ne_zero k)
      have hpos : 0 < value / base ^ (k + 1) := Nat.div_pos hle (Nat.pow_pos (by omega))
      exact absurd (Option.some.inj hzero) (Nat.ne_of_gt hpos)

/-! ## The loops -/

/-- The divisors that the first loop goes through. -/
inductive Tries (base value : Nat) : Nat → Prop where
  | start : Tries base value 1
  | grow {divisor : Nat} (h : Tries base value divisor) (hagain : value / divisor ≥ base) :
      Tries base value (wrap64 (divisor * base))

/-- As long as the quotient is not a digit, the next power is below the value. -/
theorem pow_succ_le_of_div_ge {k : Nat} (hbase : 2 ≤ base) (hagain : value / base ^ k ≥ base) :
    base ^ (k + 1) ≤ value := by
  rw [Nat.pow_succ, Nat.mul_comm]
  exact (Nat.le_div_iff_mul_le (Nat.pow_pos (by omega))).1 hagain

theorem Tries.exists_pow (hbase : 2 ≤ base) (hvalue : value < 2 ^ 64) {divisor : Nat}
    (h : Tries base value divisor) : ∃ k, divisor = base ^ k := by
  induction h with
  | start => exact ⟨0, rfl⟩
  | grow _ hagain ih =>
    obtain ⟨k, rfl⟩ := ih
    have hle := pow_succ_le_of_div_ge hbase hagain
    exact ⟨k + 1, wrap64_of_lt (Nat.lt_of_le_of_lt hle hvalue)⟩

theorem Tries.mul_lt (hbase : 2 ≤ base) (hvalue : value < 2 ^ 64) {divisor : Nat}
    (h : Tries base value divisor) (hagain : value / divisor ≥ base) : divisor * base < 2 ^ 64 := by
  obtain ⟨k, rfl⟩ := h.exists_pow hbase hvalue
  exact Nat.lt_of_le_of_lt (pow_succ_le_of_div_ge hbase hagain) hvalue

/-- The loop stops at the power of the first digit. -/
theorem growDivisor_spec (hbase : 2 ≤ base) (hvalue : value < 2 ^ 64) :
    ∀ (fuel : Nat) {j : Nat}, (j = 0 ∨ base ^ j ≤ value) → value < base ^ (j + (fuel + 1)) →
      ∃ k, growDivisor base value (fuel + 1) (base ^ j) = .ok (base ^ k) ∧ k ≤ j + fuel ∧
        value < base ^ (k + 1) ∧ (k = 0 ∨ base ^ k ≤ value) := by
  intro fuel
  induction fuel with
  | zero =>
    intro j hj hlt
    have hstop : ¬value / base ^ j ≥ base := fun hagain =>
      absurd (pow_succ_le_of_div_ge hbase hagain) (Nat.not_le.2 hlt)
    exact ⟨j, by rw [growDivisor, if_neg hstop], Nat.le_refl j, hlt, hj⟩
  | succ fuel ih =>
    intro j hj hlt
    rw [growDivisor]
    by_cases hagain : value / base ^ j ≥ base
    · have hle := pow_succ_le_of_div_ge hbase hagain
      obtain ⟨k, hrun, hk, hspells⟩ := ih (j := j + 1) (Or.inr hle)
        (by rwa [Nat.add_assoc, Nat.add_comm 1])
      rw [if_pos hagain, ← Nat.pow_succ, wrap64_of_lt (Nat.lt_of_le_of_lt hle hvalue)]
      exact ⟨k, hrun, by omega, hspells⟩
    · have hnext : value < base ^ (j + 1) := by
        rw [Nat.pow_succ, Nat.mul_comm]
        exact (Nat.div_lt_iff_lt_mul (Nat.pow_pos (by omega))).1 (Nat.not_le.1 hagain)
      exact ⟨j, by rw [if_neg hagain], Nat.le_add_right .., hnext, hj⟩

/-- The second loop puts one digit for each power down to one. -/
theorem printDigits_spec (hbase : 2 ≤ base) : ∀ (k : Nat) {fuel value : Nat} (s : OutputStream),
    k + 2 ≤ fuel → printDigits base fuel (base ^ k) value s =
      .ok (s.putString ((numeral base k value).map digitChar)) := by
  intro k
  induction k with
  | zero =>
    intro fuel value s hfuel
    obtain ⟨fuel, rfl⟩ : ∃ n, fuel = n + 2 := ⟨fuel - 2, by omega⟩
    rw [printDigits, Nat.pow_zero, if_pos Nat.one_pos, printDigits,
      Nat.div_eq_of_lt (by omega : 1 < base), Nat.div_one, if_neg (Nat.lt_irrefl 0)]
    rfl
  | succ k ih =>
    intro fuel value s hfuel
    obtain ⟨fuel, rfl⟩ : ∃ n, fuel = n + 1 := ⟨fuel - 1, by omega⟩
    have hpos : 0 < base ^ (k + 1) := Nat.pow_pos (by omega)
    have hshrink : base ^ (k + 1) / base = base ^ k := by
      rw [Nat.pow_succ]
      exact Nat.mul_div_cancel _ (by omega)
    rw [printDigits, if_pos hpos, hshrink, ih _ (by omega)]
    rfl

/-! ## What is emitted -/

/-- What marks a number of this base. -/
def radixPrefix (base : Nat) : List (BitVec 8) :=
  if base = 2 then ascii "0b" else if base = 8 then ascii "0" else if base = 16 then ascii "0x"
  else []

/-- The stream went on by a text. -/
structure Printed (s s' : OutputStream) (text : List (BitVec 8)) : Prop where
  emitted : s'.emitted = s.emitted ++ text
  base : s'.base = s.base

theorem printed_putString (s : OutputStream) (text : List (BitVec 8)) :
    Printed s (s.putString text) text :=
  ⟨s.emitted_putString text, s.putString_base text⟩

/-- `operator<<(unsigned long long)` with any base. -/
theorem printUnsigned_spec {s : OutputStream} (hbase : 2 ≤ base)
    (hs : base = if s.base < 2 then 16 else s.base.toNat) (value : BitVec 64) :
    ∃ digits s', Spells base value.toNat digits ∧ printUnsigned s value = .ok s' ∧
      Printed s s' (radixPrefix base ++ digits.map digitChar) := by
  have hlt : value.toNat < base ^ (0 + (64 + 1)) :=
    calc value.toNat < 2 ^ 64 := value.isLt
      _ ≤ 2 ^ (0 + (64 + 1)) := by decide
      _ ≤ base ^ (0 + (64 + 1)) := Nat.pow_le_pow_left hbase _
  obtain ⟨k, hgrow, hk, hvalue, hfirst⟩ := growDivisor_spec hbase value.isLt 64 (Or.inl rfl) hlt
  have hgrow' : growDivisor base value.toNat 65 1 = .ok (base ^ k) := hgrow
  refine ⟨numeral base k value.toNat,
    s.putString (radixPrefix base ++ (numeral base k value.toNat).map digitChar),
    spells_numeral hbase hvalue hfirst, ?_, printed_putString ..⟩
  rw [putString_append]
  unfold printUnsigned
  rw [← hs]
  simp only [hgrow', bind, Except.bind]
  rw [printDigits_spec hbase k _ (by omega)]
  -- the four cases of the prefix
  unfold radixPrefix
  split_ifs <;> rfl

/-- The magnitude of a negative number, also of the least one. -/
theorem toNat_not_add_one {value : BitVec 64} (hneg : value.toInt < 0) :
    (~~~value + 1).toNat = value.toInt.natAbs := by
  have hlt := value.isLt
  rw [show ~~~value + 1 = -value from (BitVec.neg_eq_not_add value).symm, BitVec.toNat_neg]
  rw [BitVec.toInt_eq_toNat_cond] at hneg ⊢
  split at hneg <;> omega

/-- The sign and the magnitude that a signed number is printed with. -/
def signed (base : Nat) (value : BitVec 64) : List (BitVec 8) × Nat :=
  if value.toInt < 0 ∧ base = 10 then (ascii "-", value.toInt.natAbs) else ([], value.toNat)

theorem printSigned_spec {s : OutputStream} (hbase : 2 ≤ base) (hs : s.base = base)
    (value : BitVec 64) :
    ∃ digits s', Spells base (signed base value).2 digits ∧ printSigned s value = .ok s' ∧
      Printed s s' ((signed base value).1 ++ (radixPrefix base ++ digits.map digitChar)) := by
  have hself : base = if s.base < 2 then 16 else s.base.toNat := by
    rw [hs, if_neg (by omega), Int.toNat_natCast]
  unfold signed printSigned
  rw [hs]
  by_cases hneg : value.toInt < 0 ∧ base = 10
  · obtain ⟨digits, s', hspells, hprint, hemitted, hkept⟩ :=
      printUnsigned_spec hbase (by rw [put_base]; exact hself) (~~~value + 1) (s := s.put 45)
    rw [toNat_not_add_one hneg.1] at hspells
    rw [if_pos hneg, if_pos (by omega)]
    refine ⟨digits, s', hspells, hprint, ?_, hkept.trans (s.put_base 45)⟩
    rw [hemitted, emitted_put, List.append_assoc]
    rfl
  · rw [if_neg hneg, if_neg (by omega)]
    exact printUnsigned_spec hbase hself value

/-- Integer output is faithful, for the four bases that a stream can be set to. -/
theorem integer_output_faithful {base : Nat} (hbase : base ∈ [2, 8, 10, 16]) {s : OutputStream}
    (hs : s.base = base) (value : BitVec 64) :
    (∃ digits s', Spells base value.toNat digits ∧ printUnsigned s value = .ok s' ∧
      Printed s s' (radixPrefix base ++ digits.map digitChar)) ∧
    (∀ divisor, Tries base value.toNat divisor → value.toNat / divisor ≥ base →
      divisor * base < 2 ^ 64) ∧
    (∃ digits s', Spells base (signed base value).2 digits ∧ printSigned s value = .ok s' ∧
      Printed s s' ((signed base value).1 ++ (radixPrefix base ++ digits.map digitChar))) ∧
    ∃ digits s', Spells 16 value.toNat digits ∧ printPointer s value = .ok s' ∧
      Printed s s' (radixPrefix 16 ++ digits.map digitChar) := by
  have htwo : 2 ≤ base := by
    simp only [List.mem_cons, List.not_mem_nil, or_false] at hbase
    omega
  have hself : base = if s.base < 2 then 16 else s.base.toNat := by
    rw [hs, if_neg (by omega), Int.toNat_natCast]
  refine ⟨printUnsigned_spec htwo hself value,
    fun divisor htries hagain => htries.mul_lt htwo value.isLt hagain,
    printSigned_spec htwo hs value, ?_⟩
  obtain ⟨digits, s', hspells, hprint, hemitted, -⟩ :=
    @printUnsigned_spec 16 { s with base := 16 } (by decide) rfl value
  refine ⟨digits, { s' with base := s.base }, hspells, ?_, hemitted, rfl⟩
  unfold printPointer
  rw [hprint]
  rfl

/-- The least number in decimal. -/
theorem integer_output_faithful_least :
    ∃ digits s', Spells 10 (2 ^ 63) digits ∧
      printSigned {} (BitVec.ofNat 64 (2 ^ 63)) = .ok s' ∧
      s'.emitted = ascii "-" ++ digits.map digitChar := by
  obtain ⟨digits, s', hspells, hprint, hprinted⟩ :=
    (integer_output_faithful (by decide : 10 ∈ [2, 8, 10, 16]) (s := {}) rfl
      (BitVec.ofNat 64 (2 ^ 63))).2.2.1
  exact ⟨digits, s', hspells, hprint, hprinted.emitted⟩

end OutputStream

end X64HK
