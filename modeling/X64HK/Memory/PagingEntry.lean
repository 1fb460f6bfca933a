import X64HK.Memory.Paging

/-!
# Bits of table entries

The two kinds of entries that `Descend` and `Map` write, and what the
masks of the walk make of them.  `tableEntry` points to a table, and
`granted` is what a leaf gives when every table above it is permissive.

The proofs compare words bit by bit.  Each mask has one lemma that says
which bits it has, and the rest is propositional.
-/

namespace X64HK.Paging

/-! ## Masks -/

theorem getLsbD_PRESENT : ∀ i < 64, PRESENT.getLsbD i = decide (i = 0) := by
  decide

theorem getLsbD_WRITABLE : ∀ i < 64, WRITABLE.getLsbD i = decide (i = 1) := by
  decide

theorem getLsbD_USER : ∀ i < 64, USER.getLsbD i = decide (i = 2) := by
  decide

theorem getLsbD_LARGE : ∀ i < 64, LARGE.getLsbD i = decide (i = 7) := by
  decide

theorem getLsbD_NO_EXECUTE : ∀ i < 64, NO_EXECUTE.getLsbD i = decide (i = 63) := by
  decide

theorem getLsbD_ADDRESS_MASK : ∀ i < 64, ADDRESS_MASK.getLsbD i = decide (12 ≤ i ∧ i < 52) := by
  decide

theorem getLsbD_OFFSET_MASK : ∀ i < 64, OFFSET_MASK.getLsbD i = decide (i < 12) := by
  decide

variable {i : Nat}

/-- The bits of the address of a frame. -/
theorem getLsbD_frameAddress {f : Nat} (hf : f < 2 ^ 40) (hi : i < 64) :
    (BitVec.ofNat 64 (f * Frame.SIZE)).getLsbD i =
      (decide (12 ≤ i ∧ i < 52) && f.testBit (i - 12)) := by
  have hsize : Frame.SIZE = 2 ^ 12 := rfl
  rw [BitVec.getLsbD_ofNat, hsize, Nat.testBit_mul_two_pow, decide_eq_true hi, Bool.true_and]
  by_cases hlt : i < 52
  · simp [hlt]
  · have hbit : f.testBit (i - 12) = false :=
      Nat.testBit_lt_two_pow (Nat.lt_of_lt_of_le hf (Nat.pow_le_pow_right (by decide) (by omega)))
    rw [hbit, Bool.and_false, Bool.and_false]

/-- Asking for one bit. -/
theorem and_eq_zero_iff {mask : BitVec 64} {k : Nat} (hk : k < 64)
    (hmask : ∀ i < 64, mask.getLsbD i = decide (i = k)) (x : BitVec 64) :
    x &&& mask = 0 ↔ x.getLsbD k = false := by
  constructor
  · intro h
    have hbit := congrArg (fun y => BitVec.getLsbD y k) h
    simp only [BitVec.getLsbD_and, hmask k hk, decide_true, Bool.and_true] at hbit
    rw [hbit]
    exact BitVec.getLsbD_zero
  · intro h
    refine BitVec.eq_of_getLsbD_eq fun i hi => ?_
    rw [BitVec.getLsbD_and, hmask i hi]
    by_cases hik : i = k
    · rw [hik, h, Bool.false_and]
      exact BitVec.getLsbD_zero.symm
    · rw [decide_eq_false hik, Bool.and_false]
      exact BitVec.getLsbD_zero.symm

theorem decide_and_ne_zero {mask : BitVec 64} {k : Nat} (hk : k < 64)
    (hmask : ∀ i < 64, mask.getLsbD i = decide (i = k)) (x : BitVec 64) :
    decide (x &&& mask ≠ 0) = x.getLsbD k := by
  cases hbit : x.getLsbD k with
  | false => exact decide_eq_false (not_not.2 ((and_eq_zero_iff hk hmask x).2 hbit))
  | true =>
    refine decide_eq_true fun hzero => ?_
    rw [(and_eq_zero_iff hk hmask x).1 hzero] at hbit
    exact absurd hbit nofun

theorem and_PRESENT_eq_zero (x : BitVec 64) : x &&& PRESENT = 0 ↔ x.getLsbD 0 = false :=
  and_eq_zero_iff (by decide) getLsbD_PRESENT x

theorem and_NO_EXECUTE_eq_zero (x : BitVec 64) : x &&& NO_EXECUTE = 0 ↔ x.getLsbD 63 = false :=
  and_eq_zero_iff (by decide) getLsbD_NO_EXECUTE x

/-! ## Entries that point to tables -/

/-- What `Descend` leaves in an entry on the way: the frame of the next
table, with `USER` once a user page was mapped below it. -/
def tableEntry (f : Nat) (user : Bool) : BitVec 64 :=
  BitVec.ofNat 64 (f * Frame.SIZE) ||| PRESENT ||| WRITABLE |||
    (if user then USER else 0)

/-- The flags that a privilege opens on the way down. -/
def userFlag (user : Bool) : BitVec 64 := if user then USER else 0

theorem getLsbD_userFlag (user : Bool) (hi : i < 64) :
    (userFlag user).getLsbD i = (user && decide (i = 2)) := by
  cases user with
  | true => rw [userFlag, if_pos rfl, getLsbD_USER i hi, Bool.true_and]
  | false => simp [userFlag]

theorem getLsbD_tableEntry {f : Nat} (hf : f < 2 ^ 40) (user : Bool) (hi : i < 64) :
    (tableEntry f user).getLsbD i =
      (decide (12 ≤ i ∧ i < 52) && f.testBit (i - 12) || decide (i = 0) ||
        decide (i = 1) || (user && decide (i = 2))) := by
  rw [tableEntry, BitVec.getLsbD_or, BitVec.getLsbD_or, BitVec.getLsbD_or,
    getLsbD_frameAddress hf hi, getLsbD_PRESENT i hi, getLsbD_WRITABLE i hi]
  congr 1
  exact getLsbD_userFlag user hi

variable {f : Nat} (user : Bool) {x : BitVec 64}

theorem tableEntry_present (hf : f < 2 ^ 40) : ¬tableEntry f user &&& PRESENT = 0 := by
  rw [and_PRESENT_eq_zero, getLsbD_tableEntry hf user (by decide)]
  simp

theorem tableEntry_and_LARGE (hf : f < 2 ^ 40) : tableEntry f user &&& LARGE = 0 := by
  refine BitVec.eq_of_getLsbD_eq fun i hi => ?_
  rw [BitVec.getLsbD_and, getLsbD_tableEntry hf user hi, getLsbD_LARGE i hi]
  by_cases h7 : i = 7
  · subst h7
    simp
  · simp [h7]

theorem tableEntry_and_NO_EXECUTE (hf : f < 2 ^ 40) : tableEntry f user &&& NO_EXECUTE = 0 := by
  refine BitVec.eq_of_getLsbD_eq fun i hi => ?_
  rw [BitVec.getLsbD_and, getLsbD_tableEntry hf user hi, getLsbD_NO_EXECUTE i hi]
  by_cases h63 : i = 63
  · subst h63
    simp
  · simp [h63]

theorem tableEntry_address (hf : f < 2 ^ 40) :
    (tableEntry f user &&& ADDRESS_MASK).toNat = f * Frame.SIZE := by
  have h : tableEntry f user &&& ADDRESS_MASK = BitVec.ofNat 64 (f * Frame.SIZE) := by
    refine BitVec.eq_of_getLsbD_eq fun i hi => ?_
    rw [BitVec.getLsbD_and, getLsbD_tableEntry hf user hi, getLsbD_ADDRESS_MASK i hi,
      getLsbD_frameAddress hf hi]
    by_cases hin : 12 ≤ i ∧ i < 52
    · simp [hin, show i ≠ 0 by omega, show i ≠ 1 by omega, show i ≠ 2 by omega]
    · simp [hin]
  rw [h, BitVec.toNat_ofNat]
  exact Nat.mod_eq_of_lt (by rw [show Frame.SIZE = 4096 from rfl]; omega)

/-- The entry of a table that was just created. -/
theorem tableEntry_false (f : Nat) :
    BitVec.ofNat 64 (f * Frame.SIZE) ||| PRESENT ||| WRITABLE = tableEntry f false := by
  simp [tableEntry]

theorem tableEntry_or_userFlag (f : Nat) (opened : Bool) :
    tableEntry f user ||| userFlag opened = tableEntry f (user || opened) := by
  cases user <;> cases opened <;> simp [tableEntry, userFlag, BitVec.or_assoc]

/-! ## Entries of pages -/

theorem getLsbD_CACHE_DISABLE : ∀ i < 64, CACHE_DISABLE.getLsbD i = decide (i = 4) := by
  decide

private theorem getLsbD_flag {p : Prop} [Decidable p] {flag : BitVec 64} {k : Nat} (hi : i < 64)
    (hflag : ∀ i < 64, flag.getLsbD i = decide (i = k)) :
    (if p then flag else 0).getLsbD i = (decide p && decide (i = k)) := by
  by_cases hp : p
  · rw [if_pos hp, hflag i hi, decide_eq_true hp, Bool.true_and]
  · rw [if_neg hp, decide_eq_false hp, Bool.false_and]
    exact BitVec.getLsbD_zero

theorem getLsbD_flagsFor (noExecute : Bool) (access : Access) (privilege : Privilege)
    (caching : Caching) (hi : i < 64) :
    (flagsFor noExecute access privilege caching).getLsbD i =
      (decide (i = 0) || (decide (access = .readWrite) && decide (i = 1)) ||
        (decide (access ≠ .readExecute ∧ noExecute = true) && decide (i = 63)) ||
        (decide (privilege = .user) && decide (i = 2)) ||
        (decide (caching = .disabled) && decide (i = 4))) := by
  rw [flagsFor, BitVec.getLsbD_or, BitVec.getLsbD_or, BitVec.getLsbD_or,
    BitVec.getLsbD_or, getLsbD_PRESENT i hi, getLsbD_flag hi getLsbD_WRITABLE,
    getLsbD_flag hi getLsbD_NO_EXECUTE, getLsbD_flag hi getLsbD_USER,
    getLsbD_flag hi getLsbD_CACHE_DISABLE]

/-- A page-aligned address has none of the low bits. -/
theorem getLsbD_of_aligned (hx : x.toNat % PAGE_SIZE = 0) {j : Nat} (hj : j < 12) :
    x.getLsbD j = false := by
  have hdvd : 2 ^ 12 ∣ x.toNat := Nat.dvd_of_mod_eq_zero hx
  obtain ⟨c, hc⟩ := hdvd
  rw [BitVec.getLsbD, hc, Nat.testBit_two_pow_mul, decide_eq_false (by omega), Bool.false_and]

/-- An address of `w` bits has none of the bits above. -/
theorem getLsbD_of_lt {w : Nat} (hx : x.toNat < 2 ^ w) {j : Nat} (hj : w ≤ j) :
    x.getLsbD j = false :=
  Nat.testBit_lt_two_pow (Nat.lt_of_lt_of_le hx (Nat.pow_le_pow_right (by decide) hj))

/-- The address of a page passes the mask. -/
theorem and_ADDRESS_MASK_eq (haligned : x.toNat % PAGE_SIZE = 0) (hlt : x.toNat < 2 ^ 52) :
    x &&& ADDRESS_MASK = x := by
  refine BitVec.eq_of_getLsbD_eq fun j hj => ?_
  rw [BitVec.getLsbD_and, getLsbD_ADDRESS_MASK j hj]
  by_cases hin : 12 ≤ j ∧ j < 52
  · rw [decide_eq_true hin, Bool.and_true]
  · have hclear : x.getLsbD j = false := by
      by_cases hlow : j < 12
      · exact getLsbD_of_aligned haligned hlow
      · exact getLsbD_of_lt hlt (by omega)
    rw [hclear, Bool.false_and]

/-- Clearing the low bits rounds down to a page. -/
theorem toNat_and_not_OFFSET_MASK (x : BitVec 64) :
    (x &&& ~~~OFFSET_MASK).toNat = x.toNat / PAGE_SIZE * PAGE_SIZE := by
  have hx : x &&& ~~~OFFSET_MASK = BitVec.ofNat 64 (x.toNat / 2 ^ 12 * 2 ^ 12) := by
    refine BitVec.eq_of_getLsbD_eq fun i hi => ?_
    rw [BitVec.getLsbD_and, BitVec.getLsbD_not, getLsbD_OFFSET_MASK i hi,
      BitVec.getLsbD_ofNat, Nat.testBit_mul_two_pow, Nat.testBit_div_two_pow,
      decide_eq_true hi, BitVec.getLsbD]
    by_cases h12 : i < 12
    · simp [h12, show ¬12 ≤ i by omega]
    · simp [h12, show 12 ≤ i by omega]
  rw [hx, BitVec.toNat_ofNat]
  refine Nat.mod_eq_of_lt ?_
  exact Nat.lt_of_le_of_lt (Nat.div_mul_le_self _ _) x.isLt

/-- The low bits are the offset in the page. -/
theorem toNat_and_OFFSET_MASK (x : BitVec 64) :
    (x &&& OFFSET_MASK).toNat = x.toNat % PAGE_SIZE := by
  rw [BitVec.toNat_and]
  exact Nat.and_two_pow_sub_one_eq_mod _ 12

/-- A page-aligned address and an offset in a page do not overlap. -/
theorem toNat_or_offset {y : BitVec 64} (hx : x.toNat % PAGE_SIZE = 0) :
    (x ||| (y &&& OFFSET_MASK)).toNat = x.toNat + y.toNat % PAGE_SIZE := by
  have hdvd : x.toNat = x.toNat / 2 ^ 12 * 2 ^ 12 :=
    (Nat.div_mul_cancel (Nat.dvd_of_mod_eq_zero hx)).symm
  have hlt : y.toNat % PAGE_SIZE < 2 ^ 12 := Nat.mod_lt _ (by decide)
  rw [BitVec.toNat_or, toNat_and_OFFSET_MASK, hdvd, ← Nat.shiftLeft_eq,
    Nat.shiftLeft_add_eq_or_of_lt hlt]

theorem and_USER_WRITABLE_eq (x : BitVec 64) :
    x &&& (USER ||| WRITABLE) = USER ||| WRITABLE ↔ x.getLsbD 2 = true ∧ x.getLsbD 1 = true := by
  have hmask : ∀ i < 64, (USER ||| WRITABLE).getLsbD i = (decide (i = 2) || decide (i = 1)) := by
    intro i hi
    rw [BitVec.getLsbD_or, getLsbD_USER i hi, getLsbD_WRITABLE i hi]
  constructor
  · intro h
    have h2 := congrArg (fun y => BitVec.getLsbD y 2) h
    have h1 := congrArg (fun y => BitVec.getLsbD y 1) h
    simp only [BitVec.getLsbD_and, hmask 2 (by decide), hmask 1 (by decide)] at h1 h2
    exact ⟨by simpa using h2, by simpa using h1⟩
  · rintro ⟨h2, h1⟩
    refine BitVec.eq_of_getLsbD_eq fun i hi => ?_
    rw [BitVec.getLsbD_and, hmask i hi]
    by_cases hi2 : i = 2
    · rw [hi2, h2, Bool.true_and]
    by_cases hi1 : i = 1
    · rw [hi1, h1, Bool.true_and]
    · simp [hi1, hi2]

end X64HK.Paging
