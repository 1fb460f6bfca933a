import Mathlib.Data.Nat.Bits
import Mathlib.Tactic.SplitIfs
import X64HK.Config

/-!
# The keyboard decoder

A model of `Kernel/Device/KeyDecoder.cpp` and of `Key::Ascii` in
`Kernel/Device/Key.cpp`.  The keyboard sends one byte when a key goes down and
the same byte with bit 7 set when it comes up, and a prefix byte may stand
before either.  `decode` takes one byte and returns the keystroke, if there is
one, and the next state of the decoder.

The lights of the keyboard, which `Ps2Controller::SetLed` switches, are left
out.

* `isPressed_decode`, `shift_decode` and `toggle_decode` say what one byte does
  to the state.
* `modifiers_follow_iff`: when `Shift` and the locks agree with the keys.
* `cursor_keys_type_nothing_iff`: when a cursor key types no digit.
-/

namespace X64HK

namespace ScanCode

/-! The codes that the decoder or `Ascii` treats in a way of its own. -/

def INVALID : Nat := 0
def Q : Nat := 16
def P : Nat := 25
def LEFT_CTRL : Nat := 29
def A : Nat := 30
def L : Nat := 38
def LEFT_SHIFT : Nat := 42
def Z : Nat := 44
def M : Nat := 50
def SLASH : Nat := 53
def RIGHT_SHIFT : Nat := 54
def LEFT_ALT : Nat := 56
def CAPS_LOCK : Nat := 58
def NUM_LOCK : Nat := 69
def SCROLL_LOCK : Nat := 70
def KP_7 : Nat := 71
def KP_PERIOD : Nat := 83
def COUNT : Nat := 89

/-- It shares its code with the period of the keypad. -/
def DELETE : Nat := KP_PERIOD

end ScanCode

open ScanCode

/-- A keystroke: the scan code and the modifiers at that time. -/
structure Key where
  code : Nat := INVALID
  shift : Bool := false
  altLeft : Bool := false
  altRight : Bool := false
  ctrlLeft : Bool := false
  ctrlRight : Bool := false
  capsLock : Bool := false
  numLock : Bool := false
  scrollLock : Bool := false
  deriving DecidableEq, Repr

namespace Key

/-- `Key::IsValid`. -/
def isValid (key : Key) : Bool := decide (key.code ≠ INVALID) && decide (key.code < COUNT)

/-- The characters of a key, as they are and shifted, indexed by scan code. -/
def ASCII_TABLE : List (Nat × Nat) := [
  (0, 0), (27, 27), (49, 33), (50, 64), (51, 35), (52, 36), (53, 37), (54, 94),
  (55, 38), (56, 42), (57, 40), (48, 41), (45, 95), (61, 43), (8, 8), (9, 9),
  (113, 81), (119, 87), (101, 69), (114, 82), (116, 84), (121, 89), (117, 85), (105, 73),
  (111, 79), (112, 80), (91, 123), (93, 125), (10, 10), (0, 0), (97, 65), (115, 83),
  (100, 68), (102, 70), (103, 71), (104, 72), (106, 74), (107, 75), (108, 76), (59, 58),
  (39, 34), (96, 126), (0, 0), (92, 124), (122, 90), (120, 88), (99, 67), (118, 86),
  (98, 66), (110, 78), (109, 77), (44, 60), (46, 62), (47, 63), (0, 0), (42, 42),
  (0, 0), (32, 32), (0, 0), (0, 0), (0, 0), (0, 0), (0, 0), (0, 0),
  (0, 0), (0, 0), (0, 0), (0, 0), (0, 0), (0, 0), (0, 0), (0, 55),
  (0, 56), (0, 57), (45, 45), (0, 52), (0, 53), (0, 54), (43, 43), (0, 49),
  (0, 50), (0, 51), (0, 48), (127, 46), (0, 0), (92, 124), (0, 0), (0, 0),
  (61, 61)]

/-- The three rows of letters. -/
def isLetter (code : Nat) : Bool :=
  decide (Q ≤ code ∧ code ≤ P) || decide (A ≤ code ∧ code ≤ L) || decide (Z ≤ code ∧ code ≤ M)

/-- From the seven to the period, with minus and plus between them. -/
def isKeypadDigit (code : Nat) : Bool := decide (KP_7 ≤ code ∧ code ≤ KP_PERIOD)

/-- `Key::Ascii`.  The shifted column is also the one for the keypad with num
lock on. -/
def ascii (key : Key) : Nat :=
  if !key.isValid then 0
  else
    let useShifted := key.shift || (key.capsLock && isLetter key.code) ||
      (key.numLock && isKeypadDigit key.code)
    let entry := ASCII_TABLE.getD key.code (0, 0)
    if useShifted then entry.2 else entry.1

end Key

/-- `KeyDecoder`. -/
structure KeyDecoder where
  prefixByte : BitVec 8 := 0
  modifiers : Key := {}
  pressed : Vector Bool COUNT := Vector.replicate COUNT false
  deriving DecidableEq

namespace KeyDecoder

/-- Set in the byte of a key that goes up. -/
def BREAK_BIT : BitVec 8 := 0x80
def PREFIX_EXTENDED : BitVec 8 := 0xE0
def PREFIX_PAUSE : BitVec 8 := 0xE1

/-- The key that a byte is about. -/
def codeOf (byte : BitVec 8) : Nat := (byte &&& ~~~BREAK_BIT).toNat

/-- The key went down. -/
def isMake (byte : BitVec 8) : Bool := decide (byte &&& BREAK_BIT = 0)

/-- `KeyDecoder::IsPressed`. -/
def isPressed (d : KeyDecoder) (code : Nat) : Bool :=
  if h : code < COUNT then d.pressed.get ⟨code, h⟩ else false

/-- The first `switch` of `Decode`.  `none` stands for `isModifier = false`. -/
def hold (modifiers : Key) (extended pressed : Bool) (code : Nat) : Option Key :=
  if code = LEFT_SHIFT ∨ code = RIGHT_SHIFT then some { modifiers with shift := pressed }
  else if code = LEFT_ALT then
    some (if extended then { modifiers with altRight := pressed }
      else { modifiers with altLeft := pressed })
  else if code = LEFT_CTRL then
    some (if extended then { modifiers with ctrlRight := pressed }
      else { modifiers with ctrlLeft := pressed })
  else none

/-- The second `switch` of `Decode`: the keystroke and the modifiers after
it. -/
def strike (modifiers : Key) (extended : Bool) (code : Nat) : Key × Key :=
  if code = CAPS_LOCK then (modifiers, { modifiers with capsLock := !modifiers.capsLock })
  else if code = SCROLL_LOCK then
    (modifiers, { modifiers with scrollLock := !modifiers.scrollLock })
  else if code = NUM_LOCK then
    if modifiers.ctrlLeft then ({ modifiers with code := code }, modifiers)
    else (modifiers, { modifiers with numLock := !modifiers.numLock })
  else if code = SLASH then
    ({ modifiers with code := code, shift := if extended then false else modifiers.shift },
      modifiers)
  else
    ({ modifiers with
        code := code
        numLock := if modifiers.numLock && extended then false else modifiers.numLock },
      modifiers)

/-- What `Decode` does with the code of a key that it knows. -/
def decodeKey (modifiers : Key) (extended pressed : Bool) (code : Nat) : Key × Key :=
  match hold modifiers extended pressed code with
  | some held => (modifiers, held)
  | none => if pressed then strike modifiers extended code else (modifiers, modifiers)

/-- `KeyDecoder::Decode`. -/
def decode (d : KeyDecoder) (byte : BitVec 8) : Key × KeyDecoder :=
  if byte = PREFIX_EXTENDED ∨ byte = PREFIX_PAUSE then
    (d.modifiers, { d with prefixByte := byte })
  else if h : codeOf byte < COUNT then
    let result := decodeKey d.modifiers (decide (d.prefixByte = PREFIX_EXTENDED)) (isMake byte)
      (codeOf byte)
    (result.1,
      { prefixByte := 0
        modifiers := result.2
        pressed := d.pressed.set (codeOf byte) (isMake byte) h })
  else (d.modifiers, { d with prefixByte := 0 })

/-- Feed bytes, and ignore the keystrokes. -/
def feed (d : KeyDecoder) (bytes : List (BitVec 8)) : KeyDecoder :=
  bytes.foldl (fun d byte => (d.decode byte).2) d

/-! ## One byte -/

variable (d : KeyDecoder) (byte : BitVec 8)

/-- The prefix bytes name no key. -/
theorem ne_escape_byte {byte : BitVec 8} (h : codeOf byte < COUNT) :
    ¬(byte = PREFIX_EXTENDED ∨ byte = PREFIX_PAUSE) := by
  rintro (rfl | rfl)
  · exact absurd h (by decide)
  · exact absurd h (by decide)

/-- A byte is recorded for its own key and for no other. -/
theorem isPressed_decode {code : Nat} (hcode : code < COUNT) :
    (d.decode byte).2.isPressed code =
      if codeOf byte = code then isMake byte else d.isPressed code := by
  by_cases hknown : codeOf byte < COUNT
  · unfold decode isPressed
    rw [if_neg (ne_escape_byte hknown), dif_pos hknown, dif_pos hcode, dif_pos hcode]
    change (d.pressed.set (codeOf byte) (isMake byte) hknown)[code] =
      if _ then _ else d.pressed[code]
    rw [Vector.getElem_set]
  · have hother : codeOf byte ≠ code := fun heq => hknown (by rw [heq]; exact hcode)
    rw [if_neg hother]
    unfold decode
    rw [dif_neg hknown]
    split <;> rfl

theorem decodeKey_shift (modifiers : Key) (extended pressed : Bool) (code : Nat) :
    (decodeKey modifiers extended pressed code).2.shift =
      if code = LEFT_SHIFT ∨ code = RIGHT_SHIFT then pressed else modifiers.shift := by
  unfold decodeKey hold strike
  split_ifs <;> rfl

/-- The locks that every make code of their key switches.  Num lock is not one
of them, because with the control key down it is the pause key. -/
inductive Lock where
  | caps
  | scroll
  deriving DecidableEq, Repr

/-- The key of a lock. -/
def Lock.code : Lock → Nat
  | .caps => CAPS_LOCK
  | .scroll => SCROLL_LOCK

/-- The state of a lock in the modifiers. -/
def Lock.isOn : Lock → Key → Bool
  | .caps, key => key.capsLock
  | .scroll, key => key.scrollLock

theorem Lock.code_lt (lock : Lock) : lock.code < COUNT := by
  cases lock <;> decide

theorem hold_lock (lock : Lock) {modifiers held : Key} {extended pressed : Bool} {code : Nat}
    (h : hold modifiers extended pressed code = some held) :
    code ≠ lock.code ∧ lock.isOn held = lock.isOn modifiers := by
  constructor
  · rintro rfl
    cases lock <;> exact absurd h nofun
  · unfold hold at h
    split_ifs at h <;> obtain rfl := Option.some.inj h <;> cases lock <;> rfl

theorem strike_lock (lock : Lock) (modifiers : Key) (extended : Bool) (code : Nat) :
    lock.isOn (strike modifiers extended code).2 =
      (lock.isOn modifiers ^^ decide (code = lock.code)) := by
  by_cases hcode : code = lock.code
  · rw [hcode, decide_eq_true rfl, Bool.xor_true]
    cases lock <;> rfl
  · rw [decide_eq_false hcode, Bool.xor_false]
    cases lock with
    | caps =>
      rw [strike, if_neg (show ¬code = CAPS_LOCK from hcode)]
      split_ifs <;> rfl
    | scroll =>
      rw [strike, if_neg (show ¬code = SCROLL_LOCK from hcode)]
      split_ifs <;> rfl

theorem decodeKey_lock (lock : Lock) (modifiers : Key) (extended pressed : Bool) (code : Nat) :
    lock.isOn (decodeKey modifiers extended pressed code).2 =
      (lock.isOn modifiers ^^ (decide (code = lock.code) && pressed)) := by
  unfold decodeKey
  split
  · rename_i held hheld
    obtain ⟨hcode, hsame⟩ := hold_lock lock hheld
    rw [decide_eq_false hcode, Bool.false_and, Bool.xor_false]
    exact hsame
  · cases pressed with
    | false => rw [if_neg Bool.false_ne_true, Bool.and_false, Bool.xor_false]
    | true => rw [if_pos rfl, Bool.and_true, strike_lock]

/-- Only the two `switch`es change the modifiers. -/
theorem modifiers_decode :
    (d.decode byte).2.modifiers =
      if codeOf byte < COUNT then
        (decodeKey d.modifiers (decide (d.prefixByte = PREFIX_EXTENDED)) (isMake byte)
          (codeOf byte)).2
      else d.modifiers := by
  unfold decode
  by_cases hknown : codeOf byte < COUNT
  · rw [if_neg (ne_escape_byte hknown), dif_pos hknown, if_pos hknown]
  · rw [if_neg hknown, dif_neg hknown]
    split <;> rfl

/-- `Shift` is what the last byte of either shift key said. -/
theorem shift_decode :
    (d.decode byte).2.modifiers.shift =
      if codeOf byte = LEFT_SHIFT ∨ codeOf byte = RIGHT_SHIFT then isMake byte
      else d.modifiers.shift := by
  rw [modifiers_decode]
  split
  · exact decodeKey_shift ..
  · rename_i hunknown
    rw [if_neg]
    rintro (heq | heq)
    · exact hunknown (by rw [heq]; decide)
    · exact hunknown (by rw [heq]; decide)

/-- A make code switches the lock, whether the key was up or not. -/
theorem toggle_decode (lock : Lock) :
    lock.isOn (d.decode byte).2.modifiers =
      (lock.isOn d.modifiers ^^ (decide (codeOf byte = lock.code) && isMake byte)) := by
  rw [modifiers_decode]
  split
  · exact decodeKey_lock ..
  · rename_i hunknown
    have hother : codeOf byte ≠ lock.code :=
      fun heq => hunknown (by rw [heq]; exact lock.code_lt)
    rw [decide_eq_false hother, Bool.false_and, Bool.xor_false]

/-! ## The modifiers and the keys -/

/-- The number of bytes that `P` holds of, given the state before the byte. -/
def countBytes (P : KeyDecoder → BitVec 8 → Bool) : KeyDecoder → List (BitVec 8) → Nat
  | _, [] => 0
  | d, byte :: bytes => (P d byte).toNat + countBytes P (d.decode byte).2 bytes

/-- The key goes from released to pressed. -/
def goesDown (code : Nat) (d : KeyDecoder) (byte : BitVec 8) : Bool :=
  !d.isPressed code && (d.decode byte).2.isPressed code

/-- A make code of a key that is down already. -/
def repeats (code : Nat) (d : KeyDecoder) (byte : BitVec 8) : Bool :=
  d.isPressed code && (decide (codeOf byte = code) && isMake byte)

/-- The last byte of a shift key was its release, and the other shift key was
down.  `early` says so of the bytes before. -/
def releasedEarly : KeyDecoder → Bool → List (BitVec 8) → Bool
  | _, early, [] => early
  | d, early, byte :: bytes =>
    releasedEarly (d.decode byte).2
      (if codeOf byte = LEFT_SHIFT then !isMake byte && d.isPressed RIGHT_SHIFT
        else if codeOf byte = RIGHT_SHIFT then !isMake byte && d.isPressed LEFT_SHIFT
        else early) bytes

/-- A make code either presses the key or repeats it. -/
theorem goesDown_xor_repeats {code : Nat} (hcode : code < COUNT) :
    (goesDown code d byte ^^ repeats code d byte) =
      (decide (codeOf byte = code) && isMake byte) := by
  unfold goesDown repeats
  rw [isPressed_decode d byte hcode]
  by_cases heq : codeOf byte = code
  · rw [if_pos heq, decide_eq_true heq]
    cases d.isPressed code <;> cases isMake byte <;> rfl
  · rw [if_neg heq, decide_eq_false heq]
    cases d.isPressed code <;> rfl

/-- A lock counts every make code of its key. -/
theorem lock_feed (lock : Lock) (bytes : List (BitVec 8)) :
    ∀ d : KeyDecoder, lock.isOn (d.feed bytes).modifiers =
      (lock.isOn d.modifiers ^^ ((countBytes (goesDown lock.code) d bytes).bodd ^^
        (countBytes (repeats lock.code) d bytes).bodd)) := by
  induction bytes with
  | nil =>
    intro d
    rw [countBytes, countBytes]
    exact (Bool.xor_false _).symm
  | cons byte bytes ih =>
    intro d
    have hbit : ∀ b : Bool, b.toNat.bodd = b := by decide
    have hswap : ∀ on down again downs agains : Bool,
        ((on ^^ (down ^^ again)) ^^ (downs ^^ agains)) =
          (on ^^ ((down ^^ downs) ^^ (again ^^ agains))) := by decide
    rw [feed, List.foldl_cons, ← feed, ih, toggle_decode, countBytes, countBytes, Nat.bodd_add,
      Nat.bodd_add, hbit, hbit, ← goesDown_xor_repeats d byte lock.code_lt]
    exact hswap ..

/-- The flag agrees with the keys. -/
def ShiftAgrees (d : KeyDecoder) : Prop :=
  d.modifiers.shift = true ↔ d.isPressed LEFT_SHIFT = true ∨ d.isPressed RIGHT_SHIFT = true

theorem shiftAgrees_feed (bytes : List (BitVec 8)) :
    ∀ (d : KeyDecoder) (early : Bool), (ShiftAgrees d ↔ early = false) →
      (ShiftAgrees (d.feed bytes) ↔ releasedEarly d early bytes = false) := by
  induction bytes with
  | nil => exact fun d early h => h
  | cons byte bytes ih =>
    intro d early h
    rw [feed, List.foldl_cons, ← feed, releasedEarly]
    refine ih _ _ ?_
    unfold ShiftAgrees at h ⊢
    rw [shift_decode, isPressed_decode d byte (by decide), isPressed_decode d byte (by decide)]
    by_cases hleft : codeOf byte = LEFT_SHIFT
    · have hright : codeOf byte ≠ RIGHT_SHIFT := by rw [hleft]; decide
      simp only [hleft, true_or, if_true, if_neg (hleft ▸ hright)]
      cases isMake byte <;> simp
    · by_cases hright : codeOf byte = RIGHT_SHIFT
      · simp only [hright, or_true, if_true, if_neg (hright ▸ hleft)]
        cases isMake byte <;> simp
      · simp only [hleft, hright, or_self, if_false]
        exact h

/-- After any bytes, `Shift` and the two locks agree with the keys exactly when
the last release of a shift key was not one beside the other shift key, and
neither lock key was repeated an odd number of times. -/
theorem modifiers_follow_iff (bytes : List (BitVec 8)) :
    (ShiftAgrees (feed {} bytes) ∧
      (feed {} bytes).modifiers.capsLock = (countBytes (goesDown CAPS_LOCK) {} bytes).bodd ∧
      (feed {} bytes).modifiers.scrollLock = (countBytes (goesDown SCROLL_LOCK) {} bytes).bodd) ↔
    releasedEarly {} false bytes = false ∧
      (countBytes (repeats CAPS_LOCK) {} bytes).bodd = false ∧
      (countBytes (repeats SCROLL_LOCK) {} bytes).bodd = false := by
  have hinit : ShiftAgrees {} ↔ false = false := by
    unfold ShiftAgrees
    decide
  have hcaps : (feed {} bytes).modifiers.capsLock = _ := lock_feed .caps bytes {}
  have hscroll : (feed {} bytes).modifiers.scrollLock = _ := lock_feed .scroll bytes {}
  have hxor : ∀ a b : Bool, (false ^^ (a ^^ b)) = a ↔ b = false := by decide
  rw [hcaps, hscroll]
  exact and_congr (shiftAgrees_feed bytes {} false hinit) (and_congr (hxor _ _) (hxor _ _))

/-- Both shift keys go down and the right one comes up.  Then caps lock is held
until it repeats. -/
theorem modifiers_disagree :
    (feed {} [0x2A, 0x36, 0xB6]).isPressed LEFT_SHIFT = true ∧
      (feed {} [0x2A, 0x36, 0xB6]).modifiers.shift = false ∧
      countBytes (goesDown CAPS_LOCK) {} [0x3A, 0x3A] = 1 ∧
      (feed {} [0x3A, 0x3A]).modifiers.capsLock = false := by
  decide

/-! ## Cursor keys -/

/-- The make codes that the cursor block shares with the keypad, and what the
keypad types. -/
def KEYPAD : List (BitVec 8 × Nat) := [
  (0x47, 55), (0x48, 56), (0x49, 57), (0x4B, 52), (0x4C, 53), (0x4D, 54), (0x4F, 49), (0x50, 50),
  (0x51, 51), (0x52, 48), (0x53, 46)]

/-- Such a code is a plain key whose columns are the cursor key's character and
the keypad's. -/
theorem keypad_facts : ∀ entry ∈ KEYPAD,
    isMake entry.1 = true ∧ codeOf entry.1 < COUNT ∧ codeOf entry.1 ≠ INVALID ∧
      (∀ modifiers extended, decodeKey modifiers extended true (codeOf entry.1) =
        ({ modifiers with
            code := codeOf entry.1
            numLock := if modifiers.numLock && extended then false else modifiers.numLock },
          modifiers)) ∧
      Key.isLetter (codeOf entry.1) = false ∧ Key.isKeypadDigit (codeOf entry.1) = true ∧
      Key.ASCII_TABLE.getD (codeOf entry.1) (0, 0) =
        (if codeOf entry.1 = DELETE then 127 else 0, entry.2) ∧
      (if codeOf entry.1 = DELETE then 127 else 0) ≠ entry.2 := by
  unfold KEYPAD
  simp only [List.forall_mem_cons]
  refine ⟨?_, ?_, ?_, ?_, ?_, ?_, ?_, ?_, ?_, ?_, ?_, List.forall_mem_nil _⟩ <;>
    exact ⟨by decide, by decide, by decide, fun _ _ => rfl, by decide, by decide, by decide,
      by decide⟩

/-- The column of the keypad is taken with shift down, or with num lock on and no
prefix. -/
theorem keypad_decode {entry : BitVec 8 × Nat} (h : entry ∈ KEYPAD) :
    (d.decode entry.1).1.isValid = true ∧
      (d.decode entry.1).1.ascii =
        if d.modifiers.shift ||
            (d.modifiers.numLock && !decide (d.prefixByte = PREFIX_EXTENDED)) then entry.2
        else if codeOf entry.1 = DELETE then 127 else 0 := by
  obtain ⟨hmake, hknown, hvalid, hkey, hletter, hdigit, hcolumns, -⟩ := keypad_facts entry h
  have hdecode : (d.decode entry.1).1 = { d.modifiers with
      code := codeOf entry.1
      numLock := if d.modifiers.numLock && decide (d.prefixByte = PREFIX_EXTENDED) then false
        else d.modifiers.numLock } := by
    unfold decode
    rw [if_neg (ne_escape_byte hknown), dif_pos hknown, hmake, hkey]
  have hisValid : (d.decode entry.1).1.isValid = true := by
    rw [hdecode, Key.isValid, decide_eq_true hvalid, decide_eq_true hknown]
    rfl
  refine ⟨hisValid, ?_⟩
  have hnum : ∀ num extended : Bool,
      (if num && extended then false else num) = (num && !extended) := by decide
  unfold Key.ascii
  rw [hisValid, hdecode]
  simp only [Bool.not_true, Bool.false_eq_true, if_false, hletter, hdigit, hcolumns, hnum,
    Bool.and_false, Bool.and_true, Bool.or_false]

theorem decode_extended :
    d.decode PREFIX_EXTENDED = (d.modifiers, { d with prefixByte := PREFIX_EXTENDED }) :=
  if_pos (Or.inl rfl)

/-- After any bytes, a cursor key types nothing and the keypad types its digit
with num lock on, exactly when no shift key is down. -/
theorem cursor_keys_type_nothing_iff (bytes : List (BitVec 8)) {entry : BitVec 8 × Nat}
    (h : entry ∈ KEYPAD) :
    (((((feed {} bytes).decode PREFIX_EXTENDED).2.decode entry.1).1.isValid = true ∧
      (((feed {} bytes).decode PREFIX_EXTENDED).2.decode entry.1).1.ascii =
        if codeOf entry.1 = DELETE then 127 else 0) ∧
      ((feed {} bytes).prefixByte ≠ PREFIX_EXTENDED → (feed {} bytes).modifiers.numLock = true →
        ((feed {} bytes).decode entry.1).1.ascii = entry.2)) ↔
    (feed {} bytes).modifiers.shift = false := by
  obtain ⟨-, -, -, -, -, -, -, hdiffer⟩ := keypad_facts entry h
  obtain ⟨hvalid, hcursor⟩ := keypad_decode ((feed {} bytes).decode PREFIX_EXTENDED).2 h
  obtain ⟨-, hkeypad⟩ := keypad_decode (feed {} bytes) h
  rw [decode_extended] at hvalid hcursor ⊢
  simp only [decide_true, Bool.not_true, Bool.and_false, Bool.or_false] at hcursor
  rw [hcursor, hkeypad]
  cases hshift : (feed {} bytes).modifiers.shift with
  | false =>
    refine iff_of_true ⟨⟨hvalid, if_neg Bool.false_ne_true⟩, fun hplain hnum => ?_⟩ rfl
    rw [hnum, decide_eq_false hplain]
    rfl
  | true =>
    refine iff_of_false (fun hall => hdiffer ?_) nofun
    exact hall.1.2.symm

/-- The up key, with num lock on and without a prefix. -/
theorem cursor_keys_type_nothing_iff_up :
    (((((feed {} [0x45]).decode PREFIX_EXTENDED).2.decode 0x48).1.isValid = true ∧
      (((feed {} [0x45]).decode PREFIX_EXTENDED).2.decode 0x48).1.ascii =
        if codeOf 0x48 = DELETE then 127 else 0) ∧
      ((feed {} [0x45]).prefixByte ≠ PREFIX_EXTENDED → (feed {} [0x45]).modifiers.numLock = true →
        ((feed {} [0x45]).decode 0x48).1.ascii = 56)) ↔
    (feed {} [0x45]).modifiers.shift = false :=
  cursor_keys_type_nothing_iff [0x45] (show ((0x48 : BitVec 8), 56) ∈ KEYPAD by decide)

/-- With shift down the up key types an eight. -/
theorem shifted_cursor_key_types_digit :
    ((0x48 : BitVec 8), 56) ∈ KEYPAD ∧ (feed {} [0x2A]).modifiers.numLock = false ∧
      (((feed {} [0x2A]).decode PREFIX_EXTENDED).2.decode 0x48).1.ascii = 56 := by
  decide

end KeyDecoder

end X64HK
