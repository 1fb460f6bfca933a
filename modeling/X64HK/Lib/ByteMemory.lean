import Mathlib.Algebra.Group.Nat.Defs

/-!
# Byte-addressed memory

A memory is a total function from addresses to bytes.  `load` and `store`
read and write little-endian numbers of any width, `fill` and `copy` set a
range of bytes, and `stringLength` measures a string that a zero byte ends.

Everything a client needs is one of three kinds of lemma: a `store` is read
back (`load_store`), what lies outside a written range does not change
(`store_of_outside`, `fill_of_outside`), and a `load` only depends on the
bytes it reads (`load_congr`).  `Holds` compares a range with a list of bytes.
-/

/-- A byte for every address. -/
abbrev ByteMemory := Nat → BitVec 8

namespace ByteMemory

/-- The little-endian number in the `n` bytes from `a` on. -/
def load (m : ByteMemory) (a : Nat) : Nat → Nat
  | 0 => 0
  | n + 1 => (m a).toNat + 256 * load m (a + 1) n

/-- Write the low `n` bytes of `v` from `a` on. -/
def store (m : ByteMemory) (a n v : Nat) : ByteMemory :=
  fun b => if a ≤ b ∧ b < a + n then BitVec.ofNat 8 (v / 256 ^ (b - a)) else m b

/-- Set the `n` bytes from `a` on to `x`. -/
def fill (m : ByteMemory) (a n : Nat) (x : BitVec 8) : ByteMemory :=
  fun b => if a ≤ b ∧ b < a + n then x else m b

/-- Write the first `n` bytes of `source` from `a` on. -/
def copy (m : ByteMemory) (a n : Nat) (source : Nat → BitVec 8) : ByteMemory :=
  fun b => if a ≤ b ∧ b < a + n then source (b - a) else m b

/-- Two memories hold the same `n` bytes from `a` on. -/
def AgreeOn (m m' : ByteMemory) (a n : Nat) : Prop :=
  ∀ b, a ≤ b → b < a + n → m' b = m b

variable {m m' : ByteMemory} {a b n k v : Nat} {x : BitVec 8} {source : Nat → BitVec 8}

theorem AgreeOn.mono (h : AgreeOn m m' a n) (hlo : a ≤ b) (hhi : b + k ≤ a + n) :
    AgreeOn m m' b k :=
  fun c h1 h2 => h c (by omega) (by omega)

theorem AgreeOn.trans {m'' : ByteMemory} (h : AgreeOn m m' a n)
    (h' : AgreeOn m' m'' a n) : AgreeOn m m'' a n :=
  fun b h1 h2 => (h' b h1 h2).trans (h b h1 h2)

theorem store_of_outside (h : b < a ∨ a + n ≤ b) : store m a n v b = m b :=
  if_neg (by omega)

theorem fill_of_outside (h : b < a ∨ a + n ≤ b) : fill m a n x b = m b :=
  if_neg (by omega)

theorem copy_of_outside (h : b < a ∨ a + n ≤ b) : copy m a n source b = m b :=
  if_neg (by omega)

/-- Filling a range and copying into it. -/
theorem copy_fill_of_outside {i : Nat} (hfits : i + k ≤ n) (h : b < a ∨ a + n ≤ b) :
    copy (fill m a n x) (a + i) k source b = m b := by
  rw [copy_of_outside (by omega), fill_of_outside h]

/-- Filling a range is copying the same byte everywhere. -/
theorem fill_eq_copy (m : ByteMemory) (a n : Nat) (x : BitVec 8) :
    fill m a n x = copy m a n fun _ => x := rfl

/-- What stands in a range that was filled and then copied into. -/
theorem copy_fill_eq_copy {i : Nat} (hfits : i + k ≤ n) :
    copy (fill m a n x) (a + i) k source =
      copy m a n fun j => if i ≤ j ∧ j < i + k then source (j - i) else x := by
  funext b
  unfold copy fill
  by_cases hin : a ≤ b ∧ b < a + n
  · rw [if_pos hin, if_pos hin]
    dsimp only
    by_cases hcopied : i ≤ b - a ∧ b - a < i + k
    · rw [if_pos hcopied, if_pos (by omega), Nat.sub_add_eq]
    · rw [if_neg hcopied, if_neg (by omega)]
  · rw [if_neg hin, if_neg hin, if_neg (by omega)]

/-- What is copied depends on the bytes that are copied. -/
theorem copy_congr {source' : Nat → BitVec 8} (h : ∀ i < n, source' i = source i) :
    copy m a n source' = copy m a n source := by
  funext b
  unfold copy
  by_cases hin : a ≤ b ∧ b < a + n
  · rw [if_pos hin, if_pos hin, h _ (by omega)]
  · rw [if_neg hin, if_neg hin]

theorem copy_of_inside (h : b < n) : copy m a n source (a + b) = source b := by
  rw [copy, if_pos (by omega), Nat.add_sub_cancel_left]

theorem fill_of_inside (h1 : a ≤ b) (h2 : b < a + n) : fill m a n x b = x :=
  if_pos ⟨h1, h2⟩

/-- A `store` changes nothing in a range that it does not meet. -/
theorem agreeOn_store (h : b + k ≤ a ∨ a + n ≤ b) : AgreeOn m (store m a n v) b k :=
  fun _ h1 h2 => store_of_outside (by omega)

theorem agreeOn_fill (h : b + k ≤ a ∨ a + n ≤ b) : AgreeOn m (fill m a n x) b k :=
  fun _ h1 h2 => fill_of_outside (by omega)

/-! ## Loads -/

theorem load_congr (h : AgreeOn m m' a n) : load m' a n = load m a n := by
  induction n generalizing a with
  | zero => rfl
  | succ n ih =>
    rw [load, load, h a (Nat.le_refl a) (by omega), ih (h.mono (Nat.le_succ a) (by omega))]

theorem load_lt (m : ByteMemory) (a n : Nat) : load m a n < 256 ^ n := by
  induction n generalizing a with
  | zero => exact Nat.one_pos
  | succ n ih =>
    have hbyte : (m a).toNat < 256 := (m a).isLt
    have hrest := ih (a + 1)
    rw [load, Nat.pow_succ]
    omega

/-- Reading the tail of a range that was just written. -/
private theorem load_store_from (m : ByteMemory) (a v : Nat) :
    ∀ n k, load (store m a (k + n) v) (a + k) n = v / 256 ^ k % 256 ^ n := by
  intro n
  induction n with
  | zero =>
    intro k
    rw [load, Nat.pow_zero, Nat.mod_one]
  | succ n ih =>
    intro k
    have hbyte : (store m a (k + (n + 1)) v (a + k)).toNat = v / 256 ^ k % 256 := by
      rw [store, if_pos (by omega), Nat.add_sub_cancel_left, BitVec.toNat_ofNat]
    have hrest := ih (k + 1)
    rw [Nat.add_assoc, Nat.add_comm 1 n, ← Nat.add_assoc a k 1] at hrest
    rw [load, hbyte, hrest, Nat.pow_succ 256 k, ← Nat.div_div_eq_div_mul,
      Nat.pow_succ 256 n, Nat.mul_comm (256 ^ n) 256, Nat.mod_mul]

/-- A number that was stored is read back, up to its width. -/
theorem load_store (m : ByteMemory) (a n v : Nat) : load (store m a n v) a n = v % 256 ^ n := by
  have h := load_store_from m a v n 0
  rwa [Nat.zero_add, Nat.add_zero, Nat.pow_zero, Nat.div_one] at h

theorem load_store_of_lt (h : v < 256 ^ n) : load (store m a n v) a n = v := by
  rw [load_store, Nat.mod_eq_of_lt h]

theorem load_store_of_disjoint (h : b + k ≤ a ∨ a + n ≤ b) :
    load (store m a n v) b k = load m b k :=
  load_congr (agreeOn_store h)

/-- A range of zero bytes reads as zero. -/
theorem load_fill_zero (h1 : a ≤ b) (h2 : b + k ≤ a + n) : load (fill m a n 0) b k = 0 := by
  induction k generalizing b with
  | zero => rfl
  | succ k ih =>
    rw [load, fill_of_inside h1 (by omega), ih (by omega) (by omega)]
    rfl

/-! ## Strings -/

/-- The number of bytes from `a` on before the first zero byte, or `limit` when
there is none among the first `limit` ones. -/
def stringLength (m : ByteMemory) : Nat → Nat → Nat
  | _, 0 => 0
  | a, limit + 1 => if m a = 0 then 0 else stringLength m (a + 1) limit + 1

theorem stringLength_le (m : ByteMemory) (a limit : Nat) : stringLength m a limit ≤ limit := by
  induction limit generalizing a with
  | zero => exact Nat.le_refl 0
  | succ limit ih =>
    rw [stringLength]
    split
    · exact Nat.zero_le _
    · exact Nat.succ_le_succ (ih (a + 1))

/-- A string ends at its first zero byte, or before. -/
theorem stringLength_le_of_zero (h : m (a + k) = 0) (limit : Nat) : stringLength m a limit ≤ k := by
  induction limit generalizing a k with
  | zero => exact Nat.zero_le k
  | succ limit ih =>
    rw [stringLength]
    split
    · exact Nat.zero_le k
    · rename_i hne
      cases k with
      | zero => exact absurd h hne
      | succ k =>
        rw [Nat.add_comm k 1, ← Nat.add_assoc] at h
        exact Nat.succ_le_succ (ih h)

/-- The length of a string depends on its bytes and the zero byte alone. -/
theorem stringLength_congr {limit : Nat} (h : AgreeOn m m' a (stringLength m a limit + 1)) :
    stringLength m' a limit = stringLength m a limit := by
  induction limit generalizing a with
  | zero => rfl
  | succ limit ih =>
    have hfirst : m' a = m a := h a (Nat.le_refl a) (by omega)
    rw [stringLength, stringLength, hfirst]
    rw [stringLength] at h
    split
    · rfl
    · rename_i hne
      rw [if_neg hne] at h
      rw [ih (h.mono (Nat.le_add_right a 1) (by omega))]

/-! ## Byte lists -/

/-- The bytes from `a` on are these. -/
def Holds (m : ByteMemory) : Nat → List (BitVec 8) → Prop
  | _, [] => True
  | a, byte :: bytes => m a = byte ∧ Holds m (a + 1) bytes

instance decidableHolds (m : ByteMemory) : ∀ a bytes, Decidable (Holds m a bytes)
  | _, [] => isTrue trivial
  | a, byte :: bytes =>
    have := decidableHolds m (a + 1) bytes
    inferInstanceAs (Decidable (m a = byte ∧ Holds m (a + 1) bytes))

theorem holds_append {bytes bytes' : List (BitVec 8)} :
    Holds m a (bytes ++ bytes') ↔ Holds m a bytes ∧ Holds m (a + bytes.length) bytes' := by
  induction bytes generalizing a with
  | nil => exact (iff_of_eq (true_and _)).symm
  | cons byte bytes ih =>
    rw [List.cons_append, Holds, Holds, ih, List.length_cons, and_assoc, Nat.add_assoc,
      Nat.add_comm 1]

/-- In a list of blocks of the same length, each block has its place. -/
theorem holds_flatMap {α : Type} {bytes : α → List (BitVec 8)} {blocks : List α}
    (hsize : ∀ block ∈ blocks, (bytes block).length = n) (h : Holds m a (blocks.flatMap bytes)) :
    ∀ (i : Nat) (hi : i < blocks.length), Holds m (a + i * n) (bytes blocks[i]) := by
  induction blocks generalizing a with
  | nil => exact fun i hi => absurd hi (Nat.not_lt_zero i)
  | cons block blocks ih =>
    rw [List.flatMap_cons, holds_append, hsize block List.mem_cons_self] at h
    intro i hi
    match i with
    | 0 => rw [Nat.zero_mul]; exact h.1
    | i + 1 =>
      have hrest := ih (fun b hb => hsize b (List.mem_cons_of_mem _ hb)) h.2 i
        (Nat.lt_of_succ_lt_succ hi)
      rw [Nat.add_assoc, Nat.add_comm n, ← Nat.succ_mul] at hrest
      exact hrest

/-- The low `n` bytes of a number, the lowest first. -/
def littleEndian : Nat → Nat → List (BitVec 8)
  | 0, _ => []
  | n + 1, v => BitVec.ofNat 8 v :: littleEndian n (v / 256)

@[simp] theorem length_littleEndian (n v : Nat) : (littleEndian n v).length = n := by
  induction n generalizing v with
  | zero => rfl
  | succ n ih => rw [littleEndian, List.length_cons, ih]

/-- A number is read back from its bytes. -/
theorem load_of_holds (h : Holds m a (littleEndian n v)) : load m a n = v % 256 ^ n := by
  induction n generalizing a v with
  | zero => rw [load, Nat.pow_zero, Nat.mod_one]
  | succ n ih =>
    rw [load, h.1, ih h.2, BitVec.toNat_ofNat, Nat.pow_succ 256, Nat.mul_comm (256 ^ n),
      Nat.mod_mul]

theorem load_of_holds_of_lt (h : Holds m a (littleEndian n v)) (hlt : v < 256 ^ n) :
    load m a n = v := by
  rw [load_of_holds h, Nat.mod_eq_of_lt hlt]

/-! ## 64-bit words -/

def read64 (m : ByteMemory) (a : Nat) : BitVec 64 := BitVec.ofNat 64 (load m a 8)

def write64 (m : ByteMemory) (a : Nat) (x : BitVec 64) : ByteMemory :=
  store m a 8 x.toNat

theorem read64_congr (h : AgreeOn m m' a 8) : read64 m' a = read64 m a := by
  rw [read64, read64, load_congr h]

@[simp] theorem read64_write64 (m : ByteMemory) (a : Nat) (x : BitVec 64) :
    read64 (write64 m a x) a = x := by
  have hx : x.toNat < 256 ^ 8 := x.isLt
  rw [read64, write64, load_store_of_lt hx, BitVec.ofNat_toNat, BitVec.setWidth_eq]

theorem read64_write64_of_disjoint {x : BitVec 64} (h : b + 8 ≤ a ∨ a + 8 ≤ b) :
    read64 (write64 m a x) b = read64 m b :=
  read64_congr (agreeOn_store h)

theorem read64_fill_zero (h1 : a ≤ b) (h2 : b + 8 ≤ a + n) : read64 (fill m a n 0) b = 0 := by
  rw [read64, load_fill_zero h1 h2]
  rfl

theorem agreeOn_write64 {x : BitVec 64} (h : b + k ≤ a ∨ a + 8 ≤ b) :
    AgreeOn m (write64 m a x) b k :=
  agreeOn_store h

end ByteMemory
