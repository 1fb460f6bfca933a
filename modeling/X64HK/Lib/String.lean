import Mathlib.Logic.Function.Basic
import X64HK.Config
import X64HK.Lib.ByteMemory

/-!
# Moving bytes

A model of `memcpy`, `memmove` and `memset` in `Kernel/Lib/String.cpp`, loop by
loop.  The other chapters use `ByteMemory.copy` and `ByteMemory.fill` in their
place, and the lemmas here say that these are the same.

All loops are the same argument: after some bytes, the memory is the original one
with these bytes of the original copied.

* `copyUp_spec` and `copyDown_spec`: the two loops.  Each needs that what it has
  yet to read is not what it has written.
* `memmove_moves_bytes`: the order of the addresses picks the loop that is right.
-/

namespace X64HK

variable {m : ByteMemory} {destination source size n : Nat}

/-- `destination[i] = source[i]`. -/
def copyByte (destination source : Nat) (m : ByteMemory) (i : Nat) : ByteMemory :=
  Function.update m (wrap64 (destination + i)) (m (wrap64 (source + i)))

/-- The loop that counts up. -/
def copyUp (m : ByteMemory) (destination source size : Nat) : ByteMemory :=
  (List.range size).foldl (copyByte destination source) m

/-- The loop that counts down, with `n` bytes to go. -/
def copyDown (destination source : Nat) : ByteMemory → Nat → ByteMemory
  | m, 0 => m
  | m, n + 1 => copyDown destination source (copyByte destination source m n) n

def memcpy (m : ByteMemory) (destination source size : Nat) : Nat × ByteMemory :=
  (destination, copyUp m destination source size)

def memmove (m : ByteMemory) (destination source size : Nat) : Nat × ByteMemory :=
  if source > destination then (destination, copyUp m destination source size)
  else (destination, copyDown destination source m size)

def memset (m : ByteMemory) (destination : Nat) (pattern : BitVec 8) (size : Nat) :
    Nat × ByteMemory :=
  (destination, (List.range size).foldl
    (fun m i => Function.update m (wrap64 (destination + i)) pattern) m)

/-! ## The loops -/

/-- Another byte behind those that were copied. -/
theorem update_copy_end (m : ByteMemory) (a n : Nat) (content : Nat → BitVec 8) :
    Function.update (m.copy a n content) (a + n) (content n) = m.copy a (n + 1) content := by
  funext b
  by_cases hb : b = a + n
  · subst hb
    rw [Function.update_self, ByteMemory.copy_of_inside (Nat.lt_succ_self n)]
  · rw [Function.update_of_ne hb]
    unfold ByteMemory.copy
    by_cases hin : a ≤ b ∧ b < a + n
    · rw [if_pos hin, if_pos (by omega)]
    · rw [if_neg hin, if_neg (by omega)]

/-- Another byte in front of them. -/
theorem update_copy_front (m : ByteMemory) (a n : Nat) (content : Nat → BitVec 8) :
    Function.update (m.copy (a + 1) n fun i => content (i + 1)) a (content 0) =
      m.copy a (n + 1) content := by
  funext b
  by_cases hb : b = a
  · subst hb
    rw [Function.update_self]
    exact (ByteMemory.copy_of_inside (Nat.succ_pos n)).symm
  · rw [Function.update_of_ne hb]
    unfold ByteMemory.copy
    by_cases hin : a + 1 ≤ b ∧ b < a + 1 + n
    · rw [if_pos hin, if_pos (by omega)]
      exact congrArg content (by omega)
    · rw [if_neg hin, if_neg (by omega)]

/-- A loop that counts up and writes the next byte in each step. -/
theorem foldl_eq_copy {step : ByteMemory → Nat → ByteMemory} {content : Nat → BitVec 8}
    (hstep : ∀ n < size, step (m.copy destination n content) n =
      Function.update (m.copy destination n content) (destination + n) (content n)) :
    (List.range size).foldl step m = m.copy destination size content := by
  induction size with
  | zero =>
    funext b
    exact (ByteMemory.copy_of_outside (by omega)).symm
  | succ size ih =>
    rw [List.range_succ, List.foldl_append, List.foldl_cons, List.foldl_nil,
      ih fun n hn => hstep n (Nat.lt_succ_of_lt hn), hstep size (Nat.lt_succ_self size)]
    exact update_copy_end m destination size content

/-- Counting up is right when no byte is read after it was written. -/
theorem copyUp_spec (hdestination : destination + size ≤ 2 ^ 64) (hsource : source + size ≤ 2 ^ 64)
    (hunread : ∀ i j, i < j → j < size → destination + i ≠ source + j) :
    copyUp m destination source size = m.copy destination size fun i => m (source + i) := by
  refine foldl_eq_copy fun n hn => ?_
  -- the byte to read is still the original one
  have hread : (m.copy destination n fun i => m (source + i)) (source + n) = m (source + n) := by
    refine ByteMemory.copy_of_outside ?_
    have := hunread (source + n - destination) n
    omega
  rw [copyByte, wrap64_of_lt (by omega), wrap64_of_lt (by omega), hread]

/-- So is counting down.  The bytes from `n` on are there already. -/
theorem copyDown_spec (hdestination : destination + size ≤ 2 ^ 64)
    (hsource : source + size ≤ 2 ^ 64)
    (hunread : ∀ i j, j < i → i < size → destination + i ≠ source + j) :
    copyDown destination source m size = m.copy destination size fun i => m (source + i) := by
  have hloop : ∀ n ≤ size, copyDown destination source
      (m.copy (destination + n) (size - n) fun i => m (source + n + i)) n =
        m.copy destination size fun i => m (source + i) := by
    intro n
    induction n with
    | zero => exact fun _ => rfl
    | succ n ih =>
      intro hn
      have hread : (m.copy (destination + (n + 1)) (size - (n + 1))
          fun i => m (source + (n + 1) + i)) (source + n) = m (source + n) := by
        refine ByteMemory.copy_of_outside ?_
        have := hunread (source + n - destination) n
        omega
      have hstep : Function.update (m.copy (destination + (n + 1)) (size - (n + 1))
          fun i => m (source + (n + 1) + i)) (destination + n) (m (source + n)) =
            m.copy (destination + n) (size - n) fun i => m (source + n + i) := by
        have h := update_copy_front m (destination + n) (size - (n + 1)) fun i => m (source + n + i)
        rw [show size - (n + 1) + 1 = size - n by omega] at h
        rw [← h]
        congr 2
        funext i
        rw [show source + (n + 1) + i = source + n + (i + 1) by omega]
      rw [copyDown, copyByte, wrap64_of_lt (by omega), wrap64_of_lt (by omega), hread, hstep]
      exact ih (by omega)
  have hstart : (m.copy (destination + size) (size - size) fun i => m (source + size + i)) = m := by
    funext b
    exact ByteMemory.copy_of_outside (by omega)
  have h := hloop size (Nat.le_refl _)
  rw [hstart] at h
  exact h

/-! ## What the functions do -/

/-- `__restrict__`: the two ranges do not overlap. -/
theorem memcpy_eq_copy (hdestination : destination + size ≤ 2 ^ 64)
    (hsource : source + size ≤ 2 ^ 64)
    (hrestrict : destination + size ≤ source ∨ source + size ≤ destination) :
    memcpy m destination source size =
      (destination, m.copy destination size fun i => m (source + i)) := by
  rw [memcpy, copyUp_spec hdestination hsource fun i j _ _ => by omega]

theorem memset_eq_fill (hdestination : destination + size ≤ 2 ^ 64) (pattern : BitVec 8) :
    memset m destination pattern size = (destination, m.fill destination size pattern) := by
  rw [memset, ByteMemory.fill_eq_copy]
  refine congrArg _ (foldl_eq_copy fun n hn => ?_)
  rw [wrap64_of_lt (by omega)]

theorem memmove_eq_copy (hdestination : destination + size ≤ 2 ^ 64)
    (hsource : source + size ≤ 2 ^ 64) :
    memmove m destination source size =
      (destination, m.copy destination size fun i => m (source + i)) := by
  unfold memmove
  by_cases habove : source > destination
  · rw [if_pos habove, copyUp_spec hdestination hsource fun i j _ _ => by omega]
  · rw [if_neg habove, copyDown_spec hdestination hsource fun i j _ _ => by omega]

/-- However the two ranges overlap. -/
theorem memmove_moves_bytes (m : ByteMemory) {destination source size : Nat}
    (hdestination : destination + size ≤ 2 ^ 64) (hsource : source + size ≤ 2 ^ 64) :
    (memmove m destination source size).1 = destination ∧
      (∀ i < size, (memmove m destination source size).2 (destination + i) = m (source + i)) ∧
      ∀ a, a < destination ∨ destination + size ≤ a →
        (memmove m destination source size).2 a = m a := by
  rw [memmove_eq_copy hdestination hsource]
  dsimp only
  exact ⟨rfl, fun i hi => ByteMemory.copy_of_inside hi, fun a ha => ByteMemory.copy_of_outside ha⟩

/-- Four bytes up by one, and back. -/
theorem memmove_moves_bytes_overlapping :
    (memmove (fun a => BitVec.ofNat 8 a) 11 10 4).2 14 = 13 ∧
      (memmove (fun a => BitVec.ofNat 8 a) 10 11 4).2 13 = 14 :=
  ⟨(memmove_moves_bytes (fun a => BitVec.ofNat 8 a) (by decide) (by decide)).2.1 3 (by decide),
    (memmove_moves_bytes (fun a => BitVec.ofNat 8 a) (by decide) (by decide)).2.1 3 (by decide)⟩

end X64HK
