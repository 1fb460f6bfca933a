import X64HK.User.Isolation

/-!
# Copying from user memory

A model of `CopyIn` in `Kernel/User/Task.cpp`, the one place where the kernel
reads through an address that a task chose.  The destination is a kernel
buffer.  It stands as a memory of its own, byte `i` of `OutDestination` at
address `i`, because no user page is backed by kernel memory.

The check goes page by page and the copy goes byte by byte.  What joins them
is that the walk of the CPU looks at nothing of an address below bit 12:

* `effective_of_same_page`: two addresses in one page have the same entry.
* `copyInLoop_spec`: the loop accepts exactly when every address up to the
  end is readable.
* `copyIn_spec`: what is accepted and what is copied.
* `copy_in_exact`: the contract of `CopyIn`, with what it does not depend on.
-/

namespace X64HK

open Paging (PAGE_SIZE)

/-! ## Addresses in one page -/

namespace Paging

variable {s : State} {v w : BitVec 64}

/-- The index at every level is a part of the page number. -/
theorem indexAt_of_same_page (h : v.toNat / PAGE_SIZE = w.toNat / PAGE_SIZE) (level : Nat) :
    indexAt v level = indexAt w level := by
  have hshift : ∀ x : BitVec 64, x.toNat / 2 ^ (12 + 9 * (level - 1)) =
      x.toNat / PAGE_SIZE / 2 ^ (9 * (level - 1)) := by
    intro x
    rw [Nat.pow_add, ← Nat.div_div_eq_div_mul]
    rfl
  rw [indexAt_eq, indexAt_eq, hshift, hshift, h]

theorem entryAddress_of_same_page (h : v.toNat / PAGE_SIZE = w.toNat / PAGE_SIZE)
    (table level : Nat) : entryAddress table v level = entryAddress table w level := by
  rw [entryAddress, entryAddress, indexAt_of_same_page h]

theorem effectiveLoop_of_same_page (h : v.toNat / PAGE_SIZE = w.toNat / PAGE_SIZE)
    (memory : ByteMemory) (n table : Nat) (granted noExecute : BitVec 64) :
    effectiveLoop memory v n table granted noExecute =
      effectiveLoop memory w n table granted noExecute := by
  induction n generalizing table granted noExecute with
  | zero => rfl
  | succ n ih =>
    simp only [effectiveLoop]
    rw [entryAddress_of_same_page h, ih]

/-- The entry of an address is the entry of its page. -/
theorem effective_of_same_page (s : State) (h : v.toNat / PAGE_SIZE = w.toNat / PAGE_SIZE) :
    effective s v = effective s w := by
  unfold effective
  rw [effectiveLoop_of_same_page h]
  split
  · rfl
  · rw [entryAddress_of_same_page h]

theorem isUserReadable_of_same_page (s : State) (h : v.toNat / PAGE_SIZE = w.toNat / PAGE_SIZE) :
    isUserReadable s v = isUserReadable s w := by
  rw [isUserReadable, isUserReadable, effective_of_same_page s h]

/-- The byte that a read through `virtual` finds. -/
def byteAt (s : State) (virtual : BitVec 64) : BitVec 8 :=
  s.memory (translate s virtual).toNat

/-- Every address of a range is user-readable. -/
def Readable (s : State) (start length : Nat) : Prop :=
  ∀ a, start ≤ a → a < start + length → isUserReadable s (BitVec.ofNat 64 a) = true

/-- Two states that agree on which pages a task can read and on the bytes of
those pages. -/
structure SameUserPages (s s' : State) : Prop where
  readable : ∀ v, isUserReadable s' v = isUserReadable s v
  bytes : ∀ v, isUserReadable s v = true → byteAt s' v = byteAt s v

end Paging

/-! ## `CopyIn` -/

namespace User

open Paging (Readable byteAt SameUserPages isUserReadable)

/-- The loop of `CopyIn` over the pages below `stop`. -/
def copyInLoop (s : Paging.State) (stop : Nat) : Nat → Nat → Outcome Bool
  | 0, _ => .error .outOfFuel
  | fuel + 1, page =>
    if page < stop then
      if !isUserReadable s (BitVec.ofNat 64 page) then .ok false
      else copyInLoop s stop fuel (wrap64 (page + PAGE_SIZE))
    else .ok true

/-- `CopyIn`.  The answer comes with the destination after the call. -/
def copyIn (s : Paging.State) (destination : ByteMemory) (source length : Nat) :
    Outcome (Bool × ByteMemory) :=
  if length = 0 then .ok (true, destination)
  else if !inUserHalf source length then .ok (false, destination)
  else do
    let stop := wrap64 (source + length)
    let readable ← copyInLoop s stop (stop / PAGE_SIZE + 2) (source / PAGE_SIZE * PAGE_SIZE)
    if readable then
      return (true, destination.copy 0 length
        (fun i => byteAt s (BitVec.ofNat 64 (wrap64 (source + i)))))
    else return (false, destination)

variable {s s' : Paging.State} {source length : Nat}

/-- The loop answers, and it accepts when each address from `page` on can be
read. -/
theorem copyInLoop_spec (s : Paging.State) {stop : Nat} (fuel : Nat) {page : Nat}
    (hpage : page % PAGE_SIZE = 0) (hstop : stop ≤ HK.USER_MAX)
    (hfuel : stop ≤ page + fuel * PAGE_SIZE) :
    ∃ readable, copyInLoop s stop (fuel + 1) page = .ok readable ∧
      (readable = true ↔
        ∀ a, page ≤ a → a < stop → isUserReadable s (BitVec.ofNat 64 a) = true) := by
  have hmax : HK.USER_MAX = 2 ^ 47 := rfl
  have hsize : PAGE_SIZE = 4096 := rfl
  rw [hsize] at hpage hfuel
  -- Beyond the end there is nothing left to read.
  have hdone : ∀ {n page}, stop ≤ page → copyInLoop s stop (n + 1) page = .ok true := by
    intro n page h
    rw [copyInLoop, if_neg (Nat.not_lt.2 h)]
  induction fuel generalizing page with
  | zero =>
    refine ⟨true, hdone (by omega), ?_⟩
    simp only [true_iff]
    intro a h1 h2
    omega
  | succ fuel ih =>
    by_cases hlt : page < stop
    · by_cases hread : isUserReadable s (BitVec.ofNat 64 page) = true
      · have hnext : wrap64 (page + PAGE_SIZE) = page + 4096 :=
          wrap64_of_lt (by omega)
        obtain ⟨readable, hrun, hiff⟩ :=
          ih (by omega : (page + 4096) % 4096 = 0) (by omega)
        refine ⟨readable, ?_, hiff.trans ⟨fun h a h1 h2 => ?_, fun h a h1 => h a (by omega)⟩⟩
        · rw [copyInLoop, if_pos hlt, hread, hnext]
          exact hrun
        · -- The rest of the first page is read as its first byte is.
          by_cases hin : a < page + 4096
          · rw [← hread]
            refine Paging.isUserReadable_of_same_page s ?_
            rw [BitVec.toNat_ofNat, BitVec.toNat_ofNat, Nat.mod_eq_of_lt (by omega),
              Nat.mod_eq_of_lt (by omega), hsize]
            omega
          · exact h a (by omega) h2
      · refine ⟨false, ?_, ?_⟩
        · rw [copyInLoop, if_pos hlt, Bool.eq_false_of_not_eq_true hread]
          rfl
        · exact ⟨nofun, fun h => absurd (h page (Nat.le_refl page) hlt) hread⟩
    · refine ⟨true, hdone (by omega), ?_⟩
      simp only [true_iff]
      intro a h1 h2
      omega

/-- The ranges that `CopyIn` accepts. -/
def CanCopy (s : Paging.State) (source length : Nat) : Prop :=
  length = 0 ∨ HK.USER_MIN ≤ source ∧ source + length ≤ HK.USER_MAX ∧ Readable s source length

/-- The destination after `length` bytes were copied into it. -/
def copied (s : Paging.State) (destination : ByteMemory) (source length : Nat) : ByteMemory :=
  fun i => if i < length then byteAt s (BitVec.ofNat 64 (source + i)) else destination i

/-- The loop starts below the range, but in the page of its first byte. -/
theorem readable_iff_from_page (hlength : length ≠ 0) (hmax : source + length ≤ HK.USER_MAX) :
    (∀ a, source / PAGE_SIZE * PAGE_SIZE ≤ a → a < source + length →
        isUserReadable s (BitVec.ofNat 64 a) = true) ↔ Readable s source length := by
  have hmax' : HK.USER_MAX = 2 ^ 47 := rfl
  have hsize : PAGE_SIZE = 4096 := rfl
  rw [hsize]
  refine ⟨fun h a h1 h2 => h a (by omega) h2, fun h a h1 h2 => ?_⟩
  by_cases hin : source ≤ a
  · exact h a hin h2
  · rw [← h source (Nat.le_refl source) (by omega)]
    refine Paging.isUserReadable_of_same_page s ?_
    rw [BitVec.toNat_ofNat, BitVec.toNat_ofNat, Nat.mod_eq_of_lt (by omega),
      Nat.mod_eq_of_lt (by omega), hsize]
    omega

/-- No address of an accepted range wraps around. -/
theorem copy_eq_copied (destination : ByteMemory) (hmax : source + length ≤ HK.USER_MAX) :
    destination.copy 0 length (fun i => byteAt s (BitVec.ofNat 64 (wrap64 (source + i)))) =
      copied s destination source length := by
  have hmax' : HK.USER_MAX = 2 ^ 47 := rfl
  funext i
  unfold ByteMemory.copy copied
  by_cases hi : i < length
  · have hwrap : wrap64 (source + i) = source + i := wrap64_of_lt (by omega)
    rw [if_pos ⟨Nat.zero_le i, by omega⟩, if_pos hi]
    simp only [Nat.sub_zero, hwrap]
  · rw [if_neg (by omega), if_neg hi]

/-- `CopyIn` answers, it accepts the ranges of `CanCopy`, and it copies what
is there or nothing. -/
theorem copyIn_spec (s : Paging.State) (destination : ByteMemory) (source : Nat)
    (hlength : length < 2 ^ 64) :
    ∃ accepted, copyIn s destination source length =
        .ok (accepted, if accepted then copied s destination source length else destination) ∧
      (accepted = true ↔ CanCopy s source length) := by
  have hmax : HK.USER_MAX = 2 ^ 47 := rfl
  have hsize : PAGE_SIZE = 4096 := rfl
  unfold copyIn CanCopy
  by_cases hzero : length = 0
  · subst hzero
    exact ⟨true, rfl, iff_of_true rfl (.inl rfl)⟩
  rw [if_neg hzero]
  by_cases hhalf : inUserHalf source length = true
  · have hrange := (inUserHalf_iff hlength).1 hhalf
    have hstop : wrap64 (source + length) = source + length := wrap64_of_lt (by omega)
    have hstart : source / PAGE_SIZE * PAGE_SIZE % PAGE_SIZE = 0 := Nat.mul_mod_left _ _
    obtain ⟨readable, hrun, hiff⟩ :=
      copyInLoop_spec s ((source + length) / PAGE_SIZE + 1) hstart hrange.2 (by rw [hsize]; omega)
    rw [readable_iff_from_page hzero hrange.2] at hiff
    refine ⟨readable, ?_, hiff.trans ?_⟩
    · simp only [hhalf, hstop, hrun, copy_eq_copied destination hrange.2]
      cases readable <;> rfl
    · simp only [hzero, hrange, true_and, false_or]
  · have hrange := mt (inUserHalf_iff hlength).2 hhalf
    refine ⟨false, ?_, iff_of_false nofun ?_⟩
    · rw [Bool.eq_false_of_not_eq_true hhalf]
      rfl
    · rintro (h | ⟨h1, h2, -⟩)
      · exact hzero h
      · exact hrange ⟨h1, h2⟩

/-- What `CopyIn` accepts and copies is decided by the pages that a task can
read. -/
theorem canCopy_iff_of_same (h : SameUserPages s s') :
    CanCopy s' source length ↔ CanCopy s source length := by
  unfold CanCopy Readable
  simp only [h.readable]

theorem copied_eq_of_same (h : SameUserPages s s') (destination : ByteMemory)
    (hread : Readable s source length) :
    copied s' destination source length = copied s destination source length := by
  funext i
  unfold copied
  by_cases hi : i < length
  · rw [if_pos hi, if_pos hi, h.bytes _ (hread _ (Nat.le_add_right _ _) (by omega))]
  · rw [if_neg hi, if_neg hi]

/-- `CopyIn` is exact.  It accepts the empty range and the ranges of the user
half that can be read throughout.  Then the destination holds the bytes that
the addresses translate to and is otherwise as it was, and a refused call
writes none of it.  The answer and the bytes are those of every other kernel
state that has the same user pages. -/
theorem copy_in_exact (s : Paging.State) (destination : ByteMemory) (source length : BitVec 64) :
    ∃ accepted destination',
      copyIn s destination source.toNat length.toNat = .ok (accepted, destination') ∧
      (accepted = true ↔ length.toNat = 0 ∨
        HK.USER_MIN ≤ source.toNat ∧ source.toNat + length.toNat ≤ HK.USER_MAX ∧
        ∀ a, source.toNat ≤ a → a < source.toNat + length.toNat →
          isUserReadable s (BitVec.ofNat 64 a) = true) ∧
      (accepted = true → ∀ i, destination' i =
        if i < length.toNat then byteAt s (BitVec.ofNat 64 (source.toNat + i))
        else destination i) ∧
      (accepted = false → destination' = destination) ∧
      ∀ s', SameUserPages s s' →
        copyIn s' destination source.toNat length.toNat = .ok (accepted, destination') := by
  obtain ⟨accepted, hrun, hiff⟩ := copyIn_spec s destination source.toNat length.isLt
  refine ⟨accepted, _, hrun, hiff, fun h i => ?_, fun h => ?_, fun s' hsame => ?_⟩
  · rw [h]
    rfl
  · rw [h]
    rfl
  · obtain ⟨accepted', hrun', hiff'⟩ := copyIn_spec s' destination source.toNat length.isLt
    have heq : accepted' = accepted :=
      Bool.eq_iff_iff.2 (hiff'.trans ((canCopy_iff_of_same hsame).trans hiff.symm))
    rw [hrun', heq]
    cases accepted with
    | false => rfl
    | true =>
      have hread : Readable s source.toNat length.toNat := by
        rcases hiff.1 rfl with hzero | ⟨-, -, h⟩
        · intro a h1 h2
          omega
        · exact h
      simp only [if_true, copied_eq_of_same hsame destination hread]

end User

end X64HK
