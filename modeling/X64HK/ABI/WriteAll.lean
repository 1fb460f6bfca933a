import Mathlib.Data.List.TakeWhile
import X64HK.Arch.Syscall

/-!
# Writing a text of any length

A model of `hk_write` and `hk_write_all` in `ABI/C/HK.c` over the system call `Write`.
The kernel takes at most `HK_WRITE_MAX` bytes of a text, and the library calls it
until the text is written, a zero byte stops it or a chunk cannot be read.

A `System` has the two parts of the kernel that `Write` works with: the page tables that it
reads, and the window that it prints to with the screen behind it.

* `hkWriteAllLoop_pass` and `hkWriteAllLoop_fault` are the two things that a pass of the loop
  can do.
* `hkWriteAllLoop_text` is about a text that can be read, `hkWriteAllLoop_chunks` about
  whole chunks in front of one that cannot.
* `write_all_is_one_print` puts them together.
-/

namespace X64HK

open Cga (COLUMNS Screen DEFAULT_ATTRIBUTE)
open Paging (byteAt isUserReadable)
open Syscall (bytesAt textOf)
open TextWindow (print printed putChars StaysInside)
open User (CanCopy)

namespace ABI

structure System where
  paging : Paging.State
  output : TextWindow × Screen

/-- `hk_write`.  The call finds some kernel stack. -/
def hkWrite (system : System) (stack : ByteMemory) (handle buffer length : Nat) :
    Outcome (Int × System) := do
  let written ← Syscall.write system.paging stack system.output handle buffer length
  return (written.result, { system with output := written.output })

/-- The cast of a `hk_size_t` to a `hk_result_t`. -/
def hkResult (n : Nat) : Int := (BitVec.ofNat 64 n).toInt

/-- The loop of `hk_write_all`. -/
def hkWriteAllLoop (kernelStacks : Nat → ByteMemory) (handle buffer length : Nat) :
    Nat → Nat → System → Outcome (Int × System)
  | 0, _, _ => .error .outOfFuel
  | fuel + 1, written, system =>
    if written < length then do
      let (step, system) ←
        hkWrite system (kernelStacks fuel) handle (wrap64 (buffer + written)) (length - written)
      if step < 0 then return (step, system)
      else if step = 0 then return (hkResult written, system)
      else
        hkWriteAllLoop kernelStacks handle buffer length fuel (wrap64 (written + step.toNat)) system
    else .ok (hkResult written, system)

/-- `hk_write_all`.  Every pass but the last one writes a byte. -/
def hkWriteAll (system : System) (kernelStacks : Nat → ByteMemory) (handle buffer length : Nat) :
    Outcome (Int × System) :=
  hkWriteAllLoop kernelStacks handle buffer length (length + 1) 0 system

/-- `Vault.UserOutput` with its cursor: the first two rows of the screen, without the cursor of
the hardware. -/
def userOutput (column : Fin 80) (row : Fin 2) : TextWindow :=
  { fromColumn := 0, toColumn := COLUMNS, fromRow := 0, toRow := 2
    cursorColumn := column, cursorRow := row, isActive := false }

/-- The system after some characters were printed. -/
def System.put (system : System) (text : List (BitVec 8)) : System :=
  { system with output := putChars DEFAULT_ATTRIBUTE system.output text }

/-! ## The window of the tasks -/

def HasUserOutput (system : System) : Prop := ∃ column row, system.output.1 = userOutput column row

theorem userOutput_inside (column : Fin 80) (row : Fin 2) : (userOutput column row).Inside :=
  ⟨show 0 < 80 by decide, show 0 < 2 by decide, Nat.le_refl 80, show 2 ≤ 25 by decide⟩

variable {system : System}

theorem put_staysInside (h : HasUserOutput system) (text : List (BitVec 8)) :
    StaysInside system.output (system.put text).output := by
  obtain ⟨column, row, hwindow⟩ := h
  obtain ⟨paging, window, screen⟩ := system
  obtain rfl : window = userOutput column row := hwindow
  exact TextWindow.putChars_staysInside (userOutput_inside column row) column.isLt row.isLt _ _ _

theorem HasUserOutput.put (h : HasUserOutput system) (text : List (BitVec 8)) :
    HasUserOutput (system.put text) := by
  obtain ⟨harea, hactive, hcolumn, hrow, -, -⟩ := put_staysInside h text
  obtain ⟨column, row, hwindow⟩ := h
  rw [hwindow] at harea hactive
  rw [harea] at hcolumn hrow
  refine ⟨⟨_, hcolumn⟩, ⟨_, hrow⟩, ?_⟩
  generalize (system.put text).output.1 = window at *
  obtain ⟨area, cursorColumn, cursorRow, isActive⟩ := window
  obtain rfl : area = (userOutput column row).toArea := harea
  obtain rfl : isActive = false := hactive
  rfl

theorem print_eq_put (h : HasUserOutput system) (text : List (BitVec 8)) (length : Nat) :
    print DEFAULT_ATTRIBUTE system.output text length =
      (system.put (printed text length)).output := by
  obtain ⟨column, row, hwindow⟩ := h
  obtain ⟨paging, window, screen⟩ := system
  obtain rfl : window = userOutput column row := hwindow
  exact TextWindow.print_eq_putChars (userOutput_inside column row) column.isLt row.isLt rfl _ _ _ _

theorem put_paging (system : System) (text : List (BitVec 8)) :
    (system.put text).paging = system.paging := rfl

theorem put_put (system : System) (first second : List (BitVec 8)) :
    (system.put first).put second = system.put (first ++ second) := by
  unfold System.put
  rw [TextWindow.putChars_append]

/-! ## Texts in user memory -/

/-- A byte that a task can read. -/
structure UserByte (s : Paging.State) (a : Nat) : Prop where
  min_le : HK.USER_MIN ≤ a
  lt_max : a < HK.USER_MAX
  readable : isUserReadable s (BitVec.ofNat 64 a) = true

variable {s : Paging.State} {source length n buffer : Nat} {text : List (BitVec 8)}

theorem canCopy_iff : CanCopy s source length ↔ ∀ i < length, UserByte s (source + i) := by
  constructor
  · rintro (rfl | ⟨hmin, hmax, hreadable⟩) i hi
    · omega
    · exact ⟨by omega, by omega, hreadable _ (Nat.le_add_right ..) (by omega)⟩
  · intro h
    by_cases hzero : length = 0
    · exact Or.inl hzero
    · have hfirst := (h 0 (by omega)).min_le
      have hlast := (h (length - 1) (by omega)).lt_max
      refine Or.inr ⟨by omega, by omega, fun a hlo hhi => ?_⟩
      have hbyte := (h (a - source) (by omega)).readable
      rwa [Nat.add_sub_cancel' hlo] at hbyte

theorem bytesAt_add (s : Paging.State) (buffer m n : Nat) :
    bytesAt s buffer (m + n) = bytesAt s buffer m ++ bytesAt s (buffer + m) n := by
  unfold Syscall.bytesAt
  rw [List.range_add, List.map_append, List.map_map]
  refine congrArg _ (List.map_congr_left fun i _ => ?_)
  rw [Function.comp_apply, Nat.add_assoc]

theorem bytesAt_split (s : Paging.State) (buffer : Nat) (hn : n ≤ length) :
    bytesAt s buffer length = bytesAt s buffer n ++ bytesAt s (buffer + n) (length - n) := by
  rw [← bytesAt_add, Nat.add_sub_cancel' hn]

theorem ne_zero_of_mem_textOf {bytes : List (BitVec 8)} {c : BitVec 8} (h : c ∈ textOf bytes) :
    c ≠ 0 := by
  have := List.mem_takeWhile_imp h
  simpa using this

/-- All of a text is printed. -/
theorem printed_textOf (bytes : List (BitVec 8)) :
    printed (textOf bytes) (textOf bytes).length = textOf bytes := by
  unfold TextWindow.printed
  rw [List.take_length]
  exact List.takeWhile_eq_self_iff.2 fun c hc => decide_eq_true (ne_zero_of_mem_textOf hc)

/-- Bytes without a zero byte are a text. -/
theorem textOf_eq_self (hnonzero : ∀ i < length, byteAt s (BitVec.ofNat 64 (buffer + i)) ≠ 0) :
    textOf (bytesAt s buffer length) = bytesAt s buffer length := by
  refine List.takeWhile_eq_self_iff.2 fun c hc => decide_eq_true ?_
  obtain ⟨i, hi, rfl⟩ := List.mem_map.1 hc
  exact hnonzero i (List.mem_range.1 hi)

/-- What a chunk has of the text of the rest. -/
theorem textOf_bytesAt (s : Paging.State) (buffer : Nat) (hn : n ≤ length) :
    textOf (bytesAt s buffer n) = (textOf (bytesAt s buffer length)).take n := by
  unfold Syscall.textOf
  rw [List.take_takeWhile, bytesAt_split s buffer hn,
    List.take_left' (Syscall.length_bytesAt s buffer n)]

/-- The bytes in front of a place in the text are text. -/
theorem take_textOf_bytesAt (s : Paging.State) (buffer : Nat)
    (hn : n ≤ (textOf (bytesAt s buffer length)).length) :
    (textOf (bytesAt s buffer length)).take n = bytesAt s buffer n := by
  have hle := Syscall.length_textOf_le (bytesAt s buffer length)
  rw [Syscall.length_bytesAt] at hle
  have htext := textOf_bytesAt s buffer (show n ≤ length by omega)
  have hlength : (textOf (bytesAt s buffer n)).length = (bytesAt s buffer n).length := by
    rw [htext, List.length_take, Syscall.length_bytesAt]
    omega
  rw [← htext]
  exact (List.takeWhile_prefix _).eq_of_length hlength

/-- The text goes on behind a chunk of it. -/
theorem textOf_rest (htext : text = textOf (bytesAt s buffer length)) (n : Nat) :
    text = text.take n ++ textOf (bytesAt s (buffer + (text.take n).length)
      (length - (text.take n).length)) := by
  have htake : text.take n = text.take (text.take n).length :=
    List.prefix_iff_eq_take.1 (List.take_prefix n text)
  have hm : (text.take n).length ≤ text.length := List.length_take_le' ..
  rw [htake]
  generalize (text.take n).length = m at *
  subst htext
  have hle := Syscall.length_textOf_le (bytesAt s buffer length)
  rw [Syscall.length_bytesAt] at hle
  rw [take_textOf_bytesAt s buffer hm, Syscall.length_bytesAt]
  have hnonzero : ∀ c ∈ bytesAt s buffer m, decide (c ≠ 0) = true := fun c hc =>
    decide_eq_true (ne_zero_of_mem_textOf
      (List.mem_of_mem_take (take_textOf_bytesAt s buffer hm ▸ hc)))
  rw [bytesAt_split s buffer (show m ≤ length by omega)]
  exact List.takeWhile_append_of_pos hnonzero

/-! ## One pass of the loop -/

section

variable {kernelStacks : Nat → ByteMemory} {written fuel count : Nat}

theorem hkWrite_text (h : HasUserOutput system) (hcount : count = min length HK.WRITE_MAX)
    (hcopy : CanCopy system.paging source count) (stack : ByteMemory) :
    hkWrite system stack HK.STDOUT source length =
      .ok ((textOf (bytesAt system.paging source count)).length,
        system.put (textOf (bytesAt system.paging source count))) := by
  obtain ⟨reads, hwrite, -⟩ := Syscall.write_eq_ok hcount hcopy stack system.output
  unfold hkWrite
  rw [hwrite, print_eq_put h, printed_textOf]
  rfl

theorem hkWrite_fault (hcount : count = min length HK.WRITE_MAX)
    (hcopy : ¬CanCopy system.paging source count) (stack : ByteMemory) :
    hkWrite system stack HK.STDOUT source length = .ok (-HK.EFAULT, system) := by
  unfold hkWrite
  rw [Syscall.write_eq_fault hcount hcopy]
  rfl

/-- A pass that prints some of the text, or nothing because it ends here. -/
theorem hkWriteAllLoop_pass (h : HasUserOutput system) (hwritten : written < length)
    (hlength : length < 2 ^ 63) (hsource : source = wrap64 (buffer + written))
    (hcount : count = min (length - written) HK.WRITE_MAX)
    (hcopy : CanCopy system.paging source count)
    (htext : text = textOf (bytesAt system.paging source count)) :
    hkWriteAllLoop kernelStacks HK.STDOUT buffer length (fuel + 1) written system =
      if text = [] then .ok (hkResult written, system)
      else hkWriteAllLoop kernelStacks HK.STDOUT buffer length fuel (written + text.length)
        (system.put text) := by
  have hle : text.length ≤ count := by
    have := Syscall.length_textOf_le (bytesAt system.paging source count)
    rw [Syscall.length_bytesAt] at this
    rw [htext]
    exact this
  have hcall := hkWrite_text h hcount hcopy (kernelStacks fuel)
  rw [← htext] at hcall
  rw [hkWriteAllLoop, if_pos hwritten, ← hsource, hcall]
  simp only [bind, Except.bind]
  rw [if_neg (by omega)]
  by_cases hempty : text = []
  · subst hempty
    rfl
  · have hpositive := List.length_pos_iff.2 hempty
    rw [if_neg (by omega), if_neg hempty, Int.toNat_natCast, wrap64_of_lt (by omega)]

theorem hkWriteAllLoop_fault (hwritten : written < length)
    (hsource : source = wrap64 (buffer + written))
    (hcount : count = min (length - written) HK.WRITE_MAX)
    (hcopy : ¬CanCopy system.paging source count) :
    hkWriteAllLoop kernelStacks HK.STDOUT buffer length (fuel + 1) written system =
      .ok (-HK.EFAULT, system) := by
  rw [hkWriteAllLoop, if_pos hwritten, ← hsource, hkWrite_fault hcount hcopy]
  rfl

/-! ## Runs of the loop -/

/-- The loop ends for any buffer, and all that it does is print. -/
theorem hkWriteAllLoop_returns (h : HasUserOutput system) (hwritten : written ≤ length)
    (hlength : length < 2 ^ 63) (hfuel : length - written < fuel) :
    ∃ result text, hkWriteAllLoop kernelStacks HK.STDOUT buffer length fuel written system =
      .ok (result, system.put text) := by
  induction fuel generalizing written system with
  | zero => omega
  | succ fuel ih =>
    by_cases hend : written < length
    · by_cases hcopy : CanCopy system.paging (wrap64 (buffer + written))
        (min (length - written) HK.WRITE_MAX)
      · rw [hkWriteAllLoop_pass h hend hlength rfl rfl hcopy rfl]
        have hle := Syscall.length_textOf_le (bytesAt system.paging (wrap64 (buffer + written))
          (min (length - written) HK.WRITE_MAX))
        rw [Syscall.length_bytesAt] at hle
        generalize textOf (bytesAt system.paging (wrap64 (buffer + written))
          (min (length - written) HK.WRITE_MAX)) = text at *
        by_cases hempty : text = []
        · rw [if_pos hempty]
          exact ⟨_, [], rfl⟩
        · have hpositive := List.length_pos_iff.2 hempty
          rw [if_neg hempty]
          obtain ⟨result, rest, hrun⟩ :=
            ih (h.put text) (show written + text.length ≤ length by omega) (by omega)
          rw [put_put] at hrun
          exact ⟨result, _, hrun⟩
      · rw [hkWriteAllLoop_fault hend rfl rfl hcopy]
        exact ⟨_, [], rfl⟩
    · rw [hkWriteAllLoop, if_neg hend]
      exact ⟨_, [], rfl⟩

/-- A text that can be read to its end is printed to its end. -/
theorem hkWriteAllLoop_text (h : HasUserOutput system) (hwritten : written ≤ length)
    (hlength : length < 2 ^ 63) (hfuel : length - written < fuel)
    (hreadable : ∀ i < length, UserByte system.paging (buffer + i))
    (htext : text = textOf (bytesAt system.paging (buffer + written) (length - written))) :
    hkWriteAllLoop kernelStacks HK.STDOUT buffer length fuel written system =
      .ok (hkResult (written + text.length), system.put text) := by
  induction fuel generalizing written system text with
  | zero => omega
  | succ fuel ih =>
    by_cases hend : written < length
    · have hmax : HK.USER_MAX = 2 ^ 47 := rfl
      have hsource : buffer + written = wrap64 (buffer + written) := by
        have hbelow := (hreadable written hend).lt_max
        exact (wrap64_of_lt (by omega)).symm
      generalize hcount : min (length - written) HK.WRITE_MAX = count
      have hcopy : CanCopy system.paging (buffer + written) count :=
        canCopy_iff.2 fun i hi => by
          rw [Nat.add_assoc]
          exact hreadable _ (by omega)
      rw [hkWriteAllLoop_pass h hend hlength hsource hcount.symm hcopy rfl,
        textOf_bytesAt _ _ (show count ≤ length - written by omega), ← htext]
      by_cases hempty : text.take count = []
      · have hpositive : 0 < HK.WRITE_MAX := by decide
        obtain rfl : text = [] :=
          (List.take_eq_nil_iff.1 hempty).resolve_left (by omega)
        rw [if_pos hempty]
        rfl
      · rw [if_neg hempty]
        have hle := Syscall.length_textOf_le
          (bytesAt system.paging (buffer + written) (length - written))
        rw [Syscall.length_bytesAt, ← htext] at hle
        have htake : (text.take count).length ≤ text.length := List.length_take_le' ..
        have hpositive := List.length_pos_iff.2 hempty
        have hrest := textOf_rest htext count
        rw [Nat.add_assoc, Nat.sub_sub] at hrest
        rw [ih (h.put _) (by omega) (by omega) hreadable rfl, put_put]
        show Except.ok (hkResult (_ + (textOf (bytesAt system.paging _ _)).length),
          system.put (_ ++ textOf (bytesAt system.paging _ _))) = _
        rw [← hrest, Nat.add_assoc, ← List.length_append, ← hrest]
    · obtain rfl : written = length := by omega
      rw [hkWriteAllLoop, if_neg hend, htext, Nat.sub_self]
      rfl

/-- Chunks without a zero byte that can be read. -/
theorem hkWriteAllLoop_chunks (h : HasUserOutput system) (hlength : length < 2 ^ 63) {k : Nat}
    (hbelow : written + k * HK.WRITE_MAX ≤ length)
    (hreadable : ∀ i < written + k * HK.WRITE_MAX, UserByte system.paging (buffer + i))
    (hnonzero : ∀ i < written + k * HK.WRITE_MAX,
      byteAt system.paging (BitVec.ofNat 64 (buffer + i)) ≠ 0) :
    hkWriteAllLoop kernelStacks HK.STDOUT buffer length (fuel + k) written system =
      hkWriteAllLoop kernelStacks HK.STDOUT buffer length fuel (written + k * HK.WRITE_MAX)
        (system.put (bytesAt system.paging (buffer + written) (k * HK.WRITE_MAX))) := by
  induction k generalizing written system with
  | zero =>
    rw [Nat.zero_mul]
    rfl
  | succ k ih =>
    have hmax : HK.WRITE_MAX = 1024 := rfl
    rw [Nat.succ_mul, Nat.add_comm (k * _), ← Nat.add_assoc] at *
    have hsource : buffer + written = wrap64 (buffer + written) := by
      have hlast := (hreadable written (by omega)).lt_max
      rw [show HK.USER_MAX = 2 ^ 47 from rfl] at hlast
      exact (wrap64_of_lt (by omega)).symm
    have hcount : HK.WRITE_MAX = min (length - written) HK.WRITE_MAX := by omega
    have hcopy : CanCopy system.paging (buffer + written) HK.WRITE_MAX :=
      canCopy_iff.2 fun i hi => by
        rw [Nat.add_assoc]
        exact hreadable _ (by omega)
    have hfull : textOf (bytesAt system.paging (buffer + written) HK.WRITE_MAX) =
        bytesAt system.paging (buffer + written) HK.WRITE_MAX :=
      textOf_eq_self fun i hi => by
        rw [Nat.add_assoc]
        exact hnonzero _ (by omega)
    have hempty : bytesAt system.paging (buffer + written) HK.WRITE_MAX ≠ [] :=
      List.ne_nil_of_length_eq_add_one (Syscall.length_bytesAt ..)
    rw [← Nat.add_assoc, hkWriteAllLoop_pass h (by omega) hlength hsource hcount hcopy hfull.symm,
      if_neg hempty, Syscall.length_bytesAt, ih (h.put _) hbelow hreadable hnonzero, put_paging,
      put_put, bytesAt_add, Nat.add_assoc buffer]

end

/-! ## The whole call -/

/-- Only the window and the cells behind it have changed. -/
structure OnlyPrinted (before after : System) : Prop where
  paging : after.paging = before.paging
  window : HasUserOutput after
  cells : ∀ offset, ¬before.output.1.Holds offset →
    after.output.2.cells offset = before.output.2.cells offset
  cursor : after.output.2.cursor = before.output.2.cursor

/-- The first chunk that cannot be read is number `k`, and no zero byte is in front of it. -/
structure FaultsAt (s : Paging.State) (buffer length k : Nat) : Prop where
  below : k * HK.WRITE_MAX < length
  readable : ∀ i < k * HK.WRITE_MAX, UserByte s (buffer + i)
  nonzero : ∀ i < k * HK.WRITE_MAX, byteAt s (BitVec.ofNat 64 (buffer + i)) ≠ 0
  fault : ∃ i, k * HK.WRITE_MAX ≤ i ∧ i < (k + 1) * HK.WRITE_MAX ∧ i < length ∧
    ¬UserByte s (buffer + i)

/-- `Print` of bytes without a zero byte. -/
theorem print_bytesAt (h : HasUserOutput system)
    (hnonzero : ∀ i < n, byteAt s (BitVec.ofNat 64 (buffer + i)) ≠ 0) :
    print DEFAULT_ATTRIBUTE system.output (bytesAt s buffer n) n =
      (system.put (bytesAt s buffer n)).output := by
  have hprinted := printed_textOf (bytesAt s buffer n)
  rw [textOf_eq_self hnonzero, Syscall.length_bytesAt] at hprinted
  rw [print_eq_put h, hprinted]

theorem hkResult_eq (hn : n < 2 ^ 63) : hkResult n = n := by
  have hnat : (BitVec.ofNat 64 n).toNat = n := Paging.toNat_ofNat_of_lt (by omega)
  rw [hkResult, BitVec.toInt_eq_toNat_of_lt (by omega), hnat]

/-- The text ends at the first zero byte, or at the end of the buffer. -/
theorem textOf_bytesAt_spec (s : Paging.State) (buffer length : Nat)
    (hn : n = (textOf (bytesAt s buffer length)).length) :
    n ≤ length ∧ (∀ i < n, byteAt s (BitVec.ofNat 64 (buffer + i)) ≠ 0) ∧
      (n = length ∨ byteAt s (BitVec.ofNat 64 (buffer + n)) = 0) ∧
      textOf (bytesAt s buffer length) = bytesAt s buffer n := by
  obtain ⟨hnonzero, hend⟩ := Syscall.textOf_spec (bytesAt s buffer length)
  have hle := Syscall.length_textOf_le (bytesAt s buffer length)
  have htake := take_textOf_bytesAt s buffer (Nat.le_of_eq hn)
  rw [hn, List.take_length, ← hn] at htake
  rw [Syscall.length_bytesAt, ← hn] at hle hend
  refine ⟨hle, fun i hi => ?_, ?_, htake⟩
  · obtain ⟨c, hc, hget⟩ := hnonzero i (by omega)
    rw [Syscall.getElem?_bytesAt (by omega)] at hget
    rw [Option.some.inj hget]
    exact hc
  · by_cases hall : n = length
    · exact Or.inl hall
    · have hzero := hend.resolve_left hall
      rw [Syscall.getElem?_bytesAt (by omega)] at hzero
      exact Or.inr (Option.some.inj hzero)

/-- The run up to the chunk that cannot be read. -/
theorem hkWriteAll_fault (h : HasUserOutput system) {k : Nat} (hbuffer : buffer < 2 ^ 64)
    (hlength : length < 2 ^ 63) (hfaults : FaultsAt system.paging buffer length k)
    (kernelStacks : Nat → ByteMemory) :
    hkWriteAll system kernelStacks HK.STDOUT buffer length =
      .ok (-HK.EFAULT, system.put (bytesAt system.paging buffer (k * HK.WRITE_MAX))) := by
  obtain ⟨hbelow, hreadable, hnonzero, i, hlo, hhi, hlt, hfault⟩ := hfaults
  have hmax : HK.WRITE_MAX = 1024 := rfl
  have huser : HK.USER_MAX = 2 ^ 47 := rfl
  have hchunks : k ≤ k * HK.WRITE_MAX := Nat.le_mul_of_pos_right _ (by decide)
  have hfuel : length + 1 = length - k + 1 + k := by omega
  rw [Nat.succ_mul] at hhi
  rw [← Nat.zero_add (k * HK.WRITE_MAX)] at hbelow hreadable hnonzero hlo
  -- the address of the chunk has not wrapped around
  have hsource : buffer + (0 + k * HK.WRITE_MAX) = wrap64 (buffer + (0 + k * HK.WRITE_MAX)) := by
    by_cases hzero : k = 0
    · subst hzero
      exact (wrap64_of_lt (by omega)).symm
    · have hlast := (hreadable (k * HK.WRITE_MAX - 1) (by omega)).lt_max
      exact (wrap64_of_lt (by omega)).symm
  unfold hkWriteAll
  rw [hfuel, hkWriteAllLoop_chunks h hlength (Nat.le_of_lt hbelow) hreadable hnonzero]
  refine hkWriteAllLoop_fault hbelow hsource rfl fun hcopy => hfault ?_
  have hbyte := canCopy_iff.1 hcopy (i - (0 + k * HK.WRITE_MAX)) (by omega)
  rwa [Nat.add_assoc, Nat.add_sub_cancel' hlo] at hbyte

/-- `hk_write_all` is one call of `Print`. -/
theorem write_all_is_one_print (s : Paging.State) (screen : Screen) (column : Fin 80)
    (row : Fin 2) (kernelStacks : Nat → ByteMemory) (buffer length : BitVec 64)
    (hlength : length.toNat < 2 ^ 63) :
    ∃ result after, hkWriteAll ⟨s, userOutput column row, screen⟩ kernelStacks HK.STDOUT
        buffer.toNat length.toNat = .ok (result, after) ∧
      OnlyPrinted ⟨s, userOutput column row, screen⟩ after ∧
      ((∀ i < length.toNat, UserByte s (buffer.toNat + i)) →
        ∃ n ≤ length.toNat,
          (∀ i < n, byteAt s (BitVec.ofNat 64 (buffer.toNat + i)) ≠ 0) ∧
          (n = length.toNat ∨ byteAt s (BitVec.ofNat 64 (buffer.toNat + n)) = 0) ∧
          result = n ∧
          after.output = print DEFAULT_ATTRIBUTE (userOutput column row, screen)
            (bytesAt s buffer.toNat n) n) ∧
      ∀ k, FaultsAt s buffer.toNat length.toNat k →
        result = -HK.EFAULT ∧
        after.output = print DEFAULT_ATTRIBUTE (userOutput column row, screen)
          (bytesAt s buffer.toNat (k * HK.WRITE_MAX)) (k * HK.WRITE_MAX) := by
  have h : HasUserOutput ⟨s, userOutput column row, screen⟩ := ⟨column, row, rfl⟩
  generalize hsystem : (⟨s, userOutput column row, screen⟩ : System) = system at *
  obtain rfl : s = system.paging := by rw [← hsystem]
  rw [show (userOutput column row, screen) = system.output by rw [← hsystem]]
  have hfuel : length.toNat - 0 < length.toNat + 1 := by omega
  obtain ⟨result, text, hrun⟩ : ∃ result text, hkWriteAll system kernelStacks HK.STDOUT
      buffer.toNat length.toNat = .ok (result, system.put text) :=
    hkWriteAllLoop_returns h (Nat.zero_le _) hlength hfuel
  refine ⟨result, system.put text, hrun, ?_, fun hreadable => ?_, fun k hfaults => ?_⟩
  · have hstays := put_staysInside h text
    exact ⟨rfl, h.put text, hstays.cells, hstays.cursor⟩
  · have hwhole : hkWriteAll system kernelStacks HK.STDOUT buffer.toNat length.toNat = _ :=
      hkWriteAllLoop_text h (Nat.zero_le _) hlength hfuel hreadable rfl
    rw [hrun, Nat.zero_add, Nat.add_zero, Nat.sub_zero] at hwhole
    obtain ⟨rfl, hput⟩ := Prod.mk.inj (Except.ok.inj hwhole)
    obtain ⟨hle, hnonzero, hend, htext⟩ :=
      textOf_bytesAt_spec system.paging buffer.toNat length.toNat rfl
    refine ⟨_, hle, hnonzero, hend, hkResult_eq (by omega), ?_⟩
    rw [print_bytesAt h hnonzero, ← htext, hput]
  · rw [hkWriteAll_fault h buffer.isLt hlength hfaults] at hrun
    obtain ⟨rfl, hput⟩ := Prod.mk.inj (Except.ok.inj hrun)
    refine ⟨rfl, ?_⟩
    rw [print_bytesAt h hfaults.nonzero, ← hput]

/-- A text of 2000 letters is written whole, and one that runs over the end of its page
stops there. -/
theorem write_all_is_one_print_letters :
    ∃ k k', bootKernel roomyHandover (fun _ => 0) = .ok (k, 0x120000) ∧
      User.load k "init" Syscall.letterImage 0x1000 =
        .ok (.ok ⟨"init", 0x100000000, HK.USER_STACK_TOP⟩, k') ∧
      ∀ screen kernelStacks,
        (∃ after, hkWriteAll ⟨k'.paging, userOutput 0 0, screen⟩ kernelStacks HK.STDOUT
          0x100000400 2000 = .ok (2000, after)) ∧
        ∃ after, hkWriteAll ⟨k'.paging, userOutput 0 0, screen⟩ kernelStacks HK.STDOUT
            0x100000400 5000 = .ok (-HK.EFAULT, after) ∧
          after.output = print DEFAULT_ATTRIBUTE (userOutput 0 0, screen)
            (bytesAt k'.paging 0x100000400 3072) 3072 := by
  obtain ⟨k, k', hboot, hload, hletters⟩ := Syscall.load_letter
  have hbyte : ∀ i < 3072, UserByte k'.paging (0x100000400 + i) := by
    intro i hi
    have hread := hletters.readable (0x400 + i) (by omega)
    rw [← Nat.add_assoc] at hread
    refine ⟨?_, ?_, hread⟩
    · rw [show HK.USER_MIN = 0x1000 from rfl]
      omega
    · rw [show HK.USER_MAX = 2 ^ 47 from rfl]
      omega
  have hletter : ∀ i < 3072, byteAt k'.paging (BitVec.ofNat 64 (0x100000400 + i)) ≠ 0 := by
    intro i hi
    have hletter := hletters.letter (0x400 + i) (by omega) (by omega)
    rw [← Nat.add_assoc] at hletter
    rw [hletter]
    decide
  refine ⟨k, k', hboot, hload, fun screen kernelStacks => ⟨?_, ?_⟩⟩
  · obtain ⟨result, after, hrun, -, htext, -⟩ :=
      write_all_is_one_print k'.paging screen 0 0 kernelStacks 0x100000400 2000 (by decide)
    obtain ⟨n, hle, -, hend, rfl, -⟩ := htext fun i hi => hbyte i (Nat.lt_trans hi (by decide))
    have hle' : n ≤ 2000 := hle
    obtain rfl : n = 2000 := hend.resolve_right (hletter n (by omega))
    exact ⟨after, hrun⟩
  · obtain ⟨result, after, hrun, -, -, hfault⟩ :=
      write_all_is_one_print k'.paging screen 0 0 kernelStacks 0x100000400 5000 (by decide)
    have hbehind : ¬UserByte k'.paging 0x100001000 := fun h =>
      absurd (hletters.behind.symm.trans h.readable) (by decide)
    obtain ⟨rfl, houtput⟩ := hfault 3 ⟨by decide, hbyte, hletter, 3072, by decide, by decide,
      by decide, hbehind⟩
    exact ⟨after, hrun, houtput⟩

end ABI

end X64HK
