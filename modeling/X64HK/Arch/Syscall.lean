import X64HK.Arch.TextWindow
import X64HK.User.CopyIn
import X64HK.User.LoadedImage

/-!
# The system call `Write`

A model of `Write` in `Kernel/Arch/Syscall.cpp`.  The bytes of the task are copied to a
buffer on the kernel stack, counted up to the first zero byte and printed from there.

The buffer is a memory of its own, byte `i` of it at address `i`.  What stands behind its
`HK_WRITE_MAX` bytes is other data on the stack, and what stands in it before the copy
is left from earlier calls, so a call is given any such memory.  The places that it reads
are part of its result.

* `write_eq_ok`: the answer and the output of a call.
* `write_reads_iff`: `Print` looks at the byte behind its text, and with a full chunk
  this is the first one behind the buffer.
* `full_chunk_reads_behind`: a task that prints such a chunk.
-/

namespace X64HK

open Cga (Screen DEFAULT_ATTRIBUTE)
open Paging (Addressable byteAt)
open TextWindow (print printText printed)
open User (CanCopy IsSegment copied copyIn segmentContent)

namespace Syscall

/-- What a call of `Write` leaves behind. -/
structure Written where
  result : Int
  output : TextWindow × Screen
  /-- The places of the buffer that were read. -/
  reads : List Nat

/-- The loop that counts the bytes in front of the first zero byte, with `left` bytes
to go. -/
def countText (buffer : ByteMemory) : Nat → Nat → Nat × List Nat
  | written, 0 => (written, [])
  | written, left + 1 =>
    if buffer written ≠ 0 then
      let (total, reads) := countText buffer (written + 1) left
      (total, written :: reads)
    else (written, [written])

/-- `Write`. -/
def write (s : Paging.State) (stack : ByteMemory) (output : TextWindow × Screen)
    (handle buffer length : Nat) : Outcome Written :=
  if handle ≠ HK.STDOUT then .ok ⟨-HK.EBADF, output, []⟩
  else do
    let length := min length HK.WRITE_MAX
    let (accepted, stack) ← copyIn s stack buffer length
    if !accepted then return ⟨-HK.EFAULT, output, []⟩
    else
      let (written, counted) := countText stack 0 length
      let (output, printed) := printText DEFAULT_ATTRIBUTE output stack written
      return ⟨written, output, counted ++ printed⟩

/-! ## What a call does -/

/-- The bytes of a range of user memory. -/
def bytesAt (s : Paging.State) (buffer length : Nat) : List (BitVec 8) :=
  (List.range length).map fun i => byteAt s (BitVec.ofNat 64 (buffer + i))

/-- The bytes in front of the first zero byte. -/
def textOf (bytes : List (BitVec 8)) : List (BitVec 8) := bytes.takeWhile (· ≠ 0)

theorem countText_fst (buffer : ByteMemory) (left : Nat) : ∀ written,
    (countText buffer written left).1 =
      written + (textOf ((List.range' written left).map buffer)).length := by
  induction left with
  | zero => exact fun written => rfl
  | succ left ih =>
    intro written
    rw [countText, List.range'_succ, List.map_cons, textOf]
    by_cases hzero : buffer written = 0
    · rw [if_neg (not_not.2 hzero), List.takeWhile_cons_of_neg (by simpa using hzero)]
      rfl
    · rw [if_pos hzero, List.takeWhile_cons_of_pos (by simpa using hzero), List.length_cons]
      have hrest := ih (written + 1)
      rw [textOf] at hrest
      dsimp only
      omega

/-- Counting does not leave the bytes that were copied. -/
theorem countText_reads (buffer : ByteMemory) {i : Nat} (left : Nat) : ∀ written,
    i ∈ (countText buffer written left).2 → i < written + left := by
  induction left with
  | zero => exact fun written hi => absurd hi List.not_mem_nil
  | succ left ih =>
    intro written hi
    rw [countText] at hi
    split at hi
    · rcases List.mem_cons.1 hi with rfl | hrest
      · omega
      · have := ih (written + 1) hrest
        omega
    · rw [List.mem_singleton.1 hi]
      omega

theorem length_textOf_le (bytes : List (BitVec 8)) : (textOf bytes).length ≤ bytes.length :=
  (List.takeWhile_prefix _).length_le

/-- The text ends at the end of the bytes or in front of a zero byte. -/
theorem textOf_spec (bytes : List (BitVec 8)) :
    (∀ i < (textOf bytes).length, ∃ c ≠ 0, bytes[i]? = some c) ∧
      ((textOf bytes).length = bytes.length ∨ bytes[(textOf bytes).length]? = some 0) := by
  induction bytes with
  | nil => exact ⟨nofun, Or.inl rfl⟩
  | cons c bytes ih =>
    unfold textOf
    by_cases hzero : c = 0
    · rw [List.takeWhile_cons_of_neg (by simpa using hzero), hzero]
      exact ⟨nofun, Or.inr rfl⟩
    · rw [List.takeWhile_cons_of_pos (by simpa using hzero), List.length_cons, List.length_cons]
      refine ⟨fun i hi => ?_, ih.2.imp (congrArg (· + 1)) fun h => h⟩
      cases i with
      | zero => exact ⟨c, hzero, rfl⟩
      | succ i => exact ih.1 i (Nat.lt_of_succ_lt_succ hi)

variable {s : Paging.State} {stack : ByteMemory} {output : TextWindow × Screen}
  {buffer length : Nat}

/-- The buffer has the bytes of the task. -/
theorem map_copied (s : Paging.State) (stack : ByteMemory) (buffer length : Nat) :
    (List.range length).map (copied s stack buffer length) = bytesAt s buffer length := by
  refine List.map_congr_left fun i hi => ?_
  exact if_pos (List.mem_range.1 hi)

theorem length_bytesAt (s : Paging.State) (buffer length : Nat) :
    (bytesAt s buffer length).length = length := by
  rw [bytesAt, List.length_map, List.length_range]

theorem getElem?_bytesAt {i : Nat} (hi : i < length) :
    (bytesAt s buffer length)[i]? = some (byteAt s (BitVec.ofNat 64 (buffer + i))) := by
  rw [bytesAt, List.getElem?_map, List.getElem?_range hi]
  rfl

theorem take_textOf (bytes : List (BitVec 8)) : bytes.take (textOf bytes).length = textOf bytes :=
  (List.prefix_iff_eq_take.1 (List.takeWhile_prefix _)).symm

/-- What is printed from the buffer is the text of the bytes. -/
theorem map_copied_text (s : Paging.State) (stack : ByteMemory) (buffer length : Nat) :
    (List.range (textOf (bytesAt s buffer length)).length).map (copied s stack buffer length) =
      textOf (bytesAt s buffer length) := by
  have hle := length_textOf_le (bytesAt s buffer length)
  rw [length_bytesAt] at hle
  calc (List.range (textOf (bytesAt s buffer length)).length).map (copied s stack buffer length)
      = ((List.range length).map (copied s stack buffer length)).take
          (textOf (bytesAt s buffer length)).length := by
        rw [← List.map_take, List.take_range, Nat.min_eq_left hle]
    _ = textOf (bytesAt s buffer length) := by rw [map_copied, take_textOf]

/-- The bytes of the text are not zero in the buffer either. -/
theorem copied_ne_zero {i : Nat} (hi : i < (textOf (bytesAt s buffer length)).length) :
    copied s stack buffer length i ≠ 0 := by
  obtain ⟨c, hc, hget⟩ := (textOf_spec (bytesAt s buffer length)).1 i hi
  have hlt : i < length := by
    have hle := length_textOf_le (bytesAt s buffer length)
    rw [length_bytesAt] at hle
    omega
  rw [getElem?_bytesAt hlt] at hget
  rw [copied, if_pos hlt, Option.some.inj hget]
  exact hc

/-- A call with a good buffer.  Of the places behind the buffer it reads at most the
first one. -/
theorem write_eq_ok {count : Nat} (hcount : count = min length HK.WRITE_MAX)
    (hcopy : CanCopy s buffer count) (stack : ByteMemory) (output : TextWindow × Screen) :
    ∃ reads, write s stack output HK.STDOUT buffer length =
        .ok ⟨(textOf (bytesAt s buffer count)).length,
          print DEFAULT_ATTRIBUTE output (textOf (bytesAt s buffer count))
            (textOf (bytesAt s buffer count)).length, reads⟩ ∧
      ∀ i, HK.WRITE_MAX ≤ i → (i ∈ reads ↔ i ≤ (textOf (bytesAt s buffer count)).length) := by
  have hmax : count ≤ HK.WRITE_MAX := hcount ▸ Nat.min_le_right ..
  have hlt : count < 2 ^ 64 := Nat.lt_of_le_of_lt hmax (by decide)
  obtain ⟨accepted, hcall, haccepted⟩ := User.copyIn_spec s stack buffer hlt
  obtain rfl := haccepted.2 hcopy
  have htext : (countText (copied s stack buffer count) 0 count).1 =
      (textOf (bytesAt s buffer count)).length := by
    rw [countText_fst, Nat.zero_add, ← List.range_eq_range', map_copied]
  have hprint := TextWindow.printText_fst DEFAULT_ATTRIBUTE output (copied s stack buffer count)
    (textOf (bytesAt s buffer count)).length
  rw [map_copied_text] at hprint
  refine ⟨(countText (copied s stack buffer count) 0 count).2 ++
    (printText DEFAULT_ATTRIBUTE output (copied s stack buffer count)
      (textOf (bytesAt s buffer count)).length).2, ?_, fun i hi => ?_⟩
  · unfold write
    rw [if_neg (not_not.2 rfl), ← hcount]
    dsimp only
    rw [hcall]
    simp only [bind, Except.bind, if_true, Bool.not_true, Bool.false_eq_true, if_false, htext,
      hprint]
    rfl
  · rw [List.mem_append]
    constructor
    · rintro (hcounted | hprinted)
      · have := countText_reads _ count 0 hcounted
        omega
      · have h := (TextWindow.mem_printFrom _ _ _ _ _).1 hprinted
        omega
    · intro hle
      refine Or.inr ((TextWindow.mem_printFrom _ _ _ _ _).2 ⟨Nat.zero_le _, by omega, ?_⟩)
      exact fun j _ hj => copied_ne_zero (by omega)

/-- A call with a bad one. -/
theorem write_eq_fault {count : Nat} (hcount : count = min length HK.WRITE_MAX)
    (hcopy : ¬CanCopy s buffer count) (stack : ByteMemory) (output : TextWindow × Screen) :
    write s stack output HK.STDOUT buffer length = .ok ⟨-HK.EFAULT, output, []⟩ := by
  have hmax : count ≤ HK.WRITE_MAX := hcount ▸ Nat.min_le_right ..
  have hlt : count < 2 ^ 64 := Nat.lt_of_le_of_lt hmax (by decide)
  obtain ⟨accepted, hcall, haccepted⟩ := User.copyIn_spec s stack buffer hlt
  obtain rfl := Bool.eq_false_iff.2 (mt haccepted.1 hcopy)
  unfold write
  rw [if_neg (not_not.2 rfl), ← hcount]
  dsimp only
  rw [hcall]
  rfl

/-! ## The end of the buffer -/

/-- The task passes a whole chunk without a zero byte. -/
structure FullChunk (s : Paging.State) (handle buffer length : Nat) : Prop where
  handle : handle = HK.STDOUT
  length : HK.WRITE_MAX ≤ length
  readable : CanCopy s buffer HK.WRITE_MAX
  nonzero : ∀ i < HK.WRITE_MAX, byteAt s (BitVec.ofNat 64 (buffer + i)) ≠ 0

/-- The text fills the buffer exactly when it is a full chunk. -/
theorem max_le_text_iff {count : Nat} (hcount : count = min length HK.WRITE_MAX) :
    HK.WRITE_MAX ≤ (textOf (bytesAt s buffer count)).length ↔
      HK.WRITE_MAX ≤ length ∧ ∀ i < HK.WRITE_MAX, byteAt s (BitVec.ofNat 64 (buffer + i)) ≠ 0 := by
  have hle := length_textOf_le (bytesAt s buffer count)
  obtain ⟨hnonzero, hend⟩ := textOf_spec (bytesAt s buffer count)
  rw [length_bytesAt] at hle hend
  constructor
  · intro hfull
    refine ⟨by omega, fun i hi => ?_⟩
    obtain ⟨c, hc, hget⟩ := hnonzero i (by omega)
    rw [getElem?_bytesAt (by omega)] at hget
    rw [Option.some.inj hget]
    exact hc
  · rintro ⟨hlength, hall⟩
    rcases hend with heq | hzero
    · omega
    · by_contra hshort
      rw [getElem?_bytesAt (by omega)] at hzero
      exact hall _ (by omega) (Option.some.inj hzero)

/-- `Print` stays inside its text when the text has a zero byte. -/
theorem printText_inside_iff (attr : BitVec 8) (state : TextWindow × Screen) (text : ByteMemory)
    (n : Nat) : (∀ i ∈ (printText attr state text n).2, i < n) ↔ ∃ i < n, text i = 0 := by
  constructor
  · intro hinside
    by_contra hnone
    refine absurd (hinside n ?_) (Nat.lt_irrefl n)
    refine (TextWindow.mem_printFrom _ _ _ _ _).2 ⟨Nat.zero_le _, by omega, ?_⟩
    exact fun j _ hj hzero => hnone ⟨j, hj, hzero⟩
  · rintro ⟨j, hj, hzero⟩ i hi
    obtain ⟨-, hle, hnonzero⟩ := (TextWindow.mem_printFrom _ _ _ _ _).1 hi
    by_contra hge
    exact hnonzero j (Nat.zero_le _) (by omega) hzero

/-- `Write` answers every call, and it stays inside its buffer unless the chunk is full. -/
theorem write_inside_iff (s : Paging.State) (stack : ByteMemory) (output : TextWindow × Screen)
    (handle buffer length : Nat) :
    ∃ written, write s stack output handle buffer length = .ok written ∧
      ((∀ i ∈ written.reads, i < HK.WRITE_MAX) ↔ ¬FullChunk s handle buffer length) := by
  by_cases hhandle : handle = HK.STDOUT
  · subst hhandle
    by_cases hcopy : CanCopy s buffer (min length HK.WRITE_MAX)
    · obtain ⟨reads, hwrite, hreads⟩ := write_eq_ok rfl hcopy stack output
      refine ⟨_, hwrite, ?_⟩
      have hfull := @max_le_text_iff s buffer length _ rfl
      constructor
      · intro hinside hchunk
        have hmem := (hreads HK.WRITE_MAX (Nat.le_refl _)).2
          (hfull.2 ⟨hchunk.length, hchunk.nonzero⟩)
        exact absurd (hinside _ hmem) (Nat.lt_irrefl _)
      · intro hchunk i hi
        by_contra hge
        have hle := (hreads i (Nat.le_of_not_lt hge)).1 hi
        obtain ⟨hlength, hnonzero⟩ := hfull.1 (by omega)
        rw [Nat.min_eq_right hlength] at hcopy
        exact hchunk ⟨rfl, hlength, hcopy, hnonzero⟩
    · refine ⟨_, write_eq_fault rfl hcopy stack output, ?_⟩
      refine iff_of_true (fun i hi => absurd hi List.not_mem_nil) fun hchunk => hcopy ?_
      rw [Nat.min_eq_right hchunk.length]
      exact hchunk.readable
  · refine ⟨⟨-HK.EBADF, output, []⟩, if_pos hhandle, ?_⟩
    exact iff_of_true (fun i hi => absurd hi List.not_mem_nil) fun hchunk => hhandle hchunk.handle

/-- Both at once, for any text and any call. -/
theorem write_reads_iff (attr : BitVec 8) (state : TextWindow × Screen) (text : ByteMemory)
    (n : Nat) (s : Paging.State) (stack : ByteMemory) (output : TextWindow × Screen)
    (handle buffer length : BitVec 64) :
    ((∀ i ∈ (printText attr state text n).2, i < n) ↔ ∃ i < n, text i = 0) ∧
    ∃ written, write s stack output handle.toNat buffer.toNat length.toNat = .ok written ∧
      ((∀ i ∈ written.reads, i < HK.WRITE_MAX) ↔
        ¬FullChunk s handle.toNat buffer.toNat length.toNat) :=
  ⟨printText_inside_iff attr state text n,
    write_inside_iff s stack output handle.toNat buffer.toNat length.toNat⟩

/-! ## A task that prints a full chunk -/

/-- An image of one page, with the letter `A` behind the headers. -/
def letterImage : ByteMemory := fun a =>
  if a < 120 then (tinyImage 0x100000000).store 96 8 0x1000 a else 0x41

def letterSegment : Elf.ProgramHeader := { tinySegment 0x100000000 with fileSize := 0x1000 }

theorem letter_header : Elf.Header.read letterImage = tinyHeader 0x100000000 := by decide +kernel

theorem letter_segment : Elf.programHeader letterImage 0 = letterSegment := by decide +kernel

theorem letter_isSegment_iff {l : Nat} : IsSegment letterImage l ↔ l = 0 := by
  unfold User.IsSegment
  rw [letter_header, show (tinyHeader 0x100000000).programHeaderCount = 1 from rfl, Nat.lt_one_iff]
  constructor
  · exact And.left
  · rintro rfl
    rw [letter_segment]
    decide

theorem segmentContent_letter {i : Nat} (hlo : 120 ≤ i) (hhi : i < 0x1000) :
    segmentContent letterImage letterSegment i = 0x41 := by
  have hstart : letterSegment.virtualAddress - User.segmentStart letterSegment = 0 := by decide
  have hsize : letterSegment.fileSize = 0x1000 := rfl
  have hoffset : wrap64 (letterSegment.offset + i) = i :=
    (congrArg wrap64 (Nat.zero_add i)).trans (wrap64_of_lt (by omega))
  unfold User.segmentContent
  rw [hstart, hsize, if_pos ⟨Nat.zero_le _, by omega⟩, Nat.sub_zero, hoffset]
  exact if_neg (by omega)

/-- The page of the task has letters to its end, and the next one is not mapped. -/
structure HasLetters (s : Paging.State) : Prop where
  readable : ∀ i < 0x1000, Paging.isUserReadable s (BitVec.ofNat 64 (0x100000000 + i)) = true
  letter : ∀ i < 0x1000, 120 ≤ i → byteAt s (BitVec.ofNat 64 (0x100000000 + i)) = 0x41
  behind : Paging.isUserReadable s (BitVec.ofNat 64 0x100001000) = false

theorem load_letter :
    ∃ k k', bootKernel roomyHandover (fun _ => 0) = .ok (k, 0x120000) ∧
      User.load k "init" letterImage 0x1000 =
        .ok (.ok ⟨"init", 0x100000000, HK.USER_STACK_TOP⟩, k') ∧ HasLetters k'.paging := by
  obtain ⟨s₀, k, c, hboot, hs₀, hroomy, hle, htop, -, -, hvacant⟩ := bootKernel_roomy fun _ => 0
  have hpage : CodePage 0x1000 0x100000000 (Elf.programHeader letterImage 0) := by
    rw [letter_segment]
    exact ⟨⟨by decide, by decide, by decide⟩, by decide +kernel, by decide +kernel, by decide,
      by decide, by decide, by decide⟩
  obtain ⟨k₁, c₁, hsegment, hroomy₁, hc₁, hcode, htop₁⟩ :=
    loadSegment_roomy hs₀ hroomy (by omega) hpage
  obtain ⟨k', hload, -⟩ := load_code hs₀ hroomy₁ (by omega) (htop₁.trans htop) letter_header
    (by decide) (.load hpage.loaded hpage.checked hsegment (.done ..)) hpage.inside hcode "init"
  obtain ⟨s₁, -, hs₁, hsafe⟩ := bootKernel_safe physical_roomy hboot
  have hloaded := User.loaded_of_ok hs₁ hsafe hload
  have hlanded : ∀ i < 0x1000, ∃ run, Landed k' run (segmentContent letterImage letterSegment)
      (User.accessFor letterSegment) (BitVec.ofNat 64 (0x100000000 + i)) i := by
    intro i hi
    have hnat : (BitVec.ofNat 64 (0x100000000 + i)).toNat = 0x100000000 + i :=
      Paging.toNat_ofNat_of_lt (by omega)
    have hcovers : User.Covers (Elf.programHeader letterImage 0)
        (BitVec.ofNat 64 (0x100000000 + i)).toNat := by
      rw [letter_segment, hnat]
      show 0x100000000 ≤ 0x100000000 + i ∧ 0x100000000 + i < 0x100001000
      omega
    obtain ⟨run, h⟩ := hloaded.segment 0 (letter_isSegment_iff.2 rfl) _
      (not_stackPages_of_lt htop (by omega)) hcovers fun l' hl' hlt => by
        have := letter_isSegment_iff.1 hl'
        omega
    rw [letter_segment, hnat, show User.segmentStart letterSegment = 0x100000000 by decide,
      Nat.add_sub_cancel_left] at h
    exact ⟨run, h⟩
  refine ⟨k, k', hboot, hload, fun i hi => ?_, fun i hi hlo => ?_, isUserReadable_eq_false ?_⟩
  · obtain ⟨run, h⟩ := hlanded i hi
    exact h.isUserReadable
  · obtain ⟨run, h⟩ := hlanded i hi
    rw [h.byteAt_eq, segmentContent_letter hlo hi]
  · refine (hloaded.kept _ (not_stackPages_of_lt htop (by decide)) fun l hl hpage => ?_).trans
      (hvacant _ ⟨by decide, by decide⟩)
    obtain rfl := letter_isSegment_iff.1 hl
    rw [letter_segment] at hpage
    have hcovers := (User.segmentPages_iff (by decide) (by decide) (by decide)).1 hpage
    exact absurd hcovers (by decide)

/-- The call prints 1024 letters and reads the byte behind them. -/
theorem full_chunk_reads_behind :
    ∃ k k', bootKernel roomyHandover (fun _ => 0) = .ok (k, 0x120000) ∧
      User.load k "init" letterImage 0x1000 =
        .ok (.ok ⟨"init", 0x100000000, HK.USER_STACK_TOP⟩, k') ∧
      ∀ stack output, ∃ written,
        write k'.paging stack output HK.STDOUT 0x100000400 1024 = .ok written ∧
          written.result = 1024 ∧ 1024 ∈ written.reads := by
  obtain ⟨k, k', hboot, hload, hletters⟩ := load_letter
  have hletter : ∀ i < 1024, byteAt k'.paging (BitVec.ofNat 64 (0x100000400 + i)) ≠ 0 := by
    intro i hi
    have hbyte := hletters.letter (0x400 + i) (by omega) (by omega)
    rw [← Nat.add_assoc] at hbyte
    rw [hbyte]
    decide
  have hcopy : CanCopy k'.paging 0x100000400 HK.WRITE_MAX := by
    refine Or.inr ⟨by decide, by decide, fun a hlo hhi => ?_⟩
    have hhi' : a < 0x100000400 + 1024 := hhi
    have hread := hletters.readable (a - 0x100000000) (by omega)
    rwa [Nat.add_sub_cancel' (by omega)] at hread
  refine ⟨k, k', hboot, hload, fun stack output => ?_⟩
  have hcount : HK.WRITE_MAX = min 1024 HK.WRITE_MAX := by decide
  obtain ⟨reads, hwrite, hreads⟩ := write_eq_ok hcount hcopy stack output
  have hlength : (textOf (bytesAt k'.paging 0x100000400 HK.WRITE_MAX)).length = 1024 := by
    have hge := (max_le_text_iff hcount).2 ⟨Nat.le_refl 1024, hletter⟩
    have hle := length_textOf_le (bytesAt k'.paging 0x100000400 HK.WRITE_MAX)
    rw [length_bytesAt] at hle
    exact Nat.le_antisymm hle hge
  refine ⟨_, hwrite, congrArg Int.ofNat hlength, (hreads 1024 (Nat.le_refl _)).2 ?_⟩
  rw [hlength]

end Syscall

end X64HK
