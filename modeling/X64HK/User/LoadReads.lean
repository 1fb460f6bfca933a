import X64HK.User.LoadEffect

/-!
# The bytes that loading a task reads

`User::Load` gets an image and its size, and the image says where its program
headers and its segments are.  `loadReads` lists the pieces of the image that
a call looks at, in the order of the code, and of a program header the fields
up to the check that fails.  Their place is never compared with the size, and
the end of a segment is, but only after the addition wrapped around.

* `Read.inside_iff_fits`: which of these pieces are inside the image.
* `loadLoop_congr`: the loop depends on the pieces that it reads alone.
* `load_reads_inside_iff`: when a call stays inside the image, and that it
  then depends on nothing else.
* `load_depends_on_bytes_past_the_end`: an image that consists of a header.
-/

namespace X64HK.User

open Paging (PAGE_SIZE)
open Elf (HEADER_SIZE)

/-- A piece of the image. -/
inductive Read where
  | header
  | field (index : Nat) (field : Elf.Field)
  /-- The `FileSize` bytes of a segment. -/
  | segment (index : Nat)
  deriving DecidableEq, Repr

/-- The offset of a piece from the start of the image. -/
def Read.start (image : ByteMemory) : Read → Nat
  | .header => 0
  | .field index f => Elf.fieldOffset image index f
  | .segment index => (Elf.programHeader image index).offset

def Read.length (image : ByteMemory) : Read → Nat
  | .header => HEADER_SIZE
  | .field _ f => f.width
  | .segment index => (Elf.programHeader image index).fileSize

/-- Each byte of the piece is one of the first `size` bytes of the image. -/
def Read.Inside (image : ByteMemory) (size : Nat) (read : Read) : Prop :=
  ∀ j < read.length image, wrap64 (read.start image + j) < size

/-- The fields of a program header that `Load` reads, each before the check
that needs it. -/
def fieldsRead (size : Nat) (segment : Elf.ProgramHeader) : List Elf.Field :=
  .type ::
    if segment.type ≠ Elf.PT_LOAD then []
    else .memorySize ::
      if segment.memorySize = 0 then []
      else .flags ::
        if segment.wantsWrite ∧ segment.wantsExecute then []
        else .offset :: .fileSize ::
          if wrap64 (segment.offset + segment.fileSize) > size ∨
              segment.fileSize > segment.memorySize then []
          else [.virtualAddress]

/-- The pieces that are read from a program header on, once `LoadSegment` was
called for it.  It copies nothing when there are no frames. -/
def segmentReads (index : Nat) (starved : Bool) (result : Outcome (Bool × Kernel))
    (rest : Kernel → List Read) : List Read :=
  if starved then []
  else
    .segment index ::
      match result with
      | .ok (true, k) => rest k
      | _ => []

/-- The pieces that the loop of `Load` reads. -/
def loopReads (image : ByteMemory) (size : Nat) : Kernel → Nat → Nat → List Read
  | _, _, 0 => []
  | k, index, n + 1 =>
    let segment := Elf.programHeader image index
    (fieldsRead size segment).map (.field index) ++
      if !isLoaded segment then loopReads image size k (index + 1) n
      else if checkSegment size segment ≠ none then []
      else
        segmentReads index (k.Starved (segmentFrames segment)) (loadSegment image segment k)
          fun k => loopReads image size k (index + 1) n

/-- The pieces that `Load` reads. -/
def loadReads (k : Kernel) (image : ByteMemory) (size : Nat) : List Read :=
  if size < HEADER_SIZE then []
  else
    .header ::
      if !isRunnable (Elf.Header.read image) size then []
      else loopReads image size k 0 (Elf.Header.read image).programHeaderCount

/-- What the checks of `Load` leave open about a piece. -/
def Read.Fits (image : ByteMemory) (size : Nat) : Read → Prop
  | .header => True
  | .field index f => Elf.fieldOffset image index f + f.width ≤ size
  | .segment index =>
    (Elf.programHeader image index).fileSize = 0 ∨
      (Elf.programHeader image index).offset + (Elf.programHeader image index).fileSize < 2 ^ 64

variable {image image' : ByteMemory} {size : Nat} {k : Kernel} {segment : Elf.ProgramHeader}
  {start length : Nat} {result : Outcome (Bool × Kernel)}

/-! ## The pieces inside the image -/

/-- A range that starts below 2^64. -/
theorem inside_range_iff (hsize : size < 2 ^ 64) (hstart : start < 2 ^ 64) (hlength : 0 < length) :
    (∀ j < length, wrap64 (start + j) < size) ↔ start + length ≤ size := by
  refine ⟨fun h => ?_, fun h j hj => ?_⟩
  · by_contra hlt
    by_cases hle : start ≤ size
    · have hend := h (size - start) (by omega)
      rw [Nat.add_sub_cancel' hle, wrap64_of_lt hsize] at hend
      omega
    · have hfirst := h 0 hlength
      rw [Nat.add_zero, wrap64_of_lt hstart] at hfirst
      omega
  · rw [wrap64_of_lt (by omega)]
    omega

/-- A range whose end passed the check of `Load` after it wrapped around. -/
theorem checked_range_iff (hsize : size < 2 ^ 64) (hstart : start < 2 ^ 64)
    (hend : wrap64 (start + length) ≤ size) :
    (∀ j < length, wrap64 (start + j) < size) ↔ length = 0 ∨ start + length < 2 ^ 64 := by
  rcases Nat.eq_zero_or_pos length with hzero | hpos
  · exact iff_of_true (fun j hj => by omega) (Or.inl hzero)
  · rw [inside_range_iff hsize hstart hpos]
    constructor
    · intro hle
      exact Or.inr (by omega)
    · rintro (hzero | hlt)
      · omega
      · rwa [wrap64_of_lt hlt] at hend

theorem mem_segmentReads {index : Nat} {starved : Bool} {rest : Kernel → List Read}
    {read : Read} (h : read ∈ segmentReads index starved result rest) :
    read = .segment index ∨ ∃ k, result = .ok (true, k) ∧ read ∈ rest k := by
  cases starved with
  | true => exact absurd h List.not_mem_nil
  | false =>
    rcases List.mem_cons.1 h with heq | h
    · exact Or.inl heq
    · split at h
      · exact Or.inr ⟨_, rfl, h⟩
      · exact absurd h List.not_mem_nil

theorem forall_mem_segmentReads {index : Nat} {rest : Kernel → List Read} {P : Read → Prop}
    (h : ∀ read ∈ segmentReads index false result rest, P read) :
    P (.segment index) ∧ ∀ k, result = .ok (true, k) → ∀ read ∈ rest k, P read := by
  refine ⟨h _ (List.mem_cons_self ..), fun k hresult read hread => h read ?_⟩
  subst hresult
  exact List.mem_cons_of_mem _ hread

/-- Only segments that passed the checks are copied. -/
theorem checkSegment_of_mem_loopReads {i : Nat} :
    ∀ {n index : Nat} {k : Kernel}, Read.segment i ∈ loopReads image size k index n →
      checkSegment size (Elf.programHeader image i) = none := by
  intro n
  induction n with
  | zero =>
    intro index k h
    exact absurd h List.not_mem_nil
  | succ n ih =>
    intro index k h
    rw [loopReads] at h
    rcases List.mem_append.1 h with h | h
    · obtain ⟨field, -, heq⟩ := List.mem_map.1 h
      cases heq
    by_cases hloaded : (!isLoaded (Elf.programHeader image index)) = true
    · rw [if_pos hloaded] at h
      exact ih h
    rw [if_neg hloaded] at h
    by_cases hcheck : checkSegment size (Elf.programHeader image index) = none
    · rw [if_neg (not_not.2 hcheck)] at h
      rcases mem_segmentReads h with heq | ⟨k₁, -, h⟩
      · rw [Read.segment.inj heq]
        exact hcheck
      · exact ih h
    · rw [if_pos hcheck] at h
      exact absurd h List.not_mem_nil

theorem checkSegment_of_mem_loadReads {i : Nat} (h : Read.segment i ∈ loadReads k image size) :
    checkSegment size (Elf.programHeader image i) = none := by
  unfold loadReads at h
  by_cases hsize : size < HEADER_SIZE
  · rw [if_pos hsize] at h
    exact absurd h List.not_mem_nil
  rw [if_neg hsize] at h
  rcases List.mem_cons.1 h with heq | h
  · exact absurd heq nofun
  by_cases hrunnable : (!isRunnable (Elf.Header.read image) size) = true
  · rw [if_pos hrunnable] at h
    exact absurd h List.not_mem_nil
  · rw [if_neg hrunnable] at h
    exact checkSegment_of_mem_loopReads h

theorem header_le_of_mem_loadReads {read : Read} (h : read ∈ loadReads k image size) :
    HEADER_SIZE ≤ size := by
  by_contra hlt
  rw [loadReads, if_pos (Nat.not_le.1 hlt)] at h
  exact absurd h List.not_mem_nil

/-- Which of the pieces that a call reads are inside the image. -/
theorem Read.inside_iff_fits {read : Read} (hsize : size < 2 ^ 64)
    (h : read ∈ loadReads k image size) :
    read.Inside image size ↔ read.Fits image size := by
  cases read with
  | header =>
    have hle := header_le_of_mem_loadReads h
    refine iff_of_true (fun j hj => ?_) trivial
    have hlt : j < HEADER_SIZE := hj
    show wrap64 (0 + j) < size
    rw [wrap64_of_lt (by omega)]
    omega
  | field index f =>
    have hpos : 0 < f.width := by cases f <;> decide
    exact inside_range_iff hsize (wrap64_lt _) hpos
  | segment index =>
    obtain ⟨-, hend, -⟩ := checkSegment_eq_none.1 (checkSegment_of_mem_loadReads h)
    exact checked_range_iff hsize (ByteMemory.load_lt ..) hend

/-! ## What a call depends on -/

theorem header_read_congr (h : image.AgreeOn image' 0 HEADER_SIZE) :
    Elf.Header.read image' = Elf.Header.read image := by
  have hload : ∀ a n, a + n ≤ 64 → image'.load a n = image.load a n := fun a n hle =>
    ByteMemory.load_congr (h.mono (Nat.zero_le a) (by rw [show HEADER_SIZE = 64 from rfl]; omega))
  unfold Elf.Header.read
  simp only [hload 0 4 (by decide), hload 4 1 (by decide), hload 5 1 (by decide),
    hload 16 2 (by decide), hload 18 2 (by decide), hload 24 8 (by decide),
    hload 32 8 (by decide), hload 54 2 (by decide), hload 56 2 (by decide)]

theorem programHeader_value (image : ByteMemory) (index : Nat) (field : Elf.Field) :
    field.value (Elf.programHeader image index) = Elf.readField image index field := by
  cases field <;> rfl

theorem readField_congr {index : Nat} {field : Elf.Field}
    (hheader : Elf.Header.read image' = Elf.Header.read image)
    (hsame : ∀ a < size, image' a = image a) (h : (Read.field index field).Inside image size) :
    field.value (Elf.programHeader image' index) = field.value (Elf.programHeader image index) := by
  rw [programHeader_value, programHeader_value]
  unfold Elf.readField Elf.fieldOffset
  rw [hheader]
  exact ByteMemory.load_congr fun j _ hj => hsame _ (h j (by rwa [Nat.zero_add] at hj))

/-- How far `Load` gets with a program header depends on the fields that it
reads, and it has read all of them when it loads the segment. -/
theorem fieldsRead_congr {segment' : Elf.ProgramHeader}
    (h : ∀ field ∈ fieldsRead size segment, field.value segment' = field.value segment) :
    isLoaded segment' = isLoaded segment ∧
      (isLoaded segment = true → checkSegment size segment' = checkSegment size segment ∧
        (checkSegment size segment = none → segment' = segment)) := by
  obtain ⟨type, flags, offset, virtualAddress, fileSize, memorySize⟩ := segment
  obtain ⟨type', flags', offset', virtualAddress', fileSize', memorySize'⟩ := segment'
  rw [fieldsRead] at h
  obtain ⟨htype, h⟩ := List.forall_mem_cons.1 h
  obtain rfl : type' = type := htype
  by_cases hload : type' = Elf.PT_LOAD
  swap
  · have hskip : isLoaded ⟨type', flags, offset, virtualAddress, fileSize, memorySize⟩ = false :=
      decide_eq_false fun hl => hload hl.1
    rw [hskip]
    exact ⟨decide_eq_false fun hl => hload hl.1, fun hl => Bool.noConfusion hl⟩
  rw [if_neg (not_not.2 hload)] at h
  obtain ⟨hmemory, h⟩ := List.forall_mem_cons.1 h
  obtain rfl : memorySize' = memorySize := hmemory
  refine ⟨rfl, fun hl => ?_⟩
  rw [if_neg (of_decide_eq_true hl).2] at h
  obtain ⟨hflags, h⟩ := List.forall_mem_cons.1 h
  obtain rfl : flags' = flags := hflags
  split at h
  next hboth =>
    have hbad : checkSegment size ⟨type', flags', offset, virtualAddress, fileSize, memorySize'⟩ =
        some .writableCode := if_pos hboth
    rw [hbad]
    exact ⟨if_pos hboth, fun hnone => absurd hnone (Option.some_ne_none _)⟩
  next hboth =>
    obtain ⟨hoffset, h⟩ := List.forall_mem_cons.1 h
    obtain rfl : offset' = offset := hoffset
    obtain ⟨hfile, h⟩ := List.forall_mem_cons.1 h
    obtain rfl : fileSize' = fileSize := hfile
    split at h
    next hend =>
      have hbad : ∀ v, checkSegment size ⟨type', flags', offset', v, fileSize', memorySize'⟩ =
          some .outsideUserHalf := fun v =>
        (if_neg hboth).trans (if_pos (or_assoc.1 (Or.inl hend)))
      rw [hbad, hbad]
      exact ⟨rfl, fun hnone => absurd hnone (Option.some_ne_none _)⟩
    next hend =>
      obtain rfl : virtualAddress' = virtualAddress := h .virtualAddress (List.mem_cons_self ..)
      exact ⟨rfl, fun _ => rfl⟩

theorem loadPages_congr
    (h : k.Starved (length / PAGE_SIZE) ∨ ∀ j < segment.fileSize,
      image' (wrap64 (segment.offset + j)) = image (wrap64 (segment.offset + j))) :
    loadPages image' segment start length k = loadPages image segment start length k := by
  unfold loadPages
  rcases h with hstarved | hsame
  · have hnone : (k.allocateFrames .segment (length / PAGE_SIZE)).1 = 0 := by
      rw [Kernel.Starved] at hstarved
      rw [Kernel.allocateFrames, if_pos hstarved]
    simp only [if_pos hnone]
  · have hcopy : ∀ (m : ByteMemory) a, m.copy a segment.fileSize
        (fun i => image' (wrap64 (segment.offset + i))) = m.copy a segment.fileSize
        (fun i => image (wrap64 (segment.offset + i))) := fun m a =>
      ByteMemory.copy_congr hsame
    simp only [hcopy]

/-- Without frames nothing is loaded. -/
theorem not_starved_of_loadPages {k' : Kernel}
    (h : loadPages image segment start length k = .ok (true, k')) :
    ¬k.Starved (length / PAGE_SIZE) := by
  intro hstarved
  rw [Kernel.Starved] at hstarved
  have hnone : (k.allocateFrames .segment (length / PAGE_SIZE)).1 = 0 := by
    rw [Kernel.allocateFrames, if_pos hstarved]
  unfold loadPages at h
  simp only [if_pos hnone] at h
  exact Bool.noConfusion (Prod.mk.inj (Except.ok.inj h)).1

theorem not_starved_of_loadSegment {k' : Kernel}
    (h : loadSegment image segment k = .ok (true, k')) :
    ¬k.Starved (segmentFrames segment) := by
  rw [loadSegment] at h
  exact not_starved_of_loadPages h

/-- `LoadSegment` depends on the bytes of the segment, and on none without
frames. -/
theorem loadSegment_congr
    (h : k.Starved (segmentFrames segment) ∨ ∀ j < segment.fileSize,
      image' (wrap64 (segment.offset + j)) = image (wrap64 (segment.offset + j))) :
    loadSegment image' segment k = loadSegment image segment k := by
  rw [loadSegment, loadSegment]
  exact loadPages_congr h

/-- The loop depends on the pieces that it reads. -/
theorem loadLoop_congr (hheader : Elf.Header.read image' = Elf.Header.read image)
    (hsame : ∀ a < size, image' a = image a) :
    ∀ {n index : Nat} {k : Kernel},
      (∀ read ∈ loopReads image size k index n, read.Inside image size) →
      loadLoop image' size k index n = loadLoop image size k index n := by
  intro n
  induction n with
  | zero =>
    intro index k _
    rfl
  | succ n ih =>
    intro index k hinside
    rw [loopReads] at hinside
    obtain ⟨hfields, hrest⟩ := List.forall_mem_append.1 hinside
    obtain ⟨hskip, hread⟩ := fieldsRead_congr fun field hfield =>
      readField_congr hheader hsame (hfields _ (List.mem_map_of_mem hfield))
    rw [loadLoop, loadLoop]
    simp only [hskip]
    by_cases hloaded : (!isLoaded (Elf.programHeader image index)) = true
    · rw [if_pos hloaded, if_pos hloaded]
      rw [if_pos hloaded] at hrest
      exact ih hrest
    rw [if_neg hloaded, if_neg hloaded]
    rw [if_neg hloaded] at hrest
    obtain ⟨hsame_check, hsegment⟩ := hread (by simpa using hloaded)
    rw [hsame_check]
    cases hcheck : checkSegment size (Elf.programHeader image index) with
    | some reason => rfl
    | none =>
      rw [hsegment hcheck]
      rw [if_neg (not_not.2 hcheck)] at hrest
      have hload : loadSegment image' (Elf.programHeader image index) k =
          loadSegment image (Elf.programHeader image index) k := by
        refine loadSegment_congr ?_
        by_cases hstarved : k.Starved (segmentFrames (Elf.programHeader image index))
        · exact Or.inl hstarved
        · rw [decide_eq_false hstarved] at hrest
          exact Or.inr fun j hj => hsame _ ((forall_mem_segmentReads hrest).1 j hj)
      simp only [hload]
      refine bind_congr_ok fun result hcall => ?_
      obtain ⟨loaded, k₁⟩ := result
      cases loaded with
      | false => simp only [Bool.false_eq_true, if_false]
      | true =>
        rw [decide_eq_false (not_starved_of_loadSegment hcall)] at hrest
        exact ih ((forall_mem_segmentReads hrest).2 k₁ hcall)

theorem load_congr (k : Kernel) (name : String)
    (hinside : ∀ read ∈ loadReads k image size, read.Inside image size)
    (hsame : ∀ a < size, image' a = image a) :
    load k name image' size = load k name image size := by
  unfold loadReads at hinside
  by_cases hsmall : size < HEADER_SIZE
  · -- The size is checked before anything is read.
    have hunfit : ∀ header, isRunnable header size = false := fun header =>
      decide_eq_false fun h => absurd h.1 (Nat.not_le.2 hsmall)
    unfold load
    simp only [hunfit]
    rfl
  rw [if_neg hsmall] at hinside
  have hheader : Elf.Header.read image' = Elf.Header.read image :=
    header_read_congr fun b _ hb => hsame b (by omega)
  unfold load
  simp only [hheader]
  by_cases hrunnable : (!isRunnable (Elf.Header.read image) size) = true
  · rw [if_pos hrunnable, if_pos hrunnable]
  · rw [if_neg hrunnable, if_neg hrunnable]
    have hloop := (List.forall_mem_cons.1 hinside).2
    rw [if_neg hrunnable] at hloop
    rw [loadLoop_congr hheader hsame hloop]

/-- A call of `Load` reads inside the image if and only if each field of a
program header that it reads ends inside and no segment that it copies wraps around.  Then
the bytes outside have no part in its result. -/
theorem load_reads_inside_iff (k : Kernel) (image : ByteMemory) (size : BitVec 64) :
    ((∀ read ∈ loadReads k image size.toNat, read.Inside image size.toNat) ↔
      ∀ read ∈ loadReads k image size.toNat, read.Fits image size.toNat) ∧
    ((∀ read ∈ loadReads k image size.toNat, read.Inside image size.toNat) →
      ∀ name image', (∀ a < size.toNat, image' a = image a) →
        load k name image' size.toNat = load k name image size.toNat) := by
  exact ⟨forall₂_congr fun read hread => Read.inside_iff_fits size.isLt hread,
    fun hinside name image' hsame => load_congr k name hinside hsame⟩

/-- An image that ends with its header.  The one program header that it
announces is what follows in memory. -/
def headerOnly (type flags : Nat) : ByteMemory :=
  let image := (tinyImage 0).store 64 4 type
  image.store 68 4 flags

/-- Two images of 64 bytes that do not differ.  The program header is read
from the bytes that follow, and they decide why `Load` fails. -/
theorem load_depends_on_bytes_past_the_end :
    (∀ a < 64, headerOnly 1 3 a = headerOnly 0 0 a) ∧
      ¬(Read.field 0 .type).Inside (headerOnly 0 0) 64 ∧
      ∀ k, Read.field 0 .type ∈ loadReads k (headerOnly 0 0) 64 ∧
        load k "init" (headerOnly 0 0) 64 = .ok (.error .noEntryPoint, k) ∧
        load k "init" (headerOnly 1 3) 64 = .ok (.error .writableCode, k) := by
  have hheader : ∀ x ∈ [(0, 0), (1, 3)], Elf.Header.read (headerOnly x.1 x.2) = tinyHeader 0 := by
    decide +kernel
  have hrunnable : isRunnable (tinyHeader 0) 64 = true := by decide
  have hskipped : isLoaded (Elf.programHeader (headerOnly 0 0) 0) = false := by decide +kernel
  have hloaded : isLoaded (Elf.programHeader (headerOnly 1 3) 0) = true ∧
      checkSegment 64 (Elf.programHeader (headerOnly 1 3) 0) = some .writableCode := by
    decide +kernel
  have hentry : inUserHalf (tinyHeader 0).entry 1 = false := by decide
  refine ⟨by decide +kernel, ?_, fun k => ⟨?_, ?_, ?_⟩⟩
  · intro hinside
    have hfirst := hinside 0 (show 0 < Elf.Field.width .type by decide)
    revert hfirst
    rw [Read.start, Elf.fieldOffset, hheader (0, 0) (by decide)]
    decide
  · unfold loadReads
    rw [hheader (0, 0) (by decide), if_neg (by decide), hrunnable]
    exact List.mem_cons_of_mem _ (List.mem_cons_self ..)
  · unfold load
    rw [hheader (0, 0) (by decide)]
    simp only [hrunnable, loadLoop, show (tinyHeader 0).programHeaderCount = 1 from rfl,
      hskipped, hentry, bind, Except.bind]
    rfl
  · unfold load
    rw [hheader (1, 3) (by decide)]
    simp only [hrunnable, loadLoop, show (tinyHeader 0).programHeaderCount = 1 from rfl,
      hloaded.1, hloaded.2, bind, Except.bind]
    rfl

end X64HK.User
