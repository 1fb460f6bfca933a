import X64HK.Memory.KernelMemory

/-!
# Loading user tasks

A model of `Kernel/User/Elf.h` and of `Load` and what it uses in
`Kernel/User/Task.cpp`.  An image is a byte for every offset from its start.
The source checks neither the place of the program headers nor, against
wrap-around, the end of a segment's bytes, so it can read past the size it
was given.  What it finds there is part of the image.

`Load` answers `false` for six reasons.  The line that it prints for five of
them is left out.  The mappings that were made before a failure stay.
-/

namespace X64HK

/-! ## `Elf.h` -/

namespace Elf

def CLASS_64 : Nat := 2
def DATA_LITTLE_ENDIAN : Nat := 1
def TYPE_EXECUTABLE : Nat := 2
def MACHINE_X86_64 : Nat := 0x3E
def PT_LOAD : Nat := 1
/-- `sizeof(Elf::Header)`. -/
def HEADER_SIZE : Nat := 64
/-- `sizeof(Elf::ProgramHeader)`. -/
def PROGRAM_HEADER_SIZE : Nat := 56

/-- The fields of `Elf::Header` that the kernel reads. -/
structure Header where
  /-- The four bytes of `Magic`, the first one lowest. -/
  magic : Nat
  fileClass : Nat
  data : Nat
  type : Nat
  machine : Nat
  entry : Nat
  programHeaderOffset : Nat
  programHeaderEntrySize : Nat
  programHeaderCount : Nat
  deriving DecidableEq, Repr

def Header.read (image : ByteMemory) : Header where
  magic := image.load 0 4
  fileClass := image.load 4 1
  data := image.load 5 1
  type := image.load 16 2
  machine := image.load 18 2
  entry := image.load 24 8
  programHeaderOffset := image.load 32 8
  programHeaderEntrySize := image.load 54 2
  programHeaderCount := image.load 56 2

/-- The fields of `Elf::ProgramHeader` that the kernel reads. -/
structure ProgramHeader where
  type : Nat
  flags : Nat
  offset : Nat
  virtualAddress : Nat
  fileSize : Nat
  memorySize : Nat
  deriving DecidableEq, Repr

/-- `InFlags & PF_EXECUTE`. -/
def ProgramHeader.wantsExecute (segment : ProgramHeader) : Bool := segment.flags.testBit 0

/-- `InFlags & PF_WRITE`. -/
def ProgramHeader.wantsWrite (segment : ProgramHeader) : Bool := segment.flags.testBit 1

/-- One of these fields. -/
inductive Field where
  | type
  | flags
  | offset
  | virtualAddress
  | fileSize
  | memorySize
  deriving DecidableEq, Repr

/-- The place of a field in `Elf::ProgramHeader`. -/
def Field.start : Field → Nat
  | .type => 0
  | .flags => 4
  | .offset => 8
  | .virtualAddress => 16
  | .fileSize => 32
  | .memorySize => 40

def Field.width : Field → Nat
  | .type | .flags => 4
  | _ => 8

def Field.value (segment : ProgramHeader) : Field → Nat
  | .type => segment.type
  | .flags => segment.flags
  | .offset => segment.offset
  | .virtualAddress => segment.virtualAddress
  | .fileSize => segment.fileSize
  | .memorySize => segment.memorySize

/-- The offset of a field of the program header at a position of the table. -/
def fieldOffset (image : ByteMemory) (index : Nat) (field : Field) : Nat :=
  wrap64 ((Header.read image).programHeaderOffset + index * PROGRAM_HEADER_SIZE + field.start)

def readField (image : ByteMemory) (index : Nat) (field : Field) : Nat :=
  ByteMemory.load (fun i => image (wrap64 (fieldOffset image index field + i))) 0 field.width

/-- The program header at a position of the table. -/
def programHeader (image : ByteMemory) (index : Nat) : ProgramHeader where
  type := readField image index .type
  flags := readField image index .flags
  offset := readField image index .offset
  virtualAddress := readField image index .virtualAddress
  fileSize := readField image index .fileSize
  memorySize := readField image index .memorySize

end Elf

namespace User

open Paging (PAGE_SIZE)
open Elf (ProgramHeader)

def STACK_STRIDE : Nat := HK.USER_STACK_SIZE + PAGE_SIZE

structure Task where
  name : String
  entry : Nat
  stackTop : Nat
  deriving DecidableEq, Repr

/-- Why `Load` answers `false`. -/
inductive LoadError where
  | notExecutable
  | writableCode
  | outsideUserHalf
  | outOfMemory
  | noEntryPoint
  /-- `AllocateStack` returned zero.  Nothing is printed. -/
  | noStack
  deriving DecidableEq, Repr

/-! ## Stacks -/

/-- `AllocateStack`.  The answer is zero when memory runs out, and the slot
is used up all the same. -/
def allocateStack (k : Kernel) : Outcome (Nat × Kernel) := do
  let top := k.nextStackTop
  let k := { k with nextStackTop := sub64 k.nextStackTop STACK_STRIDE }
  let (frames, k) := k.allocateFrames .userStack (HK.USER_STACK_SIZE / PAGE_SIZE)
  if frames = 0 then return (0, k)
  else
    let bottom := sub64 top HK.USER_STACK_SIZE
    let k := k.setMemory (k.paging.memory.fill frames HK.USER_STACK_SIZE 0)
    let (mapped, k) ← k.map
      { virtual := BitVec.ofNat 64 bottom
        physical := BitVec.ofNat 64 frames
        size := BitVec.ofNat 64 HK.USER_STACK_SIZE
        access := .readWrite
        privilege := .user
        caching := .normal }
    return (if mapped then top else 0, k)

/-! ## Segments -/

def accessFor (segment : ProgramHeader) : Paging.Access :=
  if segment.wantsExecute then .readExecute
  else if segment.wantsWrite then .readWrite
  else .readOnly

def inUserHalf (start length : Nat) : Bool :=
  let stop := wrap64 (start + length)
  start ≥ HK.USER_MIN ∧ stop ≥ start ∧ stop ≤ HK.USER_MAX

/-- The first page of a segment. -/
def segmentStart (segment : ProgramHeader) : Nat :=
  segment.virtualAddress / PAGE_SIZE * PAGE_SIZE

/-- The end of the last page of a segment. -/
def segmentEnd (segment : ProgramHeader) : Nat :=
  Frame.alignUp (wrap64 (segment.virtualAddress + segment.memorySize))

/-- `LoadSegment` once `start` and `size` are known.  The frames are zeroed
before they are filled from the image. -/
def loadPages (image : ByteMemory) (segment : ProgramHeader) (start size : Nat)
    (k : Kernel) : Outcome (Bool × Kernel) := do
  let (frames, k) := k.allocateFrames .segment (size / PAGE_SIZE)
  if frames = 0 then return (false, k)
  else
    let memory := k.paging.memory.fill frames size 0
    let memory := memory.copy (frames + (segment.virtualAddress - start)) segment.fileSize
      (fun i => image (wrap64 (segment.offset + i)))
    (k.setMemory memory).map
      { virtual := BitVec.ofNat 64 start
        physical := BitVec.ofNat 64 frames
        size := BitVec.ofNat 64 size
        access := accessFor segment
        privilege := .user
        caching := .normal }

/-- `LoadSegment`. -/
def loadSegment (image : ByteMemory) (segment : ProgramHeader) (k : Kernel) :
    Outcome (Bool × Kernel) :=
  loadPages image segment (segmentStart segment)
    (sub64 (segmentEnd segment) (segmentStart segment)) k

/-- `IsRunnable`.  The magic is 0x7F and the letters ELF. -/
def isRunnable (header : Elf.Header) (size : Nat) : Bool :=
  size ≥ Elf.HEADER_SIZE ∧ header.magic = 0x464C457F ∧
    header.fileClass = Elf.CLASS_64 ∧ header.data = Elf.DATA_LITTLE_ENDIAN ∧
    header.type = Elf.TYPE_EXECUTABLE ∧ header.machine = Elf.MACHINE_X86_64 ∧
    header.programHeaderEntrySize = Elf.PROGRAM_HEADER_SIZE ∧
    header.programHeaderCount > 0

/-- The checks of `Load` on a segment that is to be loaded. -/
def checkSegment (size : Nat) (segment : ProgramHeader) : Option LoadError :=
  if segment.wantsWrite ∧ segment.wantsExecute then some .writableCode
  else if wrap64 (segment.offset + segment.fileSize) > size ∨
      segment.fileSize > segment.memorySize ∨
      !inUserHalf segment.virtualAddress segment.memorySize then
    some .outsideUserHalf
  else none

/-- `Load` skips the other entries of the table. -/
def isLoaded (segment : ProgramHeader) : Bool :=
  segment.type = Elf.PT_LOAD ∧ segment.memorySize ≠ 0

/-- The loop of `Load` over the `n` program headers from `index` on. -/
def loadLoop (image : ByteMemory) (size : Nat) :
    Kernel → Nat → Nat → Outcome (Option LoadError × Kernel)
  | k, _, 0 => .ok (none, k)
  | k, index, n + 1 =>
    let segment := Elf.programHeader image index
    if !isLoaded segment then loadLoop image size k (index + 1) n
    else
      match checkSegment size segment with
      | some reason => .ok (some reason, k)
      | none => do
        let (loaded, k) ← loadSegment image segment k
        if loaded then loadLoop image size k (index + 1) n
        else return (some .outOfMemory, k)

/-- `Load`. -/
def load (k : Kernel) (name : String) (image : ByteMemory) (size : Nat) :
    Outcome (Except LoadError Task × Kernel) := do
  let header := Elf.Header.read image
  if !isRunnable header size then return (.error .notExecutable, k)
  else
    let (failure, k) ← loadLoop image size k 0 header.programHeaderCount
    match failure with
    | some reason => return (.error reason, k)
    | none =>
      if !inUserHalf header.entry 1 ∨
          !Paging.isExecutable k.paging (BitVec.ofNat 64 header.entry) then
        return (.error .noEntryPoint, k)
      else
        let (stackTop, k) ← allocateStack k
        if stackTop = 0 then return (.error .noStack, k)
        else return (.ok ⟨name, header.entry, stackTop⟩, k)

end User

end X64HK
