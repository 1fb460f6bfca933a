import X64HK.Lib.ByteMemory
import X64HK.Memory.Frame

/-!
# Page tables

A model of `Kernel/Memory/Paging.cpp`.  The four levels of tables stand in
physical memory, one frame each, and an entry is the little-endian word at
`table + 8 * index`.  `TableAt` of the source adds the offset of the direct
map to a physical address.  The model reads and writes physical memory at
that address.

* `descend` walks down to the table that holds the entry of a page and
  creates the tables that are missing.
* `map` writes one entry after the other.  A `descend` that runs out of
  frames ends it with `false`, and what was written before stays.
* `effective` is the walk of the CPU: what the levels grant together.
* `initializeState` maps what the kernel needs and activates the tables.

The loop of `map` does not end when the page wraps around below the end of
the range.  The model stops with `outOfFuel` there.
-/

namespace X64HK.Paging

open Multiboot

def PAGE_SIZE : Nat := 4 * KIB

def PRESENT : BitVec 64 := 1 <<< 0
def WRITABLE : BitVec 64 := 1 <<< 1
def USER : BitVec 64 := 1 <<< 2
def CACHE_DISABLE : BitVec 64 := 1 <<< 4
def LARGE : BitVec 64 := 1 <<< 7
def NO_EXECUTE : BitVec 64 := 1 <<< 63
def ADDRESS_MASK : BitVec 64 := 0x000FFFFFFFFFF000
/-- `PAGE_SIZE - 1` as a word. -/
def OFFSET_MASK : BitVec 64 := 0xFFF

def TOP_LEVEL : Nat := 4
def LEAF_LEVEL : Nat := 1
def ENTRIES_PER_TABLE : BitVec 64 := 512

def LOW_MEMORY_END : Nat := 2 * MIB

inductive Access where
  | readOnly
  | readWrite
  | readExecute
  deriving DecidableEq, Repr

inductive Caching where
  | normal
  | disabled
  deriving DecidableEq, Repr

inductive Privilege where
  | kernel
  | user
  deriving DecidableEq, Repr

/-- The statics of `Paging.cpp`, with the memory that holds the tables and
the allocator that provides them. -/
structure State where
  memory : ByteMemory
  frames : Frame.State
  /-- `s_Root`, a physical address. -/
  root : Nat
  noExecuteAvailable : Bool
  tableCount : Nat
  mappedRamEnd : Nat

/-- `ToVirtual`. -/
def toVirtual (physical : Nat) : Nat := wrap64 (physical + Config.DIRECT_MAP_BASE)

def indexAt (virtual : BitVec 64) (level : Nat) : Nat :=
  ((virtual >>> (12 + 9 * (level - 1))) &&& (ENTRIES_PER_TABLE - 1)).toNat

/-- The address of the entry that `virtual` selects in a table. -/
def entryAddress (table : Nat) (virtual : BitVec 64) (level : Nat) : Nat :=
  table + 8 * indexAt virtual level

/-- `AllocateTable`.  The answer is zero when no frame is left. -/
def allocateTable (s : State) : Nat × State :=
  let result := Frame.allocate s.frames 1
  if result.1 = 0 then (0, { s with frames := result.2 })
  else
    (result.1,
      { s with
        frames := result.2
        memory := s.memory.fill result.1 PAGE_SIZE 0
        tableCount := s.tableCount + 1 })

/-- The part of the body of the loop of `Descend` that makes sure an entry
is present.  `false` is the return of a null pointer. -/
def ensurePresent (s : State) (address : Nat) : Bool × State :=
  if s.memory.read64 address &&& PRESENT = 0 then
    let result := allocateTable s
    if result.1 = 0 then (false, result.2)
    else
      (true,
        { result.2 with
          memory := result.2.memory.write64 address
            (BitVec.ofNat 64 result.1 ||| PRESENT ||| WRITABLE) })
  else (true, s)

/-- `entry |= InTableFlags`. -/
def openEntry (s : State) (address : Nat) (tableFlags : BitVec 64) : State :=
  { s with
    memory := s.memory.write64 address (s.memory.read64 address ||| tableFlags) }

/-- The loop of `Descend` with `n` levels to go above `level`. -/
def descendLoop (virtual tableFlags : BitVec 64) (level : Nat) :
    Nat → State → Nat → Option Nat × State
  | 0, s, table => (some table, s)
  | n + 1, s, table =>
    let address := entryAddress table virtual (level + n + 1)
    let ensured := ensurePresent s address
    if ensured.1 then
      let s := openEntry ensured.2 address tableFlags
      descendLoop virtual tableFlags level n s (s.memory.read64 address &&& ADDRESS_MASK).toNat
    else (none, ensured.2)

/-- `Descend`.  The answer is the table, or nothing when no frame is left
for one on the way. -/
def descend (s : State) (virtual : BitVec 64) (level : Nat) (tableFlags : BitVec 64) :
    Option Nat × State :=
  descendLoop virtual tableFlags level (TOP_LEVEL - level) s s.root

def flagsFor (noExecuteAvailable : Bool) (access : Access) (privilege : Privilege)
    (caching : Caching) : BitVec 64 :=
  PRESENT
    ||| (if access = .readWrite then WRITABLE else 0)
    ||| (if access ≠ .readExecute ∧ noExecuteAvailable then NO_EXECUTE else 0)
    ||| (if privilege = .user then USER else 0)
    ||| (if caching = .disabled then CACHE_DISABLE else 0)

/-- The loop of `Effective` with `n` levels to go above the leaf.  The
answer is the leaf's table with what was granted and forbidden so far. -/
def effectiveLoop (memory : ByteMemory) (virtual : BitVec 64) :
    Nat → Nat → BitVec 64 → BitVec 64 → Option (Nat × BitVec 64 × BitVec 64)
  | 0, table, granted, noExecute => some (table, granted, noExecute)
  | n + 1, table, granted, noExecute =>
    let entry := memory.read64 (entryAddress table virtual (LEAF_LEVEL + n + 1))
    if entry &&& PRESENT = 0 ∨ entry &&& LARGE ≠ 0 then none
    else
      effectiveLoop memory virtual n (entry &&& ADDRESS_MASK).toNat
        (granted &&& entry) (noExecute ||| (entry &&& NO_EXECUTE))

/-- `Effective`. -/
def effective (s : State) (virtual : BitVec 64) : BitVec 64 :=
  match effectiveLoop s.memory virtual (TOP_LEVEL - LEAF_LEVEL) s.root
      (PRESENT ||| WRITABLE ||| USER) 0 with
  | none => 0
  | some (table, granted, noExecute) =>
    let leaf := s.memory.read64 (entryAddress table virtual LEAF_LEVEL)
    if leaf &&& PRESENT = 0 then 0
    else (granted &&& leaf) ||| (noExecute ||| (leaf &&& NO_EXECUTE))
      ||| (leaf &&& ADDRESS_MASK)

/-! ## `Map` -/

/-- The arguments of `Map`. -/
structure MapCall where
  virtual : BitVec 64
  physical : BitVec 64
  size : BitVec 64
  access : Access
  privilege : Privilege
  caching : Caching
  deriving DecidableEq, Repr

/-- The first page that the loop of `Map` visits. -/
def MapCall.firstPage (call : MapCall) : BitVec 64 := call.virtual &&& ~~~OFFSET_MASK

/-- The initial value of `source`. -/
def MapCall.source (call : MapCall) : BitVec 64 := call.physical &&& ~~~OFFSET_MASK

/-- `InVirtual + InSize`. -/
def MapCall.stop (call : MapCall) : BitVec 64 := call.virtual + call.size

def MapCall.tableFlags (call : MapCall) : BitVec 64 :=
  if call.privilege = .user then USER else 0

/-- The loop of `Map`. -/
def mapLoop (flags tableFlags stop : BitVec 64) :
    Nat → BitVec 64 → BitVec 64 → State → Outcome (Bool × State)
  | 0, _, _, _ => .error .outOfFuel
  | fuel + 1, page, source, s =>
    if page < stop then
      match descend s page LEAF_LEVEL tableFlags with
      | (none, s) => .ok (false, s)
      | (some table, s) =>
        mapLoop flags tableFlags stop fuel (page + BitVec.ofNat 64 PAGE_SIZE)
          (source + BitVec.ofNat 64 PAGE_SIZE)
          { s with
            memory := s.memory.write64 (entryAddress table page LEAF_LEVEL) (source ||| flags) }
    else .ok (true, s)

/-- `Map`.  Without a wrap-around the loop visits each page below the end
once. -/
def map (s : State) (call : MapCall) : Outcome (Bool × State) :=
  mapLoop
    (flagsFor s.noExecuteAvailable call.access call.privilege call.caching)
    call.tableFlags call.stop
    (call.stop.toNat / PAGE_SIZE + 2) call.firstPage call.source s

/-! ## Questions -/

def translate (s : State) (virtual : BitVec 64) : BitVec 64 :=
  let entry := effective s virtual
  if entry = 0 then 0 else (entry &&& ADDRESS_MASK) ||| (virtual &&& OFFSET_MASK)

def isWritable (s : State) (virtual : BitVec 64) : Bool :=
  effective s virtual &&& WRITABLE ≠ 0

def isExecutable (s : State) (virtual : BitVec 64) : Bool :=
  let entry := effective s virtual
  entry ≠ 0 ∧ (!s.noExecuteAvailable ∨ entry &&& NO_EXECUTE = 0)

def isUserReadable (s : State) (virtual : BitVec 64) : Bool :=
  effective s virtual &&& USER ≠ 0

def isUserWritable (s : State) (virtual : BitVec 64) : Bool :=
  effective s virtual &&& (USER ||| WRITABLE) = USER ||| WRITABLE

/-! ## `Initialize` -/

/-- A call of `Map` that panics when it answers `false`. -/
def mapOrPanic (s : State) (call : MapCall) : Outcome State := do
  let (mapped, s) ← map s call
  if mapped then return s
  else .error (.panic "Not enough memory for the kernel page tables")

def mapIdentity (s : State) (start stop : Nat) (access : Access)
    (caching : Caching) : Outcome State :=
  if stop ≤ start then .ok s
  else
    mapOrPanic s
      { virtual := BitVec.ofNat 64 start
        physical := BitVec.ofNat 64 start
        size := BitVec.ofNat 64 (sub64 stop start)
        access := access
        privilege := .kernel
        caching := caching }

/-- The body of the loop of `MapDirectMap`. -/
def mapDirectRegion (s : State) (region : MemoryRegion) : Outcome State := do
  let s ← mapOrPanic s
    { virtual := BitVec.ofNat 64 (toVirtual region.address)
      physical := BitVec.ofNat 64 region.address
      size := BitVec.ofNat 64 region.length
      access := .readWrite
      privilege := .kernel
      caching := .normal }
  return { s with mappedRamEnd := max s.mappedRamEnd region.stop }

def mapDirectMap (boot : Handover) (s : State) : Outcome State :=
  (Frame.availableRegions boot).foldlM mapDirectRegion s

def mapKernelSpan (s : State) (span : Range) (access : Access) : Outcome State :=
  if span.stop ≤ span.start then .ok s
  else
    mapOrPanic s
      { virtual := BitVec.ofNat 64 span.start
        physical := BitVec.ofNat 64 (sub64 span.start Config.KERNEL_VMA)
        size := BitVec.ofNat 64 (sub64 span.stop span.start)
        access := access
        privilege := .kernel
        caching := .normal }

def mapKernelImage (boot : Handover) (s : State) : Outcome State := do
  let s ← mapIdentity s boot.bootSpan.start boot.bootSpan.stop .readExecute .normal
  let s ← mapKernelSpan s boot.textSpan .readExecute
  let s ← mapKernelSpan s boot.rodataSpan .readOnly
  mapKernelSpan s boot.dataSpan .readWrite

def mapDeviceRegisters (boot : Handover) (s : State) : Outcome State := do
  let s ← mapIdentity s boot.localApicAddress
    (wrap64 (boot.localApicAddress + PAGE_SIZE)) .readWrite .disabled
  if boot.ioApicAddress ≠ 0 then
    mapIdentity s boot.ioApicAddress (wrap64 (boot.ioApicAddress + PAGE_SIZE)) .readWrite .disabled
  else return s

/-- The first part of `Initialize`: an empty root. -/
def createRoot (boot : Handover) (memory : ByteMemory) (frames : Frame.State) :
    Outcome State := do
  let (root, s) := allocateTable
    { memory := memory
      frames := frames
      root := 0
      noExecuteAvailable := boot.noExecute
      tableCount := 0
      mappedRamEnd := 0 }
  if root = 0 then .error (.panic "No memory for the kernel page tables")
  else return { s with root := root }

/-- `Paging::Initialize`. -/
def initializeState (boot : Handover) (memory : ByteMemory) (frames : Frame.State) :
    Outcome State := do
  let s ← createRoot boot memory frames
  let s ← mapIdentity s 0 LOW_MEMORY_END .readWrite .normal
  let s ← mapDeviceRegisters boot s
  let s ← mapDirectMap boot s
  let s ← mapKernelImage boot s
  assert "s_Root < 4 * GIB" (s.root < 4 * GIB)
  return { s with frames := Frame.setReachableLimit s.frames s.mappedRamEnd }

end X64HK.Paging
