import X64HK.Lib.ByteMemory
import X64HK.Memory.Paging

/-!
# The kernel heap

A model of `Kernel/Memory/Heap.cpp`, a buddy allocator whose headers and
free lists stand in the memory it hands out.  `memory` is addressed by the
pointers of the source.  A `BlockHeader` is sixteen bytes: the magic at 0,
the order at 4, the flag at 5, two bytes of padding and the next pointer
at 8.

* `allocate` takes the first block of the smallest list that can serve the
  request, and splits it down to the order it wants.
* `free` merges a block with its buddy as long as the bytes at the buddy's
  offset look like the header of a free block of the same order, and
  `removeFree` finds it on its list.
* `reallocate` and `calloc` are built from the two.

The walk of `removeFree` has as much fuel as there are smallest blocks.
-/

namespace X64HK.Heap

def MIN_ORDER : Nat := 5
def MAX_ORDER : Nat := Config.HEAP_LOG2
def HEAP_SIZE : Nat := 2 ^ MAX_ORDER
def BLOCK_MAGIC : Nat := 0x484B424C
/-- `sizeof(BlockHeader)`. -/
def HEADER_SIZE : Nat := 16

/-- The statics of `Heap.cpp`.  The list of order `k` is at `k`, where the
source subtracts `MIN_ORDER` to index an array. -/
structure State where
  memory : ByteMemory
  /-- `s_Region`. -/
  region : Nat
  freeLists : Nat → Nat
  usedBytes : Nat

/-! ## Headers -/

def blockAt (s : State) (offset : Nat) : Nat := wrap64 (s.region + offset)

def offsetOf (s : State) (block : Nat) : Nat := sub64 block s.region

def magic (s : State) (block : Nat) : Nat := s.memory.load block 4

def order (s : State) (block : Nat) : Nat := s.memory.load (block + 4) 1

def isFree (s : State) (block : Nat) : Nat := s.memory.load (block + 5) 1

def nextFree (s : State) (block : Nat) : Nat := s.memory.load (block + 8) 8

def setMagic (s : State) (block value : Nat) : State :=
  { s with memory := s.memory.store block 4 value }

def setOrder (s : State) (block value : Nat) : State :=
  { s with memory := s.memory.store (block + 4) 1 value }

def setIsFree (s : State) (block value : Nat) : State :=
  { s with memory := s.memory.store (block + 5) 1 value }

def setNextFree (s : State) (block value : Nat) : State :=
  { s with memory := s.memory.store (block + 8) 8 value }

def setList (s : State) (order block : Nat) : State :=
  { s with freeLists := Function.update s.freeLists order block }

/-! ## Free lists -/

/-- The loop of `OrderFor` with `n` orders to go. -/
def orderForLoop (bytes : Nat) : Nat → Nat → Nat
  | 0, order => order
  | n + 1, order => if 2 ^ order < bytes then orderForLoop bytes n (order + 1) else order

/-- `OrderFor`. -/
def orderFor (bytes : Nat) : Nat :=
  orderForLoop bytes (MAX_ORDER - MIN_ORDER) MIN_ORDER

/-- `PushFree`. -/
def pushFree (s : State) (block order : Nat) : State :=
  let s := setMagic s block BLOCK_MAGIC
  let s := setOrder s block order
  let s := setIsFree s block 1
  let s := setNextFree s block (s.freeLists order)
  setList s order block

/-- Where a `BlockHeader**` points: to the head of a list or to the field
`NextFree` of a block. -/
inductive Link where
  | head (order : Nat)
  | next (block : Nat)

def Link.read (s : State) : Link → Nat
  | .head order => s.freeLists order
  | .next block => nextFree s block

def Link.write (s : State) (value : Nat) : Link → State
  | .head order => setList s order value
  | .next block => setNextFree s block value

/-- The loop of `RemoveFree`. -/
def removeFreeLoop (s : State) (block : Nat) : Nat → Link → Outcome (Bool × State)
  | 0, _ => .error .outOfFuel
  | fuel + 1, link =>
    let current := link.read s
    if current = 0 then .ok (false, s)
    else if current = block then
      let s := link.write s (nextFree s block)
      let s := setNextFree s block 0
      let s := setIsFree s block 0
      .ok (true, s)
    else removeFreeLoop s block fuel (.next current)

/-- `RemoveFree`. -/
def removeFree (s : State) (block order : Nat) : Outcome (Bool × State) :=
  removeFreeLoop s block (HEAP_SIZE / 2 ^ MIN_ORDER + 1) (.head order)

/-! ## `Initialize`, `Allocate` and `Free` -/

/-- `Initialize` once the frames are there. -/
def initializeAt (memory : ByteMemory) (region : Nat) : State :=
  let s : State :=
    { memory := memory
      region := region
      freeLists := fun _ => 0
      usedBytes := 0 }
  pushFree s (blockAt s 0) MAX_ORDER

/-- `Initialize`.  The region is where the direct map shows the frames. -/
def initializeState (memory : ByteMemory) (frames : Frame.State) :
    Outcome (State × Frame.State) := do
  let (address, frames) := Frame.allocate frames (HEAP_SIZE / Frame.SIZE)
  let region := if address ≠ 0 then Paging.toVirtual address else 0
  if region = 0 then
    .error (.panic "Not enough physical memory for the kernel heap")
  else return (initializeAt memory region, frames)

/-- The first loop of `Allocate`, with `n` orders to go. -/
def findOrder (s : State) : Nat → Nat → Nat
  | 0, order => order
  | n + 1, order => if s.freeLists order = 0 then findOrder s n (order + 1) else order

/-- The second loop of `Allocate`: `n` is how far the order is above the one
that is wanted. -/
def splitLoop (block wanted : Nat) : State → Nat → State
  | s, 0 => s
  | s, n + 1 =>
    let order := wanted + n
    splitLoop block wanted (pushFree s (blockAt s (offsetOf s block + 2 ^ order)) order) n

/-- The last lines of `Allocate`. -/
def handOut (s : State) (block wanted : Nat) : State :=
  let s := setMagic s block BLOCK_MAGIC
  let s := setOrder s block wanted
  let s := setIsFree s block 0
  let s := setNextFree s block 0
  { s with usedBytes := wrap64 (s.usedBytes + 2 ^ wanted) }

/-- `Allocate`.  The answer is zero for a null pointer. -/
def allocate (s : State) (size : Nat) : Nat × State :=
  if size = 0 then (0, s)
  else
    let needed := wrap64 (size + HEADER_SIZE)
    if needed > HEAP_SIZE then (0, s)
    else
      let wanted := orderFor needed
      let order := findOrder s (MAX_ORDER + 1 - wanted) wanted
      if order > MAX_ORDER then (0, s)
      else
        let block := s.freeLists order
        let s := setList s order (nextFree s block)
        let s := splitLoop block wanted s (order - wanted)
        (wrap64 (block + HEADER_SIZE), handOut s block wanted)

/-- The loop of `Free` with `n` orders below the largest to go.  The answer
is the merged block. -/
def mergeLoop : Nat → State → Nat → Nat → Outcome (Nat × Nat × State)
  | 0, s, offset, order => .ok (offset, order, s)
  | n + 1, s, offset, k => do
    let buddyOffset := offset ^^^ 2 ^ k
    let buddy := blockAt s buddyOffset
    if magic s buddy ≠ BLOCK_MAGIC ∨ isFree s buddy = 0 ∨ order s buddy ≠ k then
      return (offset, k, s)
    else
      let (removed, s) ← removeFree s buddy k
      if removed then mergeLoop n s (min offset buddyOffset) (k + 1)
      else return (offset, k, s)

/-- `Free`. -/
def free (s : State) (pointer : Nat) : Outcome State :=
  if pointer = 0 then .ok s
  else do
    let block := sub64 pointer HEADER_SIZE
    assert "block->Magic == BLOCK_MAGIC" (magic s block = BLOCK_MAGIC)
    assert "block->IsFree == 0" (isFree s block = 0)
    if magic s block ≠ BLOCK_MAGIC ∨ isFree s block ≠ 0 then return s
    let k := order s block
    let s := { s with usedBytes := sub64 s.usedBytes (2 ^ k) }
    let (offset, k, s) ← mergeLoop (MAX_ORDER - k) s (offsetOf s block) k
    return pushFree s (blockAt s offset) k

/-- `Free` in a build with `NDEBUG`, where `ASSERT` is empty. -/
def freeNoAssert (s : State) (pointer : Nat) : Outcome State :=
  if pointer = 0 then .ok s
  else do
    let block := sub64 pointer HEADER_SIZE
    if magic s block ≠ BLOCK_MAGIC ∨ isFree s block ≠ 0 then return s
    let k := order s block
    let s := { s with usedBytes := sub64 s.usedBytes (2 ^ k) }
    let (offset, k, s) ← mergeLoop (MAX_ORDER - k) s (offsetOf s block) k
    return pushFree s (blockAt s offset) k

/-! ## `Reallocate` and `calloc` -/

/-- `memcpy` between two ranges that do not meet. -/
def memcpy (s : State) (dest source count : Nat) : State :=
  { s with memory := s.memory.copy dest count fun i => s.memory (source + i) }

/-- `memset` with zero.  The range wraps around at the end of the address space. -/
def memsetZero (s : State) (dest count : Nat) : State :=
  { s with memory := fun a => if sub64 a dest < count then 0 else s.memory a }

/-- `Reallocate`. -/
def reallocate (s : State) (pointer size : Nat) : Outcome (Nat × State) :=
  if pointer = 0 then .ok (allocate s size)
  else if size = 0 then do
    let s ← free s pointer
    return (0, s)
  else do
    let block := sub64 pointer HEADER_SIZE
    assert "block->Magic == BLOCK_MAGIC" (magic s block = BLOCK_MAGIC)
    let oldPayload := sub64 (2 ^ order s block) HEADER_SIZE
    if size ≤ oldPayload ∧ orderFor (wrap64 (size + HEADER_SIZE)) = order s block then
      return (pointer, s)
    else
      let (replacement, s) := allocate s size
      if replacement ≠ 0 then
        let s ← free (memcpy s replacement pointer (min size oldPayload)) pointer
        return (replacement, s)
      else return (0, s)

/-- `calloc`. -/
def calloc (s : State) (count size : Nat) : Nat × State :=
  let total := wrap64 (count * size)
  if count ≠ 0 ∧ total / count ≠ size then (0, s)
  else
    let (pointer, s) := allocate s total
    if pointer ≠ 0 then (pointer, memsetZero s pointer total) else (0, s)

end X64HK.Heap
