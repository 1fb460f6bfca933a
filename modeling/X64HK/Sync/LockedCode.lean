import X64HK.Lib.Locking
import X64HK.Device.KeyPipeline
import X64HK.Memory.Heap
import X64HK.Memory.KernelStackSlots
import X64HK.User.Task

/-!
# The code under spin locks

Every function of the kernel that takes a `SpinLock`, as the steps that it takes one at a
time.  `Frame.cpp`, `Paging.cpp`, `Heap.cpp` and `KernelStack.cpp` have a lock each, and so
have the stacks of `User/Task.cpp` and the bytes of `Ps2Controller.cpp`.  All but the last
turn interrupts off before they take the lock, and `DrainToQueue` runs in a prologue, where
they are off.

The locks nest.  `Map` and the heap allocate frames while they hold theirs, and
`KernelStack::Allocate` allocates frames and maps them.

`.stop` is where a function panics or fails an assertion.  It also stands for a loop over
links that do not end.
-/

namespace X64HK.Locks

open Locking Paging KeyPipeline

inductive Lock where
  /-- `s_Lock` of `Frame.cpp`. -/
  | frame
  /-- `s_Lock` of `Paging.cpp`. -/
  | paging
  /-- `s_Lock` of `Heap.cpp`. -/
  | heap
  /-- `s_Lock` of `KernelStack.cpp`. -/
  | kernelStack
  /-- `s_StackLock` of `User/Task.cpp`. -/
  | userStack
  /-- `s_RawLock` of `Ps2Controller.cpp`. -/
  | raw
  deriving DecidableEq, Repr

/-- A lock is taken under locks of a higher rank only. -/
def rank : Lock → Nat
  | .frame => 0
  | .paging => 1
  | .heap => 1
  | .kernelStack => 2
  | .userStack => 0
  | .raw => 0

/-! ## What the locks protect -/

/-- The page tables. -/
structure Tables where
  memory : ByteMemory
  root : Nat
  noExecuteAvailable : Bool
  tableCount : Nat

namespace Tables

def write (address : Nat) (entry : BitVec 64) (o : Tables) : Tables :=
  { o with memory := o.memory.write64 address entry }

/-- `entry |= InTableFlags`. -/
def openEntry (address : Nat) (tableFlags : BitVec 64) (o : Tables) : Tables :=
  o.write address (o.memory.read64 address ||| tableFlags)

def clear (table : Nat) (o : Tables) : Tables :=
  { o with memory := o.memory.fill table PAGE_SIZE 0 }

/-- `s_TableCount++`. -/
def count (o : Tables) : Tables := { o with tableCount := o.tableCount + 1 }

end Tables

/-- The statics of `Heap.cpp`. -/
structure HeapBlocks where
  initialized : Bool
  heap : Heap.State

namespace HeapBlocks

/-- A step on the blocks and the lists. -/
def change (f : Heap.State → Heap.State) (o : HeapBlocks) : HeapBlocks :=
  { o with heap := f o.heap }

/-- The loop of `Initialize` and the assignments around it. -/
def clear (region : Nat) : HeapBlocks → HeapBlocks :=
  change fun s =>
    { memory := s.memory
      region := region
      freeLists := fun _ => 0
      usedBytes := 0 }

def setInitialized (o : HeapBlocks) : HeapBlocks := { o with initialized := true }

end HeapBlocks

/-- What a lock protects.  The stacks have a watermark each. -/
abbrev Object : Lock → Type
  | .frame => Frame.State
  | .paging => Tables
  | .heap => HeapBlocks
  | .kernelStack => Nat
  | .userStack => Nat
  | .raw => RingBuffer (BitVec 8)

abbrev Code := Program Lock Object

/-! ## `Frame.cpp` -/

/-- `Frame::Allocate`. -/
def frameAllocate (count : Nat) (next : Nat → Code) : Code :=
  if count = 0 then next 0
  else
    .enter .frame <| .access .frame id fun s =>
      match Frame.findFirst s count with
      | none => .leave .frame (next 0)
      | some first =>
        .updates .frame ((List.range' first count).map fun index s => Frame.take s index) <|
        .access .frame (fun s => { s with freeFrames := sub64 s.freeFrames count }) fun _ =>
        .access .frame
          (fun s => { s with
            nextIndex := if first + count < s.reachableFrames then first + count else 0 })
          fun _ => .leave .frame (next (first * Frame.SIZE))

/-- The loop of `Frame::Free`. -/
def frameFreeLoop (next : Code) : List Nat → Code
  | [] => next
  | index :: rest =>
    .access .frame id fun s =>
      if Frame.isTaken s index then
        .access .frame (fun s => Frame.release s index) fun _ =>
        .access .frame (fun s => { s with freeFrames := s.freeFrames + 1 }) fun _ =>
        frameFreeLoop next rest
      else .stop

/-- `Frame::Free`. -/
def frameFree (address count : Nat) (next : Code) : Code :=
  if address = 0 ∨ count = 0 then next
  else if address % Frame.SIZE ≠ 0 then .stop
  else
    .enter .frame <| .access .frame id fun s =>
      let first := address / Frame.SIZE
      if wrap64 (first + count) ≤ s.frameCount then
        frameFreeLoop (.leave .frame next) (List.range' first (wrap64 (first + count) - first))
      else .stop

/-- `Frame::SetReachableLimit`. -/
def setReachableLimit (limit : Nat) (next : Code) : Code :=
  .enter .frame <| .access .frame (fun s => Frame.setReachableLimit s limit) fun _ =>
    .leave .frame next

/-! ## `Paging.cpp` -/

/-- `AllocateTable`. -/
def allocateTable (next : Nat → Code) : Code :=
  frameAllocate 1 fun frame =>
    if frame = 0 then next 0
    else
      .access .paging (Tables.clear frame) fun _ =>
      .access .paging Tables.count fun _ => next frame

/-- The loop of `Descend` with `n` levels to go above `level`. -/
def descendLoop (virtual tableFlags : BitVec 64) (level : Nat) (next : Option Nat → Code) :
    Nat → Nat → Code
  | 0, table => next (some table)
  | n + 1, table =>
    let address := entryAddress table virtual (level + n + 1)
    let rest : Code :=
      .access .paging (Tables.openEntry address tableFlags) fun _ =>
      .access .paging id fun o =>
        descendLoop virtual tableFlags level next n (o.memory.read64 address &&& ADDRESS_MASK).toNat
    .access .paging id fun o =>
      if o.memory.read64 address &&& PRESENT = 0 then
        allocateTable fun created =>
          if created = 0 then next none
          else
            .access .paging
              (Tables.write address (BitVec.ofNat 64 created ||| PRESENT ||| WRITABLE))
              fun _ => rest
      else rest

/-- The loop of `Map`. -/
def mapLoop (flags tableFlags stop : BitVec 64) (next : Bool → Code) :
    Nat → BitVec 64 → BitVec 64 → Code
  | 0, _, _ => .stop
  | fuel + 1, page, source =>
    if page < stop then
      .access .paging id fun o =>
        descendLoop page tableFlags LEAF_LEVEL
          (fun table =>
            match table with
            | none => next false
            | some table =>
              .access .paging (Tables.write (entryAddress table page LEAF_LEVEL) (source ||| flags))
                fun _ =>
                  mapLoop flags tableFlags stop next fuel (page + BitVec.ofNat 64 PAGE_SIZE)
                    (source + BitVec.ofNat 64 PAGE_SIZE))
          (TOP_LEVEL - LEAF_LEVEL) o.root
    else next true

/-- `Paging::Map`. -/
def map (call : MapCall) (next : Bool → Code) : Code :=
  .enter .paging <| .access .paging id fun o =>
    mapLoop (flagsFor o.noExecuteAvailable call.access call.privilege call.caching)
      call.tableFlags call.stop (fun mapped => .leave .paging (next mapped))
      (call.stop.toNat / PAGE_SIZE + 2) call.firstPage call.source

/-! ## Stacks -/

/-- `KernelStack::Allocate`. -/
def kernelStackAllocate (next : Nat → Code) : Code :=
  .enter .kernelStack <| .access .kernelStack KernelStack.advance fun slot =>
    frameAllocate (Config.THREAD_STACK_SIZE / PAGE_SIZE) fun frames =>
      if frames = 0 then .stop
      else
        map
          { virtual := BitVec.ofNat 64 (slot + KernelStack.GUARD_SIZE)
            physical := BitVec.ofNat 64 frames
            size := BitVec.ofNat 64 Config.THREAD_STACK_SIZE
            access := .readWrite
            privilege := .kernel
            caching := .normal }
          fun mapped =>
            if mapped then .leave .kernelStack (next (wrap64 (slot + KernelStack.STRIDE)))
            else .stop

/-- `User::AllocateStack`.  It gives the lock back before it needs frames. -/
def allocateStack (next : Nat → Code) : Code :=
  .enter .userStack <| .access .userStack (fun top => sub64 top User.STACK_STRIDE) fun top =>
    .leave .userStack <|
      frameAllocate (HK.USER_STACK_SIZE / PAGE_SIZE) fun frames =>
        if frames = 0 then next 0
        else
          map
            { virtual := BitVec.ofNat 64 (sub64 top HK.USER_STACK_SIZE)
              physical := BitVec.ofNat 64 frames
              size := BitVec.ofNat 64 HK.USER_STACK_SIZE
              access := .readWrite
              privilege := .user
              caching := .normal }
            fun mapped => next (if mapped then top else 0)

/-! ## `Heap.cpp` -/

/-- `Heap::Initialize`, called with the lock. -/
def heapInitialize (next : Code) : Code :=
  frameAllocate (Heap.HEAP_SIZE / Frame.SIZE) fun frames =>
    let region := if frames ≠ 0 then toVirtual frames else 0
    if region = 0 then .stop
    else
      .access .heap (HeapBlocks.clear region) fun _ =>
      .access .heap (HeapBlocks.change fun s => Heap.pushFree s (Heap.blockAt s 0) Heap.MAX_ORDER)
        fun _ => .access .heap HeapBlocks.setInitialized fun _ => next

/-- What the second loop of `Allocate` does, from the largest upper half down. -/
def splits (block wanted : Nat) : Nat → List (Heap.State → Heap.State)
  | 0 => []
  | n + 1 =>
    (fun s =>
      Heap.pushFree s (Heap.blockAt s (Heap.offsetOf s block + 2 ^ (wanted + n))) (wanted + n)) ::
    splits block wanted n

/-- `Heap::Allocate` once the heap is there. -/
def heapAllocateLocked (size : Nat) (next : Nat → Code) : Code :=
  let needed := wrap64 (size + Heap.HEADER_SIZE)
  if needed > Heap.HEAP_SIZE then .leave .heap (next 0)
  else
    let wanted := Heap.orderFor needed
    .access .heap id fun o =>
      let order := Heap.findOrder o.heap (Heap.MAX_ORDER + 1 - wanted) wanted
      if order > Heap.MAX_ORDER then .leave .heap (next 0)
      else
        let block := o.heap.freeLists order
        .access .heap (HeapBlocks.change fun s => Heap.setList s order (Heap.nextFree s block))
          fun _ =>
        .updates .heap ((splits block wanted (order - wanted)).map HeapBlocks.change) <|
        .access .heap (HeapBlocks.change fun s => Heap.handOut s block wanted) fun _ =>
        .leave .heap (next (wrap64 (block + Heap.HEADER_SIZE)))

/-- `Heap::Allocate`. -/
def heapAllocate (size : Nat) (next : Nat → Code) : Code :=
  if size = 0 then next 0
  else
    .enter .heap <| .access .heap id fun o =>
      if o.initialized then heapAllocateLocked size next
      else heapInitialize (heapAllocateLocked size next)

/-- The loop of `Heap::Free` with `n` orders below the largest to go. -/
def mergeLoop (next : Nat → Nat → Code) : Nat → Nat → Nat → Code
  | 0, offset, order => next offset order
  | n + 1, offset, k =>
    .access .heap id fun o =>
      let s := o.heap
      let buddyOffset := offset ^^^ 2 ^ k
      let buddy := Heap.blockAt s buddyOffset
      if Heap.magic s buddy ≠ Heap.BLOCK_MAGIC ∨ Heap.isFree s buddy = 0 ∨
          Heap.order s buddy ≠ k then next offset k
      else
        match Heap.removeFree s buddy k with
        | .error _ => .stop
        | .ok (removed, s) =>
          .access .heap (HeapBlocks.change fun _ => s) fun _ =>
            if removed then mergeLoop next n (min offset buddyOffset) (k + 1)
            else next offset k

/-- `Heap::Free`. -/
def heapFree (pointer : Nat) (next : Code) : Code :=
  if pointer = 0 then next
  else
    .enter .heap <| .access .heap id fun o =>
      let s := o.heap
      let block := sub64 pointer Heap.HEADER_SIZE
      if Heap.magic s block ≠ Heap.BLOCK_MAGIC ∨ Heap.isFree s block ≠ 0 then .stop
      else
        let k := Heap.order s block
        .access .heap (HeapBlocks.change fun s =>
          { s with usedBytes := sub64 s.usedBytes (2 ^ k) }) fun _ =>
        mergeLoop
          (fun offset k =>
            .access .heap (HeapBlocks.change fun s => Heap.pushFree s (Heap.blockAt s offset) k)
              fun _ => .leave .heap next)
          (Heap.MAX_ORDER - k) (Heap.offsetOf s block) k

/-! ## `Ps2Controller.cpp` -/

/-- `Status::HAS_OUTPUT`. -/
def HAS_OUTPUT : BitVec 8 := 1 <<< 0

/-- `Status::IS_MOUSE`. -/
def IS_MOUSE : BitVec 8 := 1 <<< 5

/-- `RingBuffer::Produce` of a raw byte. -/
def produceRaw (code : BitVec 8) (next : Code) : Code :=
  .access .raw id fun ring =>
    if (ring.write + 1) % RAW_SIZE = ring.read then next
    else
      .access .raw (fun ring => { ring with data := Function.update ring.data ring.write code })
        fun _ =>
      .access .raw (fun ring => { ring with write := (ring.write + 1) % RAW_SIZE }) fun _ => next

/-- The loop of `DrainToQueue`.  Each attempt reads a status and a byte from the
controller. -/
def drainLoop (next : Code) : List (BitVec 8 × BitVec 8) → Code
  | [] => next
  | (status, code) :: rest =>
    if status &&& HAS_OUTPUT = 0 then next
    else if status &&& IS_MOUSE = 0 then produceRaw code (drainLoop next rest)
    else drainLoop next rest

/-- `DrainToQueue`, which does not turn interrupts off itself. -/
def drainToQueue (port : Nat → BitVec 8 × BitVec 8) (next : Code) : Code :=
  .acquire .raw <| drainLoop (.release .raw next) ((List.range 16).map port)

/-- `Fetch`, up to the byte that it decodes.  The replies that it skips may be many. -/
def fetch (next : Option (BitVec 8) → Code) : Nat → Code
  | 0 => .stop
  | fuel + 1 =>
    .enter .raw <| .access .raw id fun ring =>
      if ring.read = ring.write then .leave .raw (next none)
      else
        let code := ring.data ring.read
        .access .raw (fun ring => { ring with read := (ring.read + 1) % RAW_SIZE }) fun _ =>
        .leave .raw <| if IsReply code then fetch next fuel else next (some code)

/-! ## Callers -/

/-- What a thread or an epilogue calls.  It goes on by what the call returned. -/
inductive Caller where
  | done
  | frameAllocate (count : Nat) (next : Nat → Caller)
  | frameFree (address count : Nat) (next : Caller)
  | setReachableLimit (limit : Nat) (next : Caller)
  | map (call : MapCall) (next : Bool → Caller)
  | kernelStackAllocate (next : Nat → Caller)
  | allocateStack (next : Nat → Caller)
  | heapAllocate (size : Nat) (next : Nat → Caller)
  | heapFree (pointer : Nat) (next : Caller)
  /-- With a bound on the replies that it skips. -/
  | fetch (replies : Nat) (next : Option (BitVec 8) → Caller)

/-- The code of a caller, and `last` behind it. -/
def Caller.code (last : Code) : Caller → Code
  | .done => last
  | .frameAllocate count next => Locks.frameAllocate count fun frames => (next frames).code last
  | .frameFree address count next => Locks.frameFree address count (next.code last)
  | .setReachableLimit limit next => Locks.setReachableLimit limit (next.code last)
  | .map call next => Locks.map call fun mapped => (next mapped).code last
  | .kernelStackAllocate next => Locks.kernelStackAllocate fun slot => (next slot).code last
  | .allocateStack next => Locks.allocateStack fun top => (next top).code last
  | .heapAllocate size next => Locks.heapAllocate size fun pointer => (next pointer).code last
  | .heapFree pointer next => Locks.heapFree pointer (next.code last)
  | .fetch replies next => Locks.fetch (fun code => (next code).code last) (replies + 1)

/-- Where the epilogue runs at once, `Leave` turns interrupts on for it and off again. -/
def runEpilogue : Option Caller → Code
  | none => .done
  | some caller => .restore (caller.code (.disable .done))

/-- A handler.  That of the keyboard drains the controller in its prologue. -/
def handler (port : Option (Nat → BitVec 8 × BitVec 8)) (epilogue : Option Caller) : Code :=
  match port with
  | none => runEpilogue epilogue
  | some port => drainToQueue port (runEpilogue epilogue)

/-- What happens to the threads of the kernel. -/
inductive Event (κ : Type) where
  | call (thread : κ) (caller : Caller)
  | interrupt (thread : κ) (port : Option (Nat → BitVec 8 × BitVec 8)) (epilogue : Option Caller)
  | proceed (thread : κ)
  | switch (thread next : κ)

def Event.action {κ : Type} : Event κ → Locking.Action Lock κ Object
  | .call thread caller => .call thread (caller.code .done)
  | .interrupt thread port epilogue => .interrupt thread (handler port epilogue)
  | .proceed thread => .proceed thread
  | .switch thread next => .switch thread next

end X64HK.Locks
