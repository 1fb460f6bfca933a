import X64HK.Memory.FrameRuns
import X64HK.Memory.Heap
import X64HK.Memory.KernelStackSlots

/-!
# The memory of the running kernel

`Kernel` puts the statics of the memory modules side by side: the page
tables with the frame allocator below them, and the watermarks from which
stacks are handed out.  `boot` is the start of `Kernel/Main.cpp` up to
`Heap::Initialize`.

Every call of `Frame::Allocate` that the modules above the page tables make
goes through `allocateFrames`, which writes down who got the run.  The
record `handedOut` is history.  No function reads it, and it is there for
statements about whose memory a frame is.

The kernel reaches physical memory through the direct map.  The model
applies such reads and writes to physical memory itself.
-/

namespace X64HK

open Multiboot
open X64HK.Frame (Run)

/-- Who asked `Frame::Allocate` for a run. -/
inductive Owner where
  /-- `Heap::Initialize`. -/
  | heap
  /-- `KernelStack::Allocate`. -/
  | kernelStack
  /-- `User::AllocateStack`. -/
  | userStack
  /-- `User::LoadSegment`. -/
  | segment
  deriving DecidableEq, Repr

/-- The owners whose frames ring 3 may see. -/
def Owner.IsUser (owner : Owner) : Prop := owner = .userStack ∨ owner = .segment

instance (owner : Owner) : Decidable owner.IsUser := inferInstanceAs (Decidable (_ ∨ _))

structure Kernel where
  paging : Paging.State
  /-- `KernelStack::s_NextSlot`. -/
  nextSlot : Nat
  /-- `User::s_NextStackTop`. -/
  nextStackTop : Nat
  handedOut : List (Owner × Run)

namespace Kernel

/-- The runs that `handedOut` records. -/
def runs (k : Kernel) : List Run := k.handedOut.map Prod.snd

/-- `Frame::Allocate` on behalf of an owner. -/
def allocateFrames (k : Kernel) (owner : Owner) (count : Nat) : Nat × Kernel :=
  let result := Frame.allocate k.paging.frames count
  if result.1 = 0 then (0, { k with paging := { k.paging with frames := result.2 } })
  else
    (result.1,
      { k with
        paging := { k.paging with frames := result.2 }
        handedOut :=
          (owner, ⟨result.1, count, k.paging.frames.reachableFrames⟩) :: k.handedOut })

/-- `Paging::Map`. -/
def map (k : Kernel) (call : Paging.MapCall) : Outcome (Bool × Kernel) := do
  let (mapped, paging) ← Paging.map k.paging call
  return (mapped, { k with paging := paging })

def setMemory (k : Kernel) (memory : ByteMemory) : Kernel :=
  { k with paging := { k.paging with memory := memory } }

/-- `Heap::Initialize`, with the first header at the physical address of the
region. -/
def initializeHeap (k : Kernel) : Outcome Kernel := do
  let (frames, k) := k.allocateFrames .heap (Heap.HEAP_SIZE / Frame.SIZE)
  let region := if frames ≠ 0 then Paging.toVirtual frames else 0
  if region = 0 then
    .error (.panic "Not enough physical memory for the kernel heap")
  else return k.setMemory (Heap.initializeAt k.paging.memory frames).memory

end Kernel

/-- The start of the kernel, with the place of the frame bitmap. -/
def bootKernel (boot : Handover) (memory : ByteMemory) : Outcome (Kernel × Nat) := do
  let (frames, bitmap) ← Frame.initializeState boot
  let paging ← Paging.initializeState boot memory frames
  let k ← Kernel.initializeHeap
    { paging := paging
      nextSlot := Config.KERNEL_STACK_BASE
      nextStackTop := HK.USER_STACK_TOP
      handedOut := [] }
  return (k, bitmap)

namespace KernelStack

/-- `KernelStack::Allocate`.  The answer is the top of the stack. -/
def allocate (k : Kernel) : Outcome (Nat × Kernel) := do
  let slot := k.nextSlot
  let k := { k with nextSlot := advance k.nextSlot }
  let (frames, k) := k.allocateFrames .kernelStack (Config.THREAD_STACK_SIZE / Paging.PAGE_SIZE)
  if frames = 0 then .error (.panic "Out of memory for a kernel stack")
  else
    let (mapped, k) ← k.map
      { virtual := BitVec.ofNat 64 (slot + GUARD_SIZE)
        physical := BitVec.ofNat 64 frames
        size := BitVec.ofNat 64 Config.THREAD_STACK_SIZE
        access := .readWrite
        privilege := .kernel
        caching := .normal }
    if mapped then return (wrap64 (slot + STRIDE), k)
    else .error (.panic "Out of memory for a kernel stack mapping")

end KernelStack

end X64HK
