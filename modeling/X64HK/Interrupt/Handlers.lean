import Mathlib.Data.List.FinRange
import X64HK.Debug.Panic
import X64HK.Memory.KernelStackSlots

/-!
# Exception handlers and the interrupt descriptor table

A model of `Kernel/Interrupt/Handlers.cpp`.  A handler runs on an `Entry`:
the frame the CPU pushed, the number of the core, the slots of `s_Death`
and what the handler reads of the rest of the machine.  It is a state
computation that either returns, and the `iretq` then goes where the frame
says, or panics.  A panic keeps the entry as it was at that point.

* `killUserTask` rewrites the frame of a fault in ring 3.
* `installHandlers` fills the table in the order of the source, so that a
  later `set` of the same vector wins.
* `deliver` is what an exception does: look the vector up and run its
  handler.

The diagnostics the handlers print are not modelled.
-/

namespace X64HK.Interrupt

/-! ## The machine around a handler -/

/-- What the CPU pushes before it enters a handler. -/
structure InterruptContext where
  ip : Nat
  cs : BitVec 16
  flags : Nat
  sp : Nat
  ss : BitVec 16
  deriving DecidableEq, Repr

/-- An index of the interrupt descriptor table. -/
abbrev Vector := Fin 256

namespace Vector

def DIVIDE_ERROR : Vector := 0
def DEBUG : Vector := 1
def NON_MASKABLE_INTERRUPT : Vector := 2
def INVALID_OPCODE : Vector := 6
def DOUBLE_FAULT : Vector := 8
def INVALID_TSS : Vector := 10
def SEGMENT_NOT_PRESENT : Vector := 11
def STACK_SEGMENT_FAULT : Vector := 12
def GENERAL_PROTECTION_FAULT : Vector := 13
def PAGE_FAULT : Vector := 14
def ALIGNMENT_CHECK : Vector := 17
def MACHINE_CHECK : Vector := 18
def CONTROL_PROTECTION : Vector := 21
def SECURITY_EXCEPTION : Vector := 30
def TIMER : Vector := 0x20
def KEYBOARD : Vector := 0x21
def ASSASSIN : Vector := 0x22
def WAKEUP : Vector := 0x23
def SPURIOUS : Vector := 0xFF

end Vector

/-- `Gdt::KERNEL_CODE`. -/
def KERNEL_CODE : BitVec 16 := 0x08

/-- `Gdt::KERNEL_DATA`. -/
def KERNEL_DATA : BitVec 16 := 0x10

/-- `Cpu::Interrupt::FLAG_ENABLE`. -/
def FLAG_ENABLE : Nat := 2 ^ 9

/-- `HK_EXIT_FAULT_BASE`. -/
def EXIT_FAULT_BASE : Nat := 128

/-- What a dead task is remembered by. -/
structure Death where
  reason : String
  status : Nat
  deriving DecidableEq, Repr

/-- The epilogues that device handlers relay. -/
inductive Epilogue where
  | timer
  | keyboard
  | assassin
  | wakeup
  deriving DecidableEq, Repr

/-- What a device handler does to the rest of the machine. -/
inductive Action where
  | endOfInterrupt
  | drainToQueue
  | relay (epilogue : Epilogue)
  deriving DecidableEq, Repr

/-- What a handler can see and change. -/
structure Entry where
  context : InterruptContext
  /-- `Cpu::GetId()`. -/
  core : Nat
  /-- `s_Death`, one slot for each core.  A slot is empty until the first
  fault on its core. -/
  death : Nat → Option Death
  /-- `Gdt::GetKernelStack`, the field `Rsp[0]` of each core's TSS. -/
  kernelStack : Nat → Nat
  /-- How many kernel stacks were handed out. -/
  stackCount : Nat
  /-- The register `CR2`. -/
  cr2 : Nat
  /-- The address of `TerminateFaultedTask`. -/
  terminateFaultedTask : Nat
  actions : List Action

/-- A handler returns, or panics in the entry it has reached. -/
abbrev HandlerM := EStateM Halt Entry

/-! ## The handlers -/

/-- The frame that `KillUserTask` leaves behind. -/
def killedContext (entry : Entry) : InterruptContext where
  ip := entry.terminateFaultedTask
  cs := KERNEL_CODE
  flags := FLAG_ENABLE ||| 2
  sp := sub64 (entry.kernelStack entry.core) 8
  ss := KERNEL_DATA

/-- `KillUserTask`.  The answer says whether the frame was rewritten. -/
def killUserTask (reason : String) (vector : Vector) : HandlerM Bool := do
  let entry ← get
  if entry.context.cs &&& 3 ≠ 3 then return false
  set { entry with
    context := killedContext entry
    death := Function.update entry.death entry.core (some ⟨reason, EXIT_FAULT_BASE + vector.val⟩) }
  return true

/-- The shape of the handlers that kill the task or panic. -/
def killOrPanic (reason : String) (vector : Vector) (message : String) :
    HandlerM Unit := do
  if ← killUserTask reason vector then return
  throw (.panic message)

/-- The functions that the table points to. -/
inductive Handler where
  | divideError
  | invalidOpcode
  | doubleFault
  | invalidTss
  | segmentNotPresent
  | stackSegmentFault
  | generalProtectionFault
  | pageFault
  | nonMaskableInterrupt
  | machineCheck
  | unexpected
  | unexpectedWithError
  | spurious
  | timer
  | keyboard
  | assassin
  | wakeup
  deriving DecidableEq, Repr

/-- The four that differ in their texts only. -/
def handleDivideError : HandlerM Unit :=
  killOrPanic "divided by zero" Vector.DIVIDE_ERROR "Divide error"

def handleInvalidOpcode : HandlerM Unit :=
  killOrPanic "executed an invalid opcode" Vector.INVALID_OPCODE "Invalid opcode"

def handleStackSegmentFault : HandlerM Unit :=
  killOrPanic "faulted on its stack segment" Vector.STACK_SEGMENT_FAULT "Stack segment fault"

def handleGeneralProtectionFault : HandlerM Unit :=
  killOrPanic "attempted a privileged operation" Vector.GENERAL_PROTECTION_FAULT
    "General protection fault"

/-- `HandlePageFault`.  The guard pages are looked at before the privilege
level. -/
def handlePageFault : HandlerM Unit := do
  let entry ← get
  if KernelStack.isGuardPage (KernelStack.nextSlot entry.stackCount) entry.cr2 then
    throw (.panic "Kernel stack overflow")
  killOrPanic "touched memory it does not own" Vector.PAGE_FAULT "Page fault"

/-- The shape of the handlers of devices. -/
def perform (actions : List Action) : HandlerM Unit :=
  modify fun entry => { entry with actions := entry.actions ++ actions }

/-- The body of each function.  The error code of the exception is only
printed. -/
def Handler.run (_error : Nat) : Handler → HandlerM Unit
  | .divideError => handleDivideError
  | .invalidOpcode => handleInvalidOpcode
  | .doubleFault => throw (.panic "Double fault")
  | .invalidTss => throw (.panic "Invalid TSS")
  | .segmentNotPresent => throw (.panic "Segment not present")
  | .stackSegmentFault => handleStackSegmentFault
  | .generalProtectionFault => handleGeneralProtectionFault
  | .pageFault => handlePageFault
  | .nonMaskableInterrupt => throw (.panic "Non-maskable interrupt")
  | .machineCheck => throw (.panic "Machine check")
  | .unexpected => throw (.panic "Unexpected interrupt")
  | .unexpectedWithError => throw (.panic "Unexpected exception")
  | .spurious => pure ()
  | .timer => perform [.endOfInterrupt, .relay .timer]
  | .keyboard => perform [.drainToQueue, .endOfInterrupt, .relay .keyboard]
  | .assassin => perform [.endOfInterrupt, .relay .assassin]
  | .wakeup => perform [.endOfInterrupt, .relay .wakeup]

/-! ## The table -/

/-- What a gate of the table says apart from its constant bits. -/
structure Gate where
  handler : Handler
  /-- The handler takes an error code. -/
  withError : Bool
  ist : Nat
  deriving DecidableEq, Repr

/-- The interrupt descriptor table. -/
abbrev Idt := Vector → Gate

/-- `Idt::Set`. -/
def Idt.set (idt : Idt) (entry : Vector × Gate) : Idt :=
  Function.update idt entry.1 entry.2

/-- `InterruptDescriptor::Returning`. -/
def returning (handler : Handler) (ist : Nat) : Gate := ⟨handler, false, ist⟩

/-- `InterruptDescriptor::ReturningWithError`. -/
def returningWithError (handler : Handler) (ist : Nat) : Gate :=
  ⟨handler, true, ist⟩

/-- `Gdt::IST_FAULT_STACK`. -/
def IST_FAULT_STACK : Nat := 1

/-- The exceptions for which the processor pushes an error code. -/
def ERROR_CODE_VECTORS : List Vector :=
  [Vector.DOUBLE_FAULT, Vector.INVALID_TSS, Vector.SEGMENT_NOT_PRESENT,
    Vector.STACK_SEGMENT_FAULT, Vector.GENERAL_PROTECTION_FAULT, Vector.PAGE_FAULT,
    Vector.ALIGNMENT_CHECK, Vector.CONTROL_PROTECTION, Vector.SECURITY_EXCEPTION]

/-- The gates that `InstallHandlers` sets one by one after its two loops. -/
def namedGates : List (Vector × Gate) :=
  [(Vector.DIVIDE_ERROR, returning .divideError 0),
    (Vector.INVALID_OPCODE, returning .invalidOpcode 0),
    (Vector.INVALID_TSS, returningWithError .invalidTss 0),
    (Vector.SEGMENT_NOT_PRESENT, returningWithError .segmentNotPresent 0),
    (Vector.STACK_SEGMENT_FAULT, returningWithError .stackSegmentFault 0),
    (Vector.GENERAL_PROTECTION_FAULT, returningWithError .generalProtectionFault 0),
    (Vector.PAGE_FAULT, returningWithError .pageFault IST_FAULT_STACK),
    (Vector.DOUBLE_FAULT, returningWithError .doubleFault IST_FAULT_STACK),
    (Vector.NON_MASKABLE_INTERRUPT, returning .nonMaskableInterrupt IST_FAULT_STACK),
    (Vector.MACHINE_CHECK, returning .machineCheck IST_FAULT_STACK),
    (Vector.TIMER, returning .timer 0),
    (Vector.KEYBOARD, returning .keyboard 0),
    (Vector.ASSASSIN, returning .assassin 0),
    (Vector.WAKEUP, returning .wakeup 0),
    (Vector.SPURIOUS, returning .spurious 0)]

/-- `InstallHandlers`. -/
def installHandlers (idt : Idt) : Idt :=
  let idt := (List.finRange 256).foldl
    (fun idt vector => idt.set (vector, returning .unexpected 0)) idt
  let idt := ERROR_CODE_VECTORS.foldl
    (fun idt vector => idt.set (vector, returningWithError .unexpectedWithError 0)) idt
  namedGates.foldl Idt.set idt

/-- What the CPU runs when an exception arrives. -/
def deliver (idt : Idt) (vector : Vector) (error : Nat) : HandlerM Unit :=
  (idt vector).handler.run error

/-! ## What is installed -/

private theorem foldl_set_const (gate : Gate) (vectors : List Vector) (idt : Idt)
    (vector : Vector) :
    vectors.foldl (fun idt vector => idt.set (vector, gate)) idt vector =
      if vector ∈ vectors then gate else idt vector := by
  induction vectors generalizing idt with
  | nil => rfl
  | cons head tail ih =>
    rw [List.foldl_cons, ih]
    by_cases hv : vector = head
    · simp [hv, Idt.set]
    · simp [hv, Idt.set]

/-- The last entry of a list of gates that names the vector. -/
def lastGate (gates : List (Vector × Gate)) (vector : Vector) : Option Gate :=
  (gates.reverse.find? fun entry => entry.1 = vector).map Prod.snd

private theorem foldl_set (gates : List (Vector × Gate)) (idt : Idt) (vector : Vector) :
    gates.foldl Idt.set idt vector = (lastGate gates vector).getD (idt vector) := by
  induction gates generalizing idt with
  | nil => rfl
  | cons head tail ih =>
    rw [List.foldl_cons, ih, lastGate, lastGate, List.reverse_cons, List.find?_append]
    cases htail : tail.reverse.find? fun entry => entry.1 = vector with
    | some entry => rfl
    | none =>
      by_cases hv : head.1 = vector
      · simp [Idt.set, hv]
      · simp [Idt.set, hv, Ne.symm hv]

/-- Whatever the table held before, a vector ends up with its named gate, or
with the fallback that fits its frame. -/
theorem installHandlers_apply (idt : Idt) (vector : Vector) :
    installHandlers idt vector = (lastGate namedGates vector).getD
      (if vector ∈ ERROR_CODE_VECTORS then returningWithError .unexpectedWithError 0
        else returning .unexpected 0) := by
  unfold installHandlers
  rw [foldl_set, foldl_set_const, foldl_set_const, if_pos (List.mem_finRange _)]

end X64HK.Interrupt
