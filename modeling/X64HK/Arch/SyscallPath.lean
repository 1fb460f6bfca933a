import X64HK.Interrupt.Handlers
import X64HK.Lib.Transition
import X64HK.Memory.KernelStacks
import X64HK.Thread.Scheduler

/-!
# The way of a system call through the kernel

A model of `Kernel/Arch/Syscall.asm`, `Kernel/Arch/Context.asm` and
`Kernel/Thread/Dispatcher.cpp` at the level of registers and stack words.

The code of `SyscallEntry` is a list of instructions, and a core executes them one by
one.  So do the statements of `Dispatch`.  `ContextSwitch` is one step, because the Guard
is held there: an interrupt in between queues its epilogue and returns.

The functions in C++ are not modelled.  What they compute is up to the action `compute`,
within the rules that the assembly relies on: they write no stack word at or above the
frame that they were called on, and they return with the stack pointer and the
callee-saved registers that they were called with.  The same holds for interrupt handlers.

`Frame` is what a thread has to come back to.  The stack words decide where it really
comes back to.  If those say anything else, or if the registers that `ContextSwitch`
loads are not the ones that the thread had, the core is `lost`.

* `Layout` is where things are in memory.
* `Instr` and `SYSCALL_ENTRY` are the assembly, and `View.exec` is its meaning.
* `Machine.step` is one action of a core.
-/

namespace X64HK.SyscallPath

open Interrupt (KERNEL_CODE KERNEL_DATA FLAG_ENABLE)
open KernelStack (STRIDE GUARD_SIZE slotAt)

/-! ## Registers and flags -/

inductive Register where
  | rax | rbx | rcx | rdx | rsi | rdi | rbp | rsp
  | r8 | r9 | r10 | r11 | r12 | r13 | r14 | r15
  deriving DecidableEq, Repr

open Register

abbrev Registers := Register → Nat

abbrev Flags := BitVec 64

/-- The registers that a function of the System V ABI gives back, apart from `rsp`. -/
def CALLEE_SAVED : List Register := [rbx, rbp, r12, r13, r14, r15]

/-- The flag `IF`. -/
def INTERRUPT_FLAG : Flags := BitVec.ofNat 64 FLAG_ENABLE

def interruptsOn (flags : Flags) : Bool := flags &&& INTERRUPT_FLAG ≠ 0

/-- `MASKED_FLAGS`, the value of `SFMASK`. -/
def MASKED_FLAGS : Flags := 0x100 ||| 0x200 ||| 0x400 ||| 0x4000 ||| 0x40000

/-- The flags that `sysret` makes of `r11`.  It clears `RF`, `VM` and the reserved bits. -/
def sysretFlags (flags : Flags) : Flags := flags &&& 0x3C7FD7 ||| 2

/-- The values that the flags can have in ring 3. -/
def UserFlags (flags : Flags) : Prop := sysretFlags flags = flags

instance (flags : Flags) : Decidable (UserFlags flags) :=
  inferInstanceAs (Decidable (sysretFlags flags = flags))

def USER_CODE : Nat := 0x28 ||| 3

def USER_DATA : Nat := 0x20 ||| 3

/-- `USER_FLAGS`, the flags that a user thread starts with. -/
def USER_FLAGS : Flags := 0x202

/-- An address that `sysret` can jump to. -/
def canonical (address : Nat) : Bool :=
  address < 2 ^ 47 || 2 ^ 64 - 2 ^ 47 ≤ address && address < 2 ^ 64

/-! ## Memory -/

/-- The fields of `Syscall::Area`. -/
inductive AreaField where
  | kernelStack
  | userStack
  deriving DecidableEq, Repr

abbrev Area := AreaField → Nat

def AREA_KERNEL_STACK : AreaField := .kernelStack
def AREA_USER_STACK : AreaField := .userStack

/-- The words of a `Context`, by their offsets. -/
abbrev Context := Nat → Nat

/-- Where the kernel has its stacks, objects and code. -/
structure Layout where
  /-- The slot of a thread's kernel stack. -/
  slot : Thread → Nat
  /-- `KernelStack::Allocate` hands out each slot once. -/
  slot_injective : Function.Injective slot
  /-- The address of `s_Area[0]`. -/
  areas : Nat
  /-- The address of a thread's object. -/
  object : Thread → Nat
  /-- The address behind `call SyscallDispatch`. -/
  afterCall : Nat
  fakeSystemVAbi : Nat
  kickoff : Nat
  kickoffReturned : Nat

namespace Layout

/-- `Thread::StackTop`. -/
def top (layout : Layout) (thread : Thread) : Nat := slotAt (layout.slot thread + 1)

/-- The lowest byte of a thread's kernel stack. -/
def bottom (layout : Layout) (thread : Thread) : Nat := slotAt (layout.slot thread) + GUARD_SIZE

/-- `&s_Area[core]`. -/
def areaAddress (layout : Layout) (core : Nat) : Nat := layout.areas + core * 64

/-- The core whose area is at an address. -/
def areaAt (layout : Layout) (address : Nat) : Option Nat :=
  if layout.areas ≤ address ∧ (address - layout.areas) % 64 = 0 then
    some ((address - layout.areas) / 64)
  else none

end Layout

/-- The lowest page of a slot, which is not mapped. -/
def onGuardPage (address : Nat) : Bool :=
  (address - Config.KERNEL_STACK_BASE) % STRIDE < GUARD_SIZE

/-! ## The code of `SyscallEntry` -/

inductive Instr where
  | swapgs
  /-- `mov [gs:field], source`. -/
  | storeGs (field : AreaField) (source : Register)
  /-- `mov target, [gs:field]`. -/
  | loadGs (target : Register) (field : AreaField)
  /-- `push qword [gs:field]`. -/
  | pushGs (field : AreaField)
  | push (source : Register)
  | pop (target : Register)
  /-- `sub rsp, 8`. -/
  | subRsp8
  /-- `add rsp, 8`. -/
  | addRsp8
  | mov (target source : Register)
  | sti
  | cli
  /-- `call SyscallDispatch`. -/
  | call
  | sysret
  deriving DecidableEq, Repr

def SYSCALL_ENTRY : List Instr :=
  [.swapgs,
    .storeGs AREA_USER_STACK rsp,
    .loadGs rsp AREA_KERNEL_STACK,
    .pushGs AREA_USER_STACK,
    .swapgs,
    .push r11,
    .push rcx,
    .push r10,
    .push r9,
    .push r8,
    .push rdx,
    .push rsi,
    .push rdi,
    .subRsp8,
    .mov rcx rdx,
    .mov rdx rsi,
    .mov rsi rdi,
    .mov rdi rax,
    .sti,
    .call,
    .cli,
    .addRsp8,
    .pop rdi,
    .pop rsi,
    .pop rdx,
    .pop r8,
    .pop r9,
    .pop r10,
    .pop rcx,
    .pop r11,
    .pop rsp,
    .sysret]

/-- The place of `call SyscallDispatch` in the list. -/
def CALL : Nat := 19

/-- The place of `sysret` in the list. -/
def SYSRET : Nat := 31

/-- What an instruction can see and change. -/
structure View where
  registers : Registers
  flags : Flags
  gsBase : Nat
  kernelGsBase : Nat
  areas : Nat → Area
  memory : Nat → Nat

namespace View

def set (v : View) (r : Register) (word : Nat) : View :=
  { v with registers := Function.update v.registers r word }

@[simp] theorem set_self (v : View) (r : Register) (word : Nat) :
    (v.set r word).registers r = word := by
  simp [set]

/-- Push a word.  The guard page below a stack is not mapped. -/
def push (v : View) (word : Nat) : Option View :=
  let sp := v.registers rsp - 8
  if onGuardPage sp then none
  else some { v.set rsp sp with memory := Function.update v.memory sp word }

theorem push_eq_some {v v' : View} {word : Nat} (h : v.push word = some v') :
    onGuardPage (v.registers rsp - 8) = false ∧
      v' = { v.set rsp (v.registers rsp - 8) with
        memory := Function.update v.memory (v.registers rsp - 8) word } := by
  unfold push at h
  dsimp only at h
  split at h
  · exact absurd h nofun
  · next hguard => exact ⟨Bool.eq_false_iff.2 hguard, (Option.some.inj h).symm⟩

/-- Pop a word into a register. -/
def pop (v : View) (target : Register) : View :=
  (v.set rsp (v.registers rsp + 8)).set target (v.memory (v.registers rsp))

/-- The instructions that go on with the next one.  An access to the area through any
other address than that of an area faults. -/
def exec (layout : Layout) (v : View) : Instr → Option View
  | .swapgs => some { v with gsBase := v.kernelGsBase, kernelGsBase := v.gsBase }
  | .storeGs field source =>
    (layout.areaAt v.gsBase).map fun core =>
      { v with
        areas := Function.update v.areas core
          (Function.update (v.areas core) field (v.registers source)) }
  | .loadGs target field =>
    (layout.areaAt v.gsBase).map fun core => v.set target (v.areas core field)
  | .pushGs field => (layout.areaAt v.gsBase).bind fun core => v.push (v.areas core field)
  | .push source => v.push (v.registers source)
  | .pop target => some (v.pop target)
  | .subRsp8 => some (v.set rsp (v.registers rsp - 8))
  | .addRsp8 => some (v.set rsp (v.registers rsp + 8))
  | .mov target source => some (v.set target (v.registers source))
  | .sti => some { v with flags := v.flags ||| INTERRUPT_FLAG }
  | .cli => some { v with flags := v.flags &&& ~~~INTERRUPT_FLAG }
  | .call | .sysret => none

end View

/-! ## Contexts -/

/-- The stores of `SAVE_CONTEXT`. -/
def SAVE_CONTEXT : List (Nat × Register) :=
  [(0, rbx), (8, rbp), (16, r12), (24, r13), (32, r14), (40, r15), (48, rsp)]

/-- The loads of `LOAD_CONTEXT`. -/
def LOAD_CONTEXT : List (Nat × Register) :=
  [(0, rbx), (8, rbp), (16, r12), (24, r13), (32, r14), (40, r15), (48, rsp)]

def saveContext (registers : Registers) (context : Context) : Context :=
  SAVE_CONTEXT.foldl (fun context field => Function.update context field.1 (registers field.2))
    context

def loadContext (context : Context) (registers : Registers) : Registers :=
  LOAD_CONTEXT.foldl (fun registers field => Function.update registers field.2 (context field.1))
    registers

/-! ## The machine -/

/-- What a task has in its registers when it executes `syscall`.  `rip` is the address of
the next instruction. -/
structure UserState where
  rip : Nat
  registers : Registers
  flags : Flags

/-- What a core executes next. -/
inductive Pc where
  /-- The code before `Dispatcher::Go`. -/
  | boot
  /-- The instruction at `rip` in ring 3. -/
  | user (rip : Nat)
  /-- The instruction of `SyscallEntry` at a place in the list. -/
  | entry (index : Nat)
  /-- Some function of the kernel. -/
  | body
  /-- `Dispatch` from `current` to `next`, of which `done` statements are executed. -/
  | dispatch (current next : Thread) (done : Nat)
  /-- No code of the kernel. -/
  | lost
  deriving DecidableEq, Repr

/-- A function of the kernel is executed. -/
def Pc.inKernelCode : Pc → Bool
  | .body | .dispatch .. => true
  | .boot | .user _ | .entry _ | .lost => false

/-- Ring 0 code on the stack of a thread. -/
def Pc.inKernel : Pc → Bool
  | .entry _ | .body | .dispatch .. => true
  | .boot | .user _ | .lost => false

/-- What a thread has to come back to. -/
inductive Frame where
  /-- `SyscallEntry` has called `SyscallDispatch` with these registers. -/
  | call (registers : Registers)
  /-- An interrupt came in at `resume`.  `base` is the stack pointer after it. -/
  | interrupt (base rip : Nat) (registers : Registers) (flags : Flags) (resume : Pc)
  /-- The thread has called `ContextSwitch` with these registers. -/
  | switch (registers : Registers) (returnAddress : Nat)

/-- The lowest word of a frame. -/
def Frame.base : Frame → Nat
  | .call registers | .switch registers _ => registers rsp
  | .interrupt base .. => base

structure Core where
  registers : Registers
  flags : Flags
  gsBase : Nat
  kernelGsBase : Nat
  /-- `s_TaskState[core].Rsp[0]`. -/
  rsp0 : Nat
  /-- `Dispatcher::m_ActiveThread`. -/
  active : Option Thread
  /-- The thread whose stack the core is on. -/
  thread : Option Thread
  pc : Pc

structure Machine where
  /-- `Cpu::Count()`. -/
  count : Nat
  cores : Nat → Core
  /-- `s_Area`. -/
  areas : Nat → Area
  /-- The words of the kernel stacks. -/
  memory : Nat → Nat
  /-- `Thread::m_Context`. -/
  contexts : Thread → Context
  /-- `Thread::IsPrepared`. -/
  prepared : Thread → Bool
  frames : Thread → List Frame
  /-- The core that is in the critical section of the Guard. -/
  holder : Option Nat
  /-- The state in which each task last executed `syscall`. -/
  issued : Thread → UserState

/-- What a core does next. -/
inductive Action where
  /-- `Thread::Prepare`. -/
  | prepare (thread : Thread)
  /-- `Dispatcher::Go`. -/
  | go (core : Nat) (first : Thread)
  /-- Instructions in ring 3. -/
  | user (core rip : Nat) (registers : Registers) (flags : Flags)
  /-- `syscall`. -/
  | syscall (core : Nat)
  /-- An instruction of `SyscallEntry`. -/
  | entry (core : Nat)
  /-- A function of the kernel computes. -/
  | compute (core : Nat) (registers : Registers) (flags : Flags) (writes : List (Nat × Nat))
  /-- `SyscallDispatch` or an interrupt handler returns. -/
  | finish (core : Nat)
  /-- An interrupt.  `rip` is where it comes in, if that is in the kernel. -/
  | interrupt (core rip : Nat)
  /-- An exception in ring 3, up to `TerminateFaultedTask`. -/
  | fault (core : Nat)
  /-- `EnterUserMode`. -/
  | enterUserMode (core entry stackTop : Nat)
  /-- `Guard::Enter`, or a prologue that finds the level free. -/
  | enter (core : Nat)
  /-- `Guard::Leave`. -/
  | leave (core : Nat)
  /-- A call of `Dispatcher::Dispatch`. -/
  | dispatch (core : Nat) (next : Thread)
  /-- A statement of `Dispatch`.  `returnAddress` is for the call of `ContextSwitch`. -/
  | proceed (core returnAddress : Nat)

namespace Machine

/-- The start, after `Syscall::Initialize` on every core. -/
def start (layout : Layout) (count : Nat) : Machine where
  count := count
  cores := fun core =>
    { registers := fun _ => 0, flags := 2, gsBase := 0, kernelGsBase := layout.areaAddress core,
      rsp0 := 0, active := none, thread := none, pc := .boot }
  areas := fun _ _ => 0
  memory := fun _ => 0
  contexts := fun _ _ => 0
  prepared := fun _ => false
  frames := fun _ => []
  holder := none
  issued := fun _ => ⟨0, fun _ => 0, 2⟩

def view (m : Machine) (core : Nat) : View where
  registers := (m.cores core).registers
  flags := (m.cores core).flags
  gsBase := (m.cores core).gsBase
  kernelGsBase := (m.cores core).kernelGsBase
  areas := m.areas
  memory := m.memory

/-- The core goes on at `pc` with what an instruction has left. -/
def put (m : Machine) (core : Nat) (v : View) (pc : Pc) : Machine :=
  { m with
    cores := Function.update m.cores core
      { m.cores core with
        registers := v.registers
        flags := v.flags
        gsBase := v.gsBase
        kernelGsBase := v.kernelGsBase
        pc := pc }
    areas := v.areas
    memory := v.memory }

def setFrames (m : Machine) (thread : Thread) (frames : List Frame) : Machine :=
  { m with frames := Function.update m.frames thread frames }

/-- The context of a thread that is to enter `Kickoff` with its own address in `r13`. -/
def preparedContext (layout : Layout) (thread : Thread) : Context := fun offset =>
  if offset = 24 then layout.object thread
  else if offset = 48 then layout.top thread - 24
  else 0

/-- `PrepareContext`, for a thread that has just got its stack. -/
def prepare (layout : Layout) (m : Machine) (thread : Thread) : Machine :=
  let top := layout.top thread
  let context := preparedContext layout thread
  { m with
    memory := Function.update (Function.update (Function.update m.memory
      (top - 8) layout.kickoffReturned) (top - 16) layout.kickoff) (top - 24) layout.fakeSystemVAbi
    contexts := Function.update m.contexts thread context
    prepared := Function.update m.prepared thread true
    frames := Function.update m.frames thread
      [.switch (loadContext context fun _ => 0) layout.fakeSystemVAbi] }

/-- `LOAD_CONTEXT` and `ret`.  The thread goes on if it finds the registers and the
return address with which it called `ContextSwitch`. -/
def resumeThread (m : Machine) (core : Nat) (next : Thread) (registers : Registers) : Machine :=
  let registers := loadContext (m.contexts next) registers
  let returned := m.memory (registers rsp)
  let core' := { m.cores core with
    registers := Function.update registers rsp (registers rsp + 8)
    thread := some next }
  match m.frames next with
  | .switch left returnAddress :: rest =>
    if (LOAD_CONTEXT.all fun field => registers field.2 = left field.2) ∧
        returned = returnAddress then
      { m.setFrames next rest with
        cores := Function.update m.cores core { core' with pc := .body } }
    else { m with cores := Function.update m.cores core { core' with pc := .lost } }
  | _ => { m with cores := Function.update m.cores core { core' with pc := .lost } }

/-- `ContextSwitch`, from the `call` to the `ret`. -/
def contextSwitch (m : Machine) (core : Nat) (current next : Thread) (returnAddress : Nat) :
    Option Machine :=
  ((m.view core).push returnAddress).map fun v =>
    let m := m.put core v .body
    let m := { m with
      contexts := Function.update m.contexts current
        (saveContext v.registers (m.contexts current)) }
    let m := m.setFrames current (.switch v.registers returnAddress :: m.frames current)
    m.resumeThread core next v.registers

/-- No core runs the thread.  The scheduler hands out no other ones. -/
def idle (m : Machine) (thread : Thread) : Bool :=
  (List.range m.count).all fun core => (m.cores core).active ≠ some thread

/-- `SetEntryStack`, the half that is for interrupts. -/
def setRsp0 (m : Machine) (core top : Nat) : Machine :=
  { m with cores := Function.update m.cores core { m.cores core with rsp0 := top } }

/-- `SetEntryStack`, the half that is for system calls. -/
def setKernelStack (m : Machine) (core top : Nat) : Machine :=
  { m with
    areas := Function.update m.areas core (Function.update (m.areas core) .kernelStack top) }

def setActive (m : Machine) (core : Nat) (thread : Thread) : Machine :=
  { m with cores := Function.update m.cores core { m.cores core with active := some thread } }

def setPc (m : Machine) (core : Nat) (pc : Pc) : Machine :=
  { m with cores := Function.update m.cores core { m.cores core with pc := pc } }

/-- `Dispatcher::Go`. -/
def go (layout : Layout) (m : Machine) (core : Nat) (first : Thread) : Machine :=
  let m := m.setActive core first
  let m := m.setRsp0 core (layout.top first)
  let m := m.setKernelStack core (layout.top first)
  m.resumeThread core first (m.cores core).registers

/-- The next statement of `Dispatch`. -/
def proceed (layout : Layout) (m : Machine) (core returnAddress : Nat) (current next : Thread) :
    Nat → Option Machine
  | 0 => some ((m.setActive core next).setPc core (.dispatch current next 1))
  | 1 => some ((m.setRsp0 core (layout.top next)).setPc core (.dispatch current next 2))
  | 2 => some ((m.setKernelStack core (layout.top next)).setPc core (.dispatch current next 3))
  | _ => m.contextSwitch core current next returnAddress

/-- `syscall`: the CPU saves `rip` and the flags and jumps to `SyscallEntry`. -/
def syscall (m : Machine) (core : Nat) (rip : Nat) (thread : Thread) : Machine :=
  let c := m.cores core
  let v := (((m.view core).set rcx rip).set r11 c.flags.toNat)
  let m := m.put core { v with flags := c.flags &&& ~~~MASKED_FLAGS } (.entry 0)
  { m with issued := Function.update m.issued thread ⟨rip, c.registers, c.flags⟩ }

/-- An instruction of `SyscallEntry`.  A `sysret` to an address that is not canonical
faults in ring 0. -/
def entry (layout : Layout) (m : Machine) (core index : Nat) (thread : Thread) : Option Machine :=
  match SYSCALL_ENTRY[index]? with
  | none => none
  | some .call =>
    ((m.view core).push layout.afterCall).map fun v =>
      (m.put core v .body).setFrames thread (.call v.registers :: m.frames thread)
  | some .sysret =>
    let v := m.view core
    if canonical (v.registers rcx) then
      some (m.put core { v with flags := sysretFlags (BitVec.ofNat 64 (v.registers r11)) }
        (.user (v.registers rcx)))
    else none
  | some instr => ((m.view core).exec layout instr).map fun v => m.put core v (.entry (index + 1))

/-- The end of the words that a function of the kernel may write. -/
def limit (layout : Layout) (thread : Thread) : List Frame → Nat
  | [] => layout.top thread
  | frame :: _ => frame.base

/-- A function of the kernel computes.  It may leave anything in the registers and in its
part of the stack. -/
def compute (layout : Layout) (m : Machine) (core : Nat) (thread : Thread) (registers : Registers)
    (flags : Flags) (writes : List (Nat × Nat)) : Option Machine :=
  let limit := limit layout thread (m.frames thread)
  if (layout.bottom thread ≤ registers rsp ∧ registers rsp ≤ limit) ∧
      ∀ write ∈ writes, layout.bottom thread ≤ write.1 ∧ write.1 < limit then
    some (m.put core
      { m.view core with
        registers := registers
        flags := flags
        memory :=
          writes.foldl (fun memory write => Function.update memory write.1 write.2) m.memory }
      (m.cores core).pc)
  else none

/-- The rule for a function that was entered with the stack pointer at `base`. -/
def obeys (registers left : Registers) (base : Nat) : Bool :=
  registers rsp = base ∧ CALLEE_SAVED.all fun r => registers r = left r

/-- `ret` from `SyscallDispatch`, or `iretq` from an interrupt handler. -/
def finish (layout : Layout) (m : Machine) (core : Nat) (thread : Thread) : Option Machine :=
  let v := m.view core
  match m.frames thread with
  | .call left :: rest =>
    if obeys v.registers left (left rsp) then
      let pc := if m.memory (left rsp) = layout.afterCall then .entry (CALL + 1) else .lost
      some ((m.put core (v.set rsp (left rsp + 8)) pc).setFrames thread rest)
    else none
  | .interrupt base rip left _ resume :: rest =>
    if obeys v.registers left base then
      let pc :=
        if m.memory (base + 8) &&& 3 = 3 then .user (m.memory base)
        else if m.memory base = rip then resume
        else .lost
      let v := { v.set rsp (m.memory (base + 24)) with
        flags := BitVec.ofNat 64 (m.memory (base + 16)) }
      some ((m.put core v pc).setFrames thread rest)
    else none
  | _ => none

/-- The CPU aligns the stack pointer, pushes five words and clears `IF`. -/
def interrupt (m : Machine) (core : Nat) (thread : Thread) (sp rip code data : Nat) :
    Option Machine :=
  let c := m.cores core
  let words := [data, c.registers rsp, c.flags.toNat, code, rip]
  (words.foldlM View.push ((m.view core).set rsp (sp - sp % 16))).map fun v =>
    (m.put core { v with flags := c.flags &&& ~~~INTERRUPT_FLAG } .body).setFrames thread
      (.interrupt (v.registers rsp) rip c.registers c.flags c.pc :: m.frames thread)

/-- Calls of `Dispatch` that an interrupt has come into. -/
def dispatching (frames : List Frame) : List (Thread × Thread × Nat) :=
  frames.filterMap fun
    | .interrupt _ _ _ _ (.dispatch current next done) => some (current, next, done)
    | _ => none

/-- `EnterUserMode` clears every register. -/
def enterUserMode (m : Machine) (core rip stackTop : Nat) : Machine :=
  m.put core
    { m.view core with
      registers := Function.update (fun _ => 0) rsp stackTop
      flags := USER_FLAGS }
    (.user rip)

def step (layout : Layout) (m : Machine) : Action → Option Machine
  | .prepare thread => some (if m.prepared thread then m else m.prepare layout thread)
  | .go core first =>
    if (core < m.count ∧ (m.cores core).pc = .boot) ∧ m.holder = some core ∧
        m.idle first ∧ m.prepared first then
      some (m.go layout core first)
    else none
  | .user core rip registers flags =>
    match (m.cores core).pc with
    | .user _ =>
      if UserFlags flags then
        some (m.put core { m.view core with registers := registers, flags := flags } (.user rip))
      else none
    | _ => none
  | .syscall core =>
    match (m.cores core).pc, (m.cores core).active with
    | .user rip, some thread => some (m.syscall core rip thread)
    | _, _ => none
  | .entry core =>
    match (m.cores core).pc, (m.cores core).thread with
    | .entry index, some thread => m.entry layout core index thread
    | _, _ => none
  | .compute core registers flags writes =>
    match (m.cores core).thread with
    | some thread =>
      if (m.cores core).pc.inKernelCode then m.compute layout core thread registers flags writes
      else none
    | none => none
  | .finish core =>
    match (m.cores core).pc, (m.cores core).thread with
    | .body, some thread => m.finish layout core thread
    | _, _ => none
  | .interrupt core rip =>
    if interruptsOn (m.cores core).flags then
      match (m.cores core).thread, (m.cores core).pc with
      | some thread, .user rip =>
        m.interrupt core thread (m.cores core).rsp0 rip USER_CODE USER_DATA
      | some thread, pc =>
        if pc.inKernel then
          m.interrupt core thread ((m.cores core).registers rsp) rip KERNEL_CODE.toNat
            KERNEL_DATA.toNat
        else none
      | none, _ => none
    else none
  | .fault core =>
    match (m.cores core).pc with
    | .user _ =>
      some (m.put core
        { (m.view core).set rsp ((m.cores core).rsp0 - 8) with flags := USER_FLAGS } .body)
    | _ => none
  | .enterUserMode core rip stackTop =>
    match (m.cores core).pc, (m.cores core).thread with
    | .body, some thread =>
      if (m.frames thread).isEmpty then some (m.enterUserMode core rip stackTop) else none
    | _, _ => none
  | .enter core =>
    if ((m.cores core).pc = .boot ∨ (m.cores core).pc.inKernelCode) ∧ m.holder = none then
      some { m with holder := some core }
    else none
  | .leave core =>
    match (m.cores core).pc, (m.cores core).thread with
    | .body, some thread =>
      if m.holder = some core ∧ dispatching (m.frames thread) = [] then
        some { m with holder := none }
      else none
    | _, _ => none
  | .dispatch core next =>
    match (m.cores core).pc, (m.cores core).thread, (m.cores core).active with
    | .body, some thread, some current =>
      if m.holder = some core ∧ dispatching (m.frames thread) = [] then
        if current = next then some m
        else if m.idle next ∧ m.prepared next then
          some (m.setPc core (.dispatch current next 0))
        else none
      else none
    | _, _, _ => none
  | .proceed core returnAddress =>
    match (m.cores core).pc with
    | .dispatch current next done => m.proceed layout core returnAddress current next done
    | _ => none

end Machine

end X64HK.SyscallPath
