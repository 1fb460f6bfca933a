import X64HK.Config
import X64HK.Lib.RingBuffer
import X64HK.Lib.Transition
import X64HK.Sync.TicketLock

/-!
# The Guard

A model of `Kernel/Interrupt/Guard.cpp`: `Enter`, `Leave` and `Relay`, and
`Thread::Kickoff`, one access to the shared state per step.

The code that a core runs is a stack.  At the bottom is the thread, and every
interrupt that was taken puts the activation of its prologue on top.  A `Frame` is
an activation, with what it does next and with its local variables.  A context switch
leaves the whole stack of a thread behind, and another core may go on with it, so
every access is to the data of the core that does it.

Whatever may happen at any time is an action of its own: a core does its next step,
it takes an interrupt if they are on, and a thread that is in the critical section,
or the epilogue that it runs, switches to any other thread.  Code outside of the Guard,
in the critical section and in an epilogue may turn interrupts on and off.
-/

namespace X64HK.Guard

open TicketLock (Phase)

/-- `Epilogue`, a pointer to a function. -/
abbrev Epilogue := Nat

/-- What `Cpu::GetId` returns, an `unsigned`. -/
abbrev CoreId := BitVec 32

/-- A call of `Leave`: the interrupt flag that it was entered with, and its
`wasEnabled`. -/
structure Call where
  entry : Bool
  was : Bool
  deriving DecidableEq, Repr

/-- What comes after `s_GlobalLock.Lock`. -/
inductive Goal where
  /-- `Enter` returns. -/
  | critical
  /-- `Leave` calls an epilogue. -/
  | start (call : Call) (next : Epilogue)
  /-- `Relay` calls `Leave`. -/
  | leave
  deriving DecidableEq, Repr

/-- An activation, named by what it does next. -/
inductive Frame where
  /-- Code outside of the Guard, which may call `Enter`. -/
  | outside
  /-- `Enter` has looked at the interrupt flag, and disables interrupts. -/
  | enterDisable (was : Bool)
  /-- `Enter` sets the flag. -/
  | enterSet (was : Bool)
  /-- `Enter` restores the interrupt flag. -/
  | enterRestore (was : Bool)
  /-- `Lock` draws a ticket. -/
  | locking (goal : Goal)
  /-- `Lock` waits for its turn. -/
  | spinning (ticket : BitVec 32) (goal : Goal)
  /-- The critical section of a thread. -/
  | critical
  /-- A new thread is in `Kickoff`. -/
  | kickoff
  /-- `Leave` was called, and looks at the interrupt flag. -/
  | leave (entry : Bool)
  /-- `Leave` unlocks. -/
  | unlock (call : Call)
  /-- `Leave` disables interrupts. -/
  | drain (call : Call)
  /-- `Leave` takes an epilogue out of the queue. -/
  | consume (call : Call)
  /-- `Leave` enables interrupts. -/
  | fetched (call : Call) (next : Epilogue)
  /-- `Leave` calls the epilogue. -/
  | start (call : Call) (next : Epilogue)
  /-- The epilogue runs. -/
  | epilogue (call : Call)
  /-- `Leave` clears the flag. -/
  | clear (call : Call)
  /-- `Leave` restores the interrupt flag. -/
  | restore (call : Call)
  /-- `Relay` disables interrupts. -/
  | relay (epilogue : Epilogue)
  /-- `Relay` looks at the flag. -/
  | relayRead (was : Bool) (epilogue : Epilogue)
  /-- `Relay` puts the epilogue into the queue. -/
  | relayProduce (was busy : Bool) (epilogue : Epilogue)
  /-- `Relay` restores the interrupt flag, and returns. -/
  | relayRestore (was : Bool)
  /-- `Relay` sets the flag. -/
  | relayTake (was : Bool) (epilogue : Epilogue)
  /-- `Relay` restores the interrupt flag, and goes on. -/
  | relayGo (was : Bool)
  /-- The prologue returns to what it interrupted. -/
  | iret
  deriving DecidableEq, Repr

/-- A core, with its element of `s_InEpilogue` and of `s_EpilogueQueue`. -/
structure Core where
  inEpilogue : Bool := false
  queue : RingBuffer Epilogue := { data := fun _ => 0 }
  /-- The interrupt flag. -/
  interrupts : Bool := false
  stack : List Frame := [.outside]
  /-- The epilogues whose `Produce` succeeded here, and those that were started
  here. -/
  relayed : List Epilogue := []
  started : List Epilogue := []
  /-- The interrupt flag before and after every call of `Leave` that returned
  here. -/
  left : List (Bool × Bool) := []

structure Machine where
  cores : CoreId → Core := fun _ => {}
  /-- The counters of `s_GlobalLock`. -/
  nextTicket : BitVec 32 := 0
  nowServing : BitVec 32 := 0
  /-- The threads that no core runs. -/
  parked : List (List Frame) := []

/-! ## Steps -/

def Machine.put (s : Machine) (c : CoreId) (core : Core) : Machine :=
  { s with cores := Function.update s.cores c core }

/-- `Cpu::Interrupt::Restore`, with the flag as it is. -/
def restored (now was : Bool) : Bool := now || was

/-- `Leave` takes the next epilogue out of the queue. -/
def Core.consume (k : Core) (call : Call) (rest : List Frame) : Core :=
  match RingBuffer.consume Config.EPILOGUE_QUEUE_SIZE k.queue with
  | none => { k with stack := .clear call :: rest }
  | some (next, queue) => { k with queue := queue, stack := .fetched call next :: rest }

/-- `Relay` puts its epilogue into the queue.  A full queue is an assertion that
fails. -/
def Core.produce (k : Core) (was busy : Bool) (epilogue : Epilogue) (rest : List Frame) :
    Option Core :=
  (RingBuffer.produce Config.EPILOGUE_QUEUE_SIZE k.queue epilogue).map fun queue =>
    { k with
      queue := queue
      relayed := k.relayed ++ [epilogue]
      stack := (if busy then .relayRestore was else .relayTake was epilogue) :: rest }

/-- `Leave` restores the interrupt flag and returns.  A call from `Relay` has
interrupted something, and any other one is the thread's own. -/
def Core.restore (k : Core) (call : Call) (rest : List Frame) : Core :=
  { k with
    interrupts := restored k.interrupts call.was
    left := k.left ++ [(call.entry, restored k.interrupts call.was)]
    stack := (if rest = [] then .outside else .iret) :: rest }

/-- What a core does next, other than at the lock. -/
def Core.proceed (k : Core) : Option Core :=
  match k.stack with
  | [] => none
  | .outside :: rest => some { k with stack := .enterDisable k.interrupts :: rest }
  | .enterDisable was :: rest =>
    some { k with interrupts := false, stack := .enterSet was :: rest }
  | .enterSet was :: rest => some { k with inEpilogue := true, stack := .enterRestore was :: rest }
  | .enterRestore was :: rest =>
    some { k with interrupts := restored k.interrupts was, stack := .locking .critical :: rest }
  | .locking _ :: _ | .spinning _ _ :: _ | .unlock _ :: _ => none
  | .critical :: rest | .kickoff :: rest => some { k with stack := .leave k.interrupts :: rest }
  | .leave entry :: rest => some { k with stack := .unlock ⟨entry, k.interrupts⟩ :: rest }
  | .drain call :: rest => some { k with interrupts := false, stack := .consume call :: rest }
  | .consume call :: rest => some (k.consume call rest)
  | .fetched call next :: rest =>
    some { k with interrupts := true, stack := .locking (.start call next) :: rest }
  | .start call next :: rest =>
    some { k with started := k.started ++ [next], stack := .epilogue call :: rest }
  | .epilogue call :: rest => some { k with stack := .unlock call :: rest }
  | .clear call :: rest => some { k with inEpilogue := false, stack := .restore call :: rest }
  | .restore call :: rest => some (k.restore call rest)
  | .relay epilogue :: rest =>
    some { k with interrupts := false, stack := .relayRead k.interrupts epilogue :: rest }
  | .relayRead was epilogue :: rest =>
    some { k with stack := .relayProduce was k.inEpilogue epilogue :: rest }
  | .relayProduce was busy epilogue :: rest => k.produce was busy epilogue rest
  | .relayRestore was :: rest =>
    some { k with interrupts := restored k.interrupts was, stack := .iret :: rest }
  | .relayTake was _ :: rest => some { k with inEpilogue := true, stack := .relayGo was :: rest }
  | .relayGo was :: rest =>
    some { k with interrupts := restored k.interrupts was, stack := .locking .leave :: rest }
  | .iret :: rest => some { k with interrupts := true, stack := rest }

/-- The frame behind `Lock`. -/
def Goal.frame (interrupts : Bool) : Goal → Frame
  | .critical => .critical
  | .start call next => .start call next
  | .leave => .leave interrupts

/-- The thread may switch to another one. -/
def Frame.switches : Frame → Bool
  | .critical | .epilogue _ => true
  | _ => false

/-- The code may turn interrupts on and off. -/
def Frame.free : Frame → Bool
  | .outside | .critical | .epilogue _ => true
  | _ => false

inductive Action where
  /-- A core does its next step. -/
  | proceed (c : CoreId)
  /-- A core takes an interrupt, and the prologue calls `Relay`. -/
  | interrupt (c : CoreId) (epilogue : Epilogue)
  /-- The thread of a core switches to a parked one. -/
  | switch (c : CoreId) (i : Nat)
  /-- The same, but the thread does not come back. -/
  | exit (c : CoreId) (i : Nat)
  /-- There is a new thread. -/
  | spawn
  | setInterrupts (c : CoreId) (on : Bool)
  deriving DecidableEq, Repr

def step (s : Machine) : Action → Option Machine
  | .proceed c =>
    match (s.cores c).stack with
    | .locking goal :: rest =>
      some ({ s with nextTicket := s.nextTicket + 1 }.put c
        { s.cores c with stack := .spinning s.nextTicket goal :: rest })
    | .spinning ticket goal :: rest =>
      if s.nowServing = ticket then
        some (s.put c { s.cores c with stack := goal.frame (s.cores c).interrupts :: rest })
      else some s
    | .unlock call :: rest =>
      some ({ s with nowServing := s.nowServing + 1 }.put c
        { s.cores c with stack := .drain call :: rest })
    | _ => (s.cores c).proceed.map (s.put c)
  | .interrupt c epilogue =>
    if (s.cores c).interrupts then
      some (s.put c { s.cores c with
        interrupts := false
        stack := .relay epilogue :: (s.cores c).stack })
    else none
  | .switch c i =>
    if (s.cores c).stack.head?.any Frame.switches then
      (s.parked[i]?).map fun other =>
        { s.put c { s.cores c with stack := other } with
          parked := s.parked.set i (s.cores c).stack }
    else none
  | .exit c i =>
    if (s.cores c).stack.head?.any Frame.switches then
      (s.parked[i]?).map fun other =>
        { s.put c { s.cores c with stack := other } with parked := s.parked.eraseIdx i }
    else none
  | .spawn => some { s with parked := s.parked ++ [[.kickoff]] }
  | .setInterrupts c on =>
    if (s.cores c).stack.head?.any Frame.free then
      some (s.put c { s.cores c with interrupts := on })
    else none

end X64HK.Guard
