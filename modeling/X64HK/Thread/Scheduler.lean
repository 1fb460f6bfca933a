import X64HK.Sync.Bellringer

/-!
# The scheduler and what blocks on it

A model of `Kernel/Thread/Scheduler.cpp` and `Kernel/Thread/Dispatcher.cpp`,
and of the operations that park a thread, `Kernel/Sync/Semaphore.cpp` and
`Bellringer::Sleep`.  All of them run under the Guard, so each one is a step, up to
the context switch that it ends with.

A thread is named by the place it has in memory.  `Vault.link` is the link field
of every thread, which the ready queue and the wait queues of all semaphores
share.  The bells have links of their own, in `Bellringer`.  An IPI sets a bit in
`Vault.pending`, and what a core does about it is up to the core.

`Thread::Prepare` allocates the stack of a new thread.  It does nothing to a thread
that has one, and the stacks are not part of this model.

* `Vault.getNext`, `Vault.ready`, `Vault.resume`, `Vault.exit` and `Vault.kill` are
  the methods of `Scheduler`.
* `Vault.step` is one operation of a core, and `Vault.run` a sequence of them.
* `Vault.Allowed` and `Vault.Lawful` say what the kernel's callers take care of.
-/

namespace X64HK

open IntrusiveQueue

/-- The idle thread of a core, or any other thread. -/
inductive Thread where
  | idle (core : Nat)
  | task (number : Nat)
  deriving DecidableEq, Repr

/-- The interrupts that an epilogue stands behind. -/
inductive InterruptVector where
  | timer
  | keyboard
  | assassin
  | wakeup
  deriving DecidableEq, Repr

structure Semaphore where
  /-- `m_Counter`. -/
  counter : Nat := 0
  /-- `m_Waiting`. -/
  waiting : Queue Thread := {}

/-- What the Guard protects, with the interrupts that are requested from the
cores. -/
structure Vault where
  /-- `Cpu::Count()`. -/
  cores : Nat
  /-- `Thread::m_QueueLink`. -/
  link : Links Thread := fun _ => none
  /-- `Thread::m_Dying`. -/
  dying : Thread → Bool := fun _ => false
  /-- `Scheduler::m_ReadyQueue`. -/
  readyQueue : Queue Thread := {}
  /-- `Dispatcher::m_ActiveThread`. -/
  activeThread : Nat → Option Thread := fun _ => none
  semaphores : Nat → Semaphore := fun _ => {}
  bellringer : Bellringer Thread := {}
  pending : Nat → InterruptVector → Bool := fun _ _ => false

namespace Vault

/-- Before any core runs a thread. -/
def initial (cores : Nat) (counts : Nat → Nat) : Vault where
  cores := cores
  semaphores := fun s => { counter := counts s }

/-- `Scheduler::IsActive`. -/
def isActive (v : Vault) (thread : Thread) (core : Nat) : Bool :=
  v.activeThread core = some thread

/-- `Scheduler::IsIdle`. -/
def isIdle (v : Vault) (core : Nat) : Bool :=
  v.isActive (.idle core) core

/-- `Scheduler::IsEmpty`. -/
def isEmpty (v : Vault) : Bool :=
  v.readyQueue.head.isNone

/-- `LocalApic::Ipi::Send`. -/
def send (v : Vault) (core : Nat) (vector : InterruptVector) : Vault :=
  { v with
    pending := Function.update v.pending core (Function.update (v.pending core) vector true) }

/-- `m_ReadyQueue.Append`.  No caller looks at the result. -/
def appendReady (v : Vault) (thread : Thread) : Vault :=
  let (link, queue) := (append v.link v.readyQueue thread).getD (v.link, v.readyQueue)
  { v with link := link, readyQueue := queue }

/-- `Scheduler::GetNext`.  The last argument bounds the number of threads to
look at. -/
def getNext (v : Vault) (core : Nat) : Nat → Outcome (Thread × Vault)
  | 0 => .error .outOfFuel
  | fuel + 1 =>
    match dequeue v.link v.readyQueue with
    | (none, _, _) => .ok (.idle core, v)
    | (some next, link, queue) =>
      let v := { v with link := link, readyQueue := queue }
      if v.dying next then getNext v core fuel else .ok (next, v)

/-- `Dispatcher::Dispatch`. -/
def dispatch (v : Vault) (core : Nat) (next : Thread) : Outcome Vault :=
  match v.activeThread core with
  | none => .error (.assertion "current != nullptr")
  | some current =>
    if current = next then .ok v
    else .ok { v with activeThread := Function.update v.activeThread core (some next) }

/-- `Scheduler::Schedule`, with `Dispatcher::Go`. -/
def schedule (v : Vault) (core fuel : Nat) : Outcome Vault := do
  let (next, v) ← v.getNext core fuel
  return { v with activeThread := Function.update v.activeThread core (some next) }

/-- The core that `Ready` wakes up: the first one that is idle, other than the
caller. -/
def sleepingCore (v : Vault) (self : Nat) : Option Nat :=
  (List.range v.cores).find? fun core => core ≠ self && v.isIdle core

/-- `Scheduler::Ready`. -/
def ready (v : Vault) (self : Nat) (thread : Thread) : Vault :=
  let v := v.appendReady thread
  match v.sleepingCore self with
  | none => v
  | some core => v.send core .wakeup

theorem ready_activeThread (v : Vault) (self : Nat) (thread : Thread) :
    (v.ready self thread).activeThread = v.activeThread := by
  unfold ready
  dsimp only
  split <;> rfl

/-- `Scheduler::Resume`. -/
def resume (v : Vault) (core : Nat) (requeue : Bool) (fuel : Nat) : Outcome Vault :=
  match v.activeThread core with
  | none => .error (.assertion "current != nullptr")
  | some current => do
    let v :=
      if requeue && !v.dying current && current ≠ .idle core then v.appendReady current else v
    let (next, v) ← v.getNext core fuel
    v.dispatch core next

/-- `Scheduler::Exit`. -/
def exit (v : Vault) (core fuel : Nat) : Outcome Vault := do
  let (next, v) ← v.getNext core fuel
  v.dispatch core next

/-- `Scheduler::Kill`. -/
def kill (v : Vault) (thread : Thread) (fuel : Nat) : Vault :=
  let v := { v with dying := Function.update v.dying thread true }
  match remove fuel v.link v.readyQueue thread with
  | some (link, queue) => { v with link := link, readyQueue := queue }
  | none =>
    match (List.range v.cores).find? fun core => v.isActive thread core with
    | none => v
    | some core => v.send core .assassin

/-- `Semaphore::P`. -/
def p (v : Vault) (core s fuel : Nat) : Outcome Vault :=
  let semaphore := v.semaphores s
  if semaphore.counter > 0 then
    .ok { v with
      semaphores := Function.update v.semaphores s
        { semaphore with counter := semaphore.counter - 1 } }
  else
    match v.activeThread core with
    | none => .error (.assertion "current != nullptr")
    | some current =>
      let (link, waiting) :=
        (append v.link semaphore.waiting current).getD (v.link, semaphore.waiting)
      let v := { v with
        link := link
        semaphores := Function.update v.semaphores s { semaphore with waiting := waiting } }
      v.resume core false fuel

/-- `Semaphore::V`. -/
def v (v : Vault) (core s : Nat) : Vault :=
  let semaphore := v.semaphores s
  match dequeue v.link semaphore.waiting with
  | (some waiter, link, waiting) =>
    let v := { v with
      link := link
      semaphores := Function.update v.semaphores s { semaphore with waiting := waiting } }
    v.ready core waiter
  | (none, _, _) =>
    { v with
      semaphores := Function.update v.semaphores s
        { semaphore with counter := (semaphore.counter + 1) % 2 ^ 32 } }

/-- `Bellringer::Sleep`, with the bell in `Bellringer.sleep`. -/
def sleep (v : Vault) (core milliseconds fuel : Nat) : Outcome Vault :=
  if milliseconds = 0 then .ok v
  else
    match v.activeThread core with
    | none => .error (.assertion "bell.Owner != nullptr")
    | some owner => do
      let wasEmpty := v.bellringer.bells.head.isNone
      let bellringer ← v.bellringer.sleep owner milliseconds fuel
      let v := { v with bellringer := bellringer }
      let v := if wasEmpty && v.isIdle 0 then v.send 0 .wakeup else v
      v.resume core false fuel

/-- `Bellringer::Check`, with the bells in `Bellringer.check`. -/
def check (v : Vault) (core fuel : Nat) : Outcome Vault := do
  let (owners, bellringer) ← v.bellringer.check fuel
  return owners.foldl (fun v owner => v.ready core owner) { v with bellringer := bellringer }

end Vault

/-- An operation under the Guard, with the core that issues it. -/
inductive SchedulerEvent where
  | schedule (core : Nat)
  | ready (core : Nat) (thread : Thread)
  | resume (core : Nat) (requeue : Bool)
  | exit (core : Nat)
  | kill (thread : Thread)
  | p (core s : Nat)
  | v (core s : Nat)
  | sleep (core milliseconds : Nat)
  | check (core : Nat)
  deriving DecidableEq, Repr

namespace Vault

def step (fuel : Nat) (v : Vault) : SchedulerEvent → Outcome Vault
  | .schedule core => v.schedule core fuel
  | .ready core thread => .ok (v.ready core thread)
  | .resume core requeue => v.resume core requeue fuel
  | .exit core => v.exit core fuel
  | .kill thread => .ok (v.kill thread fuel)
  | .p core s => v.p core s fuel
  | .v core s => .ok (v.v core s)
  | .sleep core milliseconds => v.sleep core milliseconds fuel
  | .check core => v.check core fuel

/-- The operations in the order in which the cores get the Guard. -/
def run (fuel : Nat) (v : Vault) (events : List SchedulerEvent) : Outcome Vault :=
  events.foldlM (step fuel) v

/-- What the callers of an operation take care of.  A core starts its first thread
once.  A thread that becomes ready is new: the other calls of `Ready` are part of
`V` and `Check`.  The idle thread calls nothing but `Resume`, and it is not
killed. -/
def Allowed (v : Vault) (history : List SchedulerEvent) : SchedulerEvent → Prop
  | .schedule core => v.activeThread core = none
  | .ready _ thread =>
    (∃ number, thread = .task number) ∧ ∀ core, .ready core thread ∉ history
  | .resume core requeue =>
    ∃ thread, v.activeThread core = some thread ∧
      (requeue = false → ∃ number, thread = .task number)
  | .exit core | .p core _ => ∃ number, v.activeThread core = some (.task number)
  | .sleep core milliseconds =>
    (∃ number, v.activeThread core = some (.task number)) ∧ milliseconds < 2 ^ 32
  | .kill thread => ∃ number, thread = .task number
  | .v _ _ | .check _ => True

instance (thread : Thread) : Decidable (∃ number, thread = .task number) :=
  match thread with
  | .idle _ => isFalse nofun
  | .task number => isTrue ⟨number, rfl⟩

instance (active : Option Thread) : Decidable (∃ number, active = some (.task number)) :=
  match active with
  | none => isFalse nofun
  | some (.idle _) => isFalse nofun
  | some (.task number) => isTrue ⟨number, rfl⟩

instance (history : List SchedulerEvent) (thread : Thread) :
    Decidable (∀ core, .ready core thread ∉ history) :=
  decidable_of_iff (thread ∉ history.filterMap fun
    | .ready _ other => some other
    | _ => none) <| by
      rw [List.mem_filterMap]
      constructor
      · exact fun h core hmem => h ⟨_, hmem, rfl⟩
      · rintro h ⟨event, hmem, hevent⟩
        split at hevent
        · next core other => exact h core (Option.some.inj hevent ▸ hmem)
        · exact absurd hevent nofun

instance (active : Option Thread) (requeue : Bool) :
    Decidable (∃ thread, active = some thread ∧
      (requeue = false → ∃ number, thread = .task number)) :=
  match active with
  | none => isFalse nofun
  | some thread =>
    decidable_of_iff (requeue = false → ∃ number, thread = .task number)
      ⟨fun h => ⟨thread, rfl, h⟩, fun ⟨_, heq, h⟩ => Option.some.inj heq ▸ h⟩

instance (v : Vault) (history : List SchedulerEvent) (event : SchedulerEvent) :
    Decidable (v.Allowed history event) := by
  cases event <;> unfold Allowed <;> infer_instance

/-- `P` holds of every operation of a run, of the operations before it and of the
state that it is issued in. -/
def Throughout (fuel : Nat) (P : List SchedulerEvent → Vault → SchedulerEvent → Prop) (v : Vault)
    (events : List SchedulerEvent) : Prop :=
  ∀ history event later, events = history ++ event :: later →
    ∀ v', run fuel v history = .ok v' → P history v' event

/-- Every operation of a run is allowed when it is issued. -/
def Lawful (fuel : Nat) (v : Vault) (events : List SchedulerEvent) : Prop :=
  Throughout fuel (fun history v event => v.Allowed history event) v events

end Vault

end X64HK
