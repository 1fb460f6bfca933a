import X64HK.Interrupt.FaultIsolation
import X64HK.Lib.Transition
import X64HK.Thread.Scheduler

/-!
# Whose status a faulted task is terminated with

`KillUserTask` leaves the status of a fault in the slot of `s_Death` that belongs to the
core, and lets the handler return into `TerminateFaultedTask`.  That function runs at
thread level with interrupts on.  It asks for the slot of the core it is on, and reads
the slot afterwards.  Timer ticks can switch threads before, between and after these
steps, and the thread can go on on another core.

The model puts the handlers of `Handlers.lean` together with the scheduler of
`Scheduler.lean`.  A fault is one step, because interrupts are off in a handler.

* `Machine.fault` is an exception of the running thread, and `Machine.advance` a step of
  `TerminateFaultedTask`.
* `Recorded` is the invariant: a slot has the status of the last fault on its core.
* `fault_status_iff`: every task has been terminated with its own status exactly when
  each of them read a slot whose last fault has the vector of its own.  That is so if no
  task faults on a core whose slot is yet to be read, and each task asks for its slot on
  the core on which it faulted.
* `fault_status_mixed` has a run in which a task gets the status of another one, and a run
  in which it gets that of an unset slot.
-/

namespace X64HK.FaultStatus

open Interrupt

/-! ## The machine -/

/-- How far a thread has come since its fault.  `own` is the vector of that fault and
`home` the core on which it happened. -/
inductive Stage where
  /-- It has not faulted. -/
  | running
  /-- The handler has returned into `TerminateFaultedTask`. -/
  | faulted (own : Vector) (home : Nat)
  /-- `s_Death.Get()` has returned a reference to `slot`. -/
  | located (own : Vector) (home slot : Nat)
  /-- `death.Reason` is read. -/
  | named (own : Vector) (home slot : Nat) (reason : Option String)
  /-- `User::Terminate` is called. -/
  | terminating (own : Vector) (reason : Option String) (status : Nat)
  deriving DecidableEq, Repr

/-- The vector of a fault whose status is yet to be read, and its core. -/
def Stage.unread : Stage → Option (Vector × Nat)
  | .faulted own home | .located own home _ | .named own home _ _ => some (own, home)
  | .running | .terminating .. => none

/-- The slot that a thread refers to. -/
def Stage.slot : Stage → Option Nat
  | .located _ _ slot | .named _ _ slot _ => some slot
  | .running | .faulted _ _ | .terminating .. => none

structure Machine where
  vault : Vault
  /-- `s_Death`. -/
  death : Nat → Option Death := fun _ => none
  stage : Thread → Stage := fun _ => .running
  /-- The vector of the last fault on each core.  No code reads it. -/
  newest : Nat → Option Vector := fun _ => none

/-- What can happen next. -/
inductive Action where
  /-- The thread on `core` raises an exception in ring 3.  The frame and the rest of what
  the handler looks at are those of `entry`. -/
  | fault (core : Nat) (fault : UserFault) (error : Nat) (entry : Entry)
  /-- The thread on `core` does a step of `TerminateFaultedTask`. -/
  | proceed (core : Nat)
  /-- An operation of the scheduler. -/
  | schedule (event : SchedulerEvent)

namespace Machine

def start (cores : Nat) (counts : Nat → Nat) : Machine where
  vault := Vault.initial cores counts

/-- What the handler of a fault on `core` runs on. -/
def entryOn (m : Machine) (core : Nat) (entry : Entry) : Entry :=
  { entry with core := core, death := m.death }

/-- An exception of a thread in ring 3.  A handler that panics stops the machine. -/
def fault (idt : Idt) (m : Machine) (core : Nat) (fault : UserFault) (error : Nat)
    (entry : Entry) : Option Machine :=
  match m.vault.activeThread core with
  | some (.task number) =>
    if m.stage (.task number) = .running ∧ entry.context.cs &&& 3 = 3 then
      match (deliver (installHandlers idt) fault.vector error).run (m.entryOn core entry) with
      | .ok _ after =>
        some { m with
          death := after.death
          stage := Function.update m.stage (.task number) (.faulted fault.vector core)
          newest := Function.update m.newest core (some fault.vector) }
      | .error _ _ => none
    else none
  | _ => none

/-- `death.Status`.  A slot that is not set is zero. -/
def statusAt (m : Machine) (slot : Nat) : Nat :=
  ((m.death slot).map Death.status).getD 0

/-- The steps of `TerminateFaultedTask` on `core`. -/
def advance (m : Machine) (core : Nat) : Stage → Option Stage
  | .faulted own home => some (.located own home core)
  | .located own home slot => some (.named own home slot ((m.death slot).map Death.reason))
  | .named own _ slot reason => some (.terminating own reason (m.statusAt slot))
  | .running | .terminating .. => none

/-- The stage of the thread on a core. -/
def stageOn (m : Machine) (core : Nat) : Stage :=
  ((m.vault.activeThread core).map m.stage).getD .running

/-- The operation can be issued in the stage that the thread on its core is in.  A thread
blocks only while it has not faulted, and `Terminate` ends with `Exit`.  The others come
from epilogues as well. -/
def issues (m : Machine) : SchedulerEvent → Bool
  | .resume core false | .p core _ | .sleep core _ => m.stageOn core = .running
  | .exit core =>
    match m.stageOn core with
    | .running | .terminating .. => true
    | _ => false
  | .schedule _ | .ready _ _ | .resume _ true | .kill _ | .v _ _ | .check _ => true

def step (idt : Idt) (fuel : Nat) (m : Machine) : Action → Option Machine
  | .fault core fault error entry => m.fault idt core fault error entry
  | .proceed core =>
    match m.vault.activeThread core with
    | none => none
    | some thread =>
      (m.advance core (m.stage thread)).map fun stage =>
        { m with stage := Function.update m.stage thread stage }
  | .schedule event =>
    if m.issues event then
      match m.vault.step fuel event with
      | .ok v => some { m with vault := v }
      | .error _ => none
    else none

/-- Every task that `User::Terminate` was called for has the status of its own fault. -/
def Attributed (m : Machine) : Prop :=
  ∀ thread own reason status, m.stage thread = .terminating own reason status →
    status = EXIT_FAULT_BASE + own.val

/-- A thread that is about to read its status finds the last fault of the slot to be one
with its own vector. -/
def ReadsOwn (m : Machine) : Action → Prop
  | .proceed core => ∀ thread own home slot reason, m.vault.activeThread core = some thread →
      m.stage thread = .named own home slot reason → m.newest slot = some own
  | .fault .. | .schedule _ => True

/-- No task faults on a core while the status of another fault there is yet to be read,
and a task asks for its slot on the core on which it faulted. -/
def Undisturbed (m : Machine) : Action → Prop
  | .fault core .. => ∀ thread own, (m.stage thread).unread ≠ some (own, core)
  | .proceed core => ∀ thread own home, m.vault.activeThread core = some thread →
      m.stage thread = .faulted own home → home = core
  | .schedule _ => True

end Machine

/-! ## What one step does -/

variable {idt : Idt} {fuel core : Nat} {m m' : Machine}
  {stage : Stage} {action : Action} {thread : Thread}

/-- A fault makes a running task a faulted one and changes the slot of its core. -/
structure Faulted (m m' : Machine) (core number : Nat) (vector : Vector) : Prop where
  running : m.stage (.task number) = .running
  stage : m'.stage = Function.update m.stage (.task number) (.faulted vector core)
  newest : m'.newest = Function.update m.newest core (some vector)
  status : (m'.death core).map Death.status = some (EXIT_FAULT_BASE + vector.val)
  others : ∀ slot, slot ≠ core → m'.death slot = m.death slot

theorem fault_spec {fault : UserFault} {error : Nat} {entry : Entry}
    (h : m.fault idt core fault error entry = some m') :
    ∃ number, Faulted m m' core number fault.vector := by
  unfold Machine.fault at h
  split at h
  · next number _ =>
    obtain ⟨⟨hrunning, huser⟩, h⟩ := Option.ite_none_right_eq_some.1 h
    split at h
    · next after hafter =>
      have hkills : KillsTask fault.vector (m.entryOn core entry) after :=
        killsTask_of_ok huser hafter
      obtain rfl := Option.some.inj h
      obtain ⟨reason, hreason⟩ := hkills.status
      refine ⟨number, hrunning, rfl, rfl, ?_, hkills.others⟩
      exact congrArg (Option.map Death.status) hreason
    · exact absurd h nofun
  · exact absurd h nofun

theorem proceed_spec (h : m.step idt fuel (.proceed core) = some m') :
    ∃ thread stage, m.vault.activeThread core = some thread ∧
      m.advance core (m.stage thread) = some stage ∧
      m' = { m with stage := Function.update m.stage thread stage } := by
  dsimp only [Machine.step] at h
  split at h
  · exact absurd h nofun
  · next thread hactive =>
    obtain ⟨stage, hstage, rfl⟩ := Option.map_eq_some_iff.1 h
    exact ⟨thread, stage, hactive, hstage, rfl⟩

/-- Only the last step of `TerminateFaultedTask` leads to `Terminate`. -/
theorem advance_terminating {own : Vector} {reason : Option String} {status : Nat}
    (h : m.advance core stage = some (.terminating own reason status)) :
    ∃ home slot, stage = .named own home slot reason ∧ status = m.statusAt slot := by
  cases stage with
  | named own' home slot reason' =>
    obtain ⟨rfl, rfl, rfl⟩ := Stage.terminating.inj (Option.some.inj h)
    exact ⟨home, slot, rfl, rfl⟩
  | running => exact absurd h nofun
  | faulted own' home => exact absurd (Option.some.inj h) nofun
  | located own' home slot => exact absurd (Option.some.inj h) nofun
  | terminating own' reason' status' => exact absurd h nofun

theorem schedule_spec {event : SchedulerEvent}
    (h : m.step idt fuel (.schedule event) = some m') : ∃ v, m' = { m with vault := v } := by
  obtain ⟨_, h⟩ := Option.ite_none_right_eq_some.1 h
  split at h
  · next v _ => exact ⟨v, (Option.some.inj h).symm⟩
  · exact absurd h nofun

/-- A task that is being terminated stays so. -/
theorem terminating_stays (h : m.step idt fuel action = some m') {own : Vector}
    {reason : Option String} {status : Nat}
    (hstage : m.stage thread = .terminating own reason status) :
    m'.stage thread = .terminating own reason status := by
  cases action with
  | fault core fault error entry =>
    obtain ⟨number, hfault⟩ := fault_spec h
    have hne : thread ≠ .task number := by
      rintro rfl
      exact absurd (hstage.symm.trans hfault.running) nofun
    rw [hfault.stage, Function.update_of_ne hne]
    exact hstage
  | proceed core =>
    obtain ⟨other, stage, _, hadvance, rfl⟩ := proceed_spec h
    have hne : thread ≠ other := by
      rintro rfl
      rw [hstage] at hadvance
      exact absurd hadvance nofun
    exact (Function.update_of_ne hne ..).trans hstage
  | schedule event =>
    obtain ⟨v, rfl⟩ := schedule_spec h
    exact hstage

/-! ## The slots -/

/-- Every slot has the status of the last fault on its core. -/
def Recorded (m : Machine) : Prop :=
  ∀ slot, (m.death slot).map Death.status = (m.newest slot).map (EXIT_FAULT_BASE + ·.val)

theorem Recorded.step (hrec : Recorded m) (h : m.step idt fuel action = some m') : Recorded m' := by
  cases action with
  | fault core fault error entry =>
    obtain ⟨number, hfault⟩ := fault_spec h
    intro slot
    rw [hfault.newest]
    by_cases hslot : slot = core
    · rw [hslot, Function.update_self]
      exact hfault.status
    · rw [Function.update_of_ne hslot, hfault.others slot hslot]
      exact hrec slot
  | proceed core =>
    obtain ⟨thread, stage, _, _, rfl⟩ := proceed_spec h
    exact hrec
  | schedule event =>
    obtain ⟨v, rfl⟩ := schedule_spec h
    exact hrec

/-- The status that a thread reads is its own just when the last fault of the slot has
its vector.  An unset slot never is. -/
theorem Recorded.statusAt_eq_iff (hrec : Recorded m) (slot : Nat) (own : Vector) :
    m.statusAt slot = EXIT_FAULT_BASE + own.val ↔ m.newest slot = some own := by
  unfold Machine.statusAt
  rw [hrec slot]
  cases hnewest : m.newest slot with
  | none =>
    refine iff_of_false (fun h => ?_) nofun
    exact absurd (show 0 = 128 + own.val from h) (by omega)
  | some vector =>
    refine ⟨fun h => ?_, fun h => ?_⟩
    · exact congrArg some (Fin.ext (Nat.add_left_cancel h))
    · rw [Option.some.inj h]
      rfl

/-! ## Whole runs -/

theorem attributed_step_iff (hrec : Recorded m) (hattr : m.Attributed)
    (h : m.step idt fuel action = some m') : m'.Attributed ↔ m.ReadsOwn action := by
  cases action with
  | fault core fault error entry =>
    obtain ⟨number, hfault⟩ := fault_spec h
    refine iff_of_true (fun thread own reason status hstage => ?_) trivial
    rw [hfault.stage] at hstage
    by_cases hthread : thread = .task number
    · rw [hthread, Function.update_self] at hstage
      exact absurd hstage nofun
    · rw [Function.update_of_ne hthread] at hstage
      exact hattr thread own reason status hstage
  | schedule event =>
    obtain ⟨v, rfl⟩ := schedule_spec h
    exact iff_of_true hattr trivial
  | proceed core =>
    obtain ⟨thread, stage, hactive, hadvance, rfl⟩ := proceed_spec h
    refine ⟨fun hattr' thread' own home slot reason hactive' hstage => ?_,
      fun hreads other own reason status hstage => ?_⟩
    · obtain rfl := Option.some.inj (hactive.symm.trans hactive')
      rw [hstage] at hadvance
      obtain rfl := Option.some.inj hadvance
      exact (hrec.statusAt_eq_iff slot own).1 (hattr' thread own reason _ (Function.update_self ..))
    · by_cases hother : other = thread
      · subst hother
        have hlast : stage = .terminating own reason status :=
          (Function.update_self ..).symm.trans hstage
        obtain ⟨home, slot, hbefore, hstatus⟩ := advance_terminating (hlast ▸ hadvance)
        rw [hstatus]
        exact (hrec.statusAt_eq_iff slot own).2 (hreads other own home slot reason hactive hbefore)
      · exact hattr other own reason status ((Function.update_of_ne hother ..).symm.trans hstage)

/-- What carries an undisturbed run: the last fault on a core is that of the task whose
status is yet to be read there, and no task refers to another core's slot. -/
structure Kept (m : Machine) : Prop where
  newest : ∀ thread own home, (m.stage thread).unread = some (own, home) → m.newest home = some own
  slot : ∀ thread slot, (m.stage thread).slot = some slot →
    ∃ own, (m.stage thread).unread = some (own, slot)

theorem Kept.readsOwn (hkept : Kept m) (action : Action) : m.ReadsOwn action := by
  cases action with
  | fault core fault error entry => trivial
  | schedule event => trivial
  | proceed core =>
    intro thread own home slot reason _ hstage
    obtain ⟨own', hunread⟩ := hkept.slot thread slot (by rw [hstage]; rfl)
    obtain ⟨rfl, _⟩ : own = own' ∧ home = slot := by
      rw [hstage] at hunread
      exact Prod.mk.inj (Option.some.inj hunread)
    exact hkept.newest thread own slot hunread

/-- A step of `TerminateFaultedTask` reads the status or leaves it unread. -/
theorem advance_unread {stage' : Stage} (h : m.advance core stage = some stage')
    {unread : Vector × Nat} (hunread : stage'.unread = some unread) :
    stage.unread = some unread := by
  cases stage with
  | faulted own home | located own home slot =>
    obtain rfl := Option.some.inj h
    exact hunread
  | named own home slot reason =>
    obtain rfl := Option.some.inj h
    exact absurd hunread nofun
  | running | terminating own reason status => exact absurd h nofun

/-- The slot is the one that the thread had, or its core's for a thread that has just
faulted. -/
theorem advance_slot {stage' : Stage} (h : m.advance core stage = some stage') {slot : Nat}
    (hslot : stage'.slot = some slot) :
    stage'.unread = stage.unread ∧
      (stage.slot = some slot ∨ ∃ own home, stage = .faulted own home ∧ slot = core) := by
  cases stage with
  | faulted own home =>
    obtain rfl := Option.some.inj h
    exact ⟨rfl, .inr ⟨own, home, rfl, (Option.some.inj hslot).symm⟩⟩
  | located own home slot' =>
    obtain rfl := Option.some.inj h
    exact ⟨rfl, .inl hslot⟩
  | named own home slot' reason =>
    obtain rfl := Option.some.inj h
    exact absurd hslot nofun
  | running | terminating own reason status => exact absurd h nofun

theorem Kept.fault (hkept : Kept m) {number : Nat} {vector : Vector}
    (hfree : ∀ thread own, (m.stage thread).unread ≠ some (own, core))
    (hfault : Faulted m m' core number vector) : Kept m' where
  newest := by
    intro thread own home hunread
    rw [hfault.stage] at hunread
    rw [hfault.newest]
    by_cases hthread : thread = .task number
    · rw [hthread, Function.update_self] at hunread
      obtain ⟨rfl, rfl⟩ := Prod.mk.inj (Option.some.inj hunread)
      exact Function.update_self ..
    · rw [Function.update_of_ne hthread] at hunread
      have hhome : home ≠ core := by
        rintro rfl
        exact hfree thread own hunread
      rw [Function.update_of_ne hhome]
      exact hkept.newest thread own home hunread
  slot := by
    intro thread slot hslot
    rw [hfault.stage] at hslot ⊢
    by_cases hthread : thread = .task number
    · rw [hthread, Function.update_self] at hslot
      exact absurd hslot nofun
    · rw [Function.update_of_ne hthread] at hslot ⊢
      exact hkept.slot thread slot hslot

theorem Kept.proceed (hkept : Kept m)
    (hhome : ∀ own home, m.stage thread = .faulted own home → home = core)
    (hadvance : m.advance core (m.stage thread) = some stage) :
    Kept { m with stage := Function.update m.stage thread stage } where
  newest := by
    intro other own home hunread
    by_cases hother : other = thread
    · subst hother
      have hstage : stage.unread = some (own, home) :=
        (congrArg Stage.unread (Function.update_self ..)).symm.trans hunread
      exact hkept.newest other own home (advance_unread hadvance hstage)
    · have hstage : (m.stage other).unread = some (own, home) :=
        (congrArg Stage.unread (Function.update_of_ne hother ..)).symm.trans hunread
      exact hkept.newest other own home hstage
  slot := by
    intro other slot hslot
    dsimp only at hslot ⊢
    by_cases hother : other = thread
    · subst hother
      rw [Function.update_self] at hslot ⊢
      obtain ⟨hunread, hbefore | ⟨own, home, hbefore, rfl⟩⟩ := advance_slot hadvance hslot
      · rw [hunread]
        exact hkept.slot other slot hbefore
      · rw [hunread, hbefore, hhome own home hbefore]
        exact ⟨own, rfl⟩
    · rw [Function.update_of_ne hother] at hslot ⊢
      exact hkept.slot other slot hslot

theorem Kept.step (hkept : Kept m) (hfree : m.Undisturbed action)
    (h : m.step idt fuel action = some m') : Kept m' := by
  cases action with
  | fault core fault error entry =>
    obtain ⟨number, hfault⟩ := fault_spec h
    exact hkept.fault hfree hfault
  | proceed core =>
    obtain ⟨thread, stage, hactive, hadvance, rfl⟩ := proceed_spec h
    exact hkept.proceed (fun own home => hfree thread own home hactive) hadvance
  | schedule event =>
    obtain ⟨v, rfl⟩ := schedule_spec h
    exact ⟨hkept.newest, hkept.slot⟩

/-! ## Three runs -/

/-- Two tasks, the first of which runs on core 0. -/
def twoTasks : List Action :=
  [.schedule (.ready 0 (.task 1)), .schedule (.ready 0 (.task 2)), .schedule (.schedule 0)]

/-- The first task divides by zero and is terminated before the second one runs. -/
def alone : List Action :=
  twoTasks ++ [.fault 0 .divideError 0 (faultingEntry 0), .proceed 0, .proceed 0, .proceed 0]

/-- The first task divides by zero.  A tick switches to the second one before the first has
read its status.  The second one touches memory it does not own, and a tick switches
back. -/
def overwritten : List Action :=
  twoTasks ++ [.fault 0 .divideError 0 (faultingEntry 0), .schedule (.resume 0 true),
    .fault 0 .pageFault 4 (faultingEntry 0x1000), .schedule (.resume 0 true),
    .proceed 0, .proceed 0, .proceed 0]

/-- The first task divides by zero, and goes on on core 1 after a tick. -/
def moved : List Action :=
  twoTasks ++ [.fault 0 .divideError 0 (faultingEntry 0), .schedule (.resume 0 true),
    .schedule (.schedule 1), .proceed 1, .proceed 1, .proceed 1]

/-- Two cores whose table of handlers is installed. -/
def runTwo (actions : List Action) : Option Machine :=
  Transition.run (Machine.step (fun _ => returning .unexpected 0) 8) (.start 2 fun _ => 0) actions

/-- The stage of the first task after a run on two cores. -/
def firstAfter (actions : List Action) : Option Stage :=
  (runTwo actions).map fun m => m.stage (.task 1)

/-- A step of `TerminateFaultedTask` does not bring back the first stage of it. -/
theorem faulted_of_proceed (h : m.step idt fuel (.proceed core) = some m') {own : Vector}
    {home : Nat} (hstage : m'.stage thread = .faulted own home) :
    m.stage thread = .faulted own home := by
  obtain ⟨other, stage, _, hadvance, rfl⟩ := proceed_spec h
  by_cases hthread : thread = other
  · subst hthread
    obtain rfl : stage = .faulted own home := (Function.update_self ..).symm.trans hstage
    cases hbefore : m.stage thread <;> rw [hbefore] at hadvance <;> exact absurd hadvance nofun
  · exact (Function.update_of_ne hthread ..).symm.trans hstage

theorem alone_undisturbed : Transition.Along (Machine.step idt fuel) Machine.Undisturbed
    (.start 2 fun _ => 0) alone := by
  refine ⟨trivial, fun m₁ h₁ => ⟨trivial, fun m₂ h₂ => ⟨trivial, fun m₃ h₃ => ?_⟩⟩⟩
  obtain ⟨_, rfl⟩ := schedule_spec h₁
  obtain ⟨_, rfl⟩ := schedule_spec h₂
  obtain ⟨_, rfl⟩ := schedule_spec h₃
  refine ⟨nofun, fun m₄ h₄ => ?_⟩
  obtain ⟨number, hfault⟩ := fault_spec h₄
  have hhome : ∀ thread own home, m₄.stage thread = .faulted own home → home = 0 := by
    intro thread own home hstage
    rw [hfault.stage] at hstage
    by_cases hthread : thread = .task number
    · rw [hthread, Function.update_self] at hstage
      exact (Stage.faulted.inj hstage).2.symm
    · rw [Function.update_of_ne hthread] at hstage
      exact absurd hstage nofun
  refine ⟨fun thread own home _ => hhome thread own home, fun m₅ h₅ =>
    ⟨fun thread own home _ hstage => ?_, fun m₆ h₆ =>
      ⟨fun thread own home _ hstage => ?_, fun _ _ => trivial⟩⟩⟩
  · exact hhome thread own home (faulted_of_proceed h₅ hstage)
  · exact hhome thread own home (faulted_of_proceed h₅ (faulted_of_proceed h₆ hstage))

/-! ## The status of every task -/

/-- For any number of cores and tasks and any interleaving: the tasks that `Terminate` was
called for have the status of their own faults exactly when each of them read a slot whose
last fault has its own vector.  That is so in every undisturbed run. -/
theorem fault_status_iff (idt : Idt) (fuel cores : Nat) (counts : Nat → Nat)
    (actions : List Action) (m : Machine)
    (hrun : Transition.run (Machine.step idt fuel) (.start cores counts) actions = some m) :
    (m.Attributed ↔
      Transition.Along (Machine.step idt fuel) Machine.ReadsOwn (.start cores counts) actions) ∧
    (Transition.Along (Machine.step idt fuel) Machine.Undisturbed (.start cores counts) actions →
      m.Attributed) := by
  have hrec : Recorded (.start cores counts) := fun _ => rfl
  have hattr : (Machine.start cores counts).Attributed := nofun
  have hkept : Kept (.start cores counts) := ⟨nofun, nofun⟩
  constructor
  · refine Transition.iff_along (fun _ _ _ => Recorded.step) (fun _ _ _ => attributed_step_iff)
      (fun m action m' hnext hattr thread own reason status hstage => ?_) hrec hattr hrun
    exact hattr thread own reason status (terminating_stays hnext hstage)
  · intro halong
    have hboth := Transition.invariant_along
      (fun m action m' (h : Recorded m ∧ m.Attributed ∧ Kept m) hfree hnext =>
        (⟨h.1.step hnext, (attributed_step_iff h.1 h.2.1 hnext).2 (h.2.2.readsOwn action),
          h.2.2.step hfree hnext⟩ : Recorded m' ∧ m'.Attributed ∧ Kept m'))
      ⟨hrec, hattr, hkept⟩ halong hrun
    exact hboth.2.1

theorem fault_status_alone : ∃ m, runTwo alone = some m ∧ m.Attributed ∧
    m.stage (.task 1) = .terminating Vector.DIVIDE_ERROR (some "divided by zero") 128 := by
  have hrun : firstAfter alone =
      some (.terminating Vector.DIVIDE_ERROR (some "divided by zero") 128) := by decide +kernel
  obtain ⟨m, hm, hstage⟩ := Option.map_eq_some_iff.1 hrun
  exact ⟨m, hm, (fault_status_iff _ 8 2 _ alone m hm).2 alone_undisturbed, hstage⟩

/-- A task that divides by zero is terminated with the status of a page fault that another
task had on the same core, or with the contents of a slot that is not set. -/
theorem fault_status_mixed :
    (∃ m, runTwo overwritten = some m ∧ ¬m.Attributed ∧
      m.stage (.task 1) =
        .terminating Vector.DIVIDE_ERROR (some "touched memory it does not own") 142) ∧
    ∃ m, runTwo moved = some m ∧ ¬m.Attributed ∧
      m.stage (.task 1) = .terminating Vector.DIVIDE_ERROR none 0 := by
  have hoverwritten : firstAfter overwritten = some (.terminating Vector.DIVIDE_ERROR
      (some "touched memory it does not own") 142) := by decide +kernel
  have hmoved : firstAfter moved = some (.terminating Vector.DIVIDE_ERROR none 0) := by
    decide +kernel
  obtain ⟨m, hm, hstage⟩ := Option.map_eq_some_iff.1 hoverwritten
  obtain ⟨m', hm', hstage'⟩ := Option.map_eq_some_iff.1 hmoved
  refine ⟨⟨m, hm, fun hattr => ?_, hstage⟩, m', hm', fun hattr => ?_, hstage'⟩
  · exact absurd (hattr _ _ _ _ hstage) (by decide)
  · exact absurd (hattr _ _ _ _ hstage') (by decide)

end X64HK.FaultStatus
