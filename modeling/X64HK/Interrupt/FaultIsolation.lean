import X64HK.Interrupt.Handlers

/-!
# Which faults of user code stay in user code

A fault in ring 3 should kill the task and nothing else, and a fault in
ring 0 should panic.  `Isolates` states that for one exception, and
`fault_isolation_iff` says for which exceptions it holds: for all that
ring 3 code can raise, except

* the debug exception, for which no handler is installed, and
* a page fault at an address inside the guard page of a kernel stack,
  because the page fault handler takes it for a stack overflow before it
  looks at the privilege level.

The lemmas before it run the two shapes of handlers once and for all.
-/

namespace X64HK.Interrupt

/-- The exceptions that code in ring 3 can raise. -/
inductive UserFault where
  | divideError
  /-- The trap flag, or the instruction `int1`. -/
  | debug
  | invalidOpcode
  | stackSegment
  | generalProtection
  | pageFault
  deriving DecidableEq, Repr

def UserFault.vector : UserFault → Vector
  | .divideError => Vector.DIVIDE_ERROR
  | .debug => Vector.DEBUG
  | .invalidOpcode => Vector.INVALID_OPCODE
  | .stackSegment => Vector.STACK_SEGMENT_FAULT
  | .generalProtection => Vector.GENERAL_PROTECTION_FAULT
  | .pageFault => Vector.PAGE_FAULT

/-- The fault happened in ring 3. -/
def Entry.FromUser (entry : Entry) : Prop := entry.context.cs &&& 3 = 3

/-- The fault happened in ring 0. -/
def Entry.FromKernel (entry : Entry) : Prop := entry.context.cs &&& 3 = 0

/-- The handler turned the frame into a call of `TerminateFaultedTask` on
the core's own kernel stack, and recorded the status for that core
alone. -/
structure KillsTask (vector : Vector) (before after : Entry) : Prop where
  cs : after.context.cs = KERNEL_CODE
  ss : after.context.ss = KERNEL_DATA
  ip : after.context.ip = before.terminateFaultedTask
  sp : after.context.sp = sub64 (before.kernelStack before.core) 8
  flags : after.context.flags = 0x202
  status : ∃ reason, after.death before.core = some ⟨reason, 128 + vector.val⟩
  others : ∀ core, core ≠ before.core → after.death core = before.death core

/-- The installed handler kills the task for a fault in ring 3, and panics
with the frame as it was for a fault in ring 0. -/
def Isolates (idt : Idt) (fault : UserFault) (error : Nat) (entry : Entry) : Prop :=
  (entry.FromUser → ∃ after,
    (deliver (installHandlers idt) fault.vector error).run entry = .ok () after ∧
      KillsTask fault.vector entry after) ∧
  (entry.FromKernel → ∃ message after,
    (deliver (installHandlers idt) fault.vector error).run entry =
      .error (.panic message) after ∧ after.context = entry.context)

/-! ## Running the handlers -/

/-- `KillUserTask` on a frame of ring 3. -/
def killed (reason : String) (vector : Vector) (entry : Entry) : Entry :=
  { entry with
    context := killedContext entry
    death := Function.update entry.death entry.core (some ⟨reason, EXIT_FAULT_BASE + vector.val⟩) }

theorem killUserTask_run (reason : String) (vector : Vector) (entry : Entry) :
    (killUserTask reason vector).run entry =
      if entry.context.cs &&& 3 = 3 then .ok true (killed reason vector entry)
      else .ok false entry := by
  unfold killUserTask EStateM.run
  simp only [bind, EStateM.bind, get, getThe, MonadStateOf.get]
  delta EStateM.get
  dsimp only
  by_cases h : entry.context.cs &&& 3 = 3
  · rw [if_neg (not_not.2 h), if_pos h]
    rfl
  · rw [if_pos h, if_neg h]
    rfl

theorem killOrPanic_run (reason : String) (vector : Vector) (message : String) (entry : Entry) :
    (killOrPanic reason vector message).run entry =
      if entry.context.cs &&& 3 = 3 then .ok () (killed reason vector entry)
      else .error (.panic message) entry := by
  have h := killUserTask_run reason vector entry
  unfold EStateM.run at h
  unfold killOrPanic EStateM.run
  simp only [bind, EStateM.bind, h]
  by_cases huser : entry.context.cs &&& 3 = 3
  · rw [if_pos huser, if_pos huser]
    rfl
  · rw [if_neg huser, if_neg huser]
    rfl

theorem handlePageFault_run (entry : Entry) :
    handlePageFault.run entry =
      if KernelStack.isGuardPage (KernelStack.nextSlot entry.stackCount) entry.cr2 then
        .error (.panic "Kernel stack overflow") entry
      else
        (killOrPanic "touched memory it does not own" Vector.PAGE_FAULT
          "Page fault").run entry := by
  unfold handlePageFault EStateM.run
  simp only [bind, EStateM.bind, get, getThe, MonadStateOf.get]
  delta EStateM.get
  dsimp only
  split <;> rfl

theorem killed_killsTask (reason : String) (vector : Vector) (entry : Entry) :
    KillsTask vector entry (killed reason vector entry) where
  cs := rfl
  ss := rfl
  ip := rfl
  sp := rfl
  flags := show FLAG_ENABLE ||| 2 = 0x202 by decide
  status := ⟨reason, Function.update_self ..⟩
  others := fun _ hcore => Function.update_of_ne hcore ..

variable {entry : Entry}

theorem Entry.FromKernel.not_fromUser (h : entry.FromKernel) : ¬entry.context.cs &&& 3 = 3 := by
  rw [h]
  decide

variable {fault : UserFault}

/-- A handler that kills or panics isolates its fault. -/
theorem isolates_of_killOrPanic {idt : Idt} {error : Nat}
    {reason message : String}
    (h : (deliver (installHandlers idt) fault.vector error).run entry =
      (killOrPanic reason fault.vector message).run entry) :
    Isolates idt fault error entry := by
  rw [killOrPanic_run] at h
  refine ⟨fun huser => ?_, fun hkernel => ?_⟩
  · rw [if_pos (show entry.context.cs &&& 3 = 3 from huser)] at h
    exact ⟨_, h, killed_killsTask reason fault.vector entry⟩
  · rw [if_neg hkernel.not_fromUser] at h
    exact ⟨message, entry, h, rfl⟩

/-- A handler that panics at once isolates its fault only when no user code
raised it. -/
theorem isolates_iff_of_panic {idt : Idt} {error : Nat}
    {message : String}
    (h : (deliver (installHandlers idt) fault.vector error).run entry =
      .error (.panic message) entry) :
    Isolates idt fault error entry ↔ ¬entry.FromUser := by
  refine ⟨fun hiso huser => ?_, fun hnot => ?_⟩
  · obtain ⟨after, hok, _⟩ := hiso.1 huser
    rw [h] at hok
    exact absurd hok nofun
  · exact ⟨fun huser => absurd huser hnot, fun _ => ⟨message, entry, h, rfl⟩⟩

/-- The guard pages that `HandlePageFault` looks for. -/
def Entry.HitsGuardPage (entry : Entry) : Prop :=
  KernelStack.isGuardPage (KernelStack.nextSlot entry.stackCount) entry.cr2 = true

/-- The handler of a fault that ring 3 code can raise kills or panics, but for
the debug exception and the guard pages, where it panics at once. -/
theorem deliver_cases (idt : Idt) (fault : UserFault) (error : Nat) (entry : Entry) :
    ((fault = .debug ∨ fault = .pageFault ∧ entry.HitsGuardPage) ∧ ∃ message,
      (deliver (installHandlers idt) fault.vector error).run entry =
        .error (.panic message) entry) ∨
    (¬(fault = .debug ∨ fault = .pageFault ∧ entry.HitsGuardPage) ∧ ∃ reason message,
      (deliver (installHandlers idt) fault.vector error).run entry =
        (killOrPanic reason fault.vector message).run entry) := by
  have hgate := installHandlers_apply idt fault.vector
  cases fault with
  | divideError => exact .inr ⟨by simp, _, _, by rw [deliver, hgate]; rfl⟩
  | invalidOpcode => exact .inr ⟨by simp, _, _, by rw [deliver, hgate]; rfl⟩
  | stackSegment => exact .inr ⟨by simp, _, _, by rw [deliver, hgate]; rfl⟩
  | generalProtection => exact .inr ⟨by simp, _, _, by rw [deliver, hgate]; rfl⟩
  | debug => exact .inl ⟨.inl rfl, _, by rw [deliver, hgate]; rfl⟩
  | pageFault =>
    have hrun : (deliver (installHandlers idt) UserFault.pageFault.vector error).run
        entry = handlePageFault.run entry := by rw [deliver, hgate]; rfl
    rw [handlePageFault_run] at hrun
    by_cases hguard : entry.HitsGuardPage
    · exact .inl ⟨.inr ⟨rfl, hguard⟩, _, hrun.trans (if_pos hguard)⟩
    · exact .inr ⟨by simp [hguard], _, _, hrun.trans (if_neg hguard)⟩

/-- A handler that returns from a fault in ring 3 has killed the task. -/
theorem killsTask_of_ok {idt : Idt} {error : Nat} {after : Entry} (huser : entry.FromUser)
    (h : (deliver (installHandlers idt) fault.vector error).run entry = .ok () after) :
    KillsTask fault.vector entry after := by
  obtain ⟨_, message, hrun⟩ | ⟨_, reason, message, hrun⟩ := deliver_cases idt fault error entry
  · exact absurd (hrun.symm.trans h) nofun
  · rw [hrun, killOrPanic_run, if_pos (show entry.context.cs &&& 3 = 3 from huser)] at h
    injection h with _ h
    exact h ▸ killed_killsTask reason fault.vector entry

/-- A fault that ring 3 code can raise is isolated unless it comes from
ring 3 and is a debug exception or hits a guard page. -/
theorem fault_isolation_iff (idt : Idt) (fault : UserFault) (error : Nat) (entry : Entry) :
    Isolates idt fault error entry ↔
      ¬(entry.FromUser ∧ (fault = .debug ∨ fault = .pageFault ∧ entry.HitsGuardPage)) := by
  obtain ⟨hpanics, message, hrun⟩ | ⟨hkills, reason, message, hrun⟩ :=
    deliver_cases idt fault error entry
  · rw [isolates_iff_of_panic hrun]
    simp only [hpanics, and_true]
  · refine iff_of_true (isolates_of_killOrPanic hrun) ?_
    exact fun h => hkills h.2

/-- A core that runs one user task, at the moment it faults.  One kernel
stack was handed out. -/
def faultingEntry (cr2 : Nat) : Entry where
  context := ⟨0x401000, 0x2B, 0x302, 0x7FFFFFFFEF00, 0x23⟩
  core := 0
  death := fun _ => none
  kernelStack := fun _ => Config.KERNEL_STACK_BASE + KernelStack.STRIDE
  stackCount := 1
  cr2 := cr2
  terminateFaultedTask := 0xFFFFFFFF80103000
  actions := []

/-- Single-stepping user code panics, and so does a user access to the
lowest page of a kernel stack's slot. -/
theorem fault_isolation_fails :
    ¬Isolates (fun _ => returning .unexpected 0) .debug 0 (faultingEntry 0) ∧
      ¬Isolates (fun _ => returning .unexpected 0) .pageFault 4
        (faultingEntry Config.KERNEL_STACK_BASE) := by
  have hdebug : (deliver (installHandlers fun _ => returning .unexpected 0)
      UserFault.debug.vector 0).run (faultingEntry 0) =
        .error (.panic "Unexpected interrupt") (faultingEntry 0) := by
    rw [deliver, installHandlers_apply]
    rfl
  have hguard : (deliver (installHandlers fun _ => returning .unexpected 0)
      UserFault.pageFault.vector 4).run (faultingEntry Config.KERNEL_STACK_BASE) =
        .error (.panic "Kernel stack overflow") (faultingEntry Config.KERNEL_STACK_BASE) := by
    rw [deliver, installHandlers_apply]
    exact (handlePageFault_run _).trans (if_pos (by decide))
  refine ⟨fun h => ?_, fun h => ?_⟩
  · exact (isolates_iff_of_panic hdebug).1 h (by unfold Entry.FromUser; decide)
  · exact (isolates_iff_of_panic hguard).1 h (by unfold Entry.FromUser; decide)

end X64HK.Interrupt
