import Mathlib.Tactic.FinCases
import X64HK.Arch.SyscallStacks

/-!
# A system call gives back every register

The invariant `Sound` says what holds of every core and of every thread.  A core runs a
thread that stands on its intact frames, and all other threads have called
`ContextSwitch` and wait.  An action of a core changes that core and the stack of its
thread only, so most proofs are about one core (`Sound.move`).

The stack to enter the kernel on belongs to the running thread, but for the time that
`Dispatch` takes to switch.  No system call starts there.

* `Running`, `Parked` and `Sound` are the invariant.
* `Sound.step` is one action, with a lemma for each of them before it.
* `syscall_transparency` is the result.
-/

namespace X64HK.SyscallPath

open WordStack
open Interrupt (KERNEL_CODE KERNEL_DATA)
open KernelStack (STRIDE GUARD_SIZE slotAt)
open SyscallPath.Machine (limit dispatching)
open Register

/-! ## The invariant -/

/-- The calls of `Dispatch` that a thread is in. -/
def dispatches (pc : Pc) (frames : List Frame) : List (Thread × Thread × Nat) :=
  (match pc with
    | .dispatch current next done => [(current, next, done)]
    | _ => []) ++ dispatching frames

/-- The bases of `gs` are swapped in the bracket of `SyscallEntry` only. -/
def GsBases (layout : Layout) (user : UserState) (core gsBase kernelGsBase : Nat)
    (area : Area) : Pc → Prop
  | .entry index => ∀ s, sketchAt user index = some s →
      s.OnCore layout core gsBase kernelGsBase area
  | _ => gsBase = 0 ∧ kernelGsBase = layout.areaAddress core

/-- The core enters the kernel on the stack of the thread. -/
structure Settled (layout : Layout) (m : Machine) (core : Nat) (thread : Thread) : Prop where
  active : (m.cores core).active = some thread
  rsp0 : (m.cores core).rsp0 = layout.top thread
  kernelStack : m.areas core .kernelStack = layout.top thread

/-- The core is in `Dispatch` from `thread` to `next`, of which `done` statements are
executed. -/
structure Switching (layout : Layout) (m : Machine) (core : Nat) (thread next : Thread)
    (done : Nat) : Prop where
  ne : next ≠ thread
  holder : m.holder = some core
  prepared : m.prepared next = true
  free : ∀ c, (m.cores c).thread ≠ some next
  active : (m.cores core).active = some (if done = 0 then thread else next)
  rsp0 : (m.cores core).rsp0 = layout.top (if done ≤ 1 then thread else next)
  kernelStack : m.areas core .kernelStack = layout.top (if done ≤ 2 then thread else next)

/-- The core runs the thread. -/
structure Running (layout : Layout) (m : Machine) (core : Nat) (thread : Thread) : Prop where
  stands : Stands layout (m.issued thread) thread m.memory (m.frames thread)
    (m.cores core).registers (m.cores core).flags (m.cores core).pc
  intact : Intact layout (m.issued thread) thread m.memory (m.frames thread)
  gs : GsBases layout (m.issued thread) core (m.cores core).gsBase (m.cores core).kernelGsBase
    (m.areas core) (m.cores core).pc
  settled : dispatches (m.cores core).pc (m.frames thread) = [] → Settled layout m core thread
  switching : ∀ current next done rest,
    dispatches (m.cores core).pc (m.frames thread) = (current, next, done) :: rest →
      (rest = [] ∧ current = thread) ∧ Switching layout m core thread next done

/-- The thread has called `ContextSwitch` with the registers `left`. -/
structure Parked (layout : Layout) (m : Machine) (thread : Thread) (left : Registers)
    (returnAddress : Nat) (rest : List Frame) : Prop where
  frames : m.frames thread = .switch left returnAddress :: rest
  context : ∀ field ∈ LOAD_CONTEXT, m.contexts thread field.1 = left field.2
  returnAddress : m.memory (left rsp) = returnAddress
  bottom : layout.bottom thread ≤ left rsp
  below : left rsp + 8 ≤ limit layout thread rest
  intact : Intact layout (m.issued thread) thread m.memory rest
  settled : dispatching rest = []

structure Sound (layout : Layout) (m : Machine) : Prop where
  running : ∀ core thread, (m.cores core).thread = some thread →
    (core < m.count ∧ m.prepared thread = true) ∧ Running layout m core thread
  waiting : ∀ core, (m.cores core).thread = none → (m.cores core).pc = .boot ∧
    (m.cores core).gsBase = 0 ∧ (m.cores core).kernelGsBase = layout.areaAddress core
  single : ∀ core core' thread, (m.cores core).thread = some thread →
    (m.cores core').thread = some thread → core = core'
  parked : ∀ thread, m.prepared thread = true → (∀ core, (m.cores core).thread ≠ some thread) →
    ∃ left returnAddress rest, Parked layout m thread left returnAddress rest
  flags : ∀ thread, UserFlags (m.issued thread).flags

variable {layout : Layout} {m m' : Machine} {core : Nat} {thread : Thread}
  {other next current : Thread} {left registers : Registers} {returnAddress rip : Nat}
  {rest : List Frame} {v : View} {pc : Pc} {user : UserState}
  {c index kernelGsBase done : Nat} {flags : Flags}

/-! ## One core at a time -/

/-- The stacks of different threads have no word in common. -/
theorem Layout.apart (hne : other ≠ thread) {a : Nat}
    (h : layout.bottom other ≤ a ∧ a < layout.top other) :
    ¬(layout.bottom thread ≤ a ∧ a < layout.top thread) :=
  fun h' => hne (layout.slot_injective (KernelStack.InSlot.slot_eq h h'))

/-- An action that changes `core` and the stack of `thread` only. -/
structure Local (layout : Layout) (m m' : Machine) (core : Nat) (thread : Thread) : Prop where
  count : m'.count = m.count
  cores : ∀ c, c ≠ core → m'.cores c = m.cores c
  same : (m'.cores core).thread = (m.cores core).thread
  areas : ∀ c, c ≠ core → m'.areas c = m.areas c
  memory : ∀ a, ¬(layout.bottom thread ≤ a ∧ a < layout.top thread) → m'.memory a = m.memory a
  contexts : m'.contexts = m.contexts
  prepared : m'.prepared = m.prepared
  frames : ∀ t, t ≠ thread → m'.frames t = m.frames t
  issued : ∀ t, t ≠ thread → m'.issued t = m.issued t
  holder : m'.holder = m.holder

theorem Local.thread_eq (h : Local layout m m' core thread) (c : Nat) :
    (m'.cores c).thread = (m.cores c).thread := by
  by_cases hc : c = core
  · rw [hc]
    exact h.same
  · rw [h.cores c hc]

theorem Local.agree (h : Local layout m m' core thread) (hne : other ≠ thread) :
    Agree layout other (layout.bottom other) m.memory m'.memory :=
  fun a ha ha' => h.memory a (Layout.apart hne ⟨ha, ha'⟩)

/-- What a core and its thread are made of has not changed. -/
theorem Running.keep (hrun : Running layout m c other)
    (hcores : m'.cores c = m.cores c) (hareas : m'.areas c = m.areas c)
    (hframes : m'.frames other = m.frames other) (hissued : m'.issued other = m.issued other)
    (hagree : Agree layout other (layout.bottom other) m.memory m'.memory)
    (hswitching : dispatches (m.cores c).pc (m.frames other) ≠ [] →
      ∀ next done, Switching layout m c other next done → Switching layout m' c other next done) :
    Running layout m' c other := by
  refine ⟨?_, ?_, ?_, fun hnone => ?_, fun current next done rest hsome => ?_⟩
  · rw [hissued, hframes, hcores]
    exact hrun.stands.agree (fun _ _ _ hs => bottom_le_words hs) hagree
  · rw [hissued, hframes]
    exact hrun.intact.agree (hagree.mono hrun.intact.limit_bounds.1)
  · rw [hissued, hcores, hareas]
    exact hrun.gs
  · rw [hframes, hcores] at hnone
    obtain ⟨hactive, hrsp0, hkernelStack⟩ := hrun.settled hnone
    exact ⟨by rw [hcores, hactive], by rw [hcores, hrsp0], by rw [hareas, hkernelStack]⟩
  · rw [hframes, hcores] at hsome
    obtain ⟨honly, hswitch⟩ := hrun.switching current next done rest hsome
    exact ⟨honly, hswitching (by rw [hsome]; nofun) next done hswitch⟩

theorem Parked.keep (hparked : Parked layout m other left returnAddress rest)
    (hframes : m'.frames other = m.frames other) (hissued : m'.issued other = m.issued other)
    (hcontexts : m'.contexts other = m.contexts other)
    (hagree : Agree layout other (layout.bottom other) m.memory m'.memory) :
    Parked layout m' other left returnAddress rest := by
  have htop := hparked.intact.limit_bounds.2
  have hbelow := hparked.below
  refine ⟨?_, ?_, ?_, hparked.bottom, hbelow, ?_, hparked.settled⟩
  · rw [hframes, hparked.frames]
  · rw [hcontexts]
    exact hparked.context
  · rw [hagree _ hparked.bottom (by omega)]
    exact hparked.returnAddress
  · rw [hissued]
    exact hparked.intact.agree (hagree.mono hparked.intact.limit_bounds.1)

theorem Running.of_local (hrun : Running layout m c other) (h : Local layout m m' core thread)
    (hc : c ≠ core) (hne : other ≠ thread) :
    Running layout m' c other := by
  refine hrun.keep (h.cores c hc) (h.areas c hc) (h.frames other hne) (h.issued other hne)
    (h.agree hne) fun _ next done hswitch => ?_
  refine ⟨hswitch.ne, ?_, ?_, fun c' => ?_, ?_, ?_, ?_⟩
  · rw [h.holder, hswitch.holder]
  · rw [h.prepared, hswitch.prepared]
  · rw [h.thread_eq]
    exact hswitch.free c'
  · rw [h.cores c hc, hswitch.active]
  · rw [h.cores c hc, hswitch.rsp0]
  · rw [h.areas c hc, hswitch.kernelStack]

/-- It is enough to look at the core that has acted. -/
theorem Sound.of_local (hsound : Sound layout m) (hthread : (m.cores core).thread = some thread)
    (h : Local layout m m' core thread) (hflags : UserFlags (m'.issued thread).flags)
    (hrun : Running layout m' core thread) : Sound layout m' where
  running := by
    intro c other hother
    rw [h.thread_eq] at hother
    rw [h.count, h.prepared]
    obtain ⟨hfacts, hold⟩ := hsound.running c other hother
    refine ⟨hfacts, ?_⟩
    by_cases hc : c = core
    · subst hc
      obtain rfl := Option.some.inj (hother.symm.trans hthread)
      exact hrun
    · have hne : other ≠ thread := by
        rintro rfl
        exact hc (hsound.single c core other hother hthread)
      exact hold.of_local h hc hne
  waiting := by
    intro c hnone
    rw [h.thread_eq] at hnone
    have hc : c ≠ core := by
      rintro rfl
      cases hnone.symm.trans hthread
    rw [h.cores c hc]
    exact hsound.waiting c hnone
  single := by
    intro c c' other hother hother'
    rw [h.thread_eq] at hother hother'
    exact hsound.single c c' other hother hother'
  parked := by
    intro other hprepared hfree
    rw [h.prepared] at hprepared
    have hfree' : ∀ c, (m.cores c).thread ≠ some other := by
      intro c
      rw [← h.thread_eq]
      exact hfree c
    have hne : other ≠ thread := by
      rintro rfl
      exact hfree' core hthread
    obtain ⟨left, returnAddress, rest, hparked⟩ := hsound.parked other hprepared hfree'
    exact ⟨left, returnAddress, rest, hparked.keep (h.frames other hne) (h.issued other hne)
      (by rw [h.contexts]) (h.agree hne)⟩
  flags := by
    intro other
    by_cases hne : other = thread
    · rw [hne]
      exact hflags
    · rw [h.issued other hne]
      exact hsound.flags other

/-- The core goes on with the view `v` at `pc`, on these frames. -/
def Machine.move (m : Machine) (core : Nat) (thread : Thread) (v : View) (pc : Pc)
    (frames : List Frame) (user : UserState) : Machine :=
  { m.put core v pc with
    frames := Function.update m.frames thread frames
    issued := Function.update m.issued thread user }

theorem Machine.put_eq_move (m : Machine) (core : Nat) (thread : Thread) (v : View) (pc : Pc) :
    m.put core v pc = m.move core thread v pc (m.frames thread) (m.issued thread) := by
  unfold move
  rw [Function.update_eq_self, Function.update_eq_self]
  rfl

theorem Machine.setFrames_eq_move (m : Machine) (core : Nat) (thread : Thread) (v : View) (pc : Pc)
    (frames : List Frame) :
    (m.put core v pc).setFrames thread frames =
      m.move core thread v pc frames (m.issued thread) := by
  unfold move
  rw [Function.update_eq_self]
  rfl

theorem Machine.move_core (m : Machine) (core : Nat) (thread : Thread) (v : View) (pc : Pc)
    (frames : List Frame) (user : UserState) :
    (m.move core thread v pc frames user).cores core =
      { m.cores core with
        registers := v.registers
        flags := v.flags
        gsBase := v.gsBase
        kernelGsBase := v.kernelGsBase
        pc := pc } :=
  Function.update_self ..

theorem Local.move (hfrugal : Frugal layout core thread (m.view core) v) (pc : Pc)
    (frames : List Frame) (user : UserState) :
    Local layout m (m.move core thread v pc frames user) core thread where
  count := rfl
  cores := fun _ hc => Function.update_of_ne hc ..
  same := by rw [m.move_core]
  areas := hfrugal.areas
  memory := hfrugal.memory
  contexts := rfl
  prepared := rfl
  frames := fun _ ht => Function.update_of_ne ht ..
  issued := fun _ ht => Function.update_of_ne ht ..
  holder := rfl

/-- A core goes on in the same call of `Dispatch`, if in any. -/
theorem Sound.move (hsound : Sound layout m) (hthread : (m.cores core).thread = some thread)
    {frames : List Frame} (hflags : UserFlags user.flags)
    (hstands : Stands layout user thread v.memory frames v.registers v.flags pc)
    (hintact : Intact layout user thread v.memory frames)
    (hgs : GsBases layout user core v.gsBase v.kernelGsBase (v.areas core) pc)
    (hfrugal : Frugal layout core thread (m.view core) v)
    (hsame : dispatches pc frames = dispatches (m.cores core).pc (m.frames thread)) :
    Sound layout (m.move core thread v pc frames user) := by
  have hlocal := Local.move hfrugal pc frames user
  have hframes : (m.move core thread v pc frames user).frames thread = frames :=
    Function.update_self ..
  have hissued : (m.move core thread v pc frames user).issued thread = user :=
    Function.update_self ..
  have hold := (hsound.running core thread hthread).2
  refine hsound.of_local hthread hlocal (by rw [hissued]; exact hflags) ⟨?_, ?_, ?_,
    fun hnone => ?_, fun current next done rest hsome => ?_⟩
  · rw [hframes, hissued, m.move_core]
    exact hstands
  · rw [hframes, hissued]
    exact hintact
  · rw [hissued, m.move_core]
    exact hgs
  · rw [hframes, m.move_core] at hnone
    obtain ⟨hactive, hrsp0, hkernelStack⟩ := hold.settled (hsame.symm.trans hnone)
    refine ⟨?_, ?_, hfrugal.kernelStack.trans hkernelStack⟩
    · rw [m.move_core]
      exact hactive
    · rw [m.move_core]
      exact hrsp0
  · rw [hframes, m.move_core] at hsome
    obtain ⟨honly, hswitch⟩ := hold.switching current next done rest (hsame.symm.trans hsome)
    refine ⟨honly, hswitch.ne, hswitch.holder, hswitch.prepared, fun c => ?_, ?_, ?_,
      hfrugal.kernelStack.trans hswitch.kernelStack⟩
    · rw [hlocal.thread_eq]
      exact hswitch.free c
    · rw [m.move_core]
      exact hswitch.active
    · rw [m.move_core]
      exact hswitch.rsp0

/-! ## Ring 3 -/

/-- In ring 3 the thread has no frames, and the core enters the kernel on its stack. -/
theorem Running.of_user (hrun : Running layout m core thread)
    (hpc : (m.cores core).pc = .user rip) :
    (m.frames thread = [] ∧ UserFlags (m.cores core).flags) ∧ Settled layout m core thread ∧
      (m.cores core).gsBase = 0 ∧ (m.cores core).kernelGsBase = layout.areaAddress core := by
  have hstands := hrun.stands
  have hgs := hrun.gs
  rw [hpc] at hstands hgs
  refine ⟨hstands, hrun.settled ?_, hgs⟩
  rw [hpc, hstands.1]
  rfl

theorem Sound.exists_thread {pc : Pc} (hsound : Sound layout m) (hpc : (m.cores core).pc = pc)
    (hne : pc ≠ .boot) :
    ∃ thread, (m.cores core).thread = some thread ∧ Running layout m core thread := by
  cases hthread : (m.cores core).thread with
  | none => exact absurd (hpc.symm.trans (hsound.waiting core hthread).1) hne
  | some thread => exact ⟨thread, rfl, (hsound.running core thread hthread).2⟩

theorem Sound.of_user {rip' : Nat} (hsound : Sound layout m)
    (hpc : (m.cores core).pc = .user rip') (hflags : UserFlags flags) :
    Sound layout
      (m.put core { m.view core with registers := registers, flags := flags } (.user rip)) := by
  obtain ⟨thread, hthread, hrun⟩ := hsound.exists_thread hpc Pc.noConfusion
  obtain ⟨⟨hframes, _⟩, _, hgs⟩ := hrun.of_user hpc
  rw [m.put_eq_move core thread]
  refine hsound.move hthread (hsound.flags thread) ⟨hframes, hflags⟩ hrun.intact hgs
    (.of_eq rfl rfl) ?_
  rw [hpc]
  rfl

theorem interruptsOn_masked (flags : Flags) : interruptsOn (flags &&& ~~~MASKED_FLAGS) = false := by
  unfold interruptsOn
  rw [BitVec.and_assoc, show ~~~MASKED_FLAGS &&& INTERRUPT_FLAG = 0 by decide]
  simp

theorem Sound.syscall {active : Thread} (hsound : Sound layout m)
    (hpc : (m.cores core).pc = .user rip) (hactive : (m.cores core).active = some active) :
    Sound layout (m.syscall core rip active) := by
  obtain ⟨thread, hthread, hrun⟩ := hsound.exists_thread hpc Pc.noConfusion
  obtain ⟨⟨hframes, hflags⟩, hsettled, hgs, hkernelGs⟩ := hrun.of_user hpc
  obtain rfl := Option.some.inj (hactive.symm.trans hsettled.active)
  have hmove : m.syscall core rip active = m.move core active
      { ((m.view core).set rcx rip).set r11 (m.cores core).flags.toNat with
        flags := (m.cores core).flags &&& ~~~MASKED_FLAGS }
      (.entry 0) (m.frames active) ⟨rip, (m.cores core).registers, (m.cores core).flags⟩ := by
    unfold Machine.move
    rw [Function.update_eq_self]
    rfl
  rw [hmove]
  refine hsound.move hthread hflags ⟨hframes, _, rfl, ?_⟩ ?_ ?_ (.of_eq rfl rfl) ?_
  · refine ⟨fun r w hr hw => ?_, fun w hw => ⟨?_, rfl⟩, nofun, trivial,
      fun _ => interruptsOn_masked _⟩
    · cases r <;> first | exact absurd rfl hr | exact Option.some.inj hw
    · exact Option.some.inj hw
  · rw [hframes]
    trivial
  · intro s hs
    obtain rfl := Option.some.inj hs
    exact ⟨hgs, hkernelGs, nofun⟩
  · rw [hpc]
    rfl

theorem Sound.fault (hsound : Sound layout m) (hpc : (m.cores core).pc = .user rip) :
    Sound layout (m.put core
      { (m.view core).set rsp ((m.cores core).rsp0 - 8) with flags := USER_FLAGS } .body) := by
  obtain ⟨thread, hthread, hrun⟩ := hsound.exists_thread hpc Pc.noConfusion
  obtain ⟨⟨hframes, _⟩, hsettled, hgs⟩ := hrun.of_user hpc
  have hroom := layout.roomy thread
  rw [m.put_eq_move core thread]
  refine hsound.move hthread (hsound.flags thread) ?_ hrun.intact hgs (.of_eq rfl rfl) ?_
  · unfold Stands
    simp only [View.set, Function.update_self, hsettled.rsp0, hframes, limit]
    omega
  · rw [hpc]
    rfl

/-! ## `SyscallEntry` -/

/-- The core in `SyscallEntry` is as its sketch says. -/
theorem Running.of_entry (hrun : Running layout m core thread)
    (hpc : (m.cores core).pc = .entry index) :
    m.frames thread = [] ∧ ∃ s, sketchAt (m.issued thread) index = some s ∧
      s.Describes layout core thread (m.view core) := by
  have hstands := hrun.stands
  have hgs := hrun.gs
  rw [hpc] at hstands hgs
  obtain ⟨hframes, s, hs, hfits⟩ := hstands
  refine ⟨hframes, s, hs, hfits, hgs s hs, (hrun.settled ?_).kernelStack⟩
  rw [hpc, hframes]
  rfl

theorem sysretFlags_idem (flags : Flags) : UserFlags (sysretFlags flags) := by
  refine BitVec.eq_of_getLsbD_eq fun i _ => ?_
  simp only [sysretFlags, BitVec.getLsbD_or, BitVec.getLsbD_and]
  cases flags.getLsbD i <;> cases (0x3C7FD7 : Flags).getLsbD i <;> simp

theorem entry_exec {instr : Instr} (hinstr : SYSCALL_ENTRY[index]? = some instr)
    (hcall : instr ≠ .call) (hsysret : instr ≠ .sysret) :
    m.entry layout core index thread =
      ((m.view core).exec layout instr).map fun v => m.put core v (.entry (index + 1)) := by
  unfold Machine.entry
  rw [hinstr]
  cases instr with
  | call => exact absurd rfl hcall
  | sysret => exact absurd rfl hsysret
  | _ => rfl

/-- Outside of the bracket the bases of `gs` are in place. -/
theorem Sketch.OnCore.bases {s : Sketch} {gsBase : Nat} {area : Area}
    (h : s.OnCore layout core gsBase kernelGsBase area) (hswapped : s.swapped = false) :
    gsBase = 0 ∧ kernelGsBase = layout.areaAddress core := by
  refine ⟨h.gsBase.trans ?_, h.kernelGsBase.trans ?_⟩
  · rw [hswapped]
    rfl
  · rw [hswapped]
    rfl

theorem Sound.sysret (hsound : Sound layout m) (hthread : (m.cores core).thread = some thread)
    (hpc : (m.cores core).pc = .entry SYSRET) (flags : Flags) (rip : Nat) :
    Sound layout (m.put core { m.view core with flags := sysretFlags flags } (.user rip)) := by
  have hrun := (hsound.running core thread hthread).2
  obtain ⟨hframes, s, hs, hdescribes⟩ := hrun.of_entry hpc
  have hswapped : s.swapped = false := by
    obtain rfl := Option.some.inj hs
    rfl
  rw [m.put_eq_move core thread]
  refine hsound.move hthread (hsound.flags thread) ⟨hframes, sysretFlags_idem flags⟩ hrun.intact
    (hdescribes.onCore.bases hswapped) (.of_eq rfl rfl) ?_
  rw [hpc]
  rfl

theorem Sound.call (hsound : Sound layout m) (hthread : (m.cores core).thread = some thread)
    (hpc : (m.cores core).pc = .entry CALL) (hv : (m.view core).push layout.afterCall = some v) :
    Sound layout
      ((m.put core v .body).setFrames thread (.call v.registers :: m.frames thread)) := by
  have hrun := (hsound.running core thread hthread).2
  obtain ⟨hframes, s, hs, hdescribes⟩ := hrun.of_entry hpc
  obtain ⟨hroomy, hmasked⟩ := sketchAt_call hs
  have hknown : ∀ w, some layout.afterCall = some w → layout.afterCall = w :=
    fun w hw => Option.some.inj hw
  obtain ⟨hfits, hgs, hkernelGs, hareas, hmemory⟩ := hdescribes.fits.push hroomy hknown hv
  have hsp := hfits.kernelSp (Sketch.roomy_iff.1 hroomy).1
  have hwords := hfits.words
  rw [hfits.rsp_eq (Sketch.roomy_iff.1 hroomy).1] at hwords
  have hcalled : Called layout (m.issued thread) thread v.memory v.registers s := by
    refine ⟨hs, hsp, hwords.head rfl, hwords.tail, fun r hr w hw => hfits.known r w ?_ hw⟩
    rintro rfl
    exact absurd hr (by decide)
  rw [m.setFrames_eq_move]
  refine hsound.move hthread (hsound.flags thread) ⟨hcalled.bottom_le, Nat.le_refl _⟩
    ⟨hframes, s, hcalled⟩ ?_ ?_ ?_
  · rw [hgs, hkernelGs]
    exact hdescribes.onCore.bases (sketchAt_open hs hmasked).swapped
  · exact ⟨by rw [hareas], fun _ _ => by rw [hareas], hmemory⟩
  · rw [hpc]
    rfl

theorem Sound.exec {instr : Instr} (hsound : Sound layout m)
    (hthread : (m.cores core).thread = some thread) (hpc : (m.cores core).pc = .entry index)
    (hinstr : SYSCALL_ENTRY[index]? = some instr) (hsysret : instr ≠ .sysret)
    (hv : (m.view core).exec layout instr = some v) :
    Sound layout (m.put core v (.entry (index + 1))) := by
  have hrun := (hsound.running core thread hthread).2
  obtain ⟨hframes, s, hs, hdescribes⟩ := hrun.of_entry hpc
  obtain ⟨s', hexec, hs'⟩ := sketchAt_succ hs hinstr hsysret
  obtain ⟨hdescribes', hfrugal⟩ := Sketch.exec_sound hexec hdescribes hv
  rw [m.put_eq_move core thread]
  refine hsound.move hthread (hsound.flags thread) ⟨hframes, s', hs', hdescribes'.fits⟩ ?_
    (fun s'' hs'' => ?_) hfrugal ?_
  · rw [hframes]
    trivial
  · obtain rfl := Option.some.inj (hs'.symm.trans hs'')
    exact hdescribes'.onCore
  · rw [hpc]
    rfl

theorem Sound.entry (hsound : Sound layout m) (hthread : (m.cores core).thread = some thread)
    (hpc : (m.cores core).pc = .entry index) (h : m.entry layout core index thread = some m') :
    Sound layout m' := by
  cases hinstr : SYSCALL_ENTRY[index]? with
  | none =>
    unfold Machine.entry at h
    rw [hinstr] at h
    exact absurd h nofun
  | some instr =>
    by_cases hsysret : instr = .sysret
    · subst hsysret
      obtain rfl := index_of_sysret hinstr
      unfold Machine.entry at h
      rw [hinstr] at h
      obtain ⟨_, h⟩ := Option.ite_none_right_eq_some.1 h
      obtain rfl := Option.some.inj h
      exact hsound.sysret hthread hpc _ _
    · by_cases hcall : instr = .call
      · subst hcall
        obtain rfl := index_of_call hinstr
        unfold Machine.entry at h
        rw [hinstr] at h
        obtain ⟨v, hv, rfl⟩ := Option.map_eq_some_iff.1 h
        exact hsound.call hthread hpc hv
      · rw [entry_exec hinstr hcall hsysret] at h
        obtain ⟨v, hv, rfl⟩ := Option.map_eq_some_iff.1 h
        exact hsound.exec hthread hpc hinstr hsysret hv

/-! ## The functions of the kernel -/

theorem Running.of_kernelCode (hrun : Running layout m core thread)
    (hpc : (m.cores core).pc.inKernelCode = true) :
    (layout.bottom thread ≤ (m.cores core).registers rsp ∧
      (m.cores core).registers rsp ≤ limit layout thread (m.frames thread)) ∧
    (m.cores core).gsBase = 0 ∧ (m.cores core).kernelGsBase = layout.areaAddress core := by
  have hstands := hrun.stands
  have hgs := hrun.gs
  cases hcase : (m.cores core).pc with
  | body | dispatch current next done =>
    rw [hcase] at hstands hgs
    exact ⟨hstands, hgs⟩
  | boot | user rip | entry index | lost =>
    rw [hcase] at hpc
    exact absurd hpc nofun

theorem stands_of_kernelCode {memory : Nat → Nat} {frames : List Frame}
    (hpc : pc.inKernelCode = true)
    (hsp : layout.bottom thread ≤ registers rsp ∧ registers rsp ≤ limit layout thread frames) :
    Stands layout user thread memory frames registers flags pc := by
  cases pc with
  | body | dispatch current next done => exact hsp
  | boot | user rip | entry index | lost => exact absurd hpc nofun

theorem gsBases_of_kernelCode {gsBase : Nat} {area : Area} (hpc : pc.inKernelCode = true)
    (hgs : gsBase = 0 ∧ kernelGsBase = layout.areaAddress core) :
    GsBases layout user core gsBase kernelGsBase area pc := by
  cases pc with
  | body | dispatch current next done => exact hgs
  | boot | user rip | entry index | lost => exact absurd hpc nofun

theorem foldl_update_of_not_mem {writes : List (Nat × Nat)} {memory : Nat → Nat} {a : Nat}
    (h : ∀ write ∈ writes, write.1 ≠ a) :
    writes.foldl (fun memory write => Function.update memory write.1 write.2) memory a =
      memory a := by
  induction writes generalizing memory with
  | nil => rfl
  | cons write writes ih =>
    rw [List.foldl_cons, ih fun other hother => h other (List.mem_cons_of_mem _ hother)]
    exact Function.update_of_ne (h write List.mem_cons_self).symm ..

theorem Sound.compute {writes : List (Nat × Nat)} (hsound : Sound layout m)
    (hthread : (m.cores core).thread = some thread) (hpc : (m.cores core).pc.inKernelCode = true)
    (h : m.compute layout core thread registers flags writes = some m') : Sound layout m' := by
  have hrun := (hsound.running core thread hthread).2
  obtain ⟨hsp, hgs⟩ := hrun.of_kernelCode hpc
  obtain ⟨⟨hbounds, hwrites⟩, h⟩ := Option.ite_none_right_eq_some.1 h
  obtain rfl := Option.some.inj h
  have htop := hrun.intact.limit_bounds.2
  rw [m.put_eq_move core thread]
  refine hsound.move hthread (hsound.flags thread) (stands_of_kernelCode hpc hbounds)
    (hrun.intact.agree fun a ha _ => ?_) (gsBases_of_kernelCode hpc hgs)
    ⟨rfl, fun _ _ => rfl, fun a ha => ?_⟩ rfl
  · refine foldl_update_of_not_mem fun write hwrite => ?_
    have := hwrites write hwrite
    omega
  · refine foldl_update_of_not_mem fun write hwrite => ?_
    have := hwrites write hwrite
    rintro rfl
    exact ha ⟨this.1, by omega⟩

theorem Sound.enterUserMode {stackTop : Nat} (hsound : Sound layout m)
    (hthread : (m.cores core).thread = some thread) (hpc : (m.cores core).pc = .body)
    (hframes : m.frames thread = []) : Sound layout (m.enterUserMode core rip stackTop) := by
  have hrun := (hsound.running core thread hthread).2
  obtain ⟨_, hgs⟩ := hrun.of_kernelCode (by rw [hpc]; rfl)
  unfold Machine.enterUserMode
  rw [m.put_eq_move core thread]
  refine hsound.move hthread (hsound.flags thread)
    ⟨hframes, show UserFlags USER_FLAGS by decide⟩ hrun.intact hgs (.of_eq rfl rfl) ?_
  rw [hpc]
  rfl

/-! ## The end of a function -/

theorem obeys_iff {base : Nat} :
    Machine.obeys registers left base = true ↔
      registers rsp = base ∧ ∀ r ∈ CALLEE_SAVED, registers r = left r := by
  unfold Machine.obeys
  simp

/-- The bases of `gs` are in place wherever an interrupt can come in. -/
theorem gsBases_of_open {gsBase : Nat} {area : Area}
    (hmasked : ∀ index s, pc = .entry index → sketchAt user index = some s → s.masked = false)
    (hgs : gsBase = 0 ∧ kernelGsBase = layout.areaAddress core) :
    GsBases layout user core gsBase kernelGsBase area pc := by
  cases pc with
  | entry index =>
    intro s hs
    have hopen := sketchAt_open hs (hmasked index s rfl hs)
    refine ⟨hgs.1.trans ?_, hgs.2.trans ?_, fun w hw => absurd (hopen.parked.symm.trans hw) nofun⟩
    · rw [hopen.swapped]
      rfl
    · rw [hopen.swapped]
      rfl
  | _ => exact hgs

theorem Sound.ret (hsound : Sound layout m) (hthread : (m.cores core).thread = some thread)
    (hpc : (m.cores core).pc = .body) (hframes : m.frames thread = .call left :: rest)
    (hobeys : Machine.obeys (m.view core).registers left (left rsp) = true)
    (hreturn : pc = if m.memory (left rsp) = layout.afterCall then .entry (CALL + 1) else .lost) :
    Sound layout
      ((m.put core ((m.view core).set rsp (left rsp + 8)) pc).setFrames thread rest) := by
  have hrun := (hsound.running core thread hthread).2
  obtain ⟨_, hgs⟩ := hrun.of_kernelCode (by rw [hpc]; rfl)
  have hintact := hrun.intact
  rw [hframes] at hintact
  obtain ⟨rfl, s, hcalled⟩ := hintact
  obtain ⟨_, hsaved⟩ := obeys_iff.1 hobeys
  rw [if_pos hcalled.returnAddress] at hreturn
  subst hreturn
  have hsp := hcalled.sp
  have hopen := sketchAt_open hcalled.sketch (sketchAt_call hcalled.sketch).2
  have hnext : sketchAt (m.issued thread) (CALL + 1) = some { s.forget with masked := false } := by
    rw [sketchAt, hcalled.sketch]
    rfl
  rw [m.setFrames_eq_move]
  refine hsound.move hthread (hsound.flags thread) ⟨rfl, _, hnext, fun r w hr hw => ?_,
    fun w hw => ?_, fun _ => ?_, ?_, fun hmasked => Bool.noConfusion hmasked⟩ trivial
    (gsBases_of_open (fun index s' hindex hs' => ?_) hgs) (.of_eq rfl rfl) ?_
  · obtain ⟨hcallee, hw⟩ := Option.ite_none_right_eq_some.1 hw
    refine (Function.update_of_ne hr ..).trans ((hsaved r hcallee).trans ?_)
    exact hcalled.known r hcallee w hw
  · cases hopen.userSp.symm.trans hw
  · simp only [View.set, Function.update_self]
    exact (show left rsp + 8 + 8 * s.words.length = layout.top thread by omega)
  · have hwords := hcalled.words
    rwa [show left rsp + 8 = layout.top thread - 8 * s.words.length by omega] at hwords
  · obtain rfl := Pc.entry.inj hindex
    obtain rfl := Option.some.inj (hnext.symm.trans hs')
    rfl
  · rw [hpc, hframes]
    rfl

theorem Sound.iret {base : Nat} {resume : Pc}
    (hsound : Sound layout m)
    (hthread : (m.cores core).thread = some thread) (hpc : (m.cores core).pc = .body)
    (hframes : m.frames thread = .interrupt base rip left flags resume :: rest)
    (hobeys : Machine.obeys (m.view core).registers left base = true)
    (hreturn : pc = if m.memory (base + 8) &&& 3 = 3 then .user (m.memory base)
      else if m.memory base = rip then resume else .lost) :
    Sound layout ((m.put core
      { (m.view core).set rsp (m.memory (base + 24)) with
        flags := BitVec.ofNat 64 (m.memory (base + 16)) } pc).setFrames thread rest) := by
  have hrun := (hsound.running core thread hthread).2
  obtain ⟨_, hgs⟩ := hrun.of_kernelCode (by rw [hpc]; rfl)
  have hintact := hrun.intact
  rw [hframes] at hintact
  obtain ⟨hinterrupted, hrest⟩ := hintact
  obtain ⟨_, hsaved⟩ := obeys_iff.1 hobeys
  obtain rfl : pc = resume := by
    rw [hreturn, hinterrupted.codeWord, hinterrupted.ripWord]
    cases resume with
    | user address =>
      rw [hinterrupted.address address rfl]
      exact if_pos (show USER_CODE &&& 3 = 3 by decide)
    | _ => exact (if_neg (show ¬KERNEL_CODE.toNat &&& 3 = 3 by decide)).trans (if_pos rfl)
  rw [hinterrupted.spWord, hinterrupted.flagsWord, BitVec.ofNat_toNat, BitVec.setWidth_eq,
    m.setFrames_eq_move]
  refine hsound.move hthread (hsound.flags thread) ?_ hrest ?_ (.of_eq rfl rfl) ?_
  · refine hinterrupted.stands.of_saved hinterrupted.masked
      (by simp only [View.set, Function.update_self]) fun r hr => ?_
    refine (Function.update_of_ne ?_ ..).trans (hsaved r hr)
    rintro rfl
    exact absurd hr (by decide)
  · exact gsBases_of_open hinterrupted.masked hgs
  · rw [hpc, hframes]
    cases pc <;> rfl

theorem Sound.finish (hsound : Sound layout m) (hthread : (m.cores core).thread = some thread)
    (hpc : (m.cores core).pc = .body) (h : m.finish layout core thread = some m') :
    Sound layout m' := by
  unfold Machine.finish at h
  dsimp only at h
  split at h
  · next left rest hframes =>
    obtain ⟨hobeys, h⟩ := Option.ite_none_right_eq_some.1 h
    obtain rfl := Option.some.inj h
    exact hsound.ret hthread hpc hframes hobeys rfl
  · next base rip left flags resume rest hframes =>
    obtain ⟨hobeys, h⟩ := Option.ite_none_right_eq_some.1 h
    obtain rfl := Option.some.inj h
    exact hsound.iret hthread hpc hframes hobeys rfl
  · exact absurd h nofun

/-! ## Interrupts -/

/-- Where the words of an interrupt are pushed from. -/
theorem Running.entrySp_bounds (hrun : Running layout m core thread)
    (hmasked : ∀ index s, (m.cores core).pc = .entry index →
      sketchAt (m.issued thread) index = some s → s.masked = false) :
    layout.bottom thread ≤ entrySp layout thread (m.cores core).registers (m.cores core).pc ∧
      entrySp layout thread (m.cores core).registers (m.cores core).pc ≤
        limit layout thread (m.frames thread) := by
  have hstands := hrun.stands
  have hroom := layout.roomy thread
  cases hpc : (m.cores core).pc with
  | user rip =>
    rw [hpc] at hstands
    rw [hstands.1]
    exact ⟨show layout.bottom thread ≤ layout.top thread by omega, Nat.le_refl _⟩
  | entry index =>
    obtain ⟨hframes, s, hs, hdescribes⟩ := hrun.of_entry hpc
    have hsp := hdescribes.fits.kernelSp (sketchAt_open hs (hmasked index s hpc hs)).userSp
    have hlength := (sketchAt_checks hs).2.2
    have hsp : (m.cores core).registers rsp + 8 * s.words.length = layout.top thread := hsp
    rw [hframes]
    exact ⟨show layout.bottom thread ≤ (m.cores core).registers rsp by omega,
      show (m.cores core).registers rsp ≤ layout.top thread by omega⟩
  | body | dispatch current next done =>
    rw [hpc] at hstands
    exact hstands
  | boot | lost =>
    rw [hpc] at hstands
    exact hstands.elim

theorem Running.bases (hrun : Running layout m core thread)
    (hmasked : ∀ index s, (m.cores core).pc = .entry index →
      sketchAt (m.issued thread) index = some s → s.masked = false) :
    (m.cores core).gsBase = 0 ∧ (m.cores core).kernelGsBase = layout.areaAddress core := by
  have hgs := hrun.gs
  cases hpc : (m.cores core).pc with
  | entry index =>
    obtain ⟨_, s, hs, hdescribes⟩ := hrun.of_entry hpc
    exact hdescribes.onCore.bases (sketchAt_open hs (hmasked index s hpc hs)).swapped
  | _ =>
    rw [hpc] at hgs
    exact hgs

theorem Sound.interrupt {sp code data : Nat} (hsound : Sound layout m)
    (hthread : (m.cores core).thread = some thread) (hon : interruptsOn (m.cores core).flags = true)
    (haddress : ∀ address, (m.cores core).pc = .user address → address = rip)
    (hsp : entrySp layout thread (m.cores core).registers (m.cores core).pc = sp)
    (hcode : codeAt (m.cores core).pc = code)
    (h : m.interrupt core thread sp rip code data = some m') : Sound layout m' := by
  subst hcode
  have hrun := (hsound.running core thread hthread).2
  have hmasked : ∀ index s, (m.cores core).pc = .entry index →
      sketchAt (m.issued thread) index = some s → s.masked = false := by
    intro index s hpc hs
    obtain ⟨_, s', hs', hdescribes⟩ := hrun.of_entry hpc
    obtain rfl := Option.some.inj (hs.symm.trans hs')
    refine Bool.eq_false_iff.2 fun hmasked => ?_
    exact absurd (hon.symm.trans (hdescribes.fits.masked hmasked)) nofun
  obtain ⟨hbottom, hlimit⟩ := hrun.entrySp_bounds hmasked
  rw [hsp] at hbottom hlimit
  unfold Machine.interrupt at h
  obtain ⟨v, hv, rfl⟩ := Option.map_eq_some_iff.1 h
  have hguard : GUARD_SIZE ≤ layout.bottom thread := Nat.le_add_left ..
  have hsize : GUARD_SIZE = 4096 := rfl
  have htop := hrun.intact.limit_bounds.2
  have hstart := (m.view core).set_self rsp (sp - sp % 16)
  obtain ⟨hview, hwords, hkeep, hmapped⟩ := pushes_spec hv (by rw [hstart]; simp; omega)
  rw [hstart] at hview hwords hkeep hmapped
  have hbase : v.registers rsp = sp - sp % 16 - 8 * 5 := by
    rw [hview]
    dsimp only
    rw [View.set_self]
    rfl
  rw [show 8 * [data, (m.cores core).registers rsp, (m.cores core).flags.toNat,
    codeAt (m.cores core).pc, rip].length = 8 * 5 from rfl] at hwords hkeep hmapped
  rw [← hbase] at hwords hkeep hmapped
  have hlow : layout.bottom thread ≤ v.registers rsp :=
    Layout.bottom_le_of_not_guard (by omega) (by omega) (hmapped nofun)
  have hintact := hrun.intact.interrupt hrun.stands hmasked haddress hlow
    (by rw [hsp]; omega) hwords fun a ha => hkeep a (by omega)
  rw [m.setFrames_eq_move]
  refine hsound.move hthread (hsound.flags thread) ⟨hlow, Nat.le_refl _⟩ hintact ?_ ?_ ?_
  · rw [hview]
    exact hrun.bases hmasked
  · have hareas : v.areas = m.areas := by rw [hview]; rfl
    refine ⟨by rw [hareas]; rfl, fun c _ => by rw [hareas]; rfl, fun a ha => hkeep a ?_⟩
    omega
  · cases (m.cores core).pc <;> rfl

/-! ## The Guard -/

/-- Only the core in the critical section is in `Dispatch`. -/
theorem Sound.dispatches_eq_nil (hsound : Sound layout m)
    (hother : (m.cores c).thread = some other) (hholder : m.holder ≠ some c) :
    dispatches (m.cores c).pc (m.frames other) = [] := by
  cases hdispatches : dispatches (m.cores c).pc (m.frames other) with
  | nil => rfl
  | cons call rest =>
    obtain ⟨current, next, done⟩ := call
    have hrun := (hsound.running c other hother).2
    exact absurd (hrun.switching current next done rest hdispatches).2.holder hholder

theorem Sound.setHolder (hsound : Sound layout m) (holder : Option Nat)
    (hnone : ∀ c other, (m.cores c).thread = some other →
      dispatches (m.cores c).pc (m.frames other) = []) :
    Sound layout { m with holder := holder } where
  running := by
    intro c other hother
    obtain ⟨hfacts, hrun⟩ := hsound.running c other hother
    refine ⟨hfacts, hrun.stands, hrun.intact, hrun.gs, fun h => ?_,
      fun current next done rest h => ?_⟩
    · obtain ⟨hactive, hrsp0, hkernelStack⟩ := hrun.settled h
      exact ⟨hactive, hrsp0, hkernelStack⟩
    · exact absurd ((hnone c other hother).symm.trans h) nofun
  waiting := hsound.waiting
  single := hsound.single
  parked := by
    intro other hprepared hfree
    obtain ⟨left, returnAddress, rest, hparked⟩ := hsound.parked other hprepared hfree
    exact ⟨left, returnAddress, rest, hparked.keep rfl rfl rfl fun _ _ _ => rfl⟩
  flags := hsound.flags

theorem Sound.enter (hsound : Sound layout m) (hholder : m.holder = none) :
    Sound layout { m with holder := some core } :=
  hsound.setHolder _ fun c other hother =>
    hsound.dispatches_eq_nil hother (by rw [hholder]; nofun)

/-- If the core in the critical section is not in `Dispatch`, then no core is. -/
theorem Sound.quiet (hsound : Sound layout m) (hthread : (m.cores core).thread = some thread)
    (hpc : (m.cores core).pc = .body) (hholder : m.holder = some core)
    (hempty : dispatching (m.frames thread) = []) (c : Nat) (other : Thread)
    (hother : (m.cores c).thread = some other) :
    dispatches (m.cores c).pc (m.frames other) = [] := by
  by_cases hc : c = core
  · subst hc
    obtain rfl := Option.some.inj (hother.symm.trans hthread)
    rw [hpc]
    exact hempty
  · refine hsound.dispatches_eq_nil hother ?_
    rw [hholder]
    exact fun h => hc (Option.some.inj h).symm

theorem Sound.leave (hsound : Sound layout m) (hthread : (m.cores core).thread = some thread)
    (hpc : (m.cores core).pc = .body) (hholder : m.holder = some core)
    (hempty : dispatching (m.frames thread) = []) : Sound layout { m with holder := none } :=
  hsound.setHolder _ (hsound.quiet hthread hpc hholder hempty)

/-! ## `Dispatch` -/

/-- A thread that no core has as its active one runs nowhere, while no core is in
`Dispatch`. -/
theorem Sound.free_of_idle (hsound : Sound layout m) (hidle : m.idle next = true)
    (hnone : ∀ c other, (m.cores c).thread = some other →
      dispatches (m.cores c).pc (m.frames other) = []) (c : Nat) :
    (m.cores c).thread ≠ some next := by
  intro hnext
  obtain ⟨⟨hcount, _⟩, hrun⟩ := hsound.running c next hnext
  have hactive := (hrun.settled (hnone c next hnext)).active
  have hnot := List.all_eq_true.1 hidle c (List.mem_range.2 hcount)
  exact of_decide_eq_true hnot hactive

/-- A core with another active thread and other stacks to enter the kernel on. -/
def Machine.adjust (m : Machine) (core : Nat) (active : Option Thread) (rsp0 kernelStack : Nat)
    (pc : Pc) : Machine :=
  { m with
    cores := Function.update m.cores core
      { m.cores core with active := active, rsp0 := rsp0, pc := pc }
    areas := Function.update m.areas core
      (Function.update (m.areas core) .kernelStack kernelStack) }

theorem Machine.adjust_core (m : Machine) (core : Nat) (active : Option Thread)
    (rsp0 kernelStack : Nat) (pc : Pc) :
    (m.adjust core active rsp0 kernelStack pc).cores core =
      { m.cores core with active := active, rsp0 := rsp0, pc := pc } :=
  Function.update_self ..

theorem Machine.adjust_kernelStack (m : Machine) (core : Nat) (active : Option Thread)
    (rsp0 kernelStack : Nat) (pc : Pc) :
    (m.adjust core active rsp0 kernelStack pc).areas core .kernelStack = kernelStack := by
  simp [adjust]

theorem Local.adjust (m : Machine) (core : Nat) (thread : Thread) (active : Option Thread)
    (rsp0 kernelStack : Nat) (pc : Pc) :
    Local layout m (m.adjust core active rsp0 kernelStack pc) core thread where
  count := rfl
  cores := fun _ hc => Function.update_of_ne hc ..
  same := by rw [m.adjust_core]
  areas := fun _ hc => Function.update_of_ne hc ..
  memory := fun _ _ => rfl
  contexts := rfl
  prepared := rfl
  frames := fun _ _ => rfl
  issued := fun _ _ => rfl
  holder := rfl

/-- A statement of `Dispatch`. -/
theorem Sound.adjust {rsp0 kernelStack : Nat} {active : Thread} (hsound : Sound layout m)
    (hthread : (m.cores core).thread = some thread)
    (hpc : (m.cores core).pc.inKernelCode = true) (hempty : dispatching (m.frames thread) = [])
    (hne : next ≠ thread) (hholder : m.holder = some core) (hprepared : m.prepared next = true)
    (hfree : ∀ c, (m.cores c).thread ≠ some next)
    (hactive : active = if done = 0 then thread else next)
    (hrsp0 : rsp0 = layout.top (if done ≤ 1 then thread else next))
    (hkernelStack : kernelStack = layout.top (if done ≤ 2 then thread else next)) :
    Sound layout (m.adjust core (some active) rsp0 kernelStack (.dispatch thread next done)) := by
  have hrun := (hsound.running core thread hthread).2
  obtain ⟨hsp, hgs⟩ := hrun.of_kernelCode hpc
  have hlocal : Local layout m
      (m.adjust core (some active) rsp0 kernelStack (.dispatch thread next done)) core thread :=
    Local.adjust ..
  refine hsound.of_local hthread hlocal (hsound.flags thread) ⟨?_, hrun.intact, ?_,
    fun hnone => ?_, fun current next' done' rest hsome => ?_⟩
  · rw [m.adjust_core]
    exact hsp
  · rw [m.adjust_core]
    exact hgs
  · rw [m.adjust_core] at hnone
    exact absurd hnone nofun
  · rw [m.adjust_core] at hsome
    obtain ⟨hcall, hrest⟩ := List.cons.inj hsome
    obtain ⟨hcurrent, hcall⟩ := Prod.mk.inj hcall
    obtain ⟨rfl, rfl⟩ := Prod.mk.inj hcall
    refine ⟨⟨hrest.symm.trans hempty, hcurrent.symm⟩, hne, hholder, hprepared, fun c => ?_,
      ?_, ?_, ?_⟩
    · rw [hlocal.thread_eq]
      exact hfree c
    · rw [m.adjust_core, hactive]
    · rw [m.adjust_core, hrsp0]
    · rw [m.adjust_kernelStack, hkernelStack]

theorem Sound.dispatch (hsound : Sound layout m) (hthread : (m.cores core).thread = some thread)
    (hpc : (m.cores core).pc = .body) (hactive : (m.cores core).active = some current)
    (hholder : m.holder = some core) (hempty : dispatching (m.frames thread) = [])
    (hne : current ≠ next) (hidle : m.idle next = true) (hprepared : m.prepared next = true) :
    Sound layout (m.setPc core (.dispatch current next 0)) := by
  have hrun := (hsound.running core thread hthread).2
  have hnone := hsound.quiet hthread hpc hholder hempty
  have hsettled := hrun.settled (hnone core thread hthread)
  obtain rfl := Option.some.inj (hactive.symm.trans hsettled.active)
  have hadjust : m.setPc core (.dispatch current next 0) =
      m.adjust core (some current) (m.cores core).rsp0 (m.areas core .kernelStack)
        (.dispatch current next 0) := by
    unfold Machine.adjust
    rw [Function.update_eq_self, Function.update_eq_self, ← hactive]
    rfl
  rw [hadjust]
  exact hsound.adjust hthread (by rw [hpc]; rfl) hempty hne.symm hholder hprepared
    (hsound.free_of_idle hidle hnone) rfl hsettled.rsp0 hsettled.kernelStack

/-- The call of `Dispatch` that the core is in. -/
theorem Running.of_dispatch (hrun : Running layout m core thread)
    (hpc : (m.cores core).pc = .dispatch current next done) :
    (dispatching (m.frames thread) = [] ∧ current = thread) ∧
      Switching layout m core thread next done := by
  refine hrun.switching current next done _ ?_
  rw [hpc]
  rfl

theorem Sound.proceed_statement (hsound : Sound layout m)
    (hthread : (m.cores core).thread = some thread)
    (hpc : (m.cores core).pc = .dispatch current next done) (hdone : done < 3)
    (h : m.proceed layout core returnAddress current next done = some m') : Sound layout m' := by
  have hrun := (hsound.running core thread hthread).2
  obtain ⟨⟨hempty, rfl⟩, hswitch⟩ := hrun.of_dispatch hpc
  have hadjust : ∃ rsp0 kernelStack,
      m' = m.adjust core (some next) rsp0 kernelStack (.dispatch current next (done + 1)) ∧
      rsp0 = layout.top (if done + 1 ≤ 1 then current else next) ∧
      kernelStack = layout.top (if done + 1 ≤ 2 then current else next) := by
    obtain ⟨_, _, _, _, hactive, hrsp0, hkernelStack⟩ := hswitch
    unfold Machine.adjust
    interval_cases done
    · obtain rfl := Option.some.inj h
      refine ⟨(m.cores core).rsp0, m.areas core .kernelStack, ?_, hrsp0, hkernelStack⟩
      rw [Function.update_eq_self, Function.update_eq_self]
      simp [Machine.setActive, Machine.setPc]
    · obtain rfl := Option.some.inj h
      refine ⟨layout.top next, m.areas core .kernelStack, ?_, rfl, hkernelStack⟩
      rw [Function.update_eq_self, Function.update_eq_self]
      simp [Machine.setRsp0, Machine.setPc, hactive]
    · obtain rfl := Option.some.inj h
      refine ⟨(m.cores core).rsp0, layout.top next, ?_, hrsp0, rfl⟩
      simp [Machine.setKernelStack, Machine.setPc, hactive]
  obtain ⟨rsp0, kernelStack, rfl, hrsp0, hkernelStack⟩ := hadjust
  exact hsound.adjust hthread (by rw [hpc]; rfl) hempty hswitch.ne hswitch.holder hswitch.prepared
    hswitch.free rfl hrsp0 hkernelStack

/-! ## `ContextSwitch` -/

theorem loadContext_apply (context : Context) (registers : Registers) :
    ∀ field ∈ LOAD_CONTEXT, loadContext context registers field.2 = context field.1 := by
  intro field hfield
  fin_cases hfield <;> rfl

theorem saveContext_apply (registers : Registers) (context : Context) :
    ∀ field ∈ LOAD_CONTEXT, saveContext registers context field.1 = registers field.2 := by
  intro field hfield
  fin_cases hfield <;> rfl

theorem rsp_mem_LOAD_CONTEXT : (48, rsp) ∈ LOAD_CONTEXT := by decide

/-- The core has left its thread, if it had one, and is to go on with `next`. -/
structure Between (layout : Layout) (m : Machine) (core : Nat) (next : Thread) : Prop where
  count : core < m.count
  prepared : m.prepared next = true
  settled : Settled layout m core next
  gs : (m.cores core).gsBase = 0 ∧ (m.cores core).kernelGsBase = layout.areaAddress core
  running : ∀ c thread, c ≠ core → (m.cores c).thread = some thread →
    (c < m.count ∧ m.prepared thread = true) ∧ Running layout m c thread ∧ thread ≠ next ∧
      dispatches (m.cores c).pc (m.frames thread) = []
  waiting : ∀ c, c ≠ core → (m.cores c).thread = none → (m.cores c).pc = .boot ∧
    (m.cores c).gsBase = 0 ∧ (m.cores c).kernelGsBase = layout.areaAddress c
  single : ∀ c c' thread, c ≠ core → c' ≠ core → (m.cores c).thread = some thread →
    (m.cores c').thread = some thread → c = c'
  parked : ∀ thread, m.prepared thread = true →
    (∀ c, c ≠ core → (m.cores c).thread ≠ some thread) →
      ∃ left returnAddress rest, Parked layout m thread left returnAddress rest
  flags : ∀ thread, UserFlags (m.issued thread).flags

/-- The core goes on with `next`, in a function of the kernel. -/
def Machine.resumed (m : Machine) (core : Nat) (next : Thread) (rest : List Frame)
    (registers : Registers) : Machine :=
  { m with
    cores := Function.update m.cores core
      { m.cores core with registers := registers, thread := some next, pc := .body }
    frames := Function.update m.frames next rest }

theorem Machine.resumed_core (m : Machine) (core : Nat) (next : Thread) (rest : List Frame)
    (registers : Registers) : (m.resumed core next rest registers).cores core =
      { m.cores core with registers := registers, thread := some next, pc := .body } :=
  Function.update_self ..

theorem Machine.resumed_other (m : Machine) (core : Nat) (next : Thread) (rest : List Frame)
    (registers : Registers) (hc : c ≠ core) :
    (m.resumed core next rest registers).cores c = m.cores c :=
  Function.update_of_ne hc ..

/-- The registers and the return address are those that the thread had. -/
theorem Parked.resumeThread (h : Parked layout m next left returnAddress rest) (core : Nat)
    (registers : Registers) :
    m.resumeThread core next registers = m.resumed core next rest
      (Function.update (loadContext (m.contexts next) registers) rsp (left rsp + 8)) := by
  have hloaded : ∀ field ∈ LOAD_CONTEXT,
      loadContext (m.contexts next) registers field.2 = left field.2 :=
    fun field hfield => (loadContext_apply _ _ field hfield).trans (h.context field hfield)
  have hsp := hloaded _ rsp_mem_LOAD_CONTEXT
  unfold Machine.resumeThread
  rw [h.frames]
  dsimp only at hsp ⊢
  rw [hsp, if_pos]
  · rfl
  · exact ⟨List.all_eq_true.2 fun field hfield => decide_eq_true (hloaded field hfield),
      h.returnAddress⟩

theorem Between.running_next (h : Between layout m core next)
    (hparked : Parked layout m next left returnAddress rest) (hsp : registers rsp = left rsp + 8) :
    Running layout (m.resumed core next rest registers) core next := by
  have hframes : (m.resumed core next rest registers).frames next = rest :=
    Function.update_self ..
  have hbottom := hparked.bottom
  have hbelow := hparked.below
  have hnone : dispatches ((m.resumed core next rest registers).cores core).pc
      ((m.resumed core next rest registers).frames next) = [] := by
    rw [m.resumed_core, hframes]
    exact hparked.settled
  refine ⟨?_, ?_, ?_, fun _ => ?_, fun current next' done rest' hsome => ?_⟩
  · rw [m.resumed_core, hframes]
    exact ⟨show layout.bottom next ≤ registers rsp by omega,
      show registers rsp ≤ limit layout next rest by omega⟩
  · rw [hframes]
    exact hparked.intact
  · rw [m.resumed_core]
    exact h.gs
  · refine ⟨?_, ?_, h.settled.kernelStack⟩
    · rw [m.resumed_core]
      exact h.settled.active
    · rw [m.resumed_core]
      exact h.settled.rsp0
  · exact absurd (hnone.symm.trans hsome) nofun

theorem Between.resume (h : Between layout m core next) (registers : Registers) :
    Sound layout (m.resumeThread core next registers) := by
  have hnext : ∀ c, c ≠ core → (m.cores c).thread ≠ some next :=
    fun c hc hthread => (h.running c next hc hthread).2.2.1 rfl
  obtain ⟨left, returnAddress, rest, hparked⟩ := h.parked next h.prepared hnext
  rw [hparked.resumeThread]
  have hsp : Function.update (loadContext (m.contexts next) registers) rsp (left rsp + 8) rsp =
      left rsp + 8 := Function.update_self ..
  generalize Function.update (loadContext (m.contexts next) registers) rsp
    (left rsp + 8) = resumed at hsp ⊢
  have hcore : ((m.resumed core next rest resumed).cores core).thread = some next := by
    rw [m.resumed_core]
  have hframes : ∀ thread, thread ≠ next →
      (m.resumed core next rest resumed).frames thread = m.frames thread :=
    fun thread hne => Function.update_of_ne hne ..
  refine ⟨fun c thread hthread => ?_, fun c hnone => ?_, fun c c' thread hthread hthread' => ?_,
    fun thread hprepared hfree => ?_, h.flags⟩
  · by_cases hc : c = core
    · subst hc
      obtain rfl := Option.some.inj (hthread.symm.trans hcore)
      exact ⟨⟨h.count, h.prepared⟩, h.running_next hparked hsp⟩
    · rw [m.resumed_other _ _ _ _ hc] at hthread
      obtain ⟨hfacts, hrun, hne, hnone⟩ := h.running c thread hc hthread
      exact ⟨hfacts, hrun.keep (m.resumed_other _ _ _ _ hc) rfl (hframes thread hne) rfl
        (fun _ _ _ => rfl) fun hsome => absurd hnone hsome⟩
  · have hc : c ≠ core := by
      rintro rfl
      cases hnone.symm.trans hcore
    rw [m.resumed_other _ _ _ _ hc] at hnone ⊢
    exact h.waiting c hc hnone
  · by_cases hc : c = core
    · by_cases hc' : c' = core
      · rw [hc, hc']
      · subst hc
        obtain rfl := Option.some.inj (hthread.symm.trans hcore)
        rw [m.resumed_other _ _ _ _ hc'] at hthread'
        exact absurd hthread' (hnext c' hc')
    · by_cases hc' : c' = core
      · subst hc'
        obtain rfl := Option.some.inj (hthread'.symm.trans hcore)
        rw [m.resumed_other _ _ _ _ hc] at hthread
        exact absurd hthread (hnext c hc)
      · rw [m.resumed_other _ _ _ _ hc] at hthread
        rw [m.resumed_other _ _ _ _ hc'] at hthread'
        exact h.single c c' thread hc hc' hthread hthread'
  · have hne : thread ≠ next := by
      rintro rfl
      exact hfree core hcore
    have hfree' : ∀ c, c ≠ core → (m.cores c).thread ≠ some thread := by
      intro c hc
      rw [← m.resumed_other core next rest resumed hc]
      exact hfree c
    obtain ⟨left', returnAddress', rest', hparked'⟩ := h.parked thread hprepared hfree'
    exact ⟨left', returnAddress', rest',
      hparked'.keep (hframes thread hne) rfl rfl fun _ _ _ => rfl⟩

/-- `SAVE_CONTEXT`, after the call of `ContextSwitch` has pushed its return address. -/
def Machine.park (m : Machine) (core : Nat) (thread : Thread) (v : View) (returnAddress : Nat) :
    Machine :=
  { m.put core v .body with
    contexts := Function.update m.contexts thread (saveContext v.registers (m.contexts thread))
    frames := Function.update m.frames thread
      (.switch v.registers returnAddress :: m.frames thread) }

theorem Machine.contextSwitch_eq (m : Machine) (core : Nat) (current next : Thread)
    (returnAddress : Nat) :
    m.contextSwitch core current next returnAddress =
      ((m.view core).push returnAddress).map fun v =>
        (m.park core current v returnAddress).resumeThread core next v.registers :=
  rfl

theorem Machine.park_other (m : Machine) (core : Nat) (thread : Thread) (v : View)
    (returnAddress : Nat) (hc : c ≠ core) :
    (m.park core thread v returnAddress).cores c = m.cores c :=
  Function.update_of_ne hc ..

/-- The return address is pushed on the thread's own stack, below its frames. -/
theorem Running.push (hrun : Running layout m core thread)
    (hpc : (m.cores core).pc.inKernelCode = true) (hv : (m.view core).push returnAddress = some v) :
    layout.bottom thread ≤ v.registers rsp ∧
      v.registers rsp + 8 ≤ limit layout thread (m.frames thread) ∧
      v.memory = Function.update m.memory (v.registers rsp) returnAddress ∧
      v.areas = m.areas ∧ v.gsBase = (m.cores core).gsBase ∧
      v.kernelGsBase = (m.cores core).kernelGsBase := by
  obtain ⟨⟨hbottom, hlimit⟩, _⟩ := hrun.of_kernelCode hpc
  obtain ⟨hguard, rfl⟩ := View.push_eq_some hv
  have htop := hrun.intact.limit_bounds.2
  have hroom := layout.roomy thread
  have hsize : GUARD_SIZE = 4096 := rfl
  have hstart : GUARD_SIZE ≤ layout.bottom thread := Nat.le_add_left ..
  have hsp : ((m.view core).set rsp ((m.view core).registers rsp - 8)).registers rsp =
      (m.cores core).registers rsp - 8 := View.set_self ..
  have hlow : layout.bottom thread ≤ (m.cores core).registers rsp - 8 :=
    Layout.bottom_le_of_not_guard (by omega) (by omega) hguard
  dsimp only
  rw [hsp]
  exact ⟨hlow, by omega, rfl, rfl, rfl, rfl⟩

theorem Parked.of_contextSwitch (hrun : Running layout m core thread)
    (hpc : (m.cores core).pc.inKernelCode = true) (hempty : dispatching (m.frames thread) = [])
    (hv : (m.view core).push returnAddress = some v) :
    Parked layout (m.park core thread v returnAddress) thread v.registers returnAddress
      (m.frames thread) := by
  obtain ⟨hbottom, hbelow, hmemory, _⟩ := hrun.push hpc hv
  refine ⟨Function.update_self .., ?_, ?_, hbottom, hbelow, ?_, hempty⟩
  · intro field hfield
    have hcontext : (m.park core thread v returnAddress).contexts thread =
        saveContext v.registers (m.contexts thread) := Function.update_self ..
    rw [hcontext]
    exact saveContext_apply _ _ field hfield
  · show v.memory (v.registers rsp) = returnAddress
    rw [hmemory, Function.update_self]
  · refine hrun.intact.agree fun a ha _ => ?_
    show v.memory a = m.memory a
    rw [hmemory]
    exact Function.update_of_ne (by omega) ..

/-- The call of `ContextSwitch` leaves the thread parked. -/
theorem Between.of_contextSwitch (hsound : Sound layout m)
    (hthread : (m.cores core).thread = some thread)
    (hpc : (m.cores core).pc = .dispatch thread next done) (hdone : 3 ≤ done)
    (hv : (m.view core).push returnAddress = some v) :
    Between layout (m.park core thread v returnAddress) core next := by
  obtain ⟨⟨hcount, _⟩, hrun⟩ := hsound.running core thread hthread
  obtain ⟨⟨hempty, _⟩, hswitch⟩ := hrun.of_dispatch hpc
  have hcode : (m.cores core).pc.inKernelCode = true := by rw [hpc]; rfl
  obtain ⟨_, hgs⟩ := hrun.of_kernelCode hcode
  obtain ⟨hbottom, hbelow, hmemory, hareas, hgsBase, hkernelGs⟩ := hrun.push hcode hv
  have htop := hrun.intact.limit_bounds.2
  have hcore : (m.park core thread v returnAddress).cores core =
      { m.cores core with
        registers := v.registers, flags := v.flags, gsBase := v.gsBase
        kernelGsBase := v.kernelGsBase, pc := .body } := Function.update_self ..
  have hagree : ∀ other, other ≠ thread → Agree layout other (layout.bottom other) m.memory
      (m.park core thread v returnAddress).memory := by
    intro other hne a ha ha'
    show v.memory a = m.memory a
    rw [hmemory]
    refine Function.update_of_ne ?_ ..
    rintro rfl
    exact Layout.apart hne ⟨ha, ha'⟩ ⟨hbottom, by omega⟩
  refine ⟨hcount, hswitch.prepared, ⟨?_, ?_, ?_⟩, ?_, fun c other hc hother => ?_,
    fun c hc hnone => ?_, fun c c' other hc hc' hother hother' => ?_,
    fun other hprepared hfree => ?_, hsound.flags⟩
  · rw [hcore]
    exact hswitch.active.trans (by rw [if_neg (by omega)])
  · rw [hcore]
    exact hswitch.rsp0.trans (by rw [if_neg (by omega)])
  · show v.areas core .kernelStack = layout.top next
    rw [hareas]
    exact hswitch.kernelStack.trans (by rw [if_neg (by omega)])
  · rw [hcore]
    exact ⟨hgsBase.trans hgs.1, hkernelGs.trans hgs.2⟩
  · rw [m.park_other _ _ _ _ hc] at hother
    obtain ⟨hfacts, hrun'⟩ := hsound.running c other hother
    have hne : other ≠ thread := by
      rintro rfl
      exact hc (hsound.single c core other hother hthread)
    have hframes : (m.park core thread v returnAddress).frames other = m.frames other :=
      Function.update_of_ne hne ..
    have hnone := hsound.dispatches_eq_nil hother
      (by rw [hswitch.holder]; exact fun h => hc (Option.some.inj h).symm)
    refine ⟨hfacts, ?_, ?_, ?_⟩
    · exact hrun'.keep (m.park_other _ _ _ _ hc) (by rw [show (m.park core thread v
        returnAddress).areas = v.areas from rfl, hareas]) hframes rfl (hagree other hne)
        fun hsome => absurd hnone hsome
    · rintro rfl
      exact hswitch.free c hother
    · rw [m.park_other _ _ _ _ hc, hframes]
      exact hnone
  · rw [m.park_other _ _ _ _ hc] at hnone ⊢
    exact hsound.waiting c hnone
  · rw [m.park_other _ _ _ _ hc] at hother
    rw [m.park_other _ _ _ _ hc'] at hother'
    exact hsound.single c c' other hother hother'
  · by_cases hne : other = thread
    · subst hne
      exact ⟨_, _, _, Parked.of_contextSwitch hrun hcode hempty hv⟩
    · have hfree' : ∀ c, (m.cores c).thread ≠ some other := by
        intro c hother
        by_cases hc : c = core
        · subst hc
          exact hne (Option.some.inj (hother.symm.trans hthread))
        · rw [← m.park_other core thread v returnAddress hc] at hother
          exact hfree c hc hother
      obtain ⟨left, returnAddress', rest, hparked⟩ := hsound.parked other hprepared hfree'
      exact ⟨left, returnAddress', rest, hparked.keep (Function.update_of_ne hne ..) rfl
        (Function.update_of_ne hne ..) (hagree other hne)⟩

theorem Sound.proceed (hsound : Sound layout m) (hthread : (m.cores core).thread = some thread)
    (hpc : (m.cores core).pc = .dispatch current next done)
    (h : m.proceed layout core returnAddress current next done = some m') : Sound layout m' := by
  by_cases hdone : done < 3
  · exact hsound.proceed_statement hthread hpc hdone h
  · have hswitch : m.proceed layout core returnAddress current next done =
        m.contextSwitch core current next returnAddress := by
      obtain ⟨rest, rfl⟩ := Nat.exists_eq_add_of_le (show 3 ≤ done by omega)
      rw [Nat.add_comm]
      rfl
    obtain ⟨⟨_, rfl⟩, _⟩ := ((hsound.running core thread hthread).2).of_dispatch hpc
    rw [hswitch, m.contextSwitch_eq] at h
    obtain ⟨v, hv, rfl⟩ := Option.map_eq_some_iff.1 h
    exact (Between.of_contextSwitch hsound hthread hpc (by omega) hv).resume v.registers

/-! ## The first thread of a core, and new threads -/

theorem Sound.thread_of_boot (hsound : Sound layout m) (hpc : (m.cores core).pc = .boot) :
    (m.cores core).thread = none := by
  cases hthread : (m.cores core).thread with
  | none => rfl
  | some thread =>
    have hstands := (hsound.running core thread hthread).2.stands
    rw [hpc] at hstands
    exact hstands.elim

theorem Between.of_go {first : Thread} (hsound : Sound layout m) (hcount : core < m.count)
    (hpc : (m.cores core).pc = .boot) (hholder : m.holder = some core)
    (hidle : m.idle first = true) (hprepared : m.prepared first = true) :
    Between layout (m.adjust core (some first) (layout.top first) (layout.top first) pc) core
      first := by
  have hboot := hsound.thread_of_boot hpc
  have hquiet : ∀ c other, (m.cores c).thread = some other →
      dispatches (m.cores c).pc (m.frames other) = [] := by
    intro c other hother
    refine hsound.dispatches_eq_nil hother ?_
    rintro hc
    obtain rfl := Option.some.inj (hholder.symm.trans hc)
    cases hboot.symm.trans hother
  have hfree := hsound.free_of_idle hidle hquiet
  have hlocal : Local layout m
      (m.adjust core (some first) (layout.top first) (layout.top first) pc) core first :=
    Local.adjust ..
  refine ⟨hcount, hprepared, ⟨?_, ?_, m.adjust_kernelStack ..⟩, ?_, fun c other hc hother => ?_,
    fun c hc hnone => ?_, fun c c' other hc hc' hother hother' => ?_,
    fun other hprepared hfree' => ?_, hsound.flags⟩
  · rw [m.adjust_core]
  · rw [m.adjust_core]
  · rw [m.adjust_core]
    exact (hsound.waiting core hboot).2
  · rw [hlocal.thread_eq] at hother
    obtain ⟨hfacts, hrun⟩ := hsound.running c other hother
    have hne : other ≠ first := by
      rintro rfl
      exact hfree c hother
    refine ⟨hfacts, hrun.of_local hlocal hc hne, hne, ?_⟩
    rw [hlocal.cores c hc]
    exact hquiet c other hother
  · rw [hlocal.thread_eq] at hnone
    rw [hlocal.cores c hc]
    exact hsound.waiting c hnone
  · rw [hlocal.thread_eq] at hother hother'
    exact hsound.single c c' other hother hother'
  · have hnowhere : ∀ c, (m.cores c).thread ≠ some other := by
      intro c hother
      by_cases hc : c = core
      · subst hc
        cases hboot.symm.trans hother
      · rw [← hlocal.thread_eq] at hother
        exact hfree' c hc hother
    obtain ⟨left, returnAddress, rest, hparked⟩ := hsound.parked other hprepared hnowhere
    exact ⟨left, returnAddress, rest, hparked.keep rfl rfl rfl fun _ _ _ => rfl⟩

theorem Sound.go {first : Thread} (hsound : Sound layout m) (hcount : core < m.count)
    (hpc : (m.cores core).pc = .boot) (hholder : m.holder = some core)
    (hidle : m.idle first = true) (hprepared : m.prepared first = true) :
    Sound layout (m.go layout core first) := by
  have hgo : m.go layout core first =
      (m.adjust core (some first) (layout.top first) (layout.top first) .boot).resumeThread core
        first (m.cores core).registers := by
    unfold Machine.go Machine.adjust Machine.setActive Machine.setRsp0 Machine.setKernelStack
    simp [← hpc]
  rw [hgo]
  exact (Between.of_go hsound hcount hpc hholder hidle hprepared).resume _

theorem Parked.prepare (m : Machine) (thread : Thread) :
    ∃ left, Parked layout (m.prepare layout thread) thread left layout.fakeSystemVAbi [] := by
  have hroom := layout.roomy thread
  refine ⟨_, Function.update_self .., ?_, ?_, ?_, ?_, trivial, rfl⟩
  · intro field hfield
    have hcontext : (m.prepare layout thread).contexts thread =
        Machine.preparedContext layout thread := Function.update_self ..
    rw [hcontext]
    exact (loadContext_apply _ _ field hfield).symm
  · exact Function.update_self ..
  · exact (show layout.bottom thread ≤ layout.top thread - 24 by omega)
  · exact (show layout.top thread - 24 + 8 ≤ layout.top thread by omega)

theorem Sound.prepare (hsound : Sound layout m) (hnew : m.prepared thread = false) :
    Sound layout (m.prepare layout thread) := by
  have hroom := layout.roomy thread
  have hagree : ∀ other, other ≠ thread → Agree layout other (layout.bottom other) m.memory
      (m.prepare layout thread).memory := by
    intro other hne a ha ha'
    have hout : ¬(layout.bottom thread ≤ a ∧ a < layout.top thread) := Layout.apart hne ⟨ha, ha'⟩
    show Function.update (Function.update (Function.update m.memory _ _) _ _) _ _ a = m.memory a
    rw [Function.update_of_ne (by omega), Function.update_of_ne (by omega),
      Function.update_of_ne (by omega)]
  have hkept : ∀ other, other ≠ thread →
      (m.prepare layout thread).prepared other = m.prepared other :=
    fun other hne => Function.update_of_ne hne ..
  have hold : ∀ other, m.prepared other = true → other ≠ thread := by
    rintro other hprepared rfl
    exact absurd (hnew.symm.trans hprepared) nofun
  refine ⟨fun c other hother => ?_, hsound.waiting, hsound.single,
    fun other hprepared hfree => ?_, hsound.flags⟩
  · obtain ⟨⟨hcount, hprepared⟩, hrun⟩ := hsound.running c other hother
    have hne := hold other hprepared
    refine ⟨⟨hcount, (hkept other hne).trans hprepared⟩, hrun.keep rfl rfl
      (Function.update_of_ne hne ..) rfl (hagree other hne) fun _ next done hswitch => ?_⟩
    exact ⟨hswitch.ne, hswitch.holder,
      (hkept next (hold next hswitch.prepared)).trans hswitch.prepared, hswitch.free,
      hswitch.active, hswitch.rsp0, hswitch.kernelStack⟩
  · by_cases hne : other = thread
    · subst hne
      obtain ⟨left, hparked⟩ := Parked.prepare m other
      exact ⟨left, _, _, hparked⟩
    · rw [hkept other hne] at hprepared
      obtain ⟨left, returnAddress, rest, hparked⟩ := hsound.parked other hprepared hfree
      exact ⟨left, returnAddress, rest, hparked.keep (Function.update_of_ne hne ..) rfl
        (Function.update_of_ne hne ..) (hagree other hne)⟩

/-! ## Every action -/

theorem Sound.start (layout : Layout) (count : Nat) : Sound layout (.start layout count) where
  running := nofun
  waiting := fun _ _ => ⟨rfl, rfl, rfl⟩
  single := nofun
  parked := nofun
  flags := fun _ => show UserFlags 2 by decide

/-- An interrupt of ring 0 goes on with the same stack. -/
theorem Sound.interrupt_kernel (hsound : Sound layout m)
    (hthread : (m.cores core).thread = some thread)
    (hon : interruptsOn (m.cores core).flags = true)
    (hkernel : (m.cores core).pc.inKernel = true)
    (h : m.interrupt core thread ((m.cores core).registers rsp) rip KERNEL_CODE.toNat
      KERNEL_DATA.toNat = some m') : Sound layout m' := by
  cases hpc : (m.cores core).pc with
  | user address =>
    rw [hpc] at hkernel
    exact absurd hkernel nofun
  | _ =>
    refine hsound.interrupt hthread hon (fun address huser => ?_) ?_ ?_ h
    · exact absurd (hpc.symm.trans huser) nofun
    · rw [hpc]
      rfl
    · rw [hpc]
      rfl

/-- An interrupt of ring 3 starts on the stack that the TSS names. -/
theorem Sound.interrupt_user (hsound : Sound layout m)
    (hthread : (m.cores core).thread = some thread)
    (hon : interruptsOn (m.cores core).flags = true) (hpc : (m.cores core).pc = .user rip)
    (h : m.interrupt core thread (m.cores core).rsp0 rip USER_CODE USER_DATA = some m') :
    Sound layout m' := by
  obtain ⟨_, hsettled, _⟩ := ((hsound.running core thread hthread).2).of_user hpc
  refine hsound.interrupt hthread hon (fun address huser => ?_) ?_ ?_ h
  · exact Pc.user.inj (huser.symm.trans hpc)
  · rw [hpc]
    exact hsettled.rsp0.symm
  · rw [hpc]
    rfl

theorem Sound.step {action : Action} (hsound : Sound layout m)
    (h : m.step layout action = some m') : Sound layout m' := by
  cases action with
  | prepare thread =>
    obtain rfl := Option.some.inj h
    split
    · exact hsound
    · next hnew => exact hsound.prepare (Bool.eq_false_iff.2 hnew)
  | go core first =>
    obtain ⟨⟨⟨hcount, hpc⟩, hholder, hidle, hprepared⟩, h⟩ := Option.ite_none_right_eq_some.1 h
    obtain rfl := Option.some.inj h
    exact hsound.go hcount hpc hholder hidle hprepared
  | user core rip registers flags =>
    dsimp only [Machine.step] at h
    split at h
    · next rip' hpc =>
      obtain ⟨hflags, h⟩ := Option.ite_none_right_eq_some.1 h
      obtain rfl := Option.some.inj h
      exact hsound.of_user hpc hflags
    · exact absurd h nofun
  | syscall core =>
    dsimp only [Machine.step] at h
    split at h
    · next rip thread hpc hactive =>
      obtain rfl := Option.some.inj h
      exact hsound.syscall hpc hactive
    · exact absurd h nofun
  | entry core =>
    dsimp only [Machine.step] at h
    split at h
    · next index thread hpc hthread => exact hsound.entry hthread hpc h
    · exact absurd h nofun
  | compute core registers flags writes =>
    dsimp only [Machine.step] at h
    split at h
    · next thread hthread =>
      obtain ⟨hpc, h⟩ := Option.ite_none_right_eq_some.1 h
      exact hsound.compute hthread hpc h
    · exact absurd h nofun
  | finish core =>
    dsimp only [Machine.step] at h
    split at h
    · next thread hpc hthread => exact hsound.finish hthread hpc h
    · exact absurd h nofun
  | interrupt core rip =>
    obtain ⟨hon, h⟩ := Option.ite_none_right_eq_some.1 h
    split at h
    · next thread rip' hthread hpc => exact hsound.interrupt_user hthread hon hpc h
    · next thread hthread _ =>
      obtain ⟨hkernel, h⟩ := Option.ite_none_right_eq_some.1 h
      exact hsound.interrupt_kernel hthread hon hkernel h
    · exact absurd h nofun
  | fault core =>
    dsimp only [Machine.step] at h
    split at h
    · next rip hpc =>
      obtain rfl := Option.some.inj h
      exact hsound.fault hpc
    · exact absurd h nofun
  | enterUserMode core rip stackTop =>
    dsimp only [Machine.step] at h
    split at h
    · next thread hpc hthread =>
      obtain ⟨hframes, h⟩ := Option.ite_none_right_eq_some.1 h
      obtain rfl := Option.some.inj h
      exact hsound.enterUserMode hthread hpc (List.isEmpty_iff.1 hframes)
    · exact absurd h nofun
  | enter core =>
    obtain ⟨⟨_, hholder⟩, h⟩ := Option.ite_none_right_eq_some.1 h
    obtain rfl := Option.some.inj h
    exact hsound.enter hholder
  | leave core =>
    dsimp only [Machine.step] at h
    split at h
    · next thread hpc hthread =>
      obtain ⟨⟨hholder, hempty⟩, h⟩ := Option.ite_none_right_eq_some.1 h
      obtain rfl := Option.some.inj h
      exact hsound.leave hthread hpc hholder hempty
    · exact absurd h nofun
  | dispatch core next =>
    dsimp only [Machine.step] at h
    split at h
    · next thread current hpc hthread hactive =>
      obtain ⟨⟨hholder, hempty⟩, h⟩ := Option.ite_none_right_eq_some.1 h
      split at h
      · obtain rfl := Option.some.inj h
        exact hsound
      · next hne =>
        obtain ⟨⟨hidle, hprepared⟩, h⟩ := Option.ite_none_right_eq_some.1 h
        obtain rfl := Option.some.inj h
        exact hsound.dispatch hthread hpc hactive hholder hempty hne hidle hprepared
    · exact absurd h nofun
  | proceed core returnAddress =>
    dsimp only [Machine.step] at h
    split at h
    · next current next done hpc =>
      obtain ⟨thread, hthread, -⟩ := hsound.exists_thread hpc Pc.noConfusion
      exact hsound.proceed hthread hpc h
    · exact absurd h nofun

/-! ## The result -/

/-- The task goes on in ring 3 with what it had when it executed `syscall`. -/
structure GivesBack (user : UserState) (core : Core) : Prop where
  rip : core.pc = .user user.rip
  flags : core.flags = user.flags
  registers : ∀ r, r ∉ [rax, rcx, r11] → core.registers r = user.registers r

theorem Sound.givesBack (hsound : Sound layout m) (hactive : (m.cores core).active = some thread)
    (hpc : (m.cores core).pc = .entry SYSRET) (h : m.step layout (.entry core) = some m') :
    GivesBack (m.issued thread) (m'.cores core) := by
  obtain ⟨running, hthread, hrun⟩ := hsound.exists_thread hpc Pc.noConfusion
  obtain ⟨hframes, s, hs, hdescribes⟩ := hrun.of_entry hpc
  have hsettled := hrun.settled (by rw [hpc, hframes]; rfl)
  obtain rfl := Option.some.inj (hactive.symm.trans hsettled.active)
  obtain ⟨huserSp, hrcx, hr11, hknown⟩ := sketchAt_sysret hs
  have hrip := hdescribes.fits.known rcx _ nofun hrcx
  have hflags := hdescribes.fits.known r11 _ nofun hr11
  dsimp only [Machine.step] at h
  rw [hpc, hthread] at h
  obtain ⟨_, h⟩ := Option.ite_none_right_eq_some.1 h
  obtain rfl := Option.some.inj h
  have hcore : (m.put core { m.view core with
      flags := sysretFlags (BitVec.ofNat 64 ((m.view core).registers r11)) }
      (.user ((m.view core).registers rcx))).cores core =
      { m.cores core with
        flags := sysretFlags (BitVec.ofNat 64 ((m.view core).registers r11))
        pc := .user ((m.view core).registers rcx) } := Function.update_self ..
  refine ⟨?_, ?_, fun r hr => ?_⟩
  · rw [hcore, hrip]
  · rw [hcore, hflags, BitVec.ofNat_toNat, BitVec.setWidth_eq]
    exact hsound.flags thread
  · rw [hcore]
    by_cases hsp : r = rsp
    · rw [hsp]
      exact (hdescribes.fits.userSp _ huserSp).1
    · refine hdescribes.fits.known r _ hsp (hknown r ?_)
      simp only [List.mem_cons, List.not_mem_nil, or_false, not_or] at hr ⊢
      exact ⟨hr.1, hr.2.1, hr.2.2, hsp⟩

theorem Sound.bases (hsound : Sound layout m)
    (hbracket : ∀ index, (m.cores core).pc = .entry index → ¬InBracket index) :
    (m.cores core).gsBase = 0 ∧ (m.cores core).kernelGsBase = layout.areaAddress core := by
  cases hthread : (m.cores core).thread with
  | none => exact (hsound.waiting core hthread).2
  | some thread =>
    have hrun := (hsound.running core thread hthread).2
    have hgs := hrun.gs
    cases hpc : (m.cores core).pc with
    | entry index =>
      obtain ⟨_, s, hs, hdescribes⟩ := hrun.of_entry hpc
      refine hdescribes.onCore.bases (Bool.eq_false_iff.2 fun hswapped => ?_)
      exact hbracket index hpc ((sketchAt_checks hs).2.1.1 hswapped)
    | _ =>
      rw [hpc] at hgs
      exact hgs

theorem Sound.not_lost (hsound : Sound layout m) : (m.cores core).pc ≠ .lost := by
  intro hpc
  obtain ⟨thread, -, hrun⟩ := hsound.exists_thread hpc Pc.noConfusion
  have hstands := hrun.stands
  rw [hpc] at hstands
  exact hstands

/-- For any number of tasks and cores and any interleaving of their system calls,
interrupts and context switches: a core never loses its way, the bases of `gs` are in
place outside of the bracket, and a task that returns from a system call has every
register but `rax`, `rcx` and `r11` as it was when it executed `syscall`. -/
theorem syscall_transparency (layout : Layout) (count : Nat) (actions : List Action) (m : Machine)
    (hrun : Transition.run (Machine.step layout) (.start layout count) actions = some m) :
    (∀ core, (m.cores core).pc ≠ .lost) ∧
    (∀ core, (∀ index, (m.cores core).pc = .entry index → ¬InBracket index) →
      (m.cores core).gsBase = 0 ∧ (m.cores core).kernelGsBase = layout.areaAddress core) ∧
    ∀ core thread m', (m.cores core).active = some thread → (m.cores core).pc = .entry SYSRET →
      m.step layout (.entry core) = some m' → GivesBack (m.issued thread) (m'.cores core) := by
  have hsound := Transition.invariant (fun _ _ _ => Sound.step) (Sound.start layout count) hrun
  exact ⟨fun _ => hsound.not_lost, fun _ => hsound.bases, fun _ _ _ => hsound.givesBack⟩

private theorem slots_in_turn : Function.Injective fun
    | Thread.idle core => 2 * core
    | Thread.task number => 2 * number + 1 := by
  intro thread thread' h
  cases thread <;> cases thread' <;> simp only at h <;> congr 1 <;> omega

/-- The idle threads and the tasks take turns in the slots. -/
def sampleLayout : Layout where
  slot := fun
    | .idle core => 2 * core
    | .task number => 2 * number + 1
  slot_injective := slots_in_turn
  areas := 0xFFFFFFFF80200000
  object := fun _ => 0xFFFFFFFF80300000
  afterCall := 0xFFFFFFFF80101040
  fakeSystemVAbi := 0xFFFFFFFF80102000
  kickoff := 0xFFFFFFFF80103000
  kickoffReturned := 0xFFFFFFFF80104000

/-- A task executes `syscall` on core 0 and blocks.  Core 1 goes on with it, up to the
`sysret`. -/
def migratingCall : List Action :=
  [.prepare (.task 1), .prepare (.task 2), .prepare (.idle 1), .enter 0, .go 0 (.task 1), .leave 0,
    .enterUserMode 0 0x401000 0x7FFFF000,
    .user 0 0x401020 (fun r => if r = rsp then 0x7FFFEF00 else if r = rbx then 7 else 5) 0x246,
    .syscall 0] ++ List.replicate 20 (.entry 0) ++
  [.enter 0, .dispatch 0 (.task 2)] ++ List.replicate 4 (.proceed 0 0xFFFFFFFF80105000) ++
  [.leave 0, .enter 1, .go 1 (.idle 1), .dispatch 1 (.task 1)] ++
  List.replicate 4 (.proceed 1 0xFFFFFFFF80105000) ++ [.leave 1, .finish 1] ++
  List.replicate 11 (.entry 1)

theorem syscall_transparency_migrating : ∃ m m',
    Transition.run (Machine.step sampleLayout) (.start sampleLayout 2) migratingCall = some m ∧
      m.step sampleLayout (.entry 1) = some m' ∧ (m.issued (.task 1)).rip = 0x401020 ∧
      GivesBack (m.issued (.task 1)) (m'.cores 1) := by
  have hrun : (Transition.run (Machine.step sampleLayout) (.start sampleLayout 2)
      migratingCall).any (fun m => (m.cores 1).active = some (.task 1) &&
        (m.cores 1).pc = .entry SYSRET && (m.step sampleLayout (.entry 1)).isSome &&
        (m.issued (.task 1)).rip = 0x401020) = true := by decide +kernel
  obtain ⟨m, hm, hcheck⟩ := (Option.any_eq_true _ _).1 hrun
  simp only [Bool.and_eq_true, decide_eq_true_eq] at hcheck
  obtain ⟨⟨⟨hactive, hpc⟩, hsome⟩, hrip⟩ := hcheck
  obtain ⟨m', hm'⟩ := Option.isSome_iff_exists.1 hsome
  have hresult := syscall_transparency sampleLayout 2 migratingCall m hm
  exact ⟨m, m', hm, hm', hrip, hresult.2.2 1 (.task 1) m' hactive hpc hm'⟩

end X64HK.SyscallPath
