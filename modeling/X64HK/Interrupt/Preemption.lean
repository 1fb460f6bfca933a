import X64HK.Lib.Transition
import X64HK.Thread.Scheduler

/-!
# The tick of a core that runs a thread

The idle loop masks the timer of a core that has nothing to do, and the Wakeup
epilogue unmasks it.  This module models the cores together with their local APICs:
the statements of `IdleLoop` (`Kernel/Thread/Scheduler.cpp`), the four epilogues
(`Kernel/Interrupt/Epilogue.cpp`) and the operations that a thread issues under the
Guard.

A core is at epilogue level from `Guard::Enter`, or from the prologue that finds the
level free, until `Guard::Leave` has drained the epilogues that came in meanwhile.
An epilogue is one step, and so is an operation of a thread.  A keyboard epilogue can
decode any number of keys.

The timer epilogue and the Assassin epilogue switch to a ready thread too, and they do
not look at the mask.  `stale_tick_runs_thread` is a run with one core in which a tick
that was pending before the timer was masked brings a thread onto the core after a
keyboard interrupt has made it ready.

* `Machine.step` is one action of a core or of its hardware.
* `Vault.Frame.step` says what an operation does to the active threads and to the pending
  interrupts, whatever the state of the queues.
* `Ticking` is the invariant, and `preemptible_of_undisturbed` the result.
-/

namespace X64HK

open IntrusiveQueue

/-- The statement of `IdleLoop` that a core's idle thread executes next. -/
inductive IdlePc where
  /-- `Cpu::Interrupt::Disable()`. -/
  | top
  /-- `if (!Scheduler.IsEmpty())`. -/
  | test
  /-- `SetMasked(false)`. -/
  | unmask
  /-- `Cpu::Interrupt::Enable()`. -/
  | enable
  /-- `Guard::Enter()`. -/
  | enter
  /-- `Scheduler.Resume()`. -/
  | resume
  /-- `keepTicking = …`. -/
  | keep
  /-- `SetMasked(!keepTicking)`. -/
  | mask (keepTicking : Bool)
  /-- `Cpu::Idle()`. -/
  | halt
  /-- In `hlt`. -/
  | halted
  deriving DecidableEq, Repr

structure Machine where
  vault : Vault
  /-- The mask bit of the timer. -/
  masked : Nat → Bool := fun _ => true
  idle : Nat → IdlePc := fun _ => .top
  /-- `s_InEpilogue`. -/
  level : Nat → Bool := fun _ => false
  /-- `s_EpilogueQueue`. -/
  epilogues : Nat → List InterruptVector := fun _ => []

/-- What can happen next. -/
inductive Action where
  /-- `Main` makes a thread ready. -/
  | boot (thread : Thread)
  /-- `MainAp`. -/
  | start (core : Nat)
  /-- The timer of a core expires. -/
  | tick (core : Nat)
  /-- A key interrupts a core. -/
  | press (core : Nat)
  /-- A core takes a pending interrupt. -/
  | deliver (core : Nat) (vector : InterruptVector)
  /-- A core runs the first epilogue of its queue, which can decode `keys` keys. -/
  | epilogue (core keys : Nat)
  /-- A core has drained its epilogues. -/
  | leave (core : Nat)
  /-- A thread calls `Guard::Enter`. -/
  | enter (core : Nat)
  /-- A thread issues an operation. -/
  | operate (core : Nat) (event : SchedulerEvent)
  /-- The idle thread executes a statement. -/
  | idle (core : Nat)
  deriving DecidableEq, Repr

/-- The operation is one that a thread on `core` can issue. -/
def SchedulerEvent.issuedBy : SchedulerEvent → Nat → Bool
  | .ready c _, core | .resume c _, core | .exit c, core | .p c _, core | .v c _, core
  | .sleep c _, core => c = core
  | .kill _, _ => true
  | .schedule _, _ | .check _, _ => false

/-- Every thread in the ready queue is dying. -/
def Vault.NoneReady (v : Vault) : Prop :=
  ∀ before number, Path v.link v.readyQueue.head before (some (.task number)) →
    v.dying (.task number) = true

/-- The next call of `Check` rings no bell. -/
def Bellringer.NoneDue (b : Bellringer Thread) : Prop :=
  ∀ head, b.bells.head = some head → (b.tick head).ticks head ≠ 0

namespace Machine

/-- The semaphore `Vault::KeysAvailable`. -/
def KEYS_AVAILABLE : Nat := 0

def initial (cores : Nat) (counts : Nat → Nat) : Machine where
  vault := Vault.initial cores counts

/-- The core runs its idle thread. -/
def idles (m : Machine) (core : Nat) : Bool :=
  m.vault.activeThread core = some (.idle core)

/-- The core runs a thread other than its idle thread. -/
def works (m : Machine) (core : Nat) : Bool :=
  match m.vault.activeThread core with
  | some (.task _) => true
  | _ => false

/-- The interrupt flag.  Threads and epilogues run with interrupts on, and the idle loop
switches them off to decide. -/
def interruptsOn (m : Machine) (core : Nat) : Bool :=
  m.level core || m.works core ||
    m.idles core && (m.idle core = .top || m.idle core = .enter || m.idle core = .halted)

/-- The idle thread has entered the level and is about to call `Resume`. -/
def resuming (m : Machine) (core : Nat) : Bool :=
  m.idles core && m.idle core = .resume

/-- One core owns the clock. -/
def ringBells (v : Vault) (core fuel : Nat) : Outcome Vault :=
  if core = 0 then v.check core fuel else .ok v

/-- `Epilogues::Timer`, `Assassin`, `Wakeup` and `Keyboard`. -/
def runEpilogue (m : Machine) (core keys fuel : Nat) : InterruptVector → Outcome Machine
  | .timer => do
    let v ← ringBells m.vault core fuel
    let v ← v.resume core true fuel
    return { m with vault := v }
  | .assassin => do
    let v ← m.vault.resume core true fuel
    return { m with vault := v }
  | .wakeup => do
    let v ← m.vault.resume core true fuel
    return { m with vault := v, masked := Function.update m.masked core false }
  | .keyboard =>
    .ok { m with
      vault := (List.range keys).foldl (fun v _ => v.v core KEYS_AVAILABLE) m.vault }

/-- One statement of `IdleLoop`. -/
def idleStep (m : Machine) (core fuel : Nat) : Option Machine :=
  let goto (pc : IdlePc) := { m with idle := Function.update m.idle core pc }
  match m.idle core with
  | .top => if m.level core then none else some (goto .test)
  | .test => some (goto (if m.vault.isEmpty then .keep else .unmask))
  | .unmask => some { goto .enable with masked := Function.update m.masked core false }
  | .enable => some (goto .enter)
  | .enter =>
    if m.level core then none
    else some { goto .resume with level := Function.update m.level core true }
  | .resume =>
    match m.vault.resume core true fuel with
    | .ok v => some { goto .top with vault := v }
    | .error _ => none
  | .keep => some (goto (.mask (core = 0 && m.vault.bellringer.bells.head.isSome)))
  | .mask keepTicking =>
    some { goto .halt with masked := Function.update m.masked core (!keepTicking) }
  | .halt => some (goto .halted)
  | .halted => none

/-- A core takes an interrupt.  The prologue queues its epilogue, and takes the level if
it is free.  A core in `hlt` goes on after it. -/
def take (m : Machine) (core : Nat) (vector : InterruptVector) : Machine :=
  { m with
    vault := { m.vault with
      pending := Function.update m.vault.pending core
        (Function.update (m.vault.pending core) vector false) }
    level := Function.update m.level core true
    epilogues := Function.update m.epilogues core (m.epilogues core ++ [vector])
    idle :=
      if m.idles core && m.idle core = .halted then Function.update m.idle core .top else m.idle }

def step (fuel : Nat) (m : Machine) : Action → Option Machine
  | .boot thread =>
    if m.vault.activeThread 0 = none then some { m with vault := m.vault.ready 0 thread } else none
  | .start core =>
    if m.vault.activeThread core = none then
      match m.vault.schedule core fuel with
      | .ok v =>
        some { m with
          vault := v
          masked := Function.update m.masked core false
          level := Function.update m.level core true }
      | .error _ => none
    else none
  | .tick core => if m.masked core then none else some { m with vault := m.vault.send core .timer }
  | .press core => some { m with vault := m.vault.send core .keyboard }
  | .deliver core vector =>
    if m.vault.pending core vector && m.interruptsOn core then some (m.take core vector) else none
  | .epilogue core keys =>
    if m.level core && !m.resuming core then
      match m.epilogues core with
      | [] => none
      | vector :: rest =>
        match { m with epilogues := Function.update m.epilogues core rest }.runEpilogue
            core keys fuel vector with
        | .ok m' => some m'
        | .error _ => none
    else none
  | .leave core =>
    if m.level core && !m.resuming core && m.epilogues core = [] then
      some { m with level := Function.update m.level core false }
    else none
  | .enter core =>
    if !m.level core && m.works core then
      some { m with level := Function.update m.level core true }
    else none
  | .operate core event =>
    if m.level core && m.works core && event.issuedBy core then
      match m.vault.step fuel event with
      | .ok v => some { m with vault := v }
      | .error _ => none
    else none
  | .idle core => if m.idles core then m.idleStep core fuel else none

/-- Outside of the epilogue level a core that runs a thread has its tick, or will get it
with the Wakeup that is pending. -/
def Preemptible (m : Machine) : Prop :=
  ∀ core, m.level core = false → m.works core = true →
    m.masked core = false ∨ m.vault.pending core .wakeup = true

/-- A timer or Assassin epilogue that runs on a core whose timer is masked, while no
Wakeup is on its way to the core, comes when no live thread is ready.  The timer epilogue
of the first core comes when no bell is due either. -/
def Undisturbed (m : Machine) : Action → Prop
  | .epilogue core _ =>
    ∀ vector rest, m.epilogues core = vector :: rest → vector = .timer ∨ vector = .assassin →
      m.masked core = true → m.vault.pending core .wakeup = false → .wakeup ∉ rest →
      m.vault.NoneReady ∧ (vector = .timer → core = 0 → m.vault.bellringer.NoneDue)
  | _ => True

end Machine

namespace Vault

variable {v v' : Vault} {core fuel : Nat}
  {links : Links Thread} {target : Thread} {xs : List Thread}

/-! ## What the operations do to the cores -/

/-- Only the active thread of `core` can differ, and no interrupt is lost. -/
structure Frame (v v' : Vault) (core : Nat) : Prop where
  active : ∀ c, c ≠ core → v'.activeThread c = v.activeThread c
  pending : ∀ c vector, v.pending c vector = true → v'.pending c vector = true

theorem Frame.refl (v : Vault) (core : Nat) : Frame v v core :=
  ⟨fun _ _ => rfl, fun _ _ h => h⟩

theorem Frame.trans {v₁ v₂ v₃ : Vault} (h₁ : Frame v₁ v₂ core) (h₂ : Frame v₂ v₃ core) :
    Frame v₁ v₃ core :=
  ⟨fun c hc => (h₂.active c hc).trans (h₁.active c hc),
    fun c vector h => h₂.pending c vector (h₁.pending c vector h)⟩

/-- Nothing that `Frame` is about has changed. -/
theorem Frame.of_eq (hactive : v'.activeThread = v.activeThread)
    (hpending : v'.pending = v.pending) : Frame v v' core :=
  ⟨fun c _ => by rw [hactive], fun c vector h => by rwa [hpending]⟩

theorem send_pending (v : Vault) (target : Nat) (vector : InterruptVector) {c : Nat}
    {other : InterruptVector} (h : v.pending c other = true) :
    (v.send target vector).pending c other = true := by
  unfold send
  by_cases hc : c = target
  · subst hc
    by_cases hother : other = vector
    · simp [hother]
    · simp [hother, h]
  · simp [hc, h]

theorem Frame.send (v : Vault) (core target : Nat) (vector : InterruptVector) :
    Frame v (v.send target vector) core :=
  ⟨fun _ _ => rfl, fun _ _ h => send_pending v target vector h⟩

theorem Frame.ready (v : Vault) (core self : Nat) (thread : Thread) :
    Frame v (v.ready self thread) core := by
  have happend : Frame v (v.appendReady thread) core := Frame.of_eq rfl rfl
  unfold Vault.ready
  dsimp only
  split
  · exact happend
  · exact happend.trans (Frame.send ..)

theorem getNext_frame {next : Thread} (h : v.getNext core fuel = .ok (next, v')) :
    v'.activeThread = v.activeThread ∧ v'.pending = v.pending := by
  induction fuel generalizing v with
  | zero => exact absurd h nofun
  | succ fuel ih =>
    unfold getNext at h
    split at h
    · obtain ⟨_, rfl⟩ := Prod.mk.inj (Except.ok.inj h)
      exact ⟨rfl, rfl⟩
    · dsimp only at h
      split at h
      · have hrest := ih h
        exact hrest
      · obtain ⟨_, rfl⟩ := Prod.mk.inj (Except.ok.inj h)
        exact ⟨rfl, rfl⟩

theorem Frame.exit (h : v.exit core fuel = .ok v') : Frame v v' core := by
  unfold Vault.exit at h
  obtain ⟨⟨next, v₁⟩, hnext, hdispatch⟩ := (bind_ok_iff _ _ _).1 h
  obtain ⟨hactive, hpending⟩ := getNext_frame hnext
  refine (Frame.of_eq hactive hpending).trans ?_
  simp only [dispatch] at hdispatch
  split at hdispatch
  · exact absurd hdispatch nofun
  · split at hdispatch
    · obtain rfl := Except.ok.inj hdispatch
      exact Frame.refl ..
    · obtain rfl := Except.ok.inj hdispatch
      exact ⟨fun c hc => Function.update_of_ne hc .., fun _ _ h => h⟩

theorem Frame.schedule (h : v.schedule core fuel = .ok v') : Frame v v' core := by
  unfold Vault.schedule at h
  obtain ⟨⟨next, v₁⟩, hnext, hgo⟩ := (bind_ok_iff _ _ _).1 h
  obtain ⟨hactive, hpending⟩ := getNext_frame hnext
  obtain rfl := Except.ok.inj hgo
  exact (Frame.of_eq hactive hpending).trans
    ⟨fun c hc => Function.update_of_ne hc .., fun _ _ h => h⟩

theorem Frame.resume {requeue : Bool} (h : v.resume core requeue fuel = .ok v') :
    Frame v v' core := by
  unfold Vault.resume at h
  split at h
  · exact absurd h nofun
  · refine Frame.trans ?_ (Frame.exit h)
    split
    · exact Frame.of_eq rfl rfl
    · exact Frame.refl ..

theorem Frame.release (w : Vault) (core self s : Nat) : Frame w (w.v self s) core := by
  unfold Vault.v
  dsimp only
  split
  · refine Frame.trans ?_ (Frame.ready ..)
    exact Frame.of_eq rfl rfl
  · exact Frame.of_eq rfl rfl

theorem v_active (v : Vault) (self s : Nat) : (v.v self s).activeThread = v.activeThread := by
  unfold Vault.v
  dsimp only
  split
  · exact ready_activeThread ..
  · rfl

theorem Frame.check (h : v.check core fuel = .ok v') : Frame v v' core := by
  unfold Vault.check at h
  obtain ⟨⟨owners, bellringer⟩, _, hcheck⟩ := (bind_ok_iff _ _ _).1 h
  obtain rfl := Except.ok.inj hcheck
  refine List.foldlRecOn (motive := fun w : Vault => Frame v w core) owners _
    (Frame.of_eq rfl rfl) ?_
  exact fun w hw owner _ => hw.trans (Frame.ready ..)

theorem Frame.step {event : SchedulerEvent} (hcore : event.issuedBy core = true)
    (h : v.step fuel event = .ok v') : Frame v v' core := by
  cases event with
  | schedule c => exact absurd hcore nofun
  | check c => exact absurd hcore nofun
  | ready c t =>
    obtain rfl := Except.ok.inj h
    exact Frame.ready ..
  | resume c requeue =>
    obtain rfl := of_decide_eq_true hcore
    exact Frame.resume h
  | exit c =>
    obtain rfl := of_decide_eq_true hcore
    exact Frame.exit h
  | kill t =>
    obtain rfl := Except.ok.inj h
    unfold Vault.kill
    dsimp only
    split
    · exact Frame.of_eq rfl rfl
    · split
      · exact Frame.of_eq rfl rfl
      · refine Frame.trans ?_ (Frame.send ..)
        exact Frame.of_eq rfl rfl
  | p c s =>
    obtain rfl := of_decide_eq_true hcore
    unfold Vault.step Vault.p at h
    dsimp only at h
    split at h
    · obtain rfl := Except.ok.inj h
      exact Frame.of_eq rfl rfl
    · split at h
      · exact absurd h nofun
      · refine Frame.trans ?_ (Frame.resume h)
        exact Frame.of_eq rfl rfl
  | v c s =>
    obtain rfl := Except.ok.inj h
    exact Frame.release ..
  | sleep c milliseconds =>
    obtain rfl := of_decide_eq_true hcore
    unfold Vault.step Vault.sleep at h
    dsimp only at h
    split at h
    · obtain rfl := Except.ok.inj h
      exact Frame.refl ..
    · split at h
      · exact absurd h nofun
      · obtain ⟨bellringer, _, hresume⟩ := (bind_ok_iff _ _ _).1 h
        refine Frame.trans ?_ (Frame.resume hresume)
        split
        · refine Frame.trans ?_ (Frame.send ..)
          exact Frame.of_eq rfl rfl
        · exact Frame.of_eq rfl rfl

/-! ## Nothing to switch to -/

/-- The core runs no thread but an idle thread. -/
def Rests (v : Vault) (core : Nat) : Prop := ∀ number, v.activeThread core ≠ some (.task number)

/-- Dequeuing leads to no thread that was not in the queue. -/
theorem path_of_dequeue {first : Thread} :
    ∀ {start : Option Thread}, Path (Function.update links first none) start xs (some target) →
      Path links start xs (some target) := by
  induction xs with
  | nil => exact fun h => h
  | cons x xs ih =>
    rintro start ⟨hstart, hrest⟩
    refine ⟨hstart, ?_⟩
    by_cases hx : x = first
    · subst hx
      rw [Function.update_self] at hrest
      cases xs with
      | nil => cases (show none = some target from hrest)
      | cons y ys => cases hrest.1
    · rw [Function.update_of_ne hx] at hrest
      exact ih hrest

/-- Behind an element that is linked to nothing else there is only itself. -/
theorem eq_of_path_last {last : Thread} (hlast : links last = none ∨ links last = some last)
    (h : Path links (some last) xs (some target)) : target = last := by
  induction xs with
  | nil => exact (Option.some.inj h).symm
  | cons x xs ih =>
    obtain ⟨hx, hrest⟩ := h
    obtain rfl := Option.some.inj hx
    rcases hlast with hnone | hself
    · rw [hnone] at hrest
      cases xs with
      | nil => cases (show none = some target from hrest)
      | cons y ys => cases hrest.1
    · rw [hself] at hrest
      exact ih hrest

/-- Appending leads to no other thread than the one that is appended. -/
theorem path_of_append {links' : Links Thread} {last : Thread}
    (hlinks : ∀ x, links' x = links x ∨ links' x = none ∨ links' x = some last)
    (hlast : links' last = none ∨ links' last = some last) (hne : target ≠ last) :
    ∀ {start : Option Thread}, Path links' start xs (some target) →
      Path links start xs (some target) := by
  induction xs with
  | nil => exact fun h => h
  | cons x xs ih =>
    rintro start ⟨hstart, hrest⟩
    refine ⟨hstart, ?_⟩
    rcases hlinks x with hsame | hnone | hto
    · exact hsame ▸ ih hrest
    · rw [hnone] at hrest
      cases xs with
      | nil => cases (show none = some target from hrest)
      | cons y ys => cases hrest.1
    · rw [hto] at hrest
      exact absurd (eq_of_path_last hlast hrest) hne

theorem linkTail_apply (links : Links Thread) (tail : Option Thread) (x y : Thread) :
    linkTail links tail x y = links y ∨ linkTail links tail x y = some x := by
  cases tail with
  | none => exact .inl rfl
  | some last =>
    simp only [linkTail, Function.update_apply]
    split
    · exact .inr rfl
    · exact .inl rfl

theorem NoneReady.appendReady (h : v.NoneReady) {c : Nat} :
    (v.appendReady (.idle c)).NoneReady := by
  unfold Vault.appendReady
  cases happend : append v.link v.readyQueue (.idle c) with
  | none => exact h
  | some result =>
    intro before number hpath
    unfold IntrusiveQueue.append at happend
    split at happend
    · cases happend
    split at happend
    · obtain rfl := Option.some.inj happend
      cases eq_of_path_last (.inl (Function.update_self ..)) hpath
    · obtain rfl := Option.some.inj happend
      have hne : Thread.task number ≠ .idle c := Thread.noConfusion
      have hlinks := linkTail_apply (Function.update v.link (.idle c) none) v.readyQueue.tail
        (.idle c)
      refine h before number (path_of_append (fun x => ?_) ?_ hne hpath)
      · by_cases hx : x = .idle c
        · subst hx
          exact .inr ((hlinks _).imp_left fun heq => heq.trans (Function.update_self ..))
        · exact (hlinks x).imp (fun heq => heq.trans (Function.update_of_ne hx ..)) .inr
      · exact (hlinks _).imp_left fun heq => heq.trans (Function.update_self ..)

/-- With no live thread in the queue the idle thread is next. -/
theorem NoneReady.getNext (h : v.NoneReady) {next : Thread}
    (hnext : v.getNext core fuel = .ok (next, v')) : ∀ number, next ≠ .task number := by
  induction fuel generalizing v with
  | zero => cases hnext
  | succ fuel ih =>
    unfold Vault.getNext dequeue at hnext
    cases hhead : v.readyQueue.head with
    | none =>
      rw [hhead] at hnext
      obtain ⟨rfl, _⟩ := Prod.mk.inj (Except.ok.inj hnext)
      exact fun _ => Thread.noConfusion
    | some first =>
      rw [hhead] at hnext
      dsimp only at hnext
      split at hnext
      · refine ih (fun before number hpath => ?_) hnext
        refine h (first :: before) number ⟨hhead, path_of_dequeue hpath⟩
      · rename_i hlive
        obtain ⟨rfl, _⟩ := Prod.mk.inj (Except.ok.inj hnext)
        rintro number rfl
        exact hlive (h [] number hhead)

theorem NoneReady.resume (h : v.NoneReady) (hrests : v.Rests core)
    (hresume : v.resume core true fuel = .ok v') : v'.Rests core := by
  unfold Vault.resume at hresume
  cases hactive : v.activeThread core with
  | none =>
    rw [hactive] at hresume
    cases hresume
  | some current =>
    rw [hactive] at hresume
    cases current with
    | task number => exact absurd hactive (hrests number)
    | idle c =>
      obtain ⟨⟨next, v₁⟩, hnext, hdispatch⟩ := (bind_ok_iff _ _ _).1 hresume
      have hidle : ∀ number, next ≠ .task number := by
        split at hnext
        · exact h.appendReady.getNext hnext
        · exact h.getNext hnext
      change v₁.dispatch core next = .ok v' at hdispatch
      unfold Vault.dispatch at hdispatch
      split at hdispatch
      · cases hdispatch
      · rename_i hcurrent
        split at hdispatch
        · rename_i hsame
          obtain rfl := Except.ok.inj hdispatch
          intro number heq
          exact hidle number (hsame.symm.trans (Option.some.inj (hcurrent.symm.trans heq)))
        · obtain rfl := Except.ok.inj hdispatch
          intro number heq
          simp only [Function.update_self] at heq
          exact hidle number (Option.some.inj heq)

theorem NoneReady.ringBells (h : v.NoneReady) (hrests : v.Rests core)
    (hdue : core = 0 → v.bellringer.NoneDue) (hring : Machine.ringBells v core fuel = .ok v') :
    v'.NoneReady ∧ v'.Rests core := by
  unfold Machine.ringBells at hring
  split at hring
  · rename_i hcore
    unfold Vault.check Bellringer.check at hring
    obtain ⟨⟨owners, bellringer⟩, hcheck, hready⟩ := (bind_ok_iff _ _ _).1 hring
    have howners : owners = [] := by
      split at hcheck
      · exact (Prod.mk.inj (Except.ok.inj hcheck)).1.symm
      · rename_i head hhead
        cases fuel with
        | zero => cases hcheck
        | succ fuel =>
          have hlater := hdue hcore head hhead
          have hhead' : (v.bellringer.tick head).bells.head = some head := by
            unfold Bellringer.tick
            split <;> exact hhead
          rw [Bellringer.checkLoop, hhead'] at hcheck
          dsimp only at hcheck
          rw [if_neg hlater] at hcheck
          exact (Prod.mk.inj (Except.ok.inj hcheck)).1.symm
    subst howners
    obtain rfl := Except.ok.inj hready
    exact ⟨h, hrests⟩
  · obtain rfl := Except.ok.inj hring
    exact ⟨h, hrests⟩

end Vault

namespace Machine

variable {m m' : Machine} {v' : Vault} {core fuel : Nat} {vector : InterruptVector}

theorem works_eq_false_iff : m.works core = false ↔ m.vault.Rests core := by
  unfold Machine.works Vault.Rests
  split <;> simp_all

/-! ## The invariant -/

/-- A core that runs a thread has its tick, or a Wakeup for it is pending or queued.
Epilogues are queued at epilogue level only.  Once the idle loop has unmasked the timer,
the timer stays so until `Resume`. -/
structure Ticking (m : Machine) : Prop where
  works : ∀ core, m.works core = true →
    m.masked core = false ∨ m.vault.pending core .wakeup = true ∨ .wakeup ∈ m.epilogues core
  drained : ∀ core, m.level core = false → m.epilogues core = []
  idle : ∀ core, m.idle core = .enable ∨ m.idle core = .enter ∨ m.idle core = .resume →
    m.masked core = false

theorem ticking_initial (cores : Nat) (counts : Nat → Nat) : Ticking (initial cores counts) where
  works := nofun
  drained := fun _ _ => rfl
  idle := fun _ h => by simp [initial] at h

theorem works_congr (m m' : Machine) {core : Nat}
    (h : m'.vault.activeThread core = m.vault.activeThread core) :
    m'.works core = m.works core := by
  unfold Machine.works
  rw [h]

/-- An operation of a core keeps the invariant if it does for the core itself. -/
theorem Ticking.operate (h : Ticking m) (hframe : Vault.Frame m.vault v' core)
    (hcore : { m with vault := v' }.works core = true →
      m.masked core = false ∨ m.vault.pending core .wakeup = true ∨ .wakeup ∈ m.epilogues core) :
    Ticking { m with vault := v' } := by
  refine ⟨fun c hc => ?_, h.drained, h.idle⟩
  have hbefore : m.masked c = false ∨ m.vault.pending c .wakeup = true ∨
      .wakeup ∈ m.epilogues c := by
    by_cases heq : c = core
    · subst heq
      exact hcore hc
    · rw [works_congr m _ (hframe.active c heq)] at hc
      exact h.works c hc
  rcases hbefore with hmask | hpending | hqueued
  · exact Or.inl hmask
  · exact Or.inr (Or.inl (hframe.pending c .wakeup hpending))
  · exact Or.inr (Or.inr hqueued)

/-- An operation that switches no thread keeps the invariant. -/
theorem Ticking.operate_same (h : Ticking m) (hframe : Vault.Frame m.vault v' core)
    (hsame : v'.activeThread core = m.vault.activeThread core) :
    Ticking { m with vault := v' } := by
  refine h.operate hframe fun hworks => ?_
  rw [works_congr m _ hsame] at hworks
  exact h.works core hworks

/-- The timer of a core is unmasked. -/
theorem Ticking.unmask (h : Ticking m) (core : Nat) :
    Ticking { m with masked := Function.update m.masked core false } := by
  have hmask : ∀ c, m.masked c = false → Function.update m.masked core false c = false := by
    intro c hc
    by_cases heq : c = core
    · simp [heq]
    · simp [heq, hc]
  exact ⟨fun c hc => (h.works c hc).imp_left (hmask c), h.drained,
    fun c hc => hmask c (h.idle c hc)⟩

/-- The idle thread goes on to a statement at which the timer may be masked. -/
theorem Ticking.goto (h : Ticking m) (core : Nat) {pc : IdlePc}
    (hpc : pc = .enable ∨ pc = .enter ∨ pc = .resume → m.masked core = false) :
    Ticking { m with idle := Function.update m.idle core pc } := by
  refine ⟨h.works, h.drained, fun c hc => ?_⟩
  by_cases heq : c = core
  · subst heq
    simp only [Function.update_self] at hc
    exact hpc hc
  · simp only [Function.update_of_ne heq] at hc
    exact h.idle c hc

theorem Ticking.setLevel (h : Ticking m) (core : Nat) (level : Bool)
    (hlevel : level = false → m.epilogues core = []) :
    Ticking { m with level := Function.update m.level core level } := by
  refine ⟨h.works, fun c hc => ?_, h.idle⟩
  by_cases heq : c = core
  · subst heq
    simp only [Function.update_self] at hc
    exact hlevel hc
  · simp only [Function.update_of_ne heq] at hc
    exact h.drained c hc

/-- Taking a Wakeup queues it. -/
theorem Ticking.take (h : Ticking m) (core : Nat) (vector : InterruptVector) :
    Ticking (m.take core vector) := by
  refine ⟨fun c hc => ?_, fun c hc => ?_, fun c hc => ?_⟩
  · by_cases heq : c = core
    · subst heq
      rcases h.works c hc with hmask | hpending | hqueued
      · exact Or.inl hmask
      · by_cases hvector : vector = .wakeup
        · simp [Machine.take, hvector]
        · simp [Machine.take, Ne.symm hvector, hpending]
      · simp [Machine.take, hqueued]
    · have hold := h.works c hc
      simpa [Machine.take, heq] using hold
  · by_cases heq : c = core
    · simp [Machine.take, heq] at hc
    · simp only [Machine.take, Function.update_of_ne heq] at hc ⊢
      exact h.drained c hc
  · simp only [Machine.take] at hc ⊢
    split at hc
    · by_cases heq : c = core
      · simp [heq] at hc
      · simp only [Function.update_of_ne heq] at hc
        exact h.idle c hc
    · exact h.idle c hc

/-! ## Every action keeps it -/

theorem not_works_of_idles (h : m.idles core = true) : m.works core = false := by
  have hactive : m.vault.activeThread core = some (.idle core) := of_decide_eq_true h
  unfold Machine.works
  rw [hactive]

/-- The idle thread may mask the timer of its core. -/
theorem Ticking.mask (h : Ticking m) (hidles : m.idles core = true) (masked : Bool) :
    Ticking { m with
      idle := Function.update m.idle core .halt
      masked := Function.update m.masked core masked } := by
  refine ⟨fun c hc => ?_, h.drained, fun c hc => ?_⟩
  · have hne : c ≠ core := by
      rintro rfl
      exact absurd (not_works_of_idles hidles ▸ hc) nofun
    simp only [Function.update_of_ne hne]
    exact h.works c hc
  · have hne : c ≠ core := by
      rintro rfl
      simp at hc
    simp only [Function.update_of_ne hne] at hc ⊢
    exact h.idle c hc

theorem Ticking.idleStep (h : Ticking m) (hidles : m.idles core = true)
    (hstep : m.idleStep core fuel = some m') : Ticking m' := by
  unfold Machine.idleStep at hstep
  dsimp only at hstep
  split at hstep
  · split at hstep
    · exact absurd hstep nofun
    · obtain rfl := Option.some.inj hstep
      exact h.goto core (by simp)
  · obtain rfl := Option.some.inj hstep
    refine h.goto core ?_
    split <;> simp
  · obtain rfl := Option.some.inj hstep
    exact (h.unmask core).goto core fun _ => by simp
  · next hpc =>
    obtain rfl := Option.some.inj hstep
    exact h.goto core fun _ => h.idle core (Or.inl hpc)
  · next hpc =>
    split at hstep
    · exact absurd hstep nofun
    · obtain rfl := Option.some.inj hstep
      exact (h.setLevel core true nofun).goto core fun _ => h.idle core (Or.inr (Or.inl hpc))
  · next hpc =>
    split at hstep
    · next v hresume =>
      obtain rfl := Option.some.inj hstep
      have hmask := h.idle core (Or.inr (Or.inr hpc))
      exact (h.operate (Vault.Frame.resume hresume) fun _ => Or.inl hmask).goto core (by simp)
    · exact absurd hstep nofun
  · obtain rfl := Option.some.inj hstep
    exact h.goto core (by simp)
  · obtain rfl := Option.some.inj hstep
    exact h.mask hidles _
  · obtain rfl := Option.some.inj hstep
    exact h.goto core (by simp)
  · exact absurd hstep nofun

/-- The epilogue that is run was the first one of the queue. -/
theorem Ticking.dequeue (h : Ticking m) {rest : List InterruptVector}
    (hqueue : m.epilogues core = vector :: rest) (hvector : vector ≠ .wakeup) :
    Ticking { m with epilogues := Function.update m.epilogues core rest } := by
  refine ⟨fun c hc => ?_, fun c hc => ?_, h.idle⟩
  · by_cases heq : c = core
    · subst heq
      have hold := h.works c hc
      rw [hqueue, List.mem_cons] at hold
      simpa [Ne.symm hvector] using hold
    · simpa [heq] using h.works c hc
  · by_cases heq : c = core
    · subst heq
      exact absurd (hqueue.symm.trans (h.drained c hc)) nofun
    · simpa [heq] using h.drained c hc

/-- A Wakeup unmasks the timer. -/
theorem Ticking.wakeup (h : Ticking m) {rest : List InterruptVector}
    (hqueue : m.epilogues core = .wakeup :: rest) :
    Ticking { m with
      epilogues := Function.update m.epilogues core rest
      masked := Function.update m.masked core false } := by
  refine ⟨fun c hc => ?_, fun c hc => ?_, (h.unmask core).idle⟩
  · by_cases heq : c = core
    · exact Or.inl (by simp [heq])
    · simpa [heq] using h.works c hc
  · by_cases heq : c = core
    · subst heq
      exact absurd (hqueue.symm.trans (h.drained c hc)) nofun
    · simpa [heq] using h.drained c hc

theorem keyboard_frame (v : Vault) (core : Nat) (keys : List Nat) :
    Vault.Frame v (keys.foldl (fun v _ => v.v core KEYS_AVAILABLE) v) core ∧
      (keys.foldl (fun v _ => v.v core KEYS_AVAILABLE) v).activeThread = v.activeThread := by
  induction keys generalizing v with
  | nil => exact ⟨Vault.Frame.refl .., rfl⟩
  | cons key keys ih =>
    obtain ⟨hframe, hsame⟩ := ih (v.v core KEYS_AVAILABLE)
    exact ⟨(Vault.Frame.release ..).trans hframe, hsame.trans (Vault.v_active ..)⟩

theorem ringBells_frame {v : Vault} (h : ringBells v core fuel = .ok v') :
    Vault.Frame v v' core := by
  unfold ringBells at h
  split at h
  · exact Vault.Frame.check h
  · obtain rfl := Except.ok.inj h
    exact Vault.Frame.refl ..

/-- What an epilogue does to the machine. -/
theorem runEpilogue_ok {keys : Nat} (h : m.runEpilogue core keys fuel vector = .ok m') :
    (vector = .timer ∨ vector = .assassin) ∧ (∃ v, Vault.Frame m.vault v core ∧
        m' = { m with vault := v }) ∨
      vector = .wakeup ∧ (∃ v, Vault.Frame m.vault v core ∧
        m' = { m with vault := v, masked := Function.update m.masked core false }) ∨
      vector = .keyboard ∧ ∃ v, Vault.Frame m.vault v core ∧
        v.activeThread = m.vault.activeThread ∧ m' = { m with vault := v } := by
  cases vector with
  | timer =>
    obtain ⟨w, hring, hrest⟩ := (bind_ok_iff _ _ _).1 h
    obtain ⟨v, hresume, hm⟩ := (bind_ok_iff _ _ _).1 hrest
    obtain rfl := Except.ok.inj hm
    exact Or.inl ⟨Or.inl rfl, v, (ringBells_frame hring).trans (Vault.Frame.resume hresume), rfl⟩
  | assassin =>
    obtain ⟨v, hresume, hm⟩ := (bind_ok_iff _ _ _).1 h
    obtain rfl := Except.ok.inj hm
    exact Or.inl ⟨Or.inr rfl, v, Vault.Frame.resume hresume, rfl⟩
  | wakeup =>
    obtain ⟨v, hresume, hm⟩ := (bind_ok_iff _ _ _).1 h
    obtain rfl := Except.ok.inj hm
    exact Or.inr (Or.inl ⟨rfl, v, Vault.Frame.resume hresume, rfl⟩)
  | keyboard =>
    obtain rfl := Except.ok.inj h
    obtain ⟨hframe, hsame⟩ := keyboard_frame m.vault core (List.range keys)
    exact Or.inr (Or.inr ⟨rfl, _, hframe, hsame, rfl⟩)

/-- A timer or Assassin epilogue that finds nothing leaves the idle thread alone. -/
theorem rests_of_runEpilogue {keys : Nat} (hrests : m.vault.Rests core)
    (hnone : m.vault.NoneReady) (hdue : vector = .timer → core = 0 → m.vault.bellringer.NoneDue)
    (hvector : vector = .timer ∨ vector = .assassin)
    (hrun : m.runEpilogue core keys fuel vector = .ok m') : m'.vault.Rests core := by
  rcases hvector with rfl | rfl
  · obtain ⟨w, hring, hrest⟩ := (bind_ok_iff _ _ _).1 hrun
    obtain ⟨v, hresume, hm⟩ := (bind_ok_iff _ _ _).1 hrest
    obtain rfl := Except.ok.inj hm
    obtain ⟨hnone', hrests'⟩ := hnone.ringBells hrests (hdue rfl) hring
    exact hnone'.resume hrests' hresume
  · obtain ⟨v, hresume, hm⟩ := (bind_ok_iff _ _ _).1 hrun
    obtain rfl := Except.ok.inj hm
    exact hnone.resume hrests hresume

theorem Ticking.epilogue (h : Ticking m) {keys : Nat} (hcalm : m.Undisturbed (.epilogue core keys))
    (hstep : m.step fuel (.epilogue core keys) = some m') : Ticking m' := by
  unfold Machine.step at hstep
  dsimp only at hstep
  split at hstep
  case isFalse => exact absurd hstep nofun
  split at hstep
  case h_1 => exact absurd hstep nofun
  case h_2 vector rest hqueue =>
  split at hstep
  case h_2 => exact absurd hstep nofun
  case h_1 m₁ hrun =>
  obtain rfl := Option.some.inj hstep
  rcases runEpilogue_ok hrun with ⟨hvector, v, hframe, rfl⟩ | ⟨rfl, v, hframe, rfl⟩ |
    ⟨rfl, v, hframe, hsame, rfl⟩
  · have hne : vector ≠ .wakeup := by rcases hvector with rfl | rfl <;> nofun
    refine (h.dequeue hqueue hne).operate hframe fun hworks => ?_
    -- the one place where a core with a masked timer can come to a thread
    by_contra hnot
    simp only [Function.update_self, not_or, Bool.not_eq_false, Bool.not_eq_true] at hnot
    obtain ⟨hmask, hpending, hrest⟩ := hnot
    obtain ⟨hnone, hdue⟩ := hcalm vector rest hqueue hvector hmask hpending hrest
    have hrests : m.vault.Rests core := by
      rw [← works_eq_false_iff, Bool.eq_false_iff]
      intro hbefore
      have hold := h.works core hbefore
      rw [hqueue, hmask, hpending, List.mem_cons] at hold
      simp [hrest, Ne.symm hne] at hold
    have hafter := rests_of_runEpilogue
      (m := { m with epilogues := Function.update m.epilogues core rest })
      hrests hnone hdue hvector hrun
    exact absurd ((works_eq_false_iff.2 hafter).symm.trans hworks) Bool.noConfusion
  · exact (h.wakeup hqueue).operate hframe fun _ => Or.inl (by simp)
  · exact (h.dequeue hqueue nofun).operate_same hframe (by rw [hsame])

theorem Ticking.step (h : Ticking m) {action : Action} (hcalm : m.Undisturbed action)
    (hstep : m.step fuel action = some m') : Ticking m' := by
  cases action with
  | boot thread =>
    simp only [Machine.step] at hstep
    split at hstep
    · obtain rfl := Option.some.inj hstep
      exact h.operate_same (Vault.Frame.ready _ 0 0 thread) (by rw [Vault.ready_activeThread])
    · exact absurd hstep nofun
  | start core =>
    simp only [Machine.step] at hstep
    split at hstep
    · split at hstep
      · next v hschedule =>
        obtain rfl := Option.some.inj hstep
        refine Ticking.setLevel (m := { m with vault := v, masked := _ }) ?_ core true nofun
        exact (h.unmask core).operate (Vault.Frame.schedule hschedule) fun _ => Or.inl (by simp)
      · exact absurd hstep nofun
    · exact absurd hstep nofun
  | tick core =>
    simp only [Machine.step] at hstep
    split at hstep
    · exact absurd hstep nofun
    · obtain rfl := Option.some.inj hstep
      exact h.operate_same (Vault.Frame.send _ core core .timer) rfl
  | press core =>
    obtain rfl := Option.some.inj hstep
    exact h.operate_same (Vault.Frame.send _ core core .keyboard) rfl
  | deliver core vector =>
    simp only [Machine.step] at hstep
    split at hstep
    · obtain rfl := Option.some.inj hstep
      exact h.take core vector
    · exact absurd hstep nofun
  | epilogue core keys => exact h.epilogue hcalm hstep
  | leave core =>
    simp only [Machine.step] at hstep
    split at hstep
    · next hleave =>
      obtain rfl := Option.some.inj hstep
      exact h.setLevel core false fun _ => by simpa using (Bool.and_eq_true_iff.1 hleave).2
    · exact absurd hstep nofun
  | enter core =>
    simp only [Machine.step] at hstep
    split at hstep
    · obtain rfl := Option.some.inj hstep
      exact h.setLevel core true nofun
    · exact absurd hstep nofun
  | operate core event =>
    simp only [Machine.step] at hstep
    split at hstep
    case isFalse => exact absurd hstep nofun
    case isTrue hcan =>
    split at hstep
    · next v hoperate =>
      obtain rfl := Option.some.inj hstep
      obtain ⟨hlevel, hissued⟩ := Bool.and_eq_true_iff.1 hcan
      exact h.operate (Vault.Frame.step hissued hoperate) fun _ =>
        h.works core (Bool.and_eq_true_iff.1 hlevel).2
    · exact absurd hstep nofun
  | idle core =>
    simp only [Machine.step] at hstep
    split at hstep
    · next hidles => exact h.idleStep hidles hstep
    · exact absurd hstep nofun

/-- In every run in which a timer or Assassin epilogue finds nothing to switch to on a core
whose timer is masked, unless a Wakeup is on its way, every core that runs a thread outside of the
epilogue level has its tick, or a Wakeup is pending for it. -/
theorem preemptible_of_undisturbed (cores : Nat) (counts : Nat → Nat) (fuel : Nat)
    (actions : List Action) (m : Machine)
    (hrun : Transition.run (step fuel) (initial cores counts) actions = some m)
    (hcalm : Transition.Along (step fuel) Undisturbed (initial cores counts) actions) :
    m.Preemptible := by
  have hticking : Ticking m := Transition.invariant_along
    (fun m action m' h hcalm hstep => h.step hcalm hstep) (ticking_initial cores counts) hcalm hrun
  intro core hlevel hworks
  rcases hticking.works core hworks with hmask | hpending | hqueued
  · exact Or.inl hmask
  · exact Or.inr hpending
  · rw [hticking.drained core hlevel] at hqueued
    exact absurd hqueued nofun

/-- The idle loop of the second core masks the timer while a tick is pending, and the tick
finds nothing to do.  Then `Main` makes a thread ready, and the Wakeup brings it onto the
core. -/
def idleTick : List Action :=
  [.start 1, .leave 1, .idle 1, .idle 1, .idle 1, .tick 1, .idle 1, .idle 1, .deliver 1 .timer,
    .epilogue 1 0, .leave 1, .boot (.task 0), .deliver 1 .wakeup, .epilogue 1 0, .leave 1]

/-- The next epilogue is a Wakeup, or it finds the ready queue empty and does not ring bells. -/
def plain (m : Machine) : Action → Bool
  | .epilogue core _ => m.epilogues core = [.wakeup] ∨ core ≠ 0 ∧ m.vault.readyQueue.head = none
  | _ => true

theorem undisturbed_of_plain (m : Machine) (action : Action) (h : m.plain action = true) :
    m.Undisturbed action := by
  cases action with
  | epilogue core keys =>
    intro vector rest hqueue hvector _ _ _
    rcases of_decide_eq_true h with hwakeup | ⟨hcore, hempty⟩
    · obtain rfl := (List.cons.inj (hqueue.symm.trans hwakeup)).1
      exact absurd hvector (by decide)
    · refine ⟨fun before number hpath => ?_, fun _ hzero => absurd hzero hcore⟩
      rw [hempty] at hpath
      cases before with
      | nil => cases (show none = some _ from hpath)
      | cons first before => cases hpath.1
  | _ => trivial

theorem preemptible_of_undisturbed_idleTick :
    ∃ m, Transition.run (step 4) (initial 2 fun _ => 0) idleTick = some m ∧ m.Preemptible ∧
      m.works 1 = true := by
  have hplain : Transition.Along (step 4) (fun m action => m.plain action = true)
      (initial 2 fun _ => 0) idleTick := by
    decide +kernel
  obtain ⟨m, hrun, hworks⟩ := (Option.any_eq_true _ _).1 (show
    (Transition.run (step 4) (initial 2 fun _ => 0) idleTick).any (fun m => m.works 1) = true by
      decide +kernel)
  exact ⟨m, hrun, preemptible_of_undisturbed 2 _ 4 _ m hrun (hplain.mono undisturbed_of_plain),
    hworks⟩

/-- A thread waits for a key on the only core.  The idle loop finds nothing to do and masks
the timer, but a tick is pending already.  The key makes the thread ready, and the tick
switches to it. -/
theorem stale_tick_runs_thread :
    ∃ m, Transition.run (step 4) (initial 1 fun _ => 0)
        [.boot (.task 0), .start 0, .leave 0, .enter 0, .operate 0 (.p 0 KEYS_AVAILABLE), .leave 0,
          .idle 0, .idle 0, .idle 0, .tick 0, .idle 0, .idle 0, .press 0, .deliver 0 .keyboard,
          .epilogue 0 1, .leave 0, .deliver 0 .timer, .epilogue 0 0, .leave 0] = some m ∧
      m.level 0 = false ∧ m.vault.activeThread 0 = some (.task 0) ∧ m.masked 0 = true ∧
      m.vault.pending 0 .wakeup = false ∧ ¬ m.Preemptible := by
  have hfacts : (Transition.run (step 4) (initial 1 fun _ => 0)
      [.boot (.task 0), .start 0, .leave 0, .enter 0, .operate 0 (.p 0 KEYS_AVAILABLE), .leave 0,
        .idle 0, .idle 0, .idle 0, .tick 0, .idle 0, .idle 0, .press 0, .deliver 0 .keyboard,
        .epilogue 0 1, .leave 0, .deliver 0 .timer, .epilogue 0 0, .leave 0]).map
      (fun m => (m.level 0, m.vault.activeThread 0, m.masked 0, m.vault.pending 0 .wakeup)) =
        some (false, some (.task 0), true, false) := by
    decide +kernel
  obtain ⟨m, hrun, hm⟩ := Option.map_eq_some_iff.1 hfacts
  simp only [Prod.mk.injEq] at hm
  obtain ⟨hlevel, hactive, hmask, hpending⟩ := hm
  refine ⟨m, hrun, ?_⟩
  refine ⟨hlevel, hactive, hmask, hpending, fun h => ?_⟩
  have hworks := h 0 hlevel (by unfold Machine.works; rw [hactive])
  rw [hmask, hpending] at hworks
  exact absurd hworks (by simp)

end Machine

end X64HK
