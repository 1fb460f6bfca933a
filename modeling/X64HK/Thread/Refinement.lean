import Mathlib.Data.List.Perm.Subperm
import X64HK.Thread.Roster

/-!
# The queues of the scheduler do what the roster says

The linked queues of `Vault` do what the lists of `Roster` do.  `Refines` ties the
queues, the counters and the bells to a roster.  The active threads are not part
of it, because an operation puts its thread into a queue before it switches away
from it.

* `getNext_spec` and `exit_spec` are the context switch, and `resume_spec`, `p_spec`,
  `v_spec`, `sleep_spec`, `check_spec` and `kill_spec` the other operations.
* `step_spec` puts them together.
-/

namespace X64HK

open IntrusiveQueue

namespace Vault

/-- The queues that share `Thread::m_QueueLink`: the ready queue, and one for each
semaphore. -/
def queues (v : Vault) : Option Nat → Queue Thread
  | none => v.readyQueue
  | some s => (v.semaphores s).waiting

end Vault

namespace Roster

def lists (r : Roster) : Option Nat → List Thread
  | none => r.ready
  | some s => r.waiting s

end Roster

/-- The queues, counters and bells are those of the roster. -/
structure Refines (v : Vault) (r : Roster) : Prop where
  family : Family v.link v.queues r.lists
  counter : ∀ s, (v.semaphores s).counter = r.counter s
  bells : ∃ alarms, Bellringer.Represents v.bellringer r.alarms alarms
  dying : v.dying = r.dying

namespace Refines

variable {v : Vault} {r : Roster} {thread : Thread} {core fuel : Nat}

theorem initial (cores : Nat) (counts : Nat → Nat) :
    Refines (Vault.initial cores counts) (Roster.initial counts) where
  family := by
    refine ⟨fun i => ?_, fun i _ _ x hx => ?_, fun _ _ => rfl⟩
    · cases i <;> exact holds_empty _
    · cases i <;> exact absurd hx nofun
  counter := fun _ => rfl
  bells := ⟨[], Bellringer.represents_empty⟩
  dying := rfl

/-! ## The ready queue -/

theorem update_queues_ready (v : Vault) (link : Links Thread) (queue : Queue Thread) :
    Function.update v.queues none queue = { v with link := link, readyQueue := queue }.queues := by
  funext i
  cases i <;> rfl

theorem update_lists_ready (r : Roster) (threads : List Thread) :
    Function.update r.lists none threads = { r with ready := threads }.lists := by
  funext i
  cases i <;> rfl

theorem appendReady (h : Refines v r) (hnew : ∀ i, thread ∉ r.lists i) :
    Refines (v.appendReady thread) (r.enqueue thread) := by
  obtain ⟨link, queue, happend, hfamily⟩ := h.family.append none hnew
  rw [update_queues_ready v link, update_lists_ready] at hfamily
  have heq : v.appendReady thread = { v with link := link, readyQueue := queue } := by
    unfold Vault.appendReady
    rw [show append v.link v.readyQueue thread = some (link, queue) from happend]
    rfl
  rw [heq]
  exact ⟨hfamily, h.counter, h.bells, h.dying⟩

/-- IPIs do not matter to the queues. -/
theorem send (h : Refines v r) (core : Nat) (vector : InterruptVector) :
    Refines (v.send core vector) r :=
  ⟨h.family, h.counter, h.bells, h.dying⟩

theorem ready (h : Refines v r) (hnew : ∀ i, thread ∉ r.lists i) (self : Nat) :
    Refines (v.ready self thread) (r.enqueue thread) := by
  unfold Vault.ready
  dsimp only
  split
  · exact h.appendReady hnew
  · exact (h.appendReady hnew).send _ _

theorem getNext_spec (h : Refines v r) (hfuel : r.ready.length < fuel) :
    ∃ v', v.getNext core fuel =
        .ok ((r.ready.dropWhile r.dying).head?.getD (.idle core), v') ∧
      Refines v' { r with ready := (r.ready.dropWhile r.dying).tail } ∧
      v'.activeThread = v.activeThread := by
  obtain ⟨threads, hthreads⟩ : ∃ threads, threads = r.ready := ⟨_, rfl⟩
  induction threads generalizing v r fuel with
  | nil =>
    match fuel with
    | 0 => exact absurd hfuel (Nat.not_lt_zero _)
    | fuel + 1 =>
      have hempty : dequeue v.link v.readyQueue = (none, v.link, v.readyQueue) :=
        dequeue_nil (hthreads ▸ h.family.holds none)
      refine ⟨v, ?_, ?_, rfl⟩
      · rw [Vault.getNext, hempty, ← hthreads]
        rfl
      · rw [← hthreads]
        refine ⟨?_, h.counter, h.bells, h.dying⟩
        rw [List.dropWhile_nil, List.tail_nil, hthreads]
        exact h.family
  | cons next rest ih =>
    match fuel with
    | 0 => exact absurd hfuel (Nat.not_lt_zero _)
    | fuel + 1 =>
      obtain ⟨link, queue, hdequeue, hfamily⟩ := h.family.dequeue (i := none) hthreads.symm
      rw [update_queues_ready v link, update_lists_ready] at hfamily
      have hrest : Refines { v with link := link, readyQueue := queue } { r with ready := rest } :=
        ⟨hfamily, h.counter, h.bells, h.dying⟩
      rw [Vault.getNext, show dequeue v.link v.readyQueue = _ from hdequeue, ← hthreads]
      dsimp only
      rw [show v.dying next = r.dying next by rw [h.dying]]
      cases hdying : r.dying next with
      | true =>
        rw [List.dropWhile_cons_of_pos hdying, if_pos rfl]
        rw [← hthreads] at hfuel
        exact ih hrest (Nat.lt_of_succ_lt_succ hfuel) rfl
      | false =>
        rw [List.dropWhile_cons_of_neg (by simp [hdying]), if_neg (by simp)]
        exact ⟨_, rfl, hrest, rfl⟩

end Refines

theorem Roster.takeNext_eq (r : Roster) (core : Nat) :
    r.takeNext core =
      { r with
        ready := (r.ready.dropWhile r.dying).tail
        active := Function.update r.active core
          (some ((r.ready.dropWhile r.dying).head?.getD (.idle core))) } := by
  unfold takeNext
  cases r.ready.dropWhile r.dying <;> rfl

namespace Refines

variable {v : Vault} {r : Roster} {thread : Thread} {core fuel : Nat}

/-- The active threads do not matter to the queues. -/
theorem activate (h : Refines v r) (active : Nat → Option Thread) (active' : Nat → Option Thread) :
    Refines { v with activeThread := active } { r with active := active' } :=
  ⟨h.family, h.counter, h.bells, h.dying⟩

theorem schedule_spec (h : Refines v r) (hactive : v.activeThread = r.active)
    (hfuel : r.ready.length < fuel) :
    ∃ v', v.schedule core fuel = .ok v' ∧ Refines v' (r.takeNext core) ∧
      v'.activeThread = (r.takeNext core).active := by
  obtain ⟨v', hnext, hrefines, hsame⟩ := h.getNext_spec hfuel
  rw [Roster.takeNext_eq]
  generalize (r.ready.dropWhile r.dying).head?.getD (.idle core) = next at hnext
  refine ⟨{ v' with activeThread := Function.update v'.activeThread core (some next) }, ?_,
    hrefines.activate _ _, ?_⟩
  · rw [Vault.schedule, hnext]
    rfl
  · show Function.update v'.activeThread core _ = _
    rw [hsame, hactive]

/-- The context switch.  The roster is one in which the thread of the core has
been put away. -/
theorem exit_spec (h : Refines v r) (hactive : v.activeThread core = some thread)
    (hsame : r.active = Function.update v.activeThread core none) (hfuel : r.ready.length < fuel) :
    ∃ v', v.exit core fuel = .ok v' ∧ Refines v' (r.takeNext core) ∧
      v'.activeThread = (r.takeNext core).active := by
  obtain ⟨v', hnext, hrefines, hsame'⟩ := h.getNext_spec hfuel
  rw [Roster.takeNext_eq]
  generalize (r.ready.dropWhile r.dying).head?.getD (.idle core) = next at hnext
  have hswitched : Function.update r.active core (some next) =
      Function.update v'.activeThread core (some next) := by
    rw [hsame, hsame', Function.update_idem]
  rw [Vault.exit, hnext]
  simp only [bind, Except.bind, Vault.dispatch, hsame', hactive]
  split
  · next heq =>
    refine ⟨v', rfl, hrefines.activate v'.activeThread _, ?_⟩
    rw [hswitched, ← heq, hsame', ← hactive, Function.update_eq_self]
  · refine ⟨_, rfl, hrefines.activate _ _, ?_⟩
    rw [hswitched, hsame']

end Refines

/-! ## The threads in the queues -/

namespace Roster

variable {r : Roster} {limbo : List Thread} {thread : Thread}

/-- A thread that is on its way is in none of the queues. -/
theorem Inv.notMem_lists (h : Inv r limbo) (hthread : thread ∈ limbo) (i : Option Nat) :
    thread ∉ r.lists i := by
  cases i with
  | none => exact (h.nowhere thread hthread).2 .ready
  | some s => exact (h.nowhere thread hthread).2 (.waiting s)

/-- Threads in one place are known, so that their number is bounded. -/
theorem Inv.length_le (h : Inv r limbo) (place : Place) (hqueue : ∀ core, place ≠ .active core)
    {threads : List Thread} (hnodup : threads.Nodup) (hplace : ∀ t ∈ threads, r.At t place) :
    threads.length ≤ r.known.length := by
  refine (hnodup.subperm fun t ht => ?_).length_le
  cases t with
  | idle core => exact absurd (h.idle core place (hplace _ ht)) (hqueue core)
  | task number => exact h.known number place (hplace _ ht)

theorem Inv.length_ready_le (h : Inv r limbo) : r.ready.length ≤ r.known.length :=
  h.length_le .ready nofun h.ready fun _ ht => ht

theorem foldl_enqueue (r : Roster) (threads : List Thread) :
    threads.foldl enqueue r = { r with ready := r.ready ++ threads } := by
  induction threads generalizing r with
  | nil => simp
  | cons t threads ih => simp [ih, enqueue]

end Roster

namespace Refines

variable {v : Vault} {r : Roster} {thread : Thread} {core fuel : Nat}

theorem length_bells_le {limbo : List Thread} (hinv : r.Inv limbo)
    {alarms : List (Thread × Nat)} (hbells : Bellringer.Represents v.bellringer r.alarms alarms) :
    alarms.length ≤ r.known.length := by
  rw [← List.length_map Prod.fst]
  exact hinv.length_le .sleeping nofun hbells.holds.nodup fun t ht => (hbells.owner_mem_iff t).1 ht

/-! ## The operations -/

/-- The thread of a core leaves it.  Neither the queues nor the core know yet. -/
theorem leave (h : Refines v r) (core : Nat) : Refines v (r.leave core) :=
  ⟨h.family, h.counter, h.bells, h.dying⟩

theorem retire (h : Refines v r) (thread : Thread) : Refines v (r.retire thread) :=
  ⟨h.family, h.counter, h.bells, h.dying⟩

/-- An operation that ends with a context switch. -/
theorem switch_spec (hactive : v.activeThread = r.active) (hcurrent : r.active core = some thread)
    {away : Roster → Thread → Roster} {v₁ : Vault} (haway : Refines v₁ (away (r.leave core) thread))
    (hsame : (away (r.leave core) thread).active = (r.leave core).active)
    (hsame₁ : v₁.activeThread = v.activeThread)
    (hfuel : (away (r.leave core) thread).ready.length < fuel) :
    ∃ v', v₁.exit core fuel = .ok v' ∧ Refines v' (r.switch core away) ∧
      v'.activeThread = (r.switch core away).active := by
  unfold Roster.switch
  rw [hcurrent]
  refine haway.exit_spec (by rw [hsame₁, hactive, hcurrent]) ?_ hfuel
  rw [hsame, hsame₁, hactive]
  rfl

theorem resume_eq {requeue : Bool} (hcurrent : v.activeThread core = some thread) :
    v.resume core requeue fuel =
      (if requeue && !v.dying thread && thread ≠ .idle core then v.appendReady thread
        else v).exit core fuel := by
  unfold Vault.resume
  rw [hcurrent]
  rfl

theorem resume_spec (h : Refines v r) (hinv : r.Inv []) (hactive : v.activeThread = r.active)
    {requeue : Bool} (hcurrent : r.active core = some thread)
    (htask : requeue = false → ∃ number, thread = .task number) (hfuel : r.known.length < fuel) :
    ∃ v', v.resume core requeue fuel = .ok v' ∧
      Refines v' (r.switch core fun r current => r.park core requeue current) ∧
      v'.activeThread = (r.switch core fun r current => r.park core requeue current).active := by
  have hlength := hinv.length_ready_le
  rw [resume_eq (hactive ▸ hcurrent), h.dying]
  cases requeue with
  | false =>
    exact switch_spec hactive hcurrent ((h.leave core).retire thread) rfl rfl
      (Nat.lt_of_le_of_lt hlength hfuel)
  | true =>
    by_cases hstays : (!r.dying thread && decide (thread ≠ .idle core)) = true
    · obtain ⟨number, rfl⟩ : ∃ number, thread = .task number := by
        cases thread with
        | task number => exact ⟨number, rfl⟩
        | idle c =>
          obtain rfl : core = c := Place.active.inj (hinv.idle c (.active core) hcurrent)
          simp at hstays
      have hleft := hinv.leave hcurrent
      have hpark : (r.leave core).park core true (.task number) =
          (r.leave core).enqueue (.task number) := by
        simp only [Roster.park, if_true]
        exact if_pos hstays
      rw [if_pos (by simpa using hstays)]
      refine switch_spec hactive hcurrent ?_ (Roster.park_active ..) rfl ?_
      · rw [hpark]
        exact (h.leave core).appendReady (hleft.notMem_lists (List.mem_cons_self ..))
      · rw [hpark]
        exact Nat.lt_of_le_of_lt hleft.enqueue.length_ready_le hfuel
    · have hpark : (r.leave core).park core true thread = r.leave core := by
        simp only [Roster.park, if_true]
        exact if_neg hstays
      rw [if_neg (by simpa using hstays)]
      refine switch_spec hactive hcurrent ?_ (Roster.park_active ..) rfl ?_
      · rw [hpark]
        exact h.leave core
      · rw [hpark]
        exact Nat.lt_of_le_of_lt hlength hfuel

theorem kill_spec (h : Refines v r) (hfuel : r.ready.length ≤ fuel) (t : Thread) :
    Refines (v.kill t fuel)
        { r with dying := Function.update r.dying t true, ready := r.ready.erase t } ∧
      (v.kill t fuel).activeThread = v.activeThread := by
  have hmarked : Function.update v.dying t true = Function.update r.dying t true := by rw [h.dying]
  unfold Vault.kill
  dsimp only
  by_cases hmem : t ∈ r.ready
  · obtain ⟨link, queue, hremove, hfamily⟩ := h.family.remove (i := none) hmem hfuel
    rw [update_queues_ready v link, update_lists_ready] at hfamily
    rw [show remove fuel v.link v.readyQueue t = some (link, queue) from hremove]
    exact ⟨⟨hfamily, h.counter, h.bells, hmarked⟩, rfl⟩
  · rw [show remove fuel v.link v.readyQueue t = none from
      remove_eq_none (h.family.holds none) hmem _, List.erase_of_not_mem hmem]
    have hrefines : Refines { v with dying := Function.update v.dying t true }
        { r with dying := Function.update r.dying t true } :=
      ⟨h.family, h.counter, h.bells, hmarked⟩
    dsimp only
    split
    · exact ⟨hrefines, rfl⟩
    · exact ⟨hrefines.send _ _, rfl⟩

/-! ## Semaphores -/

theorem update_queues_waiting (v : Vault) (link : Links Thread) (s : Nat) (semaphore : Semaphore) :
    Function.update v.queues (some s) semaphore.waiting =
      { v with link := link, semaphores := Function.update v.semaphores s semaphore }.queues := by
  funext i
  cases i with
  | none => rfl
  | some s' =>
    by_cases hs : s' = s
    · subst hs
      simp [Vault.queues]
    · simp [Vault.queues, hs]

theorem update_lists_waiting (r : Roster) (s : Nat) (threads : List Thread) :
    Function.update r.lists (some s) threads =
      { r with waiting := Function.update r.waiting s threads }.lists := by
  funext i
  cases i with
  | none => rfl
  | some s' =>
    by_cases hs : s' = s
    · subst hs
      simp [Roster.lists]
    · simp [Roster.lists, hs]

theorem counter_update (h : Refines v r) (s : Nat) {semaphore : Semaphore} {count : Nat}
    (hcount : semaphore.counter = count) (s' : Nat) :
    (Function.update v.semaphores s semaphore s').counter =
      Function.update r.counter s count s' := by
  by_cases hs : s' = s
  · subst hs
    simp [hcount]
  · simp [hs, h.counter]

/-- Only the counter of a semaphore changes. -/
theorem count (h : Refines v r) (s count : Nat) :
    Refines
      { v with
        semaphores := Function.update v.semaphores s { v.semaphores s with counter := count } }
      { r with counter := Function.update r.counter s count } := by
  refine ⟨?_, h.counter_update s rfl, h.bells, h.dying⟩
  have hsame := update_queues_waiting v v.link s { v.semaphores s with counter := count }
  rw [show Function.update v.queues (some s) (v.semaphores s).waiting = v.queues from
    Function.update_eq_self ..] at hsame
  exact hsame ▸ h.family

theorem p_spec (h : Refines v r) (hinv : r.Inv []) (hactive : v.activeThread = r.active)
    {number : Nat} (hcurrent : r.active core = some (.task number)) (s : Nat)
    (hfuel : r.known.length < fuel) :
    ∃ v', v.p core s fuel = .ok v' ∧ Refines v' (r.step (.p core s)) ∧
      v'.activeThread = (r.step (.p core s)).active := by
  have hcounter := h.counter s
  simp only [Vault.p, Roster.step, hcounter]
  by_cases hcount : r.counter s > 0
  · simp only [if_pos hcount]
    exact ⟨_, rfl, hcounter ▸ h.count s _, hactive⟩
  · have hleft := hinv.leave hcurrent
    obtain ⟨link, queue, happend, hfamily⟩ := (h.leave core).family.append (some s)
      (hleft.notMem_lists (List.mem_cons_self ..))
    simp only [if_neg hcount, hactive ▸ hcurrent,
      show append v.link (v.semaphores s).waiting (.task number) = some (link, queue) from happend,
      Option.getD_some]
    rw [update_queues_waiting v link s ⟨r.counter s, queue⟩, update_lists_waiting] at hfamily
    rw [resume_eq (by exact hactive ▸ hcurrent), if_neg (by simp)]
    refine switch_spec hactive hcurrent ⟨hfamily, fun s' => ?_, h.bells, h.dying⟩ rfl rfl ?_
    · have hsame := @counter_update v r h s ⟨r.counter s, queue⟩ _ rfl s'
      rwa [Function.update_eq_self] at hsame
    · exact Nat.lt_of_le_of_lt (hleft.wait s).length_ready_le hfuel

theorem v_spec (h : Refines v r) (hinv : r.Inv []) (core s : Nat) :
    Refines (v.v core s) (r.step (.v core s)) ∧ (v.v core s).activeThread = v.activeThread := by
  have hcounter := h.counter s
  simp only [Vault.v, Roster.step, hcounter]
  cases hwaiting : r.waiting s with
  | nil =>
    have hempty : dequeue v.link (v.semaphores s).waiting =
        (none, v.link, (v.semaphores s).waiting) :=
      dequeue_nil (hwaiting ▸ h.family.holds (some s))
    simp only [hempty]
    exact ⟨h.count s _, trivial⟩
  | cons waiter rest =>
    obtain ⟨link, queue, hdequeue, hfamily⟩ := h.family.dequeue (i := some s) hwaiting
    simp only [show dequeue v.link (v.semaphores s).waiting = (some waiter, link, queue) from
      hdequeue]
    rw [update_queues_waiting v link s ⟨r.counter s, queue⟩, update_lists_waiting] at hfamily
    have hreleased : Refines
        { v with
          link := link
          semaphores := Function.update v.semaphores s ⟨r.counter s, queue⟩ }
        { r with waiting := Function.update r.waiting s rest } := by
      refine ⟨hfamily, fun s' => ?_, h.bells, h.dying⟩
      have hsame := @counter_update v r h s ⟨r.counter s, queue⟩ _ rfl s'
      rwa [Function.update_eq_self] at hsame
    have hnew := (hinv.release hwaiting).notMem_lists (List.mem_cons_self ..)
    exact ⟨hreleased.ready hnew core, Vault.ready_activeThread ..⟩

/-! ## Bells -/

theorem sleep_spec (h : Refines v r) (hinv : r.Inv []) (hactive : v.activeThread = r.active)
    {number : Nat} (hcurrent : r.active core = some (.task number)) {milliseconds : Nat}
    (hlt : milliseconds < 2 ^ 32) (hfuel : r.known.length < fuel) :
    ∃ v', v.sleep core milliseconds fuel = .ok v' ∧ Refines v' (r.step (.sleep core milliseconds)) ∧
      v'.activeThread = (r.step (.sleep core milliseconds)).active := by
  simp only [Vault.sleep, Roster.step]
  by_cases hzero : milliseconds = 0
  · simp only [if_pos hzero]
    exact ⟨v, rfl, h, hactive⟩
  · obtain ⟨alarms, hbells⟩ := h.bells
    have hleft := hinv.leave hcurrent
    have hawake : .task number ∉ alarms.map Prod.fst := by
      rw [hbells.owner_mem_iff]
      exact (hleft.nowhere _ (List.mem_cons_self ..)).2 .sleeping
    have hlength := length_bells_le hinv hbells
    obtain ⟨bellringer, alarms', hsleep, hbells', _⟩ := Bellringer.sleep_spec hbells hawake
      (Nat.pos_of_ne_zero hzero) hlt (Nat.le_trans hlength (Nat.le_of_lt hfuel))
    simp only [if_neg hzero, hactive ▸ hcurrent, hsleep, bind, Except.bind]
    obtain ⟨v₁, hv₁⟩ : ∃ v₁ : Vault, v₁ =
      if (v.bellringer.bells.head.isNone && { v with bellringer := bellringer }.isIdle 0) = true
      then { v with bellringer := bellringer }.send 0 .wakeup
      else { v with bellringer := bellringer } := ⟨_, rfl⟩
    have hasleep : Refines v₁ ((r.leave core).sleep (.task number) milliseconds) ∧
        v₁.activeThread = v.activeThread := by
      have hrung : Refines { v with bellringer := bellringer }
          ((r.leave core).sleep (.task number) milliseconds) :=
        ⟨h.family, h.counter, ⟨alarms', hbells'⟩, h.dying⟩
      rw [hv₁]
      split
      · exact ⟨hrung.send 0 .wakeup, rfl⟩
      · exact ⟨hrung, rfl⟩
    rw [← hv₁, resume_eq (by rw [hasleep.2, hactive, hcurrent]), if_neg (by simp)]
    exact switch_spec hactive hcurrent hasleep.1 rfl hasleep.2
      (Nat.lt_of_le_of_lt (hleft.sleep milliseconds).length_ready_le hfuel)

theorem readyAll (h : Refines v r) {threads : List Thread} (hinv : r.Inv threads) (core : Nat) :
    Refines (threads.foldl (fun v t => v.ready core t) v) (threads.foldl Roster.enqueue r) ∧
      (threads.foldl (fun v t => v.ready core t) v).activeThread = v.activeThread := by
  induction threads generalizing v r with
  | nil => exact ⟨h, rfl⟩
  | cons t threads ih =>
    obtain ⟨hrefines, hactive⟩ := ih
      (h.ready (hinv.notMem_lists (List.mem_cons_self ..)) core) hinv.enqueue
    exact ⟨hrefines, hactive.trans (Vault.ready_activeThread ..)⟩

theorem check_spec (h : Refines v r) (hinv : r.Inv []) (hfuel : r.known.length < fuel) :
    ∃ v', v.check core fuel = .ok v' ∧ Refines v' (r.step (.check core)) ∧
      v'.activeThread = v.activeThread := by
  obtain ⟨alarms, hbells⟩ := h.bells
  have hlength := length_bells_le hinv hbells
  obtain ⟨bellringer, hcheck, hbells'⟩ := Bellringer.check_spec hbells
    (Nat.lt_of_le_of_lt hlength hfuel)
  have hrung : Refines { v with bellringer := bellringer } { r with alarms := r.alarms.check } :=
    ⟨h.family, h.counter, ⟨_, hbells'⟩, h.dying⟩
  have hawake := hinv.awaken
  rw [List.append_nil] at hawake
  obtain ⟨hrefines, hactive⟩ := hrung.readyAll hawake core
  refine ⟨_, ?_, hrefines, hactive⟩
  rw [Vault.check, hcheck]
  rfl

/-! ## Any operation -/

/-- Every operation that is allowed does to the queues what it does to the
roster. -/
theorem step_spec (h : Refines v r) (hinv : r.Inv []) (hactive : v.activeThread = r.active)
    {event : SchedulerEvent} (hallowed : r.Allowed event) (hfuel : r.known.length < fuel) :
    ∃ v', v.step fuel event = .ok v' ∧ Refines v' (r.step event) ∧
      v'.activeThread = (r.step event).active := by
  have hlength := Nat.lt_of_le_of_lt hinv.length_ready_le hfuel
  cases event with
  | schedule core => exact h.schedule_spec hactive hlength
  | ready core t =>
    have hmet := hinv.meet hallowed.1 hallowed.2
    have hknown : Refines v { r with known := t :: r.known } :=
      ⟨h.family, h.counter, h.bells, h.dying⟩
    exact ⟨_, rfl, hknown.ready (hmet.notMem_lists (List.mem_cons_self ..)) core,
      (Vault.ready_activeThread ..).trans hactive⟩
  | resume core requeue =>
    obtain ⟨current, hcurrent, htask⟩ := hallowed
    exact h.resume_spec hinv hactive hcurrent htask hfuel
  | exit core =>
    obtain ⟨number, hcurrent⟩ := hallowed
    exact switch_spec hactive hcurrent ((h.leave core).retire _) rfl rfl hlength
  | kill t =>
    obtain ⟨hrefines, hsame⟩ := h.kill_spec (Nat.le_of_lt hlength) t
    exact ⟨_, rfl, hrefines, hsame.trans hactive⟩
  | p core s =>
    obtain ⟨number, hcurrent⟩ := hallowed
    exact h.p_spec hinv hactive hcurrent s hfuel
  | v core s =>
    obtain ⟨hrefines, hsame⟩ := h.v_spec hinv core s
    refine ⟨_, rfl, hrefines, hsame.trans (hactive.trans ?_)⟩
    simp only [Roster.step]
    split <;> rfl
  | sleep core milliseconds =>
    obtain ⟨⟨number, hcurrent⟩, hlt⟩ := hallowed
    exact h.sleep_spec hinv hactive hcurrent hlt hfuel
  | check core =>
    obtain ⟨v', hcheck, hrefines, hsame⟩ := @check_spec v r core fuel h hinv hfuel
    refine ⟨v', hcheck, hrefines, hsame.trans (hactive.trans ?_)⟩
    show r.active = (r.alarms.due.foldl Roster.enqueue { r with alarms := r.alarms.check }).active
    rw [Roster.foldl_enqueue]

end Refines

end X64HK
