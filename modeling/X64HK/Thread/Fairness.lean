import X64HK.Thread.SchedulerRuns

/-!
# Who waits, and for how long

The ready queue is one for all cores, and a thread only ever joins it at its end.
`Kill` and the dying threads that `GetNext` skips take threads out of it.  So a
ready thread moves up with every `GetNext`, whichever core calls it.  The wait queue
of a semaphore moves up with every `V`, and with nothing else.

* `Roster.step_counter` and `Roster.step_waiting` say what an operation does to a
  semaphore.
* `Roster.step_behind` is one operation seen from a thread in the ready queue, and
  `ready_thread_runs` is a run: the thread is active after as many calls of `GetNext`
  as there are threads ahead of it, and one more.
* `Roster.step_queued` is one operation seen from a semaphore, and
  `semaphore_wakes_in_order` is a run: the `V`s wake the waiters in the order of
  their `P`s.
-/

namespace X64HK

open IntrusiveQueue

/-- The operation calls `GetNext`.  A `P` does so when it finds no token. -/
def SchedulerEvent.callsGetNext (counter : Nat → Nat) : SchedulerEvent → Bool
  | .schedule _ | .resume _ _ | .exit _ => true
  | .p _ s => counter s = 0
  | .sleep _ milliseconds => milliseconds ≠ 0
  | .ready _ _ | .kill _ | .v _ _ | .check _ => false

/-- The operation is a `V` of the semaphore. -/
def SchedulerEvent.isV (s : Nat) : SchedulerEvent → Bool
  | .v _ s' => s' = s
  | _ => false

variable {event : SchedulerEvent} {s : Nat}

namespace Roster

variable {r : Roster} {thread : Thread} {core : Nat} {ahead : List Thread}

/-! ## What an operation does to a semaphore -/

@[simp] theorem takeNext_counter (r : Roster) (core : Nat) :
    (r.takeNext core).counter = r.counter := by
  rw [takeNext_eq]

@[simp] theorem takeNext_waiting (r : Roster) (core : Nat) :
    (r.takeNext core).waiting = r.waiting := by
  rw [takeNext_eq]

/-- The counter of a semaphore and the threads that wait there. -/
def semaphore (s : Nat) (r : Roster) : Nat × List Thread := (r.counter s, r.waiting s)

/-- The operation is neither a `P` nor a `V` of the semaphore. -/
def Spares (s : Nat) : SchedulerEvent → Prop
  | .p _ s' | .v _ s' => s' ≠ s
  | _ => True

/-- Only `P` and `V` change a semaphore. -/
theorem step_of_spares (h : Spares s event) : semaphore s (r.step event) = semaphore s r := by
  have htake : ∀ core (r : Roster), semaphore s (r.takeNext core) = semaphore s r := by
    intro core r
    rw [takeNext_eq]
    rfl
  cases event with
  | p core s' =>
    simp only [step]
    split
    · exact Prod.ext (Function.update_of_ne (Ne.symm h) ..) rfl
    · exact switch_keeps _ (htake core) fun _ => Prod.ext rfl (Function.update_of_ne (Ne.symm h) ..)
  | v core s' =>
    simp only [step]
    split
    · exact Prod.ext (Function.update_of_ne (Ne.symm h) ..) rfl
    · exact Prod.ext rfl (Function.update_of_ne (Ne.symm h) ..)
  | schedule core => exact htake core r
  | resume core requeue =>
    refine switch_keeps _ (htake core) fun t => ?_
    unfold park
    split
    · split <;> rfl
    · rfl
  | exit core => exact switch_keeps _ (htake core) fun _ => rfl
  | sleep core milliseconds =>
    simp only [step]
    split
    · rfl
    · exact switch_keeps _ (htake core) fun _ => rfl
  | check core =>
    simp only [step, foldl_enqueue]
    rfl
  | ready core t => rfl
  | kill t => rfl

theorem step_waiting_of_spares (h : Spares s event) : (r.step event).waiting s = r.waiting s :=
  (Prod.mk.inj (step_of_spares h)).2

theorem step_counter_of_spares (h : Spares s event) : (r.step event).counter s = r.counter s :=
  (Prod.mk.inj (step_of_spares h)).1

theorem step_counter (r : Roster) (event : SchedulerEvent) (s : Nat) :
    (r.step event).counter s = match event with
      | .p _ s' => if s' = s ∧ r.counter s > 0 then r.counter s - 1 else r.counter s
      | .v _ s' =>
        if s' = s ∧ r.waiting s = [] then (r.counter s + 1) % 2 ^ 32 else r.counter s
      | _ => r.counter s := by
  by_cases hspares : Spares s event
  · rw [step_counter_of_spares hspares]
    cases event with
    | p core s' => exact (if_neg fun hsame => hspares hsame.1).symm
    | v core s' => exact (if_neg fun hsame => hspares hsame.1).symm
    | _ => rfl
  · cases event with
    | p core s' =>
      obtain rfl : s' = s := not_not.1 hspares
      by_cases hcount : r.counter s' > 0
      · simp [step, hcount]
      · have hsame : (r.switch core fun r t => r.wait s' t).counter = r.counter :=
          switch_keeps counter (takeNext_counter · core) fun _ => rfl
        simp only [step, hcount, hsame, and_false, if_false]
    | v core s' =>
      obtain rfl : s' = s := not_not.1 hspares
      cases hwaiting : r.waiting s' with
      | nil => simp [step, hwaiting]
      | cons waiter rest => simp [step, hwaiting, enqueue]
    | _ => exact absurd trivial hspares

/-- A `P` that finds no token makes its thread wait. -/
theorem step_p_waiting {t : Thread} (hcount : r.counter s = 0) (hactive : r.active core = some t) :
    (r.step (.p core s)).waiting s = r.waiting s ++ [t] := by
  simp only [step, hcount, Nat.lt_irrefl, if_false, switch, hactive, takeNext_waiting]
  exact Function.update_self ..

theorem step_p_counter (hcount : 0 < r.counter s) :
    r.step (.p core s) = { r with counter := Function.update r.counter s (r.counter s - 1) } := by
  rw [step, if_pos hcount]

theorem step_v_nil (hwaiting : r.waiting s = []) :
    r.step (.v core s) =
      { r with counter := Function.update r.counter s ((r.counter s + 1) % 2 ^ 32) } := by
  simp only [step, hwaiting]

theorem step_v_cons {waiter : Thread} {rest : List Thread}
    (hwaiting : r.waiting s = waiter :: rest) :
    r.step (.v core s) = { r with waiting := Function.update r.waiting s rest }.enqueue waiter := by
  simp only [step, hwaiting]

/-- Only a `P` that finds no token makes a thread wait. -/
theorem step_waiting {t : Thread} (h : t ∈ (r.step event).waiting s) :
    t ∈ r.waiting s ∨ ∃ core, event = .p core s ∧ r.counter s = 0 ∧ r.active core = some t := by
  by_cases hspares : Spares s event
  · exact Or.inl (step_waiting_of_spares hspares ▸ h)
  · cases event with
    | p core s' =>
      obtain rfl : s' = s := not_not.1 hspares
      by_cases hcount : r.counter s' > 0
      · simp only [step, if_pos hcount] at h
        exact Or.inl h
      · cases hactive : r.active core with
        | none =>
          simp only [step, if_neg hcount, switch, hactive] at h
          exact Or.inl h
        | some current =>
          rw [step_p_waiting (by omega) hactive, List.mem_append, List.mem_singleton] at h
          refine h.imp_right fun heq => ⟨core, rfl, by omega, ?_⟩
          rw [hactive, heq]
    | v core s' =>
      obtain rfl : s' = s := not_not.1 hspares
      simp only [step] at h
      split at h
      · exact Or.inl h
      · next waiter rest hwaiting =>
        simp only [enqueue, Function.update_self] at h
        rw [hwaiting]
        exact Or.inl (List.mem_cons_of_mem waiter h)
    | _ => exact absurd trivial hspares

/-! ## The ready queue -/

/-- The thread is ready, and the threads `ahead` are before it. -/
def Behind (r : Roster) (thread : Thread) (ahead : List Thread) : Prop :=
  ∃ behind, r.ready = ahead ++ thread :: behind

/-- The thread runs, or it has moved up by `count` places at least. -/
def MovedUp (r : Roster) (thread : Thread) (ahead : List Thread) (count : Nat) : Prop :=
  (∃ core, r.active core = some thread) ∨
    ∃ ahead', r.Behind thread ahead' ∧ ahead'.length + count ≤ ahead.length

theorem Behind.of_append (h : r.Behind thread ahead) {r' : Roster} {more : List Thread}
    (hready : r'.ready = r.ready ++ more) : r'.Behind thread ahead := by
  obtain ⟨behind, hbehind⟩ := h
  exact ⟨behind ++ more, by rw [hready, hbehind, List.append_assoc, List.cons_append]⟩

theorem Behind.stays (h : r.Behind thread ahead) : r.MovedUp thread ahead 0 :=
  Or.inr ⟨ahead, h, Nat.le_refl _⟩

/-- `GetNext` takes the thread, or one ahead of it. -/
theorem Behind.takeNext (h : r.Behind thread ahead) (halive : r.dying thread = false) :
    (r.takeNext core).MovedUp thread ahead 1 := by
  obtain ⟨behind, hready⟩ := h
  have hself : (thread :: behind).dropWhile r.dying = thread :: behind :=
    List.dropWhile_cons_of_neg (by simp [halive])
  rw [takeNext_eq, hready, List.dropWhile_append, hself]
  cases hdrop : ahead.dropWhile r.dying with
  | nil => exact Or.inl ⟨core, Function.update_self ..⟩
  | cons next ahead' =>
    have hshorter := (List.dropWhile_sublist (l := ahead) r.dying).length_le
    rw [hdrop] at hshorter
    exact Or.inr ⟨ahead', ⟨behind, rfl⟩, hshorter⟩

/-- A context switch calls `GetNext` after it has put the old thread away. -/
theorem Behind.switch (h : r.Behind thread ahead) (halive : r.dying thread = false)
    {current : Thread} (hactive : r.active core = some current) (away : Roster → Thread → Roster)
    {more : List Thread} (hready : (away (r.leave core) current).ready = r.ready ++ more)
    (hdying : (away (r.leave core) current).dying = r.dying) :
    (r.switch core away).MovedUp thread ahead 1 := by
  unfold Roster.switch
  rw [hactive]
  exact (h.of_append hready).takeNext (hdying ▸ halive)

theorem park_ready_eq (r : Roster) (core : Nat) (requeue : Bool) (current : Thread) :
    ∃ more, (r.park core requeue current).ready = r.ready ++ more := by
  unfold park
  split
  · split
    · exact ⟨[current], rfl⟩
    · exact ⟨[], (List.append_nil _).symm⟩
  · exact ⟨[], (List.append_nil _).symm⟩

/-- A thread ahead that is killed leaves the queue. -/
theorem Behind.kill (h : r.Behind thread ahead) {other : Thread} (hne : other ≠ thread) :
    (r.step (.kill other)).MovedUp thread ahead 0 := by
  obtain ⟨behind, hready⟩ := h
  by_cases hmem : other ∈ ahead
  · refine Or.inr ⟨ahead.erase other, ⟨behind, ?_⟩, (List.erase_sublist ..).length_le⟩
    show r.ready.erase other = _
    rw [hready, List.erase_append_left _ hmem]
  · refine Or.inr ⟨ahead, ⟨behind.erase other, ?_⟩, Nat.le_refl _⟩
    show r.ready.erase other = _
    rw [hready, List.erase_append_right _ hmem, List.erase_cons_tail (by simp [Ne.symm hne])]

/-- A ready thread moves up with every call of `GetNext`, and never back. -/
theorem step_behind (h : r.Behind thread ahead) (halive : r.dying thread = false)
    (hallowed : r.Allowed event) (hkill : event ≠ .kill thread) :
    (r.step event).MovedUp thread ahead (event.callsGetNext r.counter).toNat := by
  have hnone : ∀ rs : List Thread, rs = rs ++ [] := fun rs => (List.append_nil rs).symm
  cases event with
  | schedule core => exact h.takeNext halive
  | ready core other => exact (h.of_append rfl).stays
  | resume core requeue =>
    obtain ⟨current, hactive, _⟩ := hallowed
    obtain ⟨more, hmore⟩ := park_ready_eq (r.leave core) core requeue current
    exact h.switch halive hactive _ hmore (park_history (r.leave core) core requeue current).2
  | exit core =>
    obtain ⟨number, hactive⟩ := hallowed
    exact h.switch halive hactive _ (hnone _) rfl
  | kill other => exact h.kill fun heq => hkill (heq ▸ rfl)
  | p core s =>
    obtain ⟨number, hactive⟩ := hallowed
    by_cases hcount : r.counter s > 0
    · have hno : SchedulerEvent.callsGetNext r.counter (.p core s) = false :=
        decide_eq_false (Nat.ne_of_gt hcount)
      rw [step_p_counter hcount, hno]
      exact Behind.stays (r := { r with counter := _ }) h
    · have hyes : SchedulerEvent.callsGetNext r.counter (.p core s) = true :=
        decide_eq_true (Nat.eq_zero_of_not_pos hcount)
      rw [step, if_neg hcount, hyes]
      exact h.switch halive hactive (fun r current => r.wait s current) (hnone _) rfl
  | v core s =>
    simp only [step]
    split
    · exact h.stays
    · exact (h.of_append rfl).stays
  | sleep core milliseconds =>
    obtain ⟨⟨number, hactive⟩, _⟩ := hallowed
    by_cases hzero : milliseconds = 0
    · have hno : SchedulerEvent.callsGetNext r.counter (.sleep core milliseconds) = false :=
        decide_eq_false (not_not.2 hzero)
      rw [step, if_pos hzero, hno]
      exact h.stays
    · have hyes : SchedulerEvent.callsGetNext r.counter (.sleep core milliseconds) = true :=
        decide_eq_true hzero
      rw [step, if_neg hzero, hyes]
      exact h.switch halive hactive (fun r current => r.sleep current milliseconds) (hnone _) rfl
  | check core =>
    simp only [step, foldl_enqueue]
    exact (h.of_append rfl).stays

/-! ## The wait queues -/

/-- Only a `V` takes a waiter, and it takes the first one.  A `P` adds one at the
end at most. -/
theorem step_queued (event : SchedulerEvent) :
    ∃ more, (r.step event).waiting s = (r.waiting s).drop (event.isV s).toNat ++ more := by
  have hkeep : Spares s event → event.isV s = false →
      ∃ more, (r.step event).waiting s = (r.waiting s).drop (event.isV s).toNat ++ more := by
    intro hspares hno
    refine ⟨[], ?_⟩
    rw [step_waiting_of_spares hspares, hno, Bool.toNat_false, List.drop_zero, List.append_nil]
  cases event with
  | p core s' =>
    by_cases hs : s' = s
    · subst hs
      have hno : SchedulerEvent.isV s' (.p core s') = false := rfl
      rw [hno, Bool.toNat_false, List.drop_zero]
      by_cases hcount : 0 < r.counter s'
      · exact ⟨[], by rw [step_p_counter hcount, List.append_nil]⟩
      · cases hactive : r.active core with
        | none =>
          refine ⟨[], ?_⟩
          rw [step, if_neg hcount, switch, hactive, List.append_nil]
        | some current => exact ⟨[current], step_p_waiting (Nat.eq_zero_of_not_pos hcount) hactive⟩
    · exact hkeep hs rfl
  | v core s' =>
    by_cases hs : s' = s
    · subst hs
      have hyes : SchedulerEvent.isV s' (.v core s') = true := decide_eq_true rfl
      rw [hyes, Bool.toNat_true]
      refine ⟨[], ?_⟩
      cases hwaiting : r.waiting s' with
      | nil => rw [step_v_nil hwaiting, hwaiting]; rfl
      | cons waiter rest =>
        rw [step_v_cons hwaiting, List.append_nil]
        exact Function.update_self ..
    · exact hkeep hs (decide_eq_false hs)
  | _ => exact hkeep trivial rfl

end Roster

namespace Vault

variable {cores fuel s : Nat} {counts : Nat → Nat} {history events : List SchedulerEvent}
  {thread : Thread} {v : Vault}

/-- How often a run calls `GetNext`. -/
def getNextCalls (fuel : Nat) : Vault → List SchedulerEvent → Nat
  | _, [] => 0
  | v, event :: later =>
    (event.callsGetNext fun s => (v.semaphores s).counter).toNat +
      match v.step fuel event with
      | .ok v' => getNextCalls fuel v' later
      | .error _ => 0

theorem getNextCalls_cons {v' : Vault} (hstep : v.step fuel event = .ok v')
    (later : List SchedulerEvent) :
    v.getNextCalls fuel (event :: later) =
      (event.callsGetNext fun s => (v.semaphores s).counter).toNat +
        v'.getNextCalls fuel later := by
  rw [getNextCalls, hstep]

theorem run_cons {v' : Vault} (hstep : v.step fuel event = .ok v') (later : List SchedulerEvent) :
    v.run fuel (event :: later) = v'.run fuel later := by
  rw [run, List.foldlM_cons, hstep]
  rfl

/-- A lawful run can go on, and the roster goes with it. -/
theorem exists_step {later : List SchedulerEvent}
    (hlawful : Lawful fuel (initial cores counts) (history ++ event :: later))
    (hfuel : (history ++ event :: later).length ≤ fuel)
    (hrun : run fuel (initial cores counts) history = .ok v) :
    ∃ v', v.step fuel event = .ok v' ∧
      run fuel (initial cores counts) (history ++ [event]) = .ok v' ∧
      Refines v (Roster.after counts history) ∧ (Roster.after counts history).Allowed event ∧
      Refines v' ((Roster.after counts history).step event) ∧
      v'.activeThread = ((Roster.after counts history).step event).active := by
  have hsplit : history ++ event :: later = (history ++ [event]) ++ later := by simp
  have hlengths : (history ++ [event]).length ≤ fuel ∧ history.length ≤ fuel := by
    rw [hsplit, List.length_append] at hfuel
    exact ⟨by omega, by rw [List.length_append] at hfuel; omega⟩
  obtain ⟨v₀, hrun₀, hrefines, hactive, _⟩ := run_spec (throughout_before hlawful) hlengths.2
  obtain rfl := Except.ok.inj (hrun.symm.trans hrun₀)
  have hallowed := (hlawful history event later rfl v hrun).roster hactive
  obtain ⟨v', hrun', hrefines', hactive', _⟩ :=
    run_spec (throughout_before (hsplit ▸ hlawful)) hlengths.1
  rw [Roster.after_concat] at hrefines' hactive'
  refine ⟨v', ?_, hrun', hrefines, hallowed, hrefines', hactive'⟩
  rw [run_concat, hrun] at hrun'
  exact hrun'

/-- Some core runs the thread during a run. -/
def Ran (fuel : Nat) (v : Vault) (events : List SchedulerEvent) (thread : Thread) : Prop :=
  ∃ first later v' core, events = first ++ later ∧ run fuel v first = .ok v' ∧
    v'.activeThread core = some thread

/-- A thread that is ready, and that is not killed before it has run, runs when `GetNext`
has been called once for every thread ahead of it and once more.  Until then it stays
ready. -/
theorem runs_or_stays_ready {ahead behind : List Thread}
    (hlawful : Lawful fuel (initial cores counts) (history ++ events))
    (hfuel : (history ++ events).length ≤ fuel)
    (hrun : run fuel (initial cores counts) history = .ok v)
    (hready : Holds v.link v.readyQueue (ahead ++ thread :: behind))
    (halive : v.dying thread = false)
    (hkill : ∀ first later, events = first ++ .kill thread :: later → v.Ran fuel first thread) :
    (∃ first later v' core, events = first ++ later ∧ run fuel v first = .ok v' ∧
        v'.activeThread core = some thread ∧ v.getNextCalls fuel first ≤ ahead.length + 1) ∨
      ∃ v', run fuel v events = .ok v' ∧ v'.At thread .ready ∧ v'.dying thread = false ∧
        v.getNextCalls fuel events ≤ ahead.length := by
  -- The induction follows the operations; what moves along is the place in the queue.
  induction events generalizing history v ahead behind with
  | nil =>
    exact .inr ⟨v, rfl, ⟨_, hready, List.mem_append_right _ List.mem_cons_self⟩, halive,
      Nat.zero_le _⟩
  | cons event later ih =>
    by_cases hnow : ∃ core, v.activeThread core = some thread
    · obtain ⟨core, hactive⟩ := hnow
      exact .inl ⟨[], event :: later, v, core, rfl, rfl, hactive, Nat.zero_le _⟩
    obtain ⟨v', hstep, hrun', hrefines, hallowed, hrefines', hactive'⟩ :=
      exists_step hlawful hfuel hrun
    have hsplit : history ++ event :: later = (history ++ [event]) ++ later := by simp
    have hlater : ∀ first rest, event :: later = first ++ .kill thread :: rest →
        ∃ first', first = event :: first' ∧ v'.Ran fuel first' thread := by
      intro first rest heq
      obtain ⟨before, after, v₁, core, rfl, hbefore, hactive⟩ := hkill first rest heq
      cases before with
      | nil =>
        obtain rfl := Except.ok.inj hbefore
        exact absurd ⟨core, hactive⟩ hnow
      | cons event' before =>
        obtain ⟨rfl, -⟩ := List.cons.inj heq
        exact ⟨before ++ after, rfl, before, after, v₁, core, rfl,
          (run_cons hstep before).symm.trans hbefore, hactive⟩
    have hspared : event ≠ .kill thread := by
      rintro rfl
      obtain ⟨first', hnil, -⟩ := hlater [] later rfl
      exact absurd hnil (by simp)
    have hdying : (Roster.after counts history).dying thread = false := hrefines.dying ▸ halive
    have halive' : v'.dying thread = false := by
      rw [hrefines'.dying, Bool.eq_false_iff, ne_eq, (Roster.step_history _ event).2.1, hdying]
      rintro (hfalse | heq)
      · cases hfalse
      · exact hspared heq
    have hcounter : (fun s => (v.semaphores s).counter) = (Roster.after counts history).counter :=
      funext hrefines.counter
    have hbehind : (Roster.after counts history).Behind thread ahead :=
      ⟨behind, (hrefines.family.holds none).unique hready⟩
    rw [getNextCalls_cons hstep, run_cons hstep, hcounter]
    rcases Roster.step_behind hbehind hdying hallowed hspared with
      ⟨core, hactive⟩ | ⟨ahead', ⟨behind', hready'⟩, hlength⟩
    · refine .inl ⟨[event], later, v', core, rfl, run_cons hstep [], hactive' ▸ hactive, ?_⟩
      rw [getNextCalls_cons hstep]
      have hone := Bool.toNat_le (event.callsGetNext fun s => (v.semaphores s).counter)
      simp only [getNextCalls]
      omega
    · have hholds := hrefines'.family.holds none
      rw [show ((Roster.after counts history).step event).lists none = _ from hready'] at hholds
      rcases ih (hsplit ▸ hlawful) (hsplit ▸ hfuel) hrun' hholds halive' (fun first rest heq => by
          obtain ⟨first', hfirst, hran⟩ := hlater (event :: first) rest (by rw [heq]; rfl)
          rwa [(List.cons.inj hfirst).2]) with
        ⟨first, rest, v'', core, rfl, hfirst, hcore, hbound⟩ | ⟨v'', hrest, hat, hlive, hbound⟩
      · refine .inl ⟨event :: first, rest, v'', core, rfl, (run_cons hstep first).trans hfirst,
          hcore, ?_⟩
        rw [getNextCalls_cons hstep, hcounter]
        omega
      · exact .inr ⟨v'', hrest, hat, hlive, by omega⟩

/-- A thread that is ready and is not killed runs when `GetNext` has been called
once for every thread ahead of it and once more, whatever the cores do in between
and in which order. -/
theorem ready_thread_runs (cores : Nat) (counts : Nat → Nat) (history events : List SchedulerEvent)
    (fuel : Nat) (v : Vault) (thread : Thread) (ahead behind : List Thread)
    (hlawful : Lawful fuel (initial cores counts) (history ++ events))
    (hfuel : (history ++ events).length ≤ fuel)
    (hrun : run fuel (initial cores counts) history = .ok v)
    (hready : Holds v.link v.readyQueue (ahead ++ thread :: behind))
    (hkill : .kill thread ∉ history ++ events)
    (hcalls : ahead.length < v.getNextCalls fuel events) :
    ∃ first later v' core, events = first ++ later ∧ run fuel v first = .ok v' ∧
      v'.activeThread core = some thread ∧ v.getNextCalls fuel first ≤ ahead.length + 1 := by
  have halive : v.dying thread = false := by
    obtain ⟨v₀, hrun₀, hrefines, -⟩ := run_spec (throughout_before hlawful)
      (Nat.le_trans (by simp) hfuel)
    obtain rfl := Except.ok.inj (hrun.symm.trans hrun₀)
    rw [hrefines.dying, Bool.eq_false_iff, ne_eq, (Roster.after_history counts history).2.1]
    exact fun hmem => hkill (List.mem_append_left _ hmem)
  have hnever : ∀ first later, events = first ++ .kill thread :: later →
      v.Ran fuel first thread := by
    rintro first later rfl
    exact absurd (by simp) hkill
  rcases runs_or_stays_ready hlawful hfuel hrun hready halive hnever with hran | hstays
  · exact hran
  · obtain ⟨-, -, -, -, hfew⟩ := hstays
    exact absurd hcalls (Nat.not_lt_of_le hfew)

/-- Three threads are ready when the core starts.  The last of them runs after
three context switches. -/
theorem ready_thread_runs_third :
    ∃ v, run 6 (initial 1 fun _ => 0)
        [.ready 0 (.task 0), .ready 0 (.task 1), .ready 0 (.task 2)] = .ok v ∧
      ∃ first later v' core,
        [.schedule 0, .resume 0 true, .resume 0 true] = first ++ later ∧
        run 6 v first = .ok v' ∧ v'.activeThread core = some (.task 2) ∧
        v.getNextCalls 6 first ≤ 3 := by
  obtain ⟨v, hrun, hqueue, hfirst, hsecond, hthird, hcalls⟩ :=
    exists_ok_of_check (x := run 6 (initial 1 fun _ => 0)
      [.ready 0 (.task 0), .ready 0 (.task 1), .ready 0 (.task 2)])
    (fun v => v.readyQueue = ⟨some (.task 0), some (.task 2)⟩ ∧
      v.link (.task 0) = some (.task 1) ∧ v.link (.task 1) = some (.task 2) ∧
      v.link (.task 2) = none ∧
      2 < v.getNextCalls 6 [.schedule 0, .resume 0 true, .resume 0 true])
    (by decide +kernel)
  have hholds : Holds v.link v.readyQueue ([.task 0, .task 1] ++ .task 2 :: []) := by
    rw [hqueue]
    exact ⟨⟨rfl, hfirst, hsecond, hthird⟩, rfl, by decide⟩
  exact ⟨v, hrun, ready_thread_runs 1 _ _ _ 6 v (.task 2) [.task 0, .task 1] []
    (lawful_of_check (by decide +kernel)) (by decide) hrun hholds (by decide) hcalls⟩

/-! ## Semaphores -/

/-- The waiters of a semaphore after a run are those that no `V` has taken, and
then those that came later. -/
theorem run_queued {queue : List Thread}
    (hlawful : Lawful fuel (initial cores counts) (history ++ events))
    (hfuel : (history ++ events).length ≤ fuel)
    (hrun : run fuel (initial cores counts) history = .ok v)
    (hqueue : Holds v.link (v.semaphores s).waiting queue)
    (hcount : events.countP (·.isV s) ≤ queue.length) :
    ∃ v' more, run fuel v events = .ok v' ∧
      run fuel (initial cores counts) (history ++ events) = .ok v' ∧
      Holds v'.link (v'.semaphores s).waiting (queue.drop (events.countP (·.isV s)) ++ more) := by
  induction events generalizing history v queue with
  | nil => exact ⟨v, [], rfl, by rwa [List.append_nil], by simpa using hqueue⟩
  | cons event later ih =>
    obtain ⟨v', hstep, hrun', hrefines, _, hrefines', _⟩ := exists_step hlawful hfuel hrun
    have hsplit : history ++ event :: later = (history ++ [event]) ++ later := by simp
    have hsame : (Roster.after counts history).waiting s = queue :=
      (hrefines.family.holds (some s)).unique hqueue
    obtain ⟨more, hmore⟩ := @Roster.step_queued s (Roster.after counts history) event
    rw [hsame] at hmore
    have hholds := hrefines'.family.holds (some s)
    rw [show ((Roster.after counts history).step event).lists (some s) = _ from hmore] at hholds
    have hcons : (event :: later).countP (·.isV s) =
        (event.isV s).toNat + later.countP (·.isV s) := by
      rw [List.countP_cons, Nat.add_comm]
      cases event.isV s <;> rfl
    rw [hcons] at hcount ⊢
    obtain ⟨v'', more', hfirst, hwhole, hrest⟩ := ih (hsplit ▸ hlawful) (hsplit ▸ hfuel) hrun'
      hholds (by rw [List.length_append, List.length_drop]; omega)
    refine ⟨v'', more ++ more', (run_cons hstep later).trans hfirst, hsplit ▸ hwhole, ?_⟩
    rw [List.drop_append_of_le_length (by rw [List.length_drop]; omega), List.drop_drop,
      List.append_assoc] at hrest
    exact hrest

/-- A thread waits at a semaphore while there are as many `V`s as threads ahead of
it, and the next `V` puts it at the end of the ready queue. -/
theorem semaphore_wakes_in_order (cores : Nat) (counts : Nat → Nat)
    (history events : List SchedulerEvent) (fuel core s : Nat) (v : Vault) (thread : Thread)
    (ahead behind : List Thread)
    (hlawful : Lawful fuel (initial cores counts) (history ++ events ++ [.v core s]))
    (hfuel : (history ++ events).length < fuel)
    (hrun : run fuel (initial cores counts) history = .ok v)
    (hwaiting : Holds v.link (v.semaphores s).waiting (ahead ++ thread :: behind))
    (hcount : events.countP (·.isV s) = ahead.length) :
    ∃ v' threads, run fuel v events = .ok v' ∧ v'.At thread (.waiting s) ∧
      Holds v'.link v'.readyQueue threads ∧
      Holds (v'.v core s).link (v'.v core s).readyQueue (threads ++ [thread]) := by
  have hlength : (history ++ events ++ [SchedulerEvent.v core s]).length ≤ fuel := by
    rw [List.length_append]
    exact hfuel
  obtain ⟨v', more, hfirst, hwhole, hqueue⟩ := run_queued (throughout_before hlawful)
    (Nat.le_of_lt hfuel) hrun hwaiting (by rw [hcount, List.length_append]; omega)
  rw [hcount, List.drop_left, List.cons_append] at hqueue
  obtain ⟨v'', hstep, _, hrefines, _, hrefines', _⟩ := exists_step hlawful hlength hwhole
  obtain rfl := Except.ok.inj hstep
  have hsame := (hrefines.family.holds (some s)).unique hqueue
  refine ⟨v', _, hfirst, ⟨_, hqueue, List.mem_cons_self ..⟩, hrefines.family.holds none, ?_⟩
  rw [Roster.step_v_cons hsame] at hrefines'
  exact hrefines'.family.holds none

/-- Two threads wait.  The first `V` wakes one of them, which runs, and the second
`V` wakes the other one. -/
theorem semaphore_wakes_in_order_second :
    ∃ v v' threads, run 8 (initial 1 fun _ => 0)
        [.ready 0 (.task 0), .ready 0 (.task 1), .schedule 0, .p 0 0, .p 0 0] = .ok v ∧
      run 8 v [.v 0 0, .resume 0 true] = .ok v' ∧ v'.At (.task 1) (.waiting 0) ∧
      Holds v'.link v'.readyQueue threads ∧
      Holds (v'.v 0 0).link (v'.v 0 0).readyQueue (threads ++ [.task 1]) := by
  obtain ⟨v, hrun, hqueue, hfirst, hsecond⟩ := exists_ok_of_check (x := run 8 (initial 1 fun _ => 0)
      [.ready 0 (.task 0), .ready 0 (.task 1), .schedule 0, .p 0 0, .p 0 0])
    (fun v => (v.semaphores 0).waiting = ⟨some (.task 0), some (.task 1)⟩ ∧
      v.link (.task 0) = some (.task 1) ∧ v.link (.task 1) = none)
    (by decide +kernel)
  have hholds : Holds v.link (v.semaphores 0).waiting ([.task 0] ++ .task 1 :: []) := by
    rw [hqueue]
    exact ⟨⟨rfl, hfirst, hsecond⟩, rfl, by decide⟩
  obtain ⟨v', threads, hwoken⟩ := semaphore_wakes_in_order 1 _ _ [.v 0 0, .resume 0 true] 8 0 0 v
    (.task 1) [.task 0] [] (lawful_of_check (by decide +kernel)) (by decide) hrun hholds (by decide)
  exact ⟨v, v', threads, hrun, hwoken⟩

end Vault

end X64HK
