import X64HK.Thread.Fairness

/-!
# The tokens of a semaphore

A `V` either counts its token or hands it to the first waiter.  `audit` runs a
sequence of operations and keeps the books of one semaphore.

`Kill` does not look at the wait queues.  A thread that is killed while it waits
stays in its queue, the next `V` hands it the token, and `GetNext` drops the thread
with it.  `killed_waiter_takes_token` is such a run.

A thread that is killed after a `V` has handed it the token, and before it runs, takes the
token with it too.

* `Undisturbed` excludes both, and `no_dying_waiter` is the invariant that this gives.
* `audit_spec` balances the books.
* `Hands.runs_or_stays`: a token that is handed over reaches its thread.
* `tokens_conserved` is the sum.
-/

namespace X64HK

open IntrusiveQueue

/-- The books of a semaphore. -/
structure Ledger where
  /-- `V`s. -/
  released : Nat := 0
  /-- `P`s that returned at once. -/
  immediate : Nat := 0
  /-- `V`s that made a waiter ready. -/
  handed : Nat := 0
  deriving DecidableEq, Repr

/-- Enter an operation that is issued in `v`. -/
def Ledger.record (l : Ledger) (v : Vault) (s : Nat) : SchedulerEvent → Ledger
  | .p _ s' =>
    if s' = s ∧ (v.semaphores s).counter > 0 then { l with immediate := l.immediate + 1 } else l
  | .v _ s' =>
    if s' = s then
      { l with
        released := l.released + 1
        handed := if (v.semaphores s).waiting.head.isSome then l.handed + 1 else l.handed }
    else l
  | _ => l

namespace Vault

/-- Run operations and keep the books of the semaphore `s`. -/
def audit (fuel s : Nat) (v : Vault) (events : List SchedulerEvent) : Outcome (Vault × Ledger) :=
  events.foldlM
    (fun (v, l) event => do
      let v' ← v.step fuel event
      return (v', l.record v s event))
    (v, {})

/-- After the operations `first` a `V` hands its token to `waiter`. -/
structure Hands (fuel : Nat) (v₀ : Vault) (first : List SchedulerEvent) (core s : Nat)
    (v v' : Vault) (waiter : Thread) : Prop where
  before : run fuel v₀ first = .ok v
  waits : (v.semaphores s).waiting.head = some waiter
  after : v.step fuel (.v core s) = .ok v'

/-- A `V` has handed the thread a token, and the thread has not run since. -/
def Carries (fuel : Nat) (v₀ : Vault) (history : List SchedulerEvent) (thread : Thread) : Prop :=
  ∃ first core s later v v', history = first ++ .v core s :: later ∧
    Hands fuel v₀ first core s v v' thread ∧ ¬v'.Ran fuel later thread

/-- Every token that a `V` of the run hands over reaches its thread. -/
structure TokensKept (fuel : Nat) (v₀ : Vault) (events : List SchedulerEvent) : Prop where
  /-- The thread is not dying. -/
  alive : ∀ first core s later v v' waiter, events = first ++ .v core s :: later →
    Hands fuel v₀ first core s v v' waiter → v.dying waiter = false
  /-- Until it runs it is ready and not dying. -/
  ready : ∀ first core s middle later v v' w waiter,
    events = (first ++ .v core s :: middle) ++ later → Hands fuel v₀ first core s v v' waiter →
    run fuel v' middle = .ok w →
    v'.Ran fuel middle waiter ∨ w.At waiter .ready ∧ w.dying waiter = false
  /-- It does run: `GetNext` takes it after the threads that were ready before. -/
  scheduled : ∀ first core s later v v' waiter ahead, events = first ++ .v core s :: later →
    Hands fuel v₀ first core s v v' waiter → Holds v.link v.readyQueue ahead →
    ahead.length < v'.getNextCalls fuel later → v'.Ran fuel later waiter
  /-- No thread is left waiting while the semaphore has a token. -/
  parked : ∀ history later v s, events = history ++ later → run fuel v₀ history = .ok v →
    (v.semaphores s).waiting.head ≠ none → (v.semaphores s).counter = 0

/-- No thread is killed while it waits at a semaphore, or after a `V` has handed it a token
and before it runs.  No dying thread starts to wait, and no counter wraps around. -/
def Undisturbed (fuel : Nat) (v₀ : Vault) (events : List SchedulerEvent) : Prop :=
  Throughout fuel (fun history v event =>
    match event with
    | .kill thread => (∀ s, ¬ v.At thread (.waiting s)) ∧ ¬ Carries fuel v₀ history thread
    | .p core s => (v.semaphores s).counter = 0 →
      ∀ thread, v.activeThread core = some thread → v.dying thread = false
    | .v _ s => (v.semaphores s).waiting.head = none → (v.semaphores s).counter + 1 < 2 ^ 32
    | _ => True) v₀ events

variable {cores fuel : Nat} {counts : Nat → Nat} {events : List SchedulerEvent}

/-! ## Dying threads do not wait -/

/-- In an undisturbed run no thread is dying while it waits. -/
theorem no_dying_waiter (hlawful : Lawful fuel (initial cores counts) events)
    (hfuel : events.length ≤ fuel) (hcalm : Undisturbed fuel (initial cores counts) events)
    {s : Nat} {t : Thread} (ht : t ∈ (Roster.after counts events).waiting s) :
    (Roster.after counts events).dying t = false := by
  induction events using List.reverseRecOn generalizing s t with
  | nil => exact absurd ht nofun
  | append_singleton events event ih =>
    rw [List.length_append, List.length_singleton] at hfuel
    obtain ⟨hbefore, _⟩ := throughout_concat.1 hlawful
    obtain ⟨v, hrun, hrefines, hactive, _⟩ := run_spec hbefore (by omega)
    have hlast := (throughout_concat.1 hcalm).2 v hrun
    rw [Roster.after_concat] at ht ⊢
    have halive : (Roster.after counts events).dying t = false := by
      rcases Roster.step_waiting ht with hold | ⟨core, rfl, hcount, hcurrent⟩
      · exact ih hbefore (by omega) (throughout_concat.1 hcalm).1 hold
      · rw [← hrefines.dying]
        exact hlast ((hrefines.counter s).trans hcount) t (hactive ▸ hcurrent)
    rw [Bool.eq_false_iff, ne_eq, ((Roster.after counts events).step_history event).2.1]
    rintro (hdying | rfl)
    · exact absurd (halive.symm.trans hdying) nofun
    · rcases Roster.step_waiting ht with hold | ⟨_, heq, _⟩
      · exact hlast.1 s ((at_iff hrefines hactive t (.waiting s)).2 hold)
      · exact absurd heq nofun

/-! ## The books -/

theorem audit_concat (fuel s : Nat) (v : Vault) (events : List SchedulerEvent)
    (event : SchedulerEvent) :
    audit fuel s v (events ++ [event]) = audit fuel s v events >>= fun state => do
      let v' ← state.1.step fuel event
      return (v', state.2.record state.1 s event) := by
  unfold audit
  rw [List.foldlM_append]
  simp only [List.foldlM_cons, List.foldlM_nil, bind_pure]

/-- In an undisturbed run the tokens of a semaphore are those that it counts, that
a `P` took at once and that a `V` handed to a waiter. -/
theorem audit_spec (hlawful : Lawful fuel (initial cores counts) events)
    (hfuel : events.length ≤ fuel) (hcalm : Undisturbed fuel (initial cores counts) events)
    (s : Nat) :
    ∃ v l, run fuel (initial cores counts) events = .ok v ∧
      audit fuel s (initial cores counts) events = .ok (v, l) ∧
      counts s + l.released = (v.semaphores s).counter + l.immediate + l.handed := by
  induction events using List.reverseRecOn with
  | nil => exact ⟨_, {}, rfl, rfl, rfl⟩
  | append_singleton events event ih =>
    rw [List.length_append, List.length_singleton] at hfuel
    obtain ⟨hbefore, _⟩ := throughout_concat.1 hlawful
    obtain ⟨v, l, hrun, haudit, hbooks⟩ := ih hbefore (by omega) (throughout_concat.1 hcalm).1
    obtain ⟨_, hrun', hrefines, _⟩ := run_spec hbefore (by omega)
    obtain rfl := Except.ok.inj (hrun.symm.trans hrun')
    obtain ⟨v', hnext, hrefines', _⟩ := run_spec hlawful (by simpa using hfuel)
    have hstep : v.step fuel event = .ok v' := by
      rw [run_concat, hrun] at hnext
      exact hnext
    refine ⟨v', l.record v s event, hnext, ?_, ?_⟩
    · rw [audit_concat, haudit]
      simp only [bind, Except.bind, hstep]
      rfl
    · have hlast := (throughout_concat.1 hcalm).2 v hrun
      have hcounter := hrefines.counter s
      have hhead := (hrefines.family.holds (some s)).head_eq
      rw [hrefines'.counter, Roster.after_concat, Roster.step_counter]
      cases event with
      | p core s' =>
        simp only [Ledger.record, hcounter]
        split
        · dsimp only
          omega
        · omega
      | v core s' =>
        by_cases hs : s' = s
        · subst hs
          simp only [Ledger.record, if_true, true_and]
          cases hwaiting : (Roster.after counts events).waiting s' with
          | nil =>
            have hnone : (v.semaphores s').waiting.head = none :=
              hhead.trans (by rw [Roster.lists, hwaiting]; rfl)
            have hnowrap : (v.semaphores s').counter + 1 < 2 ^ 32 := hlast hnone
            rw [hnone, if_pos rfl, Nat.mod_eq_of_lt (by omega)]
            simp only [Option.isSome_none, Bool.false_eq_true, if_false]
            omega
          | cons waiter rest =>
            rw [show (v.semaphores s').waiting.head = some waiter from hhead.trans (by
              rw [Roster.lists, hwaiting]; rfl), if_neg (List.cons_ne_nil waiter rest)]
            simp only [Option.isSome_some, if_true]
            omega
        · simp only [Ledger.record, hs, false_and, if_false]
          omega
      | _ =>
        simp only [Ledger.record]
        omega

/-! ## Tokens that are handed over -/

/-- A thread waits only where there is no token. -/
theorem counter_of_waiting (counts : Nat → Nat) (events : List SchedulerEvent) {s : Nat}
    {t : Thread} (ht : t ∈ (Roster.after counts events).waiting s) :
    (Roster.after counts events).counter s = 0 := by
  induction events using List.reverseRecOn generalizing t with
  | nil => cases ht
  | append_singleton events event ih =>
    rw [Roster.after_concat] at ht ⊢
    rw [Roster.step_counter]
    have hzero : (Roster.after counts events).counter s = 0 := by
      rcases Roster.step_waiting ht with hold | ⟨core, -, hcount, -⟩
      · exact ih hold
      · exact hcount
    cases event with
    | p core s' =>
      dsimp only
      rw [if_neg (by omega), hzero]
    | v core s' =>
      dsimp only
      rw [if_neg, hzero]
      rintro ⟨rfl, hnone⟩
      rcases Roster.step_waiting ht with hold | ⟨_, heq, _⟩
      · rw [hnone] at hold
        cases hold
      · cases heq
    | _ => exact hzero

variable {first later : List SchedulerEvent} {core s : Nat} {v v' : Vault} {waiter : Thread}

/-- The thread that a `V` hands a token is at the end of the ready queue. -/
theorem Hands.enqueued (h : Hands fuel (initial cores counts) first core s v v' waiter)
    (hlawful : Lawful fuel (initial cores counts) (first ++ .v core s :: later))
    (hfuel : (first ++ .v core s :: later).length ≤ fuel) {ahead : List Thread}
    (hahead : Holds v.link v.readyQueue ahead) :
    run fuel (initial cores counts) (first ++ [.v core s]) = .ok v' ∧
      Holds v'.link v'.readyQueue (ahead ++ waiter :: []) ∧ v'.dying = v.dying ∧
      waiter ∈ (Roster.after counts first).waiting s := by
  obtain ⟨w, hstep, hrun, hrefines, -, hrefines', -⟩ := exists_step hlawful hfuel h.before
  obtain rfl := Except.ok.inj (hstep.symm.trans h.after)
  have hhead := (hrefines.family.holds (some s)).head_eq.symm.trans h.waits
  change ((Roster.after counts first).waiting s).head? = some waiter at hhead
  obtain ⟨rest, hwaiting⟩ := List.head?_eq_some_iff.1 hhead
  rw [Roster.step_v_cons hwaiting] at hrefines'
  have hready := hrefines'.family.holds none
  rw [← (hrefines.family.holds none).unique hahead]
  exact ⟨hrun, hready, hrefines'.dying.trans hrefines.dying.symm, List.mem_of_head? hhead⟩

theorem readyQueue_holds (hlawful : Lawful fuel (initial cores counts) (first ++ events))
    (hfuel : (first ++ events).length ≤ fuel)
    (hrun : run fuel (initial cores counts) first = .ok v) :
    ∃ ahead, Holds v.link v.readyQueue ahead := by
  obtain ⟨w, hrun', hrefines, -⟩ := run_spec (throughout_before hlawful)
    (Nat.le_trans (by simp) hfuel)
  obtain rfl := Except.ok.inj (hrun.symm.trans hrun')
  exact ⟨_, hrefines.family.holds none⟩

/-- In an undisturbed run the thread is alive.  It runs after the threads that were ready
before, or it is still ready. -/
theorem Hands.runs_or_stays (h : Hands fuel (initial cores counts) first core s v v' waiter)
    (hlawful : Lawful fuel (initial cores counts) (first ++ .v core s :: later))
    (hfuel : (first ++ .v core s :: later).length ≤ fuel)
    (hcalm : Undisturbed fuel (initial cores counts) (first ++ .v core s :: later))
    {ahead : List Thread} (hahead : Holds v.link v.readyQueue ahead) :
    v.dying waiter = false ∧ (v'.Ran fuel later waiter ∨
      ∃ w, Vault.run fuel v' later = .ok w ∧ w.At waiter .ready ∧ w.dying waiter = false ∧
        v'.getNextCalls fuel later ≤ ahead.length) := by
  obtain ⟨hrun, hready, hdying, hmem⟩ := h.enqueued hlawful hfuel hahead
  have hlength : first.length ≤ fuel := Nat.le_trans (by simp) hfuel
  obtain ⟨w, hrun₀, hrefines, -⟩ := run_spec (throughout_before hlawful) hlength
  obtain rfl := Except.ok.inj (h.before.symm.trans hrun₀)
  have halive : v.dying waiter = false := by
    rw [hrefines.dying]
    exact no_dying_waiter (throughout_before hlawful) hlength (throughout_before hcalm) hmem
  refine ⟨halive, ?_⟩
  have hsplit : first ++ .v core s :: later = (first ++ [.v core s]) ++ later := by simp
  -- a thread that is killed before it runs would carry the token
  have hkill : ∀ middle rest, later = middle ++ .kill waiter :: rest →
      v'.Ran fuel middle waiter := by
    rintro middle rest rfl
    by_contra hnot
    have hwhole : first ++ .v core s :: (middle ++ .kill waiter :: rest) =
        (first ++ .v core s :: middle) ++ .kill waiter :: rest := by simp
    rw [hwhole] at hlawful hcalm hfuel
    obtain ⟨w, hrun', -⟩ := run_spec (throughout_before hlawful) (Nat.le_trans (by simp) hfuel)
    exact (hcalm _ _ _ rfl w hrun').2 ⟨first, core, s, middle, v, v', rfl, h, hnot⟩
  rcases runs_or_stays_ready (hsplit ▸ hlawful) (hsplit ▸ hfuel) hrun hready
    (by rw [hdying, halive]) hkill with ⟨before, after, w, c, heq, hbefore, hactive, -⟩ | hstays
  · exact .inl ⟨before, after, w, c, heq, hbefore, hactive⟩
  · exact .inr hstays

/-- In every run in which no thread is dying while it waits or while it carries a token, and
in which no counter wraps around, the tokens of every semaphore are accounted for, and each
one that a `V` hands over reaches its thread. -/
theorem tokens_conserved (cores : Nat) (counts : Nat → Nat) (events : List SchedulerEvent)
    (fuel : Nat) (hlawful : Lawful fuel (initial cores counts) events)
    (hfuel : events.length ≤ fuel) (hcalm : Undisturbed fuel (initial cores counts) events) :
    (∀ s, ∃ v l, run fuel (initial cores counts) events = .ok v ∧
      audit fuel s (initial cores counts) events = .ok (v, l) ∧
      counts s + l.released = (v.semaphores s).counter + l.immediate + l.handed) ∧
      TokensKept fuel (initial cores counts) events := by
  refine ⟨audit_spec hlawful hfuel hcalm, ?_, ?_, ?_, ?_⟩
  · rintro first core s later v v' waiter rfl hands
    obtain ⟨ahead, hahead⟩ := readyQueue_holds hlawful hfuel hands.before
    exact (hands.runs_or_stays hlawful hfuel hcalm hahead).1
  · rintro first core s middle later v v' w waiter rfl hands hmiddle
    obtain ⟨ahead, hahead⟩ := readyQueue_holds (throughout_before hlawful)
      (Nat.le_trans (by simp) hfuel) hands.before
    refine (hands.runs_or_stays (throughout_before hlawful) (Nat.le_trans (by simp) hfuel)
      (throughout_before hcalm) hahead).2.imp_right ?_
    rintro ⟨w', hrun, hat, halive, -⟩
    obtain rfl := Except.ok.inj (hmiddle.symm.trans hrun)
    exact ⟨hat, halive⟩
  · rintro first core s later v v' waiter ahead rfl hands hahead hcalls
    refine (hands.runs_or_stays hlawful hfuel hcalm hahead).2.resolve_right ?_
    rintro ⟨-, -, -, -, hfew⟩
    exact absurd hcalls (Nat.not_lt_of_le hfew)
  · rintro history later v s rfl hrun hhead
    obtain ⟨w, hrun', hrefines, -⟩ := run_spec (throughout_before hlawful)
      (Nat.le_trans (by simp) hfuel)
    obtain rfl := Except.ok.inj (hrun.symm.trans hrun')
    obtain ⟨waiter, hwaiter⟩ := Option.ne_none_iff_exists'.1 hhead
    rw [hrefines.counter]
    refine counter_of_waiting counts history (t := waiter) (List.mem_of_head? ?_)
    exact (hrefines.family.holds (some s)).head_eq.symm.trans hwaiter

/-- A thread blocks, the other one hands it a token, and it runs at the next context
switch. -/
theorem tokens_conserved_handed :
    let events : List SchedulerEvent :=
      [.ready 0 (.task 0), .ready 0 (.task 1), .schedule 0, .p 0 0, .v 0 0, .resume 0 true]
    Lawful 6 (initial 1 fun _ => 0) events ∧ Undisturbed 6 (initial 1 fun _ => 0) events ∧
      TokensKept 6 (initial 1 fun _ => 0) events := by
  have hlawful : Lawful 6 (initial 1 fun _ => 0)
      [.ready 0 (.task 0), .ready 0 (.task 1), .schedule 0, .p 0 0, .v 0 0, .resume 0 true] :=
    lawful_of_check (by decide +kernel)
  have hcalm : Undisturbed 6 (initial 1 fun _ => 0)
      [.ready 0 (.task 0), .ready 0 (.task 1), .schedule 0, .p 0 0, .v 0 0, .resume 0 true] := by
    refine throughout_of_check (fun _ v event => match event with
      | .kill _ => false
      | .p core _ => v.activeThread core = some (.task 0) && !v.dying (.task 0)
      | .v _ s => decide ((v.semaphores s).counter = 0)
      | _ => true) ?_ (by decide +kernel)
    intro history v event h
    cases event <;> simp_all
  exact ⟨hlawful, hcalm, (tokens_conserved 1 _ _ 6 hlawful (by decide) hcalm).2⟩

/-- The first of two waiters is killed.  A `V` hands it the token, and the next
context switch drops it.  The token is gone, while the second waiter still
waits. -/
theorem killed_waiter_takes_token :
    let events : List SchedulerEvent :=
      [.ready 0 (.task 0), .ready 0 (.task 1), .schedule 0, .p 0 0, .p 0 0, .kill (.task 0),
        .v 0 0, .resume 0 true]
    Lawful 8 (initial 1 fun _ => 0) events ∧ ¬ TokensKept 8 (initial 1 fun _ => 0) events ∧
      ∃ v, run 8 (initial 1 fun _ => 0) events = .ok v ∧
        (v.semaphores 0).counter = 0 ∧ v.readyQueue.head = none ∧
        v.activeThread 0 = some (.idle 0) ∧ v.At (.task 1) (.waiting 0) ∧
        v.dying (.task 1) = false := by
  obtain ⟨v₁, hkilled, hhead, hdying⟩ := exists_ok_of_check (x := run 8 (initial 1 fun _ => 0)
      [.ready 0 (.task 0), .ready 0 (.task 1), .schedule 0, .p 0 0, .p 0 0, .kill (.task 0)])
    (fun v => (v.semaphores 0).waiting.head = some (.task 0) ∧ v.dying (.task 0) = true)
    (by decide +kernel)
  obtain ⟨v, hrun, hcounter, hready, hactive, hlink, hwaiting, hlive⟩ :=
    exists_ok_of_check (x := run 8 (initial 1 fun _ => 0)
      [.ready 0 (.task 0), .ready 0 (.task 1), .schedule 0, .p 0 0, .p 0 0, .kill (.task 0),
        .v 0 0, .resume 0 true])
    (fun v => (v.semaphores 0).counter = 0 ∧ v.readyQueue.head = none ∧
      v.activeThread 0 = some (.idle 0) ∧ v.link (.task 1) = none ∧
      (v.semaphores 0).waiting = ⟨some (.task 1), some (.task 1)⟩ ∧ v.dying (.task 1) = false)
    (by decide +kernel)
  refine ⟨lawful_of_check (by decide +kernel), fun hkept => ?_, v, hrun, ?_⟩
  · have hlost := hkept.alive _ 0 0 [.resume 0 true] v₁ _ (.task 0) rfl ⟨hkilled, hhead, rfl⟩
    exact absurd (hdying.symm.trans hlost) nofun
  · refine ⟨hcounter, hready, hactive, ⟨[.task 1], ⟨?_, ?_, List.nodup_singleton _⟩,
      List.mem_singleton.2 rfl⟩, hlive⟩
    · rw [hwaiting]
      exact ⟨rfl, hlink⟩
    · rw [hwaiting]
      rfl

end Vault

end X64HK
