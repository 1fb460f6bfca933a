import Mathlib.Data.List.Induction
import X64HK.Thread.Refinement

/-!
# The scheduler keeps every thread in one place

A run of operations that the kernel's callers may issue returns, and the roster
says where every thread is after it.

* `Roster.after_history` and `Roster.after_gone` read off the operations who is known,
  dying and gone.
* `Roster.after_inactive`: a dying thread that does not run will not run.
* `run_spec` is a whole run.
* `scheduler_exclusive` says the properties of the source in terms of the pointers.
-/

namespace X64HK

open IntrusiveQueue

/-- The core whose active thread an operation may change. -/
def SchedulerEvent.switches : SchedulerEvent → Option Nat
  | .schedule core | .resume core _ | .exit core | .p core _ | .sleep core _ => some core
  | .ready _ _ | .kill _ | .v _ _ | .check _ => none

variable {event : SchedulerEvent} {events : List SchedulerEvent}

namespace Roster

variable {r : Roster} {core : Nat} {away : Roster → Thread → Roster} {t : Thread} {number : Nat}

/-! ## The history of a run -/

/-- The roster after a sequence of operations. -/
def after (counts : Nat → Nat) (events : List SchedulerEvent) : Roster :=
  events.foldl step (initial counts)

theorem after_concat (counts : Nat → Nat) (events : List SchedulerEvent) (event : SchedulerEvent) :
    after counts (events ++ [event]) = (after counts events).step event :=
  List.foldl_append ..

/-- A context switch leaves alone what neither putting the thread away nor
taking the next one changes. -/
theorem switch_keeps {β : Type} (f : Roster → β) (hnext : ∀ r : Roster, f (r.takeNext core) = f r)
    (haway : ∀ t, f (away (r.leave core) t) = f r) :
    f (r.switch core away) = f r := by
  unfold switch
  split
  · rfl
  · rw [hnext, haway]

@[simp] theorem takeNext_known (r : Roster) (core : Nat) : (r.takeNext core).known = r.known := by
  rw [takeNext_eq]

@[simp] theorem takeNext_dying (r : Roster) (core : Nat) : (r.takeNext core).dying = r.dying := by
  rw [takeNext_eq]

@[simp] theorem takeNext_gone (r : Roster) (core : Nat) : (r.takeNext core).gone = r.gone := by
  rw [takeNext_eq]

theorem switch_history (r : Roster) (core : Nat)
    (hknown : ∀ t, (away (r.leave core) t).known = r.known)
    (hdying : ∀ t, (away (r.leave core) t).dying = r.dying) :
    (r.switch core away).known = r.known ∧ (r.switch core away).dying = r.dying :=
  ⟨switch_keeps known (takeNext_known · core) hknown,
    switch_keeps dying (takeNext_dying · core) hdying⟩

theorem park_history (r : Roster) (core : Nat) (requeue : Bool) (t : Thread) :
    (r.park core requeue t).known = r.known ∧ (r.park core requeue t).dying = r.dying := by
  unfold park
  split
  · split <;> exact ⟨rfl, rfl⟩
  · exact ⟨rfl, rfl⟩

/-- Only `ready` makes a thread known, and only `kill` makes it dying. -/
theorem step_history (r : Roster) (event : SchedulerEvent) :
    (∀ t, t ∈ (r.step event).known ↔ t ∈ r.known ∨ ∃ core, event = .ready core t) ∧
      (∀ t, (r.step event).dying t = true ↔ r.dying t = true ∨ event = .kill t) ∧
      (r.step event).known.length ≤ r.known.length + 1 := by
  have hkeep : ∀ r' : Roster, r'.known = r.known → r'.dying = r.dying →
      (∀ core t, event ≠ .ready core t) → (∀ t, event ≠ .kill t) →
      (∀ t, t ∈ r'.known ↔ t ∈ r.known ∨ ∃ core, event = .ready core t) ∧
        (∀ t, r'.dying t = true ↔ r.dying t = true ∨ event = .kill t) ∧
        r'.known.length ≤ r.known.length + 1 := by
    intro r' hknown hdying hready hkill
    refine ⟨fun t => ?_, fun t => ?_, by rw [hknown]; omega⟩
    · rw [hknown]
      exact ⟨Or.inl, fun h => h.resolve_right (not_exists.2 fun core => hready core t)⟩
    · rw [hdying]
      exact ⟨Or.inl, fun h => h.resolve_right (hkill t)⟩
  cases event with
  | ready core thread =>
    refine ⟨fun t => ?_, fun t => ?_, Nat.le_refl _⟩
    · simp [step, enqueue, eq_comm, or_comm]
    · simp [step, enqueue]
  | kill thread =>
    refine ⟨fun t => by simp [step], fun t => ?_, Nat.le_succ _⟩
    by_cases heq : t = thread
    · simp [step, heq]
    · simp [step, heq, Ne.symm heq]
  | schedule core =>
    exact hkeep _ (r.takeNext_known core) (r.takeNext_dying core) (by simp) (by simp)
  | resume core requeue =>
    obtain ⟨hknown, hdying⟩ := @switch_history (fun r t => r.park core requeue t) r core
      (fun t => (park_history (r.leave core) core requeue t).1)
      (fun t => (park_history (r.leave core) core requeue t).2)
    exact hkeep _ hknown hdying (by simp) (by simp)
  | exit core =>
    obtain ⟨hknown, hdying⟩ := @switch_history retire r core (fun _ => rfl) fun _ => rfl
    exact hkeep _ hknown hdying (by simp) (by simp)
  | p core s =>
    obtain ⟨hknown, hdying⟩ := @switch_history (fun r t => r.wait s t) r core (fun _ => rfl)
      fun _ => rfl
    refine hkeep _ ?_ ?_ (by simp) (by simp) <;> simp only [step] <;> split
    · rfl
    · exact hknown
    · rfl
    · exact hdying
  | v core s => refine hkeep _ ?_ ?_ (by simp) (by simp) <;> simp only [step] <;> split <;> rfl
  | sleep core milliseconds =>
    obtain ⟨hknown, hdying⟩ := @switch_history (fun r t => r.sleep t milliseconds) r core
      (fun _ => rfl) fun _ => rfl
    refine hkeep _ ?_ ?_ (by simp) (by simp) <;> simp only [step] <;> split
    · rfl
    · exact hknown
    · rfl
    · exact hdying
  | check core =>
    refine hkeep _ ?_ ?_ (by simp) (by simp) <;> simp only [step] <;> rw [foldl_enqueue]

theorem after_history (counts : Nat → Nat) (events : List SchedulerEvent) :
    (∀ t, t ∈ (after counts events).known ↔ ∃ core, .ready core t ∈ events) ∧
      (∀ t, (after counts events).dying t = true ↔ .kill t ∈ events) ∧
      (after counts events).known.length ≤ events.length := by
  induction events using List.reverseRecOn with
  | nil => simp [after, initial]
  | append_singleton events event ih =>
    obtain ⟨hknown, hdying, hlength⟩ := ih
    obtain ⟨hknown', hdying', hlength'⟩ := (after counts events).step_history event
    rw [after_concat]
    refine ⟨fun t => ?_, fun t => ?_, ?_⟩
    · simp only [hknown', hknown, List.mem_append, List.mem_singleton, exists_or, eq_comm]
    · simp only [hdying', hdying, List.mem_append, List.mem_singleton, eq_comm]
    · rw [List.length_append, List.length_singleton]
      omega

/-- The thread that becomes active next is not dying. -/
theorem takeNext_active {c : Nat} (h : (r.takeNext core).active c = some (.task number)) :
    c ≠ core ∧ r.active c = some (.task number) ∨ r.dying (.task number) = false := by
  rw [takeNext_eq] at h
  by_cases hc : c = core
  · subst hc
    simp only [Function.update_self] at h
    right
    cases hnext : (r.ready.dropWhile r.dying).head? with
    | none => simp [hnext] at h
    | some next =>
      have hdying := List.head?_dropWhile_not r.dying r.ready
      rw [hnext] at h hdying
      obtain rfl : next = .task number := by simpa using h
      simpa using hdying
  · simp only [Function.update_of_ne hc] at h
    exact Or.inl ⟨hc, h⟩

theorem switch_active (hactive : ∀ t, (away (r.leave core) t).active = (r.leave core).active)
    (hdying : ∀ t, (away (r.leave core) t).dying = r.dying) {c : Nat}
    (h : (r.switch core away).active c = some (.task number)) :
    r.active c = some (.task number) ∨ r.dying (.task number) = false := by
  unfold switch at h
  split at h
  · exact Or.inl h
  · rcases takeNext_active h with ⟨hc, hold⟩ | halive
    · rw [hactive] at hold
      left
      simpa [leave, hc] using hold
    · exact Or.inr (hdying _ ▸ halive)

/-- An operation makes no dying thread active. -/
theorem step_active {c : Nat} (h : (r.step event).active c = some (.task number)) :
    r.active c = some (.task number) ∨ r.dying (.task number) = false := by
  cases event with
  | schedule core =>
    rcases takeNext_active h with ⟨_, hold⟩ | halive
    · exact Or.inl hold
    · exact Or.inr halive
  | resume core requeue =>
    exact switch_active (fun _ => park_active ..)
      (fun t => (park_history (r.leave core) core requeue t).2) h
  | exit core => exact switch_active (fun _ => rfl) (fun _ => rfl) h
  | p core s =>
    simp only [step] at h
    split at h
    · exact Or.inl h
    · exact switch_active (fun _ => rfl) (fun _ => rfl) h
  | sleep core milliseconds =>
    simp only [step] at h
    split at h
    · exact Or.inl h
    · exact switch_active (fun _ => rfl) (fun _ => rfl) h
  | v core s =>
    simp only [step] at h
    split at h <;> exact Or.inl h
  | check core =>
    simp only [step, foldl_enqueue] at h
    exact Or.inl h
  | ready core t => exact Or.inl h
  | kill t => exact Or.inl h

/-! ## Ready threads -/

/-- A thread that is ready and not dying stays ready until it becomes active. -/
theorem takeNext_ready (hready : t ∈ r.ready) (halive : r.dying t = false) :
    t ∈ (r.takeNext core).ready ∨ (r.takeNext core).active core = some t := by
  have hmem := mem_dropWhile hready halive
  unfold takeNext
  cases hnext : r.ready.dropWhile r.dying with
  | nil =>
    rw [hnext] at hmem
    exact absurd hmem List.not_mem_nil
  | cons next rest =>
    rw [hnext] at hmem
    rcases List.mem_cons.1 hmem with rfl | hrest
    · exact Or.inr (Function.update_self ..)
    · exact Or.inl hrest

theorem switch_ready (hready : t ∈ r.ready)
    (haway : ∀ current, t ∈ (away (r.leave core) current).ready)
    (hdying : ∀ current, (away (r.leave core) current).dying = r.dying)
    (halive : r.dying t = false) :
    t ∈ (r.switch core away).ready ∨ (r.switch core away).active core = some t := by
  unfold switch
  split
  · exact Or.inl hready
  · next current _ => exact takeNext_ready (haway current) (hdying current ▸ halive)

theorem park_ready (hready : t ∈ r.ready) (requeue : Bool) (current : Thread) :
    t ∈ (r.park core requeue current).ready := by
  unfold park
  split
  · split
    · exact List.mem_append_left _ hready
    · exact hready
  · exact hready

/-- A ready thread that is not killed stays ready, or becomes active on the core
whose thread the operation changes. -/
theorem step_ready (hready : t ∈ r.ready) (halive : r.dying t = false) (hkill : event ≠ .kill t) :
    t ∈ (r.step event).ready ∨
      ∃ core, event.switches = some core ∧ (r.step event).active core = some t := by
  have hactive : ∀ {core : Nat} {r' : Roster}, event.switches = some core →
      t ∈ r'.ready ∨ r'.active core = some t →
      t ∈ r'.ready ∨ ∃ core, event.switches = some core ∧ r'.active core = some t :=
    fun hswitches h => h.imp_right fun hcore => ⟨_, hswitches, hcore⟩
  cases event with
  | schedule core => exact hactive rfl (takeNext_ready hready halive)
  | resume core requeue =>
    exact hactive rfl (switch_ready hready
      (fun current => @park_ready (r.leave core) core t hready requeue current)
      (fun current => (park_history (r.leave core) core requeue current).2) halive)
  | exit core => exact hactive rfl (switch_ready hready (fun _ => hready) (fun _ => rfl) halive)
  | p core s =>
    simp only [step]
    split
    · exact Or.inl hready
    · exact hactive rfl (switch_ready hready (fun _ => hready) (fun _ => rfl) halive)
  | sleep core milliseconds =>
    simp only [step]
    split
    · exact Or.inl hready
    · exact hactive rfl (switch_ready hready (fun _ => hready) (fun _ => rfl) halive)
  | v core s =>
    simp only [step]
    split
    · exact Or.inl hready
    · exact Or.inl (List.mem_append_left _ hready)
  | check core =>
    simp only [step, foldl_enqueue]
    exact Or.inl (List.mem_append_left _ hready)
  | ready core thread => exact Or.inl (List.mem_append_left _ hready)
  | kill thread =>
    refine Or.inl ((List.mem_erase_of_ne ?_).2 hready)
    rintro rfl
    exact hkill rfl

theorem switch_retire_gone (h : t ∈ (r.switch core retire).gone) :
    t ∈ r.gone ∨ r.active core = some t := by
  unfold switch at h
  split at h
  · exact Or.inl h
  · next current hcurrent =>
    rw [takeNext_gone] at h
    rcases List.mem_cons.1 h with rfl | hold
    · exact Or.inr hcurrent
    · exact Or.inl hold

/-- A thread is gone after it has exited or has parked itself. -/
theorem step_gone (h : t ∈ (r.step event).gone) :
    t ∈ r.gone ∨
      ∃ core, (event = .exit core ∨ event = .resume core false) ∧ r.active core = some t := by
  cases event with
  | schedule core =>
    exact Or.inl (r.takeNext_gone core ▸ h)
  | resume core requeue =>
    cases requeue with
    | true =>
      have hpark : ∀ t, ((r.leave core).park core true t).gone = r.gone := by
        intro t
        unfold park
        rw [if_pos rfl]
        split <;> rfl
      have hsame : (r.switch core fun r t => r.park core true t).gone = r.gone :=
        switch_keeps gone (takeNext_gone · core) hpark
      exact Or.inl (hsame ▸ h)
    | false => exact (switch_retire_gone h).imp_right fun hactive => ⟨core, Or.inr rfl, hactive⟩
  | exit core => exact (switch_retire_gone h).imp_right fun hactive => ⟨core, Or.inl rfl, hactive⟩
  | p core s =>
    simp only [step] at h
    split at h
    · exact Or.inl h
    · have hsame : (r.switch core fun r t => r.wait s t).gone = r.gone :=
        switch_keeps gone (takeNext_gone · core) fun _ => rfl
      exact Or.inl (hsame ▸ h)
  | sleep core milliseconds =>
    simp only [step] at h
    split at h
    · exact Or.inl h
    · have hsame : (r.switch core fun r t => r.sleep t milliseconds).gone = r.gone :=
        switch_keeps gone (takeNext_gone · core) fun _ => rfl
      exact Or.inl (hsame ▸ h)
  | v core s =>
    simp only [step] at h
    split at h <;> exact Or.inl h
  | check core =>
    simp only [step, foldl_enqueue] at h
    exact Or.inl h
  | ready core t => exact Or.inl h
  | kill t => exact Or.inl h

theorem after_gone {counts : Nat → Nat} (h : t ∈ (after counts events).gone) :
    ∃ history core event later, events = history ++ event :: later ∧
      (event = .exit core ∨ event = .resume core false) ∧
      (after counts history).active core = some t := by
  induction events using List.reverseRecOn with
  | nil => exact absurd h nofun
  | append_singleton events event ih =>
    rw [after_concat] at h
    rcases step_gone h with hold | ⟨core, hevent, hactive⟩
    · obtain ⟨history, core, event', later, rfl, hevent, hactive⟩ := ih hold
      exact ⟨history, core, event', later ++ [event], by simp, hevent, hactive⟩
    · exact ⟨events, core, event, [], rfl, hevent, hactive⟩

/-- A dying thread that is not active stays that way. -/
theorem after_inactive {counts : Nat → Nat} {later : List SchedulerEvent}
    (hdying : (after counts events).dying (.task number) = true)
    (hinactive : ∀ core, (after counts events).active core ≠ some (.task number)) :
    ∀ core, (after counts (events ++ later)).active core ≠ some (.task number) := by
  induction later using List.reverseRecOn with
  | nil => simpa using hinactive
  | append_singleton later event ih =>
    intro core hactive
    rw [← List.append_assoc, after_concat] at hactive
    rcases step_active hactive with hold | halive
    · exact ih core hold
    · have hkilled := ((after_history counts events).2.1 _).1 hdying
      have hstill := ((after_history counts (events ++ later)).2.1 _).2
        (List.mem_append_left later hkilled)
      exact absurd (halive.symm.trans hstill) nofun

end Roster

namespace Vault

variable {cores fuel : Nat} {counts : Nat → Nat}

theorem run_concat (fuel : Nat) (v : Vault) (events : List SchedulerEvent)
    (event : SchedulerEvent) :
    run fuel v (events ++ [event]) = run fuel v events >>= fun v => v.step fuel event := by
  unfold run
  rw [List.foldlM_append]
  simp

section Throughout

variable {P : List SchedulerEvent → Vault → SchedulerEvent → Prop} {v₀ : Vault}
  {history later : List SchedulerEvent}

theorem throughout_nil : Throughout fuel P v₀ [] :=
  fun _ _ _ heq => by simp at heq

/-- A property holds throughout a run when it holds throughout the operations
before the last one, and of the last one. -/
theorem throughout_concat :
    Throughout fuel P v₀ (events ++ [event]) ↔
      Throughout fuel P v₀ events ∧ ∀ v, run fuel v₀ events = .ok v → P events v event := by
  constructor
  · intro h
    refine ⟨fun history event' later heq => ?_, h events event [] rfl⟩
    exact h history event' (later ++ [event]) (by simp [heq])
  · rintro ⟨hbefore, hlast⟩ history event' later heq
    rcases List.eq_nil_or_concat later with rfl | ⟨later, last, rfl⟩
    · obtain ⟨rfl, heq⟩ := List.append_inj' heq rfl
      obtain rfl : event = event' := by simpa using heq
      exact hlast
    · have hsplit : events ++ [event] = (history ++ event' :: later) ++ [last] := by simp [heq]
      obtain ⟨rfl, _⟩ := List.append_inj' hsplit rfl
      exact hbefore history event' later rfl

theorem throughout_before (h : Throughout fuel P v₀ (history ++ later)) :
    Throughout fuel P v₀ history := by
  rintro before event rest rfl
  exact h before event (rest ++ later) (by simp)

/-- Check the operations one by one. -/
def checkThroughout (fuel : Nat) (P : List SchedulerEvent → Vault → SchedulerEvent → Bool) :
    Vault → List SchedulerEvent → List SchedulerEvent → Bool
  | _, _, [] => true
  | v, history, event :: later =>
    P history v event &&
      match v.step fuel event with
      | .ok v' => checkThroughout fuel P v' (history ++ [event]) later
      | .error _ => false

theorem throughout_append {check : List SchedulerEvent → Vault → SchedulerEvent → Bool}
    (hcheck : ∀ history v event, check history v event = true → P history v event) {v : Vault}
    (hhistory : Throughout fuel P v₀ history) (hrun : run fuel v₀ history = .ok v)
    (h : checkThroughout fuel check v history events = true) :
    Throughout fuel P v₀ (history ++ events) := by
  induction events generalizing v history with
  | nil => rwa [List.append_nil]
  | cons event later ih =>
    obtain ⟨hevent, hlater⟩ := Bool.and_eq_true_iff.1 h
    have hnext : Throughout fuel P v₀ (history ++ [event]) := by
      refine throughout_concat.2 ⟨hhistory, fun v' hv' => ?_⟩
      obtain rfl := Except.ok.inj (hrun.symm.trans hv')
      exact hcheck _ _ _ hevent
    have hstep : run fuel v₀ (history ++ [event]) = v.step fuel event := by
      rw [run_concat, hrun]
      rfl
    have hsplit : history ++ event :: later = (history ++ [event]) ++ later := by simp
    cases hresult : v.step fuel event with
    | ok v' =>
      rw [hsplit]
      simp only [hresult] at hlater
      exact ih hnext (hstep.trans hresult) hlater
    | error halt => simp [hresult] at hlater

theorem throughout_of_check (check : List SchedulerEvent → Vault → SchedulerEvent → Bool)
    (hcheck : ∀ history v event, check history v event = true → P history v event)
    (h : checkThroughout fuel check v₀ [] events = true) : Throughout fuel P v₀ events :=
  throughout_append hcheck throughout_nil rfl h

theorem lawful_of_check (h : checkThroughout fuel
    (fun history v event => decide (v.Allowed history event)) v₀ [] events = true) :
    Lawful fuel v₀ events :=
  throughout_of_check _ (fun _ _ _ => of_decide_eq_true) h

end Throughout

/-- What the callers take care of, in terms of the roster. -/
theorem Allowed.roster {v : Vault} {history : List SchedulerEvent} (h : v.Allowed history event)
    (hactive : v.activeThread = (Roster.after counts history).active) :
    (Roster.after counts history).Allowed event := by
  cases event with
  | ready core t =>
    refine ⟨h.1, fun hknown => ?_⟩
    obtain ⟨core', hmem⟩ := ((Roster.after_history counts history).1 t).1 hknown
    exact h.2 core' hmem
  | kill t => exact h
  | v core s => trivial
  | check core => trivial
  | _ =>
    simp only [Allowed, hactive] at h
    exact h

/-- A lawful run returns, and does to the queues what it does to the roster. -/
theorem run_spec (hlawful : Lawful fuel (initial cores counts) events)
    (hfuel : events.length ≤ fuel) :
    ∃ v, run fuel (initial cores counts) events = .ok v ∧
      Refines v (Roster.after counts events) ∧
      v.activeThread = (Roster.after counts events).active ∧
      (Roster.after counts events).Inv [] := by
  induction events using List.reverseRecOn with
  | nil => exact ⟨_, rfl, Refines.initial cores counts, rfl, Roster.inv_initial counts⟩
  | append_singleton events event ih =>
    rw [List.length_append, List.length_singleton] at hfuel
    obtain ⟨hbefore, hlast⟩ := throughout_concat.1 hlawful
    obtain ⟨v, hrun, hrefines, hactive, hinv⟩ := ih hbefore (by omega)
    have hallowed := (hlast v hrun).roster hactive
    have hlength := (Roster.after_history counts events).2.2
    obtain ⟨v', hstep, hrefines', hactive'⟩ := hrefines.step_spec hinv hactive hallowed
      (Nat.lt_of_le_of_lt hlength hfuel)
    rw [Roster.after_concat]
    refine ⟨v', ?_, hrefines', hactive', hinv.step hallowed⟩
    rw [run_concat, hrun]
    exact hstep

/-! ## One place for every thread -/

/-- The thread is in the place, as the pointers have it. -/
def At (v : Vault) (thread : Thread) : Place → Prop
  | .active core => v.activeThread core = some thread
  | .ready => ∃ threads, Holds v.link v.readyQueue threads ∧ thread ∈ threads
  | .waiting s => ∃ threads, Holds v.link (v.semaphores s).waiting threads ∧ thread ∈ threads
  | .sleeping =>
    ∃ threads, Holds v.bellringer.link v.bellringer.bells threads ∧ thread ∈ threads

/-- The thread took itself out of circulation, with `Exit` or with a `Resume`
that does not requeue it. -/
def TookLeave (fuel : Nat) (v : Vault) (events : List SchedulerEvent) (thread : Thread) : Prop :=
  ∃ history core event later v', events = history ++ event :: later ∧
    (event = .exit core ∨ event = .resume core false) ∧
    run fuel v history = .ok v' ∧ v'.activeThread core = some thread

theorem at_iff {v : Vault} {r : Roster} (h : Refines v r) (hactive : v.activeThread = r.active)
    (thread : Thread) (place : Place) : v.At thread place ↔ r.At thread place := by
  have hmem : ∀ {links : Links Thread} {q : Queue Thread} {threads : List Thread},
      Holds links q threads → ((∃ xs, Holds links q xs ∧ thread ∈ xs) ↔ thread ∈ threads) := by
    intro links q threads hholds
    refine ⟨fun ⟨xs, hxs, ht⟩ => ?_, fun ht => ⟨threads, hholds, ht⟩⟩
    rwa [hholds.unique hxs]
  cases place with
  | active core => simp only [At, Roster.At, hactive]
  | ready => exact hmem (h.family.holds none)
  | waiting s => exact hmem (h.family.holds (some s))
  | sleeping =>
    obtain ⟨alarms, hbells⟩ := h.bells
    exact (hmem hbells.holds).trans (hbells.owner_mem_iff thread)

/-- Any sequence of operations that its callers may issue returns.  After it every
queue is a list without duplicates, and a thread is in one place at most.  An idle
thread is nowhere but on its core.  A thread that became ready, was not killed and
did not leave is in some place.  A thread that was killed while it was not running
does not run again. -/
theorem scheduler_exclusive (cores : Nat) (counts : Nat → Nat) (events : List SchedulerEvent)
    (fuel : Nat) (hlawful : Lawful fuel (initial cores counts) events)
    (hfuel : events.length ≤ fuel) :
    ∃ v, run fuel (initial cores counts) events = .ok v ∧
      (∀ i, ∃ threads, Holds v.link (v.queues i) threads) ∧
      (∃ threads, Holds v.bellringer.link v.bellringer.bells threads) ∧
      (∀ thread place place', v.At thread place → v.At thread place' → place = place') ∧
      (∀ core place, v.At (.idle core) place → place = .active core) ∧
      (∀ core thread, .ready core thread ∈ events → .kill thread ∉ events →
        ¬ TookLeave fuel (initial cores counts) events thread → ∃ place, v.At thread place) ∧
      ∀ history thread later, events = history ++ .kill thread :: later →
        ∃ v', run fuel (initial cores counts) (history ++ [.kill thread]) = .ok v' ∧
          ((∀ core, v'.activeThread core ≠ some thread) →
            ∀ core, v.activeThread core ≠ some thread) := by
  obtain ⟨v, hrun, hrefines, hactive, hinv⟩ := run_spec hlawful hfuel
  have hat := at_iff hrefines hactive
  refine ⟨v, hrun, fun i => ⟨_, hrefines.family.holds i⟩, ?_, fun t p p' hp hp' => ?_,
    fun core p hp => ?_, fun core t hready hkill hleave => ?_, ?_⟩
  · obtain ⟨alarms, hbells⟩ := hrefines.bells
    exact ⟨_, hbells.holds⟩
  · exact hinv.unique t p p' ((hat t p).1 hp) ((hat t p').1 hp')
  · exact hinv.idle core p ((hat _ p).1 hp)
  · obtain ⟨hknown, hdying, _⟩ := Roster.after_history counts events
    have hstays : t ∉ (Roster.after counts events).gone := by
      intro hgone
      obtain ⟨history, core', event, later, rfl, hevent, hwas⟩ := Roster.after_gone hgone
      obtain ⟨v', hrun', _, hactive', _⟩ := run_spec (throughout_before hlawful)
        (Nat.le_trans (by simp) hfuel)
      exact hleave ⟨history, core', event, later, v', rfl, hevent, hrun', hactive' ▸ hwas⟩
    obtain ⟨p, hp⟩ := hinv.alive t ((hknown t).2 ⟨core, hready⟩)
      (Bool.eq_false_iff.2 fun hd => hkill ((hdying t).1 hd)) hstays nofun
    exact ⟨p, (hat t p).2 hp⟩
  · rintro history t later rfl
    have hsplit : history ++ .kill t :: later = (history ++ [.kill t]) ++ later := by simp
    rw [hsplit] at hlawful hactive
    have hkilled := throughout_before hlawful
    obtain ⟨v', hrun', _, hactive', _⟩ := run_spec hkilled (Nat.le_trans (by simp) hfuel)
    obtain ⟨before, hbefore, _⟩ :=
      run_spec (throughout_before hkilled) (Nat.le_trans (by simp) hfuel)
    obtain ⟨number, rfl⟩ := (throughout_concat.1 hkilled).2 before hbefore
    refine ⟨v', hrun', fun hinactive => ?_⟩
    rw [hactive]
    refine Roster.after_inactive (((Roster.after_history counts _).2.1 _).2 (by simp)) ?_
    rwa [← hactive']

/-- A thread starts, blocks at a semaphore, is released and runs again. -/
theorem scheduler_exclusive_blocked :
    let events : List SchedulerEvent :=
      [.ready 0 (.task 0), .schedule 0, .p 0 0, .v 0 0, .resume 0 true]
    Lawful 5 (initial 1 fun _ => 0) events ∧
      ∃ v, run 5 (initial 1 fun _ => 0) events = .ok v ∧ v.At (.task 0) (.active 0) ∧
        ∀ place, v.At (.task 0) place → place = .active 0 := by
  have hlawful : Lawful 5 (initial 1 fun _ => 0)
      [.ready 0 (.task 0), .schedule 0, .p 0 0, .v 0 0, .resume 0 true] :=
    lawful_of_check (by decide +kernel)
  obtain ⟨v, hrun, _, _, hunique, _⟩ := scheduler_exclusive 1 (fun _ => 0) _ 5 hlawful (by decide)
  have hactive : v.activeThread 0 = some (.task 0) := by
    obtain rfl := Except.ok.inj hrun
    decide
  exact ⟨hlawful, v, hrun, hactive, fun place hplace => hunique _ _ _ hplace hactive⟩

end Vault

end X64HK
