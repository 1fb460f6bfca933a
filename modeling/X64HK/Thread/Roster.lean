import Mathlib.Data.List.TakeWhile
import X64HK.Thread.Scheduler

/-!
# Where every thread is

`Roster` says what the scheduler is for, with lists in place of linked queues: a
thread is active on a core, ready, waiting at a semaphore, asleep, or out of
circulation.  An operation takes a thread out of one place and puts it into
another.

The thread that is on its way is in no place.  `Inv r limbo` is the invariant of a
roster while the threads `limbo` are on their way.  The lemmas `Inv.leave`,
`Inv.enqueue`, `Inv.takeNext` and so on are the moves, and `Inv.step` puts the
operations together from them.
-/

namespace X64HK

/-- Where a thread can be. -/
inductive Place where
  | active (core : Nat)
  | ready
  | waiting (s : Nat)
  | sleeping
  deriving DecidableEq, Repr

/-- Who runs, who is ready and who waits for what. -/
structure Roster where
  ready : List Thread := []
  active : Nat → Option Thread := fun _ => none
  waiting : Nat → List Thread := fun _ => []
  counter : Nat → Nat
  alarms : Alarms Thread := {}
  dying : Thread → Bool := fun _ => false
  /-- The threads that were made ready at some time. -/
  known : List Thread := []
  /-- The threads that took themselves out of circulation. -/
  gone : List Thread := []

namespace Roster

/-! ## Moves -/

/-- The core runs no thread for the moment. -/
def leave (r : Roster) (core : Nat) : Roster :=
  { r with active := Function.update r.active core none }

/-- The thread gets in line for a core. -/
def enqueue (r : Roster) (thread : Thread) : Roster :=
  { r with ready := r.ready ++ [thread] }

/-- The thread gets in line at a semaphore. -/
def wait (r : Roster) (s : Nat) (thread : Thread) : Roster :=
  { r with waiting := Function.update r.waiting s (r.waiting s ++ [thread]) }

/-- The thread sets its alarm. -/
def sleep (r : Roster) (thread : Thread) (milliseconds : Nat) : Roster :=
  { r with alarms := r.alarms.sleep thread milliseconds }

/-- The thread ends. -/
def retire (r : Roster) (thread : Thread) : Roster :=
  { r with gone := thread :: r.gone }

/-- The first ready thread that is not dying becomes active, or the idle thread
does. -/
def takeNext (r : Roster) (core : Nat) : Roster :=
  match r.ready.dropWhile r.dying with
  | [] => { r with ready := [], active := Function.update r.active core (some (.idle core)) }
  | next :: rest => { r with ready := rest, active := Function.update r.active core (some next) }

/-- What happens to the thread that gives up its core with `Resume`. -/
def park (r : Roster) (core : Nat) (requeue : Bool) (current : Thread) : Roster :=
  if requeue then
    if !r.dying current && current ≠ .idle core then r.enqueue current else r
  else r.retire current

/-- The thread of `core` is put away by `away`, and the next one is taken. -/
def switch (r : Roster) (core : Nat) (away : Roster → Thread → Roster) : Roster :=
  match r.active core with
  | none => r
  | some current => (away (r.leave core) current).takeNext core

/-! ## Operations -/

/-- Before any thread was made ready. -/
def initial (counts : Nat → Nat) : Roster where
  counter := counts

/-- One operation of the scheduler, a semaphore or the alarms. -/
def step (r : Roster) : SchedulerEvent → Roster
  | .schedule core => r.takeNext core
  | .ready _ thread => { r with known := thread :: r.known }.enqueue thread
  | .resume core requeue => r.switch core fun r current => r.park core requeue current
  | .exit core => r.switch core retire
  | .kill thread =>
    { r with dying := Function.update r.dying thread true, ready := r.ready.erase thread }
  | .p core s =>
    if r.counter s > 0 then
      { r with counter := Function.update r.counter s (r.counter s - 1) }
    else r.switch core fun r current => r.wait s current
  | .v _ s =>
    match r.waiting s with
    | [] => { r with counter := Function.update r.counter s ((r.counter s + 1) % 2 ^ 32) }
    | waiter :: rest => { r with waiting := Function.update r.waiting s rest }.enqueue waiter
  | .sleep core milliseconds =>
    if milliseconds = 0 then r
    else r.switch core fun r current => r.sleep current milliseconds
  | .check _ => r.alarms.due.foldl enqueue { r with alarms := r.alarms.check }

/-- What `Vault.Allowed` says, for a roster. -/
def Allowed (r : Roster) : SchedulerEvent → Prop
  | .schedule core => r.active core = none
  | .ready _ thread => (∃ number, thread = .task number) ∧ thread ∉ r.known
  | .resume core requeue =>
    ∃ thread, r.active core = some thread ∧ (requeue = false → ∃ number, thread = .task number)
  | .exit core | .p core _ => ∃ number, r.active core = some (.task number)
  | .sleep core milliseconds =>
    (∃ number, r.active core = some (.task number)) ∧ milliseconds < 2 ^ 32
  | .kill thread => ∃ number, thread = .task number
  | .v _ _ | .check _ => True

/-! ## The invariant -/

/-- The thread is in the place. -/
def At (r : Roster) (thread : Thread) : Place → Prop
  | .active core => r.active core = some thread
  | .ready => thread ∈ r.ready
  | .waiting s => thread ∈ r.waiting s
  | .sleeping => thread ∈ r.alarms.pending.map Prod.fst

/-- A thread that is not idle is in one place at most, and it is in one unless it
is on its way, dying or gone. -/
structure Inv (r : Roster) (limbo : List Thread) : Prop where
  unique : ∀ thread place place', r.At thread place → r.At thread place' → place = place'
  ready : r.ready.Nodup
  waiting : ∀ s, (r.waiting s).Nodup
  sleeping : (r.alarms.pending.map Prod.fst).Nodup
  idle : ∀ core place, r.At (.idle core) place → place = .active core
  known : ∀ number place, r.At (.task number) place → .task number ∈ r.known
  tasks : ∀ thread ∈ r.known, ∃ number, thread = .task number
  nodup : limbo.Nodup
  nowhere : ∀ thread ∈ limbo, thread ∈ r.known ∧ ∀ place, ¬ r.At thread place
  alive : ∀ thread ∈ r.known, r.dying thread = false → thread ∉ r.gone → thread ∉ limbo →
    ∃ place, r.At thread place

theorem inv_initial (counts : Nat → Nat) : Inv (initial counts) [] where
  unique := fun _ place _ h _ => by cases place <;> exact absurd h nofun
  ready := List.nodup_nil
  waiting := fun _ => List.nodup_nil
  sleeping := List.nodup_nil
  idle := fun _ place h => by cases place <;> exact absurd h nofun
  known := fun _ place h => by cases place <;> exact absurd h nofun
  tasks := nofun
  nodup := List.nodup_nil
  nowhere := nofun
  alive := nofun

variable {r : Roster} {limbo : List Thread} {thread : Thread} {core : Nat} {threads : List Thread}

/-- A thread arrives where it was on its way to. -/
theorem Inv.arrive (h : Inv r (thread :: limbo)) {r' : Roster} (place : Place)
    (hat : ∀ t q, r'.At t q ↔ r.At t q ∨ t = thread ∧ q = place) (hready : r'.ready.Nodup)
    (hwaiting : ∀ s, (r'.waiting s).Nodup) (hsleeping : (r'.alarms.pending.map Prod.fst).Nodup)
    (hknown : r'.known = r.known) (hgone : r'.gone = r.gone) (hdying : r'.dying = r.dying) :
    Inv r' limbo := by
  obtain ⟨hself, hnowhere⟩ := h.nowhere thread (List.mem_cons_self ..)
  obtain ⟨hnotMem, hnodup⟩ := List.nodup_cons.1 h.nodup
  obtain ⟨number, hnumber⟩ := h.tasks thread hself
  refine ⟨fun t q q' hq hq' => ?_, hready, hwaiting, hsleeping, fun c q hq => ?_, fun n q hq => ?_,
    hknown ▸ h.tasks, hnodup, fun t ht => ?_, fun t hmem halive hstays hlimbo => ?_⟩
  · rcases (hat t q).1 hq with hold | ⟨rfl, rfl⟩
    · rcases (hat t q').1 hq' with hold' | ⟨rfl, rfl⟩
      · exact h.unique t q q' hold hold'
      · exact absurd hold (hnowhere q)
    · rcases (hat _ q').1 hq' with hold' | ⟨_, rfl⟩
      · exact absurd hold' (hnowhere q')
      · rfl
  · rcases (hat _ q).1 hq with hold | ⟨heq, _⟩
    · exact h.idle c q hold
    · exact absurd (heq.trans hnumber) nofun
  · rw [hknown]
    rcases (hat _ q).1 hq with hold | ⟨heq, _⟩
    · exact h.known n q hold
    · rwa [heq]
  · obtain ⟨hmem, hnone⟩ := h.nowhere t (List.mem_cons_of_mem thread ht)
    refine ⟨hknown ▸ hmem, fun q hq => ?_⟩
    rcases (hat t q).1 hq with hold | ⟨heq, _⟩
    · exact hnone q hold
    · exact hnotMem (heq ▸ ht)
  · by_cases heq : t = thread
    · exact ⟨place, (hat t place).2 (Or.inr ⟨heq, rfl⟩)⟩
    · obtain ⟨q, hq⟩ := h.alive t (hknown ▸ hmem) (hdying ▸ halive) (hgone ▸ hstays) (by
        simp [heq, hlimbo])
      exact ⟨q, (hat t q).2 (Or.inl hq)⟩

/-- Threads set out from a place. -/
theorem Inv.depart (h : Inv r limbo) {r' : Roster} (threads : List Thread) (place : Place)
    (hplace : ∀ t ∈ threads, r.At t place)
    (hat : ∀ t q, r'.At t q ↔ r.At t q ∧ ¬ (t ∈ threads ∧ q = place))
    (htask : ∀ t ∈ threads, ∃ number, t = .task number) (hnodup : threads.Nodup)
    (hready : r'.ready.Nodup) (hwaiting : ∀ s, (r'.waiting s).Nodup)
    (hsleeping : (r'.alarms.pending.map Prod.fst).Nodup)
    (hknown : r'.known = r.known) (hgone : r'.gone = r.gone) (hdying : r'.dying = r.dying) :
    Inv r' (threads ++ limbo) := by
  have hdisjoint : ∀ t ∈ threads, ∀ u ∈ limbo, t ≠ u := by
    rintro t ht u hu rfl
    exact (h.nowhere t hu).2 place (hplace t ht)
  refine ⟨fun t q q' hq hq' => h.unique t q q' ((hat t q).1 hq).1 ((hat t q').1 hq').1, hready,
    hwaiting, hsleeping, fun c q hq => h.idle c q ((hat _ q).1 hq).1,
    fun n q hq => hknown ▸ h.known n q ((hat _ q).1 hq).1, hknown ▸ h.tasks,
    List.nodup_append.2 ⟨hnodup, h.nodup, hdisjoint⟩, fun t ht => ?_,
    fun t hmem halive hstays hlimbo => ?_⟩
  · rcases List.mem_append.1 ht with ht | ht
    · obtain ⟨number, rfl⟩ := htask t ht
      refine ⟨hknown ▸ h.known number place (hplace _ ht), fun q hq => ?_⟩
      obtain ⟨hold, hne⟩ := (hat _ q).1 hq
      exact hne ⟨ht, h.unique _ q place hold (hplace _ ht)⟩
    · obtain ⟨hmem, hnone⟩ := h.nowhere t ht
      exact ⟨hknown ▸ hmem, fun q hq => hnone q ((hat t q).1 hq).1⟩
  · obtain ⟨q, hq⟩ := h.alive t (hknown ▸ hmem) (hdying ▸ halive) (hgone ▸ hstays)
      fun hmem => hlimbo (List.mem_append_right _ hmem)
    exact ⟨q, (hat t q).2 ⟨hq, fun heq => hlimbo (List.mem_append_left _ heq.1)⟩⟩

/-- Threads get lost, which is right for those that are dying or gone. -/
theorem Inv.vanish (h : Inv r limbo) {r' : Roster} {limbo' : List Thread}
    (hlimbo : limbo'.Sublist limbo) (hat : ∀ t q, r'.At t q → r.At t q)
    (hkeep : ∀ t ∈ r.known, r'.dying t = false → t ∉ r'.gone →
      r.dying t = false ∧ t ∉ r.gone ∧ (t ∈ limbo → t ∈ limbo') ∧ ∀ q, r.At t q → r'.At t q)
    (hready : r'.ready.Nodup) (hwaiting : ∀ s, (r'.waiting s).Nodup)
    (hsleeping : (r'.alarms.pending.map Prod.fst).Nodup) (hknown : r'.known = r.known) :
    Inv r' limbo' := by
  refine ⟨fun t q q' hq hq' => h.unique t q q' (hat t q hq) (hat t q' hq'), hready, hwaiting,
    hsleeping, fun c q hq => h.idle c q (hat _ q hq),
    fun n q hq => hknown ▸ h.known n q (hat _ q hq),
    hknown ▸ h.tasks, h.nodup.sublist hlimbo, fun t ht => ?_, fun t hmem halive hstays hmiss => ?_⟩
  · obtain ⟨hmem, hnone⟩ := h.nowhere t (hlimbo.mem ht)
    exact ⟨hknown ▸ hmem, fun q hq => hnone q (hat t q hq)⟩
  · rw [hknown] at hmem
    obtain ⟨hdying, hgone, hpass, hsame⟩ := hkeep t hmem halive hstays
    obtain ⟨q, hq⟩ := h.alive t hmem hdying hgone fun ht => hmiss (hpass ht)
    exact ⟨q, hsame q hq⟩

/-! ## The moves keep the invariant -/

private theorem nodup_concat (h : threads.Nodup) (hnew : thread ∉ threads) :
    (threads ++ [thread]).Nodup := by
  rw [← List.concat_eq_append]
  exact h.concat hnew

theorem Inv.enqueue (h : Inv r (thread :: limbo)) : Inv (r.enqueue thread) limbo := by
  obtain ⟨_, hnowhere⟩ := h.nowhere thread (List.mem_cons_self ..)
  refine h.arrive .ready (fun t q => ?_) (nodup_concat h.ready (hnowhere .ready)) h.waiting
    h.sleeping rfl rfl rfl
  cases q <;> simp [At, Roster.enqueue]

theorem Inv.wait (h : Inv r (thread :: limbo)) (s : Nat) : Inv (r.wait s thread) limbo := by
  obtain ⟨_, hnowhere⟩ := h.nowhere thread (List.mem_cons_self ..)
  refine h.arrive (.waiting s) (fun t q => ?_) h.ready (fun s' => ?_) h.sleeping rfl rfl rfl
  · cases q with
    | waiting s' =>
      by_cases hs : s' = s
      · subst hs
        simp [At, Roster.wait]
      · simp [At, Roster.wait, hs]
    | _ => simp [At, Roster.wait]
  · by_cases hs : s' = s
    · subst hs
      simpa [Roster.wait] using nodup_concat (h.waiting s') (hnowhere (.waiting s'))
    · simpa [Roster.wait, Function.update_of_ne hs] using h.waiting s'

theorem Inv.sleep (h : Inv r (thread :: limbo)) (milliseconds : Nat) :
    Inv (r.sleep thread milliseconds) limbo := by
  obtain ⟨_, hnowhere⟩ := h.nowhere thread (List.mem_cons_self ..)
  refine h.arrive .sleeping (fun t q => ?_) h.ready h.waiting ?_ rfl rfl rfl
  · cases q <;> simp [At, Roster.sleep, Alarms.sleep]
  · have hnew := nodup_concat h.sleeping (hnowhere .sleeping)
    simpa [Roster.sleep, Alarms.sleep] using hnew

theorem Inv.retire (h : Inv r (thread :: limbo)) : Inv (r.retire thread) limbo := by
  refine h.vanish (List.sublist_cons_self ..) (fun t q hq => ?_) (fun t hmem halive hstays => ?_)
    h.ready h.waiting h.sleeping rfl
  · cases q <;> exact hq
  · obtain ⟨hne, hstays⟩ : t ≠ thread ∧ t ∉ r.gone := by simpa [Roster.retire] using hstays
    refine ⟨halive, hstays, fun ht => ?_, fun q hq => by cases q <;> exact hq⟩
    exact (List.mem_cons.1 ht).resolve_left hne

/-- A dying thread need not arrive. -/
theorem Inv.drop (h : Inv r (thread :: limbo)) (hdying : r.dying thread = true) : Inv r limbo := by
  refine h.vanish (List.sublist_cons_self ..) (fun _ _ hq => hq) (fun t _ halive hstays => ?_)
    h.ready h.waiting h.sleeping rfl
  refine ⟨halive, hstays, fun ht => ?_, fun _ hq => hq⟩
  rcases List.mem_cons.1 ht with rfl | ht
  · exact absurd (halive.symm.trans hdying) nofun
  · exact ht

theorem at_leave (t : Thread) (q : Place) :
    (r.leave core).At t q ↔ r.At t q ∧ q ≠ .active core := by
  cases q with
  | active c =>
    by_cases hc : c = core
    · subst hc
      simp [At, Roster.leave]
    · simp [At, Roster.leave, hc]
  | _ => simp [At, Roster.leave]

/-- A thread gives up its core. -/
theorem Inv.leave (h : Inv r limbo) {number : Nat} (hactive : r.active core = some (.task number)) :
    Inv (r.leave core) (.task number :: limbo) := by
  have hat : r.At (.task number) (.active core) := hactive
  refine h.depart [.task number] (.active core) (by simpa using hat) (fun t q => ?_) (by simp)
    (List.nodup_singleton _) h.ready h.waiting h.sleeping rfl rfl rfl
  rw [at_leave]
  refine and_congr_right fun hq => not_congr ⟨?_, And.right⟩
  rintro rfl
  exact ⟨List.mem_singleton.2 (Option.some.inj (hq.symm.trans hactive)), rfl⟩

/-- The idle thread gives up its core. -/
theorem Inv.leave_idle (h : Inv r limbo) (hactive : r.active core = some (.idle core)) :
    Inv (r.leave core) limbo := by
  refine h.vanish (List.Sublist.refl _) (fun t q hq => (at_leave t q).1 hq |>.1)
    (fun t hmem halive hstays => ?_) h.ready h.waiting h.sleeping rfl
  refine ⟨halive, hstays, fun ht => ht, fun q hq => (at_leave t q).2 ⟨hq, ?_⟩⟩
  rintro rfl
  obtain ⟨number, rfl⟩ := h.tasks t hmem
  exact absurd (Option.some.inj (hq.symm.trans hactive)) nofun

/-- Idle threads do not stand in queues. -/
theorem Inv.task_of_at (h : Inv r limbo) {place : Place} (hat : r.At thread place)
    (hplace : ∀ core, place ≠ .active core) : ∃ number, thread = .task number := by
  cases thread with
  | idle c => exact absurd (h.idle c _ hat) (hplace c)
  | task number => exact ⟨number, rfl⟩

theorem mem_tail_iff {rest : List Thread} (hnodup : (thread :: rest).Nodup) (t : Thread) :
    t ∈ rest ↔ t ∈ thread :: rest ∧ t ∉ [thread] := by
  rw [List.mem_singleton, List.mem_cons]
  constructor
  · exact fun hmem => ⟨Or.inr hmem, fun heq => (List.nodup_cons.1 hnodup).1 (heq ▸ hmem)⟩
  · rintro ⟨heq | hmem, hne⟩
    · exact absurd heq hne
    · exact hmem

/-- A semaphore lets its first waiter go. -/
theorem Inv.release (h : Inv r limbo) {s : Nat} {rest : List Thread}
    (hwaiting : r.waiting s = thread :: rest) :
    Inv { r with waiting := Function.update r.waiting s rest } (thread :: limbo) := by
  have hat : r.At thread (.waiting s) := by
    show thread ∈ r.waiting s
    rw [hwaiting]
    exact List.mem_cons_self ..
  have hnodup := h.waiting s
  rw [hwaiting] at hnodup
  refine h.depart [thread] (.waiting s) (by simpa using hat) (fun t q => ?_)
    (by simpa using h.task_of_at hat fun _ => Place.noConfusion) (List.nodup_singleton _)
    h.ready (fun s' => ?_) h.sleeping rfl rfl rfl
  · cases q with
    | waiting s' =>
      by_cases hs : s' = s
      · subst hs
        simp only [At, Function.update_self, hwaiting, and_true]
        exact mem_tail_iff hnodup t
      · simp [At, hs]
    | _ => simp [At]
  · by_cases hs : s' = s
    · subst hs
      simpa using (List.nodup_cons.1 hnodup).2
    · simpa [Function.update_of_ne hs] using h.waiting s'

/-- A tick lets the sleepers go that are due. -/
theorem Inv.awaken (h : Inv r limbo) :
    Inv { r with alarms := r.alarms.check } (r.alarms.due ++ limbo) := by
  have hdue : ∀ t ∈ r.alarms.due, r.At t .sleeping := by
    intro t ht
    obtain ⟨alarm, halarm, rfl⟩ := List.mem_map.1 ht
    exact List.mem_map.2 ⟨alarm, List.mem_of_mem_filter halarm, rfl⟩
  have hsublist := fun keep : Thread × Nat → Bool =>
    (List.filter_sublist (l := r.alarms.pending) (p := keep)).map Prod.fst
  refine h.depart _ .sleeping hdue (fun t q => ?_) (fun t ht => ?_)
    (h.sleeping.sublist (hsublist _)) h.ready h.waiting (h.sleeping.sublist (hsublist _))
    rfl rfl rfl
  · cases q with
    | sleeping =>
      simp only [At, Alarms.check, and_true]
      constructor
      · intro ht
        refine ⟨(hsublist _).mem ht, fun hmem => ?_⟩
        obtain ⟨alarm, halarm, rfl⟩ := List.mem_map.1 ht
        obtain ⟨other, hother, heq⟩ := List.mem_map.1 hmem
        obtain ⟨halarm, hlate⟩ := List.mem_filter.1 halarm
        obtain ⟨hother, hnow⟩ := List.mem_filter.1 hother
        have hsame : other = alarm := List.inj_on_of_nodup_map h.sleeping hother halarm heq
        rw [hsame] at hnow
        simp at hlate hnow
        exact hlate hnow
      · rintro ⟨ht, hnot⟩
        obtain ⟨alarm, halarm, rfl⟩ := List.mem_map.1 ht
        refine List.mem_map.2 ⟨alarm, List.mem_filter.2 ⟨halarm, ?_⟩, rfl⟩
        simp only [decide_not, Bool.not_eq_eq_eq_not, Bool.not_true, decide_eq_false_iff_not]
        intro hnow
        exact hnot (List.mem_map.2 ⟨alarm, List.mem_filter.2 ⟨halarm, by simpa using hnow⟩, rfl⟩)
    | _ => simp [At]
  · exact h.task_of_at (hdue t ht) fun _ => Place.noConfusion

/-! ## The next thread -/

theorem at_activate (hvacant : r.active core = none) (t : Thread) (q : Place) :
    { r with active := Function.update r.active core (some thread) }.At t q ↔
      r.At t q ∨ t = thread ∧ q = .active core := by
  cases q with
  | active c =>
    by_cases hc : c = core
    · subst hc
      simp [At, hvacant, eq_comm]
    · simp [At, hc]
  | _ => simp [At]

/-- A thread that is on its way can become active on a core that has none. -/
theorem Inv.activate (h : Inv r (thread :: limbo)) (hvacant : r.active core = none) :
    Inv { r with active := Function.update r.active core (some thread) } limbo :=
  h.arrive (.active core) (at_activate hvacant) h.ready h.waiting h.sleeping rfl rfl rfl

/-- The idle thread can always become active on its core. -/
theorem Inv.activate_idle (h : Inv r limbo) (hvacant : r.active core = none) :
    Inv { r with active := Function.update r.active core (some (.idle core)) } limbo := by
  have hat := @at_activate r (.idle core) core hvacant
  have hnone : ∀ q, ¬ r.At (.idle core) q := by
    intro q hq
    obtain rfl := h.idle core q hq
    exact absurd (hvacant.symm.trans hq) nofun
  refine ⟨fun t q q' hq hq' => ?_, h.ready, h.waiting, h.sleeping, fun c q hq => ?_,
    fun n q hq => ?_, h.tasks, h.nodup, fun t ht => ?_, fun t hmem halive hstays hlimbo => ?_⟩
  · rcases (hat t q).1 hq with hold | ⟨rfl, rfl⟩
    · rcases (hat t q').1 hq' with hold' | ⟨rfl, rfl⟩
      · exact h.unique t q q' hold hold'
      · exact absurd hold (hnone q)
    · rcases (hat _ q').1 hq' with hold' | ⟨_, rfl⟩
      · exact absurd hold' (hnone q')
      · rfl
  · rcases (hat _ q).1 hq with hold | ⟨heq, rfl⟩
    · exact h.idle c q hold
    · rw [Thread.idle.inj heq]
  · rcases (hat _ q).1 hq with hold | ⟨heq, _⟩
    · exact h.known n q hold
    · exact absurd heq nofun
  · obtain ⟨hmem, hnowhere⟩ := h.nowhere t ht
    refine ⟨hmem, fun q hq => ?_⟩
    rcases (hat t q).1 hq with hold | ⟨rfl, _⟩
    · exact hnowhere q hold
    · obtain ⟨number, heq⟩ := h.tasks _ hmem
      exact absurd heq nofun
  · obtain ⟨q, hq⟩ := h.alive t hmem halive hstays hlimbo
    exact ⟨q, (hat t q).2 (Or.inl hq)⟩

theorem mem_dropWhile {dying : Thread → Bool} (hmem : thread ∈ threads)
    (halive : dying thread = false) : thread ∈ threads.dropWhile dying := by
  rw [← List.takeWhile_append_dropWhile (p := dying) (l := threads)] at hmem
  rcases List.mem_append.1 hmem with htaken | hdropped
  · exact absurd (halive.symm.trans (List.mem_takeWhile_imp htaken)) nofun
  · exact hdropped

/-- Dying threads in front of the ready queue are forgotten. -/
theorem Inv.dropDying (h : Inv r limbo) :
    Inv { r with ready := r.ready.dropWhile r.dying } limbo := by
  have hsublist : (r.ready.dropWhile r.dying).Sublist r.ready := List.dropWhile_sublist _
  refine h.vanish (List.Sublist.refl _) (fun t q hq => ?_) (fun t _ halive hstays => ?_)
    (h.ready.sublist hsublist) h.waiting h.sleeping rfl
  · cases q with
    | ready => exact hsublist.mem hq
    | _ => exact hq
  · refine ⟨halive, hstays, fun ht => ht, fun q hq => ?_⟩
    cases q with
    | ready => exact mem_dropWhile hq halive
    | _ => exact hq

/-- The first ready thread leaves the queue. -/
theorem Inv.dequeue (h : Inv r limbo) {rest : List Thread} (hready : r.ready = thread :: rest) :
    Inv { r with ready := rest } (thread :: limbo) := by
  have hat : r.At thread .ready := by
    show thread ∈ r.ready
    rw [hready]
    exact List.mem_cons_self ..
  have hnodup := h.ready
  rw [hready] at hnodup
  refine h.depart [thread] .ready (by simpa using hat) (fun t q => ?_)
    (by simpa using h.task_of_at hat fun _ => Place.noConfusion) (List.nodup_singleton _)
    (List.nodup_cons.1 hnodup).2 h.waiting h.sleeping rfl rfl rfl
  cases q with
  | ready =>
    simp only [At, hready, and_true]
    exact mem_tail_iff hnodup t
  | _ => simp [At]

theorem Inv.takeNext (h : Inv r limbo) (hvacant : r.active core = none) :
    Inv (r.takeNext core) limbo := by
  unfold Roster.takeNext
  have hdrop := h.dropDying
  cases hready : r.ready.dropWhile r.dying with
  | nil =>
    rw [hready] at hdrop
    exact hdrop.activate_idle hvacant
  | cons next rest => exact (hdrop.dequeue hready).activate hvacant

/-! ## The operations keep the invariant -/

theorem leave_active (r : Roster) (core : Nat) : (r.leave core).active core = none :=
  Function.update_self ..

/-- A thread gives up its core for good, or for the place that `away` brings it
to. -/
theorem Inv.switch (h : Inv r []) {number : Nat} (hactive : r.active core = some (.task number))
    {away : Roster → Thread → Roster}
    (hsame : (away (r.leave core) (.task number)).active = (r.leave core).active)
    (haway : Inv (r.leave core) [.task number] → Inv (away (r.leave core) (.task number)) []) :
    Inv (r.switch core away) [] := by
  unfold Roster.switch
  rw [hactive]
  refine (haway (h.leave hactive)).takeNext ?_
  rw [hsame, leave_active]

theorem park_active (r : Roster) (core : Nat) (requeue : Bool) (current : Thread) :
    (r.park core requeue current).active = r.active := by
  unfold park
  split
  · split <;> rfl
  · rfl

theorem Inv.resume (h : Inv r []) {requeue : Bool} (hactive : r.active core = some thread)
    (htask : requeue = false → ∃ number, thread = .task number) :
    Inv (r.switch core fun r current => r.park core requeue current) [] := by
  cases thread with
  | task number =>
    refine h.switch hactive (park_active ..) fun hleft => ?_
    unfold park
    cases requeue with
    | false => exact hleft.retire
    | true =>
      cases hdying : r.dying (.task number) with
      | true => simpa [Roster.leave, hdying] using hleft.drop hdying
      | false => simpa [Roster.leave, hdying] using hleft.enqueue
  | idle c =>
    obtain rfl : core = c := Place.active.inj (h.idle c (.active core) hactive)
    cases requeue with
    | false =>
      obtain ⟨_, hfalse⟩ := htask rfl
      exact absurd hfalse nofun
    | true =>
      have hleft := h.leave_idle hactive
      unfold Roster.switch park
      simpa [hactive] using hleft.takeNext (leave_active r core)

theorem Inv.kill (h : Inv r limbo) (t : Thread) :
    Inv { r with dying := Function.update r.dying t true, ready := r.ready.erase t } limbo := by
  refine h.vanish (List.Sublist.refl _) (fun u q hq => ?_) (fun u _ halive hstays => ?_)
    (h.ready.sublist List.erase_sublist) h.waiting h.sleeping rfl
  · cases q with
    | ready => exact List.mem_of_mem_erase hq
    | _ => exact hq
  · have hne : u ≠ t := by
      rintro rfl
      simp at halive
    refine ⟨by simpa [hne] using halive, hstays, fun ht => ht, fun q hq => ?_⟩
    cases q with
    | ready => exact (List.mem_erase_of_ne hne).2 hq
    | _ => exact hq

/-- A thread that was never ready is in no place. -/
theorem Inv.meet (h : Inv r limbo) (htask : ∃ number, thread = .task number)
    (hnew : thread ∉ r.known) : Inv { r with known := thread :: r.known } (thread :: limbo) := by
  obtain ⟨number, rfl⟩ := htask
  have hnone : ∀ q, ¬ r.At (.task number) q := fun q hq => hnew (h.known number q hq)
  have hat : ∀ t q, { r with known := .task number :: r.known }.At t q ↔ r.At t q := by
    intro t q
    cases q <;> rfl
  refine ⟨fun t q q' hq hq' => h.unique t q q' ((hat t q).1 hq) ((hat t q').1 hq'), h.ready,
    h.waiting, h.sleeping, fun c q hq => h.idle c q ((hat _ q).1 hq), fun n q hq => ?_,
    fun t ht => ?_, ?_, fun t ht => ?_, fun t hmem halive hstays hlimbo => ?_⟩
  · exact List.mem_cons_of_mem _ (h.known n q ((hat _ q).1 hq))
  · rcases List.mem_cons.1 ht with rfl | ht
    · exact ⟨number, rfl⟩
    · exact h.tasks t ht
  · exact List.nodup_cons.2 ⟨fun hmem => hnew (h.nowhere _ hmem).1, h.nodup⟩
  · rcases List.mem_cons.1 ht with rfl | ht
    · exact ⟨List.mem_cons_self .., fun q hq => hnone q ((hat _ q).1 hq)⟩
    · obtain ⟨hmem, hnowhere⟩ := h.nowhere t ht
      exact ⟨List.mem_cons_of_mem _ hmem, fun q hq => hnowhere q ((hat t q).1 hq)⟩
  · obtain ⟨hne, hlimbo⟩ : t ≠ .task number ∧ t ∉ limbo := by simpa using hlimbo
    obtain ⟨q, hq⟩ := h.alive t ((List.mem_cons.1 hmem).resolve_left hne) halive hstays hlimbo
    exact ⟨q, (hat t q).2 hq⟩

theorem Inv.enqueueAll (h : Inv r (threads ++ limbo)) :
    Inv (threads.foldl Roster.enqueue r) limbo := by
  induction threads generalizing r with
  | nil => exact h
  | cons t threads ih => exact ih h.enqueue

/-- The counters do not matter. -/
theorem Inv.count (h : Inv r limbo) (counter : Nat → Nat) :
    Inv { r with counter := counter } limbo := by
  refine h.vanish (List.Sublist.refl _) (fun t q hq => by cases q <;> exact hq)
    (fun t _ halive hstays => ?_) h.ready h.waiting h.sleeping rfl
  exact ⟨halive, hstays, fun ht => ht, fun q hq => by cases q <;> exact hq⟩

/-- Every operation that is allowed keeps every thread in its one place. -/
theorem Inv.step (h : Inv r []) {event : SchedulerEvent} (hallowed : r.Allowed event) :
    Inv (r.step event) [] := by
  cases event with
  | schedule core => exact h.takeNext hallowed
  | ready core thread => exact (h.meet hallowed.1 hallowed.2).enqueue
  | resume core requeue =>
    obtain ⟨thread, hactive, htask⟩ := hallowed
    exact h.resume hactive htask
  | exit core =>
    obtain ⟨number, hactive⟩ := hallowed
    exact h.switch hactive rfl fun hleft => hleft.retire
  | kill thread => exact h.kill thread
  | p core s =>
    obtain ⟨number, hactive⟩ := hallowed
    by_cases hcount : r.counter s > 0
    · simpa only [Roster.step, if_pos hcount] using h.count _
    · simp only [Roster.step, if_neg hcount]
      exact h.switch hactive rfl fun hleft => hleft.wait s
  | v core s =>
    cases hwaiting : r.waiting s with
    | nil => simpa [Roster.step, hwaiting] using h.count _
    | cons waiter rest => simpa [Roster.step, hwaiting] using (h.release hwaiting).enqueue
  | sleep core milliseconds =>
    obtain ⟨⟨number, hactive⟩, _⟩ := hallowed
    by_cases hzero : milliseconds = 0
    · simpa only [Roster.step, if_pos hzero] using h
    · simp only [Roster.step, if_neg hzero]
      exact h.switch hactive rfl fun hleft => hleft.sleep milliseconds
  | check core => exact h.awaken.enqueueAll

end Roster

end X64HK
