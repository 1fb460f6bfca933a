import Mathlib.Algebra.GroupWithZero.Nat
import X64HK.Config
import X64HK.Debug.Panic
import X64HK.Lib.IntrusiveQueue

/-!
# Sleeping threads

A model of `Kernel/Sync/Bellringer.cpp`.  A thread that sleeps has a bell on its
stack, and the bells are in a queue in the order in which they come due.  A bell
stores the number of ticks after the bell in front of it.

A sleeping thread has one bell, so the thread itself names the bell.  `check`
returns the owners of the bells that came due, in the order in which the source
passes them to `Scheduler::Ready`, which does not touch the bells.

`Alarms` says what the component is for: a thread that goes to sleep is due at
an absolute tick, and a tick wakes those that are due.  `Represents` ties
the queue to it.

* `walk_spec` finds the place of a new bell, `sleep_spec` inserts it there.
* `check_spec` is one tick.
* `run_spec` is any sequence of both, and `bellringer_correct` reads the
  properties of the source off it.
-/

namespace X64HK

open IntrusiveQueue

variable {α : Type}

/-- The bells, by the threads that own them. -/
structure Bellringer (α : Type) where
  /-- `Bell::m_QueueLink`. -/
  link : Links α := fun _ => none
  /-- `Bell::Ticks`. -/
  ticks : α → Nat := fun _ => 0
  /-- `m_Bells`. -/
  bells : Queue α := {}

namespace Bellringer

/-- The number of ticks that a thread sleeps. -/
def ticksOf (milliseconds : Nat) : Nat :=
  let ticks := milliseconds / Config.SCHEDULER_TICK_MS
  if ticks = 0 then 1 else ticks

/-- The loop of `Sleep` from `current` on.  It leaves the ticks after the last
bell that comes due before the new one, and that bell. -/
def walk (b : Bellringer α) : Option α → Nat → Option α → Nat → Outcome (Nat × Option α)
  | none, ticks, previous, _ => .ok (ticks, previous)
  | some _, _, _, 0 => .error .outOfFuel
  | some current, ticks, previous, fuel + 1 =>
    if b.ticks current ≤ ticks then
      walk b (b.link current) (sub64 ticks (b.ticks current)) (some current) fuel
    else .ok (ticks, previous)

def successor (b : Bellringer α) : Option α → Option α
  | none => b.bells.head
  | some previous => b.link previous

variable [DecidableEq α]

/-- The successor gives up the ticks that the new bell accounts for. -/
def shorten (b : Bellringer α) (successor : Option α) (ticks : Nat) : Bellringer α :=
  match successor with
  | none => b
  | some next => { b with ticks := Function.update b.ticks next (sub64 (b.ticks next) ticks) }

/-- Construct the bell of `owner` and link it. -/
def insert (b : Bellringer α) (previous : Option α) (owner : α) (ticks : Nat) : Bellringer α :=
  let link := Function.update b.link owner none
  let linked :=
    match previous with
    | none => prepend link b.bells owner
    | some previous => insertAfter link b.bells previous owner
  let (link, bells) := linked.getD (link, b.bells)
  { link := link, ticks := Function.update b.ticks owner ticks, bells := bells }

/-- `Bellringer::Sleep` up to the call of `Resume`.  The last argument bounds
the number of bells to walk over. -/
def sleep (b : Bellringer α) (owner : α) (milliseconds fuel : Nat) : Outcome (Bellringer α) :=
  if milliseconds = 0 then .ok b
  else do
    let (ticks, previous) ← walk b b.bells.head (ticksOf milliseconds) none fuel
    return insert (shorten b (successor b previous) ticks) previous owner ticks

/-- The first bell gets one tick closer. -/
def tick (b : Bellringer α) (head : α) : Bellringer α :=
  if b.ticks head > 0 then
    { b with ticks := Function.update b.ticks head (sub64 (b.ticks head) 1) }
  else b

/-- The loop of `Check`, with the owners of the bells that it dequeues. -/
def checkLoop : Bellringer α → Nat → Outcome (List α × Bellringer α)
  | _, 0 => .error .outOfFuel
  | b, fuel + 1 =>
    match b.bells.head with
    | none => .ok ([], b)
    | some head =>
      if b.ticks head = 0 then do
        let (_, link, bells) := dequeue b.link b.bells
        let (owners, b) ← checkLoop { b with link := link, bells := bells } fuel
        return (head :: owners, b)
      else .ok ([], b)

/-- `Bellringer::Check`. -/
def check (b : Bellringer α) (fuel : Nat) : Outcome (List α × Bellringer α) :=
  match b.bells.head with
  | none => .ok ([], b)
  | some head => checkLoop (b.tick head) fuel

end Bellringer

/-! ## What the bells are for -/

/-- The threads that sleep in the order in which they went to sleep, each with
the tick at which it is due. -/
structure Alarms (α : Type) where
  now : Nat := 0
  pending : List (α × Nat) := []

namespace Alarms

def sleep (s : Alarms α) (owner : α) (milliseconds : Nat) : Alarms α :=
  { s with pending := s.pending ++ [(owner, s.now + Bellringer.ticksOf milliseconds)] }

/-- The threads that are due at the next tick. -/
def due (s : Alarms α) : List α :=
  (s.pending.filter fun alarm => alarm.2 = s.now + 1).map Prod.fst

def check (s : Alarms α) : Alarms α where
  now := s.now + 1
  pending := s.pending.filter fun alarm => alarm.2 ≠ s.now + 1

end Alarms

/-- What happens to the bells: a thread goes to sleep, or a tick. -/
inductive BellEvent (α : Type) where
  | sleep (owner : α) (milliseconds : Nat)
  | check

variable {milliseconds : Nat} {events : List (BellEvent α)}

namespace Alarms

def step (s : Alarms α) : BellEvent α → List α × Alarms α
  | .sleep owner milliseconds => ([], s.sleep owner milliseconds)
  | .check => (s.due, s.check)

/-- The alarms after a sequence of events. -/
def after (s : Alarms α) (events : List (BellEvent α)) : Alarms α :=
  events.foldl (fun s event => (s.step event).2) s

/-- The threads that each event of a sequence wakes. -/
def woken (s : Alarms α) : List (BellEvent α) → List (List α)
  | [] => []
  | event :: events => (s.step event).1 :: woken (s.step event).2 events

/-- Only threads that are awake go to sleep, and for a time that fits an
`unsigned`. -/
def Valid (s : Alarms α) : List (BellEvent α) → Prop
  | [] => True
  | event :: events =>
    (match event with
      | .sleep owner milliseconds =>
        owner ∉ s.pending.map Prod.fst ∧ 0 < milliseconds ∧ milliseconds < 2 ^ 32
      | .check => True) ∧
      Valid (s.step event).2 events

end Alarms

namespace Bellringer

variable [DecidableEq α] in
/-- One event, with the threads that it makes ready. -/
def step (b : Bellringer α) (fuel : Nat) : BellEvent α → Outcome (List α × Bellringer α)
  | .sleep owner milliseconds => do
    let b ← b.sleep owner milliseconds fuel
    return ([], b)
  | .check => b.check fuel

variable [DecidableEq α] in
def run (fuel : Nat) : Bellringer α → List (BellEvent α) → Outcome (List (List α) × Bellringer α)
  | b, [] => .ok ([], b)
  | b, event :: events => do
    let (owners, b) ← b.step fuel event
    let (rest, b) ← run fuel b events
    return (owners :: rest, b)

/-- The delta of each bell is the distance to the one in front of it, and the
first one counts from `now`. -/
def Deltas (ticks : α → Nat) : Nat → List (α × Nat) → Prop
  | _, [] => True
  | now, alarm :: rest => now + ticks alarm.1 = alarm.2 ∧ Deltas ticks alarm.2 rest

/-- The tick at which the last of these alarms is due. -/
def lastDue (now : Nat) (alarms : List (α × Nat)) : Nat :=
  (alarms.getLast?.map Prod.snd).getD now

/-- The queue holds the alarms `alarms` in the order in which they are due, and
those of `s` with the same tick in the order in which they went to sleep. -/
structure Represents (b : Bellringer α) (s : Alarms α) (alarms : List (α × Nat)) : Prop where
  holds : Holds b.link b.bells (alarms.map Prod.fst)
  deltas : Deltas b.ticks s.now alarms
  sorted : alarms.Pairwise fun first second => first.2 ≤ second.2
  stable : ∀ tick, (alarms.filter fun alarm => alarm.2 = tick) =
    s.pending.filter fun alarm => alarm.2 = tick
  future : ∀ alarm ∈ alarms, s.now < alarm.2 ∧ alarm.2 ≤ s.now + 2 ^ 32

variable {b : Bellringer α} {s : Alarms α} {alarms : List (α × Nat)}
  {ticks : α → Nat} {now due : Nat} {front back : List (α × Nat)}

/-! ## Deltas -/

@[simp] theorem lastDue_nil (now : Nat) : lastDue now ([] : List (α × Nat)) = now := rfl

theorem lastDue_cons (now : Nat) (alarm : α × Nat) (alarms : List (α × Nat)) :
    lastDue now (alarm :: alarms) = lastDue alarm.2 alarms := by
  unfold lastDue
  cases alarms with
  | nil => rfl
  | cons next rest => simp [List.getLast?_cons]

theorem deltas_append :
    Deltas ticks now (front ++ back) ↔
      Deltas ticks now front ∧ Deltas ticks (lastDue now front) back := by
  induction front generalizing now with
  | nil => simp [Deltas]
  | cons alarm front ih => rw [List.cons_append, Deltas, Deltas, ih, lastDue_cons, and_assoc]

theorem Deltas.congr {ticks' : α → Nat} {alarms : List (α × Nat)} (h : Deltas ticks now alarms)
    (hsame : ∀ owner ∈ alarms.map Prod.fst, ticks' owner = ticks owner) :
    Deltas ticks' now alarms := by
  induction alarms generalizing now with
  | nil => exact h
  | cons alarm rest ih =>
    refine ⟨?_, ih h.2 fun owner howner => hsame owner (List.mem_cons_of_mem _ howner)⟩
    rw [hsame alarm.1 (List.mem_cons_self ..)]
    exact h.1

/-- The prefix sums of the deltas are the remaining ticks. -/
theorem Deltas.sum_eq {alarm : α × Nat} (h : Deltas ticks now (front ++ alarm :: back)) :
    now + ((front.map fun a => ticks a.1).sum + ticks alarm.1) = alarm.2 := by
  induction front generalizing now with
  | nil =>
    rw [List.map_nil, List.sum_nil, Nat.zero_add]
    exact h.1
  | cons first front ih =>
    have hrest := ih h.2
    have hfirst : now + ticks first.1 = first.2 := h.1
    rw [List.map_cons, List.sum_cons]
    omega

/-! ## Finding the place -/

/-- The bells that come due no later than the new one are walked over. -/
theorem walk_spec (b : Bellringer α) :
    ∀ {alarms : List (α × Nat)} {start : Option α} (previous : Option α) {base ticks fuel : Nat},
      Path b.link start (alarms.map Prod.fst) none → Deltas b.ticks base alarms →
      base + ticks = due → ticks < 2 ^ 64 → alarms.length ≤ fuel →
      ∃ front back, alarms = front ++ back ∧ (∀ alarm ∈ front, alarm.2 ≤ due) ∧
        (∀ alarm ∈ back.head?, due < alarm.2) ∧
        walk b start ticks previous fuel =
          .ok (due - lastDue base front, (front.getLast?.map Prod.fst).or previous) := by
  intro alarms
  induction alarms with
  | nil =>
    rintro start previous base ticks fuel rfl _ hticks _ _
    refine ⟨[], [], rfl, nofun, nofun, ?_⟩
    rw [walk]
    simp [← hticks]
  | cons alarm rest ih =>
    rintro start previous base ticks fuel ⟨rfl, hpath⟩ ⟨hdelta, hdeltas⟩ hticks hlt hfuel
    match fuel with
    | 0 => exact absurd hfuel (Nat.not_succ_le_zero _)
    | fuel + 1 =>
      by_cases hle : b.ticks alarm.1 ≤ ticks
      · have hsub : sub64 ticks (b.ticks alarm.1) = ticks - b.ticks alarm.1 :=
          sub64_of_le hlt hle
        obtain ⟨front, back, rfl, hfront, hback, hwalk⟩ := ih (some alarm.1) hpath hdeltas
          (show alarm.2 + (ticks - b.ticks alarm.1) = due by omega) (by omega)
          (Nat.le_of_succ_le_succ hfuel)
        refine ⟨alarm :: front, back, rfl, ?_, hback, ?_⟩
        · intro other hother
          rcases List.mem_cons.1 hother with rfl | hmem
          · omega
          · exact hfront other hmem
        · rw [walk, if_pos hle, hsub, hwalk, lastDue_cons]
          cases front with
          | nil => rfl
          | cons other front => simp [List.getLast?_cons]
      · refine ⟨[], alarm :: rest, rfl, nofun, ?_, ?_⟩
        · intro other hother
          obtain rfl := Option.some.inj (show some alarm = some other from hother)
          omega
        · rw [walk, if_neg hle]
          simp [← hticks]

theorem lastDue_le {alarms : List (α × Nat)} (hnow : now ≤ due)
    (h : ∀ alarm ∈ alarms, alarm.2 ≤ due) : lastDue now alarms ≤ due := by
  unfold lastDue
  cases hlast : alarms.getLast? with
  | none => exact hnow
  | some alarm => exact h alarm (List.mem_of_getLast? hlast)

/-- In a sorted list everything behind a late alarm is late. -/
theorem lt_of_head_lt (hsorted : back.Pairwise fun first second => first.2 ≤ second.2)
    (hhead : ∀ alarm ∈ back.head?, due < alarm.2) : ∀ alarm ∈ back, due < alarm.2 := by
  cases back with
  | nil => exact nofun
  | cons next rest =>
    intro alarm halarm
    have hnext := hhead next rfl
    rcases List.mem_cons.1 halarm with rfl | hmem
    · exact hnext
    · exact Nat.lt_of_lt_of_le hnext ((List.pairwise_cons.1 hsorted).1 alarm hmem)

/-- The successor of the last bell that was walked over. -/
theorem successor_eq (h : Holds b.link b.bells ((front ++ back).map Prod.fst)) :
    successor b (front.getLast?.map Prod.fst) = back.head?.map Prod.fst := by
  rcases List.eq_nil_or_concat front with rfl | ⟨rest, last, rfl⟩
  · exact h.head_eq.trans List.head?_map
  · rw [List.concat_eq_append] at *
    have hsplit : Holds b.link b.bells
        (rest.map Prod.fst ++ last.1 :: back.map Prod.fst) := by simpa using h
    rw [List.getLast?_append_cons, List.getLast?_singleton, Option.map_some, successor,
      hsplit.link_eq, List.head?_map]

/-- A new alarm behind all that are due no later keeps the list sorted. -/
theorem sorted_insert {owner : α}
    (h : (front ++ back).Pairwise fun first second => first.2 ≤ second.2)
    (hfront : ∀ alarm ∈ front, alarm.2 ≤ due) (hback : ∀ alarm ∈ back, due < alarm.2) :
    (front ++ (owner, due) :: back).Pairwise fun first second => first.2 ≤ second.2 := by
  obtain ⟨hsorted, hsorted', hcross⟩ := List.pairwise_append.1 h
  refine List.pairwise_append.2 ⟨hsorted, List.pairwise_cons.2
    ⟨fun alarm halarm => Nat.le_of_lt (hback alarm halarm), hsorted'⟩, ?_⟩
  intro first hfirst second hsecond
  rcases List.mem_cons.1 hsecond with rfl | hmem
  · exact hfront first hfirst
  · exact hcross first hfirst second hmem

/-- Among the alarms of one tick the new one is the last. -/
theorem filter_insert {owner : α} (hback : ∀ alarm ∈ back, due < alarm.2) (tick : Nat) :
    ((front ++ (owner, due) :: back).filter fun alarm => alarm.2 = tick) =
      ((front ++ back).filter fun alarm => alarm.2 = tick) ++
        [(owner, due)].filter fun alarm => alarm.2 = tick := by
  rw [List.filter_append, List.filter_append, List.append_assoc, ← List.singleton_append,
    List.filter_append]
  congr 1
  by_cases htick : due = tick
  · have hnone : (back.filter fun alarm => alarm.2 = tick) = [] := by
      refine List.filter_eq_nil_iff.2 fun alarm halarm => ?_
      have hlt := hback alarm halarm
      simp only [decide_eq_true_eq]
      omega
    rw [hnone, List.append_nil, List.nil_append]
  · have hnone : ([(owner, due)].filter fun alarm => alarm.2 = tick) = [] := by
      simp [htick]
    rw [hnone, List.append_nil, List.nil_append]

variable [DecidableEq α] {fuel : Nat}

/-- The bell behind the new one counts from the new one. -/
theorem deltas_insert {owner : α} (h : Deltas ticks now (front ++ back))
    (hnodup : ((front ++ back).map Prod.fst).Nodup) (howner : owner ∉ (front ++ back).map Prod.fst)
    (hle : lastDue now front ≤ due) (hback : ∀ alarm ∈ back.head?, due ≤ alarm.2) :
    Deltas
      (Function.update
        (match back.head? with
          | none => ticks
          | some next => Function.update ticks next.1 (ticks next.1 - (due - lastDue now front)))
        owner (due - lastDue now front))
      now (front ++ (owner, due) :: back) := by
  obtain ⟨hfront, hrest⟩ := deltas_append.1 h
  rw [List.map_append] at hnodup howner
  obtain ⟨_, hnodupback, hdistinct⟩ := List.nodup_append.1 hnodup
  have hofront : ∀ x ∈ front.map Prod.fst, x ≠ owner :=
    fun x hx heq => howner (List.mem_append_left _ (heq ▸ hx))
  have hoback : ∀ x ∈ back.map Prod.fst, x ≠ owner :=
    fun x hx heq => howner (List.mem_append_right _ (heq ▸ hx))
  refine deltas_append.2 ⟨hfront.congr fun x hx => ?_, ?_, ?_⟩
  · rw [Function.update_of_ne (hofront x hx)]
    cases back with
    | nil => rfl
    | cons next rest =>
      exact Function.update_of_ne (hdistinct x hx next.1 (List.mem_cons_self ..)) _ _
  · rw [Function.update_self]
    omega
  · cases back with
    | nil => exact trivial
    | cons next rest =>
      obtain ⟨hdelta, hdeltas⟩ := hrest
      obtain ⟨hself, _⟩ := List.nodup_cons.1 hnodupback
      have hlate := hback next rfl
      refine ⟨?_, hdeltas.congr fun x hx => ?_⟩
      · rw [Function.update_of_ne (hoback next.1 (List.mem_cons_self ..))]
        simp only [List.head?_cons, Function.update_self]
        omega
      · rw [Function.update_of_ne (hoback x (List.mem_cons_of_mem _ hx))]
        exact update_of_notMem ticks hself _ x hx

/-- The bell is linked behind those that were walked over. -/
theorem insert_holds {owner : α} (ticks : Nat)
    (h : Holds b.link b.bells ((front ++ back).map Prod.fst))
    (howner : owner ∉ (front ++ back).map Prod.fst) :
    ∃ link bells, insert b (front.getLast?.map Prod.fst) owner ticks =
        { link := link, ticks := Function.update b.ticks owner ticks, bells := bells } ∧
      Holds link bells (front.map Prod.fst ++ owner :: back.map Prod.fst) := by
  have hholds : Holds (Function.update b.link owner none) b.bells ((front ++ back).map Prod.fst) :=
    h.frame (update_of_notMem b.link howner none)
  have hlink : Function.update b.link owner none owner = none := Function.update_self ..
  unfold insert
  rcases List.eq_nil_or_concat front with rfl | ⟨rest, last, rfl⟩
  · obtain ⟨link, bells, hprepend, hnew, _⟩ := prepend_spec hholds howner hlink
    exact ⟨link, bells, by simp [hprepend], hnew⟩
  · rw [List.concat_eq_append] at *
    have hsplit : Holds (Function.update b.link owner none) b.bells
        (rest.map Prod.fst ++ last.1 :: back.map Prod.fst) := by simpa using hholds
    have hfresh : owner ∉ rest.map Prod.fst ++ last.1 :: back.map Prod.fst := by
      simpa using howner
    obtain ⟨link, bells, hinsert, hnew, _⟩ := insertAfter_spec hsplit hfresh hlink
    exact ⟨link, bells, by simp [hinsert], by simpa using hnew⟩

theorem ticksOf_eq_max (milliseconds : Nat) :
    ticksOf milliseconds = max 1 (milliseconds / Config.SCHEDULER_TICK_MS) := by
  unfold ticksOf
  generalize milliseconds / Config.SCHEDULER_TICK_MS = ticks
  dsimp only
  split <;> omega

theorem ticksOf_le (h : milliseconds < 2 ^ 32) : ticksOf milliseconds ≤ 2 ^ 32 := by
  rw [ticksOf_eq_max, Config.SCHEDULER_TICK_MS]
  omega

/-- The subtraction from the successor's ticks does not wrap around. -/
def NoUnderflow (b : Bellringer α) (milliseconds fuel : Nat) : Prop :=
  ∀ ticks previous,
    walk b b.bells.head (ticksOf milliseconds) none fuel = .ok (ticks, previous) →
    ∀ next, successor b previous = some next → ticks ≤ b.ticks next

omit [DecidableEq α] in
/-- A bell in front of which there is room has at least those ticks. -/
theorem Represents.room (h : Represents b s (front ++ back))
    (hback : ∀ alarm ∈ back.head?, due < alarm.2) :
    ∀ next ∈ back.head?, due - lastDue s.now front ≤ b.ticks next.1 ∧ b.ticks next.1 < 2 ^ 64 := by
  intro next hnext
  cases back with
  | nil => exact absurd hnext nofun
  | cons first rest =>
    obtain rfl := Option.some.inj (show some first = some next from hnext)
    have hfuture := (h.future first (by simp)).2
    have hdelta : lastDue s.now front + b.ticks first.1 = first.2 := (deltas_append.1 h.deltas).2.1
    have hlate := hback first rfl
    have hbase : s.now ≤ lastDue s.now front := by
      unfold lastDue
      cases hl : front.getLast? with
      | none => exact Nat.le_refl _
      | some alarm =>
        have hmem := List.mem_append_left (first :: rest) (List.mem_of_getLast? hl)
        exact Nat.le_of_lt (h.future alarm hmem).1
    omega

omit [DecidableEq α] in
/-- Where the loop of `Sleep` ends: the bells of `front` are due no later than
the new one, those of `back` are. -/
theorem Represents.walk (h : Represents b s alarms) (hlt : milliseconds < 2 ^ 32)
    (hfuel : alarms.length ≤ fuel) :
    ∃ front back, alarms = front ++ back ∧
      (∀ alarm ∈ front, alarm.2 ≤ s.now + ticksOf milliseconds) ∧
      (∀ alarm ∈ back.head?, s.now + ticksOf milliseconds < alarm.2) ∧
      Bellringer.walk b b.bells.head (ticksOf milliseconds) none fuel =
        .ok (s.now + ticksOf milliseconds - lastDue s.now front, front.getLast?.map Prod.fst) := by
  have hticks := ticksOf_le hlt
  obtain ⟨front, back, hsplit, hfront, hback, hwalk⟩ := walk_spec b none h.holds.path h.deltas
    (rfl : s.now + ticksOf milliseconds = s.now + ticksOf milliseconds) (by omega) hfuel
  rw [Option.or_none] at hwalk
  exact ⟨front, back, hsplit, hfront, hback, hwalk⟩

omit [DecidableEq α] in
theorem Represents.noUnderflow (h : Represents b s alarms) (hlt : milliseconds < 2 ^ 32)
    (hfuel : alarms.length ≤ fuel) :
    NoUnderflow b milliseconds fuel := by
  obtain ⟨front, back, rfl, _, hback, hwalk⟩ := h.walk hlt hfuel
  intro ticks previous hresult next hnext
  rw [hwalk] at hresult
  obtain ⟨rfl, rfl⟩ := Prod.mk.inj (Except.ok.inj hresult)
  rw [successor_eq h.holds] at hnext
  obtain ⟨alarm, halarm, rfl⟩ := Option.map_eq_some_iff.1 hnext
  exact (h.room hback alarm halarm).1

theorem shorten_links (b : Bellringer α) (next : Option α) (ticks : Nat) :
    (shorten b next ticks).link = b.link ∧ (shorten b next ticks).bells = b.bells := by
  unfold shorten
  split <;> exact ⟨rfl, rfl⟩

theorem shorten_ticks {next : Option (α × Nat)} {ticks : Nat} :
    (∀ alarm ∈ next, ticks ≤ b.ticks alarm.1 ∧ b.ticks alarm.1 < 2 ^ 64) →
    (shorten b (next.map Prod.fst) ticks).ticks = match next with
      | none => b.ticks
      | some alarm => Function.update b.ticks alarm.1 (b.ticks alarm.1 - ticks) := by
  intro hroom
  unfold shorten
  cases next with
  | none => rfl
  | some alarm =>
    obtain ⟨hle, hbound⟩ := hroom alarm rfl
    simp only [Option.map_some, sub64_of_le hbound hle]

/-- `Sleep` adds one alarm, behind all that are due no later. -/
theorem sleep_spec (h : Represents b s alarms) {owner : α} (howner : owner ∉ alarms.map Prod.fst)
    (hpos : 0 < milliseconds) (hlt : milliseconds < 2 ^ 32) (hfuel : alarms.length ≤ fuel) :
    ∃ b' alarms', sleep b owner milliseconds fuel = .ok b' ∧
      Represents b' (s.sleep owner milliseconds) alarms' ∧
      alarms'.Perm ((owner, s.now + ticksOf milliseconds) :: alarms) := by
  have hticks := ticksOf_le hlt
  obtain ⟨front, back, rfl, hfront, hback, hwalk⟩ := h.walk hlt hfuel
  obtain ⟨due, hdue⟩ : ∃ due, due = s.now + ticksOf milliseconds := ⟨_, rfl⟩
  rw [← hdue] at hfront hback hwalk
  have hlast : lastDue s.now front ≤ due := lastDue_le (by omega) hfront
  have hlate := lt_of_head_lt (List.pairwise_append.1 h.sorted).2.1 hback
  obtain ⟨short, hshort⟩ : ∃ short, short =
      shorten b (back.head?.map Prod.fst) (due - lastDue s.now front) := ⟨_, rfl⟩
  have hlinks := shorten_links b (back.head?.map Prod.fst) (due - lastDue s.now front)
  have hshortTicks := shorten_ticks (h.room hback)
  rw [← hshort] at hlinks hshortTicks
  obtain ⟨link, bells, hinsert, hholds⟩ := @insert_holds _ short front back _ owner
    (due - lastDue s.now front) (by rw [hlinks.1, hlinks.2]; exact h.holds) howner
  refine ⟨⟨link, Function.update short.ticks owner (due - lastDue s.now front), bells⟩,
    front ++ (owner, due) :: back, ?_, ⟨?_, ?_, ?_, ?_, ?_⟩, ?_⟩
  · rw [sleep, if_neg (by omega), hwalk]
    simp only [bind, Except.bind, pure, Except.pure, successor_eq h.holds, ← hshort, hinsert]
  · simpa using hholds
  · rw [hshortTicks]
    exact deltas_insert h.deltas h.holds.nodup howner hlast
      fun alarm halarm => Nat.le_of_lt (hback alarm halarm)
  · exact sorted_insert h.sorted hfront hlate
  · intro tick
    rw [filter_insert hlate, h.stable tick, Alarms.sleep, ← hdue, List.filter_append]
  · intro alarm halarm
    rcases List.mem_cons.1 (List.perm_middle.mem_iff.1 halarm) with rfl | hmem
    · have hmax := ticksOf_eq_max milliseconds
      simp only [Alarms.sleep]
      omega
    · exact h.future alarm hmem
  · rw [← hdue]
    exact List.perm_middle

/-! ## A tick -/

/-- The loop of `Check` dequeues the bells in front that are due now. -/
theorem checkLoop_spec :
    ∀ {alarms : List (α × Nat)} {b : Bellringer α} {fuel : Nat},
      Holds b.link b.bells (alarms.map Prod.fst) → Deltas b.ticks now alarms →
      alarms.length < fuel →
      ∃ b', checkLoop b fuel =
          .ok ((alarms.takeWhile fun alarm => alarm.2 = now).map Prod.fst, b') ∧
        Holds b'.link b'.bells ((alarms.dropWhile fun alarm => alarm.2 = now).map Prod.fst) ∧
        Deltas b'.ticks now (alarms.dropWhile fun alarm => alarm.2 = now) := by
  intro alarms
  induction alarms with
  | nil =>
    intro b fuel hholds _ hfuel
    match fuel with
    | 0 => exact absurd hfuel (Nat.not_lt_zero _)
    | fuel + 1 =>
      have hhead : b.bells.head = none := hholds.head_eq
      exact ⟨b, by rw [checkLoop, hhead]; rfl, hholds, trivial⟩
  | cons alarm rest ih =>
    intro b fuel hholds hdeltas hfuel
    match fuel with
    | 0 => exact absurd hfuel (Nat.not_lt_zero _)
    | fuel + 1 =>
      have hhead : b.bells.head = some alarm.1 := hholds.head_eq
      have hdelta : now + b.ticks alarm.1 = alarm.2 := hdeltas.1
      by_cases hdue : alarm.2 = now
      · obtain ⟨link, bells, hdequeue, hrest, _⟩ := dequeue_spec hholds
        obtain ⟨b', hloop, hholds', hdeltas'⟩ := @ih ⟨link, b.ticks, bells⟩ fuel hrest
          (hdue ▸ hdeltas.2) (Nat.lt_of_succ_lt_succ hfuel)
        refine ⟨b', ?_, ?_, ?_⟩
        · rw [checkLoop, hhead]
          simp only [show b.ticks alarm.1 = 0 by omega, if_true, hdequeue, hloop, bind,
            Except.bind, pure, Except.pure]
          rw [List.takeWhile_cons_of_pos (by simpa using hdue), List.map_cons]
        · rwa [List.dropWhile_cons_of_pos (by simpa using hdue)]
        · rwa [List.dropWhile_cons_of_pos (by simpa using hdue)]
      · refine ⟨b, ?_, ?_, ?_⟩
        · rw [checkLoop, hhead]
          simp only [show b.ticks alarm.1 ≠ 0 by omega, if_false]
          rw [List.takeWhile_cons_of_neg (by simpa using hdue), List.map_nil]
        · rwa [List.dropWhile_cons_of_neg (by simpa using hdue)]
        · rwa [List.dropWhile_cons_of_neg (by simpa using hdue)]

/-- The head's delta shrinks as the clock goes on. -/
theorem deltas_tick {alarm : α × Nat} {rest : List (α × Nat)}
    (h : Deltas b.ticks now (alarm :: rest)) (hnodup : ((alarm :: rest).map Prod.fst).Nodup)
    (hfuture : now < alarm.2) (hle : alarm.2 ≤ now + 2 ^ 32) :
    Deltas (b.tick alarm.1).ticks (now + 1) (alarm :: rest) := by
  have hdelta : now + b.ticks alarm.1 = alarm.2 := h.1
  obtain ⟨hself, _⟩ := List.nodup_cons.1 hnodup
  rw [tick, if_pos (by omega), sub64_of_le (by omega) (by omega)]
  refine ⟨?_, h.2.congr (update_of_notMem b.ticks hself _)⟩
  show now + 1 + Function.update b.ticks alarm.1 (b.ticks alarm.1 - 1) alarm.1 = alarm.2
  rw [Function.update_self]
  omega

omit [DecidableEq α] in
/-- In a sorted list without earlier alarms, those of the first tick are in
front. -/
theorem takeWhile_eq_filter {alarms : List (α × Nat)}
    (hsorted : alarms.Pairwise fun first second => first.2 ≤ second.2)
    (hle : ∀ alarm ∈ alarms, now ≤ alarm.2) :
    (alarms.takeWhile fun alarm => alarm.2 = now) = (alarms.filter fun alarm => alarm.2 = now) ∧
      (alarms.dropWhile fun alarm => alarm.2 = now) = alarms.filter fun alarm => alarm.2 ≠ now := by
  induction alarms with
  | nil => exact ⟨rfl, rfl⟩
  | cons alarm rest ih =>
    obtain ⟨hfirst, hrest⟩ := List.pairwise_cons.1 hsorted
    by_cases hdue : alarm.2 = now
    · obtain ⟨htake, hdrop⟩ :=
        ih hrest fun other hother => hle other (List.mem_cons_of_mem _ hother)
      rw [List.takeWhile_cons_of_pos (by simpa using hdue), htake,
        List.dropWhile_cons_of_pos (by simpa using hdue), hdrop,
        List.filter_cons_of_pos (by simpa using hdue),
        List.filter_cons_of_neg (by simpa using hdue)]
      exact ⟨rfl, rfl⟩
    · have hlate : ∀ other ∈ alarm :: rest, other.2 ≠ now := by
        intro other hother
        have hnow := hle alarm (List.mem_cons_self ..)
        rcases List.mem_cons.1 hother with rfl | hmem
        · exact hdue
        · have hother' := hfirst other hmem
          omega
      rw [List.takeWhile_cons_of_neg (by simpa using hdue),
        List.dropWhile_cons_of_neg (by simpa using hdue),
        List.filter_eq_nil_iff.2 fun other hother => by simpa using hlate other hother,
        List.filter_eq_self.2 fun other hother => by simpa using hlate other hother]
      exact ⟨rfl, rfl⟩

/-- `Check` wakes the threads that are due at the next tick, in the order in
which they went to sleep. -/
theorem check_spec (h : Represents b s alarms) (hfuel : alarms.length < fuel) :
    ∃ b', check b fuel = .ok (s.due, b') ∧
      Represents b' s.check (alarms.filter fun alarm => alarm.2 ≠ s.now + 1) := by
  have hle : ∀ alarm ∈ alarms, s.now + 1 ≤ alarm.2 := fun alarm halarm => (h.future alarm halarm).1
  obtain ⟨htake, hdrop⟩ := takeWhile_eq_filter h.sorted hle
  have hstable : ∀ tick,
      ((alarms.filter fun alarm => alarm.2 ≠ s.now + 1).filter fun alarm => alarm.2 = tick) =
        (s.pending.filter fun alarm => alarm.2 ≠ s.now + 1).filter fun alarm => alarm.2 = tick := by
    intro tick
    rw [List.filter_comm, h.stable tick, List.filter_comm]
  have hfuture : ∀ alarm ∈ alarms.filter fun alarm => alarm.2 ≠ s.now + 1,
      s.now + 1 < alarm.2 ∧ alarm.2 ≤ s.now + 1 + 2 ^ 32 := by
    intro alarm halarm
    obtain ⟨hmem, hne⟩ := List.mem_filter.1 halarm
    have hbounds := h.future alarm hmem
    have hne' : alarm.2 ≠ s.now + 1 := by simpa using hne
    omega
  have hsorted := h.sorted.filter fun alarm => decide (alarm.2 ≠ s.now + 1)
  unfold check
  cases alarms with
  | nil =>
    have hhead : b.bells.head = none := h.holds.head_eq
    have hdue : s.due = [] := by
      rw [Alarms.due, ← h.stable (s.now + 1)]
      rfl
    exact ⟨b, by rw [hhead, hdue], h.holds, trivial, hsorted, hstable, hfuture⟩
  | cons alarm rest =>
    have hhead : b.bells.head = some alarm.1 := h.holds.head_eq
    have hbounds := h.future alarm (List.mem_cons_self ..)
    have hlinks : (b.tick alarm.1).link = b.link ∧ (b.tick alarm.1).bells = b.bells := by
      unfold tick
      split <;> exact ⟨rfl, rfl⟩
    have hholds : Holds (b.tick alarm.1).link (b.tick alarm.1).bells
        ((alarm :: rest).map Prod.fst) := by
      rw [hlinks.1, hlinks.2]
      exact h.holds
    obtain ⟨b', hloop, hholds', hdeltas'⟩ := checkLoop_spec hholds
      (deltas_tick h.deltas h.holds.nodup hbounds.1 hbounds.2) hfuel
    rw [hdrop] at hholds' hdeltas'
    refine ⟨b', ?_, hholds', hdeltas', hsorted, hstable, hfuture⟩
    rw [hhead, Alarms.due, ← h.stable (s.now + 1), ← htake]
    exact hloop

/-! ## Runs -/

omit [DecidableEq α] in
/-- The queue holds exactly the alarms that are pending. -/
theorem Represents.mem_iff (h : Represents b s alarms) (alarm : α × Nat) :
    alarm ∈ alarms ↔ alarm ∈ s.pending := by
  have hiff : (alarm ∈ alarms.filter fun other => other.2 = alarm.2) ↔
      alarm ∈ s.pending.filter fun other => other.2 = alarm.2 := by rw [h.stable]
  simpa using hiff

omit [DecidableEq α] in
theorem Represents.owner_mem_iff (h : Represents b s alarms) (owner : α) :
    owner ∈ alarms.map Prod.fst ↔ owner ∈ s.pending.map Prod.fst := by
  simp only [List.mem_map, h.mem_iff]

omit [DecidableEq α] in
theorem represents_empty : Represents ({} : Bellringer α) {} [] where
  holds := holds_empty _
  deltas := trivial
  sorted := List.Pairwise.nil
  stable := fun _ => rfl
  future := nofun

/-- One event does what the alarms say, and adds at most one bell. -/
theorem step_spec (h : Represents b s alarms) {event : BellEvent α}
    (hvalid : s.Valid (event :: events)) (hfuel : alarms.length < fuel) :
    ∃ b' alarms', step b fuel event = .ok ((s.step event).1, b') ∧
      Represents b' (s.step event).2 alarms' ∧ alarms'.length ≤ alarms.length + 1 := by
  cases event with
  | sleep owner milliseconds =>
    obtain ⟨⟨howner, hpos, hlt⟩, _⟩ := hvalid
    obtain ⟨b', alarms', hsleep, hrep, hperm⟩ := sleep_spec h
      (mt (h.owner_mem_iff owner).1 howner) hpos hlt (Nat.le_of_lt hfuel)
    refine ⟨b', alarms', ?_, hrep, Nat.le_of_eq hperm.length_eq⟩
    rw [step, hsleep]
    rfl
  | check =>
    obtain ⟨b', hcheck, hrep⟩ := check_spec h hfuel
    exact ⟨b', _, hcheck, hrep, Nat.le_succ_of_le (List.length_filter_le _ _)⟩

/-- Any sequence of events does what the alarms say. -/
theorem run_spec (h : Represents b s alarms) (hvalid : s.Valid events)
    (hfuel : alarms.length + events.length ≤ fuel) :
    ∃ b' alarms', run fuel b events = .ok (s.woken events, b') ∧
      Represents b' (s.after events) alarms' ∧
      alarms'.length ≤ alarms.length + events.length := by
  induction events generalizing b s alarms with
  | nil => exact ⟨b, alarms, rfl, h, Nat.le_refl _⟩
  | cons event events ih =>
    rw [List.length_cons] at hfuel
    obtain ⟨b₁, alarms₁, hstep, hrep₁, hlength₁⟩ := step_spec h hvalid
      (show alarms.length < fuel by omega)
    obtain ⟨b₂, alarms₂, hrun, hrep₂, hlength₂⟩ := ih hrep₁ hvalid.2 (by omega)
    refine ⟨b₂, alarms₂, ?_, hrep₂, by rw [List.length_cons]; omega⟩
    rw [run, hstep]
    simp only [bind, Except.bind, hrun]
    rfl

end Bellringer

namespace Alarms

/-! ## When a sleeper wakes up -/

/-- The number of ticks in a sequence of events. -/
def checks (events : List (BellEvent α)) : Nat :=
  events.countP fun
    | .check => true
    | .sleep .. => false

/-- `owner` has one alarm, at the tick `due`, until that tick. -/
def Sleeping [DecidableEq α] (s : Alarms α) (owner : α) (due : Nat) : Prop :=
  (s.pending.filter fun alarm => alarm.1 = owner) = if s.now < due then [(owner, due)] else []

variable [DecidableEq α] {s : Alarms α} {owner : α} {due : Nat}

omit [DecidableEq α] in
theorem woken_append (s : Alarms α) (first second : List (BellEvent α)) :
    s.woken (first ++ second) = s.woken first ++ (s.after first).woken second := by
  induction first generalizing s with
  | nil => rfl
  | cons event first ih => simp only [List.cons_append, woken, ih, after, List.foldl_cons]

omit [DecidableEq α] in
theorem after_append (s : Alarms α) (first second : List (BellEvent α)) :
    s.after (first ++ second) = (s.after first).after second :=
  List.foldl_append ..

omit [DecidableEq α] in
theorem length_woken (s : Alarms α) (events : List (BellEvent α)) :
    (s.woken events).length = events.length := by
  induction events generalizing s with
  | nil => rfl
  | cons event events ih => rw [woken, List.length_cons, List.length_cons, ih]

omit [DecidableEq α] in
theorem valid_append {first second : List (BellEvent α)} (h : s.Valid (first ++ second)) :
    (s.after first).Valid second := by
  induction first generalizing s with
  | nil => exact h
  | cons event first ih => exact ih h.2

/-- Ticks and other sleepers leave the alarm alone until it is due. -/
theorem Sleeping.step (h : s.Sleeping owner due) {event : BellEvent α}
    (hother : ∀ milliseconds, event ≠ .sleep owner milliseconds) :
    (s.step event).2.Sleeping owner due := by
  unfold Sleeping at *
  cases event with
  | sleep other milliseconds =>
    have hne : other ≠ owner := fun heq => hother milliseconds (by rw [heq])
    show ((s.pending ++ [(other, _)]).filter fun alarm => alarm.1 = owner) =
      if s.now < due then [(owner, due)] else []
    rw [List.filter_append, h, List.filter_cons_of_neg (by simpa using hne), List.filter_nil,
      List.append_nil]
  | check =>
    show ((s.pending.filter fun alarm => alarm.2 ≠ s.now + 1).filter fun alarm => alarm.1 = owner) =
      if s.now + 1 < due then [(owner, due)] else []
    rw [List.filter_comm, h]
    by_cases hlast : s.now + 1 = due
    · rw [if_pos (by omega), if_neg (by omega), List.filter_cons_of_neg (by simp [hlast]),
        List.filter_nil]
    · by_cases hlt : s.now < due
      · rw [if_pos hlt, if_pos (by omega),
          List.filter_cons_of_pos (by simpa using Ne.symm hlast), List.filter_nil]
      · rw [if_neg hlt, if_neg (by omega), List.filter_nil]

theorem Sleeping.after (h : s.Sleeping owner due)
    (hother : ∀ milliseconds, .sleep owner milliseconds ∉ events) :
    (s.after events).Sleeping owner due := by
  induction events generalizing s with
  | nil => exact h
  | cons event events ih =>
    exact ih (h.step fun milliseconds heq => hother milliseconds (heq ▸ List.mem_cons_self ..))
      fun milliseconds hmem => hother milliseconds (List.mem_cons_of_mem _ hmem)

omit [DecidableEq α] in
theorem now_after (s : Alarms α) (events : List (BellEvent α)) :
    (s.after events).now = s.now + checks events := by
  induction events generalizing s with
  | nil => rfl
  | cons event events ih =>
    show ((s.step event).2.after events).now = _
    rw [ih]
    cases event with
    | sleep => rfl
    | check =>
      show s.now + 1 + checks events = s.now + checks (.check :: events)
      rw [checks, checks, List.countP_cons_of_pos rfl]
      omega

omit [DecidableEq α] in
theorem woken_check (s : Alarms α) (before later : List (BellEvent α)) :
    (s.woken (before ++ .check :: later))[before.length]? = some (s.after before).due := by
  rw [woken_append, List.getElem?_append_right (Nat.le_of_eq (length_woken ..)), length_woken,
    Nat.sub_self]
  rfl

theorem Sleeping.sleep (hawake : owner ∉ s.pending.map Prod.fst) (milliseconds : Nat) :
    (s.sleep owner milliseconds).Sleeping owner (s.now + Bellringer.ticksOf milliseconds) := by
  have hpos : 0 < Bellringer.ticksOf milliseconds := by
    rw [Bellringer.ticksOf_eq_max]
    exact Nat.lt_of_lt_of_le Nat.zero_lt_one (Nat.le_max_left ..)
  have hnone : (s.pending.filter fun alarm => alarm.1 = owner) = [] :=
    List.filter_eq_nil_iff.2 fun alarm halarm heq =>
      hawake (List.mem_map.2 ⟨alarm, halarm, by simpa using heq⟩)
  show ((s.pending ++ [(owner, s.now + Bellringer.ticksOf milliseconds)]).filter
    fun alarm => alarm.1 = owner) = _
  rw [List.filter_append, hnone, List.nil_append, List.filter_cons_of_pos (by simp),
    List.filter_nil]
  exact (if_pos (by show s.now < _; omega)).symm

/-- A sleeper is woken at its tick, once, and at no other. -/
theorem Sleeping.count_due (h : s.Sleeping owner due) :
    s.due.count owner = if s.now + 1 = due then 1 else 0 := by
  have hcount : s.due.count owner =
      ((s.pending.filter fun alarm => alarm.1 = owner).filter
        fun alarm => alarm.2 = s.now + 1).length := by
    rw [Alarms.due, List.count_eq_countP, List.countP_map, List.countP_eq_length_filter,
      List.filter_comm]
    rfl
  rw [hcount, h]
  by_cases hlast : s.now + 1 = due
  · rw [if_pos (by omega), if_pos hlast, List.filter_cons_of_pos (by simpa using hlast.symm)]
    rfl
  · rw [if_neg hlast]
    split
    · rw [List.filter_cons_of_neg (by simpa using Ne.symm hlast)]
      rfl
    · rfl

/-- Of the ticks before it sleeps again, a sleeper is woken by the one that its
time asks for. -/
theorem woken_sleeper {before between later : List (BellEvent α)}
    (hvalid : s.Valid (before ++ .sleep owner milliseconds :: between ++ .check :: later))
    (hother : ∀ again, .sleep owner again ∉ between) :
    ∃ owners, (s.woken (before ++ .sleep owner milliseconds :: between ++ .check :: later))[
        before.length + 1 + between.length]? = some owners ∧
      owners.count owner =
        if checks between + 1 = max 1 (milliseconds / Config.SCHEDULER_TICK_MS) then 1 else 0 := by
  have hcheck := woken_check s (before ++ .sleep owner milliseconds :: between) later
  rw [List.length_append, List.length_cons,
    show before.length + (between.length + 1) = before.length + 1 + between.length by omega]
    at hcheck
  refine ⟨_, hcheck, ?_⟩
  rw [List.append_assoc] at hvalid
  have hawake := (valid_append hvalid).1.1
  have hafter : s.after (before ++ .sleep owner milliseconds :: between) =
      ((s.after before).sleep owner milliseconds).after between := after_append ..
  have hnow : (s.after (before ++ .sleep owner milliseconds :: between)).now =
      (s.after before).now + checks between := by
    rw [hafter, now_after]
    rfl
  rw [(hafter ▸ (Sleeping.sleep hawake milliseconds).after hother :
    Sleeping _ owner _).count_due, hnow, ← Bellringer.ticksOf_eq_max]
  congr 1
  exact propext ⟨fun h => by omega, fun h => by omega⟩

end Alarms

/-! ## The bells do what they are for -/

namespace Bellringer

variable [DecidableEq α]

/-- From no bells, any sequence of `Sleep`s and `Check`s returns.  A sleeper is
made ready by the `Check` that its time asks for, once, and by no other before it
sleeps again; each `Check` makes those ready that are due, in the order in which
they went to sleep.  The deltas up to a bell add up to the ticks that are left for
it, the first delta is positive, and the next `Sleep` takes no more off a delta
than there is. -/
theorem bellringer_correct (events : List (BellEvent α)) (hvalid : ({} : Alarms α).Valid events)
    (fuel : Nat) (hfuel : events.length ≤ fuel) :
    ∃ b alarms, run fuel {} events = .ok (({} : Alarms α).woken events, b) ∧
      (∀ before owner milliseconds between later,
        events = before ++ .sleep owner milliseconds :: between ++ .check :: later →
        (∀ again, .sleep owner again ∉ between) →
        ∃ owners, (({} : Alarms α).woken events)[before.length + 1 + between.length]? =
            some owners ∧
          owners.count owner =
            if Alarms.checks between + 1 = max 1 (milliseconds / Config.SCHEDULER_TICK_MS)
            then 1 else 0) ∧
      (∀ before later, events = before ++ .check :: later →
        (({} : Alarms α).woken events)[before.length]? = some (({} : Alarms α).after before).due) ∧
      Holds b.link b.bells (alarms.map Prod.fst) ∧
      (∀ alarm, alarm ∈ alarms ↔ alarm ∈ (({} : Alarms α).after events).pending) ∧
      (alarms.Pairwise fun first second => first.2 ≤ second.2) ∧
      (∀ front alarm back, alarms = front ++ alarm :: back →
        Alarms.checks events + ((front ++ [alarm]).map fun alarm => b.ticks alarm.1).sum =
          alarm.2) ∧
      (∀ head, b.bells.head = some head → 0 < b.ticks head) ∧
      ∀ milliseconds, 0 < milliseconds → milliseconds < 2 ^ 32 →
        NoUnderflow b milliseconds fuel := by
  obtain ⟨b, alarms, hrun, hrep, hlength⟩ := run_spec represents_empty hvalid
    (show ([] : List (α × Nat)).length + events.length ≤ fuel by simpa using hfuel)
  have hnow : (({} : Alarms α).after events).now = Alarms.checks events := by
    rw [Alarms.now_after]
    exact Nat.zero_add _
  have hdeltas := hrep.deltas
  rw [hnow] at hdeltas
  refine ⟨b, alarms, hrun, ?_, ?_, hrep.holds, hrep.mem_iff, hrep.sorted, ?_, ?_, ?_⟩
  · rintro before owner milliseconds between later rfl hother
    exact Alarms.woken_sleeper hvalid hother
  · rintro before later rfl
    exact Alarms.woken_check ..
  · rintro front alarm back rfl
    rw [← hdeltas.sum_eq, List.map_append, List.sum_append]
    simp
  · intro head hhead
    cases alarms with
    | nil => exact absurd (hrep.holds.head_eq.symm.trans hhead) nofun
    | cons first rest =>
      obtain rfl := Option.some.inj (hrep.holds.head_eq.symm.trans hhead)
      have hfuture := (hrep.future first (List.mem_cons_self ..)).1
      have hdelta : Alarms.checks events + b.ticks first.1 = first.2 := hdeltas.1
      rw [hnow] at hfuture
      omega
  · intro milliseconds _ hlt
    exact hrep.noUnderflow hlt (by simpa using Nat.le_trans hlength (by simpa using hfuel))

/-- Three sleepers, two of them for the same time. -/
theorem bellringer_correct_three :
    let events : List (BellEvent Nat) :=
      [.sleep 0 30, .sleep 1 10, .check, .sleep 2 20, .check, .check]
    ({} : Alarms Nat).Valid events ∧
      ({} : Alarms Nat).woken events = [[], [], [1], [], [], [0, 2]] ∧
      ∃ b, run 6 {} events = .ok ([[], [], [1], [], [], [0, 2]], b) := by
  have hvalid : ({} : Alarms Nat).Valid
      [.sleep 0 30, .sleep 1 10, .check, .sleep 2 20, .check, .check] := by
    simp [Alarms.Valid, Alarms.step, Alarms.sleep, Alarms.check]
  obtain ⟨b, _, hrun, _⟩ := bellringer_correct
    [.sleep 0 30, .sleep 1 10, .check, .sleep 2 20, .check, .check] hvalid 6 (by decide)
  exact ⟨hvalid, by decide, b, hrun⟩

end Bellringer

end X64HK
