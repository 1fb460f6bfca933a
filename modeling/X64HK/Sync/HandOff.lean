import X64HK.Sync.SemaphoreTokens

/-!
# Direct hand-off

A semaphore counts items of a store: whoever puts an item in does a `V`, and whoever
wants one does a `P` first.  A `V` that finds a waiter does not count.  It makes the
waiter ready, and the item is meant for this one from then on, although it may run
much later.

`HandOff` keeps the books of such a semaphore on a roster, and there is one lemma
for each thing that can happen: `HandOff.v`, `HandOff.p_take`, `HandOff.p_wait`,
`HandOff.other`, `HandOff.wake`, `HandOff.pass` and `HandOff.take`.
-/

namespace X64HK

open Roster

/-- The books of the semaphore `s`.  The threads in `parked` are in its `P`, those in
`handed` have been handed an item and have not taken it, and there are `present`
items in the store.  `taker` is the thread that is about to take an item, `owed` is
one while an item is in the store that the semaphore does not count or is not
counted any more, and `next` is the core that is about to go on with its active
thread. -/
structure HandOff (r : Roster) (s : Nat) (parked handed : List Thread) (present : Nat)
    (taker : Option Thread) (owed : Nat) (next : Option Nat) : Prop where
  inv : r.Inv []
  mem_parked : ∀ t, t ∈ parked ↔ t ∈ r.waiting s ∨ t ∈ handed ∧ taker ≠ some t
  placed : ∀ t ∈ handed, taker = some t ∨ t ∈ r.ready ∨
    ∃ core, next = some core ∧ r.active core = some t
  parkedOnce : parked.Nodup
  handedOnce : handed.Nodup
  alive : ∀ t ∈ parked, r.dying t = false
  balance : present = r.counter s + handed.length + owed

namespace HandOff

variable {r : Roster} {s : Nat} {parked handed : List Thread} {present owed core : Nat}
  {thread : Thread} {next : Option Nat}

theorem parked_of_handed (h : HandOff r s parked handed present none owed next)
    (hthread : thread ∈ handed) : thread ∈ parked :=
  (h.mem_parked thread).2 (.inr ⟨hthread, (Option.some_ne_none thread).symm⟩)

/-- A thread that was handed an item is ready. -/
theorem ready (h : HandOff r s parked handed present none owed none) (hthread : thread ∈ handed) :
    thread ∈ r.ready := by
  rcases h.placed thread hthread with htaker | hready | ⟨_, hnext, _⟩
  · cases htaker
  · exact hready
  · cases hnext

/-- A thread that runs does not wait. -/
theorem active_not_waiting (h : HandOff r s parked handed present none owed next)
    (hactive : r.active core = some thread) : thread ∉ r.waiting s := fun hwaiting =>
  absurd (h.inv.unique thread (.active core) (.waiting s) hactive hwaiting) nofun

theorem active_not_handed (h : HandOff r s parked handed present none owed none)
    (hactive : r.active core = some thread) : thread ∉ handed := fun hhanded =>
  absurd (h.inv.unique thread (.active core) .ready hactive (h.ready hhanded)) nofun

/-- An operation that spares the semaphore may take a thread out of the ready
queue that was handed an item. -/
theorem other (h : HandOff r s parked handed present none owed none) {event : SchedulerEvent}
    (hallowed : r.Allowed event) (hspares : Spares s event)
    (hkill : ∀ t ∈ parked, event ≠ .kill t) :
    HandOff (r.step event) s parked handed present none owed event.switches where
  inv := h.inv.step hallowed
  mem_parked := by
    rw [step_waiting_of_spares hspares]
    exact h.mem_parked
  placed := by
    intro t ht
    have hparked := h.parked_of_handed ht
    exact .inr (step_ready (h.ready ht) (h.alive t hparked) (hkill t hparked))
  parkedOnce := h.parkedOnce
  handedOnce := h.handedOnce
  alive := by
    intro t ht
    rw [Bool.eq_false_iff, ne_eq, (r.step_history event).2.1 t]
    rintro (hdying | heq)
    · exact absurd (hdying.symm.trans (h.alive t ht)) nofun
    · exact hkill t ht heq
  balance := by
    rw [step_counter_of_spares hspares]
    exact h.balance

/-- A `V` counts the item, or it hands it to the first thread that waits. -/
theorem v (h : HandOff r s parked handed present none 1 none) (hfew : present < 2 ^ 32)
    (core : Nat) :
    HandOff (r.step (.v core s)) s parked (handed ++ (r.waiting s).head?.toList) present none 0
      none := by
  have hinv : (r.step (.v core s)).Inv [] := h.inv.step trivial
  have hbalance := h.balance
  cases hwaiting : r.waiting s with
  | nil =>
    rw [step_v_nil hwaiting] at hinv ⊢
    rw [List.head?_nil, Option.toList_none, List.append_nil]
    refine ⟨hinv, h.mem_parked, h.placed, h.parkedOnce, h.handedOnce, h.alive, ?_⟩
    dsimp only
    rw [Function.update_self, Nat.mod_eq_of_lt (by omega)]
    omega
  | cons waiter rest =>
    have hwaits : waiter ∈ r.waiting s := hwaiting ▸ List.mem_cons_self
    have hnew : waiter ∉ handed := fun hhanded =>
      absurd (h.inv.unique waiter .ready (.waiting s) (h.ready hhanded) hwaits) nofun
    rw [step_v_cons hwaiting] at hinv ⊢
    rw [List.head?_cons, Option.toList_some]
    refine ⟨hinv, fun t => ?_, fun t ht => ?_, h.parkedOnce, ?_, h.alive, ?_⟩
    · rw [h.mem_parked, hwaiting]
      dsimp only [enqueue]
      rw [Function.update_self, List.mem_cons, List.mem_append, List.mem_singleton]
      simp only [ne_eq, reduceCtorEq, not_false_eq_true, and_true]
      rw [or_comm (b := t = waiter), or_left_comm, or_assoc]
    · rw [List.mem_append, List.mem_singleton] at ht
      dsimp only [enqueue]
      rw [List.mem_append, List.mem_singleton]
      exact .inr (.inl (ht.imp_left h.ready))
    · exact List.nodup_append_comm.1 (List.nodup_cons.2 ⟨hnew, h.handedOnce⟩)
    · rw [List.length_append, List.length_singleton]
      dsimp only [enqueue]
      omega

/-- A `P` that finds the item counted. -/
theorem p_take (h : HandOff r s parked handed present none 0 none) (hcount : 0 < r.counter s)
    (hactive : r.active core = some thread) (hallowed : r.Allowed (.p core s)) :
    HandOff (r.step (.p core s)) s parked handed present (some thread) 1 none := by
  have hinv : (r.step (.p core s)).Inv [] := h.inv.step hallowed
  have hbalance := h.balance
  rw [step_p_counter hcount] at hinv ⊢
  refine ⟨hinv, fun t => ?_, fun t ht => .inr (.inl (h.ready ht)), h.parkedOnce, h.handedOnce,
    h.alive, ?_⟩
  · rw [h.mem_parked]
    refine or_congr_right (and_congr_right fun ht =>
      iff_of_true (Option.some_ne_none t).symm fun heq => ?_)
    exact h.active_not_handed hactive (Option.some.inj heq ▸ ht)
  · dsimp only
    rw [Function.update_self]
    omega

/-- A `P` that makes its thread wait, and the core goes on with another one. -/
theorem p_wait (h : HandOff r s parked handed present none 0 none) (hcount : r.counter s = 0)
    (hactive : r.active core = some thread) (halive : r.dying thread = false)
    (hallowed : r.Allowed (.p core s)) :
    HandOff (r.step (.p core s)) s (parked ++ [thread]) handed present none 0 (some core) := by
  have hdying : (r.step (.p core s)).dying = r.dying := by
    funext t
    rw [Bool.eq_iff_iff, (r.step_history _).2.1 t]
    exact or_iff_left nofun
  refine ⟨h.inv.step hallowed, fun t => ?_, fun t ht => ?_, ?_, h.handedOnce, ?_, ?_⟩
  · rw [step_p_waiting hcount hactive, List.mem_append, List.mem_append, h.mem_parked t]
    exact or_right_comm
  · exact .inr (step_ready (h.ready ht) (h.alive t (h.parked_of_handed ht)) nofun)
  · refine List.nodup_append_comm.1 (List.nodup_cons.2 ⟨fun hparked => ?_, h.parkedOnce⟩)
    rcases (h.mem_parked thread).1 hparked with hwaiting | ⟨hhanded, -⟩
    · exact h.active_not_waiting hactive hwaiting
    · exact h.active_not_handed hactive hhanded
  · intro t ht
    rw [hdying]
    rcases List.mem_append.1 ht with hparked | hself
    · exact h.alive t hparked
    · rw [List.mem_singleton.1 hself]
      exact halive
  · rw [step_counter]
    dsimp only
    rw [if_neg fun hpos => by omega]
    exact h.balance

/-- The core goes on with a thread that waited in `P`: it was handed an item. -/
theorem wake (h : HandOff r s parked handed present none 0 (some core))
    (hactive : r.active core = some thread) (hparked : thread ∈ parked) :
    thread ∈ handed ∧ HandOff r s (parked.erase thread) handed present (some thread) 0 none := by
  have hnot := h.active_not_waiting hactive
  have hhanded : thread ∈ handed := (((h.mem_parked thread).1 hparked).resolve_left hnot).1
  refine ⟨hhanded, h.inv, fun t => ?_, fun t ht => ?_, h.parkedOnce.erase thread, h.handedOnce,
    fun t ht => h.alive t (List.mem_of_mem_erase ht), h.balance⟩
  · rw [h.parkedOnce.mem_erase_iff, h.mem_parked t]
    constructor
    · rintro ⟨hne, hwaiting | ⟨hother, -⟩⟩
      · exact .inl hwaiting
      · exact .inr ⟨hother, fun heq => hne (Option.some.inj heq).symm⟩
    · rintro (hwaiting | ⟨hother, hne⟩)
      · exact ⟨fun heq => hnot (heq ▸ hwaiting), .inl hwaiting⟩
      · exact ⟨fun heq => hne (congrArg some heq.symm), .inr ⟨hother, (Option.some_ne_none t).symm⟩⟩
  · rcases h.placed t ht with htaker | hready | ⟨c, hcore, hsame⟩
    · cases htaker
    · exact .inr (.inl hready)
    · rw [← Option.some.inj hcore] at hsame
      exact .inl (hactive.symm.trans hsame)

/-- The core goes on with any other thread. -/
theorem pass (h : HandOff r s parked handed present none 0 (some core))
    (hother : ∀ t ∈ r.active core, t ∉ parked) :
    HandOff r s parked handed present none 0 none := by
  refine ⟨h.inv, h.mem_parked, fun t ht => ?_, h.parkedOnce, h.handedOnce, h.alive, h.balance⟩
  rcases h.placed t ht with htaker | hready | ⟨c, hcore, hactive⟩
  · cases htaker
  · exact .inr (.inl hready)
  · rw [← Option.some.inj hcore] at hactive
    exact absurd (h.parked_of_handed ht) (hother t hactive)

/-- A thread that is about to take an item finds one. -/
theorem present_pos (h : HandOff r s parked handed present (some thread) owed next)
    (howed : owed = if thread ∈ handed then 0 else 1) : 0 < present := by
  have hbalance := h.balance
  by_cases hhanded : thread ∈ handed
  · have hpos := List.length_pos_of_mem hhanded
    omega
  · rw [if_neg hhanded] at howed
    omega

/-- The thread takes its item. -/
theorem take (h : HandOff r s parked handed (present + 1) (some thread) owed none)
    (howed : owed = if thread ∈ handed then 0 else 1) :
    HandOff r s parked (handed.erase thread) present none 0 none := by
  have hbalance := h.balance
  refine ⟨h.inv, fun t => ?_, fun t ht => ?_, h.parkedOnce, h.handedOnce.erase thread, h.alive, ?_⟩
  · rw [h.mem_parked, h.handedOnce.mem_erase_iff]
    refine or_congr_right ⟨?_, ?_⟩
    · rintro ⟨ht, hne⟩
      exact ⟨⟨fun heq => hne (congrArg some heq.symm), ht⟩, (Option.some_ne_none t).symm⟩
    · rintro ⟨⟨hne, ht⟩, -⟩
      exact ⟨ht, fun heq => hne (Option.some.inj heq).symm⟩
  · obtain ⟨hne, hhanded⟩ := h.handedOnce.mem_erase_iff.1 ht
    rcases h.placed t hhanded with htaker | hready | ⟨_, hnext, _⟩
    · exact absurd (Option.some.inj htaker).symm hne
    · exact .inr (.inl hready)
    · cases hnext
  · by_cases hhanded : thread ∈ handed
    · have hpos := List.length_pos_of_mem hhanded
      rw [if_pos hhanded] at howed
      rw [List.length_erase_of_mem hhanded]
      omega
    · rw [if_neg hhanded] at howed
      rw [List.erase_of_not_mem hhanded]
      omega

end HandOff

end X64HK
