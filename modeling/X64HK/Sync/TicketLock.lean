import Mathlib.Data.Fintype.Card
import X64HK.Lib.TicketQueue
import X64HK.Lib.Transition

/-!
# The ticket lock

A model of `Kernel/Sync/TicketLock.h`.  Every access to one of the two counters is a
step.  A contender that has a ticket looks at `m_NowServing` again and again,
and who looks when is not decided here.

The counters have 32 bits and wrap.  What they stand for is the line of contenders that
drew a ticket and have not called `Unlock`.  `InTurn` ties the two together, and
`Ordered` adds the history of a run, which is in `drawn` and `granted` and which no
step looks at.

* `InLine.step`: every step keeps the line in order.
* `ticket_lock_is_fifo`: in any run of less than 2^32 contenders, of any length.
-/

namespace X64HK

open TicketQueue

namespace TicketLock

/-- Where a contender is. -/
inductive Phase where
  | idle
  /-- In the loop of `Lock`, with its ticket. -/
  | waiting (ticket : BitVec 32)
  /-- Between `Lock` and `Unlock`. -/
  | holding
  deriving DecidableEq, Repr

/-- The two counters, with what the contenders did. -/
structure State (ι : Type) where
  nowServing : BitVec 32 := 0
  nextTicket : BitVec 32 := 0
  phase : ι → Phase := fun _ => .idle
  /-- The contenders in the order in which they drew a ticket. -/
  drawn : List ι := []
  /-- The contenders in the order in which `Lock` returned to them. -/
  granted : List ι := []

/-- One access to a counter. -/
inductive Action (ι : Type) where
  /-- The `fetch_add` of `Lock`. -/
  | draw (c : ι)
  /-- The load in the loop of `Lock`. -/
  | look (c : ι)
  /-- The `fetch_add` of `Unlock`. -/
  | unlock (c : ι)
  deriving DecidableEq, Repr

/-- `IsLocked`, when nothing happens between its two loads. -/
def State.isLocked {ι : Type} (s : State ι) : Bool := s.nowServing ≠ s.nextTicket

variable {ι : Type} [DecidableEq ι] {rest : List ι}

/-- A contender moves on. -/
def State.enter (s : State ι) (c : ι) (phase : Phase) : State ι :=
  { s with phase := Function.update s.phase c phase }

/-- What an access does, for a contender that can make it. -/
def step (s : State ι) : Action ι → Option (State ι)
  | .draw c =>
    match s.phase c with
    | .idle => some { s.enter c (.waiting s.nextTicket) with
        nextTicket := s.nextTicket + 1
        drawn := s.drawn ++ [c] }
    | _ => none
  | .look c =>
    match s.phase c with
    | .waiting ticket =>
      if s.nowServing ≠ ticket then some s
      else some { s.enter c .holding with granted := s.granted ++ [c] }
    | _ => none
  | .unlock c =>
    match s.phase c with
    | .holding => some { s.enter c .idle with nowServing := s.nowServing + 1 }
    | _ => none

/-! ## The line -/

/-- The contenders with a ticket are `queue`, in the order of their tickets, and
only the first one can have the lock. -/
structure InTurn (serving next : BitVec 32) (phase : ι → Phase) (ticket : ι → BitVec 32)
    (queue : List ι) : Prop where
  lined : Lined serving next ticket queue
  mem_iff : ∀ c, c ∈ queue ↔ phase c ≠ .idle
  waiting : ∀ c t, phase c = .waiting t → ticket c = t
  holding : ∀ c, phase c = .holding → queue.head? = some c

namespace InTurn

variable {serving next : BitVec 32} {phase : ι → Phase} {ticket : ι → BitVec 32} {queue : List ι}
  {c : ι}

omit [DecidableEq ι] in
/-- At most one contender has the lock. -/
theorem exclusive (h : InTurn serving next phase ticket queue) {d : ι} (hc : phase c = .holding)
    (hd : phase d = .holding) : c = d :=
  Option.some.inj ((h.holding c hc).symm.trans (h.holding d hd))

theorem draw (h : InTurn serving next phase ticket queue) (hc : phase c = .idle) :
    InTurn serving (next + 1) (Function.update phase c (.waiting next))
      (Function.update ticket c next) (queue ++ [c]) := by
  have hout : c ∉ queue := fun hmem => (h.mem_iff c).1 hmem hc
  refine ⟨h.lined.draw hout, fun d => ?_, fun d t hd => ?_, fun d hd => ?_⟩ <;> by_cases heq : d = c
  · subst heq
    simp
  · rw [Function.update_of_ne heq, ← h.mem_iff d]
    simp [heq]
  · subst heq
    rw [Function.update_self] at hd ⊢
    exact Phase.waiting.inj hd
  · rw [Function.update_of_ne heq] at hd ⊢
    exact h.waiting d t hd
  · subst heq
    rw [Function.update_self] at hd
    exact absurd hd nofun
  · rw [Function.update_of_ne heq] at hd
    rw [List.head?_append, h.holding d hd]
    rfl

omit [DecidableEq ι] in
/-- The contender that sees its ticket served is the first one. -/
theorem first (h : InTurn serving next phase ticket queue) (hlength : queue.length ≤ 2 ^ 32)
    (hc : phase c = .waiting serving) : ∃ rest, queue = c :: rest := by
  have hmem : c ∈ queue := (h.mem_iff c).2 (by rw [hc]; exact nofun)
  exact h.lined.first hlength hmem (h.waiting c serving hc).symm

theorem grant (h : InTurn serving next phase ticket (c :: rest)) :
    InTurn serving next (Function.update phase c .holding) ticket (c :: rest) := by
  refine ⟨h.lined, fun d => ?_, fun d t hd => ?_, fun d hd => ?_⟩ <;> by_cases heq : d = c
  · subst heq
    simp
  · rw [Function.update_of_ne heq]
    exact h.mem_iff d
  · subst heq
    rw [Function.update_self] at hd
    exact absurd hd nofun
  · rw [Function.update_of_ne heq] at hd
    exact h.waiting d t hd
  · rw [heq]
    rfl
  · rw [Function.update_of_ne heq] at hd
    exact h.holding d hd

theorem release (h : InTurn serving next phase ticket (c :: rest)) :
    InTurn (serving + 1) next (Function.update phase c .idle) ticket rest := by
  have hout : c ∉ rest := (List.nodup_cons.1 h.lined.nodup).1
  refine ⟨h.lined.release, fun d => ?_, fun d t hd => ?_, fun d hd => ?_⟩ <;> by_cases heq : d = c
  · subst heq
    simp [hout]
  · rw [Function.update_of_ne heq, ← h.mem_iff d, List.mem_cons]
    exact ⟨Or.inr, fun hmem => hmem.resolve_left heq⟩
  · subst heq
    rw [Function.update_self] at hd
    exact absurd hd nofun
  · rw [Function.update_of_ne heq] at hd
    exact h.waiting d t hd
  · subst heq
    rw [Function.update_self] at hd
    exact absurd hd nofun
  · rw [Function.update_of_ne heq] at hd
    have hfirst := h.holding d hd
    rw [List.head?_cons, Option.some_inj] at hfirst
    exact absurd hfirst.symm heq

end InTurn

/-- The contenders with a ticket are `queue`, in the order of their tickets.  Only the
first one can have the lock, and the others are those who drew and wait. -/
structure Ordered (s : State ι) (ticket : ι → BitVec 32) (queue : List ι) : Prop
    extends InTurn s.nowServing s.nextTicket s.phase ticket queue where
  drawn_eq : s.drawn = s.granted ++ queue.filter fun c => s.phase c ≠ .holding

/-- What a contender outside of a list does is nothing to those in it. -/
theorem filter_update {phase : ι → Phase} {c : ι} {queue : List ι} (hc : c ∉ queue) (p : Phase) :
    (queue.filter fun d => Function.update phase c p d ≠ .holding) =
      queue.filter fun d => phase d ≠ .holding := by
  refine List.filter_congr fun d hd => ?_
  rw [Function.update_of_ne fun heq : d = c => hc (heq ▸ hd)]

variable {s s' : State ι} {ticket : ι → BitVec 32} {queue : List ι} {c : ι}

theorem Ordered.draw (h : Ordered s ticket queue) (hc : s.phase c = .idle) :
    Ordered { s.enter c (.waiting s.nextTicket) with
        nextTicket := s.nextTicket + 1
        drawn := s.drawn ++ [c] }
      (Function.update ticket c s.nextTicket) (queue ++ [c]) := by
  have hout : c ∉ queue := fun hmem => (h.mem_iff c).1 hmem hc
  refine ⟨h.toInTurn.draw hc, ?_⟩
  show s.drawn ++ [c] = s.granted ++ (queue ++ [c]).filter fun d =>
    Function.update s.phase c _ d ≠ .holding
  rw [List.filter_append, filter_update hout, h.drawn_eq, List.append_assoc]
  simp

omit [DecidableEq ι] in
/-- Nobody has the lock while the first one waits. -/
theorem Ordered.filter_of_waiting (h : Ordered s ticket (c :: rest)) {t : BitVec 32}
    (hc : s.phase c = .waiting t) :
    ((c :: rest).filter fun d => s.phase d ≠ .holding) = c :: rest := by
  refine List.filter_eq_self.2 fun d _ => decide_eq_true fun hd => ?_
  have hfirst := h.holding d hd
  rw [List.head?_cons, Option.some_inj] at hfirst
  rw [← hfirst, hc] at hd
  exact absurd hd nofun

theorem Ordered.grant (h : Ordered s ticket (c :: rest)) {t : BitVec 32}
    (hc : s.phase c = .waiting t) :
    Ordered { s.enter c .holding with granted := s.granted ++ [c] } ticket (c :: rest) := by
  have hout : c ∉ rest := (List.nodup_cons.1 h.lined.nodup).1
  have hfilter := h.filter_of_waiting hc
  refine ⟨h.toInTurn.grant, ?_⟩
  show s.drawn = s.granted ++ [c] ++ (c :: rest).filter fun d =>
    Function.update s.phase c .holding d ≠ .holding
  have hrest : (rest.filter fun d => s.phase d ≠ .holding) = rest := by
    rw [List.filter_cons_of_pos (by simp [hc])] at hfilter
    exact (List.cons.inj hfilter).2
  rw [List.filter_cons_of_neg (by simp), filter_update hout, hrest, h.drawn_eq, hfilter,
    List.append_assoc]
  rfl

theorem Ordered.release (h : Ordered s ticket (c :: rest)) (hc : s.phase c = .holding) :
    Ordered { s.enter c .idle with nowServing := s.nowServing + 1 } ticket rest := by
  have hout : c ∉ rest := (List.nodup_cons.1 h.lined.nodup).1
  refine ⟨h.toInTurn.release, ?_⟩
  show s.drawn = s.granted ++ rest.filter fun d => Function.update s.phase c .idle d ≠ .holding
  rw [filter_update hout, h.drawn_eq, List.filter_cons_of_neg (by simp [hc])]

/-! ## Runs -/

/-- Some line is in order. -/
def InLine (s : State ι) : Prop := ∃ ticket queue, Ordered s ticket queue

variable [Fintype ι]

theorem InLine.step (hcard : Fintype.card ι < 2 ^ 32) (hs : InLine s) {action : Action ι}
    (hstep : TicketLock.step s action = some s') : InLine s' := by
  obtain ⟨ticket, queue, h⟩ := hs
  have hlength : queue.length < 2 ^ 32 := Nat.lt_of_le_of_lt h.lined.nodup.length_le_card hcard
  cases action with
  | draw c =>
    unfold TicketLock.step at hstep
    dsimp only at hstep
    split at hstep
    · next hc => exact ⟨_, _, Option.some.inj hstep ▸ h.draw hc⟩
    · exact absurd hstep nofun
  | look c =>
    unfold TicketLock.step at hstep
    dsimp only at hstep
    split at hstep
    · next t hc =>
      split at hstep
      · exact ⟨ticket, queue, Option.some.inj hstep ▸ h⟩
      · next hserved =>
        obtain rfl := not_not.1 hserved
        obtain ⟨rest, rfl⟩ := h.toInTurn.first (Nat.le_of_lt hlength) hc
        exact ⟨ticket, c :: rest, Option.some.inj hstep ▸ h.grant hc⟩
    · exact absurd hstep nofun
  | unlock c =>
    unfold TicketLock.step at hstep
    dsimp only at hstep
    split at hstep
    · next hc =>
      obtain ⟨rest, rfl⟩ := List.head?_eq_some_iff.1 (h.holding c hc)
      exact ⟨ticket, rest, Option.some.inj hstep ▸ h.release hc⟩
    · exact absurd hstep nofun

/-- In any run, at most one contender has the lock, those who got it are the first of
those who drew a ticket, and `IsLocked` is right. -/
theorem ticket_lock_is_fifo (hcard : Fintype.card ι < 2 ^ 32) {actions : List (Action ι)}
    (hrun : Transition.run step ({} : State ι) actions = some s) :
    (∀ c d, s.phase c = .holding → s.phase d = .holding → c = d) ∧
      s.granted <+: s.drawn ∧
      (s.isLocked = true ↔ ∃ c, s.phase c ≠ .idle) := by
  have hstart : Ordered ({} : State ι) (fun _ => 0) [] :=
    ⟨⟨lined_nil _ _, fun c => by simp, nofun, nofun⟩, rfl⟩
  obtain ⟨ticket, queue, h⟩ : InLine s :=
    Transition.invariant (fun _ _ _ h hstep => h.step hcard hstep) ⟨_, _, hstart⟩ hrun
  refine ⟨fun c d hc hd => ?_, ⟨_, h.drawn_eq.symm⟩, ?_⟩
  · exact h.toInTurn.exclusive hc hd
  · have hlength : queue.length < 2 ^ 32 :=
      Nat.lt_of_le_of_lt h.lined.nodup.length_le_card hcard
    rw [State.isLocked, decide_eq_true_iff, ne_eq, h.lined.serving_eq_iff hlength]
    constructor
    · intro hne
      obtain ⟨c, hc⟩ := List.exists_mem_of_ne_nil queue hne
      exact ⟨c, (h.mem_iff c).1 hc⟩
    · rintro ⟨c, hc⟩ rfl
      exact List.not_mem_nil ((h.mem_iff c).2 hc)

/-- Two contenders.  The second one looks too early and then gets the lock. -/
theorem ticket_lock_is_fifo_two :
    ∃ s : State Bool, Transition.run step {} [.draw false, .draw true, .look true, .look false,
        .unlock false, .look true] = some s ∧ s.granted = [false, true] ∧
      s.granted <+: s.drawn ∧ s.isLocked = true := by
  obtain ⟨s, hrun⟩ : ∃ s : State Bool, Transition.run step {} [.draw false, .draw true,
      .look true, .look false, .unlock false, .look true] = some s := ⟨_, rfl⟩
  have h := ticket_lock_is_fifo (by decide) hrun
  refine ⟨s, hrun, ?_, h.2.1, ?_⟩
  · rw [← Option.some.inj hrun]
    rfl
  · refine h.2.2.2 ⟨true, ?_⟩
    rw [← Option.some.inj hrun]
    exact nofun

end TicketLock

end X64HK
