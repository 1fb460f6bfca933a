import Mathlib.Algebra.Group.Nat.Defs
import Mathlib.Data.List.Nodup
import Mathlib.Data.List.Perm.Subperm
import Mathlib.Logic.Function.Basic
import Mathlib.Tactic.Common

/-!
# Tickets from a counter that wraps

Contenders draw tickets from one counter of some width, and another one says whose
turn it is.  `Lined serving next ticket queue` says that `queue` are the
contenders whose ticket has not been served yet, in the order in which they drew.
Their tickets follow each other from `serving` on, around the end if need be.

As long as there are not more contenders than tickets, the counters tell them
apart: `Lined.first` and `Lined.serving_eq_iff`.
-/

namespace TicketQueue

variable {ι : Type} {w : Nat}

structure Lined (serving next : BitVec w) (ticket : ι → BitVec w) (queue : List ι) : Prop where
  nodup : queue.Nodup
  next_eq : next = serving + BitVec.ofNat w queue.length
  ticket_eq : ∀ i c, queue[i]? = some c → ticket c = serving + BitVec.ofNat w i

theorem add_ofNat_eq_self_iff (x : BitVec w) {n : Nat} (hn : n < 2 ^ w) :
    x + BitVec.ofNat w n = x ↔ n = 0 := by
  rw [BitVec.add_right_eq_self, ← BitVec.toNat_inj, BitVec.toNat_ofNat, Nat.mod_eq_of_lt hn,
    BitVec.toNat_zero]

variable {serving next : BitVec w} {ticket : ι → BitVec w} {queue : List ι} {c : ι}

theorem lined_nil (serving : BitVec w) (ticket : ι → BitVec w) : Lined serving serving ticket [] :=
  ⟨List.nodup_nil, (BitVec.add_zero serving).symm, nofun⟩

/-- A contender draws the next ticket. -/
theorem Lined.draw [DecidableEq ι] (h : Lined serving next ticket queue) (hc : c ∉ queue) :
    Lined serving (next + 1) (Function.update ticket c next) (queue ++ [c]) := by
  have hold : ∀ d ∈ queue, Function.update ticket c next d = ticket d := by
    intro d hd
    exact Function.update_of_ne (fun heq : d = c => hc (heq ▸ hd)) _ _
  refine ⟨?_, ?_, fun i d hd => ?_⟩
  · rw [List.nodup_append]
    refine ⟨h.nodup, List.nodup_singleton c, fun d hd e he => ?_⟩
    rw [List.mem_singleton.1 he]
    exact fun heq => hc (heq ▸ hd)
  · rw [h.next_eq, List.length_append, List.length_singleton, BitVec.ofNat_add, BitVec.add_assoc]
    rfl
  · rcases Nat.lt_trichotomy i queue.length with hlt | rfl | hgt
    · rw [List.getElem?_append_left hlt] at hd
      rw [hold d (List.mem_of_getElem? hd)]
      exact h.ticket_eq i d hd
    · rw [List.getElem?_append_right (Nat.le_refl _), Nat.sub_self] at hd
      rw [← Option.some.inj hd, Function.update_self]
      exact h.next_eq
    · rw [List.getElem?_eq_none (by simp; omega)] at hd
      cases hd

/-- The contender with the ticket that is served is the first one. -/
theorem Lined.first (h : Lined serving next ticket queue) (hlength : queue.length ≤ 2 ^ w)
    (hc : c ∈ queue) (hserved : serving = ticket c) : ∃ rest, queue = c :: rest := by
  obtain ⟨i, hi⟩ := List.mem_iff_getElem?.1 hc
  have hlt : i < queue.length := (List.getElem?_eq_some_iff.1 hi).1
  rw [h.ticket_eq i c hi] at hserved
  obtain rfl := (add_ofNat_eq_self_iff serving (by omega)).1 hserved.symm
  cases queue with
  | nil => exact absurd hi nofun
  | cons d rest => exact ⟨rest, by rw [Option.some.inj hi]⟩

/-- The first one is done. -/
theorem Lined.release (h : Lined serving next ticket (c :: queue)) :
    Lined (serving + 1) next ticket queue := by
  have hshift : ∀ n, serving + BitVec.ofNat w (n + 1) = serving + 1 + BitVec.ofNat w n := by
    intro n
    rw [Nat.add_comm n 1, BitVec.ofNat_add, BitVec.add_assoc]
    rfl
  refine ⟨(List.nodup_cons.1 h.nodup).2, ?_, fun i d hd => ?_⟩
  · rw [h.next_eq, List.length_cons, hshift]
  · rw [h.ticket_eq (i + 1) d hd, hshift]

/-- The counters are equal when there is nobody in the line. -/
theorem Lined.serving_eq_iff (h : Lined serving next ticket queue)
    (hlength : queue.length < 2 ^ w) : serving = next ↔ queue = [] := by
  rw [h.next_eq, eq_comm, add_ofNat_eq_self_iff serving hlength]
  exact List.length_eq_zero_iff

/-- There are no more contenders than tickets when a word of the same width names
them. -/
theorem length_le_of_nodup {names : List (BitVec w)} (h : names.Nodup) : names.length ≤ 2 ^ w := by
  have hnodup : (names.map BitVec.toNat).Nodup := h.map fun _ _ => BitVec.eq_of_toNat_eq
  have hsubset : names.map BitVec.toNat ⊆ List.range (2 ^ w) := by
    intro n hn
    obtain ⟨name, -, rfl⟩ := List.mem_map.1 hn
    exact List.mem_range.2 name.isLt
  have hlength := (hnodup.subperm hsubset).length_le
  rwa [List.length_map, List.length_range] at hlength

end TicketQueue
