import Mathlib.Logic.Function.Basic
import Mathlib.Tactic.Common

/-!
# Ring buffers

A buffer of fixed size with two indices.  One slot is always empty, so that a full
buffer differs from an empty one.

`Holds capacity rb xs` says that the slots from the read index up to the write index
hold `xs`.  There is one lemma per access to the buffer (`Holds.store`,
`Holds.publish`, `Holds.release`), and from these one per operation:
`produce_spec` and `produce_full`, `consume_spec` and `consume_nil`, and `count_eq`.
-/

structure RingBuffer (α : Type) where
  data : Nat → α
  write : Nat := 0
  read : Nat := 0

namespace RingBuffer

variable {α : Type} (capacity : Nat)

/-- Put an element in.  `none` when the buffer is full. -/
def produce (rb : RingBuffer α) (x : α) : Option (RingBuffer α) :=
  let nextWrite := (rb.write + 1) % capacity
  if nextWrite = rb.read then none
  else some { rb with data := Function.update rb.data rb.write x, write := nextWrite }

/-- Take an element out.  `none` when the buffer is empty. -/
def consume (rb : RingBuffer α) : Option (α × RingBuffer α) :=
  if rb.read = rb.write then none
  else some (rb.data rb.read, { rb with read := (rb.read + 1) % capacity })

/-- The number of elements. -/
def count (rb : RingBuffer α) : Nat :=
  if rb.write ≥ rb.read then rb.write - rb.read else capacity - rb.read + rb.write

/-- The buffer has the elements `xs`, in this order. -/
structure Holds (rb : RingBuffer α) (xs : List α) : Prop where
  read_lt : rb.read < capacity
  length_lt : xs.length < capacity
  write_eq : rb.write = (rb.read + xs.length) % capacity
  data_eq : ∀ i x, xs[i]? = some x → rb.data ((rb.read + i) % capacity) = x

variable {capacity} {rb : RingBuffer α} {xs : List α} {x : α}

/-! ## Indices -/

/-- An index that goes around at most once. -/
theorem add_mod_cases {start n : Nat} (hstart : start < capacity) (hn : n ≤ capacity) :
    (start + n) % capacity = start + n ∧ start + n < capacity ∨
      (start + n) % capacity = start + n - capacity ∧ capacity ≤ start + n := by
  by_cases h : start + n < capacity
  · exact Or.inl ⟨Nat.mod_eq_of_lt h, h⟩
  · refine Or.inr ⟨?_, by omega⟩
    rw [Nat.mod_eq_sub_mod (by omega), Nat.mod_eq_of_lt (by omega)]

/-- Different positions have different slots. -/
theorem add_mod_ne {start i j : Nat} (hstart : start < capacity) (hj : j < capacity) (hij : i < j) :
    (start + i) % capacity ≠ (start + j) % capacity := by
  rcases add_mod_cases hstart (show i ≤ capacity by omega) with ⟨hi, _⟩ | ⟨hi, _⟩ <;>
    rcases add_mod_cases hstart (show j ≤ capacity by omega) with ⟨hj', _⟩ | ⟨hj', _⟩ <;> omega

/-! ## The operations -/

theorem holds_empty (hcapacity : 0 < capacity) (data : Nat → α) :
    Holds capacity { data := data } [] where
  read_lt := hcapacity
  length_lt := hcapacity
  write_eq := (Nat.zero_mod capacity).symm
  data_eq := nofun

/-- An index that has not gone all the way around is not the same. -/
theorem add_mod_eq_self_iff {start n : Nat} (hstart : start < capacity) (hn : n < capacity) :
    (start + n) % capacity = start ↔ n = 0 := by
  rcases add_mod_cases hstart (Nat.le_of_lt hn) with ⟨heq, _⟩ | ⟨heq, _⟩ <;> omega

theorem Holds.write_lt (h : Holds capacity rb xs) : rb.write < capacity := by
  rw [h.write_eq]
  exact Nat.mod_lt _ (Nat.lt_of_le_of_lt (Nat.zero_le _) h.read_lt)

/-- The buffer is full when the write index would meet the read index. -/
theorem Holds.next_eq_read_iff (h : Holds capacity rb xs) :
    (rb.write + 1) % capacity = rb.read ↔ xs.length + 1 = capacity := by
  rw [h.write_eq, Nat.mod_add_mod, Nat.add_assoc]
  by_cases hfull : xs.length + 1 = capacity
  · rw [hfull, Nat.add_mod_right, Nat.mod_eq_of_lt h.read_lt]
    exact iff_of_true rfl rfl
  · have hlength := h.length_lt
    rw [add_mod_eq_self_iff h.read_lt (by omega : xs.length + 1 < capacity)]
    exact iff_of_false (Nat.succ_ne_zero _) hfull

theorem Holds.read_eq_write_iff (h : Holds capacity rb xs) : rb.read = rb.write ↔ xs = [] := by
  rw [h.write_eq, eq_comm, add_mod_eq_self_iff h.read_lt h.length_lt]
  exact List.length_eq_zero_iff

theorem Holds.front (h : Holds capacity rb (x :: xs)) : rb.data rb.read = x := by
  have hdata := h.data_eq 0 x rfl
  rwa [Nat.add_zero, Nat.mod_eq_of_lt h.read_lt] at hdata

/-- The slot at the write index is not in use. -/
theorem Holds.store (h : Holds capacity rb xs) (x : α) :
    Holds capacity { rb with data := Function.update rb.data rb.write x } xs := by
  refine ⟨h.read_lt, h.length_lt, h.write_eq, fun i y hy => ?_⟩
  have hi : i < xs.length := (List.getElem?_eq_some_iff.1 hy).1
  have hslot : (rb.read + i) % capacity ≠ rb.write := by
    rw [h.write_eq]
    exact add_mod_ne h.read_lt h.length_lt hi
  simp only [Function.update_of_ne hslot]
  exact h.data_eq i y hy

/-- Moving the write index on adds what is in the slot. -/
theorem Holds.publish (h : Holds capacity rb xs) (hroom : xs.length + 1 < capacity)
    (hx : rb.data rb.write = x) :
    Holds capacity { rb with write := (rb.write + 1) % capacity } (xs ++ [x]) := by
  refine ⟨h.read_lt, by simpa using hroom, ?_, fun i y hy => ?_⟩
  · rw [h.write_eq, Nat.mod_add_mod, Nat.add_assoc, List.length_append, List.length_singleton]
  · by_cases hi : i < xs.length
    · rw [List.getElem?_append_left hi] at hy
      exact h.data_eq i y hy
    · rw [List.getElem?_append_right (by omega)] at hy
      obtain ⟨hi', rfl⟩ : i - xs.length = 0 ∧ x = y := by
        cases hn : i - xs.length with
        | zero => simpa [hn] using hy
        | succ n => simp [hn] at hy
      obtain rfl : i = xs.length := by omega
      rw [← h.write_eq]
      exact hx

/-- Moving the read index on drops the first element. -/
theorem Holds.release (h : Holds capacity rb (x :: xs)) :
    Holds capacity { rb with read := (rb.read + 1) % capacity } xs := by
  have hlength := h.length_lt
  rw [List.length_cons] at hlength
  refine ⟨Nat.mod_lt _ (by omega), by omega, ?_, fun i y hy => ?_⟩
  · rw [h.write_eq, List.length_cons, Nat.mod_add_mod, Nat.add_comm xs.length, Nat.add_assoc]
  · have hdata := h.data_eq (i + 1) y (by simpa using hy)
    rwa [Nat.mod_add_mod, Nat.add_assoc, Nat.add_comm 1 i]

theorem produce_full (h : Holds capacity rb xs) (hfull : xs.length + 1 = capacity) :
    produce capacity rb x = none :=
  if_pos (h.next_eq_read_iff.2 hfull)

theorem produce_spec (h : Holds capacity rb xs) (hroom : xs.length + 1 < capacity) :
    ∃ rb', produce capacity rb x = some rb' ∧ Holds capacity rb' (xs ++ [x]) := by
  have hne : (rb.write + 1) % capacity ≠ rb.read := fun heq =>
    Nat.ne_of_lt hroom (h.next_eq_read_iff.1 heq)
  exact ⟨_, if_neg hne, (h.store x).publish hroom (Function.update_self ..)⟩

theorem consume_nil (h : Holds capacity rb []) : consume capacity rb = none :=
  if_pos (h.read_eq_write_iff.2 rfl)

theorem consume_spec (h : Holds capacity rb (x :: xs)) :
    ∃ rb', consume capacity rb = some (x, rb') ∧ Holds capacity rb' xs := by
  have hne : rb.read ≠ rb.write := fun heq => List.cons_ne_nil x xs (h.read_eq_write_iff.1 heq)
  exact ⟨_, by rw [consume, if_neg hne, h.front], h.release⟩

theorem count_eq (h : Holds capacity rb xs) : count capacity rb = xs.length := by
  have hread := h.read_lt
  have hlength := h.length_lt
  unfold count
  rcases add_mod_cases hread (Nat.le_of_lt hlength) with ⟨hw, _⟩ | ⟨hw, _⟩ <;>
    rw [← h.write_eq] at hw <;> split <;> omega

end RingBuffer
