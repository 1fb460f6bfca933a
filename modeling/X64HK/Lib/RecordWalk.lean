import Mathlib.Data.List.Induction
import Mathlib.Tactic.Common

/-!
# Walks over records of variable length

A table holds records one after the other, and each record tells where the next
one is.  A loop follows them as long as a condition holds.  `go` is the
condition and `next` is the step, and both read the table.

* `Walks a records`: from `a` on the loop visits these records and ends.
* `Reaches a b`: the loop gets to `b`, whether it ends or not.
* `exists_walks_iff`: a loop that never goes back, and that stays below a
  bound, ends exactly when it is not stuck at a record that is its own next
  one.
* `loop_eq_some_iff`: a loop with a body folds it over the records.
* `foldl_last` and `foldl_first`: what the fold keeps of them.
-/

namespace RecordWalk

variable {go : Nat → Prop} {next : Nat → Nat} {a b stop : Nat} {records : List Nat}

/-- The loop visits the records and ends. -/
inductive Walks (go : Nat → Prop) (next : Nat → Nat) : Nat → List Nat → Prop
  | done {a : Nat} : ¬go a → Walks go next a []
  | step {a : Nat} {records : List Nat} : go a → Walks go next (next a) records →
      Walks go next a (a :: records)

/-- The loop gets from `a` to `b`. -/
inductive Reaches (go : Nat → Prop) (next : Nat → Nat) (a : Nat) : Nat → Prop
  | refl : Reaches go next a a
  | step {b : Nat} : Reaches go next a b → go b → Reaches go next a (next b)

theorem Reaches.head (hgo : go a) (h : Reaches go next (next a) b) : Reaches go next a b := by
  induction h with
  | refl => exact .step .refl hgo
  | step _ hb ih => exact .step ih hb

/-- A loop that ends visits what it gets to. -/
theorem Walks.mem_iff (h : Walks go next a records) : b ∈ records ↔ Reaches go next a b ∧ go b := by
  constructor
  · induction h with
    | done => exact fun hb => absurd hb List.not_mem_nil
    | step hgo _ ih =>
      intro hb
      rcases List.mem_cons.1 hb with rfl | hb
      · exact ⟨.refl, hgo⟩
      · exact ⟨(ih hb).1.head hgo, (ih hb).2⟩
  · rintro ⟨hreach, hb⟩
    -- everything that is reached is the start of the rest of the walk
    have hrest : ∃ rest, rest ⊆ records ∧ Walks go next b rest := by
      clear hb
      induction hreach with
      | refl => exact ⟨records, List.Subset.refl _, h⟩
      | step _ hgo ih =>
        obtain ⟨rest, hsub, hwalk⟩ := ih
        cases hwalk with
        | done hnot => exact absurd hgo hnot
        | step _ hwalk => exact ⟨_, fun _ hx => hsub (List.mem_cons_of_mem _ hx), hwalk⟩
    obtain ⟨rest, hsub, hwalk⟩ := hrest
    cases hwalk with
    | done hnot => exact absurd hb hnot
    | step _ _ => exact hsub List.mem_cons_self

theorem Walks.unique {records' : List Nat} (h : Walks go next a records)
    (h' : Walks go next a records') : records = records' := by
  induction h generalizing records' with
  | done hnot =>
    cases h' with
    | done => rfl
    | step hgo _ => exact absurd hgo hnot
  | step hgo _ ih =>
    cases h' with
    | done hnot => exact absurd hgo hnot
    | step _ hrest => rw [ih hrest]

/-- No record that a loop visits is its own next one, or it would be visited
for ever. -/
theorem Walks.next_ne (h : Walks go next a records) : ∀ b ∈ records, next b ≠ b := by
  induction h with
  | done => exact List.forall_mem_nil _
  | step hgo hrest ih =>
    refine List.forall_mem_cons.2 ⟨fun heq => ?_, ih⟩
    rw [heq] at hrest
    have hlength := congrArg List.length (hrest.unique (.step hgo (heq.symm ▸ hrest)))
    rw [List.length_cons] at hlength
    omega

/-- Each round gets nearer to the bound. -/
theorem exists_walks (hbound : ∀ b, go b → b < stop)
    (hnext : ∀ b, Reaches go next a b → go b → b < next b) :
    ∃ records, Walks go next a records ∧ records.length ≤ stop - a := by
  obtain ⟨n, hn⟩ : ∃ n, stop - a = n := ⟨_, rfl⟩
  induction n using Nat.strongRecOn generalizing a with
  | ind n ih =>
    by_cases hgo : go a
    · have hlt := hbound a hgo
      have hstep := hnext a .refl hgo
      obtain ⟨records, hwalk, hlength⟩ := ih (stop - next a) (by omega)
        (fun b hb => hnext b (hb.head hgo)) rfl
      exact ⟨a :: records, .step hgo hwalk, by rw [List.length_cons]; omega⟩
    · exact ⟨[], .done hgo, Nat.zero_le _⟩

theorem exists_walks_iff (hbound : ∀ b, go b → b < stop)
    (hmono : ∀ b, Reaches go next a b → b ≤ next b) :
    (∃ records, Walks go next a records) ↔ ∀ b, Reaches go next a b → go b → next b ≠ b := by
  constructor
  · rintro ⟨records, hwalk⟩ b hreach hgo
    exact hwalk.next_ne b (hwalk.mem_iff.2 ⟨hreach, hgo⟩)
  · intro hnext
    obtain ⟨records, hwalk, -⟩ := exists_walks hbound fun b hreach hgo =>
      Nat.lt_of_le_of_ne (hmono b hreach) (hnext b hreach hgo).symm
    exact ⟨records, hwalk⟩

/-! ## The loop that carries a state -/

variable {σ : Type}

/-- The loop with a body, for a number of rounds.  `none` says that they were
not enough. -/
def loop (go : Nat → Prop) [DecidablePred go] (next : Nat → Nat) (body : σ → Nat → σ) :
    σ → Nat → Nat → Option σ
  | _, _, 0 => none
  | s, a, fuel + 1 => if go a then loop go next body (body s a) (next a) fuel else some s

variable [DecidablePred go] {body : σ → Nat → σ}

theorem loop_eq_some_iff {s s' : σ} {fuel : Nat} :
    loop go next body s a fuel = some s' ↔
      ∃ records, Walks go next a records ∧ records.length < fuel ∧ records.foldl body s = s' := by
  induction fuel generalizing s a with
  | zero => exact iff_of_false nofun fun ⟨_, _, hlt, _⟩ => absurd hlt (Nat.not_lt_zero _)
  | succ fuel ih =>
    rw [loop]
    by_cases hgo : go a
    · rw [if_pos hgo, ih]
      constructor
      · rintro ⟨records, hwalk, hlt, rfl⟩
        exact ⟨a :: records, .step hgo hwalk, Nat.succ_lt_succ hlt, rfl⟩
      · rintro ⟨records, hwalk, hlt, rfl⟩
        cases hwalk with
        | done hnot => exact absurd hgo hnot
        | step _ hwalk => exact ⟨_, hwalk, Nat.lt_of_succ_lt_succ hlt, rfl⟩
    · rw [if_neg hgo]
      constructor
      · intro h
        exact ⟨[], .done hgo, Nat.succ_pos _, Option.some.inj h⟩
      · rintro ⟨records, hwalk, -, rfl⟩
        cases hwalk with
        | done => rfl
        | step hgo' _ => exact absurd hgo' hgo

/-- A loop that collects the records finds those of the walk. -/
theorem walks_of_loop {fuel : Nat}
    (h : loop go next (fun visited b => visited ++ [b]) [] a fuel = some records) :
    Walks go next a records := by
  obtain ⟨visited, hwalk, -, hfold⟩ := loop_eq_some_iff.1 h
  have hcollect : visited.foldl (fun visited b => visited ++ [b]) [] = visited := by
    clear hwalk hfold
    induction visited using List.reverseRecOn with
    | nil => rfl
    | append_singleton visited b ih =>
      rw [List.foldl_append, ih, List.foldl_cons, List.foldl_nil]
  rw [← hfold, hcollect]
  exact hwalk

/-! ## What a loop keeps of the records -/

variable {β : Type} {p : Nat → Prop} [DecidablePred p] {f : Nat → β}

/-- A part of the state that some records overwrite comes from the last of
them. -/
theorem foldl_last (part : σ → β)
    (hbody : ∀ s a, part (body s a) = if p a then f a else part s) (records : List Nat) (s : σ) :
    part (records.foldl body s) = ((records.filter p).getLast?.map f).getD (part s) := by
  induction records using List.reverseRecOn with
  | nil => rfl
  | append_singleton records a ih =>
    rw [List.foldl_append, List.foldl_cons, List.foldl_nil, hbody, List.filter_append]
    by_cases ha : p a
    · rw [if_pos ha, List.filter_cons_of_pos (by simpa using ha), List.filter_nil,
        List.getLast?_concat, Option.map_some, Option.getD_some]
    · rw [if_neg ha, List.filter_cons_of_neg (by simpa using ha), List.filter_nil,
        List.append_nil, ih]

/-- A part of the state to which some records are added, up to a number, has
the first of them. -/
theorem foldl_first {cap : Nat} (part : σ → List β)
    (hbody : ∀ s a, part (body s a) =
      if p a ∧ (part s).length < cap then part s ++ [f a] else part s) (records : List Nat) :
    ∀ s : σ, part (records.foldl body s) =
      part s ++ ((records.filter p).map f).take (cap - (part s).length) := by
  induction records with
  | nil => exact fun s => by simp
  | cons a records ih =>
    intro s
    rw [List.foldl_cons, ih, hbody]
    by_cases ha : p a
    · rw [List.filter_cons_of_pos (by simpa using ha), List.map_cons]
      by_cases hroom : (part s).length < cap
      · obtain ⟨room, hroom'⟩ : ∃ room, cap - (part s).length = room + 1 :=
          ⟨cap - (part s).length - 1, by omega⟩
        rw [if_pos ⟨ha, hroom⟩, hroom', List.take_succ_cons, List.length_append,
          List.length_singleton, List.append_assoc, List.singleton_append,
          show cap - ((part s).length + 1) = room by omega]
      · rw [if_neg (fun hgo => hroom hgo.2), show cap - (part s).length = 0 by omega,
          List.take_zero, List.take_zero]
    · rw [if_neg (fun hgo => ha hgo.1), List.filter_cons_of_neg (by simpa using ha)]

end RecordWalk
