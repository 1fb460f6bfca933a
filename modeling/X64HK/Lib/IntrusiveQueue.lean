import Mathlib.Data.List.Basic
import Mathlib.Data.List.Nodup
import Mathlib.Logic.Function.Basic
import Mathlib.Tactic.Common

/-!
# Intrusive singly linked queues

The link of an element is a field of the element, so that all queues of one
kind share one function from elements to links.  A queue is a pair of pointers,
to its first and to its last element.

An element is in at most one queue at a time, and the queue asks the element
whether it is in one: `contains` looks at the link and at the end of the queue
only.  It cannot tell its own elements from those of another queue.

`Holds links q xs` says that following the links from the head of `q` visits
`xs` and ends at the tail.  There is one lemma per operation, which says
what the operation makes of `xs` and which links it leaves alone:
`append_spec`, `prepend_spec`, `insertAfter_spec`, `dequeue_spec`,
`remove_spec` and `remove_eq_none`.  A queue is not affected by what happens
to another one (`Holds.frame`), and `Family` says this for all the queues that
share their links at once.
-/

namespace IntrusiveQueue

variable {α : Type}

/-- The link field of every element. -/
abbrev Links (α : Type) := α → Option α

/-- The two pointers of a queue. -/
structure Queue (α : Type) where
  head : Option α := none
  tail : Option α := none
  deriving DecidableEq, Repr

variable {xs : List α} {links links' : Links α}

/-! ## Paths -/

/-- Following the links from `start` visits `xs` and arrives at `stop`. -/
def Path (links : Links α) : Option α → List α → Option α → Prop
  | start, [], stop => start = stop
  | start, x :: xs, stop => start = some x ∧ Path links (links x) xs stop

theorem path_append {ys : List α} :
    ∀ {start stop : Option α}, Path links start (xs ++ ys) stop ↔
      ∃ middle, Path links start xs middle ∧ Path links middle ys stop := by
  induction xs with
  | nil =>
    intro start stop
    exact ⟨fun h => ⟨start, rfl, h⟩,
      fun ⟨_, hstart, h⟩ => by rw [show start = _ from hstart]; exact h⟩
  | cons x xs ih =>
    intro start stop
    rw [List.cons_append, Path, ih]
    constructor
    · rintro ⟨hstart, middle, hxs, hys⟩
      exact ⟨middle, ⟨hstart, hxs⟩, hys⟩
    · rintro ⟨middle, ⟨hstart, hxs⟩, hys⟩
      exact ⟨hstart, middle, hxs, hys⟩

/-- A path depends on the links of the elements it visits. -/
theorem Path.congr (hsame : ∀ x ∈ xs, links' x = links x) :
    ∀ {start stop : Option α}, Path links start xs stop → Path links' start xs stop := by
  induction xs with
  | nil => exact fun h => h
  | cons x xs ih =>
    rintro start stop ⟨hstart, hrest⟩
    refine ⟨hstart, ?_⟩
    rw [hsame x (List.mem_cons_self ..)]
    exact ih (fun y hy => hsame y (List.mem_cons_of_mem x hy)) hrest

/-- The queue has the elements `xs`, in this order. -/
structure Holds (links : Links α) (q : Queue α) (xs : List α) : Prop where
  path : Path links q.head xs none
  tail : q.tail = xs.getLast?
  nodup : xs.Nodup

variable {q q' : Queue α} {x : α} {pre post : List α}

theorem holds_empty (links : Links α) : Holds links {} [] := ⟨rfl, rfl, List.nodup_nil⟩

/-- What happens elsewhere does not matter. -/
theorem Holds.frame (h : Holds links q xs) (hsame : ∀ y ∈ xs, links' y = links y) :
    Holds links' q xs :=
  ⟨h.path.congr hsame, h.tail, h.nodup⟩

theorem Holds.head_eq (h : Holds links q xs) : q.head = xs.head? := by
  cases xs with
  | nil => exact h.path
  | cons x xs => exact h.path.1

/-- The elements of a queue are determined by its pointers. -/
theorem Path.unique {ys : List α} :
    ∀ {start : Option α}, Path links start xs none → Path links start ys none → xs = ys := by
  induction xs generalizing ys with
  | nil =>
    intro start hxs hys
    cases ys with
    | nil => rfl
    | cons y ys => exact absurd (hxs.symm.trans hys.1) nofun
  | cons x xs ih =>
    intro start hxs hys
    cases ys with
    | nil => exact absurd ((show start = none from hys).symm.trans hxs.1) nofun
    | cons y ys =>
      obtain rfl := Option.some.inj (hxs.1.symm.trans hys.1)
      rw [ih hxs.2 hys.2]

theorem Holds.unique (h : Holds links q xs) {ys : List α} (h' : Holds links q ys) : xs = ys :=
  h.path.unique h'.path

/-- An element in the middle has its successor as link. -/
theorem Holds.link_eq {after : α} (h : Holds links q (pre ++ after :: post)) :
    links after = post.head? := by
  obtain ⟨_, _, _, hpath⟩ := path_append.1 h.path
  cases post with
  | nil => exact hpath
  | cons y post => exact hpath.1

/-- Links of a list are the same wherever the list is held. -/
theorem Holds.links_eq (h : Holds links q xs) (h' : Holds links' q' xs) (hx : x ∈ xs) :
    links' x = links x := by
  obtain ⟨pre, post, rfl⟩ := List.append_of_mem hx
  rw [h.link_eq, h'.link_eq]

private theorem nodup_append_singleton (h : xs.Nodup) (hx : x ∉ xs) : (xs ++ [x]).Nodup :=
  List.nodup_append.2 ⟨h, List.nodup_singleton x, fun y hy z hz => by
    rw [List.mem_singleton.1 hz]
    exact fun heq => hx (heq ▸ hy)⟩

/-! ## The operations of a queue -/

variable [DecidableEq α]

/-- Whether the element believes to be in a queue. -/
def contains (links : Links α) (q : Queue α) (x : α) : Bool :=
  q.head.isSome && ((links x).isSome || decide (q.tail = some x))

/-- Set the link of the last element. -/
def linkTail (links : Links α) (tail : Option α) (x : α) : Links α :=
  match tail with
  | none => links
  | some last => Function.update links last (some x)

/-- Append to the back.  `none` when the element is in a queue. -/
def append (links : Links α) (q : Queue α) (x : α) : Option (Links α × Queue α) :=
  if contains links q x then none
  else if q.head = none then some (Function.update links x none, ⟨some x, some x⟩)
  else some (linkTail (Function.update links x none) q.tail x, ⟨q.head, some x⟩)

/-- Insert at the front. -/
def prepend (links : Links α) (q : Queue α) (x : α) : Option (Links α × Queue α) :=
  if contains links q x then none
  else some (Function.update links x q.head,
    ⟨some x, if q.tail = none then some x else q.tail⟩)

/-- Insert behind an element of the queue. -/
def insertAfter (links : Links α) (q : Queue α) (after x : α) : Option (Links α × Queue α) :=
  if !contains links q after || contains links q x then none
  else if q.tail = some after then append links q x
  else some (Function.update (Function.update links x (links after)) after (some x), q)

/-- Remove the front element. -/
def dequeue (links : Links α) (q : Queue α) : Option α × Links α × Queue α :=
  match q.head with
  | none => (none, links, q)
  | some x =>
    (some x, Function.update links x none,
      ⟨links x, if links x = none then none else q.tail⟩)

/-- The element before `x`, from `current` on.  The last argument bounds the
number of elements to look at. -/
def findPrevious (links : Links α) (x : α) : Option α → Nat → Option α
  | none, _ => none
  | some _, 0 => none
  | some current, fuel + 1 =>
    if links current = some x then some current
    else findPrevious links x (links current) fuel

/-- Unlink an element.  `none` when it is not found. -/
def remove (fuel : Nat) (links : Links α) (q : Queue α) (x : α) : Option (Links α × Queue α) :=
  if !contains links q x then none
  else if q.head = some x then some (dequeue links q).2
  else
    match findPrevious links x q.head fuel with
    | none => none
    | some previous =>
      some (Function.update (Function.update links previous (links x)) x none,
        ⟨q.head, if q.tail = some x then some previous else q.tail⟩)

/-! ## What an element knows -/

/-- A field that is set in an element outside of a list is the same in the
list. -/
theorem update_of_notMem {β : Type} (f : α → β) {x : α} (hx : x ∉ xs) (value : β) :
    ∀ y ∈ xs, Function.update f x value y = f y :=
  fun y hy => Function.update_of_ne (fun heq : y = x => hx (heq ▸ hy)) value f

theorem Path.update_of_notMem {start stop : Option α} {x : α} (h : Path links start xs stop)
    (hx : x ∉ xs) (next : Option α) :
    Path (Function.update links x next) start xs stop :=
  Path.congr (IntrusiveQueue.update_of_notMem links hx next) h

/-- `contains` is right about the elements of the queue. -/
theorem Holds.contains_of_mem (h : Holds links q xs) (hx : x ∈ xs) : contains links q x = true := by
  obtain ⟨pre, post, rfl⟩ := List.append_of_mem hx
  have hhead : q.head.isSome = true := by
    rw [h.head_eq]
    cases pre <;> rfl
  unfold contains
  rw [hhead, h.tail, h.link_eq, List.getLast?_append_cons]
  cases post <;> simp

/-- `contains` is right about an element without a link that is not in the
queue. -/
theorem Holds.contains_of_fresh (h : Holds links q xs) (hx : x ∉ xs) (hlink : links x = none) :
    contains links q x = false := by
  unfold contains
  rw [hlink, h.tail]
  have hlast : xs.getLast? ≠ some x := fun heq => hx (List.mem_of_getLast? heq)
  simp [hlast]

/-! ## Inserting and taking the first -/

/-- `append` puts a fresh element at the end. -/
theorem append_spec (h : Holds links q xs) (hx : x ∉ xs) (hlink : links x = none) :
    ∃ links' q', append links q x = some (links', q') ∧ Holds links' q' (xs ++ [x]) ∧
      ∀ y, y ∉ xs → links' y = links y := by
  have hcontains := h.contains_of_fresh hx hlink
  have hsame : Function.update links x none = links := by rw [← hlink, Function.update_eq_self]
  unfold append
  rw [hcontains, hsame]
  rcases List.eq_nil_or_concat xs with rfl | ⟨pre, last, rfl⟩
  · have hhead : q.head = none := h.path
    exact ⟨links, ⟨some x, some x⟩, by simp [hhead], ⟨⟨rfl, hlink⟩, rfl, List.nodup_singleton x⟩,
      fun _ _ => rfl⟩
  · rw [List.concat_eq_append] at *
    have hhead : q.head ≠ none := by
      rw [h.head_eq]
      cases pre <;> simp
    have htail : q.tail = some last := by rw [h.tail, List.getLast?_append_cons]; rfl
    obtain ⟨middle, hpre, hmiddle, hend⟩ := path_append.1 h.path
    obtain ⟨_, _, hdistinct⟩ := List.nodup_append.1 h.nodup
    have hlast : last ∉ pre := fun hmem => hdistinct last hmem last (by simp) rfl
    have hne : x ≠ last := fun heq => hx (by simp [heq])
    refine ⟨Function.update links last (some x), ⟨q.head, some x⟩, ?_, ⟨?_, ?_, ?_⟩, ?_⟩
    · simp [hhead, htail, linkTail]
    · rw [List.append_assoc]
      refine path_append.2 ⟨middle, hpre.update_of_notMem hlast _, hmiddle, ?_⟩
      rw [Function.update_self]
      refine ⟨rfl, ?_⟩
      rw [Function.update_of_ne hne]
      exact hlink
    · simp
    · exact nodup_append_singleton h.nodup hx
    · intro y hy
      exact Function.update_of_ne (fun heq => hy (by simp [heq])) _ _

/-- `prepend` puts a fresh element in front. -/
theorem prepend_spec (h : Holds links q xs) (hx : x ∉ xs) (hlink : links x = none) :
    ∃ links' q', prepend links q x = some (links', q') ∧ Holds links' q' (x :: xs) ∧
      ∀ y, y ≠ x → links' y = links y := by
  have hcontains := h.contains_of_fresh hx hlink
  unfold prepend
  rw [hcontains]
  refine ⟨_, _, rfl, ⟨⟨rfl, ?_⟩, ?_, List.nodup_cons.2 ⟨hx, h.nodup⟩⟩,
    fun y hy => Function.update_of_ne hy _ _⟩
  · rw [Function.update_self]
    exact h.path.update_of_notMem hx _
  · rw [h.tail]
    cases xs with
    | nil => rfl
    | cons y ys => simp [List.getLast?_cons]

/-- `insertAfter` puts a fresh element behind one of the queue. -/
theorem insertAfter_spec {after : α} (h : Holds links q (pre ++ after :: post))
    (hx : x ∉ pre ++ after :: post) (hlink : links x = none) :
    ∃ links' q', insertAfter links q after x = some (links', q') ∧
      Holds links' q' (pre ++ after :: x :: post) ∧
      ∀ y, y ≠ x → y ∉ pre ++ after :: post → links' y = links y := by
  have hafter : contains links q after = true := h.contains_of_mem (by simp)
  have hfresh := h.contains_of_fresh hx hlink
  have hnext := h.link_eq
  unfold insertAfter
  rw [hafter, hfresh]
  cases post with
  | nil =>
    have htail : q.tail = some after := by rw [h.tail]; simp
    obtain ⟨links', q', happend, hholds, hsame⟩ := append_spec h hx hlink
    refine ⟨links', q', by simp [htail, happend], ?_, fun y _ hy => hsame y hy⟩
    simpa using hholds
  | cons next post =>
    obtain ⟨_, _, hdistinct⟩ := List.nodup_append.1 h.nodup
    obtain ⟨hself, hrest⟩ := List.nodup_cons.1 (List.nodup_append.1 h.nodup).2.1
    have hpre : after ∉ pre := fun hmem => hdistinct after hmem after (by simp) rfl
    have hne : x ≠ after := fun heq => hx (by simp [heq])
    have hxpre : x ∉ pre := fun hmem => hx (by simp [hmem])
    have hxpost : x ∉ next :: post := fun hmem => hx (by simp [List.mem_cons.1 hmem])
    have htail : q.tail ≠ some after := by
      rw [h.tail, List.getLast?_append_cons, List.getLast?_cons_cons]
      exact fun heq => hself (List.mem_of_getLast? heq)
    obtain ⟨middle, hpath, hmiddle, hend⟩ := path_append.1 h.path
    refine ⟨_, _, by simp [htail]; exact ⟨rfl, rfl⟩, ⟨?_, ?_, ?_⟩, ?_⟩
    · refine path_append.2 ⟨middle, ?_, hmiddle, ?_⟩
      · exact (hpath.update_of_notMem hxpre _).update_of_notMem hpre _
      · rw [Function.update_self]
        refine ⟨rfl, ?_⟩
        rw [Function.update_of_ne hne, Function.update_self]
        exact (hend.update_of_notMem hxpost _).update_of_notMem hself _
    · rw [h.tail, List.getLast?_append_cons, List.getLast?_append_cons]
      simp [List.getLast?_cons_cons]
    · have hperm : (pre ++ after :: x :: next :: post).Perm
          (x :: (pre ++ after :: next :: post)) := by
        simpa using @List.perm_middle _ x (pre ++ [after]) (next :: post)
      exact hperm.nodup_iff.2 (List.nodup_cons.2 ⟨hx, h.nodup⟩)
    · intro y hyx hy
      rw [Function.update_of_ne (fun heq => hy (by simp [heq])), Function.update_of_ne hyx]

/-- `dequeue` takes the first element and clears its link. -/
theorem dequeue_spec (h : Holds links q (x :: xs)) :
    ∃ links' q', dequeue links q = (some x, links', q') ∧ Holds links' q' xs ∧
      links' x = none ∧ ∀ y, y ≠ x → links' y = links y := by
  obtain ⟨hhead, hpath⟩ := h.path
  obtain ⟨hx, hnodup⟩ := List.nodup_cons.1 h.nodup
  unfold dequeue
  rw [hhead]
  refine ⟨_, _, rfl, ⟨hpath.update_of_notMem hx _, ?_, hnodup⟩, Function.update_self ..,
    fun y hy => Function.update_of_ne hy _ _⟩
  rw [h.tail]
  cases xs with
  | nil => simp [show links x = none from hpath]
  | cons y ys => simp [hpath.1, List.getLast?_cons_cons]

theorem dequeue_nil (h : Holds links q ([] : List α)) : dequeue links q = (none, links, q) := by
  unfold dequeue
  rw [show q.head = none from h.path]

/-! ## Unlinking -/

/-- The search finds the element in front, because no earlier one links to
`x`. -/
theorem findPrevious_eq_some {previous : α} :
    ∀ {start : Option α} {fuel : Nat}, Path links start (pre ++ previous :: x :: post) none →
      (pre ++ previous :: x :: post).Nodup → pre.length < fuel →
      findPrevious links x start fuel = some previous := by
  induction pre with
  | nil =>
    rintro start fuel ⟨rfl, hlink, _⟩ _ hfuel
    match fuel with
    | 0 => exact absurd hfuel (Nat.not_lt_zero _)
    | fuel + 1 => rw [findPrevious, if_pos hlink]
  | cons y pre ih =>
    rintro start fuel ⟨rfl, hpath⟩ hnodup hfuel
    obtain ⟨_, hrest⟩ := List.nodup_cons.1 hnodup
    match fuel with
    | 0 => exact absurd hfuel (Nat.not_lt_zero _)
    | fuel + 1 =>
      have hne : links y ≠ some x := by
        intro heq
        rw [heq] at hpath
        cases pre with
        | nil =>
          obtain rfl := Option.some.inj hpath.1
          exact (List.nodup_cons.1 hrest).1 (List.mem_cons_self ..)
        | cons z pre =>
          obtain rfl := Option.some.inj hpath.1
          exact (List.nodup_cons.1 hrest).1 (by simp)
      rw [findPrevious, if_neg hne]
      exact ih hpath hrest (Nat.lt_of_succ_lt_succ hfuel)

/-- The search finds nothing for an element that is not there. -/
theorem findPrevious_eq_none :
    ∀ {xs : List α} {start : Option α} {fuel : Nat}, Path links start xs none → x ∉ xs →
      findPrevious links x start fuel = none := by
  intro xs
  induction xs with
  | nil =>
    rintro start fuel rfl _
    rw [findPrevious]
  | cons y xs ih =>
    rintro start fuel ⟨rfl, hpath⟩ hx
    match fuel with
    | 0 => rw [findPrevious]
    | fuel + 1 =>
      have hrest : x ∉ xs := fun hmem => hx (List.mem_cons_of_mem y hmem)
      have hne : links y ≠ some x := by
        intro heq
        rw [heq] at hpath
        cases xs with
        | nil => exact absurd (show some x = none from hpath) nofun
        | cons z xs => exact hrest (by rw [Option.some.inj hpath.1]; exact List.mem_cons_self ..)
      rw [findPrevious, if_neg hne]
      exact ih hpath hrest

/-- `remove` of an element that is not the first. -/
theorem remove_behind {front : List α} {previous : α}
    (h : Holds links q (front ++ previous :: x :: post)) {fuel : Nat}
    (hfuel : front.length < fuel) :
    ∃ links' q', remove fuel links q x = some (links', q') ∧
      Holds links' q' (front ++ previous :: post) ∧ links' x = none ∧
      ∀ y, y ∉ front ++ previous :: x :: post → links' y = links y := by
  obtain ⟨_, hback, hdistinct⟩ := List.nodup_append.1 h.nodup
  obtain ⟨hprevious, hxpost⟩ := List.nodup_cons.1 hback
  obtain ⟨hxrest, _⟩ := List.nodup_cons.1 hxpost
  have hxfront : x ∉ front := fun hmem => hdistinct x hmem x (by simp) rfl
  have hpfront : previous ∉ front := fun hmem => hdistinct previous hmem previous (by simp) rfl
  have hne : previous ≠ x := fun heq => hprevious (by simp [heq])
  have hppost : previous ∉ post := fun hmem => hprevious (List.mem_cons_of_mem x hmem)
  have hcontains : contains links q x = true := h.contains_of_mem (by simp)
  have hhead : q.head ≠ some x := by
    rw [h.head_eq]
    cases front with
    | nil => exact fun heq => hne (Option.some.inj heq)
    | cons y front =>
      exact fun heq => hxfront (by rw [← Option.some.inj heq]; exact List.mem_cons_self ..)
  have hfind : findPrevious links x q.head fuel = some previous :=
    findPrevious_eq_some h.path h.nodup hfuel
  have hnext : links x = post.head? := by
    have hsplit : Holds links q ((front ++ [previous]) ++ x :: post) := by simpa using h
    exact hsplit.link_eq
  obtain ⟨middle, hpath, hmiddle, hlink, hend⟩ := path_append.1 h.path
  unfold remove
  simp only [hcontains, hhead, hfind, Bool.not_true, Bool.false_eq_true, if_false]
  refine ⟨_, _, rfl, ⟨?_, ?_, ?_⟩, Function.update_self .., ?_⟩
  · refine path_append.2 ⟨middle, ?_, hmiddle, ?_⟩
    · exact (hpath.update_of_notMem hpfront _).update_of_notMem hxfront _
    · rw [Function.update_of_ne hne, Function.update_self]
      exact (hend.update_of_notMem hppost _).update_of_notMem hxrest _
  · rw [h.tail, List.getLast?_append_cons, List.getLast?_append_cons, List.getLast?_cons_cons]
    cases post with
    | nil => simp
    | cons z post =>
      have hlast : (z :: post).getLast? ≠ some x :=
        fun heq => hxrest (List.mem_of_getLast? heq)
      rw [List.getLast?_cons_cons, List.getLast?_cons_cons, if_neg hlast]
  · refine h.nodup.sublist (List.Sublist.append_left ?_ front)
    exact (List.sublist_cons_self x post).cons_cons previous
  · intro y hy
    rw [Function.update_of_ne (fun heq => hy (by simp [heq])),
      Function.update_of_ne (fun heq => hy (by simp [heq]))]

/-- `remove` unlinks an element of the queue and clears its link. -/
theorem remove_spec (h : Holds links q xs) (hx : x ∈ xs) {fuel : Nat} (hfuel : xs.length ≤ fuel) :
    ∃ links' q', remove fuel links q x = some (links', q') ∧ Holds links' q' (xs.erase x) ∧
      links' x = none ∧ ∀ y, y ∉ xs → links' y = links y := by
  obtain ⟨pre, post, rfl⟩ := List.append_of_mem hx
  have hxpre : x ∉ pre := by
    obtain ⟨_, _, hdistinct⟩ := List.nodup_append.1 h.nodup
    exact fun hmem => hdistinct x hmem x (by simp) rfl
  rw [List.erase_append_right _ hxpre, List.erase_cons_head]
  rcases List.eq_nil_or_concat pre with rfl | ⟨front, previous, rfl⟩
  · obtain ⟨links', q', hdequeue, hholds, hclear, hsame⟩ := dequeue_spec h
    have hcontains : contains links q x = true := h.contains_of_mem hx
    have hhead : q.head = some x := h.path.1
    refine ⟨links', q', ?_, hholds, hclear, fun y hy => hsame y fun heq => hy (by simp [heq])⟩
    unfold remove
    simp [hcontains, hhead, hdequeue]
  · simp only [List.concat_eq_append, List.append_assoc, List.singleton_append,
      List.length_append, List.length_cons] at h hfuel ⊢
    exact remove_behind h (by omega)

/-- `remove` leaves everything alone when the element is not in the queue, even
when it is in another one. -/
theorem remove_eq_none (h : Holds links q xs) (hx : x ∉ xs) (fuel : Nat) :
    remove fuel links q x = none := by
  unfold remove
  split
  · rfl
  · have hhead : q.head ≠ some x := by
      rw [h.head_eq]
      exact fun heq => hx (List.mem_of_head? heq)
    rw [if_neg hhead, findPrevious_eq_none h.path hx]

/-! ## Queues that share their links -/

/-- Several queues of one kind.  No element is in two of them, and an element
that is in none has no link. -/
structure Family {ι : Type} (links : Links α) (queues : ι → Queue α) (lists : ι → List α) :
    Prop where
  holds : ∀ i, Holds links (queues i) (lists i)
  apart : ∀ i j, i ≠ j → ∀ x ∈ lists i, x ∉ lists j
  unlinked : ∀ x, (∀ i, x ∉ lists i) → links x = none

namespace Family

variable {ι : Type} [DecidableEq ι] {queues : ι → Queue α} {lists : ι → List α}

omit [DecidableEq α] in
/-- One of the queues changes, and its new elements come from no other. -/
theorem set (h : Family links queues lists) (i : ι) {xs' : List α}
    (hholds : Holds links' q' xs') (hfresh : ∀ y ∈ xs', y ∈ lists i ∨ ∀ j, y ∉ lists j)
    (hsame : ∀ y, y ∉ lists i → y ∉ xs' → links' y = links y)
    (hgone : ∀ y ∈ lists i, y ∉ xs' → links' y = none) :
    Family links' (Function.update queues i q') (Function.update lists i xs') := by
  have hother : ∀ j, j ≠ i → ∀ y ∈ xs', y ∉ lists j := by
    intro j hj y hy
    rcases hfresh y hy with hmem | hnone
    · exact h.apart i j hj.symm y hmem
    · exact hnone j
  refine ⟨fun j => ?_, fun j k hjk y hy => ?_, fun y hy => ?_⟩
  · by_cases hj : j = i
    · subst hj
      rwa [Function.update_self, Function.update_self]
    · rw [Function.update_of_ne hj, Function.update_of_ne hj]
      exact (h.holds j).frame fun y hy =>
        hsame y (h.apart j i hj y hy) fun hmem => hother j hj y hmem hy
  · by_cases hj : j = i
    · subst hj
      rw [Function.update_self] at hy
      rw [Function.update_of_ne hjk.symm]
      exact hother k hjk.symm y hy
    · rw [Function.update_of_ne hj] at hy
      by_cases hk : k = i
      · subst hk
        rw [Function.update_self]
        exact fun hmem => hother j hj y hmem hy
      · rw [Function.update_of_ne hk]
        exact h.apart j k hjk y hy
  · have hself := hy i
    rw [Function.update_self] at hself
    by_cases hmem : y ∈ lists i
    · exact hgone y hmem hself
    · rw [hsame y hmem hself]
      refine h.unlinked y fun j => ?_
      by_cases hj : j = i
      · rwa [hj]
      · have hy' := hy j
        rwa [Function.update_of_ne hj] at hy'

omit [DecidableEq α] in
/-- One of the queues got a new element that was in none. -/
theorem insert (h : Family links queues lists) (i : ι) (hx : ∀ j, x ∉ lists j) {xs' : List α}
    (hholds : Holds links' q' xs') (hmem : ∀ y, y ∈ xs' ↔ y = x ∨ y ∈ lists i)
    (hsame : ∀ y, y ≠ x → y ∉ lists i → links' y = links y) :
    Family links' (Function.update queues i q') (Function.update lists i xs') := by
  refine h.set i hholds (fun y hy => ?_) (fun y hy hnot => ?_) fun y hy hnot => ?_
  · rcases (hmem y).1 hy with rfl | hold
    · exact Or.inr hx
    · exact Or.inl hold
  · exact hsame y (fun heq => hnot ((hmem y).2 (Or.inl heq))) hy
  · exact absurd ((hmem y).2 (Or.inr hy)) hnot

/-- `append` of an element that is in none of the queues. -/
theorem append (h : Family links queues lists) (i : ι) (hx : ∀ j, x ∉ lists j) :
    ∃ links' q', IntrusiveQueue.append links (queues i) x = some (links', q') ∧
      Family links' (Function.update queues i q') (Function.update lists i (lists i ++ [x])) := by
  obtain ⟨links', q', happend, hholds, hsame⟩ := append_spec (h.holds i) (hx i) (h.unlinked x hx)
  exact ⟨links', q', happend, h.insert i hx hholds (fun y => by simp [or_comm])
    fun y _ hy => hsame y hy⟩

/-- `prepend` of an element that is in none of the queues. -/
theorem prepend (h : Family links queues lists) (i : ι) (hx : ∀ j, x ∉ lists j) :
    ∃ links' q', IntrusiveQueue.prepend links (queues i) x = some (links', q') ∧
      Family links' (Function.update queues i q') (Function.update lists i (x :: lists i)) := by
  obtain ⟨links', q', hprepend, hholds, hsame⟩ :=
    prepend_spec (h.holds i) (hx i) (h.unlinked x hx)
  exact ⟨links', q', hprepend, h.insert i hx hholds (fun y => List.mem_cons)
    fun y hyx _ => hsame y hyx⟩

/-- `insertAfter` of such an element behind one of the queue. -/
theorem insertAfter (h : Family links queues lists) {i : ι} {after : α}
    (hxs : lists i = pre ++ after :: post) (hx : ∀ j, x ∉ lists j) :
    ∃ links' q', IntrusiveQueue.insertAfter links (queues i) after x = some (links', q') ∧
      Family links' (Function.update queues i q')
        (Function.update lists i (pre ++ after :: x :: post)) := by
  obtain ⟨links', q', hinsert, hholds, hsame⟩ :=
    insertAfter_spec (hxs ▸ h.holds i) (hxs ▸ hx i) (h.unlinked x hx)
  refine ⟨links', q', hinsert, h.insert i hx hholds (fun y => ?_) fun y hyx hy => ?_⟩
  · rw [hxs]
    simp only [List.mem_append, List.mem_cons]
    tauto
  · exact hsame y hyx (hxs ▸ hy)

theorem dequeue (h : Family links queues lists) {i : ι} (hxs : lists i = x :: xs) :
    ∃ links' q', IntrusiveQueue.dequeue links (queues i) = (some x, links', q') ∧
      Family links' (Function.update queues i q') (Function.update lists i xs) := by
  obtain ⟨links', q', hdequeue, hholds, hclear, hsame⟩ := dequeue_spec (hxs ▸ h.holds i)
  refine ⟨links', q', hdequeue, h.set i hholds (fun y hy => Or.inl ?_) (fun y hy _ => ?_)
    fun y hy hnot => ?_⟩
  · rw [hxs]
    exact List.mem_cons_of_mem x hy
  · exact hsame y fun heq => hy (by rw [hxs, heq]; exact List.mem_cons_self ..)
  · rw [hxs] at hy
    rcases List.mem_cons.1 hy with rfl | hmem
    · exact hclear
    · exact absurd hmem hnot

theorem remove (h : Family links queues lists) {i : ι} (hx : x ∈ lists i) {fuel : Nat}
    (hfuel : (lists i).length ≤ fuel) :
    ∃ links' q', IntrusiveQueue.remove fuel links (queues i) x = some (links', q') ∧
      Family links' (Function.update queues i q')
        (Function.update lists i ((lists i).erase x)) := by
  obtain ⟨links', q', hremove, hholds, hclear, hsame⟩ := remove_spec (h.holds i) hx hfuel
  refine ⟨links', q', hremove, h.set i hholds (fun y hy => Or.inl (List.mem_of_mem_erase hy))
    (fun y hy _ => hsame y hy) fun y hy hnot => ?_⟩
  by_cases heq : y = x
  · rw [heq, hclear]
  · exact absurd ((List.mem_erase_of_ne heq).2 hy) hnot

end Family

end IntrusiveQueue
