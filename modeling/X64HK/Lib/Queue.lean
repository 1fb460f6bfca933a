import X64HK.Lib.IntrusiveQueue

/-!
# Queues of the kernel

A model of the class of `Kernel/Lib/Queue.h`, with all objects of one type at once,
since these share the link member of their items.  The methods are those of
`Lib/IntrusiveQueue.lean`, and a family of queues is a function from some names
to them.

What a queue is for is a list.  `QueueCall.onLists` says what each call does to
the lists, and `QueueCall.Allowed` what a caller has to take care of: an item that
goes into a queue is in none.  Any item may be removed from any queue.

* `QueueFamily.perform_spec`: one call.
* `queue_family_is_lists`: every call of every sequence of calls.
-/

namespace X64HK

open IntrusiveQueue

variable {ι α : Type} [DecidableEq ι] [DecidableEq α]

/-- The queues of one type, and the links of the items. -/
structure QueueFamily (ι α : Type) where
  links : Links α := fun _ => none
  queues : ι → Queue α := fun _ => {}

/-- The methods that change a queue. -/
inductive QueueCall (ι α : Type) where
  | append (i : ι) (item : α)
  | prepend (i : ι) (item : α)
  | insertAfter (i : ι) (after item : α)
  | dequeue (i : ι)
  | remove (i : ι) (item : α)
  deriving DecidableEq, Repr

/-- What a method returns. -/
inductive QueueAnswer (α : Type) where
  | done (success : Bool)
  | front (item : Option α)
  deriving DecidableEq, Repr

namespace QueueCall

/-- The queue whose method is called. -/
def queue : QueueCall ι α → ι
  | .append i _ => i
  | .prepend i _ => i
  | .insertAfter i _ _ => i
  | .dequeue i => i
  | .remove i _ => i

end QueueCall

namespace QueueFamily

/-- A method that returns `false` changes nothing. -/
def update (f : QueueFamily ι α) (i : ι) :
    Option (Links α × Queue α) → QueueAnswer α × QueueFamily ι α
  | none => (.done false, f)
  | some (links, q) => (.done true, ⟨links, Function.update f.queues i q⟩)

/-- One call.  `fuel` bounds the search of `Remove`. -/
def perform (fuel : Nat) (f : QueueFamily ι α) : QueueCall ι α → QueueAnswer α × QueueFamily ι α
  | .append i item => f.update i (append f.links (f.queues i) item)
  | .prepend i item => f.update i (prepend f.links (f.queues i) item)
  | .insertAfter i after item => f.update i (insertAfter f.links (f.queues i) after item)
  | .dequeue i =>
    let (item, links, q) := dequeue f.links (f.queues i)
    (.front item, ⟨links, Function.update f.queues i q⟩)
  | .remove i item => f.update i (remove fuel f.links (f.queues i) item)

/-- The queues after some calls. -/
def after (fuel : Nat) (calls : List (QueueCall ι α)) : QueueFamily ι α :=
  calls.foldl (fun f call => (f.perform fuel call).2) {}

end QueueFamily

/-! ## Lists -/

/-- Put an item behind another one. -/
def insertBehind (after item : α) : List α → List α
  | [] => []
  | x :: xs => if x = after then x :: item :: xs else x :: insertBehind after item xs

namespace QueueCall

/-- What a call does when the queues are lists. -/
def onLists (lists : ι → List α) : QueueCall ι α → QueueAnswer α × (ι → List α)
  | .append i item => (.done true, Function.update lists i (lists i ++ [item]))
  | .prepend i item => (.done true, Function.update lists i (item :: lists i))
  | .insertAfter i after item =>
    (.done true, Function.update lists i (insertBehind after item (lists i)))
  | .dequeue i => (.front (lists i).head?, Function.update lists i (lists i).tail)
  | .remove i item =>
    (.done (decide (item ∈ lists i)), Function.update lists i ((lists i).erase item))

/-- The lists after some calls. -/
def listsAfter (calls : List (QueueCall ι α)) : ι → List α :=
  calls.foldl (fun lists call => (call.onLists lists).2) fun _ => []

/-- An item that goes into a queue is in none, and the one that it goes behind is in
the queue. -/
def Allowed (lists : ι → List α) : QueueCall ι α → Prop
  | .append _ item => ∀ j, item ∉ lists j
  | .prepend _ item => ∀ j, item ∉ lists j
  | .insertAfter i after item => after ∈ lists i ∧ ∀ j, item ∉ lists j
  | .dequeue _ => True
  | .remove _ _ => True

/-- Every call is allowed when its turn comes. -/
def AllAllowed : (ι → List α) → List (QueueCall ι α) → Prop
  | _, [] => True
  | lists, call :: calls => call.Allowed lists ∧ AllAllowed (call.onLists lists).2 calls

end QueueCall

omit [DecidableEq ι] in
theorem insertBehind_of_split {pre post : List α} {after : α} (item : α) (hpre : after ∉ pre) :
    insertBehind after item (pre ++ after :: post) = pre ++ after :: item :: post := by
  induction pre with
  | nil => simp [insertBehind]
  | cons x pre ih =>
    have hne : x ≠ after := fun heq => hpre (by simp [heq])
    have hrest : after ∉ pre := fun hmem => hpre (List.mem_cons_of_mem x hmem)
    rw [List.cons_append, insertBehind, if_neg hne, ih hrest, List.cons_append]

omit [DecidableEq ι] in
theorem length_insertBehind_le (after item : α) (xs : List α) :
    (insertBehind after item xs).length ≤ xs.length + 1 := by
  induction xs with
  | nil => exact Nat.zero_le _
  | cons x xs ih =>
    unfold insertBehind
    split
    · simp
    · simpa using ih

namespace QueueCall

variable {lists : ι → List α}

/-- The other lists stay as they are. -/
theorem onLists_of_ne (call : QueueCall ι α) {j : ι} (hj : j ≠ call.queue) :
    (call.onLists lists).2 j = lists j := by
  cases call <;> exact Function.update_of_ne hj _ _

/-- A call adds at most one item. -/
theorem length_onLists_le (lists : ι → List α) (call : QueueCall ι α) (j : ι) :
    ((call.onLists lists).2 j).length ≤ (lists j).length + 1 := by
  by_cases hj : j = call.queue
  · subst hj
    cases call with
    | append i item => simp [onLists, queue]
    | prepend i item => simp [onLists, queue]
    | insertAfter i after item =>
      simp only [onLists, queue, Function.update_self]
      exact length_insertBehind_le after item (lists i)
    | dequeue i =>
      simp only [onLists, queue, Function.update_self, List.length_tail]
      omega
    | remove i item =>
      simp only [onLists, queue, Function.update_self]
      exact Nat.le_succ_of_le (List.erase_sublist.length_le)
  · rw [onLists_of_ne call hj]
    exact Nat.le_succ _

end QueueCall

/-! ## The refinement -/

namespace QueueFamily

variable {f : QueueFamily ι α} {lists : ι → List α}

/-- The queues are these lists: the links of each queue lead from its head through
its list to its tail, no item is in two queues, and an item in none has no link. -/
def Represents (f : QueueFamily ι α) (lists : ι → List α) : Prop :=
  Family f.links f.queues lists

/-- What a call does, seen from outside. -/
structure Serves (fuel : Nat) (f : QueueFamily ι α) (lists : ι → List α) (call : QueueCall ι α) :
    Prop where
  answer : (f.perform fuel call).1 = (call.onLists lists).1
  represents : (f.perform fuel call).2.Represents (call.onLists lists).2
  /-- An item that left its queue has no link. -/
  cleared : ∀ item ∈ lists call.queue, item ∉ (call.onLists lists).2 call.queue →
    (f.perform fuel call).2.links item = none
  /-- Neither the pointers of another queue nor the links of its items are written. -/
  others : ∀ j, j ≠ call.queue → (f.perform fuel call).2.queues j = f.queues j ∧
    (call.onLists lists).2 j = lists j ∧
    ∀ item ∈ lists j, (f.perform fuel call).2.links item = f.links item

omit [DecidableEq α] in
theorem update_queues_of_ne (f : QueueFamily ι α) {i j : ι} (hj : j ≠ i)
    (result : Option (Links α × Queue α)) : (f.update i result).2.queues j = f.queues j := by
  cases result with
  | none => rfl
  | some result => exact Function.update_of_ne hj _ _

/-- The answer and the lists are as they should be. -/
theorem perform_represents (h : f.Represents lists) {call : QueueCall ι α}
    (hallowed : call.Allowed lists) (fuel : Nat) (hfuel : (lists call.queue).length ≤ fuel) :
    (f.perform fuel call).1 = (call.onLists lists).1 ∧
      (f.perform fuel call).2.Represents (call.onLists lists).2 := by
  cases call with
  | append i item =>
    obtain ⟨links', q', happend, hfamily⟩ := Family.append h i hallowed
    dsimp only [perform, QueueCall.onLists]
    rw [happend]
    exact ⟨rfl, hfamily⟩
  | prepend i item =>
    obtain ⟨links', q', hprepend, hfamily⟩ := Family.prepend h i hallowed
    dsimp only [perform, QueueCall.onLists]
    rw [hprepend]
    exact ⟨rfl, hfamily⟩
  | insertAfter i after item =>
    obtain ⟨hafter, hitem⟩ := hallowed
    obtain ⟨pre, post, hsplit⟩ := List.append_of_mem hafter
    have hnodup := (Family.holds h i).nodup
    rw [hsplit] at hnodup
    have hpre : after ∉ pre := fun hmem =>
      (List.nodup_append.1 hnodup).2.2 after hmem after (List.mem_cons_self ..) rfl
    obtain ⟨links', q', hinsert, hfamily⟩ := Family.insertAfter h hsplit hitem
    dsimp only [perform, QueueCall.onLists]
    rw [hinsert, hsplit, insertBehind_of_split item hpre]
    exact ⟨rfl, hfamily⟩
  | dequeue i =>
    dsimp only [perform, QueueCall.onLists]
    cases hlist : lists i with
    | nil =>
      have hsame : Function.update lists i [] = lists := by rw [← hlist, Function.update_eq_self]
      rw [dequeue_nil (hlist ▸ Family.holds h i), List.tail_nil, hsame, Function.update_eq_self]
      exact ⟨rfl, h⟩
    | cons x xs =>
      obtain ⟨links', q', hdequeue, hfamily⟩ := Family.dequeue h hlist
      rw [hdequeue]
      exact ⟨rfl, hfamily⟩
  | remove i item =>
    dsimp only [perform, QueueCall.onLists]
    by_cases hmem : item ∈ lists i
    · obtain ⟨links', q', hremove, hfamily⟩ := Family.remove h hmem hfuel
      rw [hremove, decide_eq_true hmem]
      exact ⟨rfl, hfamily⟩
    · -- `Contains` may be wrong here, but then the search comes to its end
      rw [remove_eq_none (Family.holds h i) hmem, decide_eq_false hmem,
        List.erase_of_not_mem hmem, Function.update_eq_self]
      exact ⟨rfl, h⟩

theorem perform_queues_of_ne (fuel : Nat) (f : QueueFamily ι α) (call : QueueCall ι α) {j : ι}
    (hj : j ≠ call.queue) : (f.perform fuel call).2.queues j = f.queues j := by
  cases call with
  | dequeue i => exact Function.update_of_ne hj _ _
  | append i item => exact f.update_queues_of_ne hj _
  | prepend i item => exact f.update_queues_of_ne hj _
  | insertAfter i after item => exact f.update_queues_of_ne hj _
  | remove i item => exact f.update_queues_of_ne hj _

/-- One call, when the queues are lists. -/
theorem perform_spec (h : f.Represents lists) {call : QueueCall ι α}
    (hallowed : call.Allowed lists) {fuel : Nat} (hfuel : (lists call.queue).length ≤ fuel) :
    Serves fuel f lists call := by
  obtain ⟨hanswer, hnew⟩ := perform_represents h hallowed fuel hfuel
  refine ⟨hanswer, hnew, fun item hmem hgone => ?_, fun j hj => ?_⟩
  · refine Family.unlinked hnew item fun j => ?_
    by_cases hj : j = call.queue
    · rw [hj]
      exact hgone
    · rw [call.onLists_of_ne hj]
      exact Family.apart h call.queue j (Ne.symm hj) item hmem
  · refine ⟨perform_queues_of_ne fuel f call hj, call.onLists_of_ne hj, fun item hmem => ?_⟩
    have hthere := Family.holds hnew j
    rw [call.onLists_of_ne hj] at hthere
    exact (Family.holds h j).links_eq hthere hmem

/-- Any number of calls. -/
theorem foldl_represents {fuel : Nat} (calls : List (QueueCall ι α)) :
    ∀ {f : QueueFamily ι α} {lists : ι → List α} {n : Nat}, f.Represents lists →
      QueueCall.AllAllowed lists calls → (∀ i, (lists i).length ≤ n) → n + calls.length ≤ fuel →
      (calls.foldl (fun f call => (f.perform fuel call).2) f).Represents
        (calls.foldl (fun lists call => (call.onLists lists).2) lists) := by
  induction calls with
  | nil => exact fun h _ _ _ => h
  | cons call calls ih =>
    intro f lists n h hallowed hlength hfuel
    rw [List.length_cons] at hfuel
    have hbound := hlength call.queue
    have hnext := (perform_represents h hallowed.1 fuel (by omega)).2
    refine ih (n := n + 1) hnext hallowed.2 (fun i => ?_) (by omega)
    exact Nat.le_trans (call.length_onLists_le lists i) (Nat.succ_le_succ (hlength i))

theorem length_listsAfter_le (calls : List (QueueCall ι α)) (i : ι) :
    (QueueCall.listsAfter calls i).length ≤ calls.length := by
  have hgeneral : ∀ (calls : List (QueueCall ι α)) (lists : ι → List α),
      (calls.foldl (fun lists call => (call.onLists lists).2) lists i).length ≤
        (lists i).length + calls.length := by
    intro calls
    induction calls with
    | nil => exact fun lists => Nat.le_refl _
    | cons call calls ih =>
      intro lists
      have hstep := call.length_onLists_le lists i
      have hrest := ih (call.onLists lists).2
      rw [List.length_cons, List.foldl_cons]
      omega
  have h := hgeneral calls fun _ => []
  rwa [List.length_nil, Nat.zero_add] at h

end QueueFamily

open QueueFamily QueueCall

/-- The calls of a sequence are allowed up to some call and it is. -/
theorem allAllowed_append {calls : List (QueueCall ι α)} {call : QueueCall ι α} :
    ∀ {lists : ι → List α}, AllAllowed lists (calls ++ [call]) →
      AllAllowed lists calls ∧
        call.Allowed (calls.foldl (fun lists call => (call.onLists lists).2) lists) := by
  induction calls with
  | nil => exact fun h => ⟨trivial, h.1⟩
  | cons first calls ih =>
    intro lists h
    obtain ⟨hcalls, hcall⟩ := ih h.2
    exact ⟨⟨h.1, hcalls⟩, hcall⟩

/-- After any allowed calls the queues are lists, and another allowed call does what it
does to lists. -/
theorem queue_family_is_lists (calls : List (QueueCall ι α)) (call : QueueCall ι α)
    (hallowed : AllAllowed (fun _ => []) (calls ++ [call])) (fuel : Nat)
    (hfuel : calls.length ≤ fuel) :
    (after fuel calls).Represents (listsAfter calls) ∧
      Serves fuel (after fuel calls) (listsAfter calls) call := by
  obtain ⟨hcalls, hcall⟩ := allAllowed_append hallowed
  have hstart : ({} : QueueFamily ι α).Represents fun _ => [] :=
    ⟨fun _ => holds_empty _, fun _ _ _ _ hmem => absurd hmem List.not_mem_nil, fun _ _ => rfl⟩
  have hrepresents : (after fuel calls).Represents (listsAfter calls) :=
    foldl_represents calls hstart hcalls (fun _ => Nat.le_refl 0) (by omega)
  refine ⟨hrepresents, perform_spec hrepresents hcall ?_⟩
  exact Nat.le_trans (length_listsAfter_le calls call.queue) hfuel

/-- The first item of the second queue is not removed from the first one, though `Contains`
says that it is there. -/
theorem queue_family_is_lists_other :
    (((after 3 [.append false 1, .append true 2, .append true 3]).perform 3
      (.remove false 2)).1 : QueueAnswer Nat) = .done false := by
  have hallowed : AllAllowed (fun _ => [])
      ([.append false 1, .append true 2, .append true 3] ++ [.remove false 2] :
        List (QueueCall Bool Nat)) :=
    ⟨fun j => by cases j <;> decide, fun j => by cases j <;> decide,
      fun j => by cases j <;> decide, trivial, trivial⟩
  have h := queue_family_is_lists _ _ hallowed 3 (by decide)
  exact h.2.answer.trans (by decide)

end X64HK
