import X64HK.Lib.RingBuffer
import X64HK.Lib.Transition

/-!
# One producer and one consumer

A model of `Kernel/Lib/RingBuffer.h` with a step for every load and every store.  One
thread calls `Produce` again and again and one calls `Consume`, and their steps
come in any order.  An element is a list of words that are copied one by one, so a slot
can be seen half written.  The two loads of `IsEmpty` have no order in the source
and come in either one here.

The indices are natural numbers.  They stay below the capacity, which is an `unsigned`.

The lists at the end of `Spsc.State` and its two flags are the history of the run.  No
step looks at them.

* `Spsc.Sound` says what each thread knows where it stands.  `Sound.producer` and
  `Sound.consumer` are the steps.
* `ring_buffer_is_bounded_fifo`: every state of every run.
-/

namespace X64HK

namespace Spsc

variable {ω : Type}

/-- Where the producer is. -/
inductive Producer (ω : Type) where
  | idle
  | called (value : List ω)
  /-- `nextWrite` is known. -/
  | loadedWrite (value : List ω) (nextWrite : Nat)
  /-- The test passed. -/
  | notFull (value : List ω) (nextWrite : Nat)
  /-- Some words are in the slot. -/
  | storing (value : List ω) (nextWrite slot stored : Nat)
  | returning (value : List ω) (success : Bool)

/-- Where the consumer is. -/
inductive Consumer (ω : Type) where
  | idle
  | called
  /-- In `IsEmpty`, with one of its two values. -/
  | loadedRead (read : Nat)
  | loadedWrite (write : Nat)
  | notEmpty
  /-- Some words have been read. -/
  | loading (slot : Nat) (words : List ω)
  | releasing (words : List ω) (nextRead : Nat)
  | returning (result : Option (List ω))

structure State (ω : Type) where
  buffer : RingBuffer (List ω)
  producer : Producer ω := .idle
  consumer : Consumer ω := .idle
  /-- The values that were published by a store to `m_Write`. -/
  published : List (List ω) := []
  /-- The values that were given up by a store to `m_Read`. -/
  released : List (List ω) := []
  /-- The values of the calls of `Produce` that returned `true`. -/
  accepted : List (List ω) := []
  /-- The values that calls of `Consume` returned. -/
  returned : List (List ω) := []
  /-- Whether the buffer was full at some point of the last call of `Produce`. -/
  sawFull : Bool := false
  /-- Whether it was empty at some point of the last call of `Consume`. -/
  sawEmpty : Bool := false

/-- The number of values in the buffer. -/
def State.present (s : State ω) : Nat := s.published.length - s.released.length

/-- Write down whether the buffer is full or empty now. -/
def observe (capacity : Nat) (s : State ω) : State ω :=
  { s with
    sawFull := s.sawFull || decide (s.present + 1 = capacity)
    sawEmpty := s.sawEmpty || decide (s.present = 0) }

/-- The next step of `Produce`. -/
def stepProducer (capacity : Nat) (s : State ω) : Option (State ω) :=
  match s.producer with
  | .idle => none
  | .called value =>
    some { s with producer := .loadedWrite value ((s.buffer.write + 1) % capacity) }
  | .loadedWrite value nextWrite =>
    if nextWrite = s.buffer.read then some { s with producer := .returning value false }
    else some { s with producer := .notFull value nextWrite }
  | .notFull value nextWrite =>
    some { s with producer := .storing value nextWrite s.buffer.write 0 }
  | .storing value nextWrite slot stored =>
    match value[stored]? with
    | some word =>
      some { s with
        buffer := { s.buffer with
          data := Function.update s.buffer.data slot ((s.buffer.data slot).set stored word) }
        producer := .storing value nextWrite slot (stored + 1) }
    | none =>
      some { s with
        buffer := { s.buffer with write := nextWrite }
        producer := .returning value true
        published := s.published ++ [value] }
  | .returning value success =>
    some { s with
      producer := .idle
      accepted := if success then s.accepted ++ [value] else s.accepted }

/-- The next step of `Consume`.  An element has `size` words. -/
def stepConsumer (capacity size : Nat) (s : State ω) : Option (State ω) :=
  match s.consumer with
  | .idle => none
  | .called => some { s with consumer := .loadedRead s.buffer.read }
  | .loadedRead read =>
    if read = s.buffer.write then some { s with consumer := .returning none }
    else some { s with consumer := .notEmpty }
  | .loadedWrite write =>
    if s.buffer.read = write then some { s with consumer := .returning none }
    else some { s with consumer := .notEmpty }
  | .notEmpty => some { s with consumer := .loading s.buffer.read [] }
  | .loading slot words =>
    if words.length < size then
      ((s.buffer.data slot)[words.length]?).map fun word =>
        { s with consumer := .loading slot (words ++ [word]) }
    else some { s with consumer := .releasing words ((s.buffer.read + 1) % capacity) }
  | .releasing words nextRead =>
    some { s with
      buffer := { s.buffer with read := nextRead }
      consumer := .returning (some words)
      released := s.released ++ [words] }
  | .returning result =>
    some { s with
      consumer := .idle
      returned := s.returned ++ result.toList }

inductive Action (ω : Type) where
  | produce (value : List ω)
  | producer
  | consume
  | consumer
  /-- `IsEmpty` loads `m_Write` first. -/
  | consumerWriteFirst

def step (capacity size : Nat) (s : State ω) : Action ω → Option (State ω)
  | .produce value =>
    match s.producer with
    | .idle =>
      if value.length = size then
        some (observe capacity { s with producer := .called value, sawFull := false })
      else none
    | _ => none
  | .producer => (stepProducer capacity s).map (observe capacity)
  | .consume =>
    match s.consumer with
    | .idle => some (observe capacity { s with consumer := .called, sawEmpty := false })
    | _ => none
  | .consumer => (stepConsumer capacity size s).map (observe capacity)
  | .consumerWriteFirst =>
    match s.consumer with
    | .called => some (observe capacity { s with consumer := .loadedWrite s.buffer.write })
    | _ => none

/-! ## What the threads know -/

/-- A value that is published, of a call that has not returned. -/
def Producer.pending : Producer ω → List (List ω)
  | .returning value true => [value]
  | _ => []

/-- A value that is given up, of a call that has not returned. -/
def Consumer.pending : Consumer ω → List (List ω)
  | .returning (some words) => [words]
  | _ => []

/-- What the producer knows about a buffer with some number of values. -/
def Producer.Knows (capacity size : Nat) (rb : RingBuffer (List ω)) (count : Nat)
    (sawFull : Bool) : Producer ω → Prop
  | .idle => True
  | .called value => value.length = size
  | .loadedWrite value nextWrite =>
    value.length = size ∧ nextWrite = (rb.write + 1) % capacity
  | .notFull value nextWrite =>
    value.length = size ∧ nextWrite = (rb.write + 1) % capacity ∧ count + 1 < capacity
  | .storing value nextWrite slot stored =>
    value.length = size ∧ nextWrite = (rb.write + 1) % capacity ∧ count + 1 < capacity ∧
      slot = rb.write ∧ (rb.data slot).take stored = value.take stored
  | .returning _ success => success = false → sawFull = true

/-- What the consumer knows about a buffer with the values `xs`. -/
def Consumer.Knows (capacity : Nat) (rb : RingBuffer (List ω)) (xs : List (List ω))
    (sawEmpty : Bool) : Consumer ω → Prop
  | .idle => True
  | .called => True
  | .loadedRead read => read = rb.read
  | .loadedWrite write =>
    ∃ n ≤ xs.length, write = (rb.read + n) % capacity ∧ (n = 0 → sawEmpty = true)
  | .notEmpty => xs ≠ []
  | .loading slot words =>
    slot = rb.read ∧ ∃ x rest, xs = x :: rest ∧ words = x.take words.length
  | .releasing words nextRead => nextRead = (rb.read + 1) % capacity ∧ ∃ rest, xs = words :: rest
  | .returning result => result = none → sawEmpty = true

section

variable {capacity size : Nat} {rb rb' : RingBuffer (List ω)}

/-- The consumer takes nothing away from what the producer knows. -/
theorem Producer.Knows.mono {p : Producer ω} {count count' : Nat} {flag flag' : Bool}
    (h : p.Knows capacity size rb count flag) (hwrite : rb'.write = rb.write)
    (hdata : rb'.data = rb.data) (hcount : count' ≤ count) (hflag : flag = true → flag' = true) :
    p.Knows capacity size rb' count' flag' := by
  cases p with
  | idle => exact h
  | called value => exact h
  | loadedWrite value nextWrite =>
    unfold Knows
    rw [hwrite]
    exact h
  | notFull value nextWrite =>
    obtain ⟨hvalue, hnext, hroom⟩ := h
    unfold Knows
    rw [hwrite]
    exact ⟨hvalue, hnext, by omega⟩
  | storing value nextWrite slot stored =>
    obtain ⟨hvalue, hnext, hroom, hslot, htake⟩ := h
    unfold Knows
    rw [hwrite, hdata]
    exact ⟨hvalue, hnext, by omega, hslot, htake⟩
  | returning value success => exact fun hfailed => hflag (h hfailed)

/-- The producer takes nothing away from what the consumer knows. -/
theorem Consumer.Knows.mono {c : Consumer ω} {xs xs' : List (List ω)} {flag flag' : Bool}
    (h : c.Knows capacity rb xs flag) (hread : rb'.read = rb.read) (hxs : ∃ ys, xs' = xs ++ ys)
    (hflag : flag = true → flag' = true) : c.Knows capacity rb' xs' flag' := by
  obtain ⟨ys, rfl⟩ := hxs
  cases c with
  | idle => exact h
  | called => exact h
  | loadedRead read => exact (show read = rb.read from h).trans hread.symm
  | loadedWrite write =>
    obtain ⟨n, hn, hwrite, hzero⟩ := h
    refine ⟨n, ?_, by rw [hread]; exact hwrite, fun hn => hflag (hzero hn)⟩
    rw [List.length_append]
    omega
  | notEmpty => exact List.append_ne_nil_of_left_ne_nil h ys
  | loading slot words =>
    obtain ⟨hslot, x, rest, rfl, hwords⟩ := h
    exact ⟨hslot.trans hread.symm, x, rest ++ ys, rfl, hwords⟩
  | releasing words nextRead =>
    obtain ⟨hnext, rest, rfl⟩ := h
    exact ⟨by rw [hread]; exact hnext, rest ++ ys, rfl⟩
  | returning result => exact fun hnone => hflag (h hnone)

end

/-- The buffer has the values `xs`, and both threads are right about it. -/
structure Sound (capacity size : Nat) (s : State ω) (xs : List (List ω)) : Prop where
  holds : RingBuffer.Holds capacity s.buffer xs
  published_eq : s.published = s.released ++ xs
  slot_length : ∀ slot, (s.buffer.data slot).length = size
  value_length : ∀ value ∈ xs, value.length = size
  accepted_eq : s.published = s.accepted ++ s.producer.pending
  returned_eq : s.released = s.returned ++ s.consumer.pending
  producer : s.producer.Knows capacity size s.buffer xs.length s.sawFull
  consumer : s.consumer.Knows capacity s.buffer xs s.sawEmpty

variable {capacity size : Nat} {s s' : State ω} {xs : List (List ω)}

/-- A state whose threads are right once the flags are written down. -/
theorem Sound.observe (holds : RingBuffer.Holds capacity s.buffer xs)
    (published_eq : s.published = s.released ++ xs)
    (slot_length : ∀ slot, (s.buffer.data slot).length = size)
    (value_length : ∀ value ∈ xs, value.length = size)
    (accepted_eq : s.published = s.accepted ++ s.producer.pending)
    (returned_eq : s.released = s.returned ++ s.consumer.pending)
    (producer : s.producer.Knows capacity size s.buffer xs.length
      (s.sawFull || decide (xs.length + 1 = capacity)))
    (consumer : s.consumer.Knows capacity s.buffer xs (s.sawEmpty || decide (xs.length = 0))) :
    Sound capacity size (Spsc.observe capacity s) xs := by
  have hpresent : s.present = xs.length := by
    rw [State.present, published_eq, List.length_append, Nat.add_sub_cancel_left]
  refine ⟨holds, published_eq, slot_length, value_length, accepted_eq, returned_eq, ?_, ?_⟩
  · show s.producer.Knows capacity size s.buffer xs.length
      (s.sawFull || decide (s.present + 1 = capacity))
    rw [hpresent]
    exact producer
  · show s.consumer.Knows capacity s.buffer xs (s.sawEmpty || decide (s.present = 0))
    rw [hpresent]
    exact consumer

theorem or_left {flag other : Bool} (h : flag = true) : (flag || other) = true := by
  rw [h]
  rfl

/-- The consumer after a step of the producer that adds nothing. -/
theorem Sound.consumer_mono (h : Sound capacity size s xs) {rb : RingBuffer (List ω)}
    (hread : rb.read = s.buffer.read) {xs' : List (List ω)} (hxs : ∃ ys, xs' = xs ++ ys)
    (other : Bool) : s.consumer.Knows capacity rb xs' (s.sawEmpty || other) :=
  h.consumer.mono hread hxs or_left

/-- The producer after a step of the consumer. -/
theorem Sound.producer_mono (h : Sound capacity size s xs) {rb : RingBuffer (List ω)}
    (hwrite : rb.write = s.buffer.write) (hdata : rb.data = s.buffer.data) {count : Nat}
    (hcount : count ≤ xs.length) (other : Bool) :
    s.producer.Knows capacity size rb count (s.sawFull || other) :=
  h.producer.mono hwrite hdata hcount or_left

/-- One more word is in the slot. -/
theorem take_set_succ {old value : List ω} {stored : Nat} {word : ω}
    (hlength : old.length = value.length) (htake : old.take stored = value.take stored)
    (hword : value[stored]? = some word) :
    (old.set stored word).take (stored + 1) = value.take (stored + 1) := by
  have hlt : stored < value.length := (List.getElem?_eq_some_iff.1 hword).1
  rw [List.take_add_one, List.take_add_one, List.take_set_of_le (Nat.le_refl _), htake,
    List.getElem?_set_self (by omega), hword]

/-- The producer moves on and the buffer stays. -/
theorem Sound.moveProducer (h : Sound capacity size s xs) {p : Producer ω}
    (haccepted : s.published = s.accepted ++ p.pending)
    (hknows : p.Knows capacity size s.buffer xs.length
      (s.sawFull || decide (xs.length + 1 = capacity))) :
    ∃ xs', Sound capacity size (Spsc.observe capacity { s with producer := p }) xs' :=
  ⟨xs, .observe h.holds h.published_eq h.slot_length h.value_length haccepted h.returned_eq hknows
    (h.consumer_mono rfl ⟨[], (List.append_nil xs).symm⟩ _)⟩

/-- The consumer moves on and the buffer stays. -/
theorem Sound.moveConsumer (h : Sound capacity size s xs) {c : Consumer ω}
    (hreturned : s.released = s.returned ++ c.pending)
    (hknows : c.Knows capacity s.buffer xs (s.sawEmpty || decide (xs.length = 0))) :
    ∃ xs', Sound capacity size (Spsc.observe capacity { s with consumer := c }) xs' :=
  ⟨xs, .observe h.holds h.published_eq h.slot_length h.value_length h.accepted_eq hreturned
    (h.producer_mono rfl rfl (Nat.le_refl xs.length) _) hknows⟩

/-- `Produce`. -/
theorem Sound.stepProducer (h : Sound capacity size s xs)
    (hstep : Spsc.stepProducer capacity s = some s') :
    ∃ xs', Sound capacity size (Spsc.observe capacity s') xs' := by
  have hknows := h.producer
  have haccepted := h.accepted_eq
  have hsame : ∃ ys, xs = xs ++ ys := ⟨[], (List.append_nil xs).symm⟩
  unfold Spsc.stepProducer at hstep
  split at hstep
  · exact absurd hstep nofun
  · next value hp =>
    rw [hp] at hknows haccepted
    obtain rfl := Option.some.inj hstep
    exact h.moveProducer haccepted ⟨hknows, rfl⟩
  · next value nextWrite hp =>
    rw [hp] at hknows haccepted
    obtain ⟨hvalue, hnext⟩ := hknows
    -- what it loads now decides
    have hfull := h.holds.next_eq_read_iff
    rw [← hnext] at hfull
    split at hstep
    · next heq =>
      obtain rfl := Option.some.inj hstep
      refine h.moveProducer haccepted fun _ => ?_
      rw [decide_eq_true (hfull.1 heq)]
      exact Bool.or_true _
    · next hne =>
      obtain rfl := Option.some.inj hstep
      have hroom : xs.length + 1 < capacity :=
        Nat.lt_of_le_of_ne h.holds.length_lt fun heq => hne (hfull.2 heq)
      exact h.moveProducer haccepted ⟨hvalue, hnext, hroom⟩
  · next value nextWrite hp =>
    rw [hp] at hknows haccepted
    obtain ⟨hvalue, hnext, hroom⟩ := hknows
    obtain rfl := Option.some.inj hstep
    exact h.moveProducer haccepted ⟨hvalue, hnext, hroom, rfl, rfl⟩
  · next value nextWrite slot stored hp =>
    rw [hp] at hknows haccepted
    obtain ⟨hvalue, hnext, hroom, rfl, htake⟩ := hknows
    split at hstep
    · next word hword =>
      obtain rfl := Option.some.inj hstep
      have hold := h.slot_length s.buffer.write
      refine ⟨xs, .observe (h.holds.store _) h.published_eq (fun slot => ?_) h.value_length
        haccepted h.returned_eq ⟨hvalue, hnext, hroom, rfl, ?_⟩ (h.consumer_mono rfl hsame _)⟩
      · by_cases heq : slot = s.buffer.write
        · subst heq
          simp only [Function.update_self, List.length_set]
          exact hold
        · simp only [Function.update_of_ne heq]
          exact h.slot_length slot
      · simp only [Function.update_self]
        exact take_set_succ (hold.trans hvalue.symm) htake hword
    · next hword =>
      obtain rfl := Option.some.inj hstep
      -- all words are there
      have hdata : s.buffer.data s.buffer.write = value := by
        have hle : value.length ≤ stored := List.getElem?_eq_none_iff.1 hword
        rwa [List.take_of_length_le (by rw [h.slot_length]; omega),
          List.take_of_length_le hle] at htake
      have hpublish := h.holds.publish hroom hdata
      rw [← hnext] at hpublish
      refine ⟨xs ++ [value], .observe hpublish ?_ h.slot_length ?_ ?_ h.returned_eq nofun
        (h.consumer_mono rfl ⟨[value], rfl⟩ _)⟩
      · show s.published ++ [value] = s.released ++ (xs ++ [value])
        rw [h.published_eq, List.append_assoc]
      · intro other hother
        rcases List.mem_append.1 hother with hmem | hmem
        · exact h.value_length other hmem
        · rw [List.mem_singleton.1 hmem]
          exact hvalue
      · show s.published ++ [value] = s.accepted ++ [value]
        rw [haccepted]
        exact congrArg (· ++ [value]) (List.append_nil _)
  · next value success hp =>
    rw [hp] at hknows haccepted
    obtain rfl := Option.some.inj hstep
    refine ⟨xs, .observe h.holds h.published_eq h.slot_length h.value_length ?_ h.returned_eq
      trivial (h.consumer_mono rfl hsame _)⟩
    cases success with
    | false => exact haccepted
    | true => exact haccepted.trans (List.append_nil _).symm

/-- `Consume`. -/
theorem Sound.stepConsumer (h : Sound capacity size s xs)
    (hstep : Spsc.stepConsumer capacity size s = some s') :
    ∃ xs', Sound capacity size (Spsc.observe capacity s') xs' := by
  have hknows := h.consumer
  have hreturned := h.returned_eq
  unfold Spsc.stepConsumer at hstep
  split at hstep
  · exact absurd hstep nofun
  · next hc =>
    rw [hc] at hreturned
    obtain rfl := Option.some.inj hstep
    exact h.moveConsumer hreturned rfl
  · next read hc =>
    rw [hc] at hknows hreturned
    have hempty := h.holds.read_eq_write_iff
    rw [← show read = s.buffer.read from hknows] at hempty
    split at hstep
    · next heq =>
      obtain rfl := Option.some.inj hstep
      refine h.moveConsumer hreturned fun _ => ?_
      rw [hempty.1 heq]
      exact Bool.or_true _
    · next hne =>
      obtain rfl := Option.some.inj hstep
      exact h.moveConsumer hreturned fun hnil => hne (hempty.2 hnil)
  · next write hc =>
    rw [hc] at hknows hreturned
    obtain ⟨n, hn, hwrite, hzero⟩ := hknows
    have hlength := h.holds.length_lt
    have hsame := RingBuffer.add_mod_eq_self_iff h.holds.read_lt (show n < capacity by omega)
    rw [← hwrite, eq_comm] at hsame
    split at hstep
    · next heq =>
      obtain rfl := Option.some.inj hstep
      exact h.moveConsumer hreturned fun _ => or_left (hzero (hsame.1 heq))
    · next hne =>
      obtain rfl := Option.some.inj hstep
      refine h.moveConsumer hreturned fun hnil => hne (hsame.2 ?_)
      rw [hnil] at hn
      exact Nat.le_zero.1 hn
  · next hc =>
    rw [hc] at hknows hreturned
    obtain ⟨x, rest, rfl⟩ := List.exists_cons_of_ne_nil hknows
    obtain rfl := Option.some.inj hstep
    exact h.moveConsumer hreturned ⟨rfl, x, rest, rfl, rfl⟩
  · next slot words hc =>
    rw [hc] at hknows hreturned
    obtain ⟨rfl, x, rest, rfl, hwords⟩ := hknows
    have hx : x.length = size := h.value_length x (List.mem_cons_self ..)
    split at hstep
    · next hmore =>
      rw [h.holds.front] at hstep
      obtain ⟨word, hword, rfl⟩ := Option.map_eq_some_iff.1 hstep
      refine h.moveConsumer hreturned ⟨rfl, x, rest, rfl, ?_⟩
      rw [List.length_append, List.length_singleton, List.take_add_one, hword, ← hwords]
      rfl
    · next hdone =>
      obtain rfl := Option.some.inj hstep
      refine h.moveConsumer hreturned ⟨rfl, rest, ?_⟩
      rw [hwords, List.take_of_length_le (by omega)]
  · next words nextRead hc =>
    rw [hc] at hknows hreturned
    obtain ⟨rfl, rest, rfl⟩ := hknows
    obtain rfl := Option.some.inj hstep
    refine ⟨rest, .observe h.holds.release ?_ h.slot_length
      (fun value hmem => h.value_length value (List.mem_cons_of_mem _ hmem)) h.accepted_eq ?_
      (h.producer_mono rfl rfl (Nat.le_succ _) _) nofun⟩
    · show s.published = s.released ++ [words] ++ rest
      rw [h.published_eq, List.append_assoc]
      rfl
    · show s.released ++ [words] = s.returned ++ [words]
      rw [hreturned]
      exact congrArg (· ++ [words]) (List.append_nil _)
  · next result hc =>
    rw [hc] at hreturned
    obtain rfl := Option.some.inj hstep
    refine ⟨xs, .observe h.holds h.published_eq h.slot_length h.value_length h.accepted_eq ?_
      (h.producer_mono rfl rfl (Nat.le_refl _) _) trivial⟩
    show s.released = s.returned ++ result.toList ++ []
    rw [List.append_nil, hreturned]
    cases result <;> rfl

/-! ## Runs -/

def IsSound (capacity size : Nat) (s : State ω) : Prop := ∃ xs, Sound capacity size s xs

theorem IsSound.step (hs : IsSound capacity size s) {action : Action ω}
    (hstep : Spsc.step capacity size s action = some s') : IsSound capacity size s' := by
  obtain ⟨xs, h⟩ := hs
  have haccepted := h.accepted_eq
  have hreturned := h.returned_eq
  cases action with
  | produce value =>
    unfold Spsc.step at hstep
    dsimp only at hstep
    split at hstep
    · next hp =>
      rw [hp] at haccepted
      split at hstep
      · next hvalue =>
        obtain rfl := Option.some.inj hstep
        exact ⟨xs, .observe h.holds h.published_eq h.slot_length h.value_length haccepted
          h.returned_eq hvalue (h.consumer_mono rfl ⟨[], (List.append_nil xs).symm⟩ _)⟩
      · exact absurd hstep nofun
    · exact absurd hstep nofun
  | producer =>
    obtain ⟨s₁, hproduce, rfl⟩ := Option.map_eq_some_iff.1 hstep
    exact h.stepProducer hproduce
  | consume =>
    unfold Spsc.step at hstep
    dsimp only at hstep
    split at hstep
    · next hc =>
      rw [hc] at hreturned
      obtain rfl := Option.some.inj hstep
      exact ⟨xs, .observe h.holds h.published_eq h.slot_length h.value_length h.accepted_eq
        hreturned (h.producer_mono rfl rfl (Nat.le_refl _) _) trivial⟩
    · exact absurd hstep nofun
  | consumer =>
    obtain ⟨s₁, hconsume, rfl⟩ := Option.map_eq_some_iff.1 hstep
    exact h.stepConsumer hconsume
  | consumerWriteFirst =>
    unfold Spsc.step at hstep
    dsimp only at hstep
    split at hstep
    · next hc =>
      rw [hc] at hreturned
      obtain rfl := Option.some.inj hstep
      refine h.moveConsumer hreturned ⟨xs.length, Nat.le_refl _, h.holds.write_eq, fun hnil => ?_⟩
      rw [hnil]
      exact Bool.or_true _
    · exact absurd hstep nofun

/-- The buffer is a bounded FIFO. -/
structure BoundedFifo (capacity : Nat) (s : State ω) : Prop where
  read_lt : s.buffer.read < capacity
  write_lt : s.buffer.write < capacity
  /-- What was consumed are the first values that were produced, with the calls that have
  only their return ahead of them. -/
  fifo : s.returned ++ s.consumer.pending <+: s.accepted ++ s.producer.pending
  full : ∀ value, s.producer = .returning value false → s.sawFull = true
  empty : s.consumer = .returning none → s.sawEmpty = true
  /-- With no call in progress, the buffer has the values that were not consumed. -/
  quiet : s.producer = .idle → s.consumer = .idle →
    ∃ xs, s.accepted = s.returned ++ xs ∧ RingBuffer.Holds capacity s.buffer xs ∧
      RingBuffer.count capacity s.buffer = xs.length

theorem Sound.boundedFifo (h : Sound capacity size s xs) : BoundedFifo capacity s := by
  have hproduced := h.accepted_eq
  have hconsumed := h.returned_eq
  refine ⟨h.holds.read_lt, h.holds.write_lt, ?_, fun value hp => ?_, fun hc => ?_,
    fun hp hc => ⟨xs, ?_, h.holds, RingBuffer.count_eq h.holds⟩⟩
  · rw [← hproduced, ← hconsumed, h.published_eq]
    exact List.prefix_append ..
  · have hknows := h.producer
    rw [hp] at hknows
    exact hknows rfl
  · have hknows := h.consumer
    rw [hc] at hknows
    exact hknows rfl
  · rw [hp] at hproduced
    rw [hc] at hconsumed
    calc s.accepted = s.published := (hproduced.trans (List.append_nil _)).symm
      _ = s.released ++ xs := h.published_eq
      _ = s.returned ++ xs := by rw [hconsumed]; exact congrArg (· ++ xs) (List.append_nil _)

/-- Any interleaving of one producer and one consumer, for elements of any number of
words. -/
theorem ring_buffer_is_bounded_fifo (hcapacity : 2 ≤ capacity) {data : Nat → List ω}
    (hdata : ∀ slot, (data slot).length = size) {actions : List (Action ω)}
    (hrun : Transition.run (step capacity size) { buffer := { data := data } } actions = some s) :
    BoundedFifo capacity s := by
  have hstart : Sound capacity size ({ buffer := { data := data } } : State ω) [] :=
    ⟨RingBuffer.holds_empty (by omega) data, rfl, hdata, nofun, rfl, rfl, trivial, trivial⟩
  obtain ⟨xs, h⟩ : IsSound capacity size s :=
    Transition.invariant (fun _ _ _ h hstep => h.step hstep) ⟨_, hstart⟩ hrun
  exact h.boundedFifo

/-- The consumer looks while the value is half written, and again later. -/
def earlyLook : List (Action Nat) :=
  [.produce [7, 8], .producer, .producer, .producer, .producer,
    .consume, .consumer, .consumer, .consumer, .producer, .producer, .producer,
    .consume, .consumerWriteFirst, .consumer, .consumer, .consumer, .consumer, .consumer,
    .consumer, .consumer]

/-- One value of two words goes through a buffer with two slots. -/
theorem ring_buffer_is_bounded_fifo_two :
    ∃ s, Transition.run (step 2 2) { buffer := { data := fun _ => [0, 0] } } earlyLook = some s ∧
      s.returned = [[7, 8]] ∧ BoundedFifo 2 s := by
  obtain ⟨s, hrun, hreturned⟩ : ∃ s,
      Transition.run (step 2 2) { buffer := { data := fun _ => [0, 0] } } earlyLook = some s ∧
        s.returned = [[7, 8]] := ⟨_, rfl, rfl⟩
  have hdata : ∀ slot : Nat, ((fun _ => [0, 0] : Nat → List Nat) slot).length = 2 := fun _ => rfl
  exact ⟨s, hrun, hreturned, ring_buffer_is_bounded_fifo (by decide) hdata hrun⟩

end Spsc

end X64HK
