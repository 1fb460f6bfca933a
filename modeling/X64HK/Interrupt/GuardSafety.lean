import X64HK.Interrupt.Guard

/-!
# What the Guard guarantees

A prologue that has not decided to take the level, or that is about to return, is
brief: it has no part in the protocol, and what it interrupted still counts.
`level` is the activation that does.  A prologue that takes the level has interrupted
code outside of the Guard, which is what `Nested` says.

* `Sound`: what holds of a core, with `Sound.proceed` for its own steps.
* `Safe`: what holds of the machine, with `Safe.step`.
* `guard_protocol`: what follows in any run.
-/

namespace X64HK.Guard

open TicketLock (Phase InTurn)

/-! ## Activations -/

def Frame.brief : Frame → Bool
  | .relay _ | .relayRead _ _ | .relayProduce _ _ _ | .relayRestore _ | .iret => true
  | _ => false

/-- Interrupts are off. -/
def Frame.masked : Frame → Bool
  | .enterSet _ | .consume _ | .clear _ | .restore _ | .relayRead _ _ | .relayProduce _ _ _
  | .relayTake _ _ => true
  | _ => false

/-- The flag of the core is set. -/
def Frame.inside : Frame → Bool
  | .outside | .enterDisable _ | .enterSet _ | .restore _ | .relayTake _ _ => false
  | _ => true

/-- What the activation has to do with the lock. -/
def Frame.phase : Frame → Phase
  | .spinning ticket _ => .waiting ticket
  | .critical | .kickoff | .leave _ | .unlock _ | .start _ _ | .epilogue _ => .holding
  | _ => .idle

/-- There is nothing in the queue. -/
def Frame.drained : Frame → Bool
  | .outside | .enterDisable _ | .enterSet _ | .clear _ | .restore _ => true
  | _ => false

/-- The epilogue that is out of the queue and not started. -/
def Frame.inflight : Frame → List Epilogue
  | .fetched _ next | .locking (.start _ next) | .spinning _ (.start _ next) | .start _ next =>
    [next]
  | _ => []

/-- `Leave` knows the interrupt flag that it was entered with. -/
def Frame.Entered (interrupts : Bool) : Frame → Prop
  | .leave entry => entry = interrupts
  | .unlock call | .drain call | .consume call | .fetched call _ | .locking (.start call _)
  | .spinning _ (.start call _) | .start call _ | .epilogue call | .clear call | .restore call =>
    call.entry = call.was
  | _ => True

/-- A parked thread goes on here. -/
def Frame.resumes : Frame → Bool
  | .critical | .epilogue _ | .kickoff => true
  | _ => false

variable {f : Frame} {call : Call} {k : Core}

/-- Code outside of the Guard that can be interrupted. -/
theorem Frame.outside_facts (hinside : f.inside = false) (hmasked : f.masked = false) :
    f.phase = .idle ∧ f.inflight = [] ∧ f.drained = true ∧
      ∀ was epilogue, f ≠ .relayTake was epilogue := by
  cases f with
  | outside => exact ⟨rfl, rfl, rfl, nofun⟩
  | enterDisable was => exact ⟨rfl, rfl, rfl, nofun⟩
  | enterSet was => exact nomatch hmasked
  | restore call => exact nomatch hmasked
  | relayTake was epilogue => exact nomatch hmasked
  | _ => exact nomatch hinside

/-- Code inside that can be interrupted does not know what is in the queue. -/
theorem Frame.inside_facts (hinside : f.inside = true) (hmasked : f.masked = false) :
    f.drained = false ∧ ∀ was epilogue, f ≠ .relayTake was epilogue := by
  cases f with
  | outside => exact nomatch hinside
  | enterDisable was => exact nomatch hinside
  | enterSet was => exact nomatch hinside
  | restore call => exact nomatch hinside
  | relayTake was epilogue => exact nomatch hinside
  | clear call => exact nomatch hmasked
  | _ => exact ⟨rfl, nofun⟩

/-! ## Stacks -/

/-- The activation that takes part in the protocol. -/
def level : List Frame → Frame
  | [] => .outside
  | f :: rest => if f.brief then level rest else f

theorem level_brief (h : f.brief = true) (rest : List Frame) : level (f :: rest) = level rest :=
  if_pos h

theorem level_own (h : f.brief = false) (rest : List Frame) : level (f :: rest) = f :=
  if_neg (ne_true_of_eq_false h)

/-- What was interrupted could be, and what is below an activation that takes part is
outside of the Guard. -/
def Nested : List Frame → Prop
  | [] => True
  | f :: rest => Nested rest ∧ (∀ g ∈ rest.head?, g.masked = false) ∧
    (level rest).masked = false ∧ (f.brief = false → (level rest).inside = false)

/-- The calls of `Leave` in a stack.  An interrupted one goes on with interrupts
on. -/
def Entered (interrupts : Bool) : List Frame → Prop
  | [] => True
  | f :: rest => f.Entered interrupts ∧ Entered true rest

/-- A thread that may go on. -/
structure Parked (stack : List Frame) : Prop where
  head : ∃ f rest, stack = f :: rest ∧ f.resumes = true
  nested : Nested stack
  entered : Entered true stack

/-! ## A core -/

/-- The queue, when this activation takes part in the protocol. -/
def Queued (k : Core) (f : Frame) : Prop :=
  ∃ queued, RingBuffer.Holds Config.EPILOGUE_QUEUE_SIZE k.queue queued ∧
    k.relayed = k.started ++ f.inflight ++ queued ∧ (f.drained = true → queued = []) ∧
    ∀ was epilogue, f = .relayTake was epilogue → queued = [epilogue]

structure Sound (k : Core) : Prop where
  flag : k.inEpilogue = (level k.stack).inside
  nested : Nested k.stack
  masked : ∀ f rest, k.stack = f :: rest → f.masked = true → k.interrupts = false
  busy : ∀ was busy epilogue rest, k.stack = .relayProduce was busy epilogue :: rest →
    busy = k.inEpilogue
  queued : Queued k (level k.stack)
  entered : Entered k.interrupts k.stack
  left : ∀ pair ∈ k.left, pair.1 = pair.2

theorem Sound.initial : Sound {} where
  flag := rfl
  nested := ⟨trivial, nofun, rfl, fun _ => rfl⟩
  masked := by
    intro f rest heq
    rw [← (List.cons.inj heq).1]
    exact nofun
  busy := fun _ _ _ _ heq => nomatch (List.cons.inj heq).1
  queued := ⟨[], RingBuffer.holds_empty (by decide) _, rfl, fun _ => rfl, nofun⟩
  entered := ⟨trivial, trivial⟩
  left := nofun

section Step

variable {k' : Core} {f' : Frame} {rest : List Frame}

theorem Queued.next (h : Queued k f) (hqueue : k'.queue = k.queue)
    (hrelayed : k'.relayed = k.relayed) (hstarted : k'.started = k.started)
    (hinflight : f'.inflight = f.inflight) (hdrained : f'.drained = true → f.drained = true)
    (htake : ∀ was epilogue, f' ≠ .relayTake was epilogue) : Queued k' f' := by
  obtain ⟨queued, hholds, hall, hempty, -⟩ := h
  refine ⟨queued, hqueue ▸ hholds, ?_, fun hf' => hempty (hdrained hf'), fun was epilogue heq =>
    absurd heq (htake was epilogue)⟩
  rw [hrelayed, hstarted, hinflight]
  exact hall

/-- An activation that takes part does a step. -/
theorem Sound.replace (h : Sound k) (hstack : k.stack = f :: rest) (hf : f.brief = false)
    (hstack' : k'.stack = f' :: rest) (hf' : f'.brief = false)
    (hflag : k'.inEpilogue = f'.inside) (hmasked : f'.masked = true → k'.interrupts = false)
    (hqueued : Queued k' f') (hentered : f'.Entered k'.interrupts)
    (hleft : ∀ pair ∈ k'.left, pair.1 = pair.2) : Sound k' := by
  have hnested := h.nested
  have hall := h.entered
  rw [hstack] at hnested hall
  refine ⟨?_, ?_, fun g rest' heq => ?_, fun was busy epilogue rest' heq => ?_, ?_, ?_, hleft⟩
  · rw [hstack', level_own hf']
    exact hflag
  · rw [hstack']
    exact ⟨hnested.1, hnested.2.1, hnested.2.2.1, fun _ => hnested.2.2.2 hf⟩
  · rw [hstack'] at heq
    rw [← (List.cons.inj heq).1]
    exact hmasked
  · rw [hstack'] at heq
    rw [(List.cons.inj heq).1] at hf'
    exact nomatch hf'
  · rw [hstack', level_own hf']
    exact hqueued
  · rw [hstack']
    exact ⟨hentered, hall.2⟩

/-- A brief activation does a step and stays brief. -/
theorem Sound.replace_brief (h : Sound k) (hstack : k.stack = f :: rest) (hf : f.brief = true)
    (hstack' : k'.stack = f' :: rest) (hf' : f'.brief = true) (hflag : k'.inEpilogue = k.inEpilogue)
    (hmasked : f'.masked = true → k'.interrupts = false)
    (hbusy : ∀ was busy epilogue, f' = .relayProduce was busy epilogue → busy = k.inEpilogue)
    (hqueued : Queued k' (level rest)) (hentered : f'.Entered k'.interrupts)
    (hleft : k'.left = k.left) : Sound k' := by
  have hnested := h.nested
  have hall := h.entered
  have hinside := h.flag
  rw [hstack] at hnested hall hinside
  rw [level_brief hf] at hinside
  refine ⟨?_, ?_, fun g rest' heq => ?_, fun was busy epilogue rest' heq => ?_, ?_, ?_, ?_⟩
  · rw [hstack', level_brief hf', hflag]
    exact hinside
  · rw [hstack']
    exact ⟨hnested.1, hnested.2.1, hnested.2.2.1, fun hown => absurd (hf'.symm.trans hown) nofun⟩
  · rw [hstack'] at heq
    rw [← (List.cons.inj heq).1]
    exact hmasked
  · rw [hstack'] at heq
    rw [hflag]
    exact hbusy was busy epilogue (List.cons.inj heq).1
  · rw [hstack', level_brief hf']
    exact hqueued
  · rw [hstack']
    exact ⟨hentered, hall.2⟩
  · rw [hleft]
    exact h.left

theorem Sound.own (h : Sound k) (hstack : k.stack = f :: rest) (hf : f.brief = false) :
    k.inEpilogue = f.inside ∧ Queued k f := by
  have hflag := h.flag
  have hqueued := h.queued
  rw [hstack, level_own hf] at hflag hqueued
  exact ⟨hflag, hqueued⟩

theorem Sound.head_entered (h : Sound k) (hstack : k.stack = f :: rest) :
    f.Entered k.interrupts := by
  have hentered := h.entered
  rw [hstack] at hentered
  exact hentered.1

/-- The same for a step that leaves the queue alone. -/
theorem Sound.move (h : Sound k) (hstack : k.stack = f :: rest) (hf : f.brief = false)
    (hf' : f'.brief = false) {inEpilogue interrupts : Bool}
    (hflag : k.inEpilogue = f.inside → inEpilogue = f'.inside)
    (hmasked : f'.masked = true → interrupts = false) (hinflight : f'.inflight = f.inflight)
    (hdrained : f'.drained = true → f.drained = true)
    (htake : ∀ was epilogue, f' ≠ .relayTake was epilogue) (hentered : f'.Entered interrupts) :
    Sound { k with inEpilogue := inEpilogue, interrupts := interrupts, stack := f' :: rest } := by
  obtain ⟨hinside, hqueued⟩ := h.own hstack hf
  exact h.replace hstack hf rfl hf' (hflag hinside) hmasked
    (hqueued.next rfl rfl rfl hinflight hdrained htake) hentered h.left

/-- `Leave` looks for an epilogue, with interrupts off. -/
theorem Sound.consume (h : Sound k) (hstack : k.stack = .consume call :: rest) :
    Sound (k.consume call rest) ∧ (level (k.consume call rest).stack).phase = .idle := by
  obtain ⟨hflag, queued, hholds, hall, -, -⟩ := h.own hstack rfl
  have hentered := h.head_entered hstack
  unfold Core.consume
  cases queued with
  | nil =>
    rw [RingBuffer.consume_nil hholds]
    refine ⟨h.replace hstack rfl rfl rfl hflag (fun _ => h.masked _ _ hstack rfl) ?_ hentered
      h.left, rfl⟩
    exact ⟨[], hholds, hall, fun _ => rfl, nofun⟩
  | cons next queued =>
    obtain ⟨queue, hconsume, hholds'⟩ := RingBuffer.consume_spec hholds
    rw [hconsume]
    refine ⟨h.replace hstack rfl rfl rfl hflag nofun ?_ hentered h.left, rfl⟩
    refine ⟨queued, hholds', ?_, nofun, nofun⟩
    rw [hall]
    exact List.append_assoc k.started [] (next :: queued) |>.trans
      (List.append_assoc k.started [next] queued).symm

/-- `Relay` puts its epilogue into the queue.  If it found the flag clear, then the
queue was empty. -/
theorem Sound.produce (h : Sound k) {was busy : Bool} {epilogue : Epilogue}
    (hstack : k.stack = .relayProduce was busy epilogue :: rest)
    (hstep : k.produce was busy epilogue rest = some k') :
    Sound k' ∧ (level k'.stack).phase = (level rest).phase := by
  obtain ⟨queue, hproduce, rfl⟩ := Option.map_eq_some_iff.1 hstep
  have hbusy := h.busy _ _ _ _ hstack
  have hflag := h.flag
  have hnested := h.nested
  obtain ⟨queued, hholds, hall, hempty, -⟩ := h.queued
  rw [hstack] at hflag hall hempty hnested
  rw [level_brief rfl] at hflag hall hempty
  by_cases hroom : queued.length + 1 < Config.EPILOGUE_QUEUE_SIZE
  · obtain ⟨queue', hproduce', hholds'⟩ := RingBuffer.produce_spec (x := epilogue) hholds hroom
    obtain rfl := Option.some.inj (hproduce.symm.trans hproduce')
    have hadded : k.relayed ++ [epilogue] =
        k.started ++ (level rest).inflight ++ (queued ++ [epilogue]) := by
      rw [hall, List.append_assoc _ queued]
    cases busy with
    | true =>
      have hinside : (level rest).inside = true := hflag.symm.trans hbusy.symm
      obtain ⟨hdrained, htake⟩ := Frame.inside_facts hinside hnested.2.2.1
      refine ⟨h.replace_brief hstack rfl rfl rfl rfl nofun nofun ?_ trivial rfl, rfl⟩
      refine ⟨_, hholds', hadded, fun hempty => ?_, fun was' other heq => ?_⟩
      · exact absurd (hempty.symm.trans hdrained) nofun
      · exact absurd heq (htake was' other)
    | false =>
      have hinside : (level rest).inside = false := hflag.symm.trans hbusy.symm
      obtain ⟨hphase, hinflight, hdrained, -⟩ := Frame.outside_facts hinside hnested.2.2.1
      have htail := h.entered
      rw [hstack] at htail
      rw [hinflight] at hadded
      refine ⟨⟨hbusy.symm, ⟨hnested.1, hnested.2.1, hnested.2.2.1, fun _ => hinside⟩,
        fun _ _ _ _ => ?_, ?_, ?_, ⟨trivial, htail.2⟩, h.left⟩, hphase.symm⟩
      · exact h.masked _ _ hstack rfl
      · exact fun _ _ _ _ heq => nomatch (List.cons.inj heq).1
      · refine ⟨_, hholds', hadded, nofun, fun was' other heq => ?_⟩
        rw [hempty hdrained, (Frame.relayTake.inj heq).2]
        rfl
  · have hfull : queued.length + 1 = Config.EPILOGUE_QUEUE_SIZE := by
      have hlt := hholds.length_lt
      omega
    rw [RingBuffer.produce_full hholds hfull] at hproduce
    exact nomatch hproduce

/-- `Leave` returns with the interrupt flag that it was entered with: interrupts are
off, and it turns them on if they were on. -/
theorem Sound.restore (h : Sound k) (hstack : k.stack = .restore call :: rest) :
    Sound (k.restore call rest) ∧ (level (k.restore call rest).stack).phase = .idle := by
  obtain ⟨hflag, hqueued⟩ := h.own hstack rfl
  have hsame : call.entry = call.was := h.head_entered hstack
  have hleft : ∀ pair ∈ k.left ++ [(call.entry, restored k.interrupts call.was)],
      pair.1 = pair.2 := by
    intro pair hpair
    rcases List.mem_append.1 hpair with hold | hnew
    · exact h.left pair hold
    · rw [List.mem_singleton.1 hnew, h.masked _ _ hstack rfl]
      exact hsame
  unfold Core.restore
  by_cases hrest : rest = []
  · rw [if_pos hrest]
    exact ⟨h.replace hstack rfl rfl rfl hflag nofun
      (hqueued.next rfl rfl rfl rfl (fun _ => rfl) nofun) trivial hleft, rfl⟩
  · rw [if_neg hrest]
    have hnested := h.nested
    have hentered := h.entered
    rw [hstack] at hnested hentered
    obtain ⟨hbelow, hhead, hmasked, hinside⟩ := hnested
    obtain ⟨hphase, hinflight, -, htake⟩ := Frame.outside_facts (hinside rfl) hmasked
    refine ⟨⟨hflag.trans (hinside rfl).symm, ⟨hbelow, hhead, hmasked, nofun⟩, ?_, ?_, ?_,
      ⟨trivial, hentered.2⟩, hleft⟩, hphase⟩
    · intro f rest' heq
      rw [← (List.cons.inj heq).1]
      exact nofun
    · exact fun _ _ _ _ heq => nomatch (List.cons.inj heq).1
    · exact hqueued.next rfl rfl rfl hinflight (fun _ => rfl) htake

/-- A prologue returns, and what it interrupted goes on with interrupts on. -/
theorem Sound.iret (h : Sound k) (hstack : k.stack = .iret :: rest) :
    Sound { k with interrupts := true, stack := rest } := by
  have hflag := h.flag
  have hnested := h.nested
  have hqueued := h.queued
  have hentered := h.entered
  rw [hstack] at hflag hnested hqueued hentered
  have hunmasked : ∀ f rest', rest = f :: rest' → f.masked = false := by
    rintro f rest' rfl
    exact hnested.2.1 f rfl
  refine ⟨hflag, hnested.1, fun f rest' heq hmasked => ?_, fun was busy epilogue rest' heq => ?_,
    hqueued, hentered.2, h.left⟩
  · exact absurd (hmasked.symm.trans (hunmasked f rest' heq)) nofun
  · exact nomatch hunmasked _ _ heq

/-- The epilogue that was taken out of the queue is started. -/
theorem Queued.start {call' : Call} {next : Epilogue} {stack : List Frame}
    (h : Queued k (.start call next)) :
    Queued { k with started := k.started ++ [next], stack := stack } (.epilogue call') := by
  obtain ⟨queued, hholds, hall, -, -⟩ := h
  refine ⟨queued, hholds, ?_, nofun, nofun⟩
  dsimp only [Frame.inflight] at hall ⊢
  rw [List.append_nil]
  exact hall

/-- A core does a step of its own. -/
theorem Sound.proceed (h : Sound k) (hstep : k.proceed = some k') :
    Sound k' ∧ (level k'.stack).phase = (level k.stack).phase := by
  unfold Core.proceed at hstep
  cases hstack : k.stack with
  | nil =>
    rw [hstack] at hstep
    exact nomatch hstep
  | cons f rest =>
    rw [hstack] at hstep
    cases f with
    | outside =>
      obtain rfl := Option.some.inj hstep
      exact ⟨h.move hstack rfl rfl id nofun rfl (fun _ => rfl) nofun trivial, rfl⟩
    | enterDisable was =>
      obtain rfl := Option.some.inj hstep
      exact ⟨h.move hstack rfl rfl id (fun _ => rfl) rfl (fun _ => rfl) nofun trivial, rfl⟩
    | enterSet was =>
      obtain rfl := Option.some.inj hstep
      exact ⟨h.move hstack rfl rfl (fun _ => rfl) nofun rfl nofun nofun trivial, rfl⟩
    | enterRestore was =>
      obtain rfl := Option.some.inj hstep
      exact ⟨h.move hstack rfl rfl id nofun rfl nofun nofun trivial, rfl⟩
    | locking goal => exact nomatch hstep
    | spinning ticket goal => exact nomatch hstep
    | unlock call => exact nomatch hstep
    | critical =>
      obtain rfl := Option.some.inj hstep
      exact ⟨h.move hstack rfl rfl id nofun rfl nofun nofun rfl, rfl⟩
    | kickoff =>
      obtain rfl := Option.some.inj hstep
      exact ⟨h.move hstack rfl rfl id nofun rfl nofun nofun rfl, rfl⟩
    | leave entry =>
      have hentered := h.head_entered hstack
      obtain rfl := Option.some.inj hstep
      exact ⟨h.move hstack rfl rfl id nofun rfl nofun nofun hentered, rfl⟩
    | drain call =>
      have hentered := h.head_entered hstack
      obtain rfl := Option.some.inj hstep
      exact ⟨h.move hstack rfl rfl id (fun _ => rfl) rfl nofun nofun hentered, rfl⟩
    | consume call =>
      obtain rfl := Option.some.inj hstep
      exact h.consume hstack
    | fetched call next =>
      have hentered := h.head_entered hstack
      obtain rfl := Option.some.inj hstep
      exact ⟨h.move hstack rfl rfl id nofun rfl nofun nofun hentered, rfl⟩
    | start call next =>
      have hentered := h.head_entered hstack
      obtain ⟨hflag, hqueued⟩ := h.own hstack rfl
      obtain rfl := Option.some.inj hstep
      exact ⟨h.replace hstack rfl rfl rfl hflag nofun hqueued.start hentered h.left, rfl⟩
    | epilogue call =>
      have hentered := h.head_entered hstack
      obtain rfl := Option.some.inj hstep
      exact ⟨h.move hstack rfl rfl id nofun rfl nofun nofun hentered, rfl⟩
    | clear call =>
      have hentered := h.head_entered hstack
      have hmasked := h.masked _ _ hstack rfl
      obtain rfl := Option.some.inj hstep
      exact ⟨h.move hstack rfl rfl (fun _ => rfl) (fun _ => hmasked) rfl (fun _ => rfl) nofun
        hentered, rfl⟩
    | restore call =>
      obtain rfl := Option.some.inj hstep
      exact h.restore hstack
    | relay epilogue =>
      have hqueued := h.queued
      rw [hstack] at hqueued
      obtain rfl := Option.some.inj hstep
      exact ⟨h.replace_brief hstack rfl rfl rfl rfl (fun _ => rfl) nofun hqueued trivial rfl, rfl⟩
    | relayRead was epilogue =>
      have hqueued := h.queued
      rw [hstack] at hqueued
      obtain rfl := Option.some.inj hstep
      refine ⟨h.replace_brief hstack rfl rfl rfl rfl (fun _ => h.masked _ _ hstack rfl) ?_ hqueued
        trivial rfl, rfl⟩
      exact fun _ _ _ heq => (Frame.relayProduce.inj heq).2.1.symm
    | relayProduce was busy epilogue =>
      obtain ⟨hsound, hphase⟩ := h.produce hstack hstep
      exact ⟨hsound, hphase⟩
    | relayRestore was =>
      have hqueued := h.queued
      rw [hstack] at hqueued
      obtain rfl := Option.some.inj hstep
      exact ⟨h.replace_brief hstack rfl rfl rfl rfl nofun nofun hqueued trivial rfl, rfl⟩
    | relayTake was epilogue =>
      obtain rfl := Option.some.inj hstep
      exact ⟨h.move hstack rfl rfl (fun _ => rfl) nofun rfl nofun nofun trivial, rfl⟩
    | relayGo was =>
      obtain rfl := Option.some.inj hstep
      exact ⟨h.move hstack rfl rfl id nofun rfl nofun nofun trivial, rfl⟩
    | iret =>
      obtain rfl := Option.some.inj hstep
      exact ⟨h.iret hstack, rfl⟩

/-- A core takes an interrupt.  Interrupts are on, so that is possible wherever the
core is. -/
theorem Sound.interrupt (h : Sound k) (hon : k.interrupts = true) (epilogue : Epilogue) :
    Sound { k with interrupts := false, stack := .relay epilogue :: k.stack } := by
  have hunmasked : ∀ f ∈ k.stack.head?, f.masked = false := by
    intro f hf
    obtain ⟨rest, hstack⟩ := List.head?_eq_some_iff.1 hf
    rw [Bool.eq_false_iff]
    intro hmasked
    exact absurd (hon.symm.trans (h.masked f rest hstack hmasked)) nofun
  have hlevel : (level k.stack).masked = false := by
    have hnested := h.nested
    cases hstack : k.stack with
    | nil => rfl
    | cons f rest =>
      rw [hstack] at hnested hunmasked
      cases hf : f.brief with
      | true =>
        rw [level_brief hf]
        exact hnested.2.2.1
      | false =>
        rw [level_own hf]
        exact hunmasked f rfl
  have hentered := h.entered
  rw [hon] at hentered
  refine ⟨h.flag, ⟨h.nested, hunmasked, hlevel, nofun⟩, ?_, ?_, h.queued, ⟨trivial, hentered⟩,
    h.left⟩
  · intro f rest heq
    rw [← (List.cons.inj heq).1]
    exact nofun
  · exact fun _ _ _ _ heq => nomatch (List.cons.inj heq).1

theorem Frame.resumes_of_switches (h : f.switches = true) : f.resumes = true := by
  cases f with
  | critical => rfl
  | epilogue call => rfl
  | _ => exact nomatch h

/-- What is the same for all places where a thread goes on. -/
theorem Frame.resumes_facts (h : f.resumes = true) :
    f.brief = false ∧ f.masked = false ∧ f.inside = true ∧ f.phase = .holding ∧
      f.drained = false ∧ f.inflight = [] ∧ (∀ was epilogue, f ≠ .relayTake was epilogue) ∧
      ∀ b b', f.Entered b → f.Entered b' := by
  cases f with
  | critical => exact ⟨rfl, rfl, rfl, rfl, rfl, rfl, nofun, fun _ _ _ => trivial⟩
  | kickoff => exact ⟨rfl, rfl, rfl, rfl, rfl, rfl, nofun, fun _ _ _ => trivial⟩
  | epilogue call => exact ⟨rfl, rfl, rfl, rfl, rfl, rfl, nofun, fun _ _ hsame => hsame⟩
  | _ => exact nomatch h

/-- The thread of a core can be parked. -/
theorem Sound.parked (h : Sound k) (hswitches : k.stack.head?.any Frame.switches = true) :
    Parked k.stack ∧ (level k.stack).phase = .holding := by
  obtain ⟨f, hf, hfswitches⟩ := (Option.any_eq_true _ _).1 hswitches
  obtain ⟨rest, hstack⟩ := List.head?_eq_some_iff.1 hf
  have hresumes := Frame.resumes_of_switches hfswitches
  obtain ⟨hbrief, -, -, hphase, -, -, -, hany⟩ := Frame.resumes_facts hresumes
  have hentered := h.entered
  rw [hstack] at hentered
  refine ⟨⟨⟨f, rest, hstack, hresumes⟩, h.nested, ?_⟩, ?_⟩
  · rw [hstack]
    exact ⟨hany _ _ hentered.1, hentered.2⟩
  · rw [hstack, level_own hbrief]
    exact hphase

/-- The core goes on with a parked thread. -/
theorem Sound.resume (h : Sound k) (hswitches : k.stack.head?.any Frame.switches = true)
    {other : List Frame} (hother : Parked other) :
    Sound { k with stack := other } ∧ (level other).phase = .holding := by
  obtain ⟨f, hf, hfswitches⟩ := (Option.any_eq_true _ _).1 hswitches
  obtain ⟨rest, hstack⟩ := List.head?_eq_some_iff.1 hf
  obtain ⟨hbrief, -, hinside, -, -, hinflight, -⟩ :=
    Frame.resumes_facts (Frame.resumes_of_switches hfswitches)
  obtain ⟨hflag, hqueued⟩ := h.own hstack hbrief
  obtain ⟨⟨g, below, rfl, hresumes⟩, hnested, hentered⟩ := hother
  obtain ⟨hgbrief, hgmasked, hginside, hgphase, hgdrained, hginflight, hgtake, hany⟩ :=
    Frame.resumes_facts hresumes
  have hlevel : level (g :: below) = g := level_own hgbrief below
  refine ⟨⟨?_, hnested, ?_, ?_, ?_, ⟨hany _ _ hentered.1, hentered.2⟩, h.left⟩, ?_⟩
  · dsimp only
    rw [hlevel, hflag, hinside, hginside]
  · intro g' below' heq hmasked
    rw [← (List.cons.inj heq).1, hgmasked] at hmasked
    exact nomatch hmasked
  · intro was busy epilogue below' heq
    rw [(List.cons.inj heq).1] at hgbrief
    exact nomatch hgbrief
  · dsimp only
    rw [hlevel]
    refine hqueued.next rfl rfl rfl (hginflight.trans hinflight.symm) (fun hdrained => ?_) hgtake
    exact absurd (hdrained.symm.trans hgdrained) nofun
  · rw [hlevel]
    exact hgphase

theorem Sound.setInterrupts (h : Sound k) (hfree : k.stack.head?.any Frame.free = true)
    (on : Bool) : Sound { k with interrupts := on } := by
  obtain ⟨f, hf, hffree⟩ := (Option.any_eq_true _ _).1 hfree
  obtain ⟨rest, hstack⟩ := List.head?_eq_some_iff.1 hf
  have hentered := h.entered
  rw [hstack] at hentered
  have hfacts : f.masked = false ∧ f.Entered on := by
    cases f with
    | outside => exact ⟨rfl, trivial⟩
    | critical => exact ⟨rfl, trivial⟩
    | epilogue call => exact ⟨rfl, hentered.1⟩
    | _ => exact nomatch hffree
  refine ⟨h.flag, h.nested, fun g rest' heq hmasked => ?_, h.busy, h.queued, ?_, h.left⟩
  · obtain ⟨rfl, -⟩ := List.cons.inj (hstack.symm.trans heq)
    exact absurd (hmasked.symm.trans hfacts.1) nofun
  · dsimp only
    rw [hstack]
    exact ⟨hfacts.2, hentered.2⟩

end Step

/-! ## The machine -/

/-- What a core has to do with the lock. -/
def Machine.phase (s : Machine) (c : CoreId) : Phase := (level (s.cores c).stack).phase

structure Safe (s : Machine) : Prop where
  cores : ∀ c, Sound (s.cores c)
  parked : ∀ stack ∈ s.parked, Parked stack
  line : ∃ ticket queue, InTurn s.nowServing s.nextTicket s.phase ticket queue

theorem phase_put (s : Machine) (c : CoreId) (k : Core) :
    (s.put c k).phase = Function.update s.phase c (level k.stack).phase := by
  funext d
  unfold Machine.phase Machine.put
  dsimp only
  by_cases heq : d = c
  · subst heq
    rw [Function.update_self, Function.update_self]
  · rw [Function.update_of_ne heq, Function.update_of_ne heq]

theorem cores_put {s : Machine} (h : ∀ c, Sound (s.cores c)) {c : CoreId} (hk : Sound k) :
    ∀ d, Sound ((s.put c k).cores d) := by
  intro d
  unfold Machine.put
  by_cases heq : d = c
  · subst heq
    dsimp only
    rw [Function.update_self]
    exact hk
  · dsimp only
    rw [Function.update_of_ne heq]
    exact h d

/-- A step that has nothing to do with the lock. -/
theorem Safe.put {s : Machine} (h : Safe s) {c : CoreId} (hk : Sound k)
    (hphase : (level k.stack).phase = s.phase c) : Safe (s.put c k) := by
  refine ⟨cores_put h.cores hk, h.parked, ?_⟩
  rw [phase_put, hphase, Function.update_eq_self]
  exact h.line

section Lock

variable {s : Machine} {c : CoreId} {goal : Goal} {rest : List Frame}

theorem phase_of_stack (hstack : (s.cores c).stack = f :: rest) (hf : f.brief = false) :
    s.phase c = f.phase := by
  rw [Machine.phase, hstack, level_own hf]

/-- `Lock` draws a ticket. -/
theorem Safe.draw (h : Safe s) (hstack : (s.cores c).stack = .locking goal :: rest) :
    Safe ({ s with nextTicket := s.nextTicket + 1 }.put c
      { s.cores c with stack := .spinning s.nextTicket goal :: rest }) := by
  obtain ⟨ticket, queue, hline⟩ := h.line
  have hentered := (h.cores c).head_entered hstack
  have hsound : Sound { s.cores c with stack := .spinning s.nextTicket goal :: rest } := by
    cases goal with
    | critical => exact (h.cores c).move hstack rfl rfl id nofun rfl nofun nofun hentered
    | start call next => exact (h.cores c).move hstack rfl rfl id nofun rfl nofun nofun hentered
    | leave => exact (h.cores c).move hstack rfl rfl id nofun rfl nofun nofun hentered
  refine ⟨cores_put h.cores hsound, h.parked, Function.update ticket c s.nextTicket, queue ++ [c],
    ?_⟩
  rw [phase_put]
  exact hline.draw (phase_of_stack hstack rfl)

/-- `Lock` returns. -/
theorem Safe.grant (h : Safe s) (hstack : (s.cores c).stack = .spinning s.nowServing goal :: rest) :
    Safe (s.put c { s.cores c with stack := goal.frame (s.cores c).interrupts :: rest }) := by
  obtain ⟨ticket, queue, hline⟩ := h.line
  have hentered := (h.cores c).head_entered hstack
  have hsound : Sound { s.cores c with stack := goal.frame (s.cores c).interrupts :: rest } ∧
      (level (goal.frame (s.cores c).interrupts :: rest)).phase = .holding := by
    cases goal with
    | critical => exact ⟨(h.cores c).move hstack rfl rfl id nofun rfl nofun nofun trivial, rfl⟩
    | start call next =>
      exact ⟨(h.cores c).move hstack rfl rfl id nofun rfl nofun nofun hentered, rfl⟩
    | leave => exact ⟨(h.cores c).move hstack rfl rfl id nofun rfl nofun nofun rfl, rfl⟩
  have hlength := TicketQueue.length_le_of_nodup hline.lined.nodup
  obtain ⟨others, rfl⟩ := hline.first hlength (phase_of_stack hstack rfl)
  refine ⟨cores_put h.cores hsound.1, h.parked, ticket, c :: others, ?_⟩
  rw [phase_put, hsound.2]
  exact hline.grant

/-- `Unlock` lets the next one in. -/
theorem Safe.release (h : Safe s) (hstack : (s.cores c).stack = .unlock call :: rest) :
    Safe ({ s with nowServing := s.nowServing + 1 }.put c
      { s.cores c with stack := .drain call :: rest }) := by
  obtain ⟨ticket, queue, hline⟩ := h.line
  have hentered := (h.cores c).head_entered hstack
  have hsound : Sound { s.cores c with stack := .drain call :: rest } :=
    (h.cores c).move hstack rfl rfl id nofun rfl nofun nofun hentered
  obtain ⟨others, rfl⟩ := List.head?_eq_some_iff.1 (hline.holding c (phase_of_stack hstack rfl))
  refine ⟨cores_put h.cores hsound, h.parked, ticket, others, ?_⟩
  rw [phase_put]
  exact hline.release

end Lock

theorem Safe.step {s s' : Machine} {action : Action} (h : Safe s)
    (hstep : step s action = some s') : Safe s' := by
  cases action with
  | proceed c =>
    unfold Guard.step at hstep
    dsimp only at hstep
    split at hstep
    · next goal rest hstack =>
      obtain rfl := Option.some.inj hstep
      exact h.draw hstack
    · next ticket goal rest hstack =>
      split at hstep
      · next hserved =>
        obtain rfl := hserved
        obtain rfl := Option.some.inj hstep
        exact h.grant hstack
      · exact Option.some.inj hstep ▸ h
    · next call rest hstack =>
      obtain rfl := Option.some.inj hstep
      exact h.release hstack
    · obtain ⟨k, hk, rfl⟩ := Option.map_eq_some_iff.1 hstep
      obtain ⟨hsound, hphase⟩ := (h.cores c).proceed hk
      exact h.put hsound hphase
  | interrupt c epilogue =>
    obtain ⟨hon, hs⟩ := Option.ite_none_right_eq_some.1 hstep
    obtain rfl := Option.some.inj hs
    exact h.put ((h.cores c).interrupt hon epilogue) rfl
  | switch c i =>
    obtain ⟨hswitches, hs⟩ := Option.ite_none_right_eq_some.1 hstep
    obtain ⟨other, hother, rfl⟩ := Option.map_eq_some_iff.1 hs
    obtain ⟨hparked, hphase⟩ := (h.cores c).parked hswitches
    obtain ⟨hsound, hnew⟩ :=
      (h.cores c).resume hswitches (h.parked other (List.mem_of_getElem? hother))
    have hput := h.put hsound (hnew.trans hphase.symm)
    refine ⟨hput.cores, fun stack hstack => ?_, hput.line⟩
    rcases List.mem_or_eq_of_mem_set hstack with hold | rfl
    · exact h.parked stack hold
    · exact hparked
  | exit c i =>
    obtain ⟨hswitches, hs⟩ := Option.ite_none_right_eq_some.1 hstep
    obtain ⟨other, hother, rfl⟩ := Option.map_eq_some_iff.1 hs
    obtain ⟨-, hphase⟩ := (h.cores c).parked hswitches
    obtain ⟨hsound, hnew⟩ :=
      (h.cores c).resume hswitches (h.parked other (List.mem_of_getElem? hother))
    have hput := h.put hsound (hnew.trans hphase.symm)
    exact ⟨hput.cores, fun stack hstack => h.parked stack (List.mem_of_mem_eraseIdx hstack),
      hput.line⟩
  | spawn =>
    obtain rfl := Option.some.inj hstep
    refine ⟨h.cores, fun stack hstack => ?_, h.line⟩
    rcases List.mem_append.1 hstack with hold | hnew
    · exact h.parked stack hold
    · rw [List.mem_singleton.1 hnew]
      exact ⟨⟨.kickoff, [], rfl, rfl⟩, ⟨trivial, nofun, rfl, fun _ => rfl⟩, trivial, trivial⟩
  | setInterrupts c on =>
    obtain ⟨hfree, hs⟩ := Option.ite_none_right_eq_some.1 hstep
    obtain rfl := Option.some.inj hs
    exact h.put ((h.cores c).setInterrupts hfree on) rfl

theorem Safe.start : Safe {} where
  cores := fun _ => Sound.initial
  parked := nofun
  line := ⟨fun _ => 0, [], TicketQueue.lined_nil _ _, fun _ => iff_of_false nofun (· rfl), nofun,
    nofun⟩

/-! ## What follows -/

/-- A core is between `Lock` and `Unlock`. -/
def Machine.Holds (s : Machine) (c : CoreId) : Prop := s.phase c = .holding

/-- What a core may rely on. -/
structure Protocol (k : Core) : Prop where
  /-- While the flag is clear the queue is empty, but for a moment in `Relay`, with
  interrupts off, when it holds the epilogue that the core is about to run. -/
  drained : k.inEpilogue = false →
    RingBuffer.Holds Config.EPILOGUE_QUEUE_SIZE k.queue [] ∨
    ∃ was epilogue rest, k.stack = .relayTake was epilogue :: rest ∧ k.interrupts = false ∧
      RingBuffer.Holds Config.EPILOGUE_QUEUE_SIZE k.queue [epilogue]
  /-- The epilogues are started in the order in which they were relayed.  The others are
  in the queue, but for one that is about to be started. -/
  ordered : ∃ queued, RingBuffer.Holds Config.EPILOGUE_QUEUE_SIZE k.queue queued ∧
    k.relayed = k.started ++ (level k.stack).inflight ++ queued
  complete : k.inEpilogue = false →
    (∀ was epilogue rest, k.stack ≠ .relayTake was epilogue :: rest) → k.started = k.relayed
  /-- `Leave` returns with the interrupt flag that it was entered with. -/
  left : ∀ pair ∈ k.left, pair.1 = pair.2

/-- The flag is clear outside of the Guard, and between the two halves of
`Relay`. -/
theorem Frame.inside_eq_false (h : f.inside = false) :
    f.inflight = [] ∧ (f.drained = true ∨ ∃ was epilogue, f = .relayTake was epilogue) := by
  cases f with
  | outside => exact ⟨rfl, .inl rfl⟩
  | enterDisable was => exact ⟨rfl, .inl rfl⟩
  | enterSet was => exact ⟨rfl, .inl rfl⟩
  | restore call => exact ⟨rfl, .inl rfl⟩
  | relayTake was epilogue => exact ⟨rfl, .inr ⟨was, epilogue, rfl⟩⟩
  | _ => exact nomatch h

/-- Nothing interrupts `Relay` there. -/
theorem Sound.relayTake_top (h : Sound k) {was : Bool} {epilogue : Epilogue}
    (hlevel : level k.stack = .relayTake was epilogue) :
    ∃ rest, k.stack = .relayTake was epilogue :: rest := by
  have hnested := h.nested
  cases hstack : k.stack with
  | nil =>
    rw [hstack] at hlevel
    exact nomatch hlevel
  | cons f rest =>
    rw [hstack] at hlevel hnested
    cases hf : f.brief with
    | true =>
      rw [level_brief hf] at hlevel
      have hmasked := hnested.2.2.1
      rw [hlevel] at hmasked
      exact nomatch hmasked
    | false =>
      rw [level_own hf] at hlevel
      exact ⟨rest, by rw [hlevel]⟩

theorem Sound.protocol (h : Sound k) : Protocol k := by
  obtain ⟨queued, hholds, hall, hempty, htake⟩ := h.queued
  have hclear : k.inEpilogue = false → (level k.stack).inflight = [] ∧
      ((level k.stack).drained = true ∨ ∃ was epilogue, level k.stack = .relayTake was epilogue) :=
    fun hflag => Frame.inside_eq_false (h.flag.symm.trans hflag)
  refine ⟨fun hflag => ?_, ⟨queued, hholds, hall⟩, fun hflag hnot => ?_, h.left⟩
  · rcases (hclear hflag).2 with hdrained | ⟨was, epilogue, hlevel⟩
    · exact .inl (hempty hdrained ▸ hholds)
    · obtain ⟨rest, hstack⟩ := h.relayTake_top hlevel
      refine .inr ⟨was, epilogue, rest, hstack, h.masked _ _ hstack rfl, ?_⟩
      exact htake was epilogue hlevel ▸ hholds
  · obtain ⟨hinflight, hdrained | ⟨was, epilogue, hlevel⟩⟩ := hclear hflag
    · rw [hall, hinflight, hempty hdrained, List.append_nil, List.append_nil]
    · obtain ⟨rest, hstack⟩ := h.relayTake_top hlevel
      exact absurd hstack (hnot was epilogue rest)

/-- For any number of cores and threads, and in any interleaving: one core at most
has the lock, and every core keeps to the protocol. -/
theorem guard_protocol {actions : List Action} {s : Machine}
    (hrun : Transition.run step {} actions = some s) :
    (∀ c d, s.Holds c → s.Holds d → c = d) ∧ ∀ c, Protocol (s.cores c) := by
  have h : Safe s := Transition.invariant (fun _ _ _ => Safe.step) Safe.start hrun
  obtain ⟨ticket, queue, hline⟩ := h.line
  exact ⟨fun c d => hline.exclusive, fun c => (h.cores c).protocol⟩

/-- An interrupt finds the level free, its epilogue runs, and the thread goes on. -/
def relayedOnce : List Action :=
  [.setInterrupts 0 true, .interrupt 0 7] ++ List.replicate 22 (.proceed 0)

theorem guard_protocol_relayed : ∃ s,
    Transition.run step {} relayedOnce = some s ∧
    ((s.cores 0).stack = [.outside] ∧ (s.cores 0).started = [7] ∧
      (s.cores 0).left = [(false, false)] ∧ (s.cores 0).interrupts = true) ∧
    Protocol (s.cores 0) := by
  have hany : (Transition.run step {} relayedOnce).any (fun s =>
      decide ((s.cores 0).stack = [.outside] ∧ (s.cores 0).started = [7] ∧
        (s.cores 0).left = [(false, false)] ∧ (s.cores 0).interrupts = true)) = true := by
    decide +kernel
  obtain ⟨s, hrun, hs⟩ := (Option.any_eq_true _ _).1 hany
  exact ⟨s, hrun, of_decide_eq_true hs, (guard_protocol hrun).2 0⟩

/-- The flag is clear, and the epilogue is in the queue. -/
theorem relay_window : ∃ s,
    Transition.run step {} [.setInterrupts 0 true, .interrupt 0 7, .proceed 0, .proceed 0,
      .proceed 0] = some s ∧
    (s.cores 0).inEpilogue = false ∧
    RingBuffer.count Config.EPILOGUE_QUEUE_SIZE (s.cores 0).queue = 1 := by
  have hany : (Transition.run step {} [.setInterrupts 0 true, .interrupt 0 7, .proceed 0,
      .proceed 0, .proceed 0]).any (fun s => decide ((s.cores 0).inEpilogue = false ∧
        RingBuffer.count Config.EPILOGUE_QUEUE_SIZE (s.cores 0).queue = 1)) = true := by
    decide +kernel
  obtain ⟨s, hrun, hs⟩ := (Option.any_eq_true _ _).1 hany
  exact ⟨s, hrun, of_decide_eq_true hs⟩

end X64HK.Guard
