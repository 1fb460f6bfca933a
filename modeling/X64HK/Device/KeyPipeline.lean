import X64HK.Device.KeyDecoder
import X64HK.Lib.RingBuffer
import X64HK.Lib.Transition
import X64HK.Sync.HandOff

/-!
# From the keyboard to `GetKey`

A model of the way of a keystroke: `Epilogues::Keyboard` in
`Kernel/Interrupt/Epilogue.cpp`, `Fetch` in `Kernel/Device/Ps2Controller.cpp` and
`GetKey` in `Kernel/Arch/Syscall.cpp`.  The prologue of the keyboard puts bytes into
a queue, and it may do so at any time.  The epilogue decodes them and puts the keys
into a buffer, with a `V` for each of them.  `GetKey` does a `P` and takes a key.

The epilogue and `GetKey` run under the Guard, and so does every operation of the
scheduler, so one of them is inside at most.  `Inside` says who that is and where
it stands.  A thread that has to wait in `P` leaves, and the thread that its core
goes on with is inside then.  If that one comes out of its own `P`, it takes its key
before it leaves.

No thread in `GetKey` is killed, and Ctrl+Alt+Del, which reboots, is not pressed.

* `Stream`: the bytes and the keys, from the queue to the callers.
* `Tokens`: the semaphore counts the keys that nobody was handed.
* `keyboard_pipeline`: both hold after any number of steps.
-/

namespace X64HK

/-- The keys that the decoder makes of bytes. -/
def KeyDecoder.strokes (d : KeyDecoder) : List (BitVec 8) → List Key
  | [] => []
  | byte :: bytes => (d.decode byte).1 :: strokes (d.decode byte).2 bytes

theorem KeyDecoder.strokes_concat (d : KeyDecoder) (bytes : List (BitVec 8)) (byte : BitVec 8) :
    d.strokes (bytes ++ [byte]) = d.strokes bytes ++ [((d.feed bytes).decode byte).1] := by
  induction bytes generalizing d with
  | nil => rfl
  | cons first bytes ih =>
    rw [List.cons_append, strokes, strokes, ih, List.cons_append]
    rfl

theorem KeyDecoder.feed_concat (d : KeyDecoder) (bytes : List (BitVec 8)) (byte : BitVec 8) :
    d.feed (bytes ++ [byte]) = ((d.feed bytes).decode byte).2 :=
  List.foldl_append ..

namespace KeyPipeline

/-- The size of `s_RawBytes`. -/
def RAW_SIZE : Nat := 64

/-- `Config::KEY_BUFFER_SIZE`. -/
def KEY_BUFFER_SIZE : Nat := 32

/-- `Reply::ACKNOWLEDGE`. -/
def ACKNOWLEDGE : BitVec 8 := 0xFA

/-- `Reply::RESEND`. -/
def RESEND : BitVec 8 := 0xFE

/-- The place of `Vault::KeysAvailable` among the semaphores. -/
def keysAvailable : Nat := 0

/-- Who runs under the Guard, and what comes next there. -/
inductive Inside where
  | nobody
  /-- The epilogue is about to fetch a byte. -/
  | fetching (core : Nat)
  /-- The epilogue has put a key into the buffer, and `V` comes next. -/
  | produced (core : Nat)
  /-- A thread is in `GetKey`, before `P`. -/
  | acquiring (core : Nat)
  /-- A thread is in `GetKey`, after `P`. -/
  | consuming (core : Nat) (thread : Thread)
  deriving DecidableEq, Repr

structure Pipeline where
  vault : Vault
  /-- `s_RawBytes`. -/
  raw : RingBuffer (BitVec 8) := { data := fun _ => 0 }
  /-- `s_Decoder`. -/
  decoder : KeyDecoder := {}
  /-- `Vault::Keys`. -/
  keys : RingBuffer Key := { data := fun _ => {} }
  inside : Inside := .nobody
  /-- The threads that wait in the `P` of `GetKey`. -/
  parked : List Thread := []
  /-- The operations of the scheduler so far. -/
  history : List SchedulerEvent := []
  /-- The bytes that were put into the queue, and those that were taken out. -/
  put : List (BitVec 8) := []
  taken : List (BitVec 8) := []
  /-- The valid keys, with the number of keys in the buffer when they came. -/
  arrivals : List (Key × Nat) := []
  /-- The keys that were put into the buffer. -/
  produced : List Key := []
  /-- The threads that a `V` handed a key and that have not taken it. -/
  handed : List Thread := []
  /-- What `GetKey` returned, and to whom. -/
  returned : List (Thread × Key) := []

/-! ## The code -/

/-- Bytes that answer a command. -/
def IsReply (code : BitVec 8) : Prop := code = ACKNOWLEDGE ∨ code = RESEND

instance : DecidablePred IsReply := fun _ => inferInstanceAs (Decidable (_ ∨ _))

/-- Ctrl+Alt+Del. -/
def reboots (key : Key) : Bool :=
  (key.ctrlLeft || key.ctrlRight) && (key.altLeft || key.altRight) &&
    decide (key.code = ScanCode.DELETE)

/-- `s_RawBytes.Produce`.  A byte that finds the queue full is lost. -/
def feed (s : Pipeline) (byte : BitVec 8) : Pipeline :=
  match RingBuffer.produce RAW_SIZE s.raw byte with
  | none => s
  | some raw => { s with raw := raw, put := s.put ++ [byte] }

/-- What `Keyboard` does with a valid key, up to the `V`. -/
def produce (s : Pipeline) (core : Nat) (key : Key) : Pipeline :=
  let s := { s with arrivals := s.arrivals ++ [(key, RingBuffer.count KEY_BUFFER_SIZE s.keys)] }
  match RingBuffer.produce KEY_BUFFER_SIZE s.keys key with
  | none => s
  | some keys =>
    { s with keys := keys, produced := s.produced ++ [key], inside := .produced core }

/-- A round of the loop of `Fetch`, with what `Keyboard` does with the key. -/
def fetch (s : Pipeline) (core : Nat) : Option Pipeline :=
  match RingBuffer.consume RAW_SIZE s.raw with
  | none => some { s with inside := .nobody }
  | some (code, raw) =>
    let s := { s with raw := raw, taken := s.taken ++ [code] }
    if IsReply code then some s
    else
      let key := (s.decoder.decode code).1
      let s := { s with decoder := (s.decoder.decode code).2 }
      if key.isValid = false then some s
      else if reboots key then none
      else some (produce s core key)

/-- An operation of the scheduler, if its caller may issue it. -/
def perform (s : Pipeline) (event : SchedulerEvent) : Option Pipeline :=
  if s.vault.Allowed s.history event then
    match s.vault.step (s.history.length + 1) event with
    | .error _ => none
    | .ok vault => some { s with vault := vault, history := s.history ++ [event] }
  else none

/-- The thread that a core goes on with.  If it waited in `P`, it comes out of
it. -/
def settle (s : Pipeline) (core : Nat) : Pipeline :=
  match s.vault.activeThread core with
  | none => { s with inside := .nobody }
  | some thread =>
    if thread ∈ s.parked then
      { s with parked := s.parked.erase thread, inside := .consuming core thread }
    else { s with inside := .nobody }

/-- `KeysAvailable.V`. -/
def release (s : Pipeline) (core : Nat) : Option Pipeline :=
  (perform s (.v core keysAvailable)).map fun s' =>
    { s' with
      inside := .fetching core
      handed := s.handed ++ (s.vault.semaphores keysAvailable).waiting.head.toList }

/-- `KeysAvailable.P`. -/
def acquire (s : Pipeline) (core : Nat) : Option Pipeline :=
  match s.vault.activeThread core with
  | none => none
  | some thread =>
    (perform s (.p core keysAvailable)).map fun s' =>
      if (s.vault.semaphores keysAvailable).counter > 0 then
        { s' with inside := .consuming core thread }
      else settle { s' with parked := s.parked ++ [thread] } core

/-- `Keys.Consume`, and the end of `GetKey` if there was a key. -/
def consume (s : Pipeline) (core : Nat) (thread : Thread) : Pipeline :=
  match RingBuffer.consume KEY_BUFFER_SIZE s.keys with
  | none => { s with inside := .acquiring core }
  | some (key, keys) =>
    { s with
      keys := keys
      returned := s.returned ++ [(thread, key)]
      handed := s.handed.erase thread
      inside := .nobody }

inductive Action where
  /-- The prologue takes a byte from the keyboard. -/
  | feed (byte : BitVec 8)
  /-- The epilogue starts on a core. -/
  | keyboard (core : Nat)
  /-- The thread of a core calls `GetKey`. -/
  | getKey (core : Nat)
  /-- Anything else that runs under the Guard. -/
  | operate (event : SchedulerEvent)
  /-- Whoever is inside goes on. -/
  | proceed
  deriving DecidableEq, Repr

/-- Nobody else uses the semaphore of the keys, and no thread in `GetKey` is
killed. -/
def Other (s : Pipeline) (event : SchedulerEvent) : Prop :=
  Roster.Spares keysAvailable event ∧ ∀ thread ∈ s.parked, event ≠ .kill thread

instance (n : Nat) : DecidablePred (Roster.Spares n)
  | .p _ s | .v _ s => inferInstanceAs (Decidable (s ≠ n))
  | .schedule _ | .ready _ _ | .resume _ _ | .exit _ | .kill _ | .sleep _ _ | .check _ =>
    isTrue trivial

instance (s : Pipeline) : DecidablePred (Other s) :=
  fun _ => inferInstanceAs (Decidable (_ ∧ _))

/-- The thread of the core may call `GetKey`: it is not idle and not dying. -/
def MayCall (s : Pipeline) (core : Nat) : Prop :=
  (∃ number, s.vault.activeThread core = some (.task number)) ∧
    ∀ thread ∈ s.vault.activeThread core, s.vault.dying thread = false

instance (s : Pipeline) (core : Nat) : Decidable (MayCall s core) :=
  inferInstanceAs (Decidable (_ ∧ _))

def step (s : Pipeline) : Action → Option Pipeline
  | .feed byte => some (feed s byte)
  | .keyboard core =>
    if s.inside = .nobody then some { s with inside := .fetching core } else none
  | .getKey core =>
    if s.inside = .nobody ∧ MayCall s core then some { s with inside := .acquiring core }
    else none
  | .operate event =>
    if s.inside = .nobody ∧ Other s event then
      (perform s event).map fun s' => event.switches.elim s' (settle s')
    else none
  | .proceed =>
    match s.inside with
    | .nobody => none
    | .fetching core => fetch s core
    | .produced core => release s core
    | .acquiring core => acquire s core
    | .consuming core thread => some (consume s core thread)

/-- Before any byte and any key. -/
def initial (cores : Nat) (counts : Nat → Nat) : Pipeline where
  vault := Vault.initial cores counts

variable {s s' : Pipeline} {core : Nat} {event : SchedulerEvent} {counts : Nat → Nat}
  {code : BitVec 8} {waiting : List (BitVec 8)}

theorem perform_eq (h : perform s event = some s') :
    s.vault.Allowed s.history event ∧ ∃ vault,
      s.vault.step (s.history.length + 1) event = .ok vault ∧
      s' = { s with vault := vault, history := s.history ++ [event] } := by
  unfold perform at h
  split at h
  · next hallowed =>
    refine ⟨hallowed, ?_⟩
    split at h
    · exact nomatch h
    · next vault hstep => exact ⟨vault, hstep, (Option.some.inj h).symm⟩
  · exact nomatch h

/-! ## The bytes and the keys -/

/-- The valid keys in a stream of bytes, without the answers to commands. -/
def validKeys (bytes : List (BitVec 8)) : List Key :=
  (KeyDecoder.strokes {} (bytes.filter (¬IsReply ·))).filter (·.isValid)

/-- Every byte is decoded once and in order.  The valid keys go into the buffer
unless it is full, and they come out of it in the same order. -/
structure Stream (s : Pipeline) : Prop where
  raw : ∃ bytes, RingBuffer.Holds RAW_SIZE s.raw bytes ∧ s.put = s.taken ++ bytes
  decoder : s.decoder = KeyDecoder.feed {} (s.taken.filter (¬IsReply ·))
  arrivals : s.arrivals.map Prod.fst = validKeys s.taken
  produced : s.produced = (s.arrivals.filter (·.2 ≠ KEY_BUFFER_SIZE - 1)).map Prod.fst
  fifo : ∃ buffered, RingBuffer.Holds KEY_BUFFER_SIZE s.keys buffered ∧
    s.produced = s.returned.map Prod.snd ++ buffered

theorem Stream.initial (cores : Nat) (counts : Nat → Nat) : Stream (initial cores counts) where
  raw := ⟨[], RingBuffer.holds_empty (by decide) _, rfl⟩
  decoder := rfl
  arrivals := rfl
  produced := rfl
  fifo := ⟨[], RingBuffer.holds_empty (by decide) _, rfl⟩

theorem Stream.feed (h : Stream s) (byte : BitVec 8) : Stream (feed s byte) := by
  obtain ⟨bytes, hraw, hput⟩ := h.raw
  unfold KeyPipeline.feed
  by_cases hroom : bytes.length + 1 < RAW_SIZE
  · obtain ⟨raw, hproduce, hholds⟩ := RingBuffer.produce_spec (x := byte) hraw hroom
    rw [hproduce]
    refine ⟨⟨_, hholds, ?_⟩, h.decoder, h.arrivals, h.produced, h.fifo⟩
    dsimp only
    rw [hput, List.append_assoc]
  · have hfull : bytes.length + 1 = RAW_SIZE := by
      have hlt := hraw.length_lt
      omega
    rw [RingBuffer.produce_full hraw hfull]
    exact h

theorem filter_reply (hreply : IsReply code) (bytes : List (BitVec 8)) :
    (bytes ++ [code]).filter (¬IsReply ·) = bytes.filter (¬IsReply ·) := by
  rw [List.filter_append, List.filter_singleton, decide_eq_false (not_not_intro hreply)]
  exact List.append_nil _

theorem filter_code (hcode : ¬IsReply code) (bytes : List (BitVec 8)) :
    (bytes ++ [code]).filter (¬IsReply ·) = bytes.filter (¬IsReply ·) ++ [code] := by
  rw [List.filter_append, List.filter_singleton, decide_eq_true hcode]
  rfl

/-- One more byte is one more key, if it is valid. -/
theorem validKeys_concat (hcode : ¬IsReply code) (bytes : List (BitVec 8)) :
    validKeys (bytes ++ [code]) = validKeys bytes ++
      [((KeyDecoder.feed {} (bytes.filter (¬IsReply ·))).decode code).1].filter (·.isValid) := by
  rw [validKeys, filter_code hcode, KeyDecoder.strokes_concat, List.filter_append]
  rfl

/-- The key is counted, and it is put into the buffer unless that is full. -/
theorem stream_produce {key : Key}
    (hraw : ∃ bytes, RingBuffer.Holds RAW_SIZE s.raw bytes ∧ s.put = s.taken ++ bytes)
    (hdecoder : s.decoder = KeyDecoder.feed {} (s.taken.filter (¬IsReply ·)))
    (harrivals : s.arrivals.map Prod.fst ++ [key] = validKeys s.taken)
    (hproduced : s.produced = (s.arrivals.filter (·.2 ≠ KEY_BUFFER_SIZE - 1)).map Prod.fst)
    (hfifo : ∃ buffered, RingBuffer.Holds KEY_BUFFER_SIZE s.keys buffered ∧
      s.produced = s.returned.map Prod.snd ++ buffered) :
    Stream (produce s core key) := by
  obtain ⟨buffered, hholds, hout⟩ := hfifo
  have hcount := RingBuffer.count_eq hholds
  have hlist : (s.arrivals ++ [(key, RingBuffer.count KEY_BUFFER_SIZE s.keys)]).map Prod.fst =
      validKeys s.taken := by
    rw [List.map_append]
    exact harrivals
  unfold produce
  dsimp only
  by_cases hroom : buffered.length + 1 < KEY_BUFFER_SIZE
  · obtain ⟨keys, hproduce, hholds'⟩ := RingBuffer.produce_spec (x := key) hholds hroom
    have hkept : decide (RingBuffer.count KEY_BUFFER_SIZE s.keys ≠ KEY_BUFFER_SIZE - 1) = true :=
      decide_eq_true (by omega)
    rw [hproduce]
    refine ⟨hraw, hdecoder, hlist, ?_, _, hholds', ?_⟩
    · dsimp only
      rw [List.filter_append, List.filter_singleton, hkept, List.map_append, hproduced]
      rfl
    · dsimp only
      rw [hout, List.append_assoc]
  · have hfull : buffered.length + 1 = KEY_BUFFER_SIZE := by
      have hlt := hholds.length_lt
      omega
    have hlost : decide (RingBuffer.count KEY_BUFFER_SIZE s.keys ≠ KEY_BUFFER_SIZE - 1) = false :=
      decide_eq_false (by omega)
    rw [RingBuffer.produce_full hholds hfull]
    refine ⟨hraw, hdecoder, hlist, ?_, buffered, hholds, hout⟩
    dsimp only
    rw [List.filter_append, List.filter_singleton, hlost, hproduced]
    exact congrArg _ (List.append_nil _).symm

theorem Stream.fetch (h : Stream s) (hfetch : fetch s core = some s') : Stream s' := by
  obtain ⟨bytes, hraw, hput⟩ := h.raw
  unfold KeyPipeline.fetch at hfetch
  cases bytes with
  | nil =>
    rw [RingBuffer.consume_nil hraw] at hfetch
    obtain rfl := Option.some.inj hfetch
    exact ⟨h.raw, h.decoder, h.arrivals, h.produced, h.fifo⟩
  | cons code bytes =>
    obtain ⟨raw, hconsume, hholds⟩ := RingBuffer.consume_spec hraw
    rw [hconsume] at hfetch
    dsimp only at hfetch
    have hrest : ∃ bytes, RingBuffer.Holds RAW_SIZE raw bytes ∧
        s.put = (s.taken ++ [code]) ++ bytes :=
      ⟨bytes, hholds, by rw [hput, List.append_assoc]; rfl⟩
    by_cases hreply : IsReply code
    · rw [if_pos hreply] at hfetch
      obtain rfl := Option.some.inj hfetch
      refine ⟨hrest, ?_, ?_, h.produced, h.fifo⟩
      · exact h.decoder.trans (congrArg _ (filter_reply hreply s.taken).symm)
      · refine h.arrivals.trans ?_
        unfold validKeys
        rw [filter_reply hreply]
    · rw [if_neg hreply] at hfetch
      have hdecoder : (s.decoder.decode code).2 =
          KeyDecoder.feed {} ((s.taken ++ [code]).filter (¬IsReply ·)) := by
        rw [filter_code hreply, KeyDecoder.feed_concat, h.decoder]
      have hkeys := validKeys_concat hreply s.taken
      rw [← h.decoder, List.filter_singleton] at hkeys
      split_ifs at hfetch with hinvalid hreboot
      · obtain rfl := Option.some.inj hfetch
        refine ⟨hrest, hdecoder, ?_, h.produced, h.fifo⟩
        rw [hinvalid] at hkeys
        exact h.arrivals.trans (hkeys.trans (List.append_nil _)).symm
      · obtain rfl := Option.some.inj hfetch
        rw [Bool.not_eq_false] at hinvalid
        rw [hinvalid] at hkeys
        refine stream_produce hrest hdecoder ?_ h.produced h.fifo
        dsimp only
        rw [h.arrivals]
        exact hkeys.symm

theorem Stream.settle (h : Stream s) (core : Nat) : Stream (settle s core) := by
  unfold KeyPipeline.settle
  split
  · exact ⟨h.raw, h.decoder, h.arrivals, h.produced, h.fifo⟩
  · split <;> exact ⟨h.raw, h.decoder, h.arrivals, h.produced, h.fifo⟩

theorem Stream.perform (h : Stream s) (hperform : perform s event = some s') : Stream s' := by
  obtain ⟨-, vault, -, rfl⟩ := perform_eq hperform
  exact ⟨h.raw, h.decoder, h.arrivals, h.produced, h.fifo⟩

theorem Stream.consume (h : Stream s) (thread : Thread) : Stream (consume s core thread) := by
  obtain ⟨buffered, hholds, hout⟩ := h.fifo
  unfold KeyPipeline.consume
  cases buffered with
  | nil =>
    rw [RingBuffer.consume_nil hholds]
    exact ⟨h.raw, h.decoder, h.arrivals, h.produced, h.fifo⟩
  | cons key buffered =>
    obtain ⟨keys, hconsume, hholds'⟩ := RingBuffer.consume_spec hholds
    rw [hconsume]
    refine ⟨h.raw, h.decoder, h.arrivals, h.produced, buffered, hholds', ?_⟩
    dsimp only
    rw [hout, List.map_append, List.append_assoc]
    rfl

theorem Stream.release (h : Stream s) (hrelease : release s core = some s') : Stream s' := by
  obtain ⟨s₁, hperform, rfl⟩ := Option.map_eq_some_iff.1 hrelease
  obtain ⟨hraw, hdecoder, harrivals, hproduced, hfifo⟩ := h.perform hperform
  exact ⟨hraw, hdecoder, harrivals, hproduced, hfifo⟩

theorem Stream.acquire (h : Stream s) (hacquire : acquire s core = some s') : Stream s' := by
  unfold KeyPipeline.acquire at hacquire
  split at hacquire
  · exact nomatch hacquire
  · obtain ⟨s₁, hperform, rfl⟩ := Option.map_eq_some_iff.1 hacquire
    obtain ⟨hraw, hdecoder, harrivals, hproduced, hfifo⟩ := h.perform hperform
    split
    · exact ⟨hraw, hdecoder, harrivals, hproduced, hfifo⟩
    · refine Stream.settle ?_ core
      exact ⟨hraw, hdecoder, harrivals, hproduced, hfifo⟩

theorem Stream.operate (h : Stream s)
    (hoperate : (KeyPipeline.perform s event).map
      (fun s' => event.switches.elim s' (KeyPipeline.settle s')) = some s') : Stream s' := by
  obtain ⟨s₁, hperform, rfl⟩ := Option.map_eq_some_iff.1 hoperate
  have hstream := h.perform hperform
  cases event.switches with
  | none => exact hstream
  | some core => exact hstream.settle core

/-! ## The tokens of the semaphore -/

/-- Where the threads are. -/
def Pipeline.roster (s : Pipeline) (counts : Nat → Nat) : Roster :=
  Roster.after counts s.history

/-- The queues of the scheduler are those of the roster. -/
structure Agrees (counts : Nat → Nat) (s : Pipeline) : Prop where
  refines : Refines s.vault (s.roster counts)
  active : s.vault.activeThread = (s.roster counts).active
  inv : (s.roster counts).Inv []

/-- An allowed operation does not fail. -/
theorem Agrees.step (h : Agrees counts s) (hallowed : s.vault.Allowed s.history event) :
    ∃ vault, s.vault.step (s.history.length + 1) event = .ok vault ∧
      Agrees counts { s with vault := vault, history := s.history ++ [event] } := by
  have hroster := hallowed.roster h.active
  have hlength := (Roster.after_history counts s.history).2.2
  obtain ⟨vault, hstep, hrefines, hactive⟩ :=
    h.refines.step_spec h.inv h.active hroster (Nat.lt_succ_of_le hlength)
  refine ⟨vault, hstep, ?_, ?_, ?_⟩ <;> dsimp only [Pipeline.roster] <;> rw [Roster.after_concat]
  · exact hrefines
  · exact hactive
  · exact h.inv.step hroster

theorem perform_isSome (h : Agrees counts s) (hallowed : s.vault.Allowed s.history event) :
    (perform s event).isSome := by
  obtain ⟨vault, hstep, -⟩ := h.step hallowed
  rw [perform, if_pos hallowed, hstep]
  rfl

theorem Agrees.perform (h : Agrees counts s) (hperform : perform s event = some s') :
    Agrees counts s' ∧ s'.roster counts = (s.roster counts).step event ∧
      (s.roster counts).Allowed event := by
  obtain ⟨hallowed, vault, hstep, rfl⟩ := perform_eq hperform
  obtain ⟨vault', hstep', hagrees⟩ := h.step hallowed
  obtain rfl := Except.ok.inj (hstep.symm.trans hstep')
  exact ⟨hagrees, Roster.after_concat counts s.history event, hallowed.roster h.active⟩

/-- Who is about to take a key. -/
def Inside.consumer : Inside → Option Thread
  | .consuming _ thread => some thread
  | _ => none

/-- One key is on its way: the epilogue has put it into the buffer and has not
counted it, or a thread has taken its token and not the key. -/
def Inside.owed (handed : List Thread) : Inside → Nat
  | .produced _ => 1
  | .consuming _ thread => if thread ∈ handed then 0 else 1
  | _ => 0

/-- The books of the semaphore between two steps. -/
structure Tokens (counts : Nat → Nat) (s : Pipeline) : Prop where
  agrees : Agrees counts s
  books : HandOff (s.roster counts) keysAvailable s.parked s.handed
    (RingBuffer.count KEY_BUFFER_SIZE s.keys) s.inside.consumer (s.inside.owed s.handed) none
  caller : ∀ core, s.inside = .acquiring core → ∀ t ∈ (s.roster counts).active core,
    (s.roster counts).dying t = false

theorem Tokens.initial (cores : Nat) (hcounts : counts keysAvailable = 0) :
    Tokens counts (initial cores counts) where
  agrees := ⟨Refines.initial cores counts, rfl, Roster.inv_initial counts⟩
  books :=
    { inv := Roster.inv_initial counts
      mem_parked := fun _ => iff_of_false List.not_mem_nil nofun
      placed := nofun
      parkedOnce := List.nodup_nil
      handedOnce := List.nodup_nil
      alive := nofun
      balance := hcounts.symm }
  caller := nofun

/-- The core goes on with a thread that comes out of its `P`, or with any other
one. -/
theorem settle_tokens (hagrees : Agrees counts s)
    (h : HandOff (s.roster counts) keysAvailable s.parked s.handed
      (RingBuffer.count KEY_BUFFER_SIZE s.keys) none 0 (some core)) :
    Tokens counts (settle s core) := by
  have hactive := congrFun hagrees.active core
  have hpass : (∀ t ∈ (s.roster counts).active core, t ∉ s.parked) →
      Tokens counts { s with inside := .nobody } := fun hother =>
    ⟨⟨hagrees.refines, hagrees.active, hagrees.inv⟩, h.pass hother, nofun⟩
  unfold settle
  split
  · next hnone =>
    refine hpass fun t ht => ?_
    rw [← hactive, hnone] at ht
    exact nomatch ht
  · next thread hthread =>
    rw [hactive] at hthread
    split
    · next hparked =>
      obtain ⟨hhanded, hwake⟩ := h.wake hthread hparked
      refine ⟨⟨hagrees.refines, hagrees.active, hagrees.inv⟩, ?_, nofun⟩
      dsimp only [Inside.consumer, Inside.owed]
      rw [if_pos hhanded]
      exact hwake
    · next hparked =>
      refine hpass fun t ht => ?_
      rw [← Option.some.inj (hthread.symm.trans ht)]
      exact hparked

/-- Anything else under the Guard. -/
theorem Tokens.operate (h : Tokens counts s) (hinside : s.inside = .nobody) (hother : Other s event)
    (hoperate : (perform s event).map (fun s' => event.switches.elim s' (settle s')) = some s') :
    Tokens counts s' := by
  obtain ⟨s₁, hperform, rfl⟩ := Option.map_eq_some_iff.1 hoperate
  obtain ⟨hagrees, hroster, hallowed⟩ := h.agrees.perform hperform
  obtain ⟨-, vault, -, rfl⟩ := perform_eq hperform
  have hbooks := h.books
  rw [hinside] at hbooks
  have hnext := hbooks.other hallowed hother.1 hother.2
  rw [← hroster] at hnext
  cases hswitches : event.switches with
  | none =>
    rw [hswitches] at hnext
    refine ⟨hagrees, ?_, fun core heq => ?_⟩
    · dsimp only [Option.elim]
      rw [hinside]
      exact hnext
    · exact absurd (hinside.symm.trans heq) nofun
  | some core =>
    rw [hswitches] at hnext
    exact settle_tokens hagrees hnext

theorem Tokens.release (h : Tokens counts s) (hstream : Stream s)
    (hinside : s.inside = .produced core) (hrelease : release s core = some s') :
    Tokens counts s' := by
  obtain ⟨s₁, hperform, rfl⟩ := Option.map_eq_some_iff.1 hrelease
  obtain ⟨hagrees, hroster, -⟩ := h.agrees.perform hperform
  obtain ⟨-, vault, -, rfl⟩ := perform_eq hperform
  have hhead : (s.vault.semaphores keysAvailable).waiting.head =
      ((s.roster counts).waiting keysAvailable).head? :=
    (h.agrees.refines.family.holds (some keysAvailable)).head_eq
  obtain ⟨buffered, hholds, -⟩ := hstream.fifo
  have hfew : RingBuffer.count KEY_BUFFER_SIZE s.keys < 2 ^ 32 := by
    rw [RingBuffer.count_eq hholds]
    exact Nat.lt_trans hholds.length_lt (by decide)
  have hbooks := h.books
  rw [hinside] at hbooks
  have hnext := hbooks.v hfew core
  rw [← hroster, ← hhead] at hnext
  exact ⟨⟨hagrees.refines, hagrees.active, hagrees.inv⟩, hnext, nofun⟩

theorem Tokens.acquire (h : Tokens counts s) (hinside : s.inside = .acquiring core)
    (hacquire : acquire s core = some s') : Tokens counts s' := by
  unfold KeyPipeline.acquire at hacquire
  split at hacquire
  · exact nomatch hacquire
  · next thread hthread =>
    obtain ⟨s₁, hperform, rfl⟩ := Option.map_eq_some_iff.1 hacquire
    obtain ⟨hagrees, hroster, hallowed⟩ := h.agrees.perform hperform
    obtain ⟨-, vault, -, rfl⟩ := perform_eq hperform
    rw [h.agrees.active] at hthread
    have hbooks := h.books
    rw [hinside] at hbooks
    rw [h.agrees.refines.counter]
    split
    · next hcount =>
      have hnext := hbooks.p_take hcount hthread hallowed
      rw [← hroster] at hnext
      refine ⟨⟨hagrees.refines, hagrees.active, hagrees.inv⟩, ?_, nofun⟩
      dsimp only [Inside.consumer, Inside.owed]
      rw [if_neg (hbooks.active_not_handed hthread)]
      exact hnext
    · next hcount =>
      have hnext := hbooks.p_wait (Nat.eq_zero_of_not_pos hcount) hthread
        (h.caller core hinside thread hthread) hallowed
      rw [← hroster] at hnext
      refine settle_tokens ?_ hnext
      exact ⟨hagrees.refines, hagrees.active, hagrees.inv⟩

/-- After `P` there is a key in the buffer. -/
theorem Tokens.consume_eq (h : Tokens counts s) (hstream : Stream s) {thread : Thread}
    (hinside : s.inside = .consuming core thread) :
    ∃ key keys, RingBuffer.consume KEY_BUFFER_SIZE s.keys = some (key, keys) ∧
      RingBuffer.count KEY_BUFFER_SIZE s.keys = RingBuffer.count KEY_BUFFER_SIZE keys + 1 := by
  obtain ⟨buffered, hholds, -⟩ := hstream.fifo
  have hbooks := h.books
  rw [hinside] at hbooks
  have hpos := hbooks.present_pos rfl
  rw [RingBuffer.count_eq hholds] at hpos
  cases buffered with
  | nil => exact absurd hpos (Nat.lt_irrefl 0)
  | cons key buffered =>
    obtain ⟨keys, hconsume, hholds'⟩ := RingBuffer.consume_spec hholds
    refine ⟨key, keys, hconsume, ?_⟩
    rw [RingBuffer.count_eq hholds, RingBuffer.count_eq hholds', List.length_cons]

theorem Tokens.consume (h : Tokens counts s) (hstream : Stream s) {thread : Thread}
    (hinside : s.inside = .consuming core thread) : Tokens counts (consume s core thread) := by
  obtain ⟨key, keys, hconsume, hcount⟩ := h.consume_eq hstream hinside
  have hbooks := h.books
  rw [hinside, hcount] at hbooks
  unfold KeyPipeline.consume
  rw [hconsume]
  refine ⟨⟨h.agrees.refines, h.agrees.active, h.agrees.inv⟩, ?_, nofun⟩
  exact hbooks.take rfl

/-- The epilogue puts a key into the buffer that the semaphore does not count
yet. -/
theorem produce_tokens {key : Key} (hagrees : Agrees counts s)
    (h : HandOff (s.roster counts) keysAvailable s.parked s.handed
      (RingBuffer.count KEY_BUFFER_SIZE s.keys) none 0 none)
    (hinside : s.inside = .fetching core)
    (hfifo : ∃ buffered, RingBuffer.Holds KEY_BUFFER_SIZE s.keys buffered) :
    Tokens counts (produce s core key) := by
  obtain ⟨buffered, hholds⟩ := hfifo
  unfold produce
  dsimp only
  by_cases hroom : buffered.length + 1 < KEY_BUFFER_SIZE
  · obtain ⟨keys, hproduce, hholds'⟩ := RingBuffer.produce_spec (x := key) hholds hroom
    rw [hproduce]
    refine ⟨⟨hagrees.refines, hagrees.active, hagrees.inv⟩, ?_, nofun⟩
    refine ⟨h.inv, h.mem_parked, h.placed, h.parkedOnce, h.handedOnce, h.alive, ?_⟩
    have hbalance := h.balance
    rw [RingBuffer.count_eq hholds] at hbalance
    dsimp only [Inside.owed]
    rw [RingBuffer.count_eq hholds', List.length_append, List.length_singleton, hbalance]
    rfl
  · have hfull : buffered.length + 1 = KEY_BUFFER_SIZE := by
      have hlt := hholds.length_lt
      omega
    rw [RingBuffer.produce_full hholds hfull]
    refine ⟨⟨hagrees.refines, hagrees.active, hagrees.inv⟩, ?_, fun c heq => ?_⟩
    · dsimp only
      rw [hinside]
      exact h
    · exact absurd (hinside.symm.trans heq) nofun

theorem Tokens.fetch (h : Tokens counts s) (hstream : Stream s)
    (hinside : s.inside = .fetching core) (hfetch : fetch s core = some s') :
    Tokens counts s' := by
  obtain ⟨buffered, hholds, -⟩ := hstream.fifo
  have hbooks := h.books
  rw [hinside] at hbooks
  have hsame : ∀ raw taken decoder,
      Tokens counts { s with raw := raw, taken := taken, decoder := decoder } := by
    refine fun _ _ _ => ⟨⟨h.agrees.refines, h.agrees.active, h.agrees.inv⟩, ?_, h.caller⟩
    exact h.books
  unfold KeyPipeline.fetch at hfetch
  split at hfetch
  · obtain rfl := Option.some.inj hfetch
    exact ⟨⟨h.agrees.refines, h.agrees.active, h.agrees.inv⟩, hbooks, nofun⟩
  · dsimp only at hfetch
    split_ifs at hfetch
    · obtain rfl := Option.some.inj hfetch
      exact hsame _ _ _
    · obtain rfl := Option.some.inj hfetch
      exact hsame _ _ _
    · obtain rfl := Option.some.inj hfetch
      refine produce_tokens ?_ hbooks hinside ⟨buffered, hholds⟩
      exact ⟨h.agrees.refines, h.agrees.active, h.agrees.inv⟩

/-! ## The whole pipeline -/

/-- What holds after any number of steps. -/
structure Sound (counts : Nat → Nat) (s : Pipeline) : Prop where
  stream : Stream s
  tokens : Tokens counts s

theorem Sound.step {action : Action} (h : Sound counts s) (hstep : step s action = some s') :
    Sound counts s' := by
  obtain ⟨hstream, htokens⟩ := h
  cases action with
  | feed byte =>
    obtain rfl := Option.some.inj hstep
    refine ⟨hstream.feed byte, ?_⟩
    unfold KeyPipeline.feed
    split
    · exact htokens
    · exact ⟨⟨htokens.agrees.refines, htokens.agrees.active, htokens.agrees.inv⟩, htokens.books,
        htokens.caller⟩
  | keyboard core =>
    obtain ⟨hinside, hs⟩ := Option.ite_none_right_eq_some.1 hstep
    obtain rfl := Option.some.inj hs
    have hbooks := htokens.books
    rw [hinside] at hbooks
    exact ⟨⟨hstream.raw, hstream.decoder, hstream.arrivals, hstream.produced, hstream.fifo⟩,
      ⟨htokens.agrees.refines, htokens.agrees.active, htokens.agrees.inv⟩, hbooks, nofun⟩
  | getKey core =>
    obtain ⟨⟨hinside, -, halive⟩, hs⟩ := Option.ite_none_right_eq_some.1 hstep
    obtain rfl := Option.some.inj hs
    have hbooks := htokens.books
    rw [hinside] at hbooks
    rw [htokens.agrees.active, htokens.agrees.refines.dying] at halive
    refine ⟨⟨hstream.raw, hstream.decoder, hstream.arrivals, hstream.produced, hstream.fifo⟩,
      ⟨htokens.agrees.refines, htokens.agrees.active, htokens.agrees.inv⟩, hbooks, ?_⟩
    rintro c heq
    obtain rfl := Inside.acquiring.inj heq
    exact halive
  | operate event =>
    obtain ⟨⟨hinside, hother⟩, hs⟩ := Option.ite_none_right_eq_some.1 hstep
    exact ⟨hstream.operate hs, htokens.operate hinside hother hs⟩
  | proceed =>
    unfold KeyPipeline.step at hstep
    cases hinside : s.inside with
    | nobody =>
      simp only [hinside] at hstep
      exact nomatch hstep
    | fetching core =>
      simp only [hinside] at hstep
      exact ⟨hstream.fetch hstep, htokens.fetch hstream hinside hstep⟩
    | produced core =>
      simp only [hinside] at hstep
      exact ⟨hstream.release hstep, htokens.release hstream hinside hstep⟩
    | acquiring core =>
      simp only [hinside] at hstep
      exact ⟨hstream.acquire hstep, htokens.acquire hinside hstep⟩
    | consuming core thread =>
      simp only [hinside] at hstep
      obtain rfl := Option.some.inj hstep
      exact ⟨hstream.consume thread, htokens.consume hstream hinside⟩

/-! ## The end of an epilogue -/

/-- What is decoded stays so when more bytes come. -/
theorem mem_validKeys_append {key : Key} {bytes : List (BitVec 8)} (h : key ∈ validKeys bytes)
    (more : List (BitVec 8)) : key ∈ validKeys (bytes ++ more) := by
  induction more using List.reverseRecOn with
  | nil => rwa [List.append_nil]
  | append_singleton more code ih =>
    rw [← List.append_assoc]
    by_cases hreply : IsReply code
    · unfold validKeys at ih ⊢
      rwa [filter_reply hreply]
    · rw [validKeys_concat hreply]
      exact List.mem_append_left _ ih

/-- A round of the epilogue takes the next byte, and goes on with the `V` or with the next
round. -/
theorem fetch_cons (h : Stream s) (hinside : s.inside = .fetching core)
    (hput : s.put = s.taken ++ code :: waiting) (hfetch : fetch s core = some s') :
    s'.put = s.put ∧ s'.taken = s.taken ++ [code] ∧
      (s'.inside = .fetching core ∨ s'.inside = .produced core) := by
  obtain ⟨bytes, hraw, hput'⟩ := h.raw
  obtain rfl := List.append_cancel_left (hput'.symm.trans hput)
  obtain ⟨raw, hconsume, -⟩ := RingBuffer.consume_spec hraw
  unfold fetch at hfetch
  rw [hconsume] at hfetch
  dsimp only at hfetch
  split_ifs at hfetch
  · obtain rfl := Option.some.inj hfetch
    exact ⟨rfl, rfl, .inl hinside⟩
  · obtain rfl := Option.some.inj hfetch
    exact ⟨rfl, rfl, .inl hinside⟩
  · obtain rfl := Option.some.inj hfetch
    unfold produce
    dsimp only
    split
    · exact ⟨rfl, rfl, .inl hinside⟩
    · exact ⟨rfl, rfl, .inr rfl⟩

/-- There is a next round unless Ctrl+Alt+Del was decoded. -/
theorem fetch_isSome (h : Stream s) (core : Nat) (hput : s.put = s.taken ++ code :: waiting)
    (hcalm : ∀ key ∈ validKeys s.put, reboots key = false) : ∃ s', fetch s core = some s' := by
  obtain ⟨bytes, hraw, hput'⟩ := h.raw
  obtain rfl := List.append_cancel_left (hput'.symm.trans hput)
  obtain ⟨raw, hconsume, -⟩ := RingBuffer.consume_spec hraw
  unfold fetch
  rw [hconsume]
  dsimp only
  split_ifs with hreply hinvalid hreboot
  · exact ⟨_, rfl⟩
  · exact ⟨_, rfl⟩
  · have hkey : (s.decoder.decode code).1 ∈ validKeys s.put := by
      rw [hput, ← List.singleton_append, ← List.append_assoc]
      refine mem_validKeys_append ?_ waiting
      rw [validKeys_concat hreply, ← h.decoder, List.mem_append]
      exact .inr (List.mem_filter.2 ⟨List.mem_singleton_self _, Bool.not_eq_false _ ▸ hinvalid⟩)
    exact absurd ((hcalm _ hkey).symm.trans hreboot) Bool.noConfusion
  · exact ⟨_, rfl⟩

/-- After the `V` comes the next round. -/
theorem release_round (h : Tokens counts s) (core : Nat) :
    ∃ s', release s core = some s' ∧ s'.put = s.put ∧ s'.taken = s.taken ∧
      s'.inside = .fetching core := by
  have hallowed : s.vault.Allowed s.history (.v core keysAvailable) := trivial
  obtain ⟨s₁, hperform⟩ := Option.isSome_iff_exists.1 (perform_isSome h.agrees hallowed)
  refine ⟨_, by rw [release, hperform]; rfl, ?_, ?_, rfl⟩
  · obtain ⟨-, vault, -, rfl⟩ := perform_eq hperform
    rfl
  · obtain ⟨-, vault, -, rfl⟩ := perform_eq hperform
    rfl

/-- With an empty queue the epilogue ends. -/
theorem fetch_nil (h : Stream s) (hput : s.put = s.taken) :
    fetch s core = some { s with inside := .nobody } := by
  obtain ⟨bytes, hraw, hput'⟩ := h.raw
  obtain rfl : bytes = [] := List.append_right_eq_self.1 (hput'.symm.trans hput)
  unfold fetch
  rw [RingBuffer.consume_nil hraw]

/-- A round that ends the epilogue found the queue empty. -/
theorem drained_of_fetch (h : Stream s) (hinside : s.inside = .fetching core)
    (hfetch : fetch s core = some s') (hnobody : s'.inside = .nobody) : s'.taken = s'.put := by
  obtain ⟨bytes, hraw, hput⟩ := h.raw
  cases bytes with
  | nil =>
    rw [List.append_nil] at hput
    obtain rfl := Option.some.inj ((fetch_nil h hput).symm.trans hfetch)
    exact hput.symm
  | cons code bytes =>
    rcases (fetch_cons h hinside hput hfetch).2.2 with hstays | hstays
    · cases hnobody.symm.trans hstays
    · cases hnobody.symm.trans hstays

/-- An epilogue that is let run takes every byte that is in the queue. -/
theorem drains (h : Sound counts s) (hinside : s.inside = .fetching core)
    (hput : s.put = s.taken ++ waiting) (hcalm : ∀ key ∈ validKeys s.put, reboots key = false) :
    ∃ rounds s', Transition.run step s (List.replicate rounds .proceed) = some s' ∧
      s'.inside = .nobody ∧ s'.taken = s.put := by
  have hproceed : step s .proceed = fetch s core := by simp only [step, hinside]
  induction waiting generalizing s with
  | nil =>
    rw [List.append_nil] at hput
    refine ⟨1, { s with inside := .nobody }, ?_, rfl, hput.symm⟩
    exact Option.bind_eq_some_iff.2 ⟨_, hproceed.trans (fetch_nil h.stream hput), rfl⟩
  | cons code waiting ih =>
    obtain ⟨s₁, hfetch⟩ := fetch_isSome h.stream core hput hcalm
    obtain ⟨hput₁, htaken₁, hnext⟩ := fetch_cons h.stream hinside hput hfetch
    have hstep₁ := hproceed.trans hfetch
    have hsound₁ := h.step hstep₁
    have hrest₁ : s₁.put = s₁.taken ++ waiting := by
      rw [hput₁, htaken₁, hput, List.append_assoc, List.singleton_append]
    rcases hnext with hfetching | hproduced
    · obtain ⟨rounds, s', hrun, hinside', htaken'⟩ := ih hsound₁ hfetching hrest₁
        (hput₁ ▸ hcalm) (by simp only [step, hfetching])
      exact ⟨rounds + 1, s', Option.bind_eq_some_iff.2 ⟨s₁, hstep₁, hrun⟩, hinside',
        htaken'.trans hput₁⟩
    · obtain ⟨s₂, hrelease, hput₂, htaken₂, hfetching⟩ := release_round hsound₁.tokens core
      have hstep₂ : step s₁ .proceed = some s₂ := by
        simp only [step, hproduced, hrelease]
      have hput' := hput₂.trans hput₁
      obtain ⟨rounds, s', hrun, hinside', htaken'⟩ := ih (hsound₁.step hstep₂) hfetching
        (by rw [hput₂, htaken₂, hrest₁]) (hput' ▸ hcalm) (by simp only [step, hfetching])
      exact ⟨rounds + 2, s', Option.bind_eq_some_iff.2 ⟨s₁, hstep₁,
        Option.bind_eq_some_iff.2 ⟨s₂, hstep₂, hrun⟩⟩, hinside', htaken'.trans hput'⟩

/-- No key is lost or comes twice. -/
structure Delivered (s : Pipeline) : Prop where
  /-- The epilogue takes the bytes in the order in which they were put in. -/
  bytes : ∃ waiting, RingBuffer.Holds RAW_SIZE s.raw waiting ∧ s.put = s.taken ++ waiting
  /-- It ends when it finds none left. -/
  drained : ∀ core s', s.inside = .fetching core → step s .proceed = some s' →
    s'.inside = .nobody → s'.taken = s'.put
  /-- It comes to its end if it is let run, unless Ctrl+Alt+Del is among the bytes. -/
  ends : ∀ core, s.inside = .fetching core → (∀ key ∈ validKeys s.put, reboots key = false) →
    ∃ rounds s', Transition.run step s (List.replicate rounds .proceed) = some s' ∧
      s'.inside = .nobody ∧ s'.taken = s.put
  /-- It finds the valid keys of these bytes. -/
  arrivals : s.arrivals.map Prod.fst = validKeys s.taken
  /-- It puts them into the buffer, except those that find 31 keys there. -/
  produced : s.produced = (s.arrivals.filter (·.2 ≠ KEY_BUFFER_SIZE - 1)).map Prod.fst
  /-- The callers get the keys in this order, each key once. -/
  returned : ∃ buffered, RingBuffer.Holds KEY_BUFFER_SIZE s.keys buffered ∧
    s.produced = s.returned.map Prod.snd ++ buffered
  valid : ∀ entry ∈ s.returned, entry.2.isValid = true
  /-- After `P` there is a key. -/
  consume : ∀ core thread, s.inside = .consuming core thread →
    RingBuffer.consume KEY_BUFFER_SIZE s.keys ≠ none
  /-- The semaphore counts the keys that no thread was handed.  One key is on its
  way between `Produce` and `V`, and between a `P` that did not wait and
  `Consume`. -/
  handedOnce : s.handed.Nodup
  count : RingBuffer.count KEY_BUFFER_SIZE s.keys =
    (s.vault.semaphores keysAvailable).counter + s.handed.length + s.inside.owed s.handed
  settled : s.inside = .nobody → RingBuffer.count KEY_BUFFER_SIZE s.keys =
    (s.vault.semaphores keysAvailable).counter + s.handed.length

theorem Stream.valid (h : Stream s) : ∀ key ∈ s.produced, key.isValid = true := by
  intro key hkey
  rw [h.produced] at hkey
  obtain ⟨arrival, harrival, rfl⟩ := List.mem_map.1 hkey
  have hmem := List.mem_map_of_mem (f := Prod.fst) (List.mem_of_mem_filter harrival)
  rw [h.arrivals, validKeys] at hmem
  exact List.of_mem_filter hmem

theorem Sound.delivered (h : Sound counts s) : Delivered s := by
  obtain ⟨hstream, htokens⟩ := h
  obtain ⟨buffered, hholds, hout⟩ := hstream.fifo
  have hcount : RingBuffer.count KEY_BUFFER_SIZE s.keys =
      (s.vault.semaphores keysAvailable).counter + s.handed.length + s.inside.owed s.handed := by
    rw [htokens.agrees.refines.counter]
    exact htokens.books.balance
  refine ⟨hstream.raw, fun core s' hinside hproceed hnobody => ?_, fun core hinside hcalm => ?_,
    hstream.arrivals, hstream.produced, hstream.fifo, fun entry hentry => ?_,
    fun core thread hinside => ?_, htokens.books.handedOnce, hcount, fun hinside => ?_⟩
  · simp only [KeyPipeline.step, hinside] at hproceed
    exact drained_of_fetch hstream hinside hproceed hnobody
  · obtain ⟨waiting, -, hput⟩ := hstream.raw
    exact drains ⟨hstream, htokens⟩ hinside hput hcalm
  · refine hstream.valid entry.2 ?_
    rw [hout]
    exact List.mem_append_left _ (List.mem_map_of_mem hentry)
  · obtain ⟨key, keys, hconsume, -⟩ := htokens.consume_eq hstream hinside
    rw [hconsume]
    exact nofun
  · rw [hcount, hinside]
    rfl

/-- For all bytes, at any time, and for any number of cores and threads, in every
order of the steps. -/
theorem keyboard_pipeline {cores : Nat} {actions : List Action} (hcounts : counts keysAvailable = 0)
    (hrun : Transition.run step (initial cores counts) actions = some s) : Delivered s :=
  Sound.delivered <| Transition.invariant (fun _ _ _ => Sound.step)
    ⟨Stream.initial cores counts, Tokens.initial cores hcounts⟩ hrun

/-- A thread waits for a key, the key A is pressed, and the thread gets it when it
runs again. -/
def waitForA : List Action :=
  [.operate (.ready 0 (.task 1)), .operate (.schedule 0), .getKey 0, .proceed, .feed 0x1E,
    .feed 0xFA, .keyboard 0, .proceed, .proceed, .proceed, .proceed, .operate (.resume 0 true),
    .proceed]

theorem keyboard_pipeline_a : ∃ s,
    Transition.run step (initial 1 fun _ => 0) waitForA = some s ∧
    s.returned = [(.task 1, { code := ScanCode.A })] ∧ Delivered s := by
  have hany : (Transition.run step (initial 1 fun _ => 0) waitForA).any
      (fun s => decide (s.returned = [(.task 1, { code := ScanCode.A })])) = true := by
    decide +kernel
  obtain ⟨s, hrun, hs⟩ := (Option.any_eq_true _ _).1 hany
  exact ⟨s, hrun, of_decide_eq_true hs, @keyboard_pipeline s (fun _ => 0) _ _ rfl hrun⟩

end KeyPipeline

end X64HK
