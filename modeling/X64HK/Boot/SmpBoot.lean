import Mathlib.Data.List.GetD
import Mathlib.Data.List.Nodup
import Mathlib.Data.List.Perm.Subperm
import X64HK.Arch.Madt
import X64HK.Lib.Transition

/-!
# How the processors come up

A model of the part of the boot that gives every processor a number and a stack:
the claim of a boot stack in `Kernel/Boot/Entry.asm`, `Cpu::Initialize` and
`Cpu::GetId` in `Kernel/Arch/Cpu.cpp`, and `SmpBoot::Boot` in
`Kernel/Boot/SmpBoot.cpp`.

The processors with an enabled record in the MADT exist, and the broadcast
starts all of them but the bootstrap processor.  They run at the same time, and
the steps of each one come in between those of the others in any order.  A
processor is named by the identification in its local APIC.

* `initializeTable_eq`: the table that the first processor builds.
* `Started`: what holds after any number of steps.
* `core_identity_iff`: when every processor has a number and a stack of its own.
-/

namespace X64HK.SmpBoot

open Apic RecordWalk

/-- `Config::BOOT_STACK_SIZE`, and `CoreStackSize` of `Cpu.cpp`. -/
def BOOT_STACK_SIZE : Nat := 16 * KIB

/-- The low half of `Config::KERNEL_VMA`. -/
def KERNEL_VMA_LOW : BitVec 32 := 0x80000000

/-! ## The code -/

/-- `Apic::GetLocalApicId`. -/
def getLocalApicId (t : Topology) (core : Nat) : Nat :=
  if core < Config.MAX_CORES then t.localApicIds.getD core INVALID_ID else INVALID_ID

/-- `s_CoreIdByLapicId` and `s_CoreCount`. -/
@[ext]
structure CoreTable where
  coreIdByLapicId : Nat → Nat := fun _ => 0
  coreCount : Nat := 0

/-- The body of the loop of `Cpu::Initialize`. -/
def addCore (t : Topology) (table : CoreTable) (core : Nat) : CoreTable :=
  let lapicId := getLocalApicId t core
  if lapicId ≠ INVALID_ID then
    { coreIdByLapicId := Function.update table.coreIdByLapicId lapicId core
      coreCount := table.coreCount + 1 }
  else table

/-- The loop of `Cpu::Initialize`. -/
def initializeTable (t : Topology) (table : CoreTable) : CoreTable :=
  (List.range Config.MAX_CORES).foldl (addCore t) table

/-- The machine while it boots.  `stackPointer` is the low half of
`CoreStackPointer`.  `claims` has the processors that took a boot stack, in this
order, with their stack pointers, and `online` has those that went through
`Cpu::Initialize`, so `s_OnlineCount` is its length.  `booted` says that
`SmpBoot::Boot` is done, and `broadcast` that it started the other processors. -/
structure Machine where
  table : CoreTable := {}
  claims : List (Nat × BitVec 32) := []
  online : List Nat := []
  booted : Bool := false
  broadcast : Bool := false
  stackPointer : BitVec 32

/-- The processors that took a boot stack. -/
def Machine.claimed (s : Machine) : List Nat := s.claims.map Prod.fst

/-- `Cpu::GetId`, on the processor with this local APIC. -/
def Machine.getId (s : Machine) (lapicId : Nat) : Nat := s.table.coreIdByLapicId lapicId

/-- `lock xadd`, and the stack pointer that comes of it. -/
def claimStack (s : Machine) (lapicId : Nat) : Machine :=
  let eax := s.stackPointer
  { s with
    stackPointer := s.stackPointer + BitVec.ofNat 32 BOOT_STACK_SIZE
    claims := s.claims ++ [(lapicId, eax + BitVec.ofNat 32 BOOT_STACK_SIZE - KERNEL_VMA_LOW)] }

/-- `Cpu::Initialize`. -/
def initializeCore (t : Topology) (s : Machine) (lapicId : Nat) : Machine :=
  { s with
    table := if s.online.length = 0 then initializeTable t s.table else s.table
    online := s.online ++ [lapicId] }

/-- `SmpBoot::Boot`. -/
def boot (s : Machine) : Machine :=
  { s with booted := true, broadcast := decide (¬s.table.coreCount ≤ 1) }

/-- What a processor does next. -/
inductive Action where
  | claimStack (lapicId : Nat)
  | initializeCore (lapicId : Nat)
  | boot
  deriving DecidableEq, Repr

/-- One step of one processor.  `present` are the processors that exist. -/
def step (t : Topology) (present : List Nat) (bootstrap : Nat) (s : Machine) :
    Action → Option Machine
  | .claimStack lapicId =>
    if (lapicId = bootstrap ∨ s.broadcast = true ∧ lapicId ∈ present) ∧ lapicId ∉ s.claimed then
      some (claimStack s lapicId)
    else none
  | .initializeCore lapicId =>
    if lapicId ∈ s.claimed ∧ lapicId ∉ s.online then some (initializeCore t s lapicId) else none
  | .boot => if bootstrap ∈ s.online ∧ s.booted = false then some (boot s) else none

/-- The machine when the loader starts the kernel. -/
def start (coreStacks : BitVec 32) : Machine := { stackPointer := coreStacks }

/-! ## The table -/

variable {t : Topology} {s : Machine} {coreStacks : BitVec 32} {present : List Nat}
  {bootstrap : Nat} {lapicId : Nat}

/-- A table has at most so many processors, each one once and none of them the
broadcast address. -/
structure WellFormed (t : Topology) : Prop where
  nodup : t.localApicIds.Nodup
  valid : INVALID_ID ∉ t.localApicIds
  length : t.localApicIds.length ≤ Config.MAX_CORES

/-- The table with the first processors of the topology. -/
def tableOf (ids : List Nat) (rounds : Nat) : CoreTable where
  coreIdByLapicId lapicId := if lapicId ∈ ids.take rounds then ids.idxOf lapicId else 0
  coreCount := min rounds ids.length

theorem getLocalApicId_eq {core : Nat} (hcore : core < Config.MAX_CORES) :
    getLocalApicId t core = t.localApicIds.getD core INVALID_ID := by
  rw [getLocalApicId, if_pos hcore]

/-- Each round adds the next processor. -/
theorem addCore_tableOf (h : WellFormed t) {core : Nat} (hcore : core < Config.MAX_CORES) :
    addCore t (tableOf t.localApicIds core) core = tableOf t.localApicIds (core + 1) := by
  unfold addCore
  dsimp only
  rw [getLocalApicId_eq hcore]
  by_cases hlt : core < t.localApicIds.length
  · have hid : t.localApicIds.getD core INVALID_ID = t.localApicIds[core] :=
      List.getD_eq_getElem _ _ hlt
    have hvalid : t.localApicIds[core] ≠ INVALID_ID :=
      fun heq => h.valid (heq ▸ List.getElem_mem hlt)
    rw [hid, if_pos hvalid]
    refine CoreTable.ext (funext fun lapicId => ?_) ?_
    · dsimp only [tableOf]
      rw [List.take_add_one, List.getElem?_eq_getElem hlt, Option.toList_some]
      by_cases heq : lapicId = t.localApicIds[core]
      · rw [heq, Function.update_self, if_pos List.mem_concat_self, h.nodup.idxOf_getElem]
      · rw [Function.update_of_ne heq]
        simp only [List.mem_append, List.mem_singleton, heq, or_false]
    · dsimp only [tableOf]
      omega
  · have hnone : t.localApicIds.getD core INVALID_ID = INVALID_ID :=
      List.getD_eq_default _ _ (Nat.le_of_not_lt hlt)
    rw [hnone, if_neg (not_not_intro rfl)]
    refine CoreTable.ext (funext fun lapicId => ?_) ?_
    · dsimp only [tableOf]
      rw [List.take_of_length_le (by omega), List.take_of_length_le (by omega)]
    · dsimp only [tableOf]
      omega

/-- The loop leaves the number of each processor in the order of the MADT, and
zero for all others. -/
theorem initializeTable_eq (h : WellFormed t) :
    initializeTable t {} = tableOf t.localApicIds Config.MAX_CORES := by
  have hrounds : ∀ rounds ≤ Config.MAX_CORES,
      (List.range rounds).foldl (addCore t) {} = tableOf t.localApicIds rounds := by
    intro rounds
    induction rounds with
    | zero =>
      intro _
      exact CoreTable.ext (funext fun _ => by simp [tableOf]) (by simp [tableOf])
    | succ rounds ih =>
      intro hle
      rw [List.range_succ, List.foldl_concat, ih (by omega), addCore_tableOf h (by omega)]
  exact hrounds _ (Nat.le_refl _)

theorem tableOf_count (h : WellFormed t) :
    (tableOf t.localApicIds Config.MAX_CORES).coreCount = t.localApicIds.length :=
  Nat.min_eq_right h.length

theorem tableOf_of_mem (h : WellFormed t) (hmem : lapicId ∈ t.localApicIds) :
    (tableOf t.localApicIds Config.MAX_CORES).coreIdByLapicId lapicId =
      t.localApicIds.idxOf lapicId := by
  dsimp only [tableOf]
  rw [List.take_of_length_le h.length, if_pos hmem]

theorem tableOf_of_not_mem (hmem : lapicId ∉ t.localApicIds) :
    (tableOf t.localApicIds Config.MAX_CORES).coreIdByLapicId lapicId = 0 := by
  dsimp only [tableOf]
  rw [if_neg fun htake => hmem (List.mem_of_mem_take htake)]

/-! ## What holds while the processors come up -/

/-- The stack pointer of the processor that comes after `before` others. -/
def stackTop (coreStacks : BitVec 32) (before : Nat) : BitVec 32 :=
  coreStacks + BitVec.ofNat 32 ((before + 1) * BOOT_STACK_SIZE) - KERNEL_VMA_LOW

/-- What holds after any number of steps. -/
structure Started (t : Topology) (present : List Nat) (bootstrap : Nat) (coreStacks : BitVec 32)
    (s : Machine) : Prop where
  pointer : s.stackPointer = coreStacks + BitVec.ofNat 32 (s.claims.length * BOOT_STACK_SIZE)
  tops : ∀ i (hi : i < s.claims.length), s.claims[i].2 = stackTop coreStacks i
  nodup : s.claimed.Nodup
  released : ∀ lapicId ∈ s.claimed, lapicId = bootstrap ∨ s.broadcast = true ∧ lapicId ∈ present
  online : s.online ⊆ s.claimed
  first : s.online = [] → s.table = {} ∧ s.booted = false
  built : s.online ≠ [] → s.table = initializeTable t {} ∧ bootstrap ∈ s.online
  waits : s.booted = false → s.broadcast = false
  counted : s.booted = true → (s.broadcast = true ↔ 1 < s.table.coreCount)

theorem Started.start : Started t present bootstrap coreStacks (start coreStacks) where
  pointer := by simp [SmpBoot.start]
  tops := fun i hi => absurd hi (Nat.not_lt_zero i)
  nodup := List.nodup_nil
  released := nofun
  online := List.nil_subset _
  first := fun _ => ⟨rfl, rfl⟩
  built := fun hne => absurd rfl hne
  waits := fun _ => rfl
  counted := nofun

theorem add_stack (pointer : BitVec 32) (n : Nat) :
    pointer + BitVec.ofNat 32 (n * BOOT_STACK_SIZE) + BitVec.ofNat 32 BOOT_STACK_SIZE =
      pointer + BitVec.ofNat 32 ((n + 1) * BOOT_STACK_SIZE) := by
  rw [Nat.succ_mul, BitVec.ofNat_add, BitVec.add_assoc]

theorem claimed_claimStack (s : Machine) (lapicId : Nat) :
    (claimStack s lapicId).claimed = s.claimed ++ [lapicId] := by
  unfold Machine.claimed claimStack
  rw [List.map_append]
  rfl

theorem claimStack_pointer (h : s.stackPointer =
      coreStacks + BitVec.ofNat 32 (s.claims.length * BOOT_STACK_SIZE)) (lapicId : Nat) :
    (claimStack s lapicId).stackPointer =
      coreStacks + BitVec.ofNat 32 ((claimStack s lapicId).claims.length * BOOT_STACK_SIZE) := by
  have hlength : (claimStack s lapicId).claims.length = s.claims.length + 1 := List.length_append
  rw [hlength, ← add_stack, ← h]
  rfl

theorem claimStack_tops (h : Started t present bootstrap coreStacks s) (lapicId : Nat) :
    ∀ i (hi : i < (claimStack s lapicId).claims.length),
      (claimStack s lapicId).claims[i].2 = stackTop coreStacks i := by
  intro i hi
  dsimp only [claimStack] at hi ⊢
  rw [List.length_append, List.length_singleton] at hi
  rcases Nat.lt_succ_iff_lt_or_eq.1 hi with hlt | heq
  · rw [List.getElem_append_left hlt]
    exact h.tops i hlt
  · subst heq
    rw [List.getElem_concat_length rfl, h.pointer, stackTop, add_stack]

theorem Started.claimStack (h : Started t present bootstrap coreStacks s)
    (hreleased : lapicId = bootstrap ∨ s.broadcast = true ∧ lapicId ∈ present)
    (hnew : lapicId ∉ s.claimed) :
    Started t present bootstrap coreStacks (claimStack s lapicId) where
  pointer := claimStack_pointer h.pointer lapicId
  tops := claimStack_tops h lapicId
  nodup := by
    rw [claimed_claimStack]
    exact List.concat_eq_append ▸ List.Nodup.concat hnew h.nodup
  released := by
    intro other hmem
    rw [claimed_claimStack, List.mem_append, List.mem_singleton] at hmem
    rcases hmem with hmem | rfl
    · exact h.released other hmem
    · exact hreleased
  online := by
    rw [claimed_claimStack]
    exact fun other hmem => List.mem_append_left _ (h.online hmem)
  first := h.first
  built := h.built
  waits := h.waits
  counted := h.counted

/-- Only the bootstrap processor can be the first one in `Cpu::Initialize`: the
others start when it is through. -/
theorem Started.first_is_bootstrap (h : Started t present bootstrap coreStacks s)
    (hclaimed : lapicId ∈ s.claimed) (hnone : s.online = []) : lapicId = bootstrap := by
  rcases h.released lapicId hclaimed with heq | ⟨hbroadcast, -⟩
  · exact heq
  · exact absurd (hbroadcast.symm.trans (h.waits (h.first hnone).2)) nofun

theorem Started.initializeCore (h : Started t present bootstrap coreStacks s)
    (hclaimed : lapicId ∈ s.claimed) :
    Started t present bootstrap coreStacks (initializeCore t s lapicId) where
  pointer := h.pointer
  tops := h.tops
  nodup := h.nodup
  released := h.released
  online := by
    intro other hmem
    rcases List.mem_append.1 hmem with hmem | hmem
    · exact h.online hmem
    · rw [List.mem_singleton.1 hmem]
      exact hclaimed
  first := fun hnone => absurd hnone (List.append_ne_nil_of_right_ne_nil _ (List.cons_ne_nil _ _))
  built := by
    intro _
    dsimp only [SmpBoot.initializeCore]
    by_cases hnone : s.online = []
    · rw [hnone, if_pos List.length_nil, (h.first hnone).1, List.nil_append,
        h.first_is_bootstrap hclaimed hnone]
      exact ⟨rfl, List.mem_singleton_self _⟩
    · rw [if_neg fun hzero => hnone (List.length_eq_zero_iff.1 hzero)]
      exact ⟨(h.built hnone).1, List.mem_append_left _ (h.built hnone).2⟩
  waits := h.waits
  counted := by
    intro hbooted
    have hsome : s.online ≠ [] :=
      fun hnone => absurd (hbooted.symm.trans (h.first hnone).2) nofun
    dsimp only [SmpBoot.initializeCore]
    rw [if_neg fun hzero => hsome (List.length_eq_zero_iff.1 hzero)]
    exact h.counted hbooted

theorem Started.boot (h : Started t present bootstrap coreStacks s)
    (hbootstrap : bootstrap ∈ s.online) (hnot : s.booted = false) :
    Started t present bootstrap coreStacks (boot s) where
  pointer := h.pointer
  tops := h.tops
  nodup := h.nodup
  released := by
    intro lapicId hmem
    rcases h.released lapicId hmem with heq | ⟨hbroadcast, -⟩
    · exact .inl heq
    · exact absurd (hbroadcast.symm.trans (h.waits hnot)) nofun
  online := h.online
  first := fun hnone => absurd (hnone ▸ hbootstrap) List.not_mem_nil
  built := h.built
  waits := nofun
  counted := by
    intro _
    dsimp only [SmpBoot.boot]
    rw [decide_eq_true_iff, Nat.not_le]

theorem Started.step {action : Action} {s' : Machine} (h : Started t present bootstrap coreStacks s)
    (hstep : step t present bootstrap s action = some s') :
    Started t present bootstrap coreStacks s' := by
  cases action with
  | claimStack lapicId =>
    obtain ⟨⟨hreleased, hnew⟩, hs⟩ := Option.ite_none_right_eq_some.1 hstep
    obtain rfl := Option.some.inj hs
    exact h.claimStack hreleased hnew
  | initializeCore lapicId =>
    obtain ⟨⟨hclaimed, -⟩, hs⟩ := Option.ite_none_right_eq_some.1 hstep
    obtain rfl := Option.some.inj hs
    exact h.initializeCore hclaimed
  | boot =>
    obtain ⟨⟨hbootstrap, hnot⟩, hs⟩ := Option.ite_none_right_eq_some.1 hstep
    obtain rfl := Option.some.inj hs
    exact h.boot hbootstrap hnot

/-- Every order of the steps. -/
theorem started_of_run {actions : List Action}
    (hrun : Transition.run (step t present bootstrap) (start coreStacks) actions = some s) :
    Started t present bootstrap coreStacks s :=
  Transition.invariant (fun _ _ _ => Started.step) Started.start hrun

/-! ## The processors of the MADT -/

variable {m : ByteMemory} {madt : Nat} {records : List Nat}

/-- The identifications in the enabled records. -/
def enabledIds (m : ByteMemory) (records : List Nat) : List Nat :=
  (records.filter fun entry =>
    entryType m entry = .localApic ∧ flagsEnabled m entry = true).map (apicId m)

theorem processors_eq (m : ByteMemory) (records : List Nat) :
    (records.filter (IsProcessor m ·)).map (apicId m) =
      (enabledIds m records).filter (· ≠ INVALID_ID) := by
  rw [enabledIds, List.filter_map, List.filter_filter]
  congr 1
  refine List.filter_congr fun entry _ => ?_
  rw [Function.comp_apply, ← Bool.decide_and, decide_eq_decide]
  exact ⟨fun h => ⟨h.2.2, h.1, h.2.1⟩, fun h => ⟨h.2.1, h.2.2, h.1⟩⟩

/-- `Apic::Initialize` keeps the first valid ones, and it fails without any. -/
theorem localApicIds_eq (hwalk : Walks (· < tableEnd m madt) (next m) (madt + MADT_SIZE) records)
    (hinit : initializeTopology m madt = .ok (true, t)) :
    t.localApicIds = ((enabledIds m records).filter (· ≠ INVALID_ID)).take Config.MAX_CORES ∧
      t.localApicIds ≠ [] := by
  unfold initializeTopology at hinit
  split at hinit
  · exact nomatch hinit
  · next topology hloop =>
    obtain ⟨hsome, rfl⟩ := Prod.mk.inj (Except.ok.inj hinit)
    obtain ⟨visited, hvisited, -, hfold⟩ := loop_eq_some_iff.1 hloop
    obtain rfl := hwalk.unique hvisited
    rw [foldl_readEntry] at hfold
    constructor
    · rw [← hfold, ← processors_eq]
      rfl
    · exact List.length_pos_iff.1 (of_decide_eq_true hsome)

/-- The processors of a MADT, and those that the kernel knows of. -/
structure Described (t : Topology) (present : List Nat) : Prop where
  ids : t.localApicIds = (present.filter (· ≠ INVALID_ID)).take Config.MAX_CORES
  some : t.localApicIds ≠ []
  nodup : present.Nodup

theorem Described.subset (h : Described t present) : t.localApicIds ⊆ present := by
  intro lapicId hmem
  rw [h.ids] at hmem
  exact List.mem_of_mem_filter (List.mem_of_mem_take hmem)

theorem Described.wellFormed (h : Described t present) : WellFormed t where
  nodup := h.ids ▸ (h.nodup.filter _).take
  valid := by
    intro hmem
    rw [h.ids] at hmem
    have hvalid := List.of_mem_filter (List.mem_of_mem_take hmem)
    exact absurd rfl (of_decide_eq_true hvalid)
  length := h.ids ▸ List.length_take_le _ _

/-- The kernel knows of every processor. -/
def AllKnown (present : List Nat) : Prop :=
  present.length ≤ Config.MAX_CORES ∧ INVALID_ID ∉ present

theorem Described.known_iff (h : Described t present) :
    AllKnown present ↔ present ⊆ t.localApicIds := by
  constructor
  · rintro ⟨hlength, hvalid⟩
    have hall : present.filter (· ≠ INVALID_ID) = present :=
      List.filter_eq_self.2 fun lapicId hmem => decide_eq_true fun heq => hvalid (heq ▸ hmem)
    rw [h.ids, hall, List.take_of_length_le hlength]
    exact List.Subset.refl _
  · intro hsubset
    refine ⟨?_, fun hmem => h.wellFormed.valid (hsubset hmem)⟩
    exact Nat.le_trans (h.nodup.subperm hsubset).length_le h.wellFormed.length

/-! ## The numbers and the stacks -/

/-- The linker puts `s_CoreStacks` into the last two GiB. -/
def Linked (coreStacks : BitVec 32) : Prop :=
  KERNEL_VMA_LOW.toNat ≤ coreStacks.toNat ∧
    coreStacks.toNat + Config.MAX_CORES * BOOT_STACK_SIZE ≤ 2 ^ 32

/-- The physical address of `s_CoreStacks`. -/
def physical (coreStacks : BitVec 32) : Nat := coreStacks.toNat - KERNEL_VMA_LOW.toNat

/-- Every processor that is up has a number of its own, which is an index of the
arrays with an element for each core, and every boot stack lies in
`s_CoreStacks` and apart from the others. -/
structure Identity (coreStacks : BitVec 32) (s : Machine) : Prop where
  injective : ∀ x ∈ s.online, ∀ y ∈ s.online, s.getId x = s.getId y → x = y
  below : ∀ x ∈ s.online, s.getId x < s.table.coreCount
  limit : s.table.coreCount ≤ Config.MAX_CORES
  inside : ∀ claim ∈ s.claims, physical coreStacks + BOOT_STACK_SIZE ≤ claim.2.toNat ∧
    claim.2.toNat ≤ physical coreStacks + Config.MAX_CORES * BOOT_STACK_SIZE
  disjoint : ∀ a ∈ s.claims, ∀ b ∈ s.claims, a.1 ≠ b.1 →
    a.2.toNat + BOOT_STACK_SIZE ≤ b.2.toNat ∨ b.2.toNat + BOOT_STACK_SIZE ≤ a.2.toNat

/-- All processors that are started are up. -/
structure Up (present : List Nat) (s : Machine) : Prop where
  booted : s.booted = true
  online : s.broadcast = true → present ⊆ s.online

theorem stackTop_toNat (h : Linked coreStacks) {before : Nat} (hlt : before < Config.MAX_CORES) :
    (stackTop coreStacks before).toNat = physical coreStacks + (before + 1) * BOOT_STACK_SIZE := by
  obtain ⟨hlow, hhigh⟩ := h
  unfold stackTop physical
  rw [BitVec.toNat_sub, BitVec.toNat_add, BitVec.toNat_ofNat]
  have hvma : KERNEL_VMA_LOW.toNat = 2 ^ 31 := rfl
  rw [hvma] at hlow ⊢
  unfold BOOT_STACK_SIZE KIB Config.MAX_CORES at *
  omega

section Known

variable (h : Started t present bootstrap coreStacks s) (hknown : Described t present)

include h hknown

theorem Started.getId_of_mem (hsome : s.online ≠ []) (hmem : lapicId ∈ t.localApicIds) :
    s.getId lapicId = t.localApicIds.idxOf lapicId := by
  rw [Machine.getId, (h.built hsome).1, initializeTable_eq hknown.wellFormed,
    tableOf_of_mem hknown.wellFormed hmem]

/-- The table has zero for a processor that the kernel does not know of. -/
theorem Started.getId_of_not_mem (hsome : s.online ≠ []) (hmem : lapicId ∉ t.localApicIds) :
    s.getId lapicId = 0 := by
  rw [Machine.getId, (h.built hsome).1, initializeTable_eq hknown.wellFormed,
    tableOf_of_not_mem hmem]

theorem Started.coreCount (hsome : s.online ≠ []) : s.table.coreCount = t.localApicIds.length := by
  rw [(h.built hsome).1, initializeTable_eq hknown.wellFormed, tableOf_count hknown.wellFormed]

theorem Started.getId_lt (hsome : s.online ≠ []) (lapicId : Nat) :
    s.getId lapicId < s.table.coreCount := by
  rw [h.coreCount hknown hsome]
  by_cases hmem : lapicId ∈ t.localApicIds
  · rw [h.getId_of_mem hknown hsome hmem]
    exact List.idxOf_lt_length_iff.2 hmem
  · rw [h.getId_of_not_mem hknown hsome hmem]
    exact List.length_pos_iff.2 hknown.some

theorem Started.limit : s.table.coreCount ≤ Config.MAX_CORES := by
  by_cases hnone : s.online = []
  · rw [(h.first hnone).1]
    exact Nat.zero_le _
  · rw [h.coreCount hknown hnone]
    exact hknown.wellFormed.length

/-- The first processor of the table also has number zero. -/
theorem Started.subset_of_injective (hsome : s.online ≠ []) (hall : present ⊆ s.online)
    (hinjective : ∀ x ∈ s.online, ∀ y ∈ s.online, s.getId x = s.getId y → x = y) :
    present ⊆ t.localApicIds := by
  intro lapicId hmem
  by_contra hunknown
  have hpos := List.length_pos_iff.2 hknown.some
  have hfirst : t.localApicIds[0] ∈ t.localApicIds := List.getElem_mem hpos
  have hzero : s.getId t.localApicIds[0] = 0 := by
    rw [h.getId_of_mem hknown hsome hfirst, hknown.wellFormed.nodup.idxOf_getElem]
  have heq := hinjective lapicId (hall hmem) _ (hall (hknown.subset hfirst))
    ((h.getId_of_not_mem hknown hsome hunknown).trans hzero.symm)
  exact hunknown (heq ▸ hfirst)

theorem Started.injective_of_subset (hsubset : s.online ⊆ t.localApicIds) :
    ∀ x ∈ s.online, ∀ y ∈ s.online, s.getId x = s.getId y → x = y := by
  intro x hx y hy heq
  have hsome : s.online ≠ [] := List.ne_nil_of_mem hx
  rw [h.getId_of_mem hknown hsome (hsubset hx), h.getId_of_mem hknown hsome (hsubset hy)] at heq
  exact (List.idxOf_inj (hsubset hx)).1 heq

end Known

/-- No more processors than there are stacks: each one has its own. -/
theorem Started.inside_disjoint (h : Started t present bootstrap coreStacks s)
    (hlinked : Linked coreStacks) (hlength : s.claims.length ≤ Config.MAX_CORES) :
    (∀ claim ∈ s.claims, physical coreStacks + BOOT_STACK_SIZE ≤ claim.2.toNat ∧
      claim.2.toNat ≤ physical coreStacks + Config.MAX_CORES * BOOT_STACK_SIZE) ∧
    ∀ a ∈ s.claims, ∀ b ∈ s.claims, a.1 ≠ b.1 →
      a.2.toNat + BOOT_STACK_SIZE ≤ b.2.toNat ∨ b.2.toNat + BOOT_STACK_SIZE ≤ a.2.toNat := by
  have htop : ∀ claim ∈ s.claims, ∃ i, ∃ hi : i < s.claims.length, s.claims[i] = claim ∧
      claim.2.toNat = physical coreStacks + (i + 1) * BOOT_STACK_SIZE := by
    intro claim hmem
    obtain ⟨i, hi, rfl⟩ := List.getElem_of_mem hmem
    refine ⟨i, hi, rfl, ?_⟩
    rw [h.tops i hi, stackTop_toNat hlinked (by omega)]
  constructor
  · intro claim hmem
    obtain ⟨i, hi, -, hclaim⟩ := htop claim hmem
    rw [hclaim]
    unfold BOOT_STACK_SIZE KIB Config.MAX_CORES at *
    omega
  · intro a ha b hb hne
    obtain ⟨i, hi, hai, hatop⟩ := htop a ha
    obtain ⟨j, hj, hbj, hbtop⟩ := htop b hb
    have hij : i ≠ j := by
      rintro rfl
      exact hne (by rw [← hai, ← hbj])
    unfold BOOT_STACK_SIZE KIB at *
    omega

/-- With one known processor nothing is started, and only the bootstrap processor
is there. -/
theorem Started.alone (h : Started t present bootstrap coreStacks s) (hknown : Described t present)
    (hone : t.localApicIds.length ≤ 1) : ∀ lapicId ∈ s.claimed, lapicId = bootstrap := by
  intro lapicId hmem
  rcases h.released lapicId hmem with heq | ⟨hbroadcast, -⟩
  · exact heq
  · have hbooted : s.booted = true := by
      by_contra hnot
      exact absurd (hbroadcast.symm.trans (h.waits (Bool.eq_false_iff.2 hnot))) nofun
    have hsome : s.online ≠ [] := fun hnone => absurd (hbooted.symm.trans (h.first hnone).2) nofun
    have hcount := (h.counted hbooted).1 hbroadcast
    rw [h.coreCount hknown hsome] at hcount
    exact absurd hcount (Nat.not_lt_of_le hone)

theorem Started.identity_of_alone (h : Started t present bootstrap coreStacks s)
    (hknown : Described t present) (hlinked : Linked coreStacks)
    (hone : t.localApicIds.length ≤ 1) : Identity coreStacks s := by
  have halone := h.alone hknown hone
  have hlength : s.claimed.length ≤ [bootstrap].length :=
    (h.nodup.subperm fun lapicId hmem => List.mem_singleton.2 (halone lapicId hmem)).length_le
  rw [Machine.claimed, List.length_map] at hlength
  obtain ⟨hinside, hdisjoint⟩ := h.inside_disjoint hlinked
    (Nat.le_trans hlength (show 1 ≤ Config.MAX_CORES by decide))
  refine ⟨fun x hx y hy _ => ?_, fun x hx => ?_, h.limit hknown, hinside, hdisjoint⟩
  · rw [halone x (h.online hx), halone y (h.online hy)]
  · exact h.getId_lt hknown (List.ne_nil_of_mem hx) x

theorem Started.identity_of_known (h : Started t present bootstrap coreStacks s)
    (hknown : Described t present) (hlinked : Linked coreStacks) (hbootstrap : bootstrap ∈ present)
    (hall : AllKnown present) : Identity coreStacks s := by
  have hclaimed : s.claimed ⊆ present := by
    intro lapicId hmem
    rcases h.released lapicId hmem with rfl | ⟨-, hpresent⟩
    · exact hbootstrap
    · exact hpresent
  have hlength := (h.nodup.subperm hclaimed).length_le
  rw [Machine.claimed, List.length_map] at hlength
  obtain ⟨hinside, hdisjoint⟩ := h.inside_disjoint hlinked (Nat.le_trans hlength hall.1)
  have honline : s.online ⊆ t.localApicIds :=
    fun x hx => hknown.known_iff.1 hall (hclaimed (h.online hx))
  exact ⟨h.injective_of_subset hknown honline,
    fun x hx => h.getId_lt hknown (List.ne_nil_of_mem hx) x, h.limit hknown, hinside, hdisjoint⟩

/-- For every MADT and every order of the steps, the processors have numbers and
boot stacks of their own exactly when the kernel knows of at most one of them,
or of all of them. -/
theorem core_identity_iff {actions : List Action}
    (hwalk : Walks (· < tableEnd m madt) (next m) (madt + MADT_SIZE) records)
    (hinit : initializeTopology m madt = .ok (true, t))
    (hdistinct : (enabledIds m records).Nodup) (hbootstrap : bootstrap ∈ enabledIds m records)
    (hlinked : Linked coreStacks)
    (hrun : Transition.run (step t (enabledIds m records) bootstrap) (start coreStacks) actions =
      some s)
    (hup : Up (enabledIds m records) s) :
    Identity coreStacks s ↔
      ((enabledIds m records).filter (· ≠ INVALID_ID)).length ≤ 1 ∨
        AllKnown (enabledIds m records) := by
  obtain ⟨hids, hsome⟩ := localApicIds_eq hwalk hinit
  have hknown : Described t (enabledIds m records) := ⟨hids, hsome, hdistinct⟩
  have h := started_of_run hrun
  have hone : ((enabledIds m records).filter (· ≠ INVALID_ID)).length ≤ 1 ↔
      t.localApicIds.length ≤ 1 := by
    rw [hids, List.length_take]
    unfold Config.MAX_CORES
    omega
  rw [hone]
  constructor
  · intro hidentity
    by_cases hfew : t.localApicIds.length ≤ 1
    · exact .inl hfew
    · -- more than one is known, so the broadcast has started all of them
      have honline : s.online ≠ [] :=
        fun hnone => absurd (hup.booted.symm.trans (h.first hnone).2) nofun
      have hbroadcast : s.broadcast = true := by
        rw [h.counted hup.booted, h.coreCount hknown honline]
        omega
      exact .inr (hknown.known_iff.2
        (h.subset_of_injective hknown honline (hup.online hbroadcast) hidentity.injective))
  · rintro (hfew | hall)
    · exact h.identity_of_alone hknown hlinked hfew
    · exact h.identity_of_known hknown hlinked hbootstrap hall

/-! ## Machines with processors in order -/

/-- A MADT at `0x1000` with this number of processors, which have the
identifications `0`, `1` and so on. -/
def processorMadt (n : Nat) : ByteMemory := fun a =>
  if a < 0x102C then if a = 0x1004 then BitVec.ofNat 8 (44 + 8 * n) else 0
  else [0, 8, 0, BitVec.ofNat 8 ((a - 0x102C) / 8), 1, 0, 0, 0].getD ((a - 0x102C) % 8) 0

/-- The bootstrap processor comes up and starts the others, and each of them
takes its stack and gets its number before the next one does. -/
def oneByOne (n : Nat) : List Action :=
  [.claimStack 0, .initializeCore 0, .boot] ++
    ((List.range n).map (· + 1)).flatMap fun lapicId =>
      [.claimStack lapicId, .initializeCore lapicId]

/-- The records of such a table. -/
def processorRecords (n : Nat) : List Nat := (List.range n).map (0x102C + 8 * ·)

/-- The topology of such a table. -/
def processorTopology (n : Nat) : Topology :=
  described (processorMadt n) 0x1000 (processorRecords n)

section Processors

variable {n : Nat}

/-- What has to be checked of a number of processors. -/
structure Checked (n : Nat) : Prop where
  walks : Walks (· < tableEnd (processorMadt n) 0x1000) (next (processorMadt n))
    (0x1000 + MADT_SIZE) (processorRecords n)
  ids : enabledIds (processorMadt n) (processorRecords n) = List.range n
  init : initializeTopology (processorMadt n) 0x1000 = .ok (true, processorTopology n)

theorem checked (hwalk : loop (· < tableEnd (processorMadt n) 0x1000) (next (processorMadt n))
      (fun visited b => visited ++ [b]) [] (0x1000 + MADT_SIZE) (n + 1) = some (processorRecords n))
    (hids : enabledIds (processorMadt n) (processorRecords n) = List.range n)
    (hlength : (processorRecords n).length ≤ tableLength (processorMadt n) 0x1000)
    (hsome : 0 < (processorTopology n).localApicIds.length) : Checked n := by
  refine ⟨walks_of_loop hwalk, hids, ?_⟩
  rw [initializeTopology_of_walks (walks_of_loop hwalk) hlength]
  exact congrArg (fun found => Except.ok (found, processorTopology n)) (decide_eq_true hsome)

end Processors

/-- Four processors come up, and each has a number and a stack of its own. -/
theorem core_identity_iff_four : ∃ s,
    Transition.run
      (step (processorTopology 4) (enabledIds (processorMadt 4) (processorRecords 4)) 0)
      (start 0x80200000) (oneByOne 3) = some s ∧ Identity 0x80200000 s := by
  have h : Checked 4 :=
    checked (by decide +kernel) (by decide +kernel) (by decide +kernel) (by decide +kernel)
  have hup : (Transition.run
      (step (processorTopology 4) (enabledIds (processorMadt 4) (processorRecords 4)) 0)
      (start 0x80200000) (oneByOne 3)).any (fun s => decide (s.booted = true ∧
        enabledIds (processorMadt 4) (processorRecords 4) ⊆ s.online)) = true := by
    decide +kernel
  obtain ⟨s, hrun, hs⟩ := (Option.any_eq_true _ _).1 hup
  obtain ⟨hbooted, honline⟩ := of_decide_eq_true hs
  refine ⟨s, hrun, (core_identity_iff h.walks h.init ?_ ?_ ?_ hrun ⟨hbooted, fun _ => honline⟩).2
    (.inr ?_)⟩
  · rw [h.ids]
    exact List.nodup_range
  · rw [h.ids]
    decide
  · exact ⟨by decide, by decide⟩
  · rw [h.ids]
    exact ⟨by decide, by decide⟩

/-- Nine processors come up.  The last one has the number of the first one, and
its boot stack lies behind `s_CoreStacks`. -/
theorem nine_processors_collide : ∃ s,
    Walks (· < tableEnd (processorMadt 9) 0x1000) (next (processorMadt 9)) (0x1000 + MADT_SIZE)
      (processorRecords 9) ∧
    enabledIds (processorMadt 9) (processorRecords 9) = List.range 9 ∧
    initializeTopology (processorMadt 9) 0x1000 = .ok (true, processorTopology 9) ∧
    Transition.run (step (processorTopology 9) (List.range 9) 0) (start 0x80200000) (oneByOne 8) =
      some s ∧
    (0 ∈ s.online ∧ 8 ∈ s.online ∧ s.getId 8 = s.getId 0) ∧
    ∃ claim ∈ s.claims, claim.1 = 8 ∧
      physical 0x80200000 + Config.MAX_CORES * BOOT_STACK_SIZE < claim.2.toNat := by
  have h : Checked 9 :=
    checked (by decide +kernel) (by decide +kernel) (by decide +kernel) (by decide +kernel)
  have hup : (Transition.run (step (processorTopology 9) (List.range 9) 0) (start 0x80200000)
      (oneByOne 8)).any (fun s => decide ((0 ∈ s.online ∧ 8 ∈ s.online ∧ s.getId 8 = s.getId 0) ∧
        ∃ claim ∈ s.claims, claim.1 = 8 ∧
          physical 0x80200000 + Config.MAX_CORES * BOOT_STACK_SIZE < claim.2.toNat)) = true := by
    decide +kernel
  obtain ⟨s, hrun, hs⟩ := (Option.any_eq_true _ _).1 hup
  exact ⟨s, h.walks, h.ids, h.init, hrun, of_decide_eq_true hs⟩

end X64HK.SmpBoot
