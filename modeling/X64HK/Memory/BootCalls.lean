import Mathlib.Algebra.GroupWithZero.Nat
import X64HK.Memory.Room

/-!
# The mappings of boot

`Paging::Initialize` is a fixed sequence of calls of `Map`: the first two MiB,
the registers of the interrupt controllers, the direct map of all available
memory and the image of the kernel.  `bootSteps` is that sequence, and
`initializeState_eq` says that `Initialize` performs it and nothing else.

A proof about the tables after boot only looks at the list.  An address is mapped
by the last call that touches it, and unmapped if there is none (`Booted`).

* `booted_of_ok`: the tables are so when boot gets through.
* `initializeState_room`: it does when there are enough frames for the tables.
* `Linked.kind` says what the calls are on a machine where the linker and the
  firmware put things where they belong, and `Linked.admissible` that callers may
  make them.
* `StackArea` are the addresses between the direct map and the kernel.
  `effective_boot_eq_zero` says that boot maps nothing there.
* `bootKernel_room`: boot as a whole gets through on a machine with room.
  `roomyHandover` is such a machine.  It has 20 MiB of memory above the first one, a
  small kernel at its start and nothing else.
-/

namespace X64HK.Paging

open Multiboot
open X64HK.Frame (SIZE Run Spare availableRegions)

variable {boot : Handover} {memory : ByteMemory} {call : MapCall}

/-- A call of `Map` during boot, and the end of the memory that becomes
reachable with it. -/
structure BootStep where
  call : MapCall
  ramEnd : Nat
  deriving DecidableEq, Repr

/-- Perform the call, or panic. -/
def BootStep.run (s : State) (step : BootStep) : Outcome State := do
  let s ← mapOrPanic s step.call
  return { s with mappedRamEnd := max s.mappedRamEnd step.ramEnd }

def identityCall (start stop : Nat) (access : Access) (caching : Caching) : MapCall where
  virtual := BitVec.ofNat 64 start
  physical := BitVec.ofNat 64 start
  size := BitVec.ofNat 64 (sub64 stop start)
  access := access
  privilege := .kernel
  caching := caching

/-- The calls of `MapIdentity`. -/
def identitySteps (start stop : Nat) (access : Access) (caching : Caching) : List BootStep :=
  if stop ≤ start then [] else [⟨identityCall start stop access caching, 0⟩]

def directCall (region : MemoryRegion) : MapCall where
  virtual := BitVec.ofNat 64 (toVirtual region.address)
  physical := BitVec.ofNat 64 region.address
  size := BitVec.ofNat 64 region.length
  access := .readWrite
  privilege := .kernel
  caching := .normal

def spanCall (span : Range) (access : Access) : MapCall where
  virtual := BitVec.ofNat 64 span.start
  physical := BitVec.ofNat 64 (sub64 span.start Config.KERNEL_VMA)
  size := BitVec.ofNat 64 (sub64 span.stop span.start)
  access := access
  privilege := .kernel
  caching := .normal

/-- The calls of `MapKernelSpan`. -/
def spanSteps (span : Range) (access : Access) : List BootStep :=
  if span.stop ≤ span.start then [] else [⟨spanCall span access, 0⟩]

/-- The calls of `MapDeviceRegisters`. -/
def deviceSteps (boot : Handover) : List BootStep :=
  identitySteps boot.localApicAddress (wrap64 (boot.localApicAddress + PAGE_SIZE)) .readWrite
      .disabled ++
    if boot.ioApicAddress ≠ 0 then
      identitySteps boot.ioApicAddress (wrap64 (boot.ioApicAddress + PAGE_SIZE)) .readWrite
        .disabled
    else []

/-- The calls of `MapDirectMap`. -/
def directSteps (boot : Handover) : List BootStep :=
  (availableRegions boot).map fun region => ⟨directCall region, region.stop⟩

/-- The calls of `MapKernelImage`. -/
def imageSteps (boot : Handover) : List BootStep :=
  identitySteps boot.bootSpan.start boot.bootSpan.stop .readExecute .normal ++
    (spanSteps boot.textSpan .readExecute ++
      (spanSteps boot.rodataSpan .readOnly ++ spanSteps boot.dataSpan .readWrite))

/-- The calls of `Map` that `Paging::Initialize` makes. -/
def bootSteps (boot : Handover) : List BootStep :=
  identitySteps 0 LOW_MEMORY_END .readWrite .normal ++
    (deviceSteps boot ++ (directSteps boot ++ imageSteps boot))

/-! ## `Initialize` performs them -/

theorem run_of_no_ram (s : State) (call : MapCall) :
    BootStep.run s ⟨call, 0⟩ = mapOrPanic s call := by
  unfold BootStep.run
  simp only [Nat.max_zero]
  exact bind_pure _

theorem mapIdentity_eq (s : State) (start stop : Nat) (access : Access) (caching : Caching) :
    mapIdentity s start stop access caching =
      (identitySteps start stop access caching).foldlM BootStep.run s := by
  unfold mapIdentity identitySteps
  split
  · rfl
  · rw [List.foldlM_cons, run_of_no_ram]
    exact (bind_pure _).symm

theorem mapKernelSpan_eq (s : State) (span : Range) (access : Access) :
    mapKernelSpan s span access = (spanSteps span access).foldlM BootStep.run s := by
  unfold mapKernelSpan spanSteps
  split
  · rfl
  · rw [List.foldlM_cons, run_of_no_ram]
    exact (bind_pure _).symm

theorem mapDeviceRegisters_eq (boot : Handover) (s : State) :
    mapDeviceRegisters boot s = (deviceSteps boot).foldlM BootStep.run s := by
  unfold mapDeviceRegisters deviceSteps
  rw [List.foldlM_append, ← mapIdentity_eq]
  refine bind_congr fun s => ?_
  split
  · exact mapIdentity_eq ..
  · rfl

theorem mapDirectMap_eq (boot : Handover) (s : State) :
    mapDirectMap boot s = (directSteps boot).foldlM BootStep.run s := by
  unfold mapDirectMap directSteps
  rw [List.foldlM_map]
  rfl

theorem mapKernelImage_eq (boot : Handover) (s : State) :
    mapKernelImage boot s = (imageSteps boot).foldlM BootStep.run s := by
  unfold mapKernelImage imageSteps
  simp only [List.foldlM_append, ← mapIdentity_eq, ← mapKernelSpan_eq]

theorem initializeState_eq (boot : Handover) (memory : ByteMemory) (frames : Frame.State) :
    initializeState boot memory frames = (do
      let s ← createRoot boot memory frames
      let s ← (bootSteps boot).foldlM BootStep.run s
      assert "s_Root < 4 * GIB" (s.root < 4 * GIB)
      return { s with frames := Frame.setReachableLimit s.frames s.mappedRamEnd }) := by
  unfold initializeState bootSteps
  simp only [List.foldlM_append, ← mapIdentity_eq, ← mapDeviceRegisters_eq, ← mapDirectMap_eq,
    ← mapKernelImage_eq, bind_assoc]

variable {step : BootStep}

/-- A step that got through is a call of `Map` that answered `true`. -/
theorem BootStep.run_eq_ok {s s' : State} (h : step.run s = .ok s') :
    ∃ s₁, map s step.call = .ok (true, s₁) ∧
      s' = { s₁ with mappedRamEnd := max s₁.mappedRamEnd step.ramEnd } := by
  obtain ⟨s₁, hcall, hret⟩ := (bind_ok_iff _ _ _).1 h
  obtain ⟨⟨mapped, s₂⟩, hmap, hmapped⟩ := (bind_ok_iff _ _ _).1 hcall
  cases mapped with
  | false => exact absurd hmapped nofun
  | true =>
    obtain rfl := Except.ok.inj hmapped
    exact ⟨s₂, hmap, (Except.ok.inj hret).symm⟩

/-! ## What they leave behind -/

variable {s₀ : Frame.State} {s s' : State} {t : Tree} {tables others : List Run}
  {c limit : Nat} {steps : List BootStep} {v : BitVec 64}

/-- The end of the memory that the steps make reachable. -/
def ramEnd (steps : List BootStep) (stop : Nat) : Nat :=
  steps.foldl (fun stop step => max stop step.ramEnd) stop

/-- The last call that touches an address. -/
def lastTouching (steps : List BootStep) (v : BitVec 64) : Option BootStep :=
  (steps.filter fun step => step.call.Touches v).getLast?

theorem lastTouching_cons (step : BootStep) (steps : List BootStep) (v : BitVec 64) :
    lastTouching (step :: steps) v =
      (lastTouching steps v).or (if step.call.Touches v then some step else none) := by
  unfold lastTouching
  by_cases htouch : step.call.Touches v
  · rw [List.filter_cons_of_pos (by simpa using htouch), if_pos htouch, List.getLast?_cons]
    cases (steps.filter fun step => step.call.Touches v).getLast? <;> rfl
  · rw [List.filter_cons_of_neg (by simpa using htouch), if_neg htouch, Option.or_none]

theorem lastTouching_eq_some (h : lastTouching steps v = some step) :
    step ∈ steps ∧ step.call.Touches v := by
  have hmem := List.mem_filter.1 (List.mem_of_getLast? h)
  exact ⟨hmem.1, of_decide_eq_true hmem.2⟩

theorem lastTouching_eq_none :
    lastTouching steps v = none ↔ ∀ step ∈ steps, ¬step.call.Touches v := by
  unfold lastTouching
  rw [List.getLast?_eq_none_iff, List.filter_eq_nil_iff]
  simp only [decide_eq_true_eq]

/-- What a list of calls of `Map` leaves behind. -/
structure Performed (steps : List BootStep) (s s' : State) : Prop where
  root : s'.root = s.root
  noExecute : s'.noExecuteAvailable = s.noExecuteAvailable
  mappedRamEnd : s'.mappedRamEnd = ramEnd steps s.mappedRamEnd
  requested : ∀ v, Canonical v → ∀ step, lastTouching steps v = some step → Requested s' step.call v
  effective_eq : ∀ v, Canonical v → lastTouching steps v = none → effective s' v = effective s v

theorem Performed.nil (s : State) : Performed [] s s :=
  ⟨rfl, rfl, rfl, fun _ _ _ => nofun, fun _ _ _ => rfl⟩

theorem Performed.cons {s₁ : State} (h : Served s step.call s₁)
    (hrest : Performed steps { s₁ with mappedRamEnd := max s₁.mappedRamEnd step.ramEnd } s') :
    Performed (step :: steps) s s' := by
  have hsetup := h.setup
  refine ⟨hrest.root.trans hsetup.root, hrest.noExecute.trans hsetup.noExecuteAvailable, ?_, ?_, ?_⟩
  · rw [hrest.mappedRamEnd, ramEnd, ramEnd, List.foldl_cons, hsetup.mappedRamEnd]
  · intro v hv last hlast
    rw [lastTouching_cons] at hlast
    cases hlater : lastTouching steps v with
    | some later =>
      rw [hlater, Option.some_or, Option.some.injEq] at hlast
      exact hlast ▸ hrest.requested v hv later hlater
    | none =>
      rw [hlater, Option.none_or, Option.ite_none_right_eq_some, Option.some.injEq] at hlast
      obtain ⟨htouch, rfl⟩ := hlast
      exact (h.requested v hv htouch).congr hrest.noExecute (hrest.effective_eq v hv hlater)
  · intro v hv hnone
    rw [lastTouching_cons, Option.or_eq_none_iff, ite_eq_right_iff] at hnone
    have hquiet : ¬step.call.Touches v := fun htouch => nomatch hnone.2 htouch
    exact (hrest.effective_eq v hv hnone.1).trans (h.effective_eq v hv hquiet)

/-- The end of mapped memory is not part of the tables. -/
theorem Owned.setMappedRamEnd (h : Owned s₀ s t tables others) (stop : Nat) :
    Owned s₀ { s with mappedRamEnd := stop } t tables others :=
  ⟨h.rep, h.tracks, h.held⟩

/-- Steps that got through. -/
theorem Owned.performed (hs₀ : Addressable s₀) :
    ∀ {steps : List BootStep} {s : State} {t : Tree} {tables : List Run},
      Owned s₀ s t tables others → (∀ step ∈ steps, step.call.Admissible) →
      steps.foldlM BootStep.run s = .ok s' →
      Performed steps s s' ∧ ∃ t' tables', Owned s₀ s' t' tables' others := by
  intro steps
  induction steps with
  | nil =>
    intro s t tables howned _ hrun
    obtain rfl := Except.ok.inj hrun
    exact ⟨.nil s, t, tables, howned⟩
  | cons step steps ih =>
    intro s t tables howned hcalls hrun
    rw [List.foldlM_cons] at hrun
    obtain ⟨s₂, hstep, hrest⟩ := (bind_ok_iff _ _ _).1 hrun
    obtain ⟨s₁, hmap, rfl⟩ := step.run_eq_ok hstep
    obtain ⟨hserved, t₁, tables₁, howned₁⟩ :=
      howned.served hs₀ (hcalls step List.mem_cons_self) hmap
    obtain ⟨hperformed, howned'⟩ := ih (howned₁.setMappedRamEnd _)
      (fun later hmem => hcalls later (List.mem_cons_of_mem _ hmem)) hrest
    exact ⟨.cons hserved hperformed, howned'⟩

/-- The tables after boot. -/
structure Booted (boot : Handover) (s : State) : Prop where
  noExecute : s.noExecuteAvailable = boot.noExecute
  reachable : s.frames.reachableFrames = min (ramEnd (bootSteps boot) 0 / SIZE) s.frames.frameCount
  requested : ∀ v, Canonical v → ∀ step, lastTouching (bootSteps boot) v = some step →
    Requested s step.call v
  bare : ∀ v, Canonical v → (∀ step ∈ bootSteps boot, ¬step.call.Touches v) → effective s v = 0

theorem createRoot_mappedRamEnd (h : createRoot boot memory s₀ = .ok s) : s.mappedRamEnd = 0 := by
  unfold createRoot allocateTable at h
  dsimp only at h
  split at h
  · exact absurd h nofun
  · obtain rfl := Except.ok.inj h
    rfl

theorem booted_of_ok (hwf : Frame.Wf s₀) (hs₀ : Addressable s₀)
    (hcalls : ∀ step ∈ bootSteps boot, step.call.Admissible)
    (hinit : initializeState boot memory s₀ = .ok s) :
    Booted boot s ∧ ∃ t tables, Owned s₀ s t tables [] := by
  rw [initializeState_eq] at hinit
  obtain ⟨s₁, hroot, hinit⟩ := (bind_ok_iff _ _ _).1 hinit
  obtain ⟨s₂, hsteps, hinit⟩ := (bind_ok_iff _ _ _).1 hinit
  obtain ⟨-, -, hret⟩ := (bind_ok_iff _ _ _).1 hinit
  obtain rfl := Except.ok.inj hret
  obtain ⟨t, tables, howned, hzero, hnx⟩ := createRoot_owned hwf hs₀ hroot
  have hempty : ∀ v, effective s₁ v = 0 := by
    intro v
    rw [howned.rep.effective, hzero]
    decide
  obtain ⟨hdone, t', tables', howned'⟩ := howned.performed hs₀ hcalls hsteps
  refine ⟨⟨hdone.noExecute.trans hnx, ?_, fun v hv step hlast =>
      (hdone.requested v hv step hlast).congr rfl rfl, fun v hv hquiet =>
      (hdone.effective_eq v hv (lastTouching_eq_none.2 hquiet)).trans (hempty v)⟩,
    t', tables', howned'.rep, howned'.tracks.setReachableLimit _, howned'.held⟩
  show min (s₂.mappedRamEnd / SIZE) s₂.frames.frameCount = _
  rw [hdone.mappedRamEnd, createRoot_mappedRamEnd hroot]
  rfl

/-! ## Boot with room to spare -/

/-- The frames that the tables of the calls can need. -/
def bootCost (steps : List BootStep) : Nat := (steps.map fun step => step.call.cost).sum

theorem HasRoom.bootSteps (hs₀ : Addressable s₀) :
    ∀ {steps : List BootStep} {s : State} {c : Nat}, HasRoom s₀ others s c limit →
      (∀ step ∈ steps, step.call.Admissible) → c + bootCost steps + 3 < limit →
      ∃ s' c', steps.foldlM BootStep.run s = .ok s' ∧ HasRoom s₀ others s' c' limit ∧
        c' ≤ c + bootCost steps ∧ s'.root = s.root := by
  intro steps
  induction steps with
  | nil =>
    intro s c h _ _
    exact ⟨s, c, rfl, h, Nat.le_add_right .., rfl⟩
  | cons step steps ih =>
    intro s c h hcalls hroom
    have hcost : bootCost (step :: steps) = step.call.cost + bootCost steps := rfl
    rw [hcost] at hroom
    obtain ⟨s₁, c₁, hmap, h₁, hmoved, hserved⟩ :=
      h.map hs₀ (hcalls step List.mem_cons_self) (by omega)
    have hle := hmoved.le_add
    have h₂ : HasRoom s₀ others { s₁ with mappedRamEnd := max s₁.mappedRamEnd step.ramEnd } c₁
        limit := by
      obtain ⟨⟨t, tables, howned⟩, hspare, hpos⟩ := h₁
      exact ⟨⟨t, tables, howned.setMappedRamEnd _⟩, hspare, hpos⟩
    obtain ⟨s', c', hrest, h', hle', hroot⟩ :=
      ih h₂ (fun later hmem => hcalls later (List.mem_cons_of_mem _ hmem)) (by omega)
    refine ⟨s', c', ?_, h', by omega, hroot.trans hserved.setup.root⟩
    rw [List.foldlM_cons]
    refine (bind_ok_iff _ _ _).2 ⟨_, ?_, hrest⟩
    exact (bind_ok_iff _ _ _).2 ⟨s₁, (bind_ok_iff _ _ _).2 ⟨_, hmap, rfl⟩, rfl⟩

theorem createRoot_room (hwf : Frame.Wf s₀) (hs₀ : Addressable s₀) (hspare : Spare s₀ c limit)
    (hpos : 0 < c) (hroom : c + 1 < limit) (memory : ByteMemory) :
    ∃ s, createRoot boot memory s₀ = .ok s ∧ HasRoom s₀ [] s (c + 1) limit ∧ s.root = c * SIZE := by
  obtain ⟨heq, hspare'⟩ := hspare.allocate Nat.one_pos hroom
  have hne : c * SIZE ≠ 0 := Nat.mul_ne_zero (Nat.ne_of_gt hpos) (by decide)
  obtain ⟨s, hs⟩ : ∃ s : State, s =
      { memory := memory.fill (c * SIZE) PAGE_SIZE 0
        frames := Frame.allocated s₀ c 1
        root := c * SIZE
        noExecuteAvailable := boot.noExecute
        tableCount := 1
        mappedRamEnd := 0 } := ⟨_, rfl⟩
  have hroot : createRoot boot memory s₀ = .ok s := by
    rw [hs]
    simp only [createRoot, allocateTable, heq, if_neg hne]
    rfl
  obtain ⟨t, tables, howned, -, -⟩ := createRoot_owned hwf hs₀ hroot
  refine ⟨s, hroot, ⟨⟨t, tables, howned⟩, ?_, Nat.succ_pos c⟩, ?_⟩
  · rw [hs]
    exact hspare'
  · rw [hs]

/-- `Paging::Initialize` gets through on a machine with frames for all tables. -/
theorem initializeState_room (hwf : Frame.Wf s₀) (hs₀ : Addressable s₀)
    (hspare : Spare s₀ c limit) (hpos : 0 < c) (hlow : c * SIZE < 4 * GIB)
    (hcalls : ∀ step ∈ Paging.bootSteps boot, step.call.Admissible)
    (hroom : c + 1 + bootCost (Paging.bootSteps boot) + 3 < limit)
    (hend : limit ≤ ramEnd (Paging.bootSteps boot) 0 / SIZE) (memory : ByteMemory) :
    ∃ s c', initializeState boot memory s₀ = .ok s ∧ HasRoom s₀ [] s c' limit ∧
      c' ≤ c + 1 + bootCost (Paging.bootSteps boot) := by
  obtain ⟨s₁, hroot, h₁, hroot₁⟩ := createRoot_room hwf hs₀ hspare hpos (by omega) memory
  obtain ⟨s₂, c', hsteps, h₂, hle, hroot₂⟩ := h₁.bootSteps hs₀ hcalls hroom
  obtain ⟨s, hs⟩ : ∃ s, s =
      { s₂ with frames := Frame.setReachableLimit s₂.frames s₂.mappedRamEnd } := ⟨_, rfl⟩
  have hbelow : assert "s_Root < 4 * GIB" (s₂.root < 4 * GIB) = .ok () := by
    rw [assert_eq_ok, hroot₂, hroot₁]
    exact decide_eq_true hlow
  have hinit : initializeState boot memory s₀ = .ok s := by
    rw [initializeState_eq]
    exact (bind_ok_iff _ _ _).2 ⟨s₁, hroot, (bind_ok_iff _ _ _).2 ⟨s₂, hsteps,
      (bind_ok_iff _ _ _).2 ⟨(), hbelow, congrArg Except.ok hs.symm⟩⟩⟩
  obtain ⟨hbooted, t, tables, howned⟩ := booted_of_ok hwf hs₀ hcalls hinit
  refine ⟨s, c', hinit, ⟨⟨t, tables, howned⟩, ⟨howned.tracks.wf, ?_, ?_, ?_⟩, h₂.pos⟩, hle⟩
  · rw [hs]
    exact h₂.spare.next_le
  · rw [hbooted.reachable, howned.tracks.frameCount]
    exact Nat.le_min.2 ⟨hend, Nat.le_trans hspare.limit_le hwf.reachable_le⟩
  · rw [hs]
    exact h₂.spare.isTaken_iff

/-! ## What the calls are -/

/-- The linker script puts the kernel behind `KERNEL_VMA` and its boot code into
low memory, and the registers of the interrupt controllers have addresses of 32
bits in the MADT. -/
structure Linked (boot : Handover) : Prop where
  bootSpan : boot.bootSpan.stop ≤ 4 * GIB
  textSpan : Config.KERNEL_VMA ≤ boot.textSpan.start ∧ boot.textSpan.stop ≤ 2 ^ 64 - PAGE_SIZE
  rodataSpan : Config.KERNEL_VMA ≤ boot.rodataSpan.start ∧ boot.rodataSpan.stop ≤ 2 ^ 64 - PAGE_SIZE
  dataSpan : Config.KERNEL_VMA ≤ boot.dataSpan.start ∧ boot.dataSpan.stop ≤ 2 ^ 64 - PAGE_SIZE
  localApic : boot.localApicAddress < 2 ^ 32
  ioApic : boot.ioApicAddress < 2 ^ 32

/-- All available memory fits between the base of the direct map and the
stacks. -/
def RamFits (boot : Handover) : Prop :=
  ∀ region ∈ availableRegions boot, region.address + region.length ≤ 2 ^ 46

instance (boot : Handover) : Decidable (RamFits boot) := inferInstanceAs (Decidable (∀ _ ∈ _, _))

/-- The three kinds of steps. -/
inductive BootKind (boot : Handover) : BootStep → Prop where
  | identity {start stop : Nat} {access : Access} {caching : Caching} (hlt : start < stop)
      (hstop : stop ≤ 2 ^ 33) : BootKind boot ⟨identityCall start stop access caching, 0⟩
  | direct {region : MemoryRegion} (hregion : region ∈ availableRegions boot) :
      BootKind boot ⟨directCall region, region.stop⟩
  | span {span : Range} {access : Access} (hstart : Config.KERNEL_VMA ≤ span.start)
      (hlt : span.start < span.stop) (hstop : span.stop ≤ 2 ^ 64 - PAGE_SIZE) :
      BootKind boot ⟨spanCall span access, 0⟩

theorem kind_of_identitySteps {start stop : Nat} {access : Access} {caching : Caching}
    (h : step ∈ identitySteps start stop access caching) (hstop : stop ≤ 2 ^ 33) :
    BootKind boot step := by
  unfold identitySteps at h
  split at h
  · exact absurd h List.not_mem_nil
  · rename_i hlt
    obtain rfl := List.mem_singleton.1 h
    exact .identity (Nat.lt_of_not_le hlt) hstop

theorem kind_of_spanSteps {span : Range} {access : Access} (h : step ∈ spanSteps span access)
    (hspan : Config.KERNEL_VMA ≤ span.start ∧ span.stop ≤ 2 ^ 64 - PAGE_SIZE) :
    BootKind boot step := by
  unfold spanSteps at h
  split at h
  · exact absurd h List.not_mem_nil
  · rename_i hlt
    obtain rfl := List.mem_singleton.1 h
    exact .span hspan.1 (Nat.lt_of_not_le hlt) hspan.2

theorem Linked.kind (h : Linked boot) (hstep : step ∈ bootSteps boot) : BootKind boot step := by
  have hregisters : ∀ {a : Nat}, a < 2 ^ 32 → wrap64 (a + PAGE_SIZE) ≤ 2 ^ 33 := by
    intro a ha
    rw [show PAGE_SIZE = 4096 from rfl, wrap64_of_lt (by omega)]
    omega
  rcases List.mem_append.1 hstep with hlow | hstep
  · exact kind_of_identitySteps hlow (by decide)
  rcases List.mem_append.1 hstep with hdevice | hstep
  · rcases List.mem_append.1 hdevice with hlocal | hio
    · exact kind_of_identitySteps hlocal (hregisters h.localApic)
    · split at hio
      · exact kind_of_identitySteps hio (hregisters h.ioApic)
      · exact absurd hio List.not_mem_nil
  rcases List.mem_append.1 hstep with hdirect | hstep
  · obtain ⟨region, hregion, rfl⟩ := List.mem_map.1 hdirect
    exact .direct hregion
  rcases List.mem_append.1 hstep with hboot | hstep
  · exact kind_of_identitySteps hboot (Nat.le_trans h.bootSpan (by decide))
  rcases List.mem_append.1 hstep with htext | hstep
  · exact kind_of_spanSteps htext h.textSpan
  rcases List.mem_append.1 hstep with hrodata | hdata
  · exact kind_of_spanSteps hrodata h.rodataSpan
  · exact kind_of_spanSteps hdata h.dataSpan

/-- The bounds of a call, as numbers. -/
structure Spans (call : MapCall) (start length source : Nat) : Prop where
  virtual : call.virtual.toNat = start
  size : call.size.toNat = length
  physical : call.physical.toNat = source

theorem toNat_ofNat_of_lt {n : Nat} (h : n < 2 ^ 64) : (BitVec.ofNat 64 n).toNat = n := by
  rw [BitVec.toNat_ofNat]
  exact Nat.mod_eq_of_lt h

theorem spans_identity {start stop : Nat} (access : Access) (caching : Caching)
    (hlt : start < stop) (hstop : stop ≤ 2 ^ 33) :
    Spans (identityCall start stop access caching) start (stop - start) start := by
  refine ⟨toNat_ofNat_of_lt (by omega), ?_, toNat_ofNat_of_lt (by omega)⟩
  show (BitVec.ofNat 64 (sub64 stop start)).toNat = stop - start
  rw [sub64_of_le (by omega) (by omega)]
  exact toNat_ofNat_of_lt (by omega)

theorem spans_direct {region : MemoryRegion} (h : region.address + region.length ≤ 2 ^ 46) :
    Spans (directCall region) (Config.DIRECT_MAP_BASE + region.address) region.length
      region.address := by
  have hbase : Config.DIRECT_MAP_BASE = 2 ^ 64 - 2 ^ 47 := rfl
  refine ⟨?_, toNat_ofNat_of_lt (by omega), toNat_ofNat_of_lt (by omega)⟩
  show (BitVec.ofNat 64 (toVirtual region.address)).toNat = _
  rw [toVirtual, wrap64_of_lt (by omega), toNat_ofNat_of_lt (by omega), Nat.add_comm]

theorem spans_span {span : Range} (access : Access) (hstart : Config.KERNEL_VMA ≤ span.start)
    (hlt : span.start < span.stop) (hstop : span.stop ≤ 2 ^ 64 - PAGE_SIZE) :
    Spans (spanCall span access) span.start (span.stop - span.start)
      (span.start - Config.KERNEL_VMA) := by
  have hsize : PAGE_SIZE = 4096 := rfl
  refine ⟨toNat_ofNat_of_lt (by omega), ?_, ?_⟩
  · show (BitVec.ofNat 64 (sub64 span.stop span.start)).toNat = _
    rw [sub64_of_le (by omega) (by omega)]
    exact toNat_ofNat_of_lt (by omega)
  · show (BitVec.ofNat 64 (sub64 span.start Config.KERNEL_VMA)).toNat = _
    rw [sub64_of_le (by omega) hstart]
    exact toNat_ofNat_of_lt (by omega)

theorem Linked.admissible (h : Linked boot) (hram : RamFits boot)
    (hstep : step ∈ bootSteps boot) : step.call.Admissible := by
  have hsize : PAGE_SIZE = 4096 := rfl
  have hbase : Config.DIRECT_MAP_BASE = 2 ^ 64 - 2 ^ 47 := rfl
  have hvma : Config.KERNEL_VMA = 2 ^ 64 - 2 ^ 31 := rfl
  cases h.kind hstep with
  | @identity start stop access caching hlt hstop =>
    obtain ⟨hv, hs, hp⟩ := spans_identity access caching hlt hstop
    exact ⟨by rw [hp, hv], by rw [hp, hs]; omega, by rw [hv, hs]; omega,
      Or.inl (by rw [hv, hs]; omega)⟩
  | @direct region hregion =>
    have hfits := hram region hregion
    obtain ⟨hv, hs, hp⟩ := spans_direct hfits
    exact ⟨by rw [hp, hv, hsize, hbase]; omega, by rw [hp, hs]; omega, by rw [hv, hs]; omega,
      Or.inr (by rw [hv]; omega)⟩
  | @span span access hstart hlt hstop =>
    obtain ⟨hv, hs, hp⟩ := spans_span access hstart hlt hstop
    exact ⟨by rw [hp, hv, hsize]; omega, by rw [hp, hs]; omega, by rw [hv, hs]; omega,
      Or.inr (by rw [hv]; omega)⟩

/-! ## Addresses that boot leaves alone -/

/-- A range below a page boundary does not reach the pages above it. -/
theorem MapCall.not_touches_of_le {bound : Nat} (haligned : bound % PAGE_SIZE = 0)
    (hstop : call.virtual.toNat + call.size.toNat ≤ bound) (hv : bound ≤ v.toNat) :
    ¬call.Touches v := by
  rintro ⟨-, hlt⟩
  rw [show PAGE_SIZE = 4096 from rfl] at *
  omega

/-- Nor does a range above it reach those below. -/
theorem MapCall.not_touches_of_lt {bound : Nat} (haligned : bound % PAGE_SIZE = 0)
    (hstart : bound ≤ call.virtual.toNat) (hv : v.toNat < bound) : ¬call.Touches v := by
  rintro ⟨hle, -⟩
  rw [show PAGE_SIZE = 4096 from rfl] at *
  omega

/-- The addresses for kernel stacks. -/
def StackArea (v : BitVec 64) : Prop :=
  Config.KERNEL_STACK_BASE ≤ v.toNat ∧ v.toNat < Config.KERNEL_VMA

theorem StackArea.canonical (h : StackArea v) : Canonical v := by
  have hbase : Config.KERNEL_STACK_BASE = 2 ^ 64 - 2 ^ 46 := rfl
  have hlo := h.1
  exact Or.inr (by omega)

theorem StackArea.untouched (hv : StackArea v) (h : Linked boot) (hram : RamFits boot)
    (hstep : step ∈ bootSteps boot) : ¬step.call.Touches v := by
  have hbase : Config.DIRECT_MAP_BASE + 2 ^ 46 = Config.KERNEL_STACK_BASE := rfl
  have hlow : 2 ^ 33 ≤ Config.KERNEL_STACK_BASE := by decide
  obtain ⟨hlo, hhi⟩ := hv
  cases h.kind hstep with
  | @identity start stop access caching hlt hstop =>
    obtain ⟨hv, hs, -⟩ := spans_identity access caching hlt hstop
    exact MapCall.not_touches_of_le (by decide) (by rw [hv, hs]; omega) hlo
  | @direct region hregion =>
    have hfits := hram region hregion
    obtain ⟨hv, hs, -⟩ := spans_direct hfits
    exact MapCall.not_touches_of_le (by decide) (by rw [hv, hs]; omega) hlo
  | @span span access hstart hlt hstop =>
    obtain ⟨hv, -, -⟩ := spans_span access hstart hlt hstop
    exact MapCall.not_touches_of_lt (by decide) (by rw [hv]; exact hstart) hhi

/-- Boot maps no page of the area of the stacks. -/
theorem effective_boot_eq_zero (hwf : Frame.Wf s₀) (hs₀ : Addressable s₀) (h : Linked boot)
    (hram : RamFits boot) (hinit : initializeState boot memory s₀ = .ok s) (hv : StackArea v) :
    effective s v = 0 := by
  obtain ⟨hbooted, -⟩ := booted_of_ok hwf hs₀ (fun step => h.admissible hram) hinit
  exact hbooted.bare v hv.canonical fun step => hv.untouched h hram

end X64HK.Paging

namespace X64HK

open X64HK.Frame (SIZE Spare)
open Multiboot
open Paging

/-! ## All of boot -/

variable {boot : Handover} {memory : ByteMemory} {s₀ : Frame.State} {s : Paging.State}
  {k : Kernel} {call : MapCall} {c limit : Nat}

/-- The three parts of boot. -/
theorem bootKernel_eq_ok {bitmap : Nat} (hboot : bootKernel boot memory = .ok (k, bitmap)) :
    ∃ s₀ paging, Frame.initializeState boot = .ok (s₀, bitmap) ∧
      Paging.initializeState boot memory s₀ = .ok paging ∧
      Kernel.initializeHeap ⟨paging, Config.KERNEL_STACK_BASE, HK.USER_STACK_TOP, []⟩ = .ok k := by
  unfold bootKernel at hboot
  obtain ⟨⟨s₀, location⟩, hframes, hboot⟩ := (bind_ok_iff _ _ _).1 hboot
  obtain ⟨paging, hpaging, hboot⟩ := (bind_ok_iff _ _ _).1 hboot
  obtain ⟨k₁, hheap, hret⟩ := (bind_ok_iff _ _ _).1 hboot
  obtain ⟨rfl, rfl⟩ := Prod.mk.inj (Except.ok.inj hret)
  exact ⟨s₀, paging, hframes, hpaging, hheap⟩

/-- Boot gets through on a machine with frames for the tables and for the heap, which
leaves the tables as they are. -/
theorem bootKernel_room {bitmap : Nat} (hframes : Frame.initializeState boot = .ok (s₀, bitmap))
    (hs₀ : Addressable s₀) (hspare : Spare s₀ c limit) (hpos : 0 < c)
    (hlow : c * SIZE < 4 * GIB) (hcalls : ∀ step ∈ bootSteps boot, step.call.Admissible)
    (hroom : c + 1 + bootCost (bootSteps boot) + 4096 < limit)
    (hend : limit ≤ ramEnd (bootSteps boot) 0 / SIZE) (hlimit : limit ≤ 2 ^ 35)
    (memory : ByteMemory) :
    ∃ s k c', bootKernel boot memory = .ok (k, bitmap) ∧ Booted boot s ∧
      HasRoom s₀ k.runs k.paging c' limit ∧ c' ≤ c + 1 + bootCost (bootSteps boot) + 4096 ∧
      k.nextStackTop = HK.USER_STACK_TOP ∧ k.nextSlot = Config.KERNEL_STACK_BASE ∧
      k.paging.noExecuteAvailable = s.noExecuteAvailable ∧
      ∀ v, effective k.paging v = effective s v := by
  have hwf := (Frame.initialized_of_ok hframes).wf
  obtain ⟨s, c₁, hpaging, hroom₁, hle⟩ :=
    initializeState_room hwf hs₀ hspare hpos hlow hcalls (by omega) hend memory
  obtain ⟨hbooted, -⟩ := booted_of_ok hwf hs₀ hcalls hpaging
  have hstart : HasRoom s₀ (Kernel.runs ⟨s, Config.KERNEL_STACK_BASE, HK.USER_STACK_TOP, []⟩)
      s c₁ limit := hroom₁
  obtain ⟨k, hheap, hroom₂, hsame, htop, hslot, hnx⟩ :=
    hstart.initializeHeap hs₀ (by omega) hlimit
  refine ⟨s, k, c₁ + 4096, ?_, hbooted, hroom₂, by omega, htop, hslot, hnx, hsame⟩
  exact (bind_ok_iff _ _ _).2 ⟨_, hframes, (bind_ok_iff _ _ _).2 ⟨s, hpaging,
    (bind_ok_iff _ _ _).2 ⟨_, hheap, rfl⟩⟩⟩

def roomyHandover : Handover :=
  { Frame.smallHandover with memoryRegions := [⟨0x100000, 0x1400000, .available⟩] }

/-- The kernel and the bitmap end below frame 289, and the frames above it
are free. -/
theorem initializeState_roomy :
    ∃ s₀, Frame.initializeState roomyHandover = .ok (s₀, 0x120000) ∧ Spare s₀ 289 5376 := by
  have hcount : Frame.initialFrameCount roomyHandover = 5376 := by decide
  refine Frame.initializeState_spare (by decide +kernel) (by decide) (by decide) (by rw [hcount])
    (by decide) fun j hj => ?_
  have hregions : Frame.availableRegions roomyHandover =
      [⟨0x100000, 0x1400000, .available⟩] := by decide
  have hused : Frame.usedRanges roomyHandover 0x120000 =
      [⟨0, 0x100000⟩, ⟨0x100000, 0x120000⟩, ⟨0x120000, 0x1202A0⟩] := by decide
  rw [Frame.takenAtBoot, hcount, hregions, hused]
  simp only [List.any_cons, List.any_nil, Bool.or_false, Bool.or_eq_true,
    Bool.not_eq_true', decide_eq_true_eq, decide_eq_false_iff_not, Frame.Contains,
    Frame.Touches, MemoryRegion.stop, wrap64, show SIZE = 4096 from rfl]
  omega

/-- What the kernel sees at the address of video memory. -/
def videoAnswers : Paging.Answers := ⟨0xB8000, true, false, false, false⟩

/-- The identity map of the first two MiB. -/
def lowCall : MapCall := ⟨0, 0, 0x200000, .readWrite, .kernel, .normal⟩

theorem videoAnswers_of_requested (hv : Requested s lowCall 0xB8000)
    (hnx : s.noExecuteAvailable = true) : Paging.answers s 0xB8000 = videoAnswers := by
  have htranslate : translate s 0xB8000 = 0xB8000 := by
    have hnat := hv.translate
    exact BitVec.eq_of_toNat_eq (by simpa [lowCall] using hnat)
  have hexecutable := hv.isExecutable
  rw [hnx] at hexecutable
  rw [Paging.answers, htranslate, hv.isWritable, hexecutable, hv.isUserReadable, hv.isUserWritable]
  decide

theorem canonical_video : Canonical 0xB8000 := Or.inl (by decide)

/-- Addresses of ring 3 above the first four GiB, where boot maps nothing. -/
def Vacant (v : BitVec 64) : Prop := 4 * GIB ≤ v.toNat ∧ v.toNat < 2 ^ 47

theorem Vacant.untouched {v : BitVec 64} (hv : Vacant v)
    (hcall : call.virtual.toNat + call.size.toNat ≤ 4 * GIB ∨ 2 ^ 47 ≤ call.virtual.toNat) :
    ¬call.Touches v := by
  obtain ⟨hlo, hhi⟩ := hv
  unfold MapCall.Touches
  rw [show 4 * GIB = 2 ^ 32 from rfl] at *
  rw [show PAGE_SIZE = 4096 from rfl]
  omega

theorem linked_roomy : Linked roomyHandover :=
  ⟨by decide, by decide, by decide, by decide, by decide, by decide⟩

theorem ramFits_roomy : RamFits roomyHandover := by decide

/-- The machine has free frames from `c` on, fewer than `5376`. -/
abbrev Roomy (s₀ : Frame.State) (k : Kernel) (c : Nat) : Prop :=
  HasRoom s₀ k.runs k.paging c 5376

/-- Boot gets through and leaves 900 frames. -/
theorem bootKernel_roomy (memory : ByteMemory) :
    ∃ s₀ k c, bootKernel roomyHandover memory = .ok (k, 0x120000) ∧ Addressable s₀ ∧
      Roomy s₀ k c ∧ c ≤ 4443 ∧ k.nextStackTop = HK.USER_STACK_TOP ∧
      k.paging.noExecuteAvailable = true ∧ Paging.answers k.paging 0xB8000 = videoAnswers ∧
      ∀ v, Vacant v → effective k.paging v = 0 := by
  obtain ⟨s₀, hframes, hspare⟩ := initializeState_roomy
  have hs₀ : Addressable s₀ := addressable_of_boot hframes (by decide)
  have hcost : bootCost (bootSteps roomyHandover) = 57 := by decide
  obtain ⟨s, k, c, hboot, hbooted, hroom, hle, htop, -, hnx, hsame⟩ :=
    bootKernel_room hframes hs₀ hspare (by decide) (by decide)
      (fun step => linked_roomy.admissible ramFits_roomy) (by rw [hcost]; decide) (by decide)
      (by decide) memory
  have hnx' := hnx.trans hbooted.noExecute
  refine ⟨s₀, k, c, hboot, hs₀, hroom, by omega, htop, hnx', ?_, fun v hv => ?_⟩
  · have hlast : lastTouching (bootSteps roomyHandover) 0xB8000 = some ⟨lowCall, 0⟩ := by decide
    exact videoAnswers_of_requested
      ((hbooted.requested _ canonical_video _ hlast).congr hnx (hsame _)) hnx'
  · have hfar : ∀ step ∈ bootSteps roomyHandover,
        step.call.virtual.toNat + step.call.size.toNat ≤ 4 * GIB ∨
          2 ^ 47 ≤ step.call.virtual.toNat := by decide
    rw [hsame]
    exact hbooted.bare v (Or.inl hv.2) fun step hstep => hv.untouched (hfar step hstep)

end X64HK
