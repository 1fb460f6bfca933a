import X64HK.Memory.KernelStacks

/-!
# Frames and the direct map

`Frame::Allocate` hands out physical addresses, and the kernel uses them through
the direct map.  Which frames are handed out and which pages are mapped is computed
in two places from the memory map of the firmware.  `Frame::Initialize` rounds a
region inwards, and `MapDirectMap` maps every page that it touches.

* `LowFrames`: as long as `Paging::Initialize` runs, only the mapping of the boot
  code is there, and no frame above four GiB is handed out.
* `Direct` is what the kernel expects of a byte of a frame, and `Booted.direct` that
  boot provides it for all available memory.
* `KeepsDirect`: the requests leave the direct map alone.  So do kernel stacks that
  ran out of the address space (`not_visited_of_direct`).
* `frames_directly_mapped` is the result.
-/

namespace X64HK

open X64HK.Frame (SIZE Run isTaken availableRegions)
open KernelStack (stackCall)
open Multiboot
open Paging

variable {s₀ : Frame.State} {s s' : Paging.State} {k k₁ k' : Kernel} {t : Tree}
  {tables : List Run} {boot : Handover} {memory : ByteMemory} {noExecute : Bool}
  {bitmap : Nat} {v : BitVec 64} {tops : List Nat}

/-! ## Before the direct map is there -/

/-- What was handed out since `Frame::Initialize`, and what can be, lies below four
GiB. -/
structure LowFrames (s₀ frames : Frame.State) : Prop where
  handedOut : ∀ j, isTaken frames j = true → isTaken s₀ j = true ∨ (j + 1) * SIZE ≤ 4 * GIB
  next : ∀ count address frames', Frame.allocate frames count = (address, frames') →
    address ≠ 0 → address + count * SIZE ≤ 4 * GIB

/-- The allocator while `Paging::Initialize` runs: at its start, after the root table
and after each call of `Map`, the failed one included. -/
inductive DuringBoot (boot : Handover) (memory : ByteMemory) (s₀ : Frame.State) :
    Frame.State → Prop where
  | start : DuringBoot boot memory s₀ s₀
  | root {s : Paging.State} (hroot : createRoot boot memory s₀ = .ok s) :
      DuringBoot boot memory s₀ s.frames
  | call {s₁ s : Paging.State} {done later : List BootStep} {step : BootStep}
      {result : Bool × Paging.State} (hroot : createRoot boot memory s₀ = .ok s₁)
      (hsteps : bootSteps boot = done ++ step :: later)
      (hdone : done.foldlM BootStep.run s₁ = .ok s) (hmap : map s step.call = .ok result) :
      DuringBoot boot memory s₀ result.2.frames

/-- The limit did not move, and new frames are below it. -/
structure BelowLimit (s₀ frames : Frame.State) : Prop where
  reachable : frames.reachableFrames = s₀.reachableFrames
  fresh : ∀ j, isTaken frames j = true → isTaken s₀ j = true ∨ j < s₀.reachableFrames

theorem BelowLimit.refl (s₀ : Frame.State) : BelowLimit s₀ s₀ := ⟨rfl, fun _ => Or.inl⟩

theorem BelowLimit.work {others : List Run} (h : BelowLimit s₀ s.frames)
    (hwork : TableWork others s s') : BelowLimit s₀ s'.frames :=
  ⟨hwork.reachable.trans h.reachable, fun j hj =>
    (hwork.fresh j hj).elim (h.fresh j) fun hlt => Or.inr (h.reachable ▸ hlt)⟩

theorem BelowLimit.lowFrames {frames : Frame.State} (h : BelowLimit s₀ frames)
    (hinit : Frame.Initialized boot bitmap s₀) : LowFrames s₀ frames := by
  have hlimit : s₀.reachableFrames ≤ 2 ^ 20 := by
    rw [hinit.reachableFrames]
    exact Nat.le_trans (Nat.min_le_left ..) (by decide)
  have hbytes : ∀ {j : Nat}, j ≤ s₀.reachableFrames → j * SIZE ≤ 4 * GIB := fun hj =>
    Nat.le_trans (Nat.mul_le_mul_right _ (Nat.le_trans hj hlimit)) (by decide)
  refine ⟨fun j hj => (h.fresh j hj).imp_right hbytes, ?_⟩
  intro count address frames' hcall hne
  rcases Frame.allocate_cases frames count with hnone | ⟨first, -, hend, -, hsome⟩
  · exact absurd (Prod.mk.inj (hcall.symm.trans hnone)).1 hne
  · obtain ⟨rfl, -⟩ := Prod.mk.inj (hcall.symm.trans hsome)
    rw [h.reachable] at hend
    rw [← Nat.add_mul]
    exact hbytes hend

theorem createRoot_belowLimit (hwf : Frame.Wf s₀) (hroot : createRoot boot memory s₀ = .ok s) :
    BelowLimit s₀ s.frames := by
  have hframes : s.frames = (Frame.allocate s₀ 1).2 := by
    unfold createRoot allocateTable at hroot
    dsimp only at hroot
    split at hroot
    · exact absurd hroot nofun
    · obtain rfl := Except.ok.inj hroot
      rfl
  rw [hframes]
  refine ⟨Frame.allocate_reachableFrames .., fun j hj => ?_⟩
  rcases Frame.allocate_cases s₀ 1 with hnone | ⟨first, -, hend, -, hsome⟩
  · rw [hnone] at hj
    exact Or.inl hj
  · rw [hsome, Frame.isTaken_allocated hwf (Nat.le_trans hend hwf.reachable_le), Bool.or_eq_true,
      decide_eq_true_eq] at hj
    exact hj.symm.imp_right fun hnew => Nat.lt_of_lt_of_le hnew.2 hend

/-- A step of boot takes frames below the limit. -/
theorem BelowLimit.run (hs₀ : Addressable s₀) {step : BootStep}
    (h : (∃ t tables, Owned s₀ s t tables []) ∧ BelowLimit s₀ s.frames)
    (hrun : step.run s = .ok s') :
    (∃ t tables, Owned s₀ s' t tables []) ∧ BelowLimit s₀ s'.frames := by
  obtain ⟨⟨t, tables, howned⟩, hbelow⟩ := h
  obtain ⟨s₁, hmap, rfl⟩ := step.run_eq_ok hrun
  obtain ⟨n, t', tables', hm⟩ := map_spec hs₀ howned hmap
  have hbelow' : BelowLimit s₀ s₁.frames := hbelow.work hm.work
  exact ⟨⟨t', tables', hm.owned.setMappedRamEnd _⟩, hbelow'⟩

theorem DuringBoot.lowFrames (hs₀ : Addressable s₀) (hinit : Frame.Initialized boot bitmap s₀)
    {frames : Frame.State} (h : DuringBoot boot memory s₀ frames) : LowFrames s₀ frames := by
  cases h with
  | start => exact (BelowLimit.refl s₀).lowFrames hinit
  | root hroot => exact (createRoot_belowLimit hinit.wf hroot).lowFrames hinit
  | @call s₁ s done later step result hroot hsteps hdone hmap =>
    obtain ⟨t, tables, howned, -⟩ := createRoot_owned hinit.wf hs₀ hroot
    obtain ⟨⟨t', tables', howned'⟩, hbelow⟩ :=
      foldlM_invariant
        (P := fun s => (∃ t tables, Owned s₀ s t tables []) ∧ BelowLimit s₀ s.frames)
        (fun step _ s s' h hrun => BelowLimit.run hs₀ h hrun)
        ⟨⟨t, tables, howned⟩, createRoot_belowLimit hinit.wf hroot⟩ hdone
    obtain ⟨n, t'', tables'', hm⟩ := map_spec hs₀ howned' hmap
    exact (hbelow.work hm.work).lowFrames hinit

/-! ## The direct map -/

/-- The addresses of the direct map. -/
def DirectArea (v : BitVec 64) : Prop :=
  Config.DIRECT_MAP_BASE ≤ v.toNat ∧ v.toNat < Config.KERNEL_STACK_BASE

/-- The kernel has a byte of physical memory in the direct map, for itself and for
data. -/
structure Direct (s : Paging.State) (a : Nat) : Prop where
  translate : Paging.translate s (BitVec.ofNat 64 (toVirtual a)) = BitVec.ofNat 64 a
  isWritable : isWritable s (BitVec.ofNat 64 (toVirtual a)) = true
  isUserReadable : isUserReadable s (BitVec.ofNat 64 (toVirtual a)) = false
  isExecutable : s.noExecuteAvailable = true →
    isExecutable s (BitVec.ofNat 64 (toVirtual a)) = false

theorem toNat_toVirtual {a : Nat} (h : a < 2 ^ 46) :
    (BitVec.ofNat 64 (toVirtual a)).toNat = Config.DIRECT_MAP_BASE + a := by
  have hbase : Config.DIRECT_MAP_BASE = 2 ^ 64 - 2 ^ 47 := rfl
  rw [toVirtual, wrap64_of_lt (by omega), toNat_ofNat_of_lt (by omega), Nat.add_comm]

theorem directArea_toVirtual {a : Nat} (h : a < 2 ^ 46) :
    DirectArea (BitVec.ofNat 64 (toVirtual a)) := by
  have hbase : Config.DIRECT_MAP_BASE + 2 ^ 46 = Config.KERNEL_STACK_BASE := rfl
  unfold DirectArea
  rw [toNat_toVirtual h]
  omega

theorem DirectArea.high (h : DirectArea v) : High v := h.1

theorem DirectArea.canonical (h : DirectArea v) : Canonical v := Or.inr h.1

/-- Of the calls of boot, only those for available memory touch the direct map. -/
theorem DirectArea.region_of_touches (hv : DirectArea v) (hlinked : Linked boot)
    {step : BootStep} (hstep : step ∈ bootSteps boot) (htouch : step.call.Touches v) :
    ∃ region ∈ availableRegions boot, step.call = directCall region := by
  have hlow : 2 ^ 33 ≤ Config.DIRECT_MAP_BASE := by decide
  have hhigh : Config.KERNEL_STACK_BASE ≤ Config.KERNEL_VMA := by decide
  obtain ⟨hlo, hhi⟩ := hv
  cases hlinked.kind hstep with
  | @identity start stop access caching hlt hstop =>
    obtain ⟨hvirtual, hsize, -⟩ := spans_identity access caching hlt hstop
    exact absurd htouch (MapCall.not_touches_of_le (by decide) (by rw [hvirtual, hsize]; omega) hlo)
  | @direct region hregion => exact ⟨region, hregion, rfl⟩
  | @span span access hstart hlt hstop =>
    obtain ⟨hvirtual, -, -⟩ := spans_span access hstart hlt hstop
    exact absurd htouch (MapCall.not_touches_of_lt (by decide) (by rw [hvirtual]; omega) hhi)

/-- The page of a byte of available memory is mapped by the call for some region, and
all of these agree. -/
theorem Paging.Booted.direct (h : Booted boot s) (hlinked : Linked boot) (hram : RamFits boot)
    {region : MemoryRegion} (hregion : region ∈ availableRegions boot) {a : Nat}
    (hlo : region.address ≤ a) (hhi : a < region.address + region.length) : Direct s a := by
  have hfits := hram region hregion
  have hv := toNat_toVirtual (show a < 2 ^ 46 by omega)
  have harea := directArea_toVirtual (show a < 2 ^ 46 by omega)
  have hstep : (⟨directCall region, region.stop⟩ : BootStep) ∈ bootSteps boot := by
    refine List.mem_append_right _ (List.mem_append_right _ (List.mem_append_left _ ?_))
    exact List.mem_map_of_mem hregion
  have htouch : (directCall region).Touches (BitVec.ofNat 64 (toVirtual a)) := by
    obtain ⟨hvirtual, hsize, -⟩ := spans_direct hfits
    unfold MapCall.Touches
    rw [hvirtual, hsize, hv]
    refine ⟨Nat.div_le_div_right (by omega), ?_⟩
    have hle := Nat.div_mul_le_self (Config.DIRECT_MAP_BASE + a) PAGE_SIZE
    omega
  obtain ⟨step, hlast⟩ : ∃ step,
      lastTouching (bootSteps boot) (BitVec.ofNat 64 (toVirtual a)) = some step :=
    Option.ne_none_iff_exists'.1 fun hnone => lastTouching_eq_none.1 hnone _ hstep htouch
  obtain ⟨hmem, htouch'⟩ := lastTouching_eq_some hlast
  have hrequested := h.requested _ harea.canonical step hlast
  obtain ⟨region', hregion', hcall⟩ := harea.region_of_touches hlinked hmem htouch'
  rw [hcall] at hrequested
  obtain ⟨hvirtual, -, hphysical⟩ := spans_direct (hram region' hregion')
  refine ⟨?_, hrequested.isWritable, hrequested.isUserReadable, fun hnx => ?_⟩
  · have htranslate := hrequested.translate
    rw [hvirtual, hphysical, hv] at htranslate
    refine BitVec.eq_of_toNat_eq ?_
    rw [toNat_ofNat_of_lt (by omega)]
    omega
  · rw [hrequested.isExecutable, hnx]
    rfl

/-- A frame that was not taken at the start lies in a region of available memory. -/
theorem exists_region_of_free (hinit : Frame.Initialized boot bitmap s₀) (hram : RamFits boot)
    {j : Nat} (hj : j < s₀.frameCount) (hfree : isTaken s₀ j = false) :
    ∃ region ∈ availableRegions boot, region.address ≤ j * SIZE ∧
      (j + 1) * SIZE ≤ region.address + region.length := by
  rw [hinit.isTaken_eq j hj, Bool.or_eq_false_iff, Bool.not_eq_false', List.any_eq_true] at hfree
  obtain ⟨⟨region, hregion, hcontains⟩, -⟩ := hfree
  have hfits := hram region hregion
  obtain ⟨hlo, hhi⟩ := of_decide_eq_true hcontains
  dsimp only at hlo hhi
  have hstop := Nat.lt_of_lt_of_le hhi (Nat.min_le_left ..)
  rw [MemoryRegion.stop, wrap64_of_lt (by omega)] at hstop
  rw [show SIZE = 4096 from rfl] at *
  rw [wrap64_of_lt (by omega)] at hlo
  exact ⟨region, hregion, by omega, by omega⟩

/-! ## Requests -/

/-- The direct map is as it was. -/
structure KeepsDirect (s s' : Paging.State) : Prop where
  noExecute : s'.noExecuteAvailable = s.noExecuteAvailable
  effective_eq : ∀ v, DirectArea v → effective s' v = effective s v

theorem KeepsDirect.refl (s : Paging.State) : KeepsDirect s s := ⟨rfl, fun _ _ => rfl⟩

theorem KeepsDirect.trans {s'' : Paging.State} (h : KeepsDirect s s') (h' : KeepsDirect s' s'') :
    KeepsDirect s s'' :=
  ⟨h'.noExecute.trans h.noExecute, fun v hv => (h'.effective_eq v hv).trans (h.effective_eq v hv)⟩

theorem KeepsKernel.keepsDirect (h : KeepsKernel k k') : KeepsDirect k.paging k'.paging :=
  ⟨h.noExecute, fun v hv => h.high v hv.high⟩

theorem Direct.keep {a : Nat} (h : Direct s a) (ha : a < 2 ^ 46) (hkeeps : KeepsDirect s s') :
    Direct s' a := by
  have hsame := answers_congr hkeeps.noExecute (hkeeps.effective_eq _ (directArea_toVirtual ha))
  refine ⟨(congrArg Answers.translate hsame).trans h.translate,
    (congrArg Answers.isWritable hsame).trans h.isWritable,
    (congrArg Answers.isUserReadable hsame).trans h.isUserReadable, fun hnx => ?_⟩
  exact (congrArg Answers.isExecutable hsame).trans (h.isExecutable (hkeeps.noExecute ▸ hnx))

/-- Frames are allocated from the direct map. -/
def AllocatesDirect (s : Paging.State) : Prop :=
  ∀ count address frames, Frame.allocate s.frames count = (address, frames) → address ≠ 0 →
    ∀ a, address ≤ a → a < address + count * SIZE → Direct s a

theorem allocatesDirect (hinit : Frame.Initialized boot bitmap s₀) (hlinked : Linked boot)
    (hram : RamFits boot) (hbooted : Booted boot s) (hkeeps : KeepsDirect s s')
    {live : List Run} (htracks : Frame.Tracks s₀ s'.frames live) :
    AllocatesDirect s' := by
  intro count address frames hcall hne a hlo hhi
  rcases Frame.allocate_cases s'.frames count with hnone | ⟨first, -, hend, hclear, hsome⟩
  · exact absurd (Prod.mk.inj (hcall.symm.trans hnone)).1 hne
  obtain ⟨rfl, -⟩ := Prod.mk.inj (hcall.symm.trans hsome)
  -- the frame of the byte
  have hfrom : first ≤ a / SIZE := (Nat.le_div_iff_mul_le (by decide)).2 hlo
  have hto : a / SIZE < first + count := by
    rw [← Nat.add_mul] at hhi
    exact Nat.div_lt_of_lt_mul (Nat.mul_comm .. ▸ hhi)
  have hcount : a / SIZE < s₀.frameCount := by
    have hle := htracks.wf.reachable_le
    rw [htracks.frameCount] at hle
    omega
  have hfree := (htracks.of_clear (hclear _ hfrom hto)).1
  obtain ⟨region, hregion, hstart, hstop⟩ := exists_region_of_free hinit hram hcount hfree
  have hfits := hram region hregion
  rw [show SIZE = 4096 from rfl] at *
  exact (hbooted.direct hlinked hram hregion (by omega) (by omega)).keep (by omega) hkeeps

/-- Where the stack in a slot begins.  When the slots pass the end of the address space
they go on at its start, and memory is used up before they reach the direct map again. -/
theorem stack_start_cases {n : Nat} (hn : n ≤ 2 ^ 32 + 15) {start : Nat}
    (hstart : start = (0xFFFFC00000001000 + n * 0x5000) % 2 ^ 64) :
    start % 4096 = 0 ∧
      (2 ^ 64 - 2 ^ 46 ≤ start ∧ start + 0x5000 ≤ 2 ^ 64 ∨ start = 2 ^ 64 - 0x3000 ∨
        start < 2 ^ 46) := by
  rcases Nat.lt_or_ge (0xFFFFC00000001000 + n * 0x5000) (2 ^ 64) with hlt | hge
  · rw [Nat.mod_eq_of_lt hlt] at hstart
    omega
  · rw [Nat.mod_eq_sub_mod hge, Nat.mod_eq_of_lt (by omega)] at hstart
    omega

theorem toNat_stackCall_virtual (n frames : Nat) :
    (stackCall (KernelStack.nextSlot n) frames).virtual.toNat =
      (0xFFFFC00000001000 + n * 0x5000) % 2 ^ 64 := by
  show (BitVec.ofNat 64 (KernelStack.nextSlot n + KernelStack.GUARD_SIZE)).toNat = _
  rw [KernelStack.nextSlot_eq, BitVec.toNat_ofNat, wrap64, Nat.mod_add_mod,
    show Config.KERNEL_STACK_BASE = 0xFFFFC00000000000 from rfl,
    show KernelStack.STRIDE = 0x5000 from rfl, show KernelStack.GUARD_SIZE = 0x1000 from rfl,
    Nat.add_right_comm]

theorem pageNumber_eq_div (v : BitVec 64) : pageNumber v = v.toNat / 4096 % 2 ^ 36 := rfl

/-- A kernel stack is never mapped into the direct map. -/
theorem not_visited_of_direct {n frames : Nat} (hn : n ≤ 2 ^ 32 + 15) (hv : DirectArea v) :
    ¬Visited (stackCall (KernelStack.nextSlot n) frames).virtual
      (stackCall (KernelStack.nextSlot n) frames).size (pageNumber v) := by
  have hsize : (stackCall (KernelStack.nextSlot n) frames).size.toNat = 0x4000 :=
    toNat_ofNat_of_lt (by decide)
  have hfirst := (stackCall (KernelStack.nextSlot n) frames).toNat_firstPage
  obtain ⟨haligned, hcases⟩ := stack_start_cases hn (toNat_stackCall_virtual n frames)
  generalize hstart : (stackCall (KernelStack.nextSlot n) frames).virtual.toNat = start at *
  rw [show PAGE_SIZE = 4096 from rfl] at hfirst
  obtain ⟨hlo, hhi⟩ := hv
  rw [show Config.DIRECT_MAP_BASE = 2 ^ 64 - 2 ^ 47 from rfl] at hlo
  rw [show Config.KERNEL_STACK_BASE = 2 ^ 64 - 2 ^ 46 from rfl] at hhi
  intro hvisited
  by_cases hlast : start = 2 ^ 64 - 0x3000
  · -- the end of the last stack wraps around, and the loop of `Map` stops at once
    obtain ⟨i, hbelow, -⟩ := hvisited
    have hbegin := hbelow 0 (Nat.zero_le i)
    rw [pagesAbove_zero, BitVec.lt_def, BitVec.toNat_add, hsize, hstart, ← MapCall.firstPage,
      hfirst] at hbegin
    omega
  · obtain ⟨w, hsame, hfrom, hto⟩ := hvisited.exists_address
      (by rw [hstart]; exact haligned)
      (by rw [hstart, hsize, show PAGE_SIZE = 4096 from rfl]; omega)
    rw [pageNumber_eq_div, pageNumber_eq_div] at hsame
    rw [hstart, hsize] at hto
    rw [hstart] at hfrom
    omega

theorem Stacked.length_stackRuns_le (hb : Bounded s₀) (h : Stacked s₀ noExecute (tops, k)) :
    k.stackRuns.length ≤ 2 ^ 32 + 15 := by
  obtain ⟨-, -, t, tables, hiso⟩ := h.safe
  have hbound : k.framesOut ≤ 2 ^ 34 + 63 := hiso.framesOut_le hb
  have hfour : ∀ count ∈ k.stackRuns.map Run.count, count = 4 := by
    intro count hcount
    obtain ⟨run, hrun, rfl⟩ := List.mem_map.1 hcount
    exact (h.count run hrun).trans (by decide)
  have hsum : (k.stackRuns.map Run.count).sum = k.stackRuns.length * 4 := by
    rw [List.eq_replicate_of_mem hfour, List.sum_replicate_nat, List.length_map]
  have hle : (k.stackRuns.map Run.count).sum ≤ k.framesOut := by
    rw [Kernel.stackRuns, List.map_reverse, List.sum_reverse]
    exact (((List.filter_sublist ..).map _).map _).sum_le_sum fun _ _ => Nat.zero_le _
  omega

/-- A kernel stack leaves the direct map alone. -/
theorem Stacked.kernelStack_keepsDirect (hs₀ : Addressable s₀) (hb : Bounded s₀)
    (h : Stacked s₀ noExecute (tops, k)) {top : Nat}
    (hcall : KernelStack.allocate k = .ok (top, k')) : KeepsDirect k.paging k'.paging := by
  have hlength := h.length_stackRuns_le hb
  have hnext : k.nextSlot = KernelStack.nextSlot k.stackRuns.length := h.nextSlot
  obtain ⟨-, -, t, tables, hiso⟩ := h.safe
  obtain ⟨k₁, run, k₂, hslot, hiso₁, halloc, -, hmap, -⟩ := allocateKernelStack_cases hs₀ hiso hcall
  have hsame : k₁.paging = k.paging := by rw [← hslot.eq]
  refine ⟨?_, fun v hv => ?_⟩
  · obtain ⟨paging, hpaging, rfl⟩ := Kernel.map_eq_ok hmap
    obtain ⟨n, t', tables', hm⟩ := map_spec hs₀ halloc.isolated.owned hpaging
    exact hm.setup.noExecuteAvailable.trans (halloc.noExecute.trans (by rw [hsame]))
  · rw [hnext] at hmap
    rw [halloc.isolated.map_kept hs₀ hmap v fun hq =>
      not_visited_of_direct hlength hv hq.visited]
    exact hiso.effective_eq halloc.isolated rfl v

/-- So does every request. -/
theorem Stacked.serve_keepsDirect (hs₀ : Addressable s₀) (hb : Bounded s₀)
    (h : Stacked s₀ noExecute (tops, k)) {request : Request}
    (hserve : X64HK.serve k request = .ok k') :
    (∃ tops', Stacked s₀ noExecute (tops', k')) ∧ KeepsDirect k.paging k'.paging := by
  cases request with
  | kernelStack =>
    obtain ⟨⟨top, k₁⟩, hcall, hret⟩ := (bind_ok_iff _ _ _).1 hserve
    obtain rfl := Except.ok.inj hret
    exact ⟨⟨_, h.kernelStack hs₀ hb hcall⟩, h.kernelStack_keepsDirect hs₀ hb hcall⟩
  | userStack | load =>
    obtain ⟨hkeeps, hstacked⟩ := h.keepsKernel hs₀ hb Request.noConfusion hserve
    exact ⟨⟨_, hstacked⟩, hkeeps.keepsDirect⟩

/-- The kernel after `Paging::Initialize`, before or after the heap. -/
inductive AfterPaging (paging : Paging.State) : Kernel → Prop where
  | start : AfterPaging paging (Kernel.start paging)
  | heap {k : Kernel} (hheap : (Kernel.start paging).initializeHeap = .ok k) : AfterPaging paging k

theorem AfterPaging.stacked (hs₀ : Addressable s₀) (hb : Bounded s₀) (h : AfterPaging s k)
    (hstart : Stacked s₀ noExecute ([], Kernel.start s)) :
    Stacked s₀ noExecute ([], k) ∧ KeepsDirect s k.paging := by
  cases h with
  | start => exact ⟨hstart, .refl s⟩
  | heap hheap =>
    obtain ⟨-, -, t, tables, hiso⟩ := hstart.safe
    have hkeeps := (initializeHeap_keepsKernel hs₀ hiso hheap).1
    exact ⟨hstart.initializeHeap hs₀ hb hheap, hkeeps.keepsDirect⟩

/-- While `Paging::Initialize` runs, frames come from below four GiB.  Afterwards, and
after any requests, they come from the direct map. -/
theorem frames_directly_mapped {bitmap : Nat} (hlinked : Linked boot) (hram : RamFits boot)
    (hframes : Frame.initializeState boot = .ok (s₀, bitmap)) (memory : ByteMemory) :
    (∀ frames, DuringBoot boot memory s₀ frames → LowFrames s₀ frames) ∧
      ∀ paging k₀ requests k, Paging.initializeState boot memory s₀ = .ok paging →
        AfterPaging paging k₀ → serveAll k₀ requests = .ok k → AllocatesDirect k.paging := by
  have hinit := Frame.initialized_of_ok hframes
  have hs₀ := addressable_of_boot hframes (physicallyAddressable_of_ramFits hram)
  have hb := bounded_of_ramFits hram hinit
  refine ⟨fun frames h => h.lowFrames hs₀ hinit, ?_⟩
  intro paging k₀ requests k hpaging hafter hrun
  obtain ⟨hbooted, -⟩ :=
    booted_of_ok hinit.wf hs₀ (fun step => hlinked.admissible hram) hpaging
  have hstart := initializePaging_stacked hlinked hram hframes hpaging
  obtain ⟨hstacked₀, hkeeps₀⟩ := hafter.stacked hs₀ hb hstart
  obtain ⟨⟨tops, hstacked⟩, hkeeps⟩ := foldlM_invariant
    (P := fun k => (∃ tops, Stacked s₀ boot.noExecute (tops, k)) ∧ KeepsDirect paging k.paging)
    (by
      rintro request - k k' ⟨⟨tops, hstacked⟩, hkeeps⟩ hserve
      obtain ⟨hstacked', hkeeps'⟩ := hstacked.serve_keepsDirect hs₀ hb hserve
      exact ⟨hstacked', hkeeps.trans hkeeps'⟩) ⟨⟨[], hstacked₀⟩, hkeeps₀⟩ hrun
  obtain ⟨-, -, t, tables, hiso⟩ := hstacked.safe
  exact allocatesDirect hinit hlinked hram hbooted hkeeps hiso.owned.tracks

theorem frames_directly_mapped_roomy :
    ∃ s₀ paging k₀ k, Frame.initializeState roomyHandover = .ok (s₀, 0x120000) ∧
      LowFrames s₀ s₀ ∧ Paging.initializeState roomyHandover (fun _ => 0) s₀ = .ok paging ∧
      (Kernel.start paging).initializeHeap = .ok k₀ ∧ serveAll k₀ [.kernelStack] = .ok k ∧
      AllocatesDirect k.paging := by
  obtain ⟨s₁, k₀, c, hboot, hs₁, hroomy, hle, -⟩ := bootKernel_roomy (fun _ => 0)
  have hslot : k₀.nextSlot = KernelStack.slotAt 0 :=
    bootKernel_nextSlot linked_roomy ramFits_roomy hboot
  obtain ⟨s₀, paging, hframes, hpaging, hheap⟩ := bootKernel_eq_ok hboot
  obtain ⟨k, -, hcall, -⟩ :=
    hroomy.allocateKernelStack hs₁ hslot (by decide) (by omega) (by decide)
  have hrun : serveAll k₀ [.kernelStack] = .ok k :=
    (bind_ok_iff _ _ _).2 ⟨k, (bind_ok_iff _ _ _).2 ⟨_, hcall, rfl⟩, rfl⟩
  obtain ⟨hlow, hdirect⟩ :=
    frames_directly_mapped linked_roomy ramFits_roomy hframes (fun _ => 0)
  exact ⟨s₀, paging, k₀, k, hframes, hlow s₀ .start, hpaging, hheap, hrun,
    hdirect paging k₀ _ k hpaging (.heap hheap) hrun⟩

end X64HK
