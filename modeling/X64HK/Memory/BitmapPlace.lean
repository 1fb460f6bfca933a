import Mathlib.Order.Bounds.Basic
import X64HK.Memory.LoaderMemory

/-!
# The place of the frame bitmap

`ChooseBitmapLocation` has to put the bitmap somewhere before there is an
allocator to ask.  `FirstFit` goes through a region and jumps behind whatever
is in the way.

`Fits` says what a place for the bitmap is, byte by byte and without the
search.

* `firstFitLoop_isLeast`: no jump leaves out a place, so that the loop finds
  the lowest one or there is none.
* `bitmap_placement`: the search ends with the lowest place of the first
  region that has one.
* `modules_spared_iff`: which modules are safe, told from the handover.
-/

namespace X64HK.Frame

open Multiboot

/-- A bitmap of `bytes` bytes may be at `place`, which is in this region. -/
structure Fits (boot : Handover) (bytes : Nat) (region : MemoryRegion) (place : Nat) : Prop where
  aligned : place % SIZE = 0
  low : MIB ≤ place
  inside : region.address ≤ place ∧ place + bytes ≤ region.address + region.length
  below : place + bytes ≤ Config.IDENTITY_MAPPED_LIMIT
  kernel : Apart ⟨place, place + bytes⟩ (kernelRange boot)
  info : ∀ info ∈ boot.infoRegions,
    Apart ⟨place, place + bytes⟩ ⟨info.address, info.address + info.length⟩
  modules : ∀ module ∈ boot.modules, Apart ⟨place, place + bytes⟩ ⟨module.start, module.stop⟩

/-- What `FirstFit` accepts. -/
structure Vacant (boot : Handover) (bytes : Nat) (range : Range) (place : Nat) : Prop where
  aligned : place % SIZE = 0
  above : range.start ≤ place
  ends : place + bytes ≤ range.stop
  free : isBlocked boot ⟨place, place + bytes⟩ = none

variable {boot : Handover} {bytes : Nat} {range : Range} {region : MemoryRegion}

/-! ## The search in one region -/

theorem alignUp_mod (address : Nat) : alignUp address % SIZE = 0 := Nat.mul_mod_left _ _

theorem le_alignUp {address : Nat} (h : address ≤ 2 ^ 63) : address ≤ alignUp address := by
  unfold alignUp
  rw [show SIZE = 4096 from rfl, wrap64_of_lt (by omega)]
  omega

theorem wrap64_add {start bytes : Nat} (hstart : start ≤ 2 ^ 63) (hbytes : bytes < 2 ^ 63) :
    wrap64 (start + bytes) = start + bytes :=
  wrap64_of_lt (Nat.add_lt_add_of_le_of_lt hstart hbytes)

/-- `alignUp` goes to the first boundary. -/
theorem alignUp_le_of_le {address place : Nat} (h : address ≤ 2 ^ 63) (haligned : place % SIZE = 0)
    (hle : address ≤ place) : alignUp address ≤ place := by
  unfold alignUp
  rw [show SIZE = 4096 from rfl] at *
  rw [wrap64_of_lt (by omega)]
  omega

/-- A vacant place above a blocked one is behind what blocks it. -/
theorem Vacant.behind {start place retryAt : Nat} (h : Vacant boot bytes range place)
    (hstart : start ≤ place) (hblocked : isBlocked boot ⟨start, start + bytes⟩ = some retryAt) :
    retryAt ≤ place := by
  obtain ⟨obstacle, hobstacle, hoverlaps, rfl⟩ := isBlocked_some hblocked
  have hclear := isBlocked_eq_none_iff.1 h.free obstacle hobstacle
  simp only [overlaps, Bool.and_eq_true, Bool.and_eq_false_iff, decide_eq_true_eq,
    decide_eq_false_iff_not] at hoverlaps hclear
  omega

/-- The loop finds the lowest vacant place.  Every one is at `start` or
above. -/
theorem firstFitLoop_isLeast (h : Retryable boot) (hbytes : bytes < 2 ^ 63)
    (hlow : 0 < range.start) :
    ∀ {fuel start location : Nat}, start % SIZE = 0 → range.start ≤ start → start ≤ 2 ^ 63 →
      (∀ place, Vacant boot bytes range place → start ≤ place) →
      firstFitLoop boot range bytes start fuel = .ok location →
      (location ≠ 0 → IsLeast {place | Vacant boot bytes range place} location) ∧
        (location = 0 → ∀ place, ¬Vacant boot bytes range place) := by
  intro fuel
  induction fuel with
  | zero =>
    intro start location _ _ _ _ hfit
    exact absurd hfit nofun
  | succ fuel ih =>
    intro start location haligned habove hstart hleast hfit
    rw [firstFitLoop] at hfit
    have hcases := firstFitStep_cases hfit
    rw [wrap64_add hstart hbytes] at hcases
    rcases hcases with ⟨rfl, hends, hfree⟩ | ⟨rfl, hends⟩ | ⟨retryAt, hblocked, hretry⟩
    · have hne := Nat.ne_of_gt (Nat.lt_of_lt_of_le hlow habove)
      exact ⟨fun _ => ⟨⟨haligned, habove, hends, hfree⟩, hleast⟩, fun hzero => absurd hzero hne⟩
    · refine ⟨fun hne => absurd rfl hne, fun _ place hvacant => Nat.not_le_of_lt hends ?_⟩
      exact Nat.le_trans (Nat.add_le_add_right (hleast place hvacant) bytes) hvacant.ends
    · have hle := h hblocked
      have hnext : start ≤ alignUp retryAt :=
        Nat.le_trans (Nat.le_of_lt (isBlocked_gt hblocked)) (le_alignUp hle)
      refine ih (alignUp_mod _) (Nat.le_trans habove hnext) (alignUp_le hle) ?_ hretry
      intro place hvacant
      exact alignUp_le_of_le hle hvacant.aligned (hvacant.behind (hleast place hvacant) hblocked)

/-! ## Places and bytes -/

/-- Overlapping is having a byte in common. -/
theorem overlaps_eq_false_iff {left right : Range} (hleft : left.start < left.stop)
    (hright : right.start < right.stop) : overlaps left right = false ↔ Apart left right := by
  refine ⟨apart_of_overlaps, fun hapart => ?_⟩
  rw [Bool.eq_false_iff]
  intro hoverlaps
  simp only [overlaps, Bool.and_eq_true, decide_eq_true_eq] at hoverlaps
  exact hapart (max left.start right.start) (by omega) (by omega) ⟨by omega, by omega⟩

/-- The kernel and the modules have bytes, and the memory map does not wrap
around. -/
structure Solid (boot : Handover) : Prop extends Placed boot where
  kernel_lt : (kernelRange boot).start < (kernelRange boot).stop
  modules_lt : ∀ module ∈ boot.modules, module.start < module.stop
  regions_lt : ∀ region ∈ boot.memoryRegions, region.address + region.length < 2 ^ 64

theorem Solid.isBlocked_eq_none_iff (h : Solid boot) (hpos : 0 < bytes) {place : Nat} :
    isBlocked boot ⟨place, place + bytes⟩ = none ↔
      Apart ⟨place, place + bytes⟩ (kernelRange boot) ∧
      (∀ info ∈ boot.infoRegions,
        Apart ⟨place, place + bytes⟩ ⟨info.address, info.address + info.length⟩) ∧
      ∀ module ∈ boot.modules, Apart ⟨place, place + bytes⟩ ⟨module.start, module.stop⟩ := by
  have hplace : (⟨place, place + bytes⟩ : Range).start < (⟨place, place + bytes⟩ : Range).stop :=
    Nat.lt_add_of_pos_right hpos
  rw [Frame.isBlocked_eq_none_iff, forall_obstacles, overlaps_eq_false_iff hplace h.kernel_lt]
  refine and_congr_right' (and_congr ?_ ?_)
  · refine forall₂_congr fun info hinfo => ?_
    rw [h.stop_info hinfo]
    by_cases hlength : info.length = 0
    · -- an empty region is apart from everything
      refine iff_of_true (fun hne => absurd hlength hne) fun a _ _ hin => ?_
      rw [hlength] at hin
      exact absurd (Nat.lt_of_le_of_lt hin.1 hin.2) (Nat.lt_irrefl _)
    · rw [overlaps_eq_false_iff hplace (Nat.lt_add_of_pos_right (Nat.pos_of_ne_zero hlength))]
      exact ⟨fun hapart => hapart hlength, fun hapart _ => hapart⟩
  · exact forall₂_congr fun module hmodule =>
      overlaps_eq_false_iff hplace (h.modules_lt module hmodule)

/-- The part of a region in which `ChooseBitmapLocation` searches. -/
def usable (region : MemoryRegion) : Range :=
  ⟨max region.address MIB, min region.stop Config.IDENTITY_MAPPED_LIMIT⟩

theorem Solid.vacant_iff_fits (h : Solid boot) (hregion : region ∈ availableRegions boot)
    (hpos : 0 < bytes) {place : Nat} :
    Vacant boot bytes (usable region) place ↔ Fits boot bytes region place := by
  have hstop : region.stop = region.address + region.length :=
    wrap64_of_lt (h.regions_lt region (List.mem_of_mem_filter hregion))
  have hfree := @Solid.isBlocked_eq_none_iff _ _ h hpos place
  constructor
  · intro hvacant
    have habove := hvacant.above
    have hends := hvacant.ends
    simp only [usable, hstop] at habove hends
    obtain ⟨hkernel, hinfo, hmodules⟩ := hfree.1 hvacant.free
    exact ⟨hvacant.aligned, by omega, ⟨by omega, by omega⟩, by omega, hkernel, hinfo, hmodules⟩
  · intro hfits
    obtain ⟨haddress, hends⟩ := hfits.inside
    refine ⟨hfits.aligned, ?_, ?_, hfree.2 ⟨hfits.kernel, hfits.info, hfits.modules⟩⟩
    · exact Nat.max_le.2 ⟨haddress, hfits.low⟩
    · exact Nat.le_min.2 ⟨hstop ▸ hends, hfits.below⟩

/-! ## The search in all regions -/

/-- The bitmap is at the lowest place of the first region that has one. -/
def FirstLowest (boot : Handover) (bytes : Nat) (regions : List MemoryRegion) (location : Nat) :
    Prop :=
  ∃ before region after, regions = before ++ region :: after ∧
    (∀ skipped ∈ before, ∀ place, ¬Fits boot bytes skipped place) ∧
    IsLeast {place | Fits boot bytes region place} location

theorem FirstLowest.cons {regions : List MemoryRegion} {location : Nat}
    (h : FirstLowest boot bytes regions location) (hnone : ∀ place, ¬Fits boot bytes region place) :
    FirstLowest boot bytes (region :: regions) location := by
  obtain ⟨before, found, after, rfl, hbefore, hleast⟩ := h
  exact ⟨region :: before, found, after, rfl, List.forall_mem_cons.2 ⟨hnone, hbefore⟩, hleast⟩

theorem FirstLowest.unique {regions : List MemoryRegion} {location place : Nat}
    (h : FirstLowest boot bytes regions location) (h' : FirstLowest boot bytes regions place) :
    location = place := by
  induction regions with
  | nil =>
    obtain ⟨before, region, after, heq, -⟩ := h
    exact absurd heq (by simp)
  | cons first regions ih =>
    obtain ⟨before, region, after, heq, hbefore, hleast⟩ := h
    obtain ⟨before', region', after', heq', hbefore', hleast'⟩ := h'
    -- a region that has a place is not skipped
    cases before with
    | nil =>
      obtain ⟨rfl, -⟩ := List.cons.inj heq
      cases before' with
      | nil =>
        obtain ⟨rfl, -⟩ := List.cons.inj heq'
        exact hleast.unique hleast'
      | cons skipped before' =>
        obtain ⟨rfl, -⟩ := List.cons.inj heq'
        exact absurd hleast.1 (hbefore' _ List.mem_cons_self location)
    | cons skipped before =>
      obtain ⟨rfl, hrest⟩ := List.cons.inj heq
      cases before' with
      | nil =>
        obtain ⟨rfl, -⟩ := List.cons.inj heq'
        exact absurd hleast'.1 (hbefore _ List.mem_cons_self place)
      | cons skipped' before' =>
        obtain ⟨rfl, hrest'⟩ := List.cons.inj heq'
        exact ih ⟨before, region, after, hrest, (List.forall_mem_cons.1 hbefore).2, hleast⟩
          ⟨before', region', after', hrest', (List.forall_mem_cons.1 hbefore').2, hleast'⟩

theorem Solid.firstFit_isLeast (h : Solid boot) (hregion : region ∈ availableRegions boot)
    (hpos : 0 < bytes) (hbytes : bytes < 2 ^ 63) {location : Nat}
    (husable : (usable region).start < (usable region).stop)
    (hfit : firstFit boot (usable region) bytes = .ok location) :
    (location ≠ 0 → IsLeast {place | Fits boot bytes region place} location) ∧
      (location = 0 → ∀ place, ¬Fits boot bytes region place) := by
  have hlimit : (usable region).stop ≤ Config.IDENTITY_MAPPED_LIMIT := Nat.min_le_right _ _
  rw [show Config.IDENTITY_MAPPED_LIMIT = 2 ^ 32 from rfl] at hlimit
  have hlow : MIB ≤ (usable region).start := Nat.le_max_right _ _
  rw [show MIB = 2 ^ 20 from rfl] at hlow
  have hstart : (usable region).start ≤ 2 ^ 63 := by omega
  have hfound := firstFitLoop_isLeast h.retryable hbytes (by omega)
    (alignUp_mod _) (le_alignUp hstart) (alignUp_le hstart)
    (fun place hvacant => alignUp_le_of_le hstart hvacant.aligned hvacant.above) hfit
  simp only [h.vacant_iff_fits hregion hpos] at hfound
  exact hfound

theorem Solid.chooseBitmapLocationIn_firstLowest (h : Solid boot) (hpos : 0 < bytes)
    (hbytes : bytes < 2 ^ 63) :
    ∀ {regions : List MemoryRegion} {location : Nat}, regions ⊆ availableRegions boot →
      chooseBitmapLocationIn boot bytes regions = .ok location →
      (location ≠ 0 → FirstLowest boot bytes regions location) ∧
        (location = 0 → ∀ region ∈ regions, ∀ place, ¬Fits boot bytes region place) := by
  intro regions
  induction regions with
  | nil =>
    intro location _ hchoose
    obtain rfl := Except.ok.inj hchoose
    exact ⟨fun hne => absurd rfl hne, fun _ => List.forall_mem_nil _⟩
  | cons region rest ih =>
    intro location hsub hchoose
    have hregion := hsub (List.mem_cons_self ..)
    have hrestSub : rest ⊆ availableRegions boot :=
      fun _ hr => hsub (List.mem_cons_of_mem region hr)
    -- it is enough that this region has no place and the rest is searched
    have hskip : (∀ place, ¬Fits boot bytes region place) →
        chooseBitmapLocationIn boot bytes rest = .ok location →
        (location ≠ 0 → FirstLowest boot bytes (region :: rest) location) ∧
          (location = 0 → ∀ r ∈ region :: rest, ∀ place, ¬Fits boot bytes r place) := by
      intro hnone hrest
      obtain ⟨hfound, hzero⟩ := ih hrestSub hrest
      exact ⟨fun hne => (hfound hne).cons hnone, fun hz => List.forall_mem_cons.2 ⟨hnone, hzero hz⟩⟩
    rw [chooseBitmapLocationIn] at hchoose
    change (if (usable region).start ≥ (usable region).stop then _ else _) = _ at hchoose
    split at hchoose
    · rename_i hempty
      refine hskip (fun place hfits => ?_) hchoose
      have hvacant := (h.vacant_iff_fits hregion hpos).2 hfits
      have habove := hvacant.above
      have hends := hvacant.ends
      omega
    · rename_i husable
      obtain ⟨found, hfit, hrest⟩ := (bind_ok_iff _ _ _).1 hchoose
      obtain ⟨hleast, hnone⟩ :=
        h.firstFit_isLeast hregion hpos hbytes (Nat.lt_of_not_le husable) hfit
      by_cases hfound : found ≠ 0
      · rw [if_pos hfound] at hrest
        obtain rfl := Except.ok.inj hrest
        exact ⟨fun hne => ⟨[], region, rest, rfl, List.forall_mem_nil _, hleast hne⟩,
          fun hzero => absurd hzero hfound⟩
      · rw [if_neg hfound] at hrest
        exact hskip (hnone (not_not.1 hfound)) hrest

/-- For everything that the loader can report, `ChooseBitmapLocation` ends.
It answers with the lowest place of the first region that has one, and with
zero only if no region has one. -/
theorem bitmap_placement (m : ByteMemory) (info : BitVec 32) (st : Statics) (machine : Handover)
    (hkernel : (kernelRange machine).start < (kernelRange machine).stop)
    (hlinked : (kernelRange machine).stop ≤ 2 ^ 63)
    (hmap : ∀ region ∈ getMemoryRegions m st, region.address + region.length < 2 ^ 64)
    (hmodules : ∀ module ∈ getModules m st, module.start < module.stop)
    (hpos : 0 < bytes) (hbytes : bytes < 2 ^ 63) :
    ∃ location, chooseBitmapLocation (handover m info.toNat st machine) bytes = .ok location ∧
      (location ≠ 0 → FirstLowest (handover m info.toNat st machine) bytes
        (availableRegions (handover m info.toNat st machine)) location) ∧
      (location = 0 → ∀ region ∈ availableRegions (handover m info.toNat st machine),
        ∀ place, ¬Fits (handover m info.toNat st machine) bytes region place) := by
  have hsolid : Solid (handover m info.toNat st machine) :=
    ⟨handover_placed info.isLt hlinked, hkernel, hmodules, hmap⟩
  obtain ⟨location, hchoose⟩ := chooseBitmapLocationIn_terminates hsolid.retryable hbytes
    (availableRegions (handover m info.toNat st machine))
  exact ⟨location, hchoose,
    hsolid.chooseBitmapLocationIn_firstLowest hpos hbytes (List.Subset.refl _) hchoose⟩

/-- Behind the kernel, below the loader's structures and the modules. -/
theorem bitmap_placement_manyModules :
    FirstLowest (handover manyModules 0x130000 (V1.recorded manyModules 0x130000) smallHandover)
      0x8000 (availableRegions
        (handover manyModules 0x130000 (V1.recorded manyModules 0x130000) smallHandover))
      0x120000 := by
  have hchosen : chooseBitmapLocation
      (handover manyModules 0x130000 (V1.recorded manyModules 0x130000) smallHandover) 0x8000 =
        .ok 0x120000 := by
    rw [manyModules_handover]
    decide +kernel
  obtain ⟨location, hchoose, hfound, -⟩ := bitmap_placement manyModules 0x130000
    (V1.recorded manyModules 0x130000) smallHandover (by decide) (by decide) (by decide +kernel)
    (by decide +kernel) (show 0 < 0x8000 by decide) (by decide)
  obtain rfl := Except.ok.inj (hchoose.symm.trans hchosen)
  exact hfound (by decide)

end X64HK.Frame

/-! ## Modules that were not recorded -/

namespace X64HK.Multiboot

open ByteMemory X64HK.Frame

/-- By the handover alone the range is missed by the frame bitmap and by every
frame that is left to hand out. -/
structure Missed (boot : Handover) (range : Range) : Prop where
  frames : ∀ location, FirstLowest boot (bitmapBytes (initialFrameCount boot))
      (availableRegions boot) location →
    ∀ i, Allocatable boot location i → Outside i range
  bitmap : ∀ location, FirstLowest boot (bitmapBytes (initialFrameCount boot))
      (availableRegions boot) location →
    Apart (bitmapRange boot location) range

variable {boot machine : Handover} {s : State} {location : Nat} {range : Range} {m : ByteMemory}
  {magic info : Nat} {st : Statics} {described : List Module}

/-- There is a free frame, and so a bitmap for it. -/
theorem bitmapBytes_pos (h : Initialized boot location s) :
    0 < bitmapBytes (initialFrameCount boot) := by
  have hpos : 0 < s.frameCount := by
    by_contra hzero
    have hnone : {i | isFree s i = true} = ∅ := by
      refine Set.eq_empty_of_forall_notMem fun i hi => ?_
      have hlt := (Bool.and_eq_true_iff.1 hi).1
      rw [decide_eq_true_eq] at hlt
      omega
    have hcount := h.wf.encard_free
    rw [hnone, Set.encard_empty] at hcount
    exact absurd (Nat.cast_eq_zero.1 hcount.symm) (Nat.ne_of_gt h.free_pos)
  rw [h.frameCount] at hpos
  unfold bitmapBytes
  rw [show BITS_PER_WORD = 64 from rfl]
  omega

theorem spared_iff_missed (hinit : initializeState boot = .ok (s, location))
    (hbounded : Bounded boot) (hsolid : Solid boot) :
    Spared boot s location range ↔ Missed boot range := by
  have h := initialized_of_ok hinit
  have hfirst := (hsolid.chooseBitmapLocationIn_firstLowest (bitmapBytes_pos h)
    (bitmapBytes_lt boot) (List.Subset.refl _) h.chosen).1 h.location_ne_zero
  simp only [spared_iff hinit, h.isFree_iff hbounded]
  constructor
  · rintro ⟨hframes, hbitmap⟩
    constructor
    · intro place hplace
      obtain rfl := hplace.unique hfirst
      exact hframes
    · intro place hplace
      obtain rfl := hplace.unique hfirst
      exact hbitmap
  · intro hmissed
    exact ⟨hmissed.frames location hfirst, hmissed.bitmap location hfirst⟩

/-- The first sixteen modules are spared.  The others are exactly when no frame
that is left by the handover has a byte of them, nor the bitmap at its place. -/
theorem modules_spared_iff (h : Describes m info magic described)
    (hboot : Booted m magic info machine st s location) :
    (∀ module ∈ described.take MAX_MODULES,
        Spared (handover m info st machine) s location ⟨module.start, module.stop⟩) ∧
      (Bounded (handover m info st machine) → Solid (handover m info st machine) →
        ((∀ module ∈ described,
            Spared (handover m info st machine) s location ⟨module.start, module.stop⟩) ↔
          ∀ module ∈ described.drop MAX_MODULES,
            Missed (handover m info st machine) ⟨module.start, module.stop⟩)) := by
  refine ⟨hboot.modules_spared h, fun hbounded hsolid => ?_⟩
  simp only [← spared_iff_missed hboot.frames hbounded hsolid]
  constructor
  · intro hall module hmodule
    exact hall module (List.mem_of_mem_drop hmodule)
  · intro hrest module hmodule
    rw [← List.take_append_drop MAX_MODULES described, List.mem_append] at hmodule
    exact hmodule.elim (hboot.modules_spared h module) (hrest module)

/-- The seventeenth module is in a frame that is left. -/
theorem modules_spared_iff_manyModules :
    ¬∀ module ∈ (V1.describedModules manyModules 0x130000).drop MAX_MODULES,
      Missed (handover manyModules 0x130000 (V1.recorded manyModules 0x130000) smallHandover)
        ⟨module.start, module.stop⟩ := by
  have hbounded : Bounded
      (handover manyModules 0x130000 (V1.recorded manyModules 0x130000) smallHandover) := by
    rw [manyModules_handover]
    exact ⟨⟨by decide, by decide, by decide⟩, by decide⟩
  have hsolid : Solid
      (handover manyModules 0x130000 (V1.recorded manyModules 0x130000) smallHandover) := by
    rw [manyModules_handover]
    exact ⟨⟨by decide, by decide, by decide⟩, by decide, by decide, by decide⟩
  intro hmissed
  have hall := ((modules_spared_iff (.v1 manyModules_wellFormed) manyModules_booted).2
    hbounded hsolid).2 hmissed
  have hout := ((spared_iff manyModules_booted.frames).1
    (hall ⟨0x132000, 0x132800⟩ (by decide +kernel))).1 0x132 (by decide +kernel)
  exact hout 0x132000 (by decide) (by decide) (by decide)

/-- The second request is answered with the first frame of the seventeenth
module. -/
theorem seventeenth_module_handed_out :
    Describes manyModules 0x130000 LOADER_MAGIC_V1 (V1.describedModules manyModules 0x130000) ∧
      Booted manyModules LOADER_MAGIC_V1 0x130000 smallHandover
        (V1.recorded manyModules 0x130000) manyModulesFrames 0x120000 ∧
      ⟨0x132000, 0x132800⟩ ∈ V1.describedModules manyModules 0x130000 ∧
      ∃ sys, serveAll ⟨manyModulesFrames, []⟩ [.allocate 15, .allocate 1] = .ok sys ∧
        ∃ run ∈ sys.live, run.address = 0x132000 ∧ run.Holds 0x132 ∧
          ¬Outside 0x132 ⟨0x132000, 0x132800⟩ := by
  have hfirst : (allocate manyModulesFrames 15).1 = 0x121000 := by decide +kernel
  have hsecond : (allocate (allocate manyModulesFrames 15).2 1).1 = 0x132000 := by decide +kernel
  refine ⟨.v1 manyModules_wellFormed, manyModules_booted, by decide +kernel, _, rfl,
    ⟨0x132000, 1, (allocate manyModulesFrames 15).2.reachableFrames⟩, ?_, rfl, by decide, ?_⟩
  · simp [hfirst, hsecond]
  · exact fun hout => hout 0x132000 (by decide) (by decide) (by decide)

end X64HK.Multiboot
