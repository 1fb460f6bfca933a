import X64HK.Memory.FrameLemmas

/-!
# Memory that is never handed out

`Initialize` withdraws the frames of the kernel image and of its own bitmap
before anybody can ask for a frame.  `Outside f range` says that frame `f`
and the range share no byte.

The ranges come from the loader and the linker, and `Physical` says that
they are addresses of the machine at all.  Without it a range could wrap
around, and `FirstFit` could take a place that is not there.

* `isBlocked_some` and `isBlocked_eq_none_iff`: `IsBlocked` looks for an
  obstacle that a place overlaps.
* `chooseBitmapLocationIn_spec`: the bitmap ends below the identity mapped
  limit and overlaps nothing that is in use.
* `Initialized.outside_kernel` and `Initialized.outside_bitmap`: a frame that
  is allocatable is outside of both.
-/

namespace X64HK.Frame

open Multiboot

/-- No byte of the range is in frame `f`. -/
def Outside (f : Nat) (range : Range) : Prop :=
  ∀ a, range.start ≤ a → a < range.stop → a / SIZE ≠ f

/-- The handover speaks about physical memory, whose addresses have 52 bits,
and the kernel is linked behind `KERNEL_VMA`. -/
structure Physical (boot : Handover) : Prop where
  available : ∀ region ∈ availableRegions boot, region.stop ≤ 2 ^ 52
  info : ∀ region ∈ boot.infoRegions, region.stop ≤ 2 ^ 52
  modules : ∀ module ∈ boot.modules, module.stop ≤ 2 ^ 52
  linked : Config.KERNEL_VMA ≤ boot.dataSpan.stop ∧ boot.dataSpan.stop < 2 ^ 64

variable {boot : Handover} {range : Range} {location : Nat} {s : State}

theorem foldl_max_le {regions : List MemoryRegion} {bound : Nat}
    (h : ∀ region ∈ regions, region.stop ≤ bound) :
    ∀ {start : Nat}, start ≤ bound →
      regions.foldl (fun highest region => max highest region.stop) start ≤ bound := by
  induction regions with
  | nil => exact fun hstart => hstart
  | cons region regions ih =>
    intro start hstart
    rw [List.foldl_cons]
    refine ih (fun r hr => h r (List.mem_cons_of_mem _ hr)) ?_
    exact Nat.max_le.2 ⟨hstart, h region (List.mem_cons_self ..)⟩

/-- The number of frames of a machine with 52 bits. -/
theorem initialFrameCount_le_of_available
    (h : ∀ region ∈ availableRegions boot, region.stop ≤ 2 ^ 52) :
    initialFrameCount boot ≤ 2 ^ 40 := by
  have hhigh : highestAvailableAddress boot ≤ 2 ^ 52 := foldl_max_le h (Nat.zero_le _)
  rw [initialFrameCount, show SIZE = 4096 from rfl, wrap64_of_lt (by omega)]
  omega

/-! ## The place of the bitmap -/

theorem Physical.kernelRange_stop (h : Physical boot) : (kernelRange boot).stop < 2 ^ 31 := by
  obtain ⟨hle, hlt⟩ := h.linked
  have hvma : Config.KERNEL_VMA = 2 ^ 64 - 2 ^ 31 := rfl
  change sub64 boot.dataSpan.stop Config.KERNEL_VMA < 2 ^ 31
  rw [sub64_of_le hlt hle]
  omega

/-- What is in memory already, in the order in which `IsBlocked` looks. -/
def obstacles (boot : Handover) : List Range :=
  kernelRange boot ::
    ((boot.infoRegions.filter fun info => info.length ≠ 0).map
      fun info => ⟨info.address, info.stop⟩) ++
    boot.modules.map fun module => ⟨module.start, module.stop⟩

theorem isBlocked_eq (boot : Handover) (range : Range) :
    isBlocked boot range = ((obstacles boot).find? (overlaps range)).map Range.stop := by
  unfold isBlocked obstacles
  rw [List.cons_append, List.find?_cons]
  cases hkernel : overlaps range (kernelRange boot) with
  | true => rfl
  | false =>
    rw [if_neg Bool.false_ne_true, List.find?_append, List.find?_map, List.find?_filter,
      List.find?_map]
    have hinfo : (fun info : MemoryRegion => decide (info.length ≠ 0) &&
        overlaps range ⟨info.address, info.stop⟩) = fun info => decide
          (decide (info.length ≠ 0) = true ∧
            (overlaps range ∘ fun info : MemoryRegion => ⟨info.address, info.stop⟩) info =
              true) := by
      funext info
      rw [Bool.decide_and, Bool.decide_eq_true, Bool.decide_eq_true]
      rfl
    rw [hinfo]
    split
    · rename_i info hfind
      rw [hfind]
      rfl
    · rename_i hfind
      rw [hfind, Option.map_none, Option.none_or, Option.map_map]
      rfl

/-- A place is blocked by an obstacle that it overlaps. -/
theorem isBlocked_some {retryAt : Nat} (h : isBlocked boot range = some retryAt) :
    ∃ obstacle ∈ obstacles boot, overlaps range obstacle = true ∧ retryAt = obstacle.stop := by
  rw [isBlocked_eq] at h
  obtain ⟨obstacle, hfind, rfl⟩ := Option.map_eq_some_iff.1 h
  exact ⟨obstacle, List.mem_of_find?_eq_some hfind, List.find?_some hfind, rfl⟩

theorem isBlocked_eq_none_iff :
    isBlocked boot range = none ↔ ∀ obstacle ∈ obstacles boot, overlaps range obstacle = false := by
  rw [isBlocked_eq, Option.map_eq_none_iff, List.find?_eq_none]
  simp only [Bool.not_eq_true]

/-- What holds of the kernel, of the loader's structures and of the modules
holds of the obstacles. -/
theorem forall_obstacles {P : Range → Prop} :
    (∀ obstacle ∈ obstacles boot, P obstacle) ↔ P (kernelRange boot) ∧
      (∀ info ∈ boot.infoRegions, info.length ≠ 0 → P ⟨info.address, info.stop⟩) ∧
      ∀ module ∈ boot.modules, P ⟨module.start, module.stop⟩ := by
  unfold obstacles
  simp only [List.cons_append, List.forall_mem_cons, List.forall_mem_append, List.forall_mem_map,
    List.mem_filter, decide_eq_true_eq, and_imp]

/-- The address to retry at is the end of something in memory. -/
theorem Physical.isBlocked_le (h : Physical boot) {retryAt : Nat}
    (hblocked : isBlocked boot range = some retryAt) : retryAt ≤ 2 ^ 52 := by
  obtain ⟨obstacle, hmem, -, rfl⟩ := isBlocked_some hblocked
  have hkernel : (kernelRange boot).stop ≤ 2 ^ 52 :=
    Nat.le_of_lt (Nat.lt_of_lt_of_le h.kernelRange_stop (by decide))
  refine (forall_obstacles (P := fun obstacle => obstacle.stop ≤ 2 ^ 52)).2 ⟨hkernel, ?_, ?_⟩
    obstacle hmem
  · exact fun info hinfo _ => h.info info hinfo
  · exact fun module hmodule => h.modules module hmodule

theorem alignUp_le {address : Nat} (h : address ≤ 2 ^ 63) : alignUp address ≤ 2 ^ 63 := by
  unfold alignUp
  rw [show SIZE = 4096 from rfl, wrap64_of_lt (by omega)]
  omega

theorem firstFitStep_cases {bytes start : Nat} {retry : Nat → Outcome Nat}
    (h : firstFitStep boot range bytes start retry = .ok location) :
    location = start ∧ wrap64 (start + bytes) ≤ range.stop ∧
        isBlocked boot ⟨start, wrap64 (start + bytes)⟩ = none ∨
      location = 0 ∧ range.stop < wrap64 (start + bytes) ∨
      ∃ retryAt, isBlocked boot ⟨start, wrap64 (start + bytes)⟩ = some retryAt ∧
        retry (alignUp retryAt) = .ok location := by
  unfold firstFitStep at h
  split at h
  · rename_i hle
    split at h
    · rename_i hfree
      exact Or.inl ⟨(Except.ok.inj h).symm, hle, hfree⟩
    · rename_i retryAt hblocked
      exact Or.inr (Or.inr ⟨retryAt, hblocked, h⟩)
  · rename_i hends
    exact Or.inr (Or.inl ⟨(Except.ok.inj h).symm, Nat.lt_of_not_le hends⟩)

/-- Nothing that blocks a place ends in the upper half of the addresses, so
that a search that starts over behind it does not wrap around. -/
def Retryable (boot : Handover) : Prop :=
  ∀ {range : Range} {retryAt : Nat}, isBlocked boot range = some retryAt → retryAt ≤ 2 ^ 63

theorem Physical.retryable (h : Physical boot) : Retryable boot :=
  fun hblocked => Nat.le_trans (h.isBlocked_le hblocked) (by decide)

/-- What `FirstFit` finds ends inside the range and is not in use. -/
theorem firstFitLoop_spec (h : Retryable boot) {bytes : Nat} (hbytes : bytes < 2 ^ 63) :
    ∀ {fuel start location : Nat}, start ≤ 2 ^ 63 →
      firstFitLoop boot range bytes start fuel = .ok location → location ≠ 0 →
      location + bytes ≤ range.stop ∧ isBlocked boot ⟨location, location + bytes⟩ = none := by
  intro fuel
  induction fuel with
  | zero =>
    intro start location _ hfit
    exact absurd hfit nofun
  | succ fuel ih =>
    intro start location hstart hfit hne
    rw [firstFitLoop] at hfit
    rcases firstFitStep_cases hfit with ⟨rfl, hle, hfree⟩ | ⟨hzero, -⟩ | ⟨retryAt, hblocked, hretry⟩
    · rw [wrap64_of_lt (by omega)] at hle hfree
      exact ⟨hle, hfree⟩
    · exact absurd hzero hne
    · exact ih (alignUp_le (h hblocked)) hretry hne

theorem chooseBitmapLocationIn_spec (h : Retryable boot) {bytes : Nat} (hbytes : bytes < 2 ^ 63) :
    ∀ {regions : List MemoryRegion} {location : Nat},
      chooseBitmapLocationIn boot bytes regions = .ok location → location ≠ 0 →
      location + bytes ≤ Config.IDENTITY_MAPPED_LIMIT ∧
        isBlocked boot ⟨location, location + bytes⟩ = none := by
  have hlimit : Config.IDENTITY_MAPPED_LIMIT = 2 ^ 32 := rfl
  intro regions
  induction regions with
  | nil =>
    intro location hchoose hne
    exact absurd (Except.ok.inj hchoose).symm hne
  | cons region rest ih =>
    intro location hchoose hne
    rw [chooseBitmapLocationIn] at hchoose
    dsimp only at hchoose
    split at hchoose
    · exact ih hchoose hne
    · rename_i husable
      obtain ⟨found, hfit, hrest⟩ := (bind_ok_iff _ _ _).1 hchoose
      by_cases hfound : found ≠ 0
      · rw [if_pos hfound] at hrest
        obtain rfl := Except.ok.inj hrest
        have hstart : max region.address MIB ≤ 2 ^ 63 := by omega
        obtain ⟨hle, hfree⟩ := firstFitLoop_spec h hbytes (alignUp_le hstart) hfit hne
        simp only at hle
        exact ⟨by omega, hfree⟩
      · rw [if_neg hfound] at hrest
        exact ih hrest hne

/-- The bitmap stands below the identity mapped limit. -/
theorem Initialized.bitmap_le (h : Initialized boot location s) (hphysical : Physical boot) :
    location + bitmapBytes (initialFrameCount boot) ≤ Config.IDENTITY_MAPPED_LIMIT := by
  refine (chooseBitmapLocationIn_spec hphysical.retryable ?_ h.chosen h.location_ne_zero).1
  have hle := initialFrameCount_le_of_available hphysical.available
  unfold bitmapBytes BITS_PER_WORD
  omega

/-! ## Allocatable frames -/

/-- An allocatable frame is outside of every range that `Initialize`
withdrew, as long as the end of the range does not wrap around. -/
theorem Initialized.outside (h : Initialized boot location s)
    (hrange : range ∈ usedRanges boot location) (hstop : range.stop + SIZE ≤ 2 ^ 64) {f : Nat}
    (hf : isTaken s f = false) (hlt : f < s.frameCount) : Outside f range := by
  rintro a hlo hhi rfl
  have htouch : Touches s.frameCount range (a / SIZE) := by
    refine ⟨by omega, Nat.div_le_div_right hlo, Nat.lt_min.2 ⟨?_, hlt⟩⟩
    rw [show SIZE = 4096 from rfl] at *
    rw [wrap64_of_lt (by omega)]
    omega
  rw [h.isTaken_of_touches hrange htouch] at hf
  exact Bool.noConfusion hf

theorem Initialized.outside_kernel (h : Initialized boot location s) (hphysical : Physical boot)
    {f : Nat} (hf : isTaken s f = false) (hlt : f < s.frameCount) :
    Outside f (kernelRange boot) := by
  have hstop := hphysical.kernelRange_stop
  refine h.outside (by simp [usedRanges]) ?_ hf hlt
  rw [show SIZE = 4096 from rfl]
  omega

/-- The bytes of the frame bitmap. -/
def bitmapRange (boot : Handover) (location : Nat) : Range :=
  ⟨location, location + bitmapBytes (initialFrameCount boot)⟩

theorem Initialized.outside_bitmap (h : Initialized boot location s) (hphysical : Physical boot)
    {f : Nat} (hf : isTaken s f = false) (hlt : f < s.frameCount) :
    Outside f (bitmapRange boot location) := by
  have hle := h.bitmap_le hphysical
  have hlimit : Config.IDENTITY_MAPPED_LIMIT = 2 ^ 32 := rfl
  refine h.outside ?_ ?_ hf hlt
  · simp only [usedRanges, bitmapRange, wrap64_of_lt (show location +
      bitmapBytes (initialFrameCount boot) < 2 ^ 64 by omega)]
    simp
  · rw [show SIZE = 4096 from rfl]
    simp only [bitmapRange]
    omega

end X64HK.Frame
