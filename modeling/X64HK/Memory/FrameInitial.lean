import Mathlib.Data.Set.Card
import X64HK.Memory.FrameReserved
import X64HK.Memory.FrameRuns

/-!
# What `Initialize` makes allocatable

`Initialized.isTaken_eq` says which frames are free in the words of the two
loops: rounded to frames, clamped to the bitmap and wrapped to 64 bits.  This
module says it in the words of the memory map.  A frame is free exactly when
one available region holds all of its bytes and nobody who is in memory
already has any of them.

* `firstFitLoop_terminates`: the search for a place of the bitmap ends, so
  `Initialize` stops only by one of its two panics.
* `Initialized.bitmap_placed`: the bitmap overlaps nothing that is in use.
* `contains_iff` and `not_touches_iff` turn the bounds of the loops into
  statements about bytes.
* `Wf.encard_free` reads the counter of free frames as the number of
  frames.
* `frames_after_initialize` is the sum.
-/

namespace X64HK.Frame

open Multiboot

/-- A frame that `Allocate` may hand out. -/
def isFree (s : State) (i : Nat) : Bool := decide (i < s.frameCount) && !isTaken s i

/-- One available region holds every byte of frame `i`. -/
def WhollyAvailable (boot : Handover) (i : Nat) : Prop :=
  ∃ region ∈ availableRegions boot,
    region.address ≤ SIZE * i ∧ SIZE * (i + 1) ≤ region.address + region.length

/-- Frame `i` is in available memory and shares no byte with anything that is
in memory before the allocator is. -/
structure Allocatable (boot : Handover) (location i : Nat) : Prop where
  available : WhollyAvailable boot i
  low : Outside i ⟨0, MIB⟩
  kernel : Outside i (kernelRange boot)
  info : ∀ info ∈ boot.infoRegions, info.length ≠ 0 →
    Outside i ⟨info.address, info.address + info.length⟩
  modules : ∀ module ∈ boot.modules, module.start < module.stop →
    Outside i ⟨module.start, module.stop⟩
  bitmap : Outside i (bitmapRange boot location)

/-- The loader's structures, the modules and the kernel are in the lower half
of the address space.  They have 32-bit addresses, so this leaves out nothing
that can be recorded. -/
structure Placed (boot : Handover) : Prop where
  info : ∀ info ∈ boot.infoRegions, info.address + info.length ≤ 2 ^ 63
  modules : ∀ module ∈ boot.modules, module.stop ≤ 2 ^ 63
  kernel : (kernelRange boot).stop ≤ 2 ^ 63

/-- The memory map ends a frame below the end of the address space. -/
structure Bounded (boot : Handover) : Prop extends Placed boot where
  regions : ∀ region ∈ boot.memoryRegions, region.address + region.length ≤ 2 ^ 64 - 4096

variable {boot : Handover} {s : State} {location : Nat} {region : MemoryRegion} {range : Range}

theorem Bounded.available (h : Bounded boot) (hregion : region ∈ availableRegions boot) :
    region.address + region.length ≤ 2 ^ 64 - 4096 :=
  h.regions region (List.mem_of_mem_filter hregion)

theorem Bounded.stop_available (h : Bounded boot) (hregion : region ∈ availableRegions boot) :
    region.stop = region.address + region.length := by
  have hle := h.available hregion
  exact wrap64_of_lt (by omega)

theorem Placed.stop_info (h : Placed boot) {info : MemoryRegion}
    (hinfo : info ∈ boot.infoRegions) : info.stop = info.address + info.length := by
  have hle := h.info info hinfo
  exact wrap64_of_lt (by omega)

/-! ## The search for a place -/

/-- A place is blocked by something that ends behind its start. -/
theorem isBlocked_gt {retryAt : Nat} (h : isBlocked boot range = some retryAt) :
    range.start < retryAt := by
  obtain ⟨obstacle, -, hoverlaps, rfl⟩ := isBlocked_some h
  rw [overlaps, Bool.and_eq_true, decide_eq_true_eq] at hoverlaps
  exact hoverlaps.1

theorem Placed.obstacle_le (h : Placed boot) {obstacle : Range}
    (hobstacle : obstacle ∈ obstacles boot) : obstacle.stop ≤ 2 ^ 63 := by
  refine (forall_obstacles (P := fun obstacle => obstacle.stop ≤ 2 ^ 63)).2 ⟨h.kernel, ?_, ?_⟩
    obstacle hobstacle
  · intro info hinfo _
    rw [h.stop_info hinfo]
    exact h.info info hinfo
  · exact fun module hmodule => h.modules module hmodule

theorem Placed.retryable (h : Placed boot) : Retryable boot := by
  intro range retryAt hblocked
  obtain ⟨obstacle, hobstacle, -, rfl⟩ := isBlocked_some hblocked
  exact h.obstacle_le hobstacle

theorem bitmapBytes_lt (boot : Handover) : bitmapBytes (initialFrameCount boot) < 2 ^ 63 := by
  have hle := initialFrameCount_le boot
  unfold bitmapBytes BITS_PER_WORD
  omega

/-- The next start is a frame further at least. -/
theorem alignUp_gt {start address : Nat} (hstart : start % SIZE = 0) (hlt : start < address)
    (hle : address ≤ 2 ^ 63) :
    alignUp address % SIZE = 0 ∧ start / SIZE + 1 ≤ alignUp address / SIZE := by
  unfold alignUp
  rw [show SIZE = 4096 from rfl] at *
  rw [wrap64_of_lt (by omega)]
  omega

theorem firstFitStep_terminates {bytes start : Nat}
    {retry : Nat → Outcome Nat}
    (h : ∀ retryAt, wrap64 (start + bytes) ≤ range.stop →
      isBlocked boot ⟨start, wrap64 (start + bytes)⟩ = some retryAt →
      ∃ found, retry (alignUp retryAt) = .ok found) :
    ∃ found, firstFitStep boot range bytes start retry = .ok found := by
  unfold firstFitStep
  split
  · rename_i hfits
    split
    · exact ⟨start, rfl⟩
    · rename_i retryAt hblocked
      exact h retryAt hfits hblocked
  · exact ⟨0, rfl⟩

/-- The loop of `FirstFit` ends.  It goes on only while the place ends in
the range, and each round moves the start up by a frame at least. -/
theorem firstFitLoop_terminates (h : Retryable boot) {bytes : Nat} (hbytes : bytes < 2 ^ 63) :
    ∀ {fuel start : Nat}, start % SIZE = 0 → start ≤ 2 ^ 63 → 1 ≤ fuel →
      range.stop / SIZE + 2 ≤ start / SIZE + fuel →
      ∃ found, firstFitLoop boot range bytes start fuel = .ok found := by
  intro fuel
  induction fuel with
  | zero =>
    intro start _ _ hfuel
    exact absurd hfuel (by decide)
  | succ fuel ih =>
    intro start haligned hstart _ hfuel
    refine firstFitStep_terminates fun retryAt hfits hblocked => ?_
    rw [wrap64_of_lt (by omega)] at hfits
    have hretry := h hblocked
    obtain ⟨haligned', hnext⟩ := alignUp_gt haligned (isBlocked_gt hblocked) hretry
    have hin : start / SIZE ≤ range.stop / SIZE := Nat.div_le_div_right (by omega)
    exact ih haligned' (alignUp_le hretry) (by omega) (by omega)

theorem chooseBitmapLocationIn_terminates (h : Retryable boot) {bytes : Nat}
    (hbytes : bytes < 2 ^ 63) (regions : List MemoryRegion) :
    ∃ found, chooseBitmapLocationIn boot bytes regions = .ok found := by
  induction regions with
  | nil => exact ⟨0, rfl⟩
  | cons region rest ih =>
    rw [chooseBitmapLocationIn]
    dsimp only
    split
    · exact ih
    · rename_i husable
      have hlimit : Config.IDENTITY_MAPPED_LIMIT = 2 ^ 32 := rfl
      have hstart : max region.address MIB ≤ 2 ^ 63 := by omega
      have haligned : alignUp (max region.address MIB) % SIZE = 0 := Nat.mul_mod_left _ _
      obtain ⟨found, hfit⟩ : ∃ found, firstFit boot ⟨max region.address MIB,
          min region.stop Config.IDENTITY_MAPPED_LIMIT⟩ bytes = .ok found :=
        firstFitLoop_terminates h hbytes haligned (alignUp_le hstart)
          (Nat.le_add_left 1 _) (Nat.le_add_left _ _)
      obtain ⟨rest', hrest⟩ := ih
      rw [hfit, hrest]
      by_cases hfound : found ≠ 0
      · exact ⟨found, by simp [hfound, bind, Except.bind, pure, Except.pure]⟩
      · exact ⟨rest', by simp [hfound, bind, Except.bind]⟩

/-- `Initialize` stops by a panic or not at all. -/
theorem initializeState_terminates (h : Placed boot) :
    initializeState boot ≠ .error .outOfFuel := by
  obtain ⟨found, hchoose⟩ := chooseBitmapLocationIn_terminates h.retryable
    (bitmapBytes_lt boot) (availableRegions boot)
  unfold initializeState chooseBitmapLocation
  dsimp only
  rw [hchoose]
  by_cases hfound : found = 0
  · simp [hfound, bind, Except.bind]
  · simp only [hfound, if_false, bind, Except.bind, pure, Except.pure]
    split
    · simp
    · simp

/-- The bitmap ends below the identity mapped limit and overlaps nothing
that is in use. -/
theorem Initialized.bitmap_placed (h : Initialized boot location s) (hplaced : Placed boot) :
    location + bitmapBytes (initialFrameCount boot) ≤ Config.IDENTITY_MAPPED_LIMIT ∧
      isBlocked boot (bitmapRange boot location) = none :=
  chooseBitmapLocationIn_spec hplaced.retryable (bitmapBytes_lt boot) h.chosen h.location_ne_zero

/-! ## Frames and bytes -/

theorem le_foldl_max (regions : List MemoryRegion) (start : Nat) :
    start ≤ regions.foldl (fun highest region => max highest region.stop) start ∧
      ∀ region ∈ regions, region.stop ≤
        regions.foldl (fun highest region => max highest region.stop) start := by
  induction regions generalizing start with
  | nil => exact ⟨Nat.le_refl _, nofun⟩
  | cons first rest ih =>
    obtain ⟨hstart, hrest⟩ := ih (max start first.stop)
    rw [List.foldl_cons]
    refine ⟨Nat.le_trans (Nat.le_max_left _ _) hstart, fun region hregion => ?_⟩
    rcases List.mem_cons.1 hregion with rfl | hmem
    · exact Nat.le_trans (Nat.le_max_right _ _) hstart
    · exact hrest region hmem

/-- Every frame of an available region has a bit. -/
theorem Bounded.lt_frameCount (h : Bounded boot) (hregion : region ∈ availableRegions boot)
    {i : Nat} (hi : SIZE * (i + 1) ≤ region.address + region.length) :
    i < initialFrameCount boot := by
  have hstop := (le_foldl_max (availableRegions boot) 0).2 region hregion
  have hhigh : highestAvailableAddress boot ≤ 2 ^ 64 - 4096 := by
    refine foldl_max_le (fun r hr => ?_) (Nat.zero_le _)
    rw [h.stop_available hr]
    exact h.available hr
  change region.stop ≤ highestAvailableAddress boot at hstop
  rw [h.stop_available hregion] at hstop
  rw [initialFrameCount]
  rw [show SIZE = 4096 from rfl] at *
  rw [wrap64_of_lt (by omega)]
  omega

/-- `Add` rounds inwards. -/
theorem contains_iff (h : Bounded boot) (hregion : region ∈ availableRegions boot) (i : Nat) :
    Contains (initialFrameCount boot) ⟨region.address, region.stop⟩ i ↔
      region.address ≤ SIZE * i ∧ SIZE * (i + 1) ≤ region.address + region.length := by
  have hle := h.available hregion
  have hlt := fun hi => h.lt_frameCount hregion (i := i) hi
  rw [Contains, h.stop_available hregion]
  rw [show SIZE = 4096 from rfl] at *
  dsimp only
  rw [wrap64_of_lt (by omega), Nat.lt_min]
  constructor
  · rintro ⟨hlo, hhi, _⟩
    omega
  · rintro ⟨hlo, hhi⟩
    exact ⟨by omega, by omega, hlt hhi⟩

theorem any_contains_iff (h : Bounded boot) (i : Nat) :
    ((availableRegions boot).any fun region => decide
      (Contains (initialFrameCount boot) ⟨region.address, region.stop⟩ i)) = true ↔
      WhollyAvailable boot i := by
  rw [List.any_eq_true]
  constructor
  · rintro ⟨region, hregion, hin⟩
    exact ⟨region, hregion, (contains_iff h hregion i).1 (of_decide_eq_true hin)⟩
  · rintro ⟨region, hregion, hin⟩
    exact ⟨region, hregion, decide_eq_true ((contains_iff h hregion i).2 hin)⟩

/-- `Reserve` rounds outwards. -/
theorem not_touches_iff (hstop : range.stop + SIZE ≤ 2 ^ 64) {frameCount i : Nat}
    (hi : i < frameCount) :
    ¬Touches frameCount range i ↔ Outside i range := by
  rw [Touches, Nat.lt_min]
  unfold Outside
  rw [show SIZE = 4096 from rfl] at *
  rw [wrap64_of_lt (by omega)]
  constructor
  · rintro hnot a hlo hhi rfl
    exact hnot ⟨by omega, by omega, by omega, hi⟩
  · rintro hout ⟨hlt, hlo, hhi, _⟩
    -- the first byte that the frame and the range share
    exact hout (max range.start (4096 * i)) (by omega) (by omega) (by omega)

/-- An empty range has no bytes. -/
theorem outside_of_le (h : range.stop ≤ range.start) (i : Nat) :
    Outside i range := fun a hlo hhi => by omega

/-- No range that `Initialize` withdraws touches the frame. -/
theorem unused_iff (h : Initialized boot location s) (hbounded : Bounded boot) {i : Nat}
    (hi : i < initialFrameCount boot) :
    (∀ range ∈ usedRanges boot location, ¬Touches (initialFrameCount boot) range i) ↔
      Outside i ⟨0, MIB⟩ ∧ Outside i (kernelRange boot) ∧
        (∀ info ∈ boot.infoRegions, info.length ≠ 0 →
          Outside i ⟨info.address, info.address + info.length⟩) ∧
        (∀ module ∈ boot.modules, module.start < module.stop →
          Outside i ⟨module.start, module.stop⟩) ∧
        Outside i (bitmapRange boot location) := by
  have hsize : SIZE = 4096 := rfl
  have hmib : MIB = 2 ^ 20 := rfl
  have hlimit : Config.IDENTITY_MAPPED_LIMIT = 2 ^ 32 := rfl
  have hkernel := hbounded.kernel
  have hbitmap := (h.bitmap_placed hbounded.toPlaced).1
  have hwrap : (⟨location, wrap64 (location + bitmapBytes (initialFrameCount boot))⟩ : Range) =
      bitmapRange boot location := by
    rw [wrap64_of_lt (by omega)]
    rfl
  have hinfo : ∀ info ∈ boot.infoRegions,
      (¬Touches (initialFrameCount boot) ⟨info.address, info.stop⟩ i ↔
        (info.length ≠ 0 → Outside i ⟨info.address, info.address + info.length⟩)) := by
    intro info hmem
    have hle := hbounded.info info hmem
    rw [hbounded.stop_info hmem, not_touches_iff (by simp only; omega) hi]
    refine ⟨fun hout _ => hout, fun hout => ?_⟩
    by_cases hzero : info.length = 0
    · exact outside_of_le (by simp [hzero]) i
    · exact hout hzero
  have hmodule : ∀ module ∈ boot.modules,
      (¬Touches (initialFrameCount boot) ⟨module.start, module.stop⟩ i ↔
        (module.start < module.stop → Outside i ⟨module.start, module.stop⟩)) := by
    intro module hmem
    have hle := hbounded.modules module hmem
    rw [not_touches_iff (by simp only; omega) hi]
    refine ⟨fun hout _ => hout, fun hout => ?_⟩
    by_cases hlt : module.start < module.stop
    · exact hout hlt
    · exact outside_of_le (Nat.le_of_not_lt hlt) i
  simp only [usedRanges, hwrap, List.mem_append, List.mem_cons, List.not_mem_nil, or_false,
    List.mem_map]
  constructor
  · intro hall
    refine ⟨(not_touches_iff (by simp only; omega) hi).1 (hall _ (by simp)),
      (not_touches_iff (by omega) hi).1 (hall _ (by simp)), ?_, ?_,
      (not_touches_iff (by simp only [bitmapRange]; omega) hi).1 (hall _ (by simp))⟩
    · intro info hmem
      exact (hinfo info hmem).1 (hall _ (Or.inl (Or.inl (Or.inr ⟨info, hmem, rfl⟩))))
    · intro module hmem
      exact (hmodule module hmem).1 (hall _ (Or.inl (Or.inr ⟨module, hmem, rfl⟩)))
  · rintro ⟨hlow, hker, hinfos, hmodules, hbit⟩ range hrange
    rcases hrange with (((rfl | rfl) | ⟨info, hmem, rfl⟩) | ⟨module, hmem, rfl⟩) | rfl
    · exact (not_touches_iff (by simp only; omega) hi).2 hlow
    · exact (not_touches_iff (by omega) hi).2 hker
    · exact (hinfo info hmem).2 (hinfos info hmem)
    · exact (hmodule module hmem).2 (hmodules module hmem)
    · exact (not_touches_iff (by simp only [bitmapRange]; omega) hi).2 hbit

/-- A frame is free exactly when it is allocatable. -/
theorem Initialized.isFree_iff (h : Initialized boot location s) (hbounded : Bounded boot)
    (i : Nat) : isFree s i = true ↔ Allocatable boot location i := by
  unfold isFree
  rw [Bool.and_eq_true, decide_eq_true_eq, h.frameCount]
  constructor
  · rintro ⟨hi, htaken⟩
    rw [h.isTaken_eq i (by rw [h.frameCount]; exact hi), h.frameCount, Bool.not_or,
      Bool.and_eq_true, Bool.not_not, any_contains_iff hbounded] at htaken
    obtain ⟨havailable, hunused⟩ := htaken
    obtain ⟨hlow, hkernel, hinfo, hmodules, hbitmap⟩ :=
      (unused_iff h hbounded hi).1 (by simpa using hunused)
    exact ⟨havailable, hlow, hkernel, hinfo, hmodules, hbitmap⟩
  · intro hall
    obtain ⟨region, hregion, hin⟩ := hall.available
    have hi := hbounded.lt_frameCount hregion hin.2
    have hunused := (unused_iff h hbounded hi).2
      ⟨hall.low, hall.kernel, hall.info, hall.modules, hall.bitmap⟩
    refine ⟨hi, ?_⟩
    rw [h.isTaken_eq i (by rw [h.frameCount]; exact hi), h.frameCount, Bool.not_or,
      Bool.and_eq_true, Bool.not_not, any_contains_iff hbounded]
    exact ⟨hall.available, by simpa using hunused⟩

/-! ## The counters -/

/-- The counter of a well-formed state is the number of its free frames. -/
theorem Wf.encard_free (h : Wf s) : {i | isFree s i = true}.encard = s.freeFrames := by
  have hset : {i | isFree s i = true} =
      ((Finset.range (BITS_PER_WORD * s.taken.length)).filter
        (fun i => (!Bitmap.test s.taken i) = true) : Set Nat) := by
    ext i
    simp only [isFree, isTaken, Bool.and_eq_true, decide_eq_true_eq, Set.mem_ofPred_eq,
      Finset.coe_filter, Finset.mem_range]
    refine and_congr_left fun hclear => ⟨fun hi => h.bit_lt hi, fun hi => ?_⟩
    by_contra hge
    have htail : Bitmap.test s.taken i = true := h.tail i (Nat.le_of_not_lt hge) hi
    rw [htail] at hclear
    exact Bool.noConfusion hclear
  rw [hset, Set.encard_coe_eq_coe_finsetCard, h.free_eq, Bitmap.clearCount,
    List.countP_eq_length_filter]
  norm_cast
  rw [← List.toFinset_card_of_nodup (List.nodup_range.filter _)]
  congr 1
  ext i
  simp

theorem addFrame_total {s : State} (h : s.totalFrames = s.freeFrames) (i : Nat) :
    (addFrame s i).totalFrames = (addFrame s i).freeFrames := by
  unfold addFrame
  split
  · exact congrArg (· + 1) h
  · exact h

theorem reserveFrame_total (s : State) (i : Nat) :
    (reserveFrame s i).totalFrames = s.totalFrames := by
  unfold reserveFrame
  split
  · rfl
  · rfl

/-- Until something is withdrawn, every frame that was added is free. -/
theorem addAvailableMemory_total (boot : Handover) {s : State} (h : s.totalFrames = s.freeFrames) :
    (addAvailableMemory boot s).totalFrames = (addAvailableMemory boot s).freeFrames := by
  refine List.foldlRecOn (motive := fun s : State => s.totalFrames = s.freeFrames) _ _ h
    fun s hs region _ => ?_
  exact List.foldlRecOn (motive := fun s : State => s.totalFrames = s.freeFrames) _ _ hs
    fun s hs i _ => addFrame_total hs i

theorem reserve_total (s : State) (start stop : Nat) :
    (reserve s start stop).totalFrames = s.totalFrames := by
  unfold reserve
  split
  · rfl
  · exact List.foldlRecOn (motive := fun s' : State => s'.totalFrames = s.totalFrames) _ _ rfl
      fun s' hs i _ => (reserveFrame_total s' i).trans hs

theorem foldl_reserve_total (ranges : List Range) (s : State) :
    (ranges.foldl (fun s r => reserve s r.start r.stop) s).totalFrames = s.totalFrames :=
  List.foldlRecOn (motive := fun s' : State => s'.totalFrames = s.totalFrames) _ _ rfl
    fun s' hs r _ => (reserve_total s' r.start r.stop).trans hs

/-- `s_TotalFrames` counts the frames in available memory, whoever uses
them. -/
theorem encard_whollyAvailable (hbounded : Bounded boot)
    (hinit : initializeState boot = .ok (s, location)) :
    {i | WhollyAvailable boot i}.encard = s.totalFrames := by
  obtain ⟨added, hadded⟩ : ∃ added, added =
      addAvailableMemory boot (blank (initialFrameCount boot)) := ⟨_, rfl⟩
  have htotal : s.totalFrames = added.totalFrames := by
    unfold initializeState at hinit
    simp only [bind_ok_iff] at hinit
    obtain ⟨loc, _, hinit⟩ := hinit
    split at hinit
    · exact absurd hinit nofun
    split at hinit
    · exact absurd hinit nofun
    obtain ⟨rfl, rfl⟩ := Prod.mk.inj (Except.ok.inj hinit)
    rw [← foldl_usedRanges, foldl_reserve_total, hadded]
  have hfree : added.totalFrames = added.freeFrames := by
    rw [hadded]
    exact addAvailableMemory_total boot rfl
  obtain ⟨hwf, hshape, hbit⟩ :=
    addAvailableMemory_spec boot (blank_wf (initialFrameCount_le boot))
  rw [← hadded] at hwf hshape hbit
  rw [htotal, hfree, ← hwf.encard_free]
  congr 1
  ext i
  rw [Set.mem_ofPred_eq, Set.mem_ofPred_eq, isFree, hshape.frameCount, hbit i]
  have hcount : (blank (initialFrameCount boot)).frameCount = initialFrameCount boot := rfl
  rw [hcount, Bool.and_eq_true, decide_eq_true_eq, ← any_contains_iff hbounded]
  constructor
  · intro havailable
    obtain ⟨region, hregion, hin⟩ := (any_contains_iff hbounded i).1 havailable
    exact ⟨hbounded.lt_frameCount hregion hin.2, by rw [havailable]; simp⟩
  · rintro ⟨hi, htaken⟩
    rw [isTaken_blank hi, Bool.true_and, Bool.not_not] at htaken
    exact htaken

/-- `Initialize` either panics or leaves exactly the allocatable frames free,
and its counters count them. -/
theorem frames_after_initialize (hbounded : Bounded boot) :
    initializeState boot ≠ .error .outOfFuel ∧
      ∀ s location, initializeState boot = .ok (s, location) →
        (∀ i, isFree s i = true ↔ Allocatable boot location i) ∧
        {i | Allocatable boot location i}.encard = s.freeFrames ∧
        {i | WhollyAvailable boot i}.encard = s.totalFrames := by
  refine ⟨initializeState_terminates hbounded.toPlaced, fun s location hinit => ?_⟩
  have hboot := initialized_of_ok hinit
  have hiff := hboot.isFree_iff hbounded
  refine ⟨hiff, ?_, encard_whollyAvailable hbounded hinit⟩
  rw [← hboot.wf.encard_free]
  simp only [hiff]

/-- On the small machine 31 of 223 frames are left. -/
theorem frames_after_initialize_small :
    Bounded smallHandover ∧ {i | Allocatable smallHandover 0x120000 i}.encard = 31 ∧
      {i | WhollyAvailable smallHandover i}.encard = 223 := by
  have hbounded : Bounded smallHandover :=
    ⟨⟨nofun, nofun, by decide⟩, by decide⟩
  obtain ⟨_, hall⟩ := frames_after_initialize hbounded
  obtain ⟨_, hfree, htotal⟩ := hall _ _ initializeState_small
  exact ⟨hbounded, hfree, htotal⟩

end X64HK.Frame
