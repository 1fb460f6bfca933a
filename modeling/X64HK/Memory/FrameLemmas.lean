import X64HK.Memory.Frame

/-!
# What the operations of the frame allocator do to the bitmap

`Wf` is what every operation of `X64HK.Memory.Frame` keeps: the bitmap has
a bit for every frame, the bits past the last frame are set, and
`freeFrames` is the number of clear bits.  One lemma per operation says
which bits it changes, in terms of `isTaken` alone.  The modules above use
these lemmas and never unfold a loop of the allocator.

* `isTaken_add` and `isTaken_reserve` are the two loops of `Initialize`,
  and `initializeState_wf` is their sum.
* `allocate_cases` says that `allocate` either changes nothing and answers
  zero, or takes a run of clear frames below the reachable limit.
* `free_spec` says that `free` clears the bits of a run that is taken.
-/

namespace X64HK.Frame

open Multiboot

structure Wf (s : State) : Prop where
  length_eq : s.taken.length = (s.frameCount + BITS_PER_WORD - 1) / BITS_PER_WORD
  /-- The bits of the last word that stand for no frame are set. -/
  tail : ∀ i, s.frameCount ≤ i → i < BITS_PER_WORD * s.taken.length → isTaken s i = true
  free_eq : s.freeFrames = Bitmap.clearCount s.taken
  reachable_le : s.reachableFrames ≤ s.frameCount
  frameCount_le : s.frameCount ≤ 2 ^ 52

variable {s : State} {i count first location : Nat} {boot : Handover}

/-! ## Single bits -/

theorem Wf.word_lt (h : Wf s) (hi : i < s.frameCount) : i / BITS_PER_WORD < s.taken.length := by
  rw [h.length_eq]
  unfold BITS_PER_WORD
  omega

theorem Wf.bit_lt (h : Wf s) (hi : i < s.frameCount) : i < BITS_PER_WORD * s.taken.length :=
  Bitmap.lt_of_div_lt (by decide) (h.word_lt hi)

theorem Wf.free_le (h : Wf s) : s.freeFrames ≤ s.frameCount + 63 := by
  have hlen := List.countP_le_length (p := fun i => !Bitmap.test s.taken i)
    (l := List.range (BITS_PER_WORD * s.taken.length))
  rw [List.length_range] at hlen
  rw [h.free_eq, Bitmap.clearCount]
  refine Nat.le_trans hlen ?_
  rw [h.length_eq]
  unfold BITS_PER_WORD
  omega

theorem isTaken_release (h : Wf s) (hi : i < s.frameCount) (j : Nat) :
    isTaken (release s i) j = (decide (i ≠ j) && isTaken s j) :=
  Bitmap.test_unmark (by decide) (h.word_lt hi) j

/-! ## The loops of `Initialize` -/

/-- The frames that `Reserve` withdraws: every frame the range touches. -/
def Touches (frameCount : Nat) (r : Range) (j : Nat) : Prop :=
  r.start < r.stop ∧ r.start / SIZE ≤ j ∧ j < min (wrap64 (r.stop + SIZE - 1) / SIZE) frameCount

/-- The frames that `Add` makes allocatable: every whole frame in the
range. -/
def Contains (frameCount : Nat) (r : Range) (j : Nat) : Prop :=
  wrap64 (r.start + SIZE - 1) / SIZE ≤ j ∧ j < min (r.stop / SIZE) frameCount

instance (frameCount : Nat) (r : Range) (j : Nat) : Decidable (Touches frameCount r j) :=
  inferInstanceAs (Decidable (_ ∧ _))

instance (frameCount : Nat) (r : Range) (j : Nat) : Decidable (Contains frameCount r j) :=
  inferInstanceAs (Decidable (_ ∧ _))

/-- What stays the same while the bitmap is filled. -/
structure SameShape (s s' : State) : Prop where
  frameCount : s'.frameCount = s.frameCount
  reachableFrames : s'.reachableFrames = s.reachableFrames
  nextIndex : s'.nextIndex = s.nextIndex
  length : s'.taken.length = s.taken.length

theorem SameShape.refl (s : State) : SameShape s s := ⟨rfl, rfl, rfl, rfl⟩

theorem SameShape.trans {s' s'' : State} (h : SameShape s s') (h' : SameShape s' s'') :
    SameShape s s'' :=
  ⟨h'.frameCount.trans h.frameCount, h'.reachableFrames.trans h.reachableFrames,
    h'.nextIndex.trans h.nextIndex, h'.length.trans h.length⟩

/-- A state with the bits of a well-formed one, up to frames, is well
formed as soon as its counter is right. -/
theorem Wf.of_sameShape (h : Wf s) {s' : State} (hs : SameShape s s')
    (htail : ∀ i, s.frameCount ≤ i → isTaken s' i = isTaken s i)
    (hfree : s'.freeFrames = Bitmap.clearCount s'.taken) : Wf s' where
  length_eq := by rw [hs.length, hs.frameCount, h.length_eq]
  tail := by
    intro i hi hlt
    rw [hs.frameCount] at hi
    rw [hs.length] at hlt
    rw [htail i hi, h.tail i hi hlt]
  free_eq := hfree
  reachable_le := by rw [hs.reachableFrames, hs.frameCount]; exact h.reachable_le
  frameCount_le := by rw [hs.frameCount]; exact h.frameCount_le

theorem addFrame_spec (h : Wf s) (hi : i < s.frameCount) :
    Wf (addFrame s i) ∧ SameShape s (addFrame s i) ∧
      ∀ j, isTaken (addFrame s i) j = if i = j then false else isTaken s j := by
  unfold addFrame
  split
  · rename_i htaken
    have hs : SameShape s { release s i with
        totalFrames := s.totalFrames + 1, freeFrames := s.freeFrames + 1 } :=
      ⟨rfl, rfl, rfl, Bitmap.length_unmark _ _⟩
    have hbit : ∀ j, isTaken { release s i with
        totalFrames := s.totalFrames + 1, freeFrames := s.freeFrames + 1 } j
          = if i = j then false else isTaken s j :=
      fun j => (isTaken_release h hi j).trans (by by_cases hij : i = j <;> simp [hij])
    refine ⟨h.of_sameShape hs ?_ ?_, hs, hbit⟩
    · intro j hj
      rw [hbit j, if_neg (by omega)]
    · change s.freeFrames + 1 = Bitmap.clearCount (Bitmap.unmark s.taken i)
      rw [Bitmap.clearCount_unmark (by decide) (h.word_lt hi) htaken, h.free_eq]
  · rename_i hclear
    refine ⟨h, SameShape.refl s, fun j => ?_⟩
    split
    · next hij => simpa [← hij] using hclear
    · rfl

theorem reserveFrame_spec (h : Wf s) (hi : i < s.frameCount) :
    Wf (reserveFrame s i) ∧ SameShape s (reserveFrame s i) ∧
      ∀ j, isTaken (reserveFrame s i) j = if i = j then true else isTaken s j := by
  unfold reserveFrame
  split
  · rename_i htaken
    refine ⟨h, SameShape.refl s, fun j => ?_⟩
    split
    · next hij => exact hij ▸ htaken
    · rfl
  · rename_i hclear
    have hclear' : Bitmap.test s.taken i = false := by
      simpa [isTaken] using hclear
    have hcount : s.freeFrames = Bitmap.clearCount (Bitmap.mark s.taken i) + 1 := by
      rw [h.free_eq]
      exact Bitmap.clearCount_mark (by decide) (h.word_lt hi) hclear'
    have hsub : sub64 s.freeFrames 1 = s.freeFrames - 1 := by
      have hle := h.free_le
      have hfc := h.frameCount_le
      exact sub64_of_le (by omega) (by omega)
    have hs : SameShape s { take s i with freeFrames := sub64 s.freeFrames 1 } :=
      ⟨rfl, rfl, rfl, Bitmap.length_mark _ _⟩
    have hbit : ∀ j, isTaken { take s i with freeFrames := sub64 s.freeFrames 1 } j
        = if i = j then true else isTaken s j :=
      fun j => (Bitmap.test_mark (by decide) (h.word_lt hi) j).trans
        (by by_cases hij : i = j <;> simp [hij, isTaken])
    refine ⟨h.of_sameShape hs ?_ ?_, hs, hbit⟩
    · intro j hj
      rw [hbit j, if_neg (by omega)]
    · simp only [hsub, take]
      omega

/-- A loop whose body keeps the allocator well formed and forces the bits in `p` to
`value`.  The four loops of `Initialize` are its instances. -/
theorem foldl_spec {α : Type} (f : State → α → State) (g : Nat → α → Prop)
    (p : Nat → α → Nat → Bool) (value : Bool)
    (hbody : ∀ s x, Wf s → g s.frameCount x →
      Wf (f s x) ∧ SameShape s (f s x) ∧
        ∀ j, isTaken (f s x) j = if p s.frameCount x j then value else isTaken s j)
    (xs : List α) (h : Wf s) (hg : ∀ x ∈ xs, g s.frameCount x) :
    Wf (xs.foldl f s) ∧ SameShape s (xs.foldl f s) ∧
      ∀ j, isTaken (xs.foldl f s) j =
        if xs.any (p s.frameCount · j) then value else isTaken s j := by
  induction xs generalizing s with
  | nil => exact ⟨h, SameShape.refl s, fun j => rfl⟩
  | cons x xs ih =>
    obtain ⟨hwf, hshape, hbit⟩ := hbody s x h (hg x List.mem_cons_self)
    obtain ⟨hwf', hshape', hbit'⟩ := ih hwf fun y hy => by
      rw [hshape.frameCount]
      exact hg y (List.mem_cons_of_mem x hy)
    refine ⟨hwf', hshape.trans hshape', fun j => ?_⟩
    rw [List.foldl_cons, hbit' j, hbit j, hshape.frameCount, List.any_cons]
    cases p s.frameCount x j <;> cases xs.any (p s.frameCount · j) <;> rfl

/-- The same over a range of frames, where the body forces one bit. -/
theorem foldl_range'_spec (f : State → Nat → State) (value : Bool)
    (hbody : ∀ s i, Wf s → i < s.frameCount →
      Wf (f s i) ∧ SameShape s (f s i) ∧
        ∀ j, isTaken (f s i) j = if i = j then value else isTaken s j)
    (h : Wf s) (first last : Nat) (hlast : last ≤ s.frameCount) :
    Wf ((List.range' first (last - first)).foldl f s) ∧
      SameShape s ((List.range' first (last - first)).foldl f s) ∧
      ∀ j, isTaken ((List.range' first (last - first)).foldl f s) j =
        if first ≤ j ∧ j < last then value else isTaken s j := by
  obtain ⟨hwf, hshape, hbit⟩ := foldl_spec f (fun n i => i < n)
    (fun _ i j => decide (i = j)) value (by simpa using hbody)
    (List.range' first (last - first)) h fun i hi => by
      have hmem := List.mem_range'_1.1 hi
      omega
  refine ⟨hwf, hshape, fun j => (hbit j).trans ?_⟩
  have hany : (List.range' first (last - first)).any (fun i => decide (i = j)) = true ↔
      first ≤ j ∧ j < last := by
    simp only [List.any_eq_true, decide_eq_true_eq, List.mem_range'_1, exists_eq_right]
    omega
  simp only [hany]

/-- The frames of the loop of `Add`. -/
theorem isTaken_add (h : Wf s) (start stop : Nat) :
    Wf (add s start stop) ∧ SameShape s (add s start stop) ∧
      ∀ j, isTaken (add s start stop) j =
        if Contains s.frameCount ⟨start, stop⟩ j then false
        else isTaken s j :=
  foldl_range'_spec addFrame false (fun _ _ => addFrame_spec) h _ _ (Nat.min_le_right _ _)

/-- The frames of the loop of `Reserve`. -/
theorem isTaken_reserve (h : Wf s) (start stop : Nat) :
    Wf (reserve s start stop) ∧ SameShape s (reserve s start stop) ∧
      ∀ j, isTaken (reserve s start stop) j =
        if Touches s.frameCount ⟨start, stop⟩ j then true
        else isTaken s j := by
  unfold reserve
  split
  · rename_i hle
    refine ⟨h, SameShape.refl s, fun j => ?_⟩
    rw [if_neg fun ht => Nat.not_lt.2 hle ht.1]
  · rename_i hlt
    simp only [Touches, Nat.not_le.1 hlt, true_and]
    exact foldl_range'_spec reserveFrame true (fun _ _ => reserveFrame_spec) h _ _
      (Nat.min_le_right _ _)

/-! ## `Initialize` -/

private theorem test_replicate_allTaken (n i : Nat) (hi : i < BITS_PER_WORD * n) :
    Bitmap.test (List.replicate n ALL_TAKEN) i = true := by
  have hlt : i / BITS_PER_WORD < n := by
    unfold BITS_PER_WORD at *
    omega
  have hmod : i % BITS_PER_WORD < BITS_PER_WORD := Nat.mod_lt i (by decide)
  rw [Bitmap.test_eq_getLsbD (by decide)]
  simp [List.getD_eq_getElem?_getD, hlt, ALL_TAKEN, hmod]

/-- Every frame is taken at the start. -/
theorem isTaken_blank {frameCount : Nat} (hi : i < frameCount) :
    isTaken (blank frameCount) i = true := by
  refine test_replicate_allTaken _ i ?_
  unfold BITS_PER_WORD
  omega

theorem blank_wf {frameCount : Nat} (h : frameCount ≤ 2 ^ 52) :
    Wf (blank frameCount) where
  length_eq := by simp [blank]
  tail := by
    intro i _ hlt
    refine test_replicate_allTaken _ i ?_
    simpa [blank] using hlt
  free_eq := by
    refine (Bitmap.clearCount_eq_zero fun i hi => ?_).symm
    refine test_replicate_allTaken _ i ?_
    simpa [blank] using hi
  reachable_le := Nat.min_le_right _ _
  frameCount_le := h

/-- A loop that withdraws one range after the other. -/
theorem foldl_reserve_spec (ranges : List Range) (h : Wf s) :
    Wf (ranges.foldl (fun s r => reserve s r.start r.stop) s) ∧
      SameShape s (ranges.foldl (fun s r => reserve s r.start r.stop) s) ∧
      ∀ j, isTaken (ranges.foldl (fun s r => reserve s r.start r.stop) s) j =
        (isTaken s j || ranges.any fun r => decide (Touches s.frameCount r j)) := by
  obtain ⟨hwf, hshape, hbit⟩ := foldl_spec (fun s (r : Range) => reserve s r.start r.stop)
    (fun _ _ => True) (fun n r j => decide (Touches n r j)) true
    (fun s r hs _ => by simpa using isTaken_reserve hs _ _) ranges h fun _ _ => trivial
  refine ⟨hwf, hshape, fun j => (hbit j).trans ?_⟩
  cases isTaken s j <;> cases ranges.any fun r => decide (Touches s.frameCount r j) <;> rfl

theorem addAvailableMemory_spec (boot : Handover) (h : Wf s) :
    Wf (addAvailableMemory boot s) ∧ SameShape s (addAvailableMemory boot s) ∧
      ∀ j, isTaken (addAvailableMemory boot s) j =
        (isTaken s j &&
          !(availableRegions boot).any fun region =>
            decide (Contains s.frameCount ⟨region.address, region.stop⟩ j)) := by
  obtain ⟨hwf, hshape, hbit⟩ := foldl_spec
    (fun s (region : MemoryRegion) => add s region.address region.stop) (fun _ _ => True)
    (fun n region j => decide (Contains n ⟨region.address, region.stop⟩ j)) false
    (fun s region hs _ => by simpa using isTaken_add hs _ _) (availableRegions boot) h
    fun _ _ => trivial
  refine ⟨hwf, hshape, fun j => (hbit j).trans ?_⟩
  cases isTaken s j <;> cases (availableRegions boot).any fun region =>
    decide (Contains s.frameCount ⟨region.address, region.stop⟩ j) <;> rfl

theorem initialFrameCount_le (boot : Handover) : initialFrameCount boot ≤ 2 ^ 52 := by
  have h := wrap64_lt (highestAvailableAddress boot + SIZE - 1)
  unfold initialFrameCount
  rw [show SIZE = 4096 from rfl] at *
  omega

/-- The ranges that `Initialize` withdraws, the bitmap's own last. -/
def usedRanges (boot : Handover) (location : Nat) : List Range :=
  [⟨0, MIB⟩, kernelRange boot] ++
    boot.infoRegions.map (fun info => ⟨info.address, info.stop⟩) ++
    boot.modules.map (fun module => ⟨module.start, module.stop⟩) ++
    [⟨location,
      wrap64 (location + bitmapBytes (initialFrameCount boot))⟩]

theorem foldl_usedRanges (boot : Handover) (location : Nat) (s : State) :
    (usedRanges boot location).foldl (fun s r => reserve s r.start r.stop) s =
      reserve (reserveKnownUsers boot s) location
        (wrap64 (location + bitmapBytes (initialFrameCount boot))) := by
  simp [reserveKnownUsers, usedRanges, List.foldl_map]

/-- What `Initialize` leaves behind. -/
structure Initialized (boot : Handover) (location : Nat) (s : State) : Prop where
  wf : Wf s
  frameCount : s.frameCount = initialFrameCount boot
  reachableFrames : s.reachableFrames = min (Config.IDENTITY_MAPPED_LIMIT / SIZE) s.frameCount
  nextIndex : s.nextIndex = 0
  free_pos : 0 < s.freeFrames
  location_ne_zero : location ≠ 0
  chosen : chooseBitmapLocation boot (bitmapBytes (initialFrameCount boot)) = .ok location
  /-- A frame is taken unless an available region holds it and nobody uses
  it. -/
  isTaken_eq : ∀ j, j < s.frameCount → isTaken s j =
    (!(availableRegions boot).any
        (fun region =>
          decide (Contains s.frameCount ⟨region.address, region.stop⟩ j)) ||
      (usedRanges boot location).any (fun r => decide (Touches s.frameCount r j)))

theorem initialized_of_ok (h : initializeState boot = .ok (s, location)) :
    Initialized boot location s := by
  unfold initializeState at h
  simp only [bind_ok_iff] at h
  obtain ⟨loc, hloc, h⟩ := h
  split at h
  · exact absurd h nofun
  rename_i hne
  have hblank := blank_wf (initialFrameCount_le boot)
  obtain ⟨hwf, hshape, hbit⟩ := addAvailableMemory_spec boot hblank
  obtain ⟨hwf', hshape', hbit'⟩ := foldl_reserve_spec (usedRanges boot loc) hwf
  rw [foldl_usedRanges] at hwf' hshape' hbit'
  have hall := hshape.trans hshape'
  split at h
  · exact absurd h nofun
  rename_i hfree
  obtain ⟨rfl, rfl⟩ := Prod.mk.inj (Except.ok.inj h)
  have hfc := hall.frameCount
  refine ⟨hwf', hfc, ?_, hall.nextIndex, Nat.pos_of_ne_zero hfree, hne, hloc, ?_⟩
  · rw [hall.reachableFrames, hfc]
    rfl
  · intro j hj
    rw [hfc] at hj
    rw [hbit' j, hshape.frameCount, hfc]
    congr 1
    refine (hbit j).trans ?_
    have hblankj : isTaken (blank (initialFrameCount boot)) j = true :=
      isTaken_blank hj
    rw [hblankj, Bool.true_and]

/-- `Initialize` gets through when the bitmap has a place and a frame is
left. -/
theorem initializeState_ok
    (hloc : chooseBitmapLocation boot (bitmapBytes (initialFrameCount boot)) = .ok location)
    (hne : location ≠ 0) {j : Nat} (hj : j < initialFrameCount boot)
    (havailable : (availableRegions boot).any (fun region => decide
      (Contains (initialFrameCount boot) ⟨region.address, region.stop⟩ j)) = true)
    (hunused : (usedRanges boot location).any
      (fun r => decide (Touches (initialFrameCount boot) r j)) = false) :
    ∃ s, initializeState boot = .ok (s, location) := by
  have hblank := blank_wf (initialFrameCount_le boot)
  obtain ⟨hwf, hshape, hbit⟩ := addAvailableMemory_spec boot hblank
  obtain ⟨hwf', hshape', hbit'⟩ := foldl_reserve_spec (usedRanges boot location) hwf
  rw [foldl_usedRanges] at hwf' hshape' hbit'
  have hfc := (hshape.trans hshape').frameCount
  have hclear := hbit' j
  rw [hbit j, hshape.frameCount] at hclear
  change _ = ((_ && !((availableRegions boot).any fun region => decide
    (Contains (initialFrameCount boot) ⟨region.address, region.stop⟩ j))) ||
      (usedRanges boot location).any
        fun r => decide (Touches (initialFrameCount boot) r j)) at hclear
  rw [havailable, hunused, Bool.not_true, Bool.and_false, Bool.or_false] at hclear
  obtain ⟨s, hs⟩ : ∃ s, s = reserve (reserveKnownUsers boot (addAvailableMemory boot
      (blank (initialFrameCount boot)))) location
        (wrap64 (location + bitmapBytes (initialFrameCount boot))) := ⟨_, rfl⟩
  rw [← hs] at hwf' hfc hclear
  have hfree : s.freeFrames ≠ 0 := by
    rw [hwf'.free_eq, Bitmap.clearCount]
    refine Nat.ne_of_gt (List.countP_pos_iff.2 ⟨j, ?_, ?_⟩)
    · rw [List.mem_range]
      exact hwf'.bit_lt (by rw [hfc]; exact hj)
    · rw [show Bitmap.test _ j = _ from hclear]
      rfl
  refine ⟨s, (bind_ok_iff _ _ _).2 ⟨location, hloc, ?_⟩⟩
  simp only [← hs, if_neg hne, if_neg hfree]
  rfl

/-- A frame that a range in use touches is not allocatable. -/
theorem Initialized.isTaken_of_touches (h : Initialized boot location s) {r : Range}
    (hr : r ∈ usedRanges boot location) {j : Nat} (hj : Touches s.frameCount r j) :
    isTaken s j = true := by
  have hlt : j < s.frameCount := (Nat.lt_min.1 hj.2.2).2
  have hany : (usedRanges boot location).any (fun r => decide (Touches s.frameCount r j)) = true :=
    List.any_eq_true.2 ⟨r, hr, decide_eq_true hj⟩
  rw [h.isTaken_eq j hlt, hany, Bool.or_true]

/-- Frame zero is never allocatable. -/
theorem Initialized.isTaken_zero (h : Initialized boot location s) : isTaken s 0 = true := by
  have hpos : 0 < s.frameCount := by
    by_contra hzero
    have hlen : s.taken.length = 0 := by
      rw [h.wf.length_eq]
      unfold BITS_PER_WORD
      omega
    have hfree := h.wf.free_eq
    have hp := h.free_pos
    rw [Bitmap.clearCount, hlen] at hfree
    simp at hfree
    omega
  refine h.isTaken_of_touches (r := ⟨0, MIB⟩) (by simp [usedRanges]) ⟨by decide, Nat.le_refl 0, ?_⟩
  have hmib : wrap64 (MIB + SIZE - 1) / SIZE = 256 := by decide
  simp only [hmib]
  omega

/-! ## `FindRun` and `Allocate` -/

private theorem findRunLoop_some (hcount : 0 < count) :
    ∀ (n index run : Nat), run < count → run ≤ index →
      (∀ j, index - run ≤ j → j < index → isTaken s j = false) →
      findRunLoop s count n index run = some first →
      first + count ≤ index + n ∧ ∀ j, first ≤ j → j < first + count → isTaken s j = false := by
  intro n
  induction n with
  | zero =>
    intro index run _ _ _ h
    exact absurd h nofun
  | succ n ih =>
    intro index run hrun hle hclear h
    rw [findRunLoop] at h
    split at h
    · obtain ⟨hend, hbits⟩ := ih (index + 1) 0 hcount (Nat.zero_le _)
        (fun j h1 h2 => absurd h2 (by omega)) h
      exact ⟨by omega, hbits⟩
    · rename_i hfree
      have hindex : ∀ j, index - run ≤ j → j < index + 1 → isTaken s j = false := by
        intro j h1 h2
        rcases Nat.lt_or_ge j index with hj | hj
        · exact hclear j h1 hj
        · rw [show j = index by omega]
          simpa using hfree
      split at h
      · rename_i hfull
        have hfirst := Option.some.inj h
        exact ⟨by omega, fun j h1 h2 => hindex j (by omega) (by omega)⟩
      · obtain ⟨hend, hbits⟩ := ih (index + 1) (run + 1) (by omega) (by omega)
          (fun j h1 h2 => hindex j (by omega) h2) h
        exact ⟨by omega, hbits⟩

/-- A run that `FindRun` reports is clear and ends below the reachable
limit. -/
theorem findRun_some {start : Nat} (hcount : 0 < count) (h : findRun s start count = some first) :
    first + count ≤ s.reachableFrames ∧
      ∀ j, first ≤ j → j < first + count → isTaken s j = false := by
  obtain ⟨hend, hbits⟩ := findRunLoop_some hcount (s.reachableFrames - start)
    start 0 hcount (Nat.zero_le _) (fun j h1 h2 => absurd h2 (by omega)) h
  refine ⟨?_, hbits⟩
  rcases Nat.lt_or_ge start s.reachableFrames with hlt | hge
  · omega
  · rw [findRun, show s.reachableFrames - start = 0 by omega] at h
    exact absurd h nofun

theorem findFirst_some (hcount : 0 < count) (h : findFirst s count = some first) :
    first + count ≤ s.reachableFrames ∧
      ∀ j, first ≤ j → j < first + count → isTaken s j = false := by
  unfold findFirst at h
  split at h
  · rename_i hrun
    rw [← Option.some.inj h]
    exact findRun_some hcount hrun
  · split at h
    · exact findRun_some hcount h
    · exact absurd h nofun

/-- The frames from `first` on are a run of clear frames below the limit. -/
def FreeRun (s : State) (first count : Nat) : Prop :=
  first + count ≤ s.reachableFrames ∧ ∀ j, first ≤ j → j < first + count → isTaken s j = false

/-- The loop misses no run.  The clear frames that it counted last are a part
of every run that it can still complete. -/
private theorem findRunLoop_ne_none
    (hclear : ∀ j, first ≤ j → j < first + count → isTaken s j = false) :
    ∀ (n index run : Nat), run < count → index ≤ first + run →
      first + count ≤ index + n → findRunLoop s count n index run ≠ none := by
  intro n
  induction n with
  | zero =>
    intro index run hrun hstart hend
    omega
  | succ n ih =>
    intro index run hrun hstart hend
    rw [findRunLoop]
    split
    · rename_i htaken
      -- The run lies above a taken frame that the loop has reached.
      have hout : ¬(first ≤ index ∧ index < first + count) := fun hin =>
        absurd (htaken.symm.trans (hclear index hin.1 hin.2)) nofun
      exact ih (index + 1) 0 (by omega) (by omega) (by omega)
    · split
      · exact nofun
      · exact ih (index + 1) (run + 1) (by omega) (by omega) (by omega)

theorem findRun_ne_none (hcount : 0 < count) (h : FreeRun s first count) :
    findRun s 0 count ≠ none :=
  findRunLoop_ne_none h.2 _ 0 0 hcount (by omega) (by have := h.1; omega)

/-- `Allocate` finds a run if there is one. -/
theorem findFirst_eq_none_iff (hcount : 0 < count) :
    findFirst s count = none ↔ ¬∃ first, FreeRun s first count := by
  constructor
  · rintro hnone ⟨first, hfree⟩
    have hall := findRun_ne_none hcount hfree
    unfold findFirst at hnone
    split at hnone
    · exact absurd hnone nofun
    · rename_i hcursor
      split at hnone
      · exact hall hnone
      · rename_i hnext
        rw [not_not.1 hnext] at hcursor
        exact hall hcursor
  · intro hfull
    by_contra hne
    obtain ⟨first, hfirst⟩ := Option.ne_none_iff_exists'.1 hne
    exact hfull ⟨first, findFirst_some hcount hfirst⟩

theorem takeRun_eq (s : State) (first count : Nat) :
    takeRun s first count = { s with taken := Bitmap.markRun s.taken first count } := by
  induction count generalizing s first with
  | zero => rfl
  | succ count ih =>
    rw [takeRun, List.range'_succ, List.foldl_cons, ← takeRun, ih, Bitmap.markRun_succ]
    rfl

theorem Wf.run_le (h : Wf s) (hle : first + count ≤ s.frameCount) :
    first + count ≤ BITS_PER_WORD * s.taken.length := by
  rw [h.length_eq]
  unfold BITS_PER_WORD
  omega

/-- The state after a successful `Allocate`. -/
def allocated (s : State) (first count : Nat) : State :=
  { takeRun s first count with
    freeFrames := sub64 s.freeFrames count
    nextIndex := if first + count < s.reachableFrames then first + count else 0 }

theorem isTaken_allocated (h : Wf s) (hle : first + count ≤ s.frameCount) (j : Nat) :
    isTaken (allocated s first count) j =
      (decide (first ≤ j ∧ j < first + count) || isTaken s j) := by
  unfold isTaken allocated
  rw [takeRun_eq]
  exact Bitmap.test_markRun (by decide) (h.run_le hle) j

theorem allocated_wf (h : Wf s) (hle : first + count ≤ s.frameCount)
    (hclear : ∀ j, first ≤ j → j < first + count → isTaken s j = false) :
    Wf (allocated s first count) ∧ (allocated s first count).freeFrames + count = s.freeFrames := by
  have hcount : s.freeFrames = Bitmap.clearCount (Bitmap.markRun s.taken first count) + count := by
    rw [h.free_eq]
    exact Bitmap.clearCount_markRun (by decide) (h.run_le hle) hclear
  have hsub : sub64 s.freeFrames count = s.freeFrames - count := by
    have hfree := h.free_le
    have hfc := h.frameCount_le
    exact sub64_of_le (by omega) (by omega)
  refine ⟨⟨?_, ?_, ?_, ?_, ?_⟩, ?_⟩
  · simp [allocated, takeRun_eq, h.length_eq]
  · intro i hi hlt
    simp only [allocated, takeRun_eq, Bitmap.length_markRun] at hi hlt
    rw [isTaken_allocated h hle, h.tail i hi hlt, Bool.or_true]
  · simp only [allocated, takeRun_eq, hsub]
    omega
  · simpa [allocated, takeRun_eq] using h.reachable_le
  · simpa [allocated, takeRun_eq] using h.frameCount_le
  · simp only [allocated, hsub]
    omega

/-- `Allocate` either answers zero and changes nothing, or takes a run of
clear frames below the reachable limit. -/
theorem allocate_cases (s : State) (count : Nat) :
    allocate s count = (0, s) ∨
      ∃ first, 0 < count ∧ first + count ≤ s.reachableFrames ∧
        (∀ j, first ≤ j → j < first + count → isTaken s j = false) ∧
        allocate s count = (first * SIZE, allocated s first count) := by
  unfold allocate
  split
  · exact Or.inl rfl
  · rename_i hcount
    split
    · exact Or.inl rfl
    · rename_i first hfirst
      obtain ⟨hend, hclear⟩ := findFirst_some (Nat.pos_of_ne_zero hcount) hfirst
      exact Or.inr ⟨first, Nat.pos_of_ne_zero hcount, hend, hclear, rfl⟩

theorem reachableFrames_allocated (s : State) (first count : Nat) :
    (allocated s first count).reachableFrames = s.reachableFrames := by
  simp [allocated, takeRun_eq]

/-- No allocation moves the limit. -/
theorem allocate_reachableFrames (s : State) (count : Nat) :
    (allocate s count).2.reachableFrames = s.reachableFrames := by
  rcases allocate_cases s count with hnone | ⟨first, -, -, -, heq⟩
  · rw [hnone]
  · rw [heq]
    exact reachableFrames_allocated s first count

/-! ## `Free` and `SetReachableLimit` -/

/-- The state after a successful `Free`. -/
def freed (s : State) (first count : Nat) : State :=
  { s with
    taken := Bitmap.unmarkRun s.taken first count
    freeFrames := s.freeFrames + count }

private theorem foldlM_freeFrame (count : Nat) :
    ∀ {s : State} {first : Nat}, first + count ≤ BITS_PER_WORD * s.taken.length →
      (∀ j, first ≤ j → j < first + count → isTaken s j = true) →
      (List.range' first count).foldlM freeFrame s = .ok (freed s first count) := by
  induction count with
  | zero =>
    intro s first _ _
    rfl
  | succ count ih =>
    intro s first hle hset
    have hfirst : first / BITS_PER_WORD < s.taken.length :=
      Bitmap.div_lt_of_lt (by omega)
    have hbody : freeFrame s first = .ok (freed s first 1) := by
      simp [freeFrame, assert, hset first (Nat.le_refl _) (by omega), freed,
        Bitmap.unmarkRun, release]
    have hrest : ∀ j, first + 1 ≤ j → j < first + 1 + count →
        isTaken (freed s first 1) j = true := by
      intro j h1 h2
      refine (Bitmap.test_unmarkRun (by decide) (by omega) j).trans ?_
      rw [decide_eq_true (by omega), Bool.true_and]
      exact hset j (by omega) (by omega)
    have htail := @ih (freed s first 1) (first + 1)
      (by simp only [freed, Bitmap.length_unmarkRun]; omega) hrest
    rw [List.range'_succ, List.foldlM_cons, hbody]
    refine htail.trans ?_
    simp only [freed, Bitmap.unmarkRun_succ, Nat.add_assoc, Nat.add_comm 1]
    rfl

/-- `Free` of a run that is taken raises no assertion and clears exactly its
bits. -/
theorem free_spec (h : Wf s) (hfirst : first ≠ 0) (hcount : 0 < count)
    (hle : first + count ≤ s.frameCount)
    (hset : ∀ j, first ≤ j → j < first + count → isTaken s j = true) :
    free s (first * SIZE) count = .ok (freed s first count) := by
  have hsize : 0 < SIZE := by decide
  have hwrap : wrap64 (first + count) = first + count := by
    have hfc := h.frameCount_le
    exact wrap64_of_lt (by omega)
  unfold free
  rw [if_neg (by rw [Nat.mul_eq_zero]; omega), Nat.mul_div_cancel _ hsize]
  simp only [assert, Nat.mul_mod_left, hwrap, hle, decide_true, if_true]
  exact foldlM_freeFrame count (h.run_le hle) hset

theorem isTaken_freed (h : Wf s) (hle : first + count ≤ s.frameCount) (j : Nat) :
    isTaken (freed s first count) j = (decide (¬(first ≤ j ∧ j < first + count)) && isTaken s j) :=
  Bitmap.test_unmarkRun (by decide) (h.run_le hle) j

theorem freed_wf (h : Wf s) (hle : first + count ≤ s.frameCount)
    (hset : ∀ j, first ≤ j → j < first + count → isTaken s j = true) :
    Wf (freed s first count) := by
  refine h.of_sameShape ⟨rfl, rfl, rfl, Bitmap.length_unmarkRun _ _ _⟩ ?_ ?_
  · intro i hi
    rw [isTaken_freed h hle, decide_eq_true (by omega), Bool.true_and]
  · simp only [freed, Bitmap.clearCount_unmarkRun (by decide) (h.run_le hle) hset,
      h.free_eq]

theorem setReachableLimit_wf (h : Wf s) (limit : Nat) :
    Wf (setReachableLimit s limit) where
  length_eq := h.length_eq
  tail := h.tail
  free_eq := h.free_eq
  reachable_le := Nat.min_le_right _ _
  frameCount_le := h.frameCount_le

@[simp] theorem isTaken_setReachableLimit (s : State) (limit j : Nat) :
    isTaken (setReachableLimit s limit) j = isTaken s j := rfl

end X64HK.Frame
