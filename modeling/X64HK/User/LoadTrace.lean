import X64HK.User.LoadEffect

/-!
# What a rejected image leaves behind

`User::Load` checks an image segment by segment and maps each segment before
it looks at the next one.  Nothing of that is undone when it gives up later.
The measure is `Kernel.available`, the free frames together with those that
became page tables: `Map` keeps it, and each run for a segment or a stack
lowers it.

* `Provided.available_lt` is the step, and `Loads.available_le` the loop.
* `Loads.first` says what the first loadable segment decides.
* `rejected_load_leaves_no_trace_iff`: a rejected call leaves no trace exactly
  when it is `Refused` before it got a single frame.
-/

namespace X64HK

open X64HK.Frame (SIZE Run Tracks)
open Multiboot
open Paging

variable {s₀ : Frame.State} {k k₁ k' : Kernel} {t : Tree} {tables : List Run} {noExecute : Bool}

/-- The frames that are free or kept as page tables. -/
def Kernel.available (k : Kernel) : Nat := k.paging.frames.freeFrames + k.paging.tableCount

/-- `Frame::Allocate` takes the frames of the run. -/
theorem Allocated.available_eq (hk : Isolated s₀ k t tables) {owner : Owner} {run : Run}
    (h : Allocated s₀ k t tables owner run k₁) : k₁.available + run.count = k.available := by
  have hbefore := hk.owned.tracks.counted
  have hafter := h.isolated.owned.tracks.counted
  have htables : k₁.paging.tableCount = k.paging.tableCount := by rw [h.paging]
  rw [h.runs_eq, List.map_append, List.sum_append, List.map_cons, List.sum_cons] at hafter
  rw [List.map_append, List.sum_append] at hbefore
  unfold Kernel.available
  omega

theorem Provided.available_lt (hs₀ : Addressable s₀) (hk : Isolated s₀ k t tables)
    {owner : Owner} {run : Run} {content : Nat → BitVec 8} {call : MapCall} {mapped : Bool}
    (h : Provided s₀ k t tables owner run content call mapped k') :
    k'.available < k.available := by
  obtain ⟨k₁, halloc, hset, hmap⟩ := h.steps
  have hlegal := halloc.isolated.owned.tracks.legal run (List.mem_append_right _ halloc.mem_runs)
  have htaken := halloc.available_eq hk
  have hpos := hlegal.count_pos
  -- `Map` trades free frames for tables.
  have hmapped : k'.available = k₁.available := (hset.map_work hs₀ hmap).counted
  omega

namespace User

variable {image : ByteMemory} {size : Nat}

/-- `LoadSegment` is not reached, or finds no frames. -/
def SegmentRefused (k : Kernel) (size : Nat) (segment : Elf.ProgramHeader) : Prop :=
  checkSegment size segment ≠ none ∨ k.Starved (segmentFrames segment)

theorem loadSegment_available (hs₀ : Addressable s₀) (h : Safe s₀ noExecute k) {index : Nat}
    {loaded : Bool} (hcheck : checkSegment size (Elf.programHeader image index) = none)
    (hcall : loadSegment image (Elf.programHeader image index) k = .ok (loaded, k')) :
    (k.Starved (segmentFrames (Elf.programHeader image index)) ∧ loaded = false ∧ k' = k) ∨
      (¬k.Starved (segmentFrames (Elf.programHeader image index)) ∧
        k'.available < k.available) := by
  obtain ⟨-, -, t, tables, hiso⟩ := h
  rcases loadSegment_cases hs₀ hiso (memorySize_lt image index) hcheck hcall with
    hidle | ⟨hfed, run, hprovided, -⟩
  · exact Or.inl hidle
  · exact Or.inr ⟨hfed, hprovided.available_lt hs₀ hiso⟩

theorem allocateStack_available (hs₀ : Addressable s₀) (h : Safe s₀ noExecute k) {top : Nat}
    (hcall : allocateStack k = .ok (top, k')) :
    (k.Starved (HK.USER_STACK_SIZE / PAGE_SIZE) ∧ k'.paging = k.paging) ∨
      (¬k.Starved (HK.USER_STACK_SIZE / PAGE_SIZE) ∧ k'.available < k.available) := by
  obtain ⟨-, htop, t, tables, h⟩ := h
  obtain ⟨k₁, hmarked, hiso, hcases⟩ := allocateStack_cases hs₀ h htop.1 hcall
  rcases hcases with ⟨hstarved, -, rfl⟩ | ⟨hfed, run, mapped, hprovided, -⟩
  · exact Or.inl ⟨hstarved, hmarked.paging⟩
  · have hlt := hprovided.available_lt hs₀ hiso
    refine Or.inr ⟨hfed, ?_⟩
    rw [Kernel.available, Kernel.available, hmarked.paging] at hlt
    exact hlt

theorem Loads.available_le (hs₀ : Addressable s₀) {index n : Nat} {failure : Option LoadError}
    (hloop : Loads image size k index n failure k') (h : Safe s₀ noExecute k) :
    k'.available ≤ k.available := by
  refine (hloop.invariant (P := fun k₁ => Safe s₀ noExecute k₁ ∧ k₁.available ≤ k.available)
    (fun hcheck hsegment h₁ => ⟨(loadSegment_safe hs₀ h₁.1 (memorySize_lt image _) hcheck
      hsegment).1, ?_⟩) ⟨h, Nat.le_refl _⟩).2
  rcases loadSegment_available hs₀ h₁.1 hcheck hsegment with ⟨-, -, rfl⟩ | ⟨-, hlt⟩
  · exact h₁.2
  · exact Nat.le_trans (Nat.le_of_lt hlt) h₁.2

/-- The first of the `n` program headers from `index` on that is to be
loaded. -/
def firstLoaded (image : ByteMemory) : Nat → Nat → Option Nat
  | _, 0 => none
  | index, n + 1 =>
    if isLoaded (Elf.programHeader image index) then some index
    else firstLoaded image (index + 1) n

/-- The loop takes frames unless its first segment is refused. -/
theorem Loads.first (hs₀ : Addressable s₀) {index n : Nat} {failure : Option LoadError}
    (hloop : Loads image size k index n failure k') (h : Safe s₀ noExecute k) :
    (firstLoaded image index n = none ∧ failure = none ∧ k' = k) ∨
      ∃ i, firstLoaded image index n = some i ∧
        ((SegmentRefused k size (Elf.programHeader image i) ∧ failure ≠ none ∧ k' = k) ∨
          (¬SegmentRefused k size (Elf.programHeader image i) ∧ k'.available < k.available)) := by
  induction hloop with
  | done => exact Or.inl ⟨rfl, rfl, rfl⟩
  | skip hskip _ ih =>
    rw [firstLoaded, if_neg (by rw [hskip]; exact Bool.false_ne_true)]
    exact ih h
  | @refuse k index n reason hloaded hcheck =>
    refine Or.inr ⟨index, if_pos hloaded, Or.inl ⟨Or.inl ?_, nofun, rfl⟩⟩
    rw [hcheck]
    exact nofun
  | @starve k k' index n hloaded hcheck hsegment =>
    refine Or.inr ⟨index, if_pos hloaded, ?_⟩
    rcases loadSegment_available hs₀ h hcheck hsegment with ⟨hstarved, -, rfl⟩ | ⟨hfed, hlt⟩
    · exact Or.inl ⟨Or.inr hstarved, nofun, rfl⟩
    · exact Or.inr ⟨fun hrefused => hrefused.elim (fun hne => hne hcheck) hfed, hlt⟩
  | @load k k₁ k' index n failure hloaded hcheck hsegment hrest _ =>
    have hsafe := (loadSegment_safe hs₀ h (memorySize_lt image index) hcheck hsegment).1
    refine Or.inr ⟨index, if_pos hloaded, Or.inr ?_⟩
    rcases loadSegment_available hs₀ h hcheck hsegment with ⟨-, hfalse, -⟩ | ⟨hfed, hlt⟩
    · exact absurd hfalse nofun
    · exact ⟨fun hrefused => hrefused.elim (fun hne => hne hcheck) hfed,
        Nat.lt_of_le_of_lt (hrest.available_le hs₀ hsafe) hlt⟩

/-- `Load` gives up before `Frame::Allocate` gave it a run: the header is bad,
or the first segment to load is refused, or there is none and the entry point
is refused or no stack can be had. -/
def Refused (k : Kernel) (image : ByteMemory) (size : Nat) : Prop :=
  isRunnable (Elf.Header.read image) size = false ∨
    match firstLoaded image 0 (Elf.Header.read image).programHeaderCount with
    | some i => SegmentRefused k size (Elf.programHeader image i)
    | none => ¬EntryAccepted k (Elf.Header.read image).entry ∨
        k.Starved (HK.USER_STACK_SIZE / PAGE_SIZE)

theorem refused_iff_of_some {i : Nat} (hrunnable : isRunnable (Elf.Header.read image) size = true)
    (hfirst : firstLoaded image 0 (Elf.Header.read image).programHeaderCount = some i) :
    Refused k image size ↔ SegmentRefused k size (Elf.programHeader image i) := by
  rw [Refused, hrunnable, hfirst]
  simp

theorem refused_iff_of_none (hrunnable : isRunnable (Elf.Header.read image) size = true)
    (hfirst : firstLoaded image 0 (Elf.Header.read image).programHeaderCount = none) :
    Refused k image size ↔ ¬EntryAccepted k (Elf.Header.read image).entry ∨
      k.Starved (HK.USER_STACK_SIZE / PAGE_SIZE) := by
  rw [Refused, hrunnable, hfirst]
  simp

/-- A call that fails takes frames unless it is refused first. -/
theorem load_available (hs₀ : Addressable s₀) (h : Safe s₀ noExecute k) {name : String}
    {reason : LoadError} (hcall : load k name image size = .ok (.error reason, k')) :
    (Refused k image size ∧ k'.paging = k.paging) ∨
      (¬Refused k image size ∧ k'.available < k.available) := by
  cases ends_of_ok hcall with
  | unfit hunfit => exact Or.inl ⟨Or.inl hunfit, rfl⟩
  | stopped hrunnable hloop =>
    rcases hloop.first hs₀ h with
      ⟨-, hnone, -⟩ | ⟨i, hfirst, ⟨hrefused, -, rfl⟩ | ⟨hrefused, hlt⟩⟩
    · exact absurd hnone nofun
    · exact Or.inl ⟨(refused_iff_of_some hrunnable hfirst).2 hrefused, rfl⟩
    · exact Or.inr ⟨mt (refused_iff_of_some hrunnable hfirst).1 hrefused, hlt⟩
  | noEntry hrunnable hloop hentry =>
    rcases hloop.first hs₀ h with
      ⟨hfirst, -, rfl⟩ | ⟨i, hfirst, ⟨-, hsome, -⟩ | ⟨hrefused, hlt⟩⟩
    · exact Or.inl ⟨(refused_iff_of_none hrunnable hfirst).2 (Or.inl hentry), rfl⟩
    · exact absurd rfl hsome
    · exact Or.inr ⟨mt (refused_iff_of_some hrunnable hfirst).1 hrefused, hlt⟩
  | noStack hrunnable hloop hentry hstack =>
    have hcases := allocateStack_available hs₀ (hloop.safe hs₀ h) hstack
    rcases hloop.first hs₀ h with
      ⟨hfirst, -, hsame⟩ | ⟨i, hfirst, ⟨-, hsome, -⟩ | ⟨hrefused, hlt⟩⟩
    · have hiff := refused_iff_of_none (k := k) hrunnable hfirst
      rw [hsame] at hcases hentry
      rcases hcases with ⟨hstarved, hpaging⟩ | ⟨hfed, hlt⟩
      · exact Or.inl ⟨hiff.2 (Or.inr hstarved), hpaging⟩
      · exact Or.inr ⟨fun hrefused => (hiff.1 hrefused).elim (fun hno => hno hentry) hfed, hlt⟩
    · exact absurd rfl hsome
    · refine Or.inr ⟨mt (refused_iff_of_some hrunnable hfirst).1 hrefused, ?_⟩
      rcases hcases with ⟨-, hpaging⟩ | ⟨-, hlt'⟩
      · rw [Kernel.available, hpaging]
        exact hlt
      · exact Nat.lt_trans hlt' hlt

end User

/-- The page tables answer as before, and no frame is missing but for page
tables. -/
structure NoTrace (k k' : Kernel) : Prop where
  translate : ∀ v, Paging.translate k'.paging v = Paging.translate k.paging v
  isUserReadable : ∀ v, Paging.isUserReadable k'.paging v = Paging.isUserReadable k.paging v
  isExecutable : ∀ v, Paging.isExecutable k'.paging v = Paging.isExecutable k.paging v
  freeFrames : k'.paging.frames.freeFrames + k'.paging.tableCount =
    k.paging.frames.freeFrames + k.paging.tableCount

/-- In every state that boot and any sequence of requests lead to, a call of
`Load` that fails leaves no trace if and only if it gives up before it got
its first frames. -/
theorem rejected_load_leaves_no_trace_iff {boot : Handover} {memory : ByteMemory} {bitmap : Nat}
    {k₀ k k' : Kernel} (hphysical : Frame.Physical boot)
    (hboot : bootKernel boot memory = .ok (k₀, bitmap)) {requests : List Request}
    (hrun : serveAll k₀ requests = .ok k) {name : String} {image : ByteMemory} {size : Nat}
    {reason : User.LoadError} (hload : User.load k name image size = .ok (.error reason, k')) :
    NoTrace k k' ↔ User.Refused k image size := by
  obtain ⟨s₀, -, hs₀, h₀⟩ := bootKernel_safe hphysical hboot
  have h := serveAll_safe hs₀ h₀ hrun
  rcases User.load_available hs₀ h hload with ⟨hrefused, hpaging⟩ | ⟨hrefused, hlt⟩
  · refine iff_of_true ?_ hrefused
    exact ⟨fun v => by rw [hpaging], fun v => by rw [hpaging], fun v => by rw [hpaging],
      by rw [hpaging]⟩
  · exact iff_of_false (fun htrace => Nat.ne_of_lt hlt htrace.freeFrames) hrefused

/-- A call that ends at a header. -/
theorem load_refused {name : String}
    (hrunnable : User.isRunnable (Elf.Header.read image) size = true) {error : User.LoadError}
    (hloop : User.Loads image size k 0 (Elf.Header.read image).programHeaderCount (some error) k') :
    User.load k name image size = .ok (.error error, k') := by
  unfold User.load
  simp only [hrunnable]
  rw [if_neg (by decide)]
  exact (bind_ok_iff _ _ _).2 ⟨_, hloop.loadLoop_eq, rfl⟩

/-- The image of `tinyImage` with a second segment, which wants to be both
writable and executable. -/
def greedyImage (address : Nat) : ByteMemory :=
  let image := ((tinyImage address).store 56 2 2).store 120 4 Elf.PT_LOAD
  (image.store 124 4 3).store 160 8 0x1000

theorem greedy_second : User.isLoaded (Elf.programHeader (greedyImage 0x100000000) 1) = true ∧
    User.checkSegment 176 (Elf.programHeader (greedyImage 0x100000000) 1) =
      some .writableCode := by decide +kernel

/-- The same image with a first header that is not for loading. -/
def noteImage : ByteMemory := (greedyImage 0x100000000).store 64 4 4

/-- The first header is skipped and the second one refused, on the machine with 20 MiB after
it handed out a stack. -/
theorem rejected_load_leaves_no_trace_iff_note :
    ∃ k₀ k k', bootKernel roomyHandover (fun _ => 0) = .ok (k₀, 0x120000) ∧
      serveAll k₀ [.userStack] = .ok k ∧
      User.load k "init" noteImage 176 = .ok (.error .writableCode, k') ∧
      User.Refused k noteImage 176 ∧ NoTrace k k' := by
  obtain ⟨s₀, k₀, c, hboot, hs₀, hroomy, hle, htop, -⟩ := bootKernel_roomy fun _ => 0
  obtain ⟨k, -, hstack, -⟩ := User.allocateStack_roomy hs₀ hroomy (by omega) htop
  have hrun : serveAll k₀ [.userStack] = .ok k :=
    (bind_ok_iff _ _ _).2 ⟨k, (bind_ok_iff _ _ _).2 ⟨_, hstack, rfl⟩, rfl⟩
  have hrunnable : User.isRunnable (Elf.Header.read noteImage) 176 = true := by decide +kernel
  have hcount : (Elf.Header.read noteImage).programHeaderCount = 2 := by decide +kernel
  have hfirst : User.isLoaded (Elf.programHeader noteImage 0) = false := by decide +kernel
  have hsecond : Elf.programHeader noteImage 1 = Elf.programHeader (greedyImage 0x100000000) 1 := by
    decide +kernel
  have hload : User.load k "init" noteImage 176 = .ok (.error .writableCode, k) := by
    refine load_refused hrunnable ?_
    rw [hcount]
    exact .skip hfirst (.refuse (hsecond ▸ greedy_second.1) (hsecond ▸ greedy_second.2))
  have hrefused : User.Refused k noteImage 176 := by
    refine (User.refused_iff_of_some hrunnable (i := 1) ?_).2 (Or.inl ?_)
    · decide +kernel
    · rw [hsecond, greedy_second.2]
      exact Option.some_ne_none _
  exact ⟨k₀, k, k, hboot, hrun, hload, hrefused, (rejected_load_leaves_no_trace_iff
    ⟨by decide, by decide, by decide, by decide⟩ hboot hrun hload).2 hrefused⟩

/-- `Load` maps the first segment of the image, refuses the second one and
leaves the first one mapped. -/
theorem rejected_image_stays_mapped :
    ∃ k k', bootKernel roomyHandover (fun _ => 0) = .ok (k, 0x120000) ∧
      User.load k "init" (greedyImage 0x100000000) 176 = .ok (.error .writableCode, k') ∧
      isUserReadable k.paging 0x100000000 = false ∧
      isUserReadable k'.paging 0x100000000 = true ∧ ¬NoTrace k k' := by
  have haddress : TinyAddress 0x100000000 := ⟨by decide, by decide, by decide⟩
  have hrunnable : User.isRunnable (Elf.Header.read (greedyImage 0x100000000)) 176 = true := by
    decide +kernel
  have hcount : (Elf.Header.read (greedyImage 0x100000000)).programHeaderCount = 2 := by
    decide +kernel
  have hpage : CodePage 176 0x100000000 (Elf.programHeader (greedyImage 0x100000000) 0) := by
    rw [show Elf.programHeader (greedyImage 0x100000000) 0 = tinySegment 0x100000000 by
      decide +kernel]
    exact haddress.codePage (by decide)
  obtain ⟨s₀, k, c, hboot, hs₀, hroomy, hle, htop, -, -, hvacant⟩ :=
    bootKernel_roomy fun _ => 0
  obtain ⟨k', c', hsegment, -, -, hcode, -⟩ := loadSegment_roomy hs₀ hroomy (by omega) hpage
  have hload : User.load k "init" (greedyImage 0x100000000) 176 =
      .ok (.error .writableCode, k') := by
    refine load_refused hrunnable ?_
    rw [hcount]
    exact .load hpage.loaded hpage.checked hsegment (.refuse greedy_second.1 greedy_second.2)
  have hbefore : isUserReadable k.paging 0x100000000 = false := by
    have hzero := hvacant 0x100000000 ⟨by decide, by decide⟩
    unfold isUserReadable
    rw [hzero]
    decide
  have hafter : isUserReadable k'.paging 0x100000000 = true := hcode.isUserReadable
  refine ⟨k, k', hboot, hload, hbefore, hafter, fun htrace => ?_⟩
  have hsame := htrace.isUserReadable 0x100000000
  rw [hbefore, hafter] at hsame
  cases hsame

end X64HK
