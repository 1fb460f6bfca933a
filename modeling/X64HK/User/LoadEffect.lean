import X64HK.User.Isolation

/-!
# What loading a task does to the address space

There is one set of page tables for all tasks, and `User::Load` maps a
task's segments and its stack into it.  The only check on a segment is that
it lies in the user half.  `LoadWrites` are the pages that a call of `Load`
gets to before it ends or gives up.

* `Effect k k' given P` says that the runs in `given` were handed out, that the
  pages in `P` now show frames of these runs to ring 3, and that the entries of
  the other pages are kept.  Effects compose.
* `load_effect` is the effect of a call of `Load`, whatever its result.
* `load_undisturbed_iff`: a call keeps every mapping if and only if the pages
  that it gets to are unmapped before it.
* `load_overwrites_video_memory`: on a machine that just booted, an image
  with one segment at 0xB8000 takes video memory away from the kernel.
-/

namespace X64HK

open X64HK.Frame (SIZE Run)
open Multiboot
open Paging

/-- The numbers of the pages that the loop of `Map` visits. -/
def Visited (virtual size : BitVec 64) (q : Nat) : Prop :=
  ∃ i, (∀ j ≤ i, pagesAbove (virtual &&& ~~~OFFSET_MASK) j < virtual + size) ∧
    q = pageNumber (pagesAbove (virtual &&& ~~~OFFSET_MASK) i)

/-- The numbers of the pages that a call of `Map` writes.  It stops early when
there is no frame for a page table. -/
def Written (s : Paging.State) (call : MapCall) (q : Nat) : Prop :=
  ∃ i < call.rounds s, q = pageNumber (pagesAbove call.firstPage i)

/-- Ring 3 reads frames of the runs at the pages in `P`. -/
def Shows (k : Kernel) (given : List (Owner × Run)) (P : Nat → Prop) : Prop :=
  ∀ v, P (pageNumber v) → isUserReadable k.paging v = true ∧ ∃ x ∈ given, x.2.Holds (k.frameOf v)

/-- The pages in `P` are those that were written. -/
structure Effect (k k' : Kernel) (given : List (Owner × Run)) (P : Nat → Prop) : Prop where
  handedOut : k'.handedOut = given ++ k.handedOut
  noExecute : k'.paging.noExecuteAvailable = k.paging.noExecuteAvailable
  kept : ∀ v, ¬P (pageNumber v) → effective k'.paging v = effective k.paging v
  shows_given : Shows k' given P

variable {s₀ : Frame.State} {k k₁ k₂ k' : Kernel} {t : Tree} {tables : List Run}
  {given given' : List (Owner × Run)} {P Q : Nat → Prop} {noExecute : Bool}
  {q address : Nat} {owner : Owner} {content : Nat → BitVec 8} {call : Nat → MapCall}
  {image : ByteMemory} {segment : Elf.ProgramHeader}
  {mapped : Bool} {run : Run} {count size c : Nat}

theorem Effect.of_paging_eq (hpaging : k'.paging = k.paging)
    (hrecord : k'.handedOut = k.handedOut) (hP : ∀ q, ¬P q) : Effect k k' [] P :=
  ⟨hrecord, by rw [hpaging], fun v _ => by rw [hpaging], fun v hv => absurd hv (hP _)⟩

theorem Effect.congr (h : Effect k k' given P) (hPQ : ∀ q, P q ↔ Q q) : Effect k k' given Q :=
  ⟨h.handedOut, h.noExecute, fun v hv => h.kept v (mt (hPQ _).1 hv),
    fun v hv => h.shows_given v ((hPQ _).2 hv)⟩

/-- A page that is mapped twice shows the later run. -/
theorem Shows.trans (h : Shows k₁ given P) (h' : Effect k₁ k₂ given' Q) :
    Shows k₂ (given' ++ given) fun q => P q ∨ Q q := by
  intro v hv
  by_cases hQ : Q (pageNumber v)
  · obtain ⟨huser, x, hx, hholds⟩ := h'.shows_given v hQ
    exact ⟨huser, x, List.mem_append_left _ hx, hholds⟩
  · have hkept := h'.kept v hQ
    obtain ⟨huser, x, hx, hholds⟩ := h v (hv.resolve_right hQ)
    have hframe : k₂.frameOf v = k₁.frameOf v := by
      unfold Kernel.frameOf Paging.translate
      rw [hkept]
    refine ⟨?_, x, List.mem_append_right _ hx, ?_⟩
    · rw [isUserReadable_eq, hkept, ← isUserReadable_eq]
      exact huser
    · rw [hframe]
      exact hholds

theorem Effect.trans (h : Effect k k₁ given P) (h' : Effect k₁ k₂ given' Q) :
    Effect k k₂ (given' ++ given) fun q => P q ∨ Q q := by
  refine ⟨?_, h'.noExecute.trans h.noExecute, fun v hv => ?_, h.shows_given.trans h'⟩
  · rw [h'.handedOut, h.handedOut, List.append_assoc]
  · rw [not_or] at hv
    exact (h'.kept v hv.2).trans (h.kept v hv.1)

/-! ## The steps of a call -/

theorem Isolated.effective_eq {t' : Tree} {tables' : List Run} (h : Isolated s₀ k t tables)
    (h' : Isolated s₀ k' t' tables') (hleaf : t'.leaf = t.leaf) (v : BitVec 64) :
    effective k'.paging v = effective k.paging v := by
  rw [h.owned.rep.effective, h'.owned.rep.effective, hleaf]

theorem Written.visited {s : Paging.State} {call : MapCall} (h : Written s call q) :
    Visited call.virtual call.size q := by
  obtain ⟨i, hi, rfl⟩ := h
  exact ⟨i, fun j hj => mapRounds_below (Nat.lt_of_le_of_lt hj hi), rfl⟩

/-- A call of `Map` that succeeds writes all the pages that it visits. -/
theorem Isolated.written_of_visited (hs₀ : Addressable s₀) (h : Isolated s₀ k t tables)
    {call : MapCall} (hmap : k.map call = .ok (true, k'))
    (hq : Visited call.virtual call.size q) : Written k.paging call q := by
  obtain ⟨paging, hpaging, rfl⟩ := Kernel.map_eq_ok hmap
  obtain ⟨t', tables', hm⟩ := map_rounds hs₀ h.owned hpaging
  obtain ⟨i, hbelow, rfl⟩ := hq
  refine ⟨i, ?_, rfl⟩
  by_contra hle
  exact hm.complete rfl (hbelow _ (by omega))

/-- `Map` keeps the pages that it does not write. -/
theorem Isolated.map_kept (hs₀ : Addressable s₀) (h : Isolated s₀ k t tables) {call : MapCall}
    (hmap : k.map call = .ok (mapped, k')) (v : BitVec 64)
    (hv : ¬Written k.paging call (pageNumber v)) :
    effective k'.paging v = effective k.paging v := by
  obtain ⟨paging, hpaging, rfl⟩ := Kernel.map_eq_ok hmap
  obtain ⟨t', tables', hm⟩ := map_rounds hs₀ h.owned hpaging
  exact hm.effective_eq h.owned fun i hi hsame => hv ⟨i, hi, hsame.symm⟩

/-- The pages that `Map` writes for a run show its frames. -/
theorem Isolated.map_shows (hs₀ : Addressable s₀) (h : Isolated s₀ k t tables) {call : MapCall}
    (hcall : ForRun call run) (huser : call.privilege = .user)
    (hmap : k.map call = .ok (mapped, k')) (owner : Owner) :
    Shows k' [(owner, run)] (Written k.paging call) := by
  obtain ⟨paging, hpaging, rfl⟩ := Kernel.map_eq_ok hmap
  obtain ⟨t', tables', hm⟩ := map_rounds hs₀ h.owned hpaging
  rintro v ⟨i, hi, hpage⟩
  obtain ⟨j, hj, hleaf⟩ := mapPages_visited (call.flags k.paging.noExecuteAvailable) hi
    call.firstPage call.source t.leaf
  rw [← hm.leaf, ← hpage] at hleaf
  have haligned := aligned_pagesAbove call.source_aligned j
  have hreadable : isUserReadable paging v = true := by
    rw [isUserReadable_eq, hm.owned.rep.effective v, hleaf]
    refine granted_user ?_ ?_
    · rw [getLsbD_entry haligned (by decide), call.flags_present]
    · rw [getLsbD_entry haligned (by decide), call.flags_user, huser]
      rfl
  have hrounds := hm.le_of_stop hcall.stop
  have hframe : (translate paging v).toNat / PAGE_SIZE = run.first + j := by
    rw [(hm.owned.rep.translate_of_user hreadable).2, hleaf,
      leafFrame_of_run hcall.source hcall.bound _ (by omega)]
  refine ⟨hreadable, (owner, run), List.mem_singleton.2 rfl, ?_, ?_⟩
  · show run.first ≤ (translate paging v).toNat / PAGE_SIZE
    omega
  · show (translate paging v).toNat / PAGE_SIZE < run.first + run.count
    omega

/-- The pages that are written when a new run of frames is filled and mapped:
none without such a run. -/
def ProvidedPages (k : Kernel) (owner : Owner) (count : Nat) (content : Nat → BitVec 8)
    (call : Nat → MapCall) (q : Nat) : Prop :=
  let taken := k.allocateFrames owner count
  taken.1 ≠ 0 ∧
    Written (taken.2.setMemory
      (taken.2.paging.memory.copy taken.1 (count * SIZE) content)).paging (call taken.1) q

theorem Kernel.Starved.not_providedPages (h : k.Starved count) :
    ¬ProvidedPages k owner count content call q := by
  rintro ⟨hne, -⟩
  refine hne ?_
  have hzero : (Frame.allocate k.paging.frames count).1 = 0 := h
  simp only [Kernel.allocateFrames, hzero, if_true]

/-- The watermarks do not matter. -/
theorem ProvidedPages.of_paging_eq (hpaging : k₁.paging = k.paging) :
    ProvidedPages k₁ owner count content call q ↔ ProvidedPages k owner count content call q := by
  unfold ProvidedPages Kernel.allocateFrames Kernel.setMemory
  dsimp only
  rw [hpaging]
  by_cases hzero : (Frame.allocate k.paging.frames count).1 = 0
  · simp only [if_pos hzero]
  · simp only [if_neg hzero]

theorem Provided.providedPages (halloc : Allocated s₀ k t tables owner run k₁) :
    ProvidedPages k owner run.count content call q ↔
      Written (k₁.writeRun run content).paging (call run.address) q := by
  simp only [ProvidedPages, halloc.call, ne_eq, halloc.address_ne, not_false_eq_true, true_and]
  rfl

/-- Filling a new run and mapping it for ring 3. -/
theorem Provided.effect (hs₀ : Addressable s₀) (hk : Isolated s₀ k t tables)
    (h : Provided s₀ k t tables owner run content (call run.address) mapped k') :
    Effect k k' [(owner, run)] (ProvidedPages k owner run.count content call) := by
  obtain ⟨k₁, halloc, hset, hmap⟩ := h.steps
  have hrecord : SameRecord (k₁.writeRun run content) k' := by
    obtain ⟨t', tables', -, hrecord⟩ :=
      hset.mapRun hs₀ (halloc.mem_userRuns h.owner_user) halloc.unseen h.forRun hmap
    exact hrecord
  have hwritten : Effect k k' [(owner, run)]
      (Written (k₁.writeRun run content).paging (call run.address)) :=
    ⟨hrecord.handedOut.trans halloc.handedOut, hrecord.noExecute.trans halloc.noExecute,
      fun v hv => (hset.map_kept hs₀ hmap v hv).trans (hk.effective_eq hset rfl v),
      hset.map_shows hs₀ h.forRun h.privilege hmap owner⟩
  exact hwritten.congr fun q => (Provided.providedPages halloc).symm

theorem ProvidedPages.visited (h : ProvidedPages k owner count content call q) :
    ∃ frames, Visited (call frames).virtual (call frames).size q :=
  ⟨_, h.2.visited⟩

theorem Provided.providedPages_of_visited (hs₀ : Addressable s₀)
    (h : Provided s₀ k t tables owner run content (call run.address) true k')
    (hq : Visited (call run.address).virtual (call run.address).size q) :
    ProvidedPages k owner run.count content call q := by
  obtain ⟨k₁, halloc, hset, hmap⟩ := h.steps
  exact (Provided.providedPages halloc).2 (hset.written_of_visited hs₀ hmap hq)

namespace User

/-- The pages of the next user stack. -/
def StackPages (k : Kernel) : Nat → Prop :=
  Visited (BitVec.ofNat 64 (sub64 k.nextStackTop HK.USER_STACK_SIZE))
    (BitVec.ofNat 64 HK.USER_STACK_SIZE)

/-- The pages of a segment. -/
def SegmentPages (segment : Elf.ProgramHeader) : Nat → Prop :=
  Visited (BitVec.ofNat 64 (segmentStart segment))
    (BitVec.ofNat 64 (sub64 (segmentEnd segment) (segmentStart segment)))

/-- The pages that `AllocateStack` writes. -/
def StackWrites (k : Kernel) : Nat → Prop :=
  ProvidedPages k .userStack (HK.USER_STACK_SIZE / PAGE_SIZE) (fun _ => 0)
    (stackCall k.nextStackTop)

/-- The pages that `LoadSegment` writes. -/
def SegmentWrites (image : ByteMemory) (segment : Elf.ProgramHeader) (k : Kernel) : Nat → Prop :=
  ProvidedPages k .segment (segmentFrames segment) (segmentContent image segment)
    (User.segmentCall segment (segmentStart segment)
      (sub64 (segmentEnd segment) (segmentStart segment)))

theorem StackWrites.stackPages (h : StackWrites k q) : StackPages k q := by
  obtain ⟨_, hvisited⟩ := ProvidedPages.visited h
  exact hvisited

theorem SegmentWrites.segmentPages (h : SegmentWrites image segment k q) :
    SegmentPages segment q := by
  obtain ⟨_, hvisited⟩ := ProvidedPages.visited h
  exact hvisited

theorem allocateStack_effect (hs₀ : Addressable s₀) (h : Safe s₀ noExecute k) {top : Nat}
    (hcall : allocateStack k = .ok (top, k')) : ∃ given, Effect k k' given (StackWrites k) := by
  obtain ⟨-, htop, t, tables, hiso⟩ := h
  obtain ⟨k₁, hmarked, hiso₁, hcases⟩ := allocateStack_cases hs₀ hiso htop.1 hcall
  rcases hcases with ⟨hstarved, -, rfl⟩ | ⟨-, run, mapped, hprovided, hcount, -⟩
  · exact ⟨[], .of_paging_eq hmarked.paging hmarked.handedOut fun q =>
      hstarved.not_providedPages⟩
  · have heffect := hprovided.effect hs₀ hiso₁
    rw [hcount] at heffect
    have hmoved : Effect k k₁ [] fun _ => False :=
      .of_paging_eq hmarked.paging hmarked.handedOut fun _ => id
    refine ⟨_, (hmoved.trans heffect).congr fun q => ?_⟩
    rw [false_or]
    exact ProvidedPages.of_paging_eq hmarked.paging

theorem loadSegment_effect (hs₀ : Addressable s₀) (h : Safe s₀ noExecute k)
    (hmemory : segment.memorySize < 2 ^ 64) (hcheck : checkSegment size segment = none)
    {loaded : Bool} (hcall : loadSegment image segment k = .ok (loaded, k')) :
    (∃ given, Effect k k' given (SegmentWrites image segment k)) ∧
      (loaded = true → ∀ q, SegmentPages segment q → SegmentWrites image segment k q) := by
  obtain ⟨-, -, t, tables, h⟩ := h
  rcases loadSegment_cases hs₀ h hmemory hcheck hcall with
    ⟨hstarved, rfl, rfl⟩ | ⟨-, run, hprovided, hcount⟩
  · exact ⟨⟨[], .of_paging_eq rfl rfl fun q => hstarved.not_providedPages⟩,
      fun hloaded => Bool.noConfusion hloaded⟩
  · have heffect := hprovided.effect hs₀ h
    rw [hcount] at heffect
    refine ⟨⟨_, heffect⟩, fun hloaded q hq => ?_⟩
    subst hloaded
    have hpage := hprovided.providedPages_of_visited hs₀ hq
    rw [hcount] at hpage
    exact hpage

/-- The pages of the segments that the loop of `Load` loads from the `n`
program headers from `index` on, if none of them is refused and memory lasts. -/
def LoopPages (image : ByteMemory) (size index n q : Nat) : Prop :=
  ∃ i, index ≤ i ∧ i < index + n ∧ isLoaded (Elf.programHeader image i) = true ∧
    checkSegment size (Elf.programHeader image i) = none ∧
    SegmentPages (Elf.programHeader image i) q

theorem LoopPages.later {index n : Nat} (h : LoopPages image size (index + 1) n q) :
    LoopPages image size index (n + 1) q := by
  obtain ⟨i, hlo, hhi, h⟩ := h
  exact ⟨i, by omega, by omega, h⟩

theorem LoopPages.cases {index n : Nat} (h : LoopPages image size index (n + 1) q) :
    (isLoaded (Elf.programHeader image index) = true ∧
      SegmentPages (Elf.programHeader image index) q) ∨
      LoopPages image size (index + 1) n q := by
  obtain ⟨i, hlo, hhi, hi⟩ := h
  rcases Nat.eq_or_lt_of_le hlo with rfl | hlt
  · exact Or.inl ⟨hi.1, hi.2.2⟩
  · exact Or.inr ⟨i, hlt, by omega, hi⟩

/-- The pages that the loop of `Load` writes from a kernel on.  It ends at the
first header that is refused, and at the first segment that there is no memory
for. -/
def LoopWrites (image : ByteMemory) (size q : Nat) : Kernel → Nat → Nat → Prop
  | _, _, 0 => False
  | k, index, n + 1 =>
    let segment := Elf.programHeader image index
    if isLoaded segment = false then LoopWrites image size q k (index + 1) n
    else checkSegment size segment = none ∧ (SegmentWrites image segment k q ∨
      ∃ k₁, loadSegment image segment k = .ok (true, k₁) ∧ LoopWrites image size q k₁ (index + 1) n)

section

variable {index n : Nat}

theorem Loads.effect (hs₀ : Addressable s₀) {failure : Option LoadError}
    (hloop : Loads image size k index n failure k') (h : Safe s₀ noExecute k) :
    k'.nextStackTop = k.nextStackTop ∧
      ∃ given, Effect k k' given fun q => LoopWrites image size q k index n := by
  induction hloop with
  | done k index => exact ⟨rfl, [], .of_paging_eq rfl rfl fun q => id⟩
  | skip hskip _ ih =>
    obtain ⟨htop, given, heffect⟩ := ih h
    exact ⟨htop, given, heffect.congr fun q => by simp [LoopWrites, hskip]⟩
  | refuse hloaded hcheck =>
    exact ⟨rfl, [], .of_paging_eq rfl rfl fun q => by simp [LoopWrites, hloaded, hcheck]⟩
  | @starve k k' index n hloaded hcheck hsegment =>
    have hmemory := memorySize_lt image index
    obtain ⟨⟨given, heffect⟩, -⟩ := loadSegment_effect hs₀ h hmemory hcheck hsegment
    exact ⟨(loadSegment_safe hs₀ h hmemory hcheck hsegment).2, given,
      heffect.congr fun q => by simp [LoopWrites, hloaded, hcheck, hsegment]⟩
  | @load k k₁ k' index n failure hloaded hcheck hsegment _ ih =>
    have hmemory := memorySize_lt image index
    obtain ⟨hsafe, htop₁⟩ := loadSegment_safe hs₀ h hmemory hcheck hsegment
    obtain ⟨⟨given₁, heffect₁⟩, -⟩ := loadSegment_effect hs₀ h hmemory hcheck hsegment
    obtain ⟨htop, given, heffect⟩ := ih hsafe
    exact ⟨htop.trans htop₁, given ++ given₁, (heffect₁.trans heffect).congr fun q => by
      simp [LoopWrites, hloaded, hcheck, hsegment]⟩

theorem LoopWrites.loopPages (h : LoopWrites image size q k index n) :
    LoopPages image size index n q := by
  induction n generalizing k index with
  | zero => exact False.elim h
  | succ n ih =>
    simp only [LoopWrites] at h
    split at h
    · exact (ih h).later
    · rename_i hloaded
      obtain ⟨hcheck, hpage | ⟨k₁, -, hrest⟩⟩ := h
      · exact ⟨index, Nat.le_refl _, by omega, eq_true_of_ne_false hloaded, hcheck,
          hpage.segmentPages⟩
      · exact (ih hrest).later

/-- A loop that gets through writes the pages of all its segments. -/
theorem Loads.loopWrites (hs₀ : Addressable s₀) {failure : Option LoadError}
    (hloop : Loads image size k index n failure k') (h : Safe s₀ noExecute k)
    (hok : failure = none) (hq : LoopPages image size index n q) :
    LoopWrites image size q k index n := by
  induction hloop with
  | done k index =>
    obtain ⟨i, hlo, hhi, -⟩ := hq
    omega
  | skip hskip _ ih =>
    have hrest := hq.cases.resolve_left fun hfirst =>
      Bool.noConfusion (hskip.symm.trans hfirst.1)
    simpa [LoopWrites, hskip] using ih h hok hrest
  | refuse => exact absurd hok (Option.some_ne_none _)
  | starve => exact absurd hok (Option.some_ne_none _)
  | @load k k₁ k' index n failure hloaded hcheck hsegment _ ih =>
    have hmemory := memorySize_lt image index
    simp only [LoopWrites, hloaded, Bool.true_eq_false, if_false]
    refine ⟨hcheck, hq.cases.imp (fun hq => ?_) fun hq => ⟨k₁, hsegment, ?_⟩⟩
    · exact (loadSegment_effect hs₀ h hmemory hcheck hsegment).2 rfl q hq.2
    · exact ih (loadSegment_safe hs₀ h hmemory hcheck hsegment).1 hok hq

end

/-- The pages that a call of `Load` writes: those of the loop and, if it gets as
far as the stack, those of the stack. -/
def LoadWrites (k : Kernel) (image : ByteMemory) (size q : Nat) : Prop :=
  isRunnable (Elf.Header.read image) size = true ∧
    (LoopWrites image size q k 0 (Elf.Header.read image).programHeaderCount ∨
      ∃ k₁, loadLoop image size k 0 (Elf.Header.read image).programHeaderCount =
          .ok (none, k₁) ∧
        EntryAccepted k₁ (Elf.Header.read image).entry ∧ StackWrites k₁ q)

theorem load_effect (hs₀ : Addressable s₀) (h : Safe s₀ noExecute k) {name : String}
    {result : Except LoadError Task} (hcall : load k name image size = .ok (result, k')) :
    ∃ given, Effect k k' given (LoadWrites k image size) := by
  -- A call that does not get to the stack.
  have hsegments : ∀ {failure : Option LoadError},
      isRunnable (Elf.Header.read image) size = true →
      Loads image size k 0 (Elf.Header.read image).programHeaderCount failure k' →
      (failure = none → ¬EntryAccepted k' (Elf.Header.read image).entry) →
      ∃ given, Effect k k' given (LoadWrites k image size) := by
    intro failure hrunnable hloop hstops
    obtain ⟨-, given, heffect⟩ := hloop.effect hs₀ h
    refine ⟨given, heffect.congr fun q => ⟨fun hq => ⟨hrunnable, Or.inl hq⟩, fun hq =>
      hq.2.resolve_right ?_⟩⟩
    rintro ⟨k₁, hother, hentry, -⟩
    obtain ⟨hnone, rfl⟩ := Prod.mk.inj (Except.ok.inj (hloop.loadLoop_eq.symm.trans hother))
    exact hstops hnone hentry
  -- The segments come first, and the stack on top of them.
  have hboth : ∀ {k₁ : Kernel} {top : Nat},
      isRunnable (Elf.Header.read image) size = true →
      Loads image size k 0 (Elf.Header.read image).programHeaderCount none k₁ →
      EntryAccepted k₁ (Elf.Header.read image).entry → allocateStack k₁ = .ok (top, k') →
      ∃ given, Effect k k' given (LoadWrites k image size) := by
    intro k₁ top hrunnable hloop hentry hstack
    obtain ⟨-, given₁, heffect₁⟩ := hloop.effect hs₀ h
    obtain ⟨given₂, heffect₂⟩ := allocateStack_effect hs₀ (hloop.safe hs₀ h) hstack
    refine ⟨_, (heffect₁.trans heffect₂).congr fun q => ⟨fun hq => ⟨hrunnable, ?_⟩, fun hq => ?_⟩⟩
    · exact hq.imp_right fun hq => ⟨k₁, hloop.loadLoop_eq, hentry, hq⟩
    · refine hq.2.imp_right ?_
      rintro ⟨k₂, hother, -, hq⟩
      obtain ⟨-, rfl⟩ := Prod.mk.inj (Except.ok.inj (hloop.loadLoop_eq.symm.trans hother))
      exact hq
  cases ends_of_ok hcall with
  | unfit hunfit =>
    exact ⟨[], .of_paging_eq rfl rfl fun q hq => Bool.noConfusion (hunfit.symm.trans hq.1)⟩
  | stopped hrunnable hloop => exact hsegments hrunnable hloop nofun
  | noEntry hrunnable hloop hentry => exact hsegments hrunnable hloop fun _ => hentry
  | noStack hrunnable hloop hentry hstack => exact hboth hrunnable hloop hentry hstack
  | started hrunnable hloop hentry hstack => exact hboth hrunnable hloop hentry hstack

end User

/-! ## Existing mappings -/

/-- Whatever `Translate` resolved, it resolves to the same address with the
same rights. -/
def Undisturbed (k k' : Kernel) : Prop :=
  ∀ v, translate k.paging v ≠ 0 → answers k'.paging v = answers k.paging v

/-- No page that the call writes is mapped yet. -/
def LoadIsClear (k : Kernel) (image : ByteMemory) (size : Nat) : Prop :=
  ∀ v, User.LoadWrites k image size (pageNumber v) → effective k.paging v = 0

theorem effective_ne_zero_of_translate {s : Paging.State} {v : BitVec 64}
    (h : translate s v ≠ 0) : effective s v ≠ 0 :=
  fun hzero => h (by simp [Paging.translate, hzero])

/-- `Translate` resolves some address on every page that is mapped. -/
theorem exists_translate_ne_zero (v : BitVec 64) :
    ∃ w, pageNumber w = pageNumber v ∧
      ∀ s : Paging.State, effective s w ≠ 0 → translate s w ≠ 0 := by
  have hv := v.isLt
  have hnat : (BitVec.ofNat 64 (v.toNat / 4096 * 4096 + 1)).toNat = v.toNat / 4096 * 4096 + 1 := by
    rw [BitVec.toNat_ofNat]
    exact Nat.mod_eq_of_lt (by omega)
  refine ⟨BitVec.ofNat 64 (v.toNat / 4096 * 4096 + 1), pageNumber_eq ?_, ?_⟩
  · rw [hnat, show PAGE_SIZE = 4096 from rfl]
    omega
  · intro s hne hzero
    rw [Paging.translate, if_neg hne] at hzero
    have hbit := congrArg (fun x => BitVec.getLsbD x 0) hzero
    have hodd : (BitVec.ofNat 64 (v.toNat / 4096 * 4096 + 1)).getLsbD 0 = true := by
      rw [BitVec.getLsbD, hnat, Nat.testBit_zero, decide_eq_true_eq]
      omega
    have hmask : OFFSET_MASK.getLsbD 0 = true := by decide
    have hset : (BitVec.ofNat 64 (v.toNat / 4096 * 4096 + 1) &&& OFFSET_MASK).getLsbD 0 =
        true := by
      rw [BitVec.getLsbD_and, hodd, hmask]
      rfl
    rw [BitVec.getLsbD_or, hset, Bool.or_true] at hbit
    exact absurd hbit (by decide)

theorem Effect.undisturbed (h : Effect k k' given P)
    (hclear : ∀ v, P (pageNumber v) → effective k.paging v = 0) : Undisturbed k k' := by
  intro v hv
  refine answers_congr h.noExecute (h.kept v fun hpage => ?_)
  exact effective_ne_zero_of_translate hv (hclear v hpage)

/-- A frame of a new run is not one that ring 3 saw before. -/
theorem Effect.clear (hk : Safe s₀ noExecute k) (hk' : Safe s₀ noExecute k')
    (h : Effect k k' given P) (hsame : Undisturbed k k') :
    ∀ v, P (pageNumber v) → effective k.paging v = 0 := by
  obtain ⟨-, -, t, tables, hiso⟩ := hk
  obtain ⟨-, -, t', tables', hiso'⟩ := hk'
  intro v hpages
  by_contra hne
  obtain ⟨w, hpage, hresolved⟩ := exists_translate_ne_zero v
  have hmapped : effective k.paging w ≠ 0 := by
    rw [hiso.owned.rep.effective, hpage, ← hiso.owned.rep.effective]
    exact hne
  have hanswers := hsame w (hresolved _ hmapped)
  obtain ⟨hreadable, x, hx, hholds⟩ := h.shows_given w (hpage.symm ▸ hpages)
  have hbefore : isUserReadable k.paging w = true := by
    rw [← hreadable]
    exact (congrArg Answers.isUserReadable hanswers).symm
  have hframe : k.frameOf w = k'.frameOf w := by
    have htranslate := congrArg Answers.translate hanswers
    unfold Kernel.frameOf
    rw [show translate k.paging w = translate k'.paging w from htranslate.symm]
  obtain ⟨hbit, hleaf⟩ := hiso.owned.rep.translate_of_user hbefore
  obtain ⟨run, hrun, hholds'⟩ := hiso.leaves.backed hbit
  obtain ⟨owner, hmem, -⟩ := Kernel.mem_userRuns.1 hrun
  have hruns : k'.runs = given.map Prod.snd ++ k.runs := by
    rw [Kernel.runs, h.handedOut, List.map_append]
    rfl
  have hdisjoint := (List.pairwise_append.1 hiso'.owned.tracks.disjoint).2.1
  rw [hruns] at hdisjoint
  refine (List.pairwise_append.1 hdisjoint).2.2 x.2 (List.mem_map_of_mem hx) run
    (List.mem_map.2 ⟨_, hmem, rfl⟩) (k'.frameOf w) ⟨hholds, ?_⟩
  rw [← hframe, Kernel.frameOf, SIZE_eq_PAGE_SIZE, hleaf]
  exact hholds'

/-! ## A task with one page -/

/-- An image with one executable page at an address, which is also its entry
point. -/
def tinyImage (address : Nat) : ByteMemory :=
  let image : ByteMemory := fun _ => 0
  let image := ((image.store 0 4 0x464C457F).store 4 1 Elf.CLASS_64).store 5 1
    Elf.DATA_LITTLE_ENDIAN
  let image := (image.store 16 2 Elf.TYPE_EXECUTABLE).store 18 2 Elf.MACHINE_X86_64
  let image := ((image.store 24 8 address).store 32 8 64).store 54 2 56
  let image := ((image.store 56 2 1).store 64 4 Elf.PT_LOAD).store 68 4 5
  ((image.store 80 8 address).store 96 8 120).store 104 8 0x1000

def tinyHeader (address : Nat) : Elf.Header :=
  ⟨0x464C457F, Elf.CLASS_64, Elf.DATA_LITTLE_ENDIAN, Elf.TYPE_EXECUTABLE,
    Elf.MACHINE_X86_64, address, 64, 56, 1⟩

def tinySegment (address : Nat) : Elf.ProgramHeader :=
  ⟨Elf.PT_LOAD, 5, 0, address, 120, 0x1000⟩

/-- What `Load` reads in such an image. -/
structure Tiny (image : ByteMemory) (address : Nat) : Prop where
  header : Elf.Header.read image = tinyHeader address
  segment : Elf.programHeader image 0 = tinySegment address

def tinyCall (address frames : Nat) : MapCall :=
  ⟨BitVec.ofNat 64 address, BitVec.ofNat 64 frames, 0x1000, .readExecute, .user, .normal⟩

/-- The address of a page that the user half has room for, below the stacks. -/
structure TinyAddress (address : Nat) : Prop where
  aligned : address % 4096 = 0
  min_le : 0x1000 ≤ address
  le : address ≤ 2 ^ 40

/-- A segment for code, on one page, that `Load` accepts. -/
structure CodePage (size address : Nat) (segment : Elf.ProgramHeader) : Prop where
  inside : TinyAddress address
  loaded : User.isLoaded segment = true
  checked : User.checkSegment size segment = none
  start : User.segmentStart segment = address
  span : sub64 (User.segmentEnd segment) address = 0x1000
  fits : segment.virtualAddress - address + segment.fileSize ≤ 1 * PAGE_SIZE
  execute : segment.wantsExecute = true

theorem TinyAddress.codePage (h : TinyAddress address) (hsize : 120 ≤ size) :
    CodePage size address (tinySegment address) := by
  have hbounds := h
  obtain ⟨haligned, hlo, hhi⟩ := hbounds
  have hrange : User.segmentStart (tinySegment address) = address ∧
      sub64 (User.segmentEnd (tinySegment address)) address = 0x1000 := by
    unfold User.segmentStart User.segmentEnd Frame.alignUp wrap64 sub64 tinySegment
    rw [SIZE_eq_PAGE_SIZE, show PAGE_SIZE = 4096 from rfl]
    dsimp only
    omega
  refine ⟨h, decide_eq_true ⟨rfl, show 0x1000 ≠ 0 by decide⟩, ?_, hrange.1, hrange.2, ?_,
    show Nat.testBit 5 0 = true by decide⟩
  · have hwrite : Nat.testBit 5 1 = false := by decide
    refine User.checkSegment_eq_none.2 ⟨fun hboth => ?_, hsize, show 120 ≤ 0x1000 by decide, ?_⟩
    · exact absurd (hwrite.symm.trans hboth.1) (by decide)
    · refine (User.inUserHalf_iff (show 0x1000 < 2 ^ 64 by decide)).2 ⟨hlo, ?_⟩
      show address + 0x1000 ≤ 2 ^ 47
      omega
  · rw [show (tinySegment address).virtualAddress = address from rfl, Nat.sub_self]
    show 0 + 120 ≤ 1 * PAGE_SIZE
    decide

/-- Ring 3 finds code on the page. -/
structure ShowsCode (s : Paging.State) (address : Nat) : Prop where
  isExecutable : isExecutable s (BitVec.ofNat 64 address) = true
  isUserReadable : isUserReadable s (BitVec.ofNat 64 address) = true
  isWritable : isWritable s (BitVec.ofNat 64 address) = false

theorem TinyAddress.toNat (h : TinyAddress address) :
    (BitVec.ofNat 64 address).toNat = address := by
  have hle := h.le
  rw [BitVec.toNat_ofNat]
  exact Nat.mod_eq_of_lt (by omega)

theorem TinyAddress.cost (h : TinyAddress address) (frames : Nat) :
    (tinyCall address frames).cost ≤ 6 := by
  have hle := h.le
  have hstop : (tinyCall address frames).stop.toNat = address + 4096 := by
    rw [MapCall.stop, BitVec.toNat_add]
    show ((BitVec.ofNat 64 address).toNat + 4096) % 2 ^ 64 = _
    rw [h.toNat]
    exact Nat.mod_eq_of_lt (by omega)
  have hfirst : (tinyCall address frames).firstPage.toNat = address / 4096 * 4096 := by
    rw [MapCall.toNat_firstPage]
    show (BitVec.ofNat 64 address).toNat / 4096 * 4096 = _
    rw [h.toNat]
  unfold MapCall.cost chunk
  rw [hstop, hfirst]
  omega

theorem loadPages_roomy (hs₀ : Addressable s₀) (h : Roomy s₀ k c) {start : Nat} (hcount : 0 < count)
    (hfits : segment.virtualAddress - start + segment.fileSize ≤ count * PAGE_SIZE)
    (hcall : (User.segmentCall segment start (count * PAGE_SIZE) (c * SIZE)).Admissible) {n : Nat}
    (hcost : (User.segmentCall segment start (count * PAGE_SIZE) (c * SIZE)).cost ≤ n)
    (hroom : c + count + n + 3 < 5376) (image : ByteMemory) :
    ∃ k' c', User.loadPages image segment start (count * PAGE_SIZE) k = .ok (true, k') ∧
      Roomy s₀ k' c' ∧ c' ≤ c + count + n ∧
      Served k.paging (User.segmentCall segment start (count * PAGE_SIZE) (c * SIZE)) k'.paging ∧
      k'.nextStackTop = k.nextStackTop := by
  obtain ⟨halloc, -⟩ := h.allocateFrames hs₀ .segment hcount (by omega)
  obtain ⟨k', c', hmap, hroomy, hle, hserved, htop, -⟩ := h.provide hs₀ .segment hcount hcall
    (by omega) fun a ha => ByteMemory.copy_fill_of_outside hfits (SIZE_eq_PAGE_SIZE ▸ ha)
  refine ⟨k', c', ?_, hroomy, by omega, hserved, htop⟩
  have hne : c * SIZE ≠ 0 := Nat.mul_ne_zero (Nat.ne_zero_of_lt h.pos) (by decide)
  unfold User.loadPages
  rw [Nat.mul_div_cancel _ (by decide)]
  simp only [halloc]
  rw [if_neg hne]
  exact hmap

/-- A segment of one page for code. -/
theorem loadSegment_roomy (hs₀ : Addressable s₀) (h : Roomy s₀ k c) (hc : c ≤ 5000) {index : Nat}
    (hpage : CodePage size address (Elf.programHeader image index)) :
    ∃ k' c', User.loadSegment image (Elf.programHeader image index) k = .ok (true, k') ∧
      Roomy s₀ k' c' ∧ c' ≤ c + 7 ∧ ShowsCode k'.paging address ∧
      k'.nextStackTop = k.nextStackTop := by
  have hle := hpage.inside.le
  have hnat := hpage.inside.toNat
  have hcall : User.segmentCall (Elf.programHeader image index) address (1 * PAGE_SIZE)
      (c * SIZE) = tinyCall address (c * SIZE) := by
    rw [User.segmentCall, User.accessFor, if_pos hpage.execute]
    rfl
  have hadmissible : (tinyCall address (c * SIZE)).Admissible := by
    refine admissible_of_frames (by rw [hnat]; exact hpage.inside.aligned) ?_ (by omega)
    rw [hnat]
    show address + 4096 ≤ 2 ^ 47
    omega
  obtain ⟨k', c', hload, hroomy, hle', hserved, htop⟩ := loadPages_roomy (n := 6) hs₀ h
    (by decide) hpage.fits (hcall ▸ hadmissible) (hcall ▸ hpage.inside.cost _) (by omega) image
  rw [hcall] at hserved
  have hrequested := hserved.requested (BitVec.ofNat 64 address) (Or.inl (by omega))
    ⟨Nat.le_refl _, by
      show (BitVec.ofNat 64 address).toNat / 4096 * 4096 < (BitVec.ofNat 64 address).toNat + 4096
      omega⟩
  rw [User.loadSegment, hpage.start, hpage.span]
  exact ⟨k', c', hload, hroomy, by omega, ⟨hrequested.isExecutable.trans (Bool.or_true _),
    hrequested.isUserReadable, hrequested.isWritable⟩, htop⟩

/-- The end of `Load`, once the segments are in place. -/
theorem load_after_loop (hs₀ : Addressable s₀) (h : Roomy s₀ k₁ c) (hc : c ≤ 5000)
    (htop : k₁.nextStackTop = HK.USER_STACK_TOP)
    (hrunnable : User.isRunnable (Elf.Header.read image) size = true)
    (hloop : User.Loads image size k 0 (Elf.Header.read image).programHeaderCount none k₁)
    (hentry : User.EntryAccepted k₁ (Elf.Header.read image).entry) (name : String) :
    ∃ k', User.load k name image size =
        .ok (.ok ⟨name, (Elf.Header.read image).entry, HK.USER_STACK_TOP⟩, k') ∧
      Served k₁.paging (firstStackCall (c * SIZE)) k'.paging := by
  obtain ⟨k₂, c₂, hstack, -, -, hserved, -⟩ := User.allocateStack_roomy hs₀ h hc htop
  refine ⟨k₂, ?_, hserved⟩
  unfold User.load
  simp only [hrunnable]
  rw [if_neg (by decide)]
  refine (bind_ok_iff _ _ _).2 ⟨(none, k₁), hloop.loadLoop_eq, ?_⟩
  have hgood : ¬((!User.inUserHalf (Elf.Header.read image).entry 1) = true ∨
      (!isExecutable k₁.paging (BitVec.ofNat 64 (Elf.Header.read image).entry)) = true) := by
    rw [hentry.1, hentry.2]
    decide
  dsimp only
  rw [if_neg hgood]
  refine (bind_ok_iff _ _ _).2 ⟨(HK.USER_STACK_TOP, k₂), hstack, ?_⟩
  dsimp only
  rw [if_neg (by decide)]
  rfl

/-- The same for an image whose entry is on a page that it loaded. -/
theorem load_code (hs₀ : Addressable s₀) (h : Roomy s₀ k₁ c) (hc : c ≤ 5000)
    (htop : k₁.nextStackTop = HK.USER_STACK_TOP) {n : Nat}
    (hheader : Elf.Header.read image = { tinyHeader address with programHeaderCount := n + 1 })
    (hsize : 64 ≤ size) (hloop : User.Loads image size k 0 (n + 1) none k₁)
    (haddress : TinyAddress address) (hcode : ShowsCode k₁.paging address) (name : String) :
    ∃ k', User.load k name image size = .ok (.ok ⟨name, address, HK.USER_STACK_TOP⟩, k') ∧
      ShowsCode k'.paging address := by
  have hle := haddress.le
  have hlo := haddress.min_le
  have hnat := haddress.toNat
  have hrunnable : User.isRunnable (Elf.Header.read image) size = true := by
    rw [hheader]
    exact decide_eq_true ⟨hsize, rfl, rfl, rfl, rfl, rfl, rfl, Nat.succ_pos n⟩
  have hentry : User.EntryAccepted k₁ (Elf.Header.read image).entry := by
    rw [hheader]
    exact ⟨(User.inUserHalf_iff (by decide)).2 ⟨hlo, show address + 1 ≤ 2 ^ 47 by omega⟩,
      hcode.isExecutable⟩
  obtain ⟨k₂, hload, hserved⟩ := load_after_loop hs₀ h hc htop hrunnable
    (by rw [hheader]; exact hloop) hentry name
  have huntouched : ¬(firstStackCall (c * SIZE)).Touches (BitVec.ofNat 64 address) := by
    intro htouch
    have hstart : 0x7FFFFFFEF000 / 4096 ≤ (BitVec.ofNat 64 address).toNat / 4096 := htouch.1
    omega
  have hsame := hserved.unchanged _ (Or.inl (by omega)) huntouched
  rw [hheader] at hload
  exact ⟨k₂, hload, (congrArg Answers.isExecutable hsame).trans hcode.isExecutable,
    (congrArg Answers.isUserReadable hsame).trans hcode.isUserReadable,
    (congrArg Answers.isWritable hsame).trans hcode.isWritable⟩

/-- The image with one page. -/
theorem load_roomy (hs₀ : Addressable s₀) (h : Roomy s₀ k c) (hc : c ≤ 4900)
    (htop : k.nextStackTop = HK.USER_STACK_TOP) (htiny : Tiny image address)
    (haddress : TinyAddress address) (name : String) :
    ∃ k', User.load k name image 120 = .ok (.ok ⟨name, address, HK.USER_STACK_TOP⟩, k') ∧
      ShowsCode k'.paging address := by
  have hpage : CodePage 120 address (Elf.programHeader image 0) := by
    rw [htiny.segment]
    exact haddress.codePage (Nat.le_refl _)
  obtain ⟨k₁, c₁, hsegment, hroomy, hc₁, hcode, htop₁⟩ :=
    loadSegment_roomy hs₀ h (by omega) hpage
  exact load_code hs₀ hroomy (by omega) (htop₁.trans htop) htiny.header (by decide)
    (.load hpage.loaded hpage.checked hsegment (.done ..)) haddress hcode name

/-- The pages of a range that does not wrap around begin inside it. -/
theorem Visited.exists_address {virtual size : BitVec 64} (h : Visited virtual size q)
    (haligned : virtual.toNat % PAGE_SIZE = 0)
    (hstop : virtual.toNat + size.toNat + PAGE_SIZE ≤ 2 ^ 64) :
    ∃ w : BitVec 64, q = pageNumber w ∧ virtual.toNat ≤ w.toNat ∧
      w.toNat < virtual.toNat + size.toNat := by
  obtain ⟨i, hbelow, rfl⟩ := h
  have hsize : PAGE_SIZE = 4096 := rfl
  have hend : (virtual + size).toNat = virtual.toNat + size.toNat := by
    rw [BitVec.toNat_add]
    exact Nat.mod_eq_of_lt (by omega)
  have hfirst : (virtual &&& ~~~OFFSET_MASK).toNat = virtual.toNat := by
    have hpage := (⟨virtual, 0, 0, .readOnly, .kernel, .normal⟩ : MapCall).toNat_firstPage
    rw [MapCall.firstPage] at hpage
    rw [hpage]
    exact Nat.div_mul_cancel (Nat.dvd_of_mod_eq_zero haligned)
  have hpages : ∀ j ≤ i, (pagesAbove (virtual &&& ~~~OFFSET_MASK) j).toNat =
      virtual.toNat + j * PAGE_SIZE := by
    intro j
    induction j with
    | zero => exact fun _ => by rw [pagesAbove_zero, hfirst, Nat.zero_mul, Nat.add_zero]
    | succ j ih =>
      intro hj
      have hprev := hbelow j (by omega)
      rw [BitVec.lt_def, ih (by omega), hend] at hprev
      rw [toNat_pagesAbove (by rw [hfirst, Nat.add_one_mul]; omega), hfirst]
  refine ⟨_, rfl, ?_, ?_⟩
  · rw [hpages i (Nat.le_refl i)]
    exact Nat.le_add_right ..
  · have hlast := hbelow i (Nat.le_refl i)
    rw [BitVec.lt_def, hend] at hlast
    exact hlast

/-- Above the first four GiB, a task with one page finds its pages
unmapped. -/
theorem loadIsClear_roomy (hs₀ : Addressable s₀) (hsafe : Safe s₀ noExecute k)
    (hvacant : ∀ v, Vacant v → effective k.paging v = 0)
    (htop : k.nextStackTop = HK.USER_STACK_TOP) (htiny : Tiny image address)
    (haddress : TinyAddress address) (hhigh : 4 * GIB ≤ address) : LoadIsClear k image 120 := by
  obtain ⟨t, tables, hiso⟩ := hsafe.isolated
  have hle := haddress.le
  have hnat := haddress.toNat
  have hmark : ∀ {k₁ : Kernel}, User.loadLoop image 120 k 0
      (Elf.Header.read image).programHeaderCount = .ok (none, k₁) →
      k₁.nextStackTop = HK.USER_STACK_TOP := fun hloop =>
    ((User.loads_of_ok hloop).effect hs₀ hsafe).1.trans htop
  rintro v ⟨-, hpages⟩
  suffices hw : ∃ w, pageNumber v = pageNumber w ∧ Vacant w by
    obtain ⟨w, hpage, hw⟩ := hw
    rw [hiso.owned.rep.effective, hpage, ← hiso.owned.rep.effective]
    exact hvacant w hw
  rcases hpages with hloop | ⟨k₁, hloop, -, hstack⟩
  · obtain ⟨i, -, hi, -, -, hsegment⟩ := hloop.loopPages
    rw [htiny.header] at hi
    have hone : i < 0 + 1 := hi
    obtain rfl : i = 0 := by omega
    have hpage := haddress.codePage (Nat.le_refl _)
    rw [htiny.segment, User.SegmentPages, hpage.start, hpage.span] at hsegment
    obtain ⟨w, hpage, hlo, hhi⟩ := hsegment.exists_address
      (by rw [hnat]; exact haddress.aligned) (by
        rw [hnat]
        show address + 4096 + 4096 ≤ 2 ^ 64
        omega)
    have hlt : w.toNat < (BitVec.ofNat 64 address).toNat + 4096 := hhi
    exact ⟨w, hpage, by omega, by omega⟩
  · have hpages := hstack.stackPages
    rw [User.StackPages, hmark hloop] at hpages
    obtain ⟨w, hpage, hlo, hhi⟩ := hpages.exists_address (by decide) (by decide)
    have hlo' : 0x7FFFFFFEF000 ≤ w.toNat := hlo
    have hhi' : w.toNat < 0x7FFFFFFEF000 + 0x10000 := hhi
    refine ⟨w, hpage, ?_, by omega⟩
    show 2 ^ 32 ≤ w.toNat
    omega

theorem tiny_high : Tiny (tinyImage 0x100000000) 0x100000000 :=
  ⟨by decide +kernel, by decide +kernel⟩

theorem physical_roomy : Frame.Physical roomyHandover :=
  ⟨by decide, by decide, by decide, by decide⟩

/-- In every state that boot and any sequence of requests lead to, a call of
`Load` keeps the existing mappings if and only if none of the pages that it
writes is mapped yet, whatever its result. -/
theorem load_undisturbed_iff {boot : Handover} {memory : ByteMemory} {bitmap : Nat}
    {k₀ k k' : Kernel} (hphysical : Frame.Physical boot)
    (hboot : bootKernel boot memory = .ok (k₀, bitmap)) {requests : List Request}
    (hrun : serveAll k₀ requests = .ok k) {name : String} {image : ByteMemory} {size : Nat}
    {result : Except User.LoadError User.Task}
    (hload : User.load k name image size = .ok (result, k')) :
    Undisturbed k k' ↔ LoadIsClear k image size := by
  obtain ⟨s₀, -, hs₀, h₀⟩ := bootKernel_safe hphysical hboot
  have h := serveAll_safe hs₀ h₀ hrun
  obtain ⟨given, heffect⟩ := User.load_effect hs₀ h hload
  exact ⟨heffect.clear h (User.load_safe hs₀ h hload), heffect.undisturbed⟩

/-- A task above the first four GiB, on the machine with 20 MiB. -/
theorem load_undisturbed_iff_roomy :
    ∃ k k', bootKernel roomyHandover (fun _ => 0) = .ok (k, 0x120000) ∧
      User.load k "init" (tinyImage 0x100000000) 120 =
        .ok (.ok ⟨"init", 0x100000000, HK.USER_STACK_TOP⟩, k') ∧
      LoadIsClear k (tinyImage 0x100000000) 120 ∧ Undisturbed k k' := by
  have haddress : TinyAddress 0x100000000 := ⟨by decide, by decide, by decide⟩
  obtain ⟨s₀, k, c, hboot, hs₀, hroomy, hle, htop, -, -, hvacant⟩ :=
    bootKernel_roomy fun _ => 0
  obtain ⟨k', hload, -⟩ := load_roomy hs₀ hroomy (by omega) htop tiny_high haddress "init"
  obtain ⟨s₁, -, hs₁, hsafe⟩ := bootKernel_safe physical_roomy hboot
  have hclear := loadIsClear_roomy hs₁ hsafe hvacant htop tiny_high haddress (by decide)
  have hrun : serveAll k [] = .ok k := rfl
  exact ⟨k, k', hboot, hload, hclear,
    (load_undisturbed_iff physical_roomy hboot hrun hload).2 hclear⟩

/-- `Load` accepts an image whose page lies where the kernel has video memory,
and maps the task's page there. -/
theorem load_overwrites_video_memory :
    ∃ k k', bootKernel roomyHandover (fun _ => 0) = .ok (k, 0x120000) ∧
      User.load k "init" (tinyImage 0xB8000) 120 =
        .ok (.ok ⟨"init", 0xB8000, HK.USER_STACK_TOP⟩, k') ∧
      answers k.paging 0xB8000 = ⟨0xB8000, true, false, false, false⟩ ∧
      isUserReadable k'.paging 0xB8000 = true ∧ isWritable k'.paging 0xB8000 = false ∧
      ¬Undisturbed k k' := by
  have htiny : Tiny (tinyImage 0xB8000) 0xB8000 := ⟨by decide +kernel, by decide +kernel⟩
  have haddress : TinyAddress 0xB8000 := ⟨by decide, by decide, by decide⟩
  obtain ⟨s₀, k, c, hboot, hs₀, hroomy, hle, htop, -, hvideo, -⟩ := bootKernel_roomy fun _ => 0
  obtain ⟨k', hload, hcode⟩ := load_roomy hs₀ hroomy (by omega) htop htiny haddress "init"
  refine ⟨k, k', hboot, hload, hvideo, hcode.isUserReadable, hcode.isWritable, fun hsame => ?_⟩
  have htranslate : translate k.paging 0xB8000 = 0xB8000 := congrArg Answers.translate hvideo
  have hanswers := hsame 0xB8000 (by rw [htranslate]; decide)
  have hbefore := congrArg Answers.isUserReadable (hanswers.trans hvideo)
  exact absurd (hcode.isUserReadable.symm.trans hbefore) (by decide)

end X64HK
