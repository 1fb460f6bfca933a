import X64HK.User.LoadEffect

/-!
# Kernel stacks and their guard pages

`KernelStack::Allocate` maps each stack behind a page that stays unmapped.  Other
calls of `Map` happen in between: those of `Load` and `AllocateStack`, which share
the page tables.

* `KeepsKernel` is what the calls for ring 3 leave alone.  A stack for ring 3 is
  mapped below a watermark that sinks with each call.  It sinks even when there is
  no memory left, but then nothing is mapped any more, and as long as there is some
  the watermark is far above zero (`StackMark`).
* `Guarded` is the invariant on the area of the stacks: the pages of a stack are as
  `Allocate` mapped them, and nothing else is mapped.
* `kernel_stacks_guarded` is the result for every run from boot, on machines whose
  memory ends below the area of the stacks.
* `guard_page_mapped`: the direct map of memory at 64 TiB covers the first guard page.
-/

namespace X64HK

open X64HK.Frame (SIZE Run isTaken Depletes)
open Multiboot
open Paging

variable {s₀ : Frame.State} {k k₁ k₂ k' : Kernel} {t : Tree} {tables : List Run}
  {noExecute : Bool} {run : Run} {owner : Owner} {v : BitVec 64} {i n : Nat}

/-! ## The calls for ring 3 -/

/-- The runs of the kernel stacks, the oldest one first. -/
def Kernel.stackRuns (k : Kernel) : List Run :=
  ((k.handedOut.filter fun x => x.1 = .kernelStack).map Prod.snd).reverse

/-- The number of frames that were handed out. -/
def Kernel.framesOut (k : Kernel) : Nat := (k.runs.map Run.count).sum

/-- Addresses of the kernel's half. -/
def High (v : BitVec 64) : Prop := 2 ^ 64 - 2 ^ 47 ≤ v.toNat

structure KeepsKernel (k k' : Kernel) : Prop where
  nextSlot : k'.nextSlot = k.nextSlot
  stackRuns : k'.stackRuns = k.stackRuns
  noExecute : k'.paging.noExecuteAvailable = k.paging.noExecuteAvailable
  high : ∀ v, High v → effective k'.paging v = effective k.paging v
  frames : Depletes k.paging.frames k'.paging.frames
  framesOut : k.framesOut ≤ k'.framesOut

theorem KeepsKernel.refl (k : Kernel) : KeepsKernel k k :=
  ⟨rfl, rfl, rfl, fun _ _ => rfl, .refl _, Nat.le_refl _⟩

/-- The watermark of the stacks for ring 3 is nothing to the kernel. -/
theorem KeepsKernel.of_eq (hslot : k'.nextSlot = k.nextSlot) (hpaging : k'.paging = k.paging)
    (hrecord : k'.handedOut = k.handedOut) : KeepsKernel k k' := by
  refine ⟨hslot, ?_, ?_, ?_, ?_, ?_⟩
  · rw [Kernel.stackRuns, Kernel.stackRuns, hrecord]
  · rw [hpaging]
  · intro v _
    rw [hpaging]
  · rw [hpaging]
    exact .refl _
  · rw [Kernel.framesOut, Kernel.framesOut, Kernel.runs, Kernel.runs, hrecord]

theorem KeepsKernel.trans (h : KeepsKernel k k₁) (h' : KeepsKernel k₁ k₂) : KeepsKernel k k₂ :=
  ⟨h'.nextSlot.trans h.nextSlot, h'.stackRuns.trans h.stackRuns, h'.noExecute.trans h.noExecute,
    fun v hv => (h'.high v hv).trans (h.high v hv), h.frames.trans h'.frames,
    Nat.le_trans h.framesOut h'.framesOut⟩

theorem Allocated.depletes (hk : Isolated s₀ k t tables)
    (h : Allocated s₀ k t tables owner run k₁) : Depletes k.paging.frames k₁.paging.frames := by
  refine ⟨fun j hj => ?_, h.reachable⟩
  rw [hk.owned.tracks.isTaken_eq j, List.any_append, Bool.or_eq_true, Bool.or_eq_true] at hj
  rw [h.isolated.owned.tracks.isTaken_eq j, h.runs_eq, List.any_append, List.any_cons,
    Bool.or_eq_true, Bool.or_eq_true, Bool.or_eq_true]
  exact hj.imp_right fun hj => hj.imp_right Or.inr

theorem Allocated.framesOut_eq (h : Allocated s₀ k t tables owner run k₁) :
    k₁.framesOut = run.count + k.framesOut := by
  rw [Kernel.framesOut, h.runs_eq, List.map_cons, List.sum_cons]
  rfl

/-- The pages of a range in the user half. -/
theorem Visited.low {virtual size : BitVec 64} {q : Nat} (h : Visited virtual size q)
    (haligned : virtual.toNat % PAGE_SIZE = 0)
    (hstop : virtual.toNat + size.toNat ≤ 2 ^ 47) : q < 2 ^ 35 := by
  have hsize : PAGE_SIZE = 4096 := rfl
  obtain ⟨w, rfl, -, hlt⟩ := h.exists_address haligned (by omega)
  unfold pageNumber nodeOf
  omega

theorem High.pageNumber_le (hv : High v) : 2 ^ 35 ≤ pageNumber v := by
  have hlt := v.isLt
  unfold High at hv
  unfold pageNumber nodeOf
  omega

/-- A new run that was mapped for ring 3 in the user half. -/
theorem Provided.keepsKernel (hs₀ : Addressable s₀) (hk : Isolated s₀ k t tables)
    {content : Nat → BitVec 8} {call : MapCall} {mapped : Bool}
    (h : Provided s₀ k t tables owner run content call mapped k')
    (haligned : call.virtual.toNat % PAGE_SIZE = 0)
    (hstop : call.virtual.toNat + call.size.toNat ≤ 2 ^ 47) :
    KeepsKernel k k' ∧ k'.framesOut = run.count + k.framesOut := by
  have heffect : Effect k k' [(owner, run)]
      (ProvidedPages k owner run.count content fun _ => call) := Provided.effect hs₀ hk h
  obtain ⟨k₁, halloc, hset, hmap⟩ := h.steps
  obtain ⟨paging, hpaging, rfl⟩ := Kernel.map_eq_ok hmap
  have hwork := hset.map_work hs₀ hmap
  have hout : run.count + k.framesOut =
      ({ k₁.writeRun run content with paging := paging } : Kernel).framesOut :=
    halloc.framesOut_eq.symm
  refine ⟨⟨halloc.nextSlot, ?_, heffect.noExecute, fun v hv => heffect.kept v fun hpage => ?_,
    (halloc.depletes hk).trans ⟨hwork.taken, hwork.reachable⟩,
    Nat.le_trans (Nat.le_add_left ..) (Nat.le_of_eq hout)⟩, hout.symm⟩
  · have hother : ¬owner = .kernelStack := by
      rcases h.owner_user with rfl | rfl <;> exact nofun
    unfold Kernel.stackRuns
    rw [heffect.handedOut, List.filter_append, List.filter_singleton]
    simp [hother]
  · obtain ⟨_, hvisited⟩ := hpage.visited
    exact absurd (hvisited.low haligned hstop) (Nat.not_lt.2 hv.pageNumber_le)

/-! ### The watermark of the stacks for ring 3 -/

/-- There is no memory for another stack, or the watermark sank once for each
stack that got memory. -/
def Kernel.StackMark (k : Kernel) : Prop :=
  k.Starved 16 ∨ ∃ n, k.nextStackTop + n * User.STACK_STRIDE = HK.USER_STACK_TOP ∧
    16 * n ≤ k.framesOut

/-- The machine has at most 64 TiB. -/
structure Bounded (s₀ : Frame.State) : Prop where
  zero_taken : isTaken s₀ 0 = true
  freeFrames_le : s₀.freeFrames ≤ 2 ^ 34 + 63

theorem Isolated.framesOut_le (h : Isolated s₀ k t tables) (hb : Bounded s₀) :
    k.framesOut ≤ 2 ^ 34 + 63 := by
  have hcounted := h.owned.tracks.counted
  have hle := hb.freeFrames_le
  rw [List.map_append, List.sum_append] at hcounted
  unfold Kernel.framesOut
  omega

theorem Isolated.zero_taken (h : Isolated s₀ k t tables) (hb : Bounded s₀) :
    isTaken k.paging.frames 0 = true := by
  rw [h.owned.tracks.isTaken_eq 0, hb.zero_taken, Bool.true_or]

/-- Calls that leave the watermark where it is. -/
theorem Kernel.StackMark.keep (h : k.StackMark) (hzero : isTaken k.paging.frames 0 = true)
    (htop : k'.nextStackTop = k.nextStackTop) (hframes : Depletes k.paging.frames k'.paging.frames)
    (hout : k.framesOut ≤ k'.framesOut) : k'.StackMark := by
  rcases h with hstarved | ⟨n, hmark, hn⟩
  · exact Or.inl (hframes.allocate_eq_zero hzero (by decide) hstarved)
  · exact Or.inr ⟨n, by rw [htop]; exact hmark, Nat.le_trans hn hout⟩

/-- While memory is left, the next stack lies in the user half. -/
theorem Kernel.StackMark.top_bounds (h : k.StackMark) (hfed : ¬k.Starved 16)
    (hout : k.framesOut ≤ 2 ^ 34 + 63) :
    2 ^ 40 ≤ k.nextStackTop ∧ k.nextStackTop ≤ HK.USER_STACK_TOP := by
  obtain ⟨n, hmark, hn⟩ := h.resolve_left hfed
  rw [show HK.USER_STACK_TOP = 0x7FFFFFFFF000 from rfl] at *
  rw [show User.STACK_STRIDE = 0x11000 from rfl] at hmark
  omega

namespace User

/-- `AllocateStack` keeps what belongs to the kernel. -/
theorem allocateStack_keepsKernel (hs₀ : Addressable s₀) (hb : Bounded s₀)
    (h : Safe s₀ noExecute k) (hmark : k.StackMark) {top : Nat}
    (hcall : allocateStack k = .ok (top, k')) : KeepsKernel k k' ∧ k'.StackMark := by
  obtain ⟨-, htop, t, tables, h⟩ := h
  obtain ⟨k₁, hmarked, hiso, hcases⟩ := allocateStack_cases hs₀ h htop.1 hcall
  have hmoved : KeepsKernel k k₁ := by
    rw [← hmarked.eq]
    exact .of_eq rfl rfl rfl
  have hbound := hiso.framesOut_le hb
  rw [show HK.USER_STACK_SIZE / PAGE_SIZE = 16 by decide] at hcases
  rcases hcases with ⟨hstarved, -, rfl⟩ | ⟨hfed, run, mapped, hprovided, hpages, -⟩
  · refine ⟨hmoved, Or.inl ?_⟩
    rw [Kernel.Starved, hmarked.paging]
    exact hstarved
  · have hout := hmoved.framesOut
    obtain ⟨hlo, hhi⟩ := hmark.top_bounds hfed (by omega)
    obtain ⟨n, hn, hcount⟩ := hmark.resolve_left hfed
    have hlast : HK.USER_STACK_TOP = 2 ^ 47 - 4096 := rfl
    have hstack : HK.USER_STACK_SIZE = 65536 := rfl
    have hstart : (stackCall k.nextStackTop run.address).virtual.toNat =
        k.nextStackTop - HK.USER_STACK_SIZE := by
      rw [stackCall, sub64_of_le (by omega) (by omega)]
      exact toNat_ofNat_of_lt (by omega)
    have hlength : (stackCall k.nextStackTop run.address).size.toNat = HK.USER_STACK_SIZE := rfl
    have haligned : (stackCall k.nextStackTop run.address).virtual.toNat % PAGE_SIZE = 0 := by
      have hmod := htop.1
      rw [hstart, show PAGE_SIZE = 4096 from rfl] at *
      omega
    obtain ⟨hkeeps, hout'⟩ := hprovided.keepsKernel hs₀ hiso haligned (by omega)
    refine ⟨hmoved.trans hkeeps, Or.inr ⟨n + 1, ?_, by omega⟩⟩
    obtain ⟨-, -, hsame⟩ := hprovided.isolated hs₀
    have hstride : STACK_STRIDE = 0x11000 := rfl
    rw [hsame, ← hmarked.eq]
    show sub64 k.nextStackTop STACK_STRIDE + (n + 1) * STACK_STRIDE = HK.USER_STACK_TOP
    rw [sub64_of_le (by omega) (by omega), Nat.add_one_mul]
    omega

theorem loadSegment_keepsKernel (hs₀ : Addressable s₀) (hb : Bounded s₀)
    (h : Safe s₀ noExecute k) (hmark : k.StackMark) {image : ByteMemory} {index size : Nat}
    (hcheck : checkSegment size (Elf.programHeader image index) = none) {loaded : Bool}
    (hcall : loadSegment image (Elf.programHeader image index) k = .ok (loaded, k')) :
    KeepsKernel k k' ∧ k'.StackMark := by
  obtain ⟨-, -, -, hhalf⟩ := checkSegment_eq_none.1 hcheck
  have hmemory := memorySize_lt image index
  have htop := (loadSegment_safe hs₀ h hmemory hcheck hcall).2
  obtain ⟨hstart, count, hcount, hend, -⟩ := segment_pages hmemory hhalf
  obtain ⟨-, -, t, tables, hiso⟩ := h
  rcases loadSegment_cases hs₀ hiso hmemory hcheck hcall with
    ⟨-, -, rfl⟩ | ⟨-, run, hprovided, -⟩
  · exact ⟨.refl _, hmark⟩
  · rw [show HK.USER_MAX = 2 ^ 47 from rfl] at hend
    rw [hcount] at hprovided
    have hv : (BitVec.ofNat 64 (segmentStart (Elf.programHeader image index))).toNat =
        segmentStart (Elf.programHeader image index) := toNat_ofNat_of_lt (by omega)
    have hs : (BitVec.ofNat 64 (count * PAGE_SIZE)).toNat = count * PAGE_SIZE :=
      toNat_ofNat_of_lt (by omega)
    obtain ⟨hkeeps, -⟩ := hprovided.keepsKernel hs₀ hiso (hv.symm ▸ hstart)
      (Nat.le_trans (Nat.le_of_eq (congrArg₂ (· + ·) hv hs)) hend)
    exact ⟨hkeeps, hmark.keep (hiso.zero_taken hb) htop hkeeps.frames hkeeps.framesOut⟩

theorem load_keepsKernel (hs₀ : Addressable s₀) (hb : Bounded s₀) (h : Safe s₀ noExecute k)
    (hmark : k.StackMark) {name : String} {image : ByteMemory} {size : Nat}
    {result : Except LoadError Task} (hcall : load k name image size = .ok (result, k')) :
    KeepsKernel k k' ∧ k'.StackMark := by
  refine (load_invariant
    (P := fun k₁ => Safe s₀ noExecute k₁ ∧ KeepsKernel k k₁ ∧ k₁.StackMark)
    (fun hcheck hsegment h₁ => ?_) (fun hstack h₁ => ?_) hcall ⟨h, .refl k, hmark⟩).2
  · obtain ⟨hsafe, hkeeps, hmark⟩ := h₁
    obtain ⟨hkeeps', hmark'⟩ := loadSegment_keepsKernel hs₀ hb hsafe hmark hcheck hsegment
    exact ⟨(loadSegment_safe hs₀ hsafe (memorySize_lt image _) hcheck hsegment).1,
      hkeeps.trans hkeeps', hmark'⟩
  · obtain ⟨hsafe, hkeeps, hmark⟩ := h₁
    obtain ⟨hkeeps', hmark'⟩ := allocateStack_keepsKernel hs₀ hb hsafe hmark hstack
    exact ⟨allocateStack_safe hs₀ hsafe hstack, hkeeps.trans hkeeps', hmark'⟩

end User

/-! ## The area of the stacks -/

namespace KernelStack

/-- The start of a slot. -/
def slotAt (i : Nat) : Nat := Config.KERNEL_STACK_BASE + i * STRIDE

theorem slotAt_succ (i : Nat) : slotAt (i + 1) = slotAt i + STRIDE := by
  unfold slotAt
  rw [Nat.add_one_mul, Nat.add_assoc]

theorem slotAt_mono {j : Nat} (h : i ≤ j) : slotAt i ≤ slotAt j :=
  Nat.add_le_add_left (Nat.mul_le_mul_right _ h) _

theorem slotAt_aligned (i : Nat) : slotAt i % PAGE_SIZE = 0 := by
  unfold slotAt
  rw [show Config.KERNEL_STACK_BASE = 0xFFFFC00000000000 from rfl, show STRIDE = 0x5000 from rfl,
    show PAGE_SIZE = 4096 from rfl]
  omega

/-- The first `n` slots end below the kernel. -/
def SlotsFit (n : Nat) : Prop := slotAt n ≤ Config.KERNEL_VMA

instance (n : Nat) : Decidable (SlotsFit n) := inferInstanceAs (Decidable (_ ≤ _))

theorem SlotsFit.nextSlot (h : SlotsFit n) : KernelStack.nextSlot n = slotAt n := by
  rw [nextSlot_eq]
  exact wrap64_of_lt (Nat.lt_of_le_of_lt h (by decide))

theorem SlotsFit.mono {m : Nat} (h : SlotsFit n) (hle : m ≤ n) : SlotsFit m :=
  Nat.le_trans (slotAt_mono hle) h

/-- The addresses of the stack in a slot. -/
def InSlot (i a : Nat) : Prop := slotAt i + GUARD_SIZE ≤ a ∧ a < slotAt (i + 1)

theorem InSlot.stackArea (hfit : SlotsFit n) (hi : i < n) (h : InSlot i v.toNat) : StackArea v := by
  have hbase : Config.KERNEL_STACK_BASE ≤ slotAt i := Nat.le_add_right ..
  have hstop := slotAt_mono (show i + 1 ≤ n from hi)
  obtain ⟨hlo, hhi⟩ := h
  unfold SlotsFit at hfit
  exact ⟨by omega, by omega⟩

theorem InSlot.slot_eq {j a : Nat} (hi : InSlot i a) (hj : InSlot j a) : i = j := by
  obtain ⟨hi, hi'⟩ := hi
  obtain ⟨hj, hj'⟩ := hj
  rcases Nat.lt_trichotomy i j with hlt | heq | hgt
  · have hle := slotAt_mono (show i + 1 ≤ j from hlt)
    omega
  · exact heq
  · have hle := slotAt_mono (show j + 1 ≤ i from hgt)
    omega

section

variable (hfit : SlotsFit (n + 1)) (frames : Nat)

include hfit

theorem toNat_stackCall : (stackCall (slotAt n) frames).virtual.toNat = slotAt n + GUARD_SIZE ∧
    (stackCall (slotAt n) frames).size.toNat = Config.THREAD_STACK_SIZE := by
  unfold SlotsFit at hfit
  rw [slotAt_succ, show STRIDE = 0x5000 from rfl,
    show Config.KERNEL_VMA = 0xFFFFFFFF80000000 from rfl] at hfit
  refine ⟨toNat_ofNat_of_lt ?_, toNat_ofNat_of_lt (by decide)⟩
  rw [show GUARD_SIZE = 0x1000 from rfl]
  omega

/-- `Allocate` maps the pages of its stack. -/
theorem touches_stackCall (v : BitVec 64) :
    (stackCall (slotAt n) frames).Touches v ↔ InSlot n v.toNat := by
  obtain ⟨hvirtual, hsize⟩ := toNat_stackCall hfit frames
  have haligned := slotAt_aligned n
  unfold MapCall.Touches InSlot
  rw [hvirtual, hsize, slotAt_succ, show GUARD_SIZE = 0x1000 from rfl,
    show STRIDE = 0x5000 from rfl, show Config.THREAD_STACK_SIZE = 0x4000 from rfl]
  rw [show PAGE_SIZE = 4096 from rfl] at *
  omega

variable {c : Nat} (hc : c + 4 ≤ 2 ^ 40)

include hc

/-- Callers may ask for four frames in a slot. -/
theorem admissible_stackCall : (stackCall (slotAt n) (c * SIZE)).Admissible := by
  obtain ⟨hvirtual, hlength⟩ := toNat_stackCall hfit (c * SIZE)
  have haligned := slotAt_aligned n
  have hbase : Config.KERNEL_STACK_BASE ≤ slotAt n := Nat.le_add_right ..
  have hstop := hfit
  unfold SlotsFit at hstop
  rw [slotAt_succ] at hstop
  rw [show Config.KERNEL_STACK_BASE = 0xFFFFC00000000000 from rfl] at hbase
  rw [show Config.KERNEL_VMA = 0xFFFFFFFF80000000 from rfl, show STRIDE = 0x5000 from rfl] at hstop
  have hphysical : (stackCall (slotAt n) (c * SIZE)).physical.toNat = c * 4096 :=
    toNat_ofNat_of_lt (by rw [show SIZE = 4096 from rfl]; omega)
  refine ⟨?_, ?_, ?_, Or.inr ?_⟩
  · rw [hphysical, hvirtual, show GUARD_SIZE = 0x1000 from rfl]
    rw [show PAGE_SIZE = 4096 from rfl] at *
    omega
  · rw [hphysical, hlength, show Config.THREAD_STACK_SIZE = 0x4000 from rfl]
    omega
  · rw [hvirtual, hlength, show GUARD_SIZE = 0x1000 from rfl,
      show Config.THREAD_STACK_SIZE = 0x4000 from rfl, show PAGE_SIZE = 4096 from rfl]
    omega
  · rw [hvirtual]
    omega

/-- A stack lies in two leaf tables at most. -/
theorem cost_stackCall : (stackCall (slotAt n) (c * SIZE)).cost ≤ 6 := by
  obtain ⟨-, hlength⟩ := toNat_stackCall hfit (c * SIZE)
  have hcall := admissible_stackCall hfit hc
  have hfirst := (stackCall (slotAt n) (c * SIZE)).toNat_firstPage
  have hstop := hcall.toNat_stop
  unfold MapCall.cost chunk
  rw [hstop, hfirst, hlength, show Config.THREAD_STACK_SIZE = 0x4000 from rfl,
    show PAGE_SIZE = 4096 from rfl]
  omega

end

end KernelStack

open KernelStack (slotAt SlotsFit InSlot stackCall)

/-- The stacks in the slots are as `KernelStack::Allocate` mapped them, and the rest
of the area is unmapped. -/
structure Guarded (s : Paging.State) (runs : List Run) : Prop where
  backed : ∀ {i run}, runs[i]? = some run → ∀ v : BitVec 64, InSlot i v.toNat →
    Requested s (stackCall (slotAt i) run.address) v
  bare : ∀ v, StackArea v → (∀ i < runs.length, ¬InSlot i v.toNat) → effective s v = 0

variable {runs : List Run} {s s' : Paging.State} {boot : Handover}
  {tops : List Nat} {bitmap : Nat} {memory : ByteMemory}

theorem Guarded.keep (h : Guarded s runs) (hfit : SlotsFit runs.length)
    (hsetup : s'.noExecuteAvailable = s.noExecuteAvailable)
    (heff : ∀ v, StackArea v → effective s' v = effective s v) : Guarded s' runs := by
  refine ⟨fun {i run} hrun v hv => ?_, fun v hv hfree => (heff v hv).trans (h.bare v hv hfree)⟩
  have hi : i < runs.length := (List.getElem?_eq_some_iff.1 hrun).1
  exact (h.backed hrun v hv).congr hsetup (heff v (hv.stackArea hfit hi))

/-- A new stack in the next slot. -/
theorem Guarded.add (h : Guarded s runs) (hfit : SlotsFit (runs.length + 1))
    (hserved : Served s (stackCall (slotAt runs.length) run.address) s') :
    Guarded s' (runs ++ [run]) := by
  have hkeep : ∀ v, StackArea v → ¬InSlot runs.length v.toNat →
      effective s' v = effective s v := fun v hv hout =>
    hserved.effective_eq v hv.canonical fun htouch =>
      hout ((KernelStack.touches_stackCall hfit _ v).1 htouch)
  have hsetup := hserved.setup.noExecuteAvailable
  refine ⟨fun {i run'} hrun v hv => ?_, fun v hv hfree => ?_⟩
  · have hi : i < runs.length + 1 := by
      simpa using (List.getElem?_eq_some_iff.1 hrun).1
    have harea := hv.stackArea hfit hi
    rcases Nat.lt_succ_iff_lt_or_eq.1 hi with hold | rfl
    · rw [List.getElem?_append_left hold] at hrun
      refine (h.backed hrun v hv).congr hsetup (hkeep v harea fun hnew => ?_)
      exact absurd (hv.slot_eq hnew) (Nat.ne_of_lt hold)
    · rw [List.getElem?_concat_length, Option.some.injEq] at hrun
      rw [← hrun]
      exact hserved.requested v harea.canonical ((KernelStack.touches_stackCall hfit _ v).2 hv)
  · rw [List.length_append, List.length_singleton] at hfree
    rw [hkeep v hv (hfree _ (Nat.lt_succ_self _))]
    exact h.bare v hv fun i hi => hfree i (by omega)

/-! ## Runs -/

/-- Serve a request, with the tops of the stacks that `KernelStack::Allocate`
returned so far. -/
def serveStacks (state : List Nat × Kernel) : Request → Outcome (List Nat × Kernel)
  | .kernelStack => do
    let (top, k) ← KernelStack.allocate state.2
    return (state.1 ++ [top], k)
  | request => do
    let k ← serve state.2 request
    return (state.1, k)

/-- The invariant.  The slots are in order as long as they fit. -/
structure Stacked (s₀ : Frame.State) (noExecute : Bool) (state : List Nat × Kernel) : Prop where
  safe : Safe s₀ noExecute state.2
  mark : state.2.StackMark
  nextSlot : state.2.nextSlot = KernelStack.nextSlot state.2.stackRuns.length
  tops : state.1 = (List.range state.2.stackRuns.length).map fun i =>
    KernelStack.nextSlot (i + 1)
  count : ∀ run ∈ state.2.stackRuns, run.count = Config.THREAD_STACK_SIZE / PAGE_SIZE
  area : SlotsFit state.2.stackRuns.length → Guarded state.2.paging state.2.stackRuns

theorem Stacked.keep (h : Stacked s₀ noExecute (tops, k)) (hsafe : Safe s₀ noExecute k')
    (hkeeps : KeepsKernel k k') (hmark : k'.StackMark) :
    Stacked s₀ noExecute (tops, k') := by
  have hruns := hkeeps.stackRuns
  refine ⟨hsafe, hmark, ?_, ?_, ?_, fun hfit => ?_⟩
  · show k'.nextSlot = KernelStack.nextSlot k'.stackRuns.length
    rw [hkeeps.nextSlot, hruns]
    exact h.nextSlot
  · show tops = (List.range k'.stackRuns.length).map _
    rw [hruns]
    exact h.tops
  · show ∀ run ∈ k'.stackRuns, _
    rw [hruns]
    exact h.count
  · have hfit' : SlotsFit k.stackRuns.length := hruns ▸ hfit
    show Guarded k'.paging k'.stackRuns
    rw [hruns]
    refine (h.area hfit').keep hfit' hkeeps.noExecute fun v hv => hkeeps.high v ?_
    have hlo := hv.1
    have hbase : Config.KERNEL_STACK_BASE = 2 ^ 64 - 2 ^ 46 := rfl
    unfold High
    omega

/-- The call for a new run is one that callers may make. -/
theorem Isolated.stackCall_admissible (hs₀ : Addressable s₀) (h : Isolated s₀ k t tables)
    (hrun : run ∈ k.runs) (hcount : run.count = Config.THREAD_STACK_SIZE / PAGE_SIZE)
    (hfit : SlotsFit (n + 1)) : (stackCall (slotAt n) run.address).Admissible := by
  have hlegal := h.owned.tracks.legal run (List.mem_append_right _ hrun)
  have haddress := hlegal.aligned
  have hle := Nat.le_trans hlegal.below_limit (Nat.le_trans hlegal.limit_le hs₀.frameCount_le)
  rw [show Config.THREAD_STACK_SIZE / PAGE_SIZE = 4 by decide] at hcount
  rw [haddress]
  exact KernelStack.admissible_stackCall hfit (by omega)

theorem Allocated.stackRuns_eq (h : Allocated s₀ k t tables .kernelStack run k₁) :
    k₁.stackRuns = k.stackRuns ++ [run] := by
  unfold Kernel.stackRuns
  rw [h.handedOut, List.filter_cons_of_pos (by simp), List.map_cons, List.reverse_cons]

/-- `KernelStack::Allocate` maps its stack in the next slot. -/
theorem Stacked.kernelStack (hs₀ : Addressable s₀) (hb : Bounded s₀)
    (h : Stacked s₀ noExecute (tops, k)) {top : Nat}
    (hcall : KernelStack.allocate k = .ok (top, k')) :
    Stacked s₀ noExecute (tops ++ [top], k') := by
  obtain ⟨-, -, t, tables, hiso⟩ := h.safe
  obtain ⟨k₁, run, k₂, hslot, hiso₁, halloc, hcount, hmap, htop⟩ :=
    allocateKernelStack_cases hs₀ hiso hcall
  have hwork := halloc.isolated.map_work hs₀ hmap
  obtain ⟨paging, hpaging, rfl⟩ := Kernel.map_eq_ok hmap
  have hruns : ({ k₂ with paging := paging } : Kernel).stackRuns = k.stackRuns ++ [run] := by
    refine halloc.stackRuns_eq.trans ?_
    rw [Kernel.stackRuns, Kernel.stackRuns, ← hslot.eq]
  have hlength : ({ k₂ with paging := paging } : Kernel).stackRuns.length =
      k.stackRuns.length + 1 := by
    rw [hruns, List.length_append, List.length_singleton]
  have hnext : KernelStack.nextSlot (k.stackRuns.length + 1) =
      wrap64 (k.nextSlot + KernelStack.STRIDE) := by
    rw [KernelStack.nextSlot_succ, KernelStack.advance, show k.nextSlot = _ from h.nextSlot]
  refine ⟨allocateKernelStack_safe hs₀ h.safe hcall, ?_, ?_, ?_, ?_, fun hfit => ?_⟩
  · refine h.mark.keep (hiso.zero_taken hb) ?_ ?_ ?_
    · show k₂.nextStackTop = k.nextStackTop
      rw [halloc.nextStackTop, ← hslot.eq]
    · have hsame : k₁.paging = k.paging := by rw [← hslot.eq]
      rw [← hsame]
      exact (halloc.depletes hiso₁).trans ⟨hwork.taken, hwork.reachable⟩
    · have hout : k₁.framesOut = k.framesOut := by
        rw [Kernel.framesOut, Kernel.framesOut, Kernel.runs, Kernel.runs, ← hslot.eq]
      show k.framesOut ≤ k₂.framesOut
      rw [halloc.framesOut_eq, hout]
      exact Nat.le_add_left ..
  · show k₂.nextSlot = KernelStack.nextSlot _
    rw [hlength, hnext, halloc.nextSlot, ← hslot.eq]
    rfl
  · show tops ++ [top] = (List.range ({ k₂ with paging := paging } : Kernel).stackRuns.length).map _
    rw [hlength, List.range_succ, List.map_append, List.map_singleton, ← h.tops, hnext, htop]
  · show ∀ run' ∈ ({ k₂ with paging := paging } : Kernel).stackRuns, _
    rw [hruns]
    intro run' hrun'
    rcases List.mem_append.1 hrun' with hold | hnew
    · exact h.count run' hold
    · rw [List.mem_singleton.1 hnew]
      exact hcount
  · have hfit' : SlotsFit (k.stackRuns.length + 1) := hlength ▸ hfit
    have hslotAt : k.nextSlot = slotAt k.stackRuns.length :=
      h.nextSlot.trans (hfit'.mono (Nat.le_succ _)).nextSlot
    have hcalled : (stackCall k.nextSlot run.address).Admissible := by
      rw [hslotAt]
      exact halloc.isolated.stackCall_admissible hs₀ halloc.mem_runs hcount hfit'
    obtain ⟨hserved, -⟩ := halloc.isolated.owned.served hs₀ hcalled hpaging
    -- the new run changed the allocator, not the tables
    have hbefore : Guarded k₂.paging k.stackRuns := by
      refine (h.area (hfit'.mono (Nat.le_succ _))).keep (hfit'.mono (Nat.le_succ _)) ?_
        fun v _ => ?_
      · rw [halloc.noExecute, ← hslot.eq]
      · exact hiso.effective_eq halloc.isolated rfl v
    show Guarded paging ({ k₂ with paging := paging } : Kernel).stackRuns
    rw [hruns]
    rw [hslotAt] at hserved
    exact hbefore.add hfit' hserved

/-- The requests that are not for a kernel stack. -/
theorem Stacked.keepsKernel (hs₀ : Addressable s₀) (hb : Bounded s₀)
    (h : Stacked s₀ noExecute (tops, k)) {request : Request} (hrequest : request ≠ .kernelStack)
    (hserve : X64HK.serve k request = .ok k') :
    KeepsKernel k k' ∧ Stacked s₀ noExecute (tops, k') := by
  have hsafe := serve_safe hs₀ h.safe hserve
  cases request with
  | kernelStack => exact absurd rfl hrequest
  | userStack =>
    obtain ⟨⟨top, k₁⟩, hcall, hret⟩ := (bind_ok_iff _ _ _).1 hserve
    obtain rfl := Except.ok.inj hret
    obtain ⟨hkeeps, hmark⟩ := User.allocateStack_keepsKernel hs₀ hb h.safe h.mark hcall
    exact ⟨hkeeps, h.keep hsafe hkeeps hmark⟩
  | load name image size =>
    obtain ⟨⟨result, k₁⟩, hcall, hret⟩ := (bind_ok_iff _ _ _).1 hserve
    obtain rfl := Except.ok.inj hret
    obtain ⟨hkeeps, hmark⟩ := User.load_keepsKernel hs₀ hb h.safe h.mark hcall
    exact ⟨hkeeps, h.keep hsafe hkeeps hmark⟩

theorem Stacked.serve (hs₀ : Addressable s₀) (hb : Bounded s₀) {state state' : List Nat × Kernel}
    (h : Stacked s₀ noExecute state) {request : Request}
    (hserve : serveStacks state request = .ok state') : Stacked s₀ noExecute state' := by
  obtain ⟨tops, k⟩ := state
  cases request with
  | kernelStack =>
    obtain ⟨⟨top, k₁⟩, hcall, hret⟩ := (bind_ok_iff _ _ _).1 hserve
    obtain rfl := Except.ok.inj hret
    exact h.kernelStack hs₀ hb hcall
  | userStack | load =>
    obtain ⟨k₁, hserved, hret⟩ := (bind_ok_iff _ _ _).1 hserve
    obtain rfl := Except.ok.inj hret
    exact (h.keepsKernel hs₀ hb Request.noConfusion hserved).2

/-! ## Boot -/

theorem bounded_of_ramFits (hram : RamFits boot) (hinit : Frame.Initialized boot bitmap s₀) :
    Bounded s₀ := by
  have hhigh : Frame.highestAvailableAddress boot ≤ 2 ^ 46 := by
    refine Frame.foldl_max_le (fun region hregion => ?_) (Nat.zero_le _)
    have hle := hram region hregion
    rw [MemoryRegion.stop, wrap64_of_lt (by omega)]
    exact hle
  have hcount : s₀.frameCount ≤ 2 ^ 34 := by
    rw [hinit.frameCount, Frame.initialFrameCount, show SIZE = 4096 from rfl,
      wrap64_of_lt (by omega)]
    omega
  have hfree := hinit.wf.free_le
  exact ⟨hinit.isTaken_zero, by omega⟩

theorem physicallyAddressable_of_ramFits (hram : RamFits boot) : PhysicallyAddressable boot := by
  intro region hregion
  have hle := hram region hregion
  rw [MemoryRegion.stop, wrap64_of_lt (by omega)]
  omega

/-- `Paging::Initialize` leaves the area of the stacks unmapped. -/
theorem initializePaging_stacked (hlinked : Linked boot) (hram : RamFits boot)
    (hframes : Frame.initializeState boot = .ok (s₀, bitmap))
    (hpaging : Paging.initializeState boot memory s₀ = .ok s) :
    Stacked s₀ boot.noExecute ([], Kernel.start s) := by
  have hinit := Frame.initialized_of_ok hframes
  obtain ⟨hs₀, hsafe⟩ :=
    initializePaging_safe (physicallyAddressable_of_ramFits hram) hframes hpaging
  refine ⟨hsafe, Or.inr ⟨0, ?_, Nat.zero_le _⟩, rfl, rfl, nofun, fun _ => ⟨nofun, fun v hv _ => ?_⟩⟩
  · rw [Nat.zero_mul]
    rfl
  · exact effective_boot_eq_zero hinit.wf hs₀ hlinked hram hpaging hv

/-- The heap is nothing to the stacks. -/
theorem initializeHeap_keepsKernel (hs₀ : Addressable s₀) (h : Isolated s₀ k t tables)
    (hheap : k.initializeHeap = .ok k') :
    KeepsKernel k k' ∧ k'.nextStackTop = k.nextStackTop := by
  obtain ⟨run, k₁, memory, halloc, rfl, hiso⟩ := initializeHeap_cases hs₀ h hheap
  have hframes : Depletes k.paging.frames k₁.paging.frames := halloc.depletes h
  refine ⟨⟨halloc.nextSlot, ?_, halloc.noExecute, fun v _ => h.effective_eq hiso rfl v,
    hframes, ?_⟩, halloc.nextStackTop⟩
  · show k₁.stackRuns = k.stackRuns
    rw [Kernel.stackRuns, Kernel.stackRuns, halloc.handedOut, List.filter_cons_of_neg (by simp)]
  · show k.framesOut ≤ k₁.framesOut
    rw [halloc.framesOut_eq]
    exact Nat.le_add_left ..

theorem Stacked.initializeHeap (hs₀ : Addressable s₀) (hb : Bounded s₀)
    (h : Stacked s₀ noExecute (tops, k)) (hheap : k.initializeHeap = .ok k') :
    Stacked s₀ noExecute (tops, k') := by
  obtain ⟨-, -, t, tables, hiso⟩ := h.safe
  obtain ⟨hkeeps, htop⟩ := initializeHeap_keepsKernel hs₀ hiso hheap
  exact h.keep (initializeHeap_safe hs₀ h.safe hheap) hkeeps
    (h.mark.keep (hiso.zero_taken hb) htop hkeeps.frames hkeeps.framesOut)

/-- Boot hands out no kernel stack. -/
theorem bootKernel_stacked (hlinked : Linked boot) (hram : RamFits boot)
    (hboot : bootKernel boot memory = .ok (k, bitmap)) :
    ∃ s₀, Addressable s₀ ∧ Bounded s₀ ∧ Stacked s₀ boot.noExecute ([], k) := by
  obtain ⟨s₀, paging, hframes, hpaging, hheap⟩ := bootKernel_eq_ok hboot
  have hs₀ := addressable_of_boot hframes (physicallyAddressable_of_ramFits hram)
  have hb := bounded_of_ramFits hram (Frame.initialized_of_ok hframes)
  exact ⟨s₀, hs₀, hb,
    (initializePaging_stacked hlinked hram hframes hpaging).initializeHeap hs₀ hb hheap⟩

/-- The first stack goes to the first slot. -/
theorem bootKernel_nextSlot (hlinked : Linked boot) (hram : RamFits boot)
    (hboot : bootKernel boot memory = .ok (k, bitmap)) :
    k.nextSlot = Config.KERNEL_STACK_BASE := by
  obtain ⟨s₀, -, -, hstacked⟩ := bootKernel_stacked hlinked hram hboot
  have hnone : k.stackRuns.length = 0 := by
    simpa using congrArg List.length hstacked.tops.symm
  exact hstacked.nextSlot.trans (congrArg KernelStack.nextSlot hnone)

/-! ## The result -/

namespace KernelStack

/-- The addresses of a stack, by its top. -/
def Stack (top a : Nat) : Prop := top - Config.THREAD_STACK_SIZE ≤ a ∧ a < top

/-- The addresses of the page below it. -/
def GuardPage (top a : Nat) : Prop :=
  top - Config.THREAD_STACK_SIZE - GUARD_SIZE ≤ a ∧ a < top - Config.THREAD_STACK_SIZE

theorem stack_iff (i a : Nat) : Stack (slotAt (i + 1)) a ↔ InSlot i a := by
  unfold Stack InSlot
  rw [slotAt_succ, show STRIDE = 0x5000 from rfl, show GUARD_SIZE = 0x1000 from rfl,
    show Config.THREAD_STACK_SIZE = 0x4000 from rfl]
  omega

theorem stride_eq : STRIDE = GUARD_SIZE + Config.THREAD_STACK_SIZE := rfl

theorem guardPage_iff (i a : Nat) :
    GuardPage (slotAt (i + 1)) a ↔ slotAt i ≤ a ∧ a < slotAt i + GUARD_SIZE := by
  unfold GuardPage
  rw [slotAt_succ, show STRIDE = 0x5000 from rfl, show GUARD_SIZE = 0x1000 from rfl,
    show Config.THREAD_STACK_SIZE = 0x4000 from rfl]
  omega

/-- The lowest page of a slot belongs to no stack. -/
theorem not_inSlot_of_guard {a : Nat} (h : slotAt i ≤ a ∧ a < slotAt i + GUARD_SIZE) (j : Nat) :
    ¬InSlot j a := by
  rintro ⟨hlo, hhi⟩
  have hnext := slotAt_succ i
  have hstride := stride_eq
  rcases Nat.lt_trichotomy j i with hlt | rfl | hgt
  · have hle := slotAt_mono (show j + 1 ≤ i from hlt)
    omega
  · omega
  · have hle := slotAt_mono (show i + 1 ≤ j from hgt)
    omega

theorem stackArea_of_guard (hfit : SlotsFit n) (hi : i < n)
    (h : slotAt i ≤ v.toNat ∧ v.toNat < slotAt i + GUARD_SIZE) : StackArea v := by
  have hbase : Config.KERNEL_STACK_BASE ≤ slotAt i := Nat.le_add_right ..
  have hstop := slotAt_mono (show i + 1 ≤ n from hi)
  have hstride := stride_eq
  rw [slotAt_succ] at hstop
  unfold SlotsFit at hfit
  exact ⟨by omega, by omega⟩

end KernelStack

open KernelStack (Stack GuardPage)

/-- What the stacks of the kernel are, given their tops. -/
structure StacksGuarded (tops : List Nat) (k : Kernel) : Prop where
  virtual : tops.Pairwise fun top top' => ∀ a, ¬(Stack top a ∧ Stack top' a)
  /-- The frames behind a stack are one range of physical memory. -/
  contiguous : ∀ top ∈ tops, ∃ base, ∀ v : BitVec 64, Stack top v.toNat →
    (translate k.paging v).toNat = base + (v.toNat - (top - Config.THREAD_STACK_SIZE))
  physical : tops.Pairwise fun top top' => ∀ v w : BitVec 64, Stack top v.toNat →
    Stack top' w.toNat → translate k.paging v ≠ translate k.paging w
  mapped : ∀ top ∈ tops, ∀ v : BitVec 64, Stack top v.toNat →
    isWritable k.paging v = true ∧ isUserReadable k.paging v = false ∧
      (k.paging.noExecuteAvailable = true → isExecutable k.paging v = false)
  guard : ∀ top ∈ tops, ∀ v : BitVec 64, GuardPage top v.toNat →
    effective k.paging v = 0 ∧ translate k.paging v = 0
  /-- Nor is anything else mapped in the area, guard pages of later stacks included. -/
  bare : ∀ v, StackArea v → (∀ top ∈ tops, ¬Stack top v.toNat) → effective k.paging v = 0
  isGuardPage : ∀ a : BitVec 64, KernelStack.isGuardPage k.nextSlot a.toNat = true ↔
    ∃ top ∈ tops, GuardPage top a.toNat

/-- The runs of different stacks share no frame. -/
theorem Isolated.stackRuns_disjoint (h : Isolated s₀ k t tables) :
    k.stackRuns.Pairwise fun a b => ∀ j, ¬(a.Holds j ∧ b.Holds j) := by
  have hall := (List.pairwise_append.1 h.owned.tracks.disjoint).2.1
  have hsub : ((k.handedOut.filter fun x => x.1 = .kernelStack).map Prod.snd).Sublist k.runs :=
    (List.filter_sublist ..).map _
  refine List.pairwise_reverse.2 ((hall.sublist hsub).imp fun hab j hj => hab j hj.symm)

theorem Isolated.legal_stackRun (h : Isolated s₀ k t tables) (hrun : run ∈ k.stackRuns) :
    Frame.Legal s₀ run := by
  refine h.owned.tracks.legal run (List.mem_append_right _ ?_)
  exact ((List.filter_sublist ..).map _).subset (List.mem_reverse.1 hrun)

/-- An address of a stack is backed by the run of its slot. -/
theorem Stacked.translate_eq (hs₀ : Addressable s₀) {state : List Nat × Kernel}
    (h : Stacked s₀ noExecute state) (hfit : SlotsFit state.2.stackRuns.length)
    (hrun : state.2.stackRuns[i]? = some run) (hv : InSlot i v.toNat) :
    (translate state.2.paging v).toNat =
      run.address + (v.toNat - (slotAt i + KernelStack.GUARD_SIZE)) ∧
    run.Holds ((translate state.2.paging v).toNat / SIZE) := by
  have hi : i < state.2.stackRuns.length := (List.getElem?_eq_some_iff.1 hrun).1
  have hmem : run ∈ state.2.stackRuns := List.mem_of_getElem? hrun
  obtain ⟨-, -, t, tables, hiso⟩ := h.safe
  have hcount := h.count run hmem
  obtain ⟨hvirtual, -⟩ := KernelStack.toNat_stackCall (hfit.mono hi) run.address
  have hbacked := ((h.area hfit).backed hrun v hv).translate
  have hlegal := hiso.legal_stackRun hmem
  have haligned := hlegal.aligned
  have hle := Nat.le_trans hlegal.below_limit (Nat.le_trans hlegal.limit_le hs₀.frameCount_le)
  rw [show SIZE = 4096 from rfl] at *
  have hphysical : (stackCall (slotAt i) run.address).physical.toNat = run.address :=
    toNat_ofNat_of_lt (by omega)
  rw [hvirtual, hphysical] at hbacked
  obtain ⟨hlo, hhi⟩ := hv
  refine ⟨by omega, ?_⟩
  rw [KernelStack.slotAt_succ, show KernelStack.STRIDE = 0x5000 from rfl] at hhi
  rw [show KernelStack.GUARD_SIZE = 0x1000 from rfl] at *
  rw [show Config.THREAD_STACK_SIZE / PAGE_SIZE = 4 by decide] at hcount
  unfold Run.Holds
  omega

section

variable {state : List Nat × Kernel} (h : Stacked s₀ noExecute state)
  (hfit : SlotsFit state.1.length)

include h

theorem Stacked.length_tops : state.1.length = state.2.stackRuns.length := by
  rw [h.tops, List.length_map, List.length_range]

/-- The run behind a slot. -/
theorem Stacked.exists_run (hi : i < state.1.length) : ∃ run, state.2.stackRuns[i]? = some run :=
  ⟨_, List.getElem?_eq_getElem (h.length_tops ▸ hi)⟩

include hfit

/-- A stack ends where the next slot begins. -/
theorem Stacked.tops_eq : state.1 = (List.range state.1.length).map fun i => slotAt (i + 1) := by
  conv_lhs => rw [h.tops, ← h.length_tops]
  refine List.map_congr_left fun i hi => ?_
  exact (hfit.mono (List.mem_range.1 hi)).nextSlot

theorem Stacked.mem_tops {top : Nat} :
    top ∈ state.1 ↔ ∃ i, i < state.1.length ∧ slotAt (i + 1) = top := by
  have hmem : top ∈ state.1 ↔ top ∈ (List.range state.1.length).map fun i => slotAt (i + 1) :=
    Eq.to_iff (congrArg (top ∈ ·) (h.tops_eq hfit))
  rw [hmem, List.mem_map]
  simp only [List.mem_range]

/-- A relation between any two tops. -/
theorem Stacked.pairwise_tops {R : Nat → Nat → Prop}
    (hR : ∀ i j, i < j → j < state.1.length → R (slotAt (i + 1)) (slotAt (j + 1))) :
    state.1.Pairwise R := by
  rw [h.tops_eq hfit, List.pairwise_map]
  refine List.pairwise_lt_range.imp_of_mem fun {i j} _ hj hlt => ?_
  exact hR i j hlt (List.mem_range.1 hj)

end

/-- All of it follows from the invariant. -/
theorem Stacked.stacksGuarded (hs₀ : Addressable s₀) (h : Stacked s₀ noExecute (tops, k))
    (hfit : SlotsFit tops.length) : StacksGuarded tops k := by
  have hlength : tops.length = k.stackRuns.length := h.length_tops
  have hfit' : SlotsFit k.stackRuns.length := hlength ▸ hfit
  have hguarded : Guarded k.paging k.stackRuns := h.area hfit'
  refine ⟨?_, ?_, ?_, ?_, ?_, ?_, ?_⟩
  · refine h.pairwise_tops hfit fun i j hlt _ a ⟨hi, hj⟩ => ?_
    rw [KernelStack.stack_iff] at hi hj
    exact absurd (hi.slot_eq hj) (Nat.ne_of_lt hlt)
  · intro top htop
    obtain ⟨i, hi, rfl⟩ := (h.mem_tops hfit).1 htop
    obtain ⟨run, hrun⟩ := h.exists_run hi
    refine ⟨run.address, fun v hv => ?_⟩
    rw [KernelStack.stack_iff] at hv
    rw [(h.translate_eq hs₀ hfit' hrun hv).1, KernelStack.slotAt_succ,
      KernelStack.stride_eq, ← Nat.add_assoc, Nat.add_sub_cancel]
  · refine h.pairwise_tops hfit fun i j hlt hj v w hv hw heq => ?_
    rw [KernelStack.stack_iff] at hv hw
    obtain ⟨run, hrun⟩ := h.exists_run (Nat.lt_trans hlt hj)
    obtain ⟨run', hrun'⟩ := h.exists_run hj
    obtain ⟨-, -, t, tables, hiso⟩ := h.safe
    have hholds := (h.translate_eq hs₀ hfit' hrun hv).2
    have hholds' := (h.translate_eq hs₀ hfit' hrun' hw).2
    rw [heq] at hholds
    obtain ⟨hi, rfl⟩ := List.getElem?_eq_some_iff.1 hrun
    obtain ⟨hj', rfl⟩ := List.getElem?_eq_some_iff.1 hrun'
    exact List.pairwise_iff_getElem.1 hiso.stackRuns_disjoint i j hi hj' hlt _ ⟨hholds, hholds'⟩
  · intro top htop v hv
    obtain ⟨i, hi, rfl⟩ := (h.mem_tops hfit).1 htop
    obtain ⟨run, hrun⟩ := h.exists_run hi
    rw [KernelStack.stack_iff] at hv
    have hbacked := hguarded.backed hrun v hv
    refine ⟨hbacked.isWritable, hbacked.isUserReadable, fun hnx => ?_⟩
    rw [hbacked.isExecutable, hnx]
    rfl
  · intro top htop v hv
    obtain ⟨i, hi, rfl⟩ := (h.mem_tops hfit).1 htop
    rw [KernelStack.guardPage_iff] at hv
    have hzero : effective k.paging v = 0 :=
      hguarded.bare v (KernelStack.stackArea_of_guard hfit hi hv) fun j _ =>
        KernelStack.not_inSlot_of_guard hv j
    refine ⟨hzero, ?_⟩
    unfold Paging.translate
    rw [hzero]
    rfl
  · intro v hv hout
    refine hguarded.bare v hv fun i hi hslot => ?_
    exact hout _ ((h.mem_tops hfit).2 ⟨i, hlength ▸ hi, rfl⟩) ((KernelStack.stack_iff i _).2 hslot)
  · intro a
    have hnext : k.nextSlot = KernelStack.nextSlot tops.length := hlength ▸ h.nextSlot
    have hlt : slotAt tops.length < 2 ^ 64 := Nat.lt_of_le_of_lt hfit (by decide)
    rw [hnext, KernelStack.isGuardPage_iff hlt]
    constructor
    · rintro ⟨i, hi, hguard⟩
      exact ⟨_, (h.mem_tops hfit).2 ⟨i, hi, rfl⟩, (KernelStack.guardPage_iff i _).2 hguard⟩
    · rintro ⟨top, htop, hguard⟩
      obtain ⟨i, hi, rfl⟩ := (h.mem_tops hfit).1 htop
      exact ⟨i, hi, (KernelStack.guardPage_iff i _).1 hguard⟩

/-- `KernelStack::Allocate` on a machine with room. -/
theorem Paging.HasRoom.allocateKernelStack {c limit : Nat} (hs₀ : Addressable s₀)
    (h : HasRoom s₀ k.runs k.paging c limit) (hslot : k.nextSlot = slotAt n)
    (hfit : SlotsFit (n + 1)) (hroom : c + 13 < limit) (hlimit : limit ≤ 2 ^ 40) :
    ∃ k' c', KernelStack.allocate k = .ok (slotAt (n + 1), k') ∧
      HasRoom s₀ k'.runs k'.paging c' limit ∧ c' ≤ c + 10 ∧ k'.nextSlot = slotAt (n + 1) ∧
      k'.nextStackTop = k.nextStackTop ∧
      Served k.paging (stackCall (slotAt n) (c * SIZE)) k'.paging := by
  obtain ⟨k₁, hk₁⟩ := exists_marked k (KernelStack.advance k.nextSlot) k.nextStackTop
  have hroom₁ := h.of_eq hk₁.paging hk₁.handedOut
  have hcost := KernelStack.cost_stackCall hfit (show c + 4 ≤ 2 ^ 40 by omega)
  obtain ⟨halloc, -⟩ := hroom₁.allocateFrames hs₀ .kernelStack (show 0 < 4 by decide) (by omega)
  obtain ⟨k', c', hmap, hroom', hle, hserved, htop, hslot'⟩ := hroom₁.provide hs₀ .kernelStack
    (show 0 < 4 by decide) (KernelStack.admissible_stackCall hfit (show c + 4 ≤ 2 ^ 40 by omega))
    (by omega) fun a _ => rfl
  have hadvance : KernelStack.advance k.nextSlot = slotAt (n + 1) := by
    rw [KernelStack.advance, hslot, ← KernelStack.slotAt_succ]
    exact wrap64_of_lt (Nat.lt_of_le_of_lt hfit (by decide))
  refine ⟨k', c', ?_, hroom', by omega, ?_, ?_, hk₁.paging ▸ hserved⟩
  · unfold KernelStack.allocate
    dsimp only
    rw [hk₁.eq, show Config.THREAD_STACK_SIZE / PAGE_SIZE = 4 by decide, halloc]
    dsimp only
    rw [if_neg (Nat.mul_ne_zero (Nat.ne_of_gt h.pos) (by decide)), hslot]
    refine (bind_ok_iff _ _ _).2 ⟨(true, k'), hmap, ?_⟩
    rw [if_pos rfl, ← hadvance, KernelStack.advance, hslot]
    rfl
  · rw [hslot', ← hadvance, ← hk₁.eq]
  · rw [htop, ← hk₁.eq]

/-- From boot on, whatever the requests are. -/
theorem kernel_stacks_guarded {boot : Handover} {memory : ByteMemory} {bitmap : Nat}
    {k₀ : Kernel} (hlinked : Linked boot) (hram : RamFits boot)
    (hboot : bootKernel boot memory = .ok (k₀, bitmap)) {requests : List Request}
    {tops : List Nat} (hrun : requests.foldlM serveStacks ([], k₀) = .ok (tops, k))
    (hfit : SlotsFit tops.length) : StacksGuarded tops k := by
  obtain ⟨s₀, hs₀, hb, hstacked⟩ := bootKernel_stacked hlinked hram hboot
  have hend : Stacked s₀ boot.noExecute (tops, k) :=
    foldlM_invariant (P := Stacked s₀ boot.noExecute)
      (fun _ _ _ _ h hserve => h.serve hs₀ hb hserve) hstacked hrun
  exact hend.stacksGuarded hs₀ hfit

/-- Two stacks, with one for ring 3 between them. -/
theorem kernel_stacks_guarded_between :
    ∃ k₀ k, bootKernel roomyHandover (fun _ => 0) = .ok (k₀, 0x120000) ∧
      [Request.kernelStack, .userStack, .kernelStack].foldlM serveStacks ([], k₀) =
        .ok ([slotAt 1, slotAt 2], k) ∧ StacksGuarded [slotAt 1, slotAt 2] k := by
  obtain ⟨s₀, k₀, c, hboot, hs₀, hroomy, hle, htop, -⟩ := bootKernel_roomy (fun _ => 0)
  have hslot : k₀.nextSlot = slotAt 0 := bootKernel_nextSlot linked_roomy ramFits_roomy hboot
  obtain ⟨k₁, c₁, hcall₁, hroomy₁, hle₁, hslot₁, htop₁, -⟩ :=
    hroomy.allocateKernelStack hs₀ hslot (by decide) (by omega) (by decide)
  obtain ⟨k₂, c₂, hcall₂, hroomy₂, hle₂, -, hslot₂⟩ :=
    User.allocateStack_roomy hs₀ hroomy₁ (by omega) (htop₁.trans htop)
  obtain ⟨k₃, -, hcall₃, -⟩ := hroomy₂.allocateKernelStack hs₀ (hslot₂.trans hslot₁) (by decide)
    (by omega) (by decide)
  have hrun : [Request.kernelStack, .userStack, .kernelStack].foldlM serveStacks ([], k₀) =
      .ok ([slotAt 1, slotAt 2], k₃) :=
    (bind_ok_iff _ _ _).2 ⟨([slotAt 1], k₁), (bind_ok_iff _ _ _).2 ⟨_, hcall₁, rfl⟩,
      (bind_ok_iff _ _ _).2 ⟨([slotAt 1], k₂),
        (bind_ok_iff _ _ _).2 ⟨k₂, (bind_ok_iff _ _ _).2 ⟨_, hcall₂, rfl⟩, rfl⟩,
        (bind_ok_iff _ _ _).2 ⟨([slotAt 1, slotAt 2], k₃),
          (bind_ok_iff _ _ _).2 ⟨_, hcall₃, rfl⟩, rfl⟩⟩⟩
  exact ⟨k₀, k₃, hboot, hrun,
    kernel_stacks_guarded linked_roomy ramFits_roomy hboot hrun (by decide)⟩

/-! ## A machine with memory at 64 TiB -/

/-- Three GiB of memory like on any other machine, and one more page at the physical
address 64 TiB.  The bitmap of the frames takes two GiB of it.  The direct map of the
page is where the kernel stacks begin. -/
def sparseHandover : Handover :=
  { roomyHandover with
    memoryRegions := [⟨0x100000, 0xBFF00000, .available⟩, ⟨0x400000000000, 0x1000, .available⟩] }

/-- The frames between the bitmap and the end of the first region are free. -/
theorem initializeState_sparse :
    ∃ s₀, Frame.initializeState sparseHandover = .ok (s₀, 0x120000) ∧
      Frame.Spare s₀ 0x80121 0xC0000 := by
  have hcount : Frame.initialFrameCount sparseHandover = 0x400000001 := by decide
  refine Frame.initializeState_spare (by decide +kernel) (by decide) (by decide)
    (by rw [hcount]; decide) (by decide) fun j hj => ?_
  have hregions : Frame.availableRegions sparseHandover =
      [⟨0x100000, 0xBFF00000, .available⟩, ⟨0x400000000000, 0x1000, .available⟩] := by decide
  have hused : Frame.usedRanges sparseHandover 0x120000 =
      [⟨0, 0x100000⟩, ⟨0x100000, 0x120000⟩, ⟨0x120000, 0x80120008⟩] := by decide
  rw [Frame.takenAtBoot, hcount, hregions, hused]
  simp only [List.any_cons, List.any_nil, Bool.or_false, Bool.or_eq_true, Bool.not_eq_true',
    Bool.or_eq_false_iff, decide_eq_true_eq, decide_eq_false_iff_not, Frame.Contains,
    Frame.Touches, MemoryRegion.stop, wrap64, show SIZE = 4096 from rfl]
  omega

/-- The direct map of the page at 64 TiB. -/
def farCall : MapCall :=
  ⟨0xFFFFC00000000000, 0x400000000000, 0x1000, .readWrite, .kernel, .normal⟩

theorem far_canonical : Canonical 0xFFFFC00000000000 := Or.inr (by decide)

/-- With memory at 64 TiB, the page below the first stack is mapped and writable. -/
theorem guard_page_mapped :
    Linked sparseHandover ∧
    ∃ k₀ k, bootKernel sparseHandover (fun _ => 0) = .ok (k₀, 0x120000) ∧
      [Request.kernelStack].foldlM serveStacks ([], k₀) = .ok ([slotAt 1], k) ∧ SlotsFit 1 ∧
      GuardPage (slotAt 1) 0xFFFFC00000000000 ∧
      translate k.paging 0xFFFFC00000000000 = 0x400000000000 ∧
      isWritable k.paging 0xFFFFC00000000000 = true := by
  obtain ⟨s₀, hframes, hspare⟩ := initializeState_sparse
  have hs₀ : Addressable s₀ := addressable_of_boot hframes (by decide)
  have hcost : bootCost (bootSteps sparseHandover) = 4638 := by decide
  obtain ⟨s, k₀, c, hboot, hbooted, hroom, hle, -, hslot, hnx, hsame⟩ :=
    bootKernel_room hframes hs₀ hspare (by decide) (by decide) (by decide)
      (by rw [hcost]; decide) (by decide) (by decide) (fun _ => 0)
  obtain ⟨k, -, hcall, -, -, -, -, hserved⟩ := hroom.allocateKernelStack (n := 0) hs₀ hslot
    (by decide) (by omega) (by decide)
  have hrun : [Request.kernelStack].foldlM serveStacks ([], k₀) = .ok ([slotAt 1], k) :=
    (bind_ok_iff _ _ _).2 ⟨([slotAt 1], k), (bind_ok_iff _ _ _).2 ⟨_, hcall, rfl⟩, rfl⟩
  have hlast : lastTouching (bootSteps sparseHandover) 0xFFFFC00000000000 =
      some ⟨farCall, 0x400000001000⟩ := by decide
  have hfar := (hbooted.requested _ far_canonical _ hlast).congr hnx (hsame _)
  -- the stack is above its guard page, so that one stays as boot mapped it
  have hout : ¬(stackCall (slotAt 0) (c * SIZE)).Touches 0xFFFFC00000000000 := by
    rw [KernelStack.touches_stackCall (by decide)]
    unfold InSlot
    decide
  have hkept := hfar.congr hserved.setup.noExecuteAvailable
    (hserved.effective_eq _ far_canonical hout)
  refine ⟨⟨by decide, by decide, by decide, by decide, by decide, by decide⟩, k₀, k, hboot, hrun,
    by decide, by unfold GuardPage; decide, ?_, hkept.isWritable⟩
  have hnat := hkept.translate
  exact BitVec.eq_of_toNat_eq (by simpa [farCall] using hnat)

end X64HK
