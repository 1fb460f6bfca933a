import X64HK.Memory.BootCalls
import X64HK.Memory.HeapInvariant
import X64HK.Memory.PagingLeaves
import X64HK.User.LoadSteps

/-!
# Isolation of user memory

Ring 3 sees the pages whose entries carry the `USER` bit.  `Isolated` is the
invariant that holds after boot and after every call of
`KernelStack::Allocate`, `User::AllocateStack` and `User::Load`, whether it
succeeds or fails: the page tables and the recorded runs share no frame, and
the entries satisfy `Leaves` for the runs of ring 3.

* `Isolated.allocateFrames`, `Isolated.setMemory`, `Isolated.mapKernel` and
  `Isolated.mapRun` are the four things those calls do.
* `Provided` is what the calls for ring 3 have in common: a new run is filled
  and then mapped.
* `Loads.safe` goes through the loop over the program headers.
* `user_isolation` is the result for every run from boot.
-/

namespace X64HK

open X64HK.Frame (SIZE Run Tracks isTaken)
open Multiboot
open Paging

variable {k : Kernel} {run : Run}

namespace Kernel

/-- The runs on record that ring 3 may see. -/
def userRuns (k : Kernel) : List Run :=
  (k.handedOut.filter fun x => x.1.IsUser).map Prod.snd

theorem mem_userRuns : run ∈ k.userRuns ↔ ∃ owner, (owner, run) ∈ k.handedOut ∧ owner.IsUser := by
  simp [userRuns]

end Kernel

structure Isolated (s₀ : Frame.State) (k : Kernel) (t : Tree) (tables : List Run) :
    Prop where
  owned : Owned s₀ k.paging t tables k.runs
  leaves : Leaves k.paging.noExecuteAvailable k.userRuns t.leaf

variable {s₀ : Frame.State} {k' : Kernel} {t : Tree} {tables : List Run} {memory : ByteMemory}
  {call : MapCall} {mapped : Bool}

/-- The watermarks do not matter. -/
theorem Isolated.of_eq (h : Isolated s₀ k t tables) (hpaging : k'.paging = k.paging)
    (hrecord : k'.handedOut = k.handedOut) :
    Isolated s₀ k' t tables := by
  refine ⟨?_, ?_⟩
  · rw [hpaging, Kernel.runs, hrecord]
    exact h.owned
  · rw [hpaging, Kernel.userRuns, hrecord]
    exact h.leaves

/-! ## The steps that the calls are made of -/

/-- A run that an owner just got.  No user page shows a frame of it. -/
structure Allocated (s₀ : Frame.State) (k : Kernel) (t : Tree) (tables : List Run)
    (owner : Owner) (run : Run) (k' : Kernel) : Prop where
  isolated : Isolated s₀ k' t tables
  handedOut : k'.handedOut = (owner, run) :: k.handedOut
  noExecute : k'.paging.noExecuteAvailable = k.paging.noExecuteAvailable
  nextStackTop : k'.nextStackTop = k.nextStackTop
  nextSlot : k'.nextSlot = k.nextSlot
  paging : k'.paging = { k.paging with frames := k'.paging.frames }
  reachable : k'.paging.frames.reachableFrames = k.paging.frames.reachableFrames
  unseen : ∀ {q}, (t.leaf q).getLsbD 2 = true → ¬run.Holds (leafFrame (t.leaf q))
  call : k.allocateFrames owner run.count = (run.address, k')
  address_ne : run.address ≠ 0

/-- `Frame::Allocate` has no run of that many frames. -/
def Kernel.Starved (k : Kernel) (count : Nat) : Prop :=
  (Frame.allocate k.paging.frames count).1 = 0

instance (k : Kernel) (count : Nat) : Decidable (k.Starved count) :=
  inferInstanceAs (Decidable (_ = 0))

theorem Isolated.allocateFrames (hs₀ : Addressable s₀) (h : Isolated s₀ k t tables)
    (owner : Owner) (count : Nat) :
    (k.Starved count ∧ k.allocateFrames owner count = (0, k)) ∨
      (¬k.Starved count ∧ ∃ run k', run.count = count ∧ Allocated s₀ k t tables owner run k') := by
  unfold Kernel.Starved
  rcases h.owned.tracks.allocate hs₀.zero_taken count with
    hnone | ⟨run, frames, heq, hne, rfl, hlimit, htr⟩
  · refine Or.inl ⟨by rw [hnone], ?_⟩
    simp only [Kernel.allocateFrames, hnone]
    rfl
  · have hreachable : frames.reachableFrames = k.paging.frames.reachableFrames := by
      rw [← Frame.allocate_reachableFrames k.paging.frames run.count, heq]
    refine Or.inr ⟨by rw [heq]; exact hne, run, { k with
      paging := { k.paging with frames := frames }
      handedOut := (owner, run) :: k.handedOut }, rfl,
      ⟨⟨?_, ?_⟩, rfl, rfl, rfl, rfl, rfl, hreachable, ?_, ?_, hne⟩⟩
    · exact h.owned.handOut htr
    · refine h.leaves.mono fun run' hrun' => ?_
      obtain ⟨owner', hmem, huser⟩ := Kernel.mem_userRuns.1 hrun'
      exact Kernel.mem_userRuns.2 ⟨owner', List.mem_cons_of_mem _ hmem, huser⟩
    · intro q hq hholds
      obtain ⟨run', hrun', hholds'⟩ := h.leaves.backed hq
      obtain ⟨owner', hmem, -⟩ := Kernel.mem_userRuns.1 hrun'
      have hlive : run' ∈ tables ++ k.runs :=
        List.mem_append_right _ (List.mem_map.2 ⟨_, hmem, rfl⟩)
      exact (List.pairwise_cons.1 htr.disjoint).1 run' hlive _ ⟨hholds, hholds'⟩
    · simp only [Kernel.allocateFrames, heq, if_neg hne, ← hlimit]

/-- The kernel writes to the frames of a run that it was given. -/
theorem Isolated.setMemory (h : Isolated s₀ k t tables) (hrun : run ∈ k.runs)
    (hmemory : ∀ a, a < run.address ∨ run.address + run.count * SIZE ≤ a →
      memory a = k.paging.memory a) : Isolated s₀ (k.setMemory memory) t tables :=
  ⟨h.owned.setMemory hrun hmemory, h.leaves⟩

/-- Statics that `Map` leaves alone. -/
structure SameRecord (k k' : Kernel) : Prop where
  handedOut : k'.handedOut = k.handedOut
  noExecute : k'.paging.noExecuteAvailable = k.paging.noExecuteAvailable
  nextStackTop : k'.nextStackTop = k.nextStackTop

theorem Kernel.map_eq_ok (h : k.map call = .ok (mapped, k')) :
    ∃ paging, Paging.map k.paging call = .ok (mapped, paging) ∧
      k' = { k with paging := paging } := by
  obtain ⟨⟨m, paging⟩, hmap, hret⟩ := (bind_ok_iff _ _ _).1 h
  obtain ⟨rfl, rfl⟩ := Prod.mk.inj (Except.ok.inj hret)
  exact ⟨paging, hmap, rfl⟩

theorem Isolated.map_work (hs₀ : Addressable s₀) (h : Isolated s₀ k t tables)
    (hmap : k.map call = .ok (mapped, k')) :
    TableWork k.runs k.paging k'.paging := by
  obtain ⟨paging, hpaging, rfl⟩ := Kernel.map_eq_ok hmap
  obtain ⟨n, t', tables', hm⟩ := map_spec hs₀ h.owned hpaging
  exact hm.work

/-- Mapping, when the leaves stay what they should be however far it gets. -/
theorem Isolated.map (hs₀ : Addressable s₀) (h : Isolated s₀ k t tables)
    (hleaves : ∀ n, (∀ m, call.stop = pagesAbove call.firstPage m → n ≤ m) →
      Leaves k.paging.noExecuteAvailable k.userRuns
        (mapPages (call.flags k.paging.noExecuteAvailable) n call.firstPage call.source t.leaf))
    (hmap : k.map call = .ok (mapped, k')) :
    ∃ t' tables', Isolated s₀ k' t' tables' ∧ SameRecord k k' := by
  obtain ⟨paging, hpaging, rfl⟩ := Kernel.map_eq_ok hmap
  obtain ⟨n, t', tables', hm⟩ := map_spec hs₀ h.owned hpaging
  have hnx : paging.noExecuteAvailable = k.paging.noExecuteAvailable :=
    hm.setup.noExecuteAvailable
  refine ⟨t', tables', ⟨hm.owned, ?_⟩, rfl, hnx, rfl⟩
  change Leaves paging.noExecuteAvailable k.userRuns t'.leaf
  rw [hm.leaf, hnx]
  exact hleaves n fun _ => hm.le_of_stop

/-- Mapping for the kernel. -/
theorem Isolated.mapKernel (hs₀ : Addressable s₀) (h : Isolated s₀ k t tables)
    (hkernel : call.privilege = .kernel) :
    k.map call = .ok (mapped, k') → ∃ t' tables', Isolated s₀ k' t' tables' ∧ SameRecord k k' :=
  h.map hs₀ fun n _ => h.leaves.map_kernel hkernel n

/-- A call of `Map` for the whole of a run, from a page boundary on. -/
structure ForRun (call : MapCall) (run : Run) : Prop where
  physical : call.physical = BitVec.ofNat 64 run.address
  size : call.size = BitVec.ofNat 64 (run.count * PAGE_SIZE)
  source : call.source.toNat = run.first * PAGE_SIZE
  stop : call.stop = pagesAbove call.firstPage run.count
  bound : (run.first + run.count) * PAGE_SIZE ≤ 2 ^ 52

theorem Isolated.forRun (hs₀ : Addressable s₀) (h : Isolated s₀ k t tables)
    (hrun : run ∈ k.runs) (hvirtual : call.virtual.toNat % PAGE_SIZE = 0)
    (hphysical : call.physical = BitVec.ofNat 64 run.address)
    (hsize : call.size = BitVec.ofNat 64 (run.count * PAGE_SIZE)) : ForRun call run := by
  have hlegal := h.owned.tracks.legal run (List.mem_append_right _ hrun)
  have hbound : (run.first + run.count) * PAGE_SIZE ≤ 2 ^ 52 := by
    have hle := Nat.le_trans hlegal.below_limit (Nat.le_trans hlegal.limit_le hs₀.frameCount_le)
    rw [show PAGE_SIZE = 4096 from rfl]
    omega
  refine ⟨hphysical, hsize, ?_, ?_, hbound⟩
  · have hlt : run.first * PAGE_SIZE < 2 ^ 64 := by
      rw [Nat.add_mul] at hbound
      omega
    have haddress : run.address = run.first * PAGE_SIZE := hlegal.aligned
    rw [call.toNat_source, hphysical, haddress, BitVec.toNat_ofNat, Nat.mod_eq_of_lt hlt,
      Nat.mul_div_cancel _ (by decide)]
  · have hfirst : call.firstPage = call.virtual := by
      refine BitVec.eq_of_toNat_eq ?_
      rw [call.toNat_firstPage]
      exact Nat.div_mul_cancel (Nat.dvd_of_mod_eq_zero hvirtual)
    rw [MapCall.stop, pagesAbove, hfirst, hsize]

/-- Mapping a run for ring 3 that no user page shows yet. -/
theorem Isolated.mapRun (hs₀ : Addressable s₀) (h : Isolated s₀ k t tables)
    (hrun : run ∈ k.userRuns)
    (hunseen : ∀ {q}, (t.leaf q).getLsbD 2 = true → ¬run.Holds (leafFrame (t.leaf q)))
    (hcall : ForRun call run) :
    k.map call = .ok (mapped, k') → ∃ t' tables', Isolated s₀ k' t' tables' ∧ SameRecord k k' :=
  h.map hs₀ fun _ hle =>
    h.leaves.map_user hrun hcall.source hcall.bound hunseen (hle _ hcall.stop)

/-! ## The calls -/

/-- The invariant, with the tree and the runs of the tables left open. -/
structure Safe (s₀ : Frame.State) (noExecute : Bool) (k : Kernel) : Prop where
  noExecute_eq : k.paging.noExecuteAvailable = noExecute
  stackTop : k.nextStackTop % PAGE_SIZE = 0 ∧ k.nextStackTop < 2 ^ 64
  isolated : ∃ t tables, Isolated s₀ k t tables

variable {noExecute : Bool} {k₁ : Kernel} {top size : Nat} {owner : Owner} {image : ByteMemory}

/-- The call of `Map` that `KernelStack::Allocate` makes. -/
def KernelStack.stackCall (slot frames : Nat) : MapCall :=
  ⟨BitVec.ofNat 64 (slot + KernelStack.GUARD_SIZE), BitVec.ofNat 64 frames,
    BitVec.ofNat 64 Config.THREAD_STACK_SIZE, .readWrite, .kernel, .normal⟩

/-- The kernel after an allocator of stacks moved a watermark.  It is a variable
of the lemmas below, for evaluation not to look into it. -/
structure Marked (k : Kernel) (nextSlot nextStackTop : Nat) (k₁ : Kernel) : Prop where
  eq : { k with nextSlot := nextSlot, nextStackTop := nextStackTop } = k₁

theorem exists_marked (k : Kernel) (nextSlot nextStackTop : Nat) :
    ∃ k₁, Marked k nextSlot nextStackTop k₁ := ⟨_, ⟨rfl⟩⟩

theorem Marked.paging {nextSlot nextStackTop : Nat} (h : Marked k nextSlot nextStackTop k₁) :
    k₁.paging = k.paging := by
  rw [← h.eq]

theorem Marked.handedOut {nextSlot nextStackTop : Nat} (h : Marked k nextSlot nextStackTop k₁) :
    k₁.handedOut = k.handedOut := by
  rw [← h.eq]

/-- `KernelStack::Allocate` panics, or maps a new run. -/
theorem allocateKernelStack_cases (hs₀ : Addressable s₀) (h : Isolated s₀ k t tables)
    (hcall : KernelStack.allocate k = .ok (top, k')) :
    ∃ k₁ run k₂, Marked k (KernelStack.advance k.nextSlot) k.nextStackTop k₁ ∧
      Isolated s₀ k₁ t tables ∧ Allocated s₀ k₁ t tables .kernelStack run k₂ ∧
      run.count = Config.THREAD_STACK_SIZE / PAGE_SIZE ∧
      k₂.map (KernelStack.stackCall k.nextSlot run.address) = .ok (true, k') ∧
      top = wrap64 (k.nextSlot + KernelStack.STRIDE) := by
  obtain ⟨k₁, hmarked⟩ := exists_marked k (KernelStack.advance k.nextSlot) k.nextStackTop
  have hiso : Isolated s₀ k₁ t tables := h.of_eq hmarked.paging hmarked.handedOut
  unfold KernelStack.allocate at hcall
  dsimp only at hcall
  rw [hmarked.eq] at hcall
  rcases hiso.allocateFrames hs₀ .kernelStack (Config.THREAD_STACK_SIZE / PAGE_SIZE) with
    ⟨-, hnone⟩ | ⟨-, run, k₂, hcount, halloc⟩
  · simp only [hnone, if_true] at hcall
    exact absurd hcall nofun
  · simp only [← hcount, halloc.call, if_neg halloc.address_ne] at hcall
    obtain ⟨⟨mapped, k₃⟩, hmap, hret⟩ := (bind_ok_iff _ _ _).1 hcall
    cases mapped with
    | false => exact absurd hret nofun
    | true =>
      obtain ⟨rfl, rfl⟩ := Prod.mk.inj (Except.ok.inj hret)
      exact ⟨k₁, run, k₂, hmarked, hiso, halloc, hcount, hmap, rfl⟩

theorem allocateKernelStack_safe (hs₀ : Addressable s₀) (h : Safe s₀ noExecute k)
    (hcall : KernelStack.allocate k = .ok (top, k')) :
    Safe s₀ noExecute k' := by
  obtain ⟨hnx, htop, t, tables, h⟩ := h
  obtain ⟨k₁, run, k₂, hmarked, -, halloc, -, hmap, -⟩ := allocateKernelStack_cases hs₀ h hcall
  obtain ⟨t', tables', hiso, hrecord⟩ := halloc.isolated.mapKernel hs₀ rfl hmap
  refine ⟨(hrecord.noExecute.trans halloc.noExecute).trans ?_, ?_, t', tables', hiso⟩
  · rw [hmarked.paging]
    exact hnx
  · rw [hrecord.nextStackTop, halloc.nextStackTop, ← hmarked.eq]
    exact htop

theorem Allocated.mem_runs (h : Allocated s₀ k t tables owner run k') : run ∈ k'.runs :=
  List.mem_map.2 ⟨(owner, run), by rw [h.handedOut]; exact List.mem_cons_self .., rfl⟩

theorem Allocated.runs_eq (h : Allocated s₀ k t tables owner run k') : k'.runs = run :: k.runs := by
  rw [Kernel.runs, h.handedOut]
  rfl

theorem Allocated.mem_userRuns (h : Allocated s₀ k t tables owner run k') (huser : owner.IsUser) :
    run ∈ k'.userRuns :=
  Kernel.mem_userRuns.2 ⟨owner, by rw [h.handedOut]; exact List.mem_cons_self .., huser⟩

/-- The kernel writes the bytes of a run. -/
def Kernel.writeRun (k : Kernel) (run : Run) (content : Nat → BitVec 8) : Kernel :=
  k.setMemory (k.paging.memory.copy run.address (run.count * SIZE) content)

/-- A new run was filled and mapped for ring 3, or as much of it as the page
tables had room for. -/
structure Provided (s₀ : Frame.State) (k : Kernel) (t : Tree) (tables : List Run)
    (owner : Owner) (run : Run) (content : Nat → BitVec 8) (call : MapCall) (mapped : Bool)
    (k' : Kernel) : Prop where
  owner_user : owner.IsUser
  privilege : call.privilege = .user
  forRun : ForRun call run
  steps : ∃ k₁, Allocated s₀ k t tables owner run k₁ ∧
    Isolated s₀ (k₁.writeRun run content) t tables ∧
    (k₁.writeRun run content).map call = .ok (mapped, k')

theorem Allocated.provided (hs₀ : Addressable s₀) (h : Allocated s₀ k t tables owner run k₁)
    {content : Nat → BitVec 8} (hmap : (k₁.writeRun run content).map call = .ok (mapped, k'))
    (huser : owner.IsUser) (hprivilege : call.privilege = .user)
    (hvirtual : call.virtual.toNat % PAGE_SIZE = 0)
    (hphysical : call.physical = BitVec.ofNat 64 run.address)
    (hsize : call.size = BitVec.ofNat 64 (run.count * PAGE_SIZE)) :
    Provided s₀ k t tables owner run content call mapped k' := by
  have hset : Isolated s₀ (k₁.writeRun run content) t tables :=
    h.isolated.setMemory h.mem_runs fun a ha => ByteMemory.copy_of_outside ha
  exact ⟨huser, hprivilege, hset.forRun hs₀ h.mem_runs hvirtual hphysical hsize, k₁, h, hset, hmap⟩

theorem Provided.isolated (hs₀ : Addressable s₀) {content : Nat → BitVec 8}
    (h : Provided s₀ k t tables owner run content call mapped k') :
    (∃ t' tables', Isolated s₀ k' t' tables') ∧
      k'.paging.noExecuteAvailable = k.paging.noExecuteAvailable ∧
      k'.nextStackTop = k.nextStackTop := by
  obtain ⟨k₁, halloc, hset, hmap⟩ := h.steps
  obtain ⟨t', tables', hiso, hrecord⟩ :=
    hset.mapRun hs₀ (halloc.mem_userRuns h.owner_user) halloc.unseen h.forRun hmap
  exact ⟨⟨t', tables', hiso⟩, hrecord.noExecute.trans halloc.noExecute,
    hrecord.nextStackTop.trans halloc.nextStackTop⟩

theorem SIZE_eq_PAGE_SIZE : SIZE = PAGE_SIZE := rfl

theorem sub64_aligned {a b : Nat} (ha : a % PAGE_SIZE = 0) (hb : b % PAGE_SIZE = 0)
    (hle : b ≤ a + 2 ^ 64) : sub64 a b % PAGE_SIZE = 0 := by
  unfold sub64
  rw [show PAGE_SIZE = 4096 from rfl] at *
  omega

theorem toNat_ofNat_aligned {x : Nat} (hx : x % PAGE_SIZE = 0) :
    (BitVec.ofNat 64 x).toNat % PAGE_SIZE = 0 := by
  rw [BitVec.toNat_ofNat]
  rw [show PAGE_SIZE = 4096 from rfl] at *
  omega

namespace User

/-- The call of `Map` that `AllocateStack` makes. -/
def stackCall (top frames : Nat) : MapCall :=
  ⟨BitVec.ofNat 64 (sub64 top HK.USER_STACK_SIZE), BitVec.ofNat 64 frames,
    BitVec.ofNat 64 HK.USER_STACK_SIZE, .readWrite, .user, .normal⟩

/-- `AllocateStack` answers zero for want of frames, or maps a new run of
zeros. -/
theorem allocateStack_cases (hs₀ : Addressable s₀) (h : Isolated s₀ k t tables)
    (htop : k.nextStackTop % PAGE_SIZE = 0) (hcall : allocateStack k = .ok (top, k')) :
    ∃ k₁, Marked k k.nextSlot (sub64 k.nextStackTop STACK_STRIDE) k₁ ∧
      Isolated s₀ k₁ t tables ∧
      ((k.Starved (HK.USER_STACK_SIZE / PAGE_SIZE) ∧ top = 0 ∧ k' = k₁) ∨
        (¬k.Starved (HK.USER_STACK_SIZE / PAGE_SIZE) ∧ ∃ run mapped,
          Provided s₀ k₁ t tables .userStack run (fun _ => 0)
            (stackCall k.nextStackTop run.address) mapped k' ∧
          run.count = HK.USER_STACK_SIZE / PAGE_SIZE ∧
          top = if mapped then k.nextStackTop else 0)) := by
  obtain ⟨k₁, hmarked⟩ := exists_marked k k.nextSlot (sub64 k.nextStackTop STACK_STRIDE)
  have hiso : Isolated s₀ k₁ t tables := h.of_eq hmarked.paging hmarked.handedOut
  refine ⟨k₁, hmarked, hiso, ?_⟩
  have halign : (BitVec.ofNat 64 (sub64 k.nextStackTop HK.USER_STACK_SIZE)).toNat % PAGE_SIZE = 0 :=
    toNat_ofNat_aligned (sub64_aligned htop (by decide) (Nat.le_add_left_of_le (by decide)))
  have hframes : k₁.Starved (HK.USER_STACK_SIZE / PAGE_SIZE) ↔
      k.Starved (HK.USER_STACK_SIZE / PAGE_SIZE) := by
    rw [Kernel.Starved, Kernel.Starved, hmarked.paging]
  unfold allocateStack at hcall
  dsimp only at hcall
  rw [hmarked.eq] at hcall
  rw [← hframes]
  rcases hiso.allocateFrames hs₀ .userStack (HK.USER_STACK_SIZE / PAGE_SIZE) with
    ⟨hstarved, hnone⟩ | ⟨hstarved, run, k₂, hcount, halloc⟩
  · simp only [hnone, if_true] at hcall
    obtain ⟨rfl, rfl⟩ := Prod.mk.inj (Except.ok.inj hcall)
    exact Or.inl ⟨hstarved, rfl, rfl⟩
  · simp only [← hcount, halloc.call, if_neg halloc.address_ne] at hcall
    obtain ⟨⟨mapped, k₃⟩, hmap, hret⟩ := (bind_ok_iff _ _ _).1 hcall
    have hwhole : run.count * SIZE = HK.USER_STACK_SIZE := by
      rw [hcount]
      rfl
    have hfill : k₂.paging.memory.fill run.address HK.USER_STACK_SIZE 0 =
        k₂.paging.memory.copy run.address (run.count * SIZE) fun _ => 0 := by
      rw [ByteMemory.fill_eq_copy, hwhole]
    rw [hfill] at hmap
    obtain ⟨rfl, rfl⟩ := Prod.mk.inj (Except.ok.inj hret)
    refine Or.inr ⟨hstarved, run, mapped, halloc.provided hs₀ hmap (Or.inl rfl) rfl halign rfl ?_,
      hcount, rfl⟩
    rw [← SIZE_eq_PAGE_SIZE, hwhole]
    rfl

theorem allocateStack_safe (hs₀ : Addressable s₀) (h : Safe s₀ noExecute k)
    (hcall : allocateStack k = .ok (top, k')) : Safe s₀ noExecute k' := by
  obtain ⟨hnx, htop, t, tables, h⟩ := h
  obtain ⟨k₁, hmarked, hiso, hcases⟩ := allocateStack_cases hs₀ h htop.1 hcall
  have hmark : k₁.nextStackTop % PAGE_SIZE = 0 ∧ k₁.nextStackTop < 2 ^ 64 := by
    rw [← hmarked.eq]
    exact ⟨sub64_aligned htop.1 (by decide) (Nat.le_add_left_of_le (by decide)),
      Nat.mod_lt _ (by decide)⟩
  have hnx₁ : k₁.paging.noExecuteAvailable = noExecute := by
    rw [hmarked.paging]
    exact hnx
  rcases hcases with ⟨-, -, rfl⟩ | ⟨-, run, mapped, hprovided, -⟩
  · exact ⟨hnx₁, hmark, t, tables, hiso⟩
  · obtain ⟨hiso', hnx', htop'⟩ := hprovided.isolated hs₀
    exact ⟨hnx'.trans hnx₁, htop'.symm ▸ hmark, hiso'⟩

/-- A range in the user half does not wrap around. -/
theorem inUserHalf_iff {start length : Nat} (hlength : length < 2 ^ 64) :
    inUserHalf start length = true ↔ HK.USER_MIN ≤ start ∧ start + length ≤ HK.USER_MAX := by
  have hmax : HK.USER_MAX = 2 ^ 47 := rfl
  unfold inUserHalf wrap64
  rw [decide_eq_true_eq, hmax]
  omega

variable {segment : Elf.ProgramHeader}

/-- The pages of a segment in the user half, and the room they have for its
bytes. -/
theorem segment_pages (hmemory : segment.memorySize < 2 ^ 64)
    (hhalf : inUserHalf segment.virtualAddress segment.memorySize = true) :
    segmentStart segment % PAGE_SIZE = 0 ∧
      ∃ count, sub64 (segmentEnd segment) (segmentStart segment) = count * PAGE_SIZE ∧
        segmentStart segment + count * PAGE_SIZE ≤ HK.USER_MAX ∧
        segment.virtualAddress - segmentStart segment + segment.memorySize ≤ count * PAGE_SIZE := by
  obtain ⟨-, hend⟩ := (inUserHalf_iff hmemory).1 hhalf
  have hmax : HK.USER_MAX = 2 ^ 47 := rfl
  unfold segmentStart segmentEnd Frame.alignUp wrap64 sub64
  rw [SIZE_eq_PAGE_SIZE, show PAGE_SIZE = 4096 from rfl]
  rw [hmax] at hend ⊢
  refine ⟨by omega, (segment.virtualAddress + segment.memorySize + 4095) / 4096 -
    segment.virtualAddress / 4096, ?_, ?_, ?_⟩
  · rw [Nat.mod_eq_of_lt (a := segment.virtualAddress + segment.memorySize) (by omega)]
    omega
  · omega
  · omega

/-- What the checks of `Load` let through. -/
theorem checkSegment_eq_none :
    checkSegment size segment = none ↔
      ¬(segment.wantsWrite = true ∧ segment.wantsExecute = true) ∧
        wrap64 (segment.offset + segment.fileSize) ≤ size ∧
        segment.fileSize ≤ segment.memorySize ∧
        inUserHalf segment.virtualAddress segment.memorySize = true := by
  unfold checkSegment
  split
  · simp_all
  · split
    · rename_i hbad
      simp only [reduceCtorEq, false_iff, not_and]
      intro _ h1 h2 h3
      simp only [h3, Bool.not_true, Bool.false_eq_true, or_false] at hbad
      omega
    · rename_i hwx hbad
      simp only [not_or, Nat.not_lt, gt_iff_lt, Bool.not_eq_true, Bool.not_eq_false'] at hbad
      exact ⟨fun _ => ⟨hwx, hbad.1, hbad.2.1, by simpa using hbad.2.2⟩, fun _ => rfl⟩

/-- The number of frames that `LoadSegment` asks for. -/
def segmentFrames (segment : Elf.ProgramHeader) : Nat :=
  sub64 (segmentEnd segment) (segmentStart segment) / PAGE_SIZE

/-- The bytes of the pages of a segment. -/
def segmentContent (image : ByteMemory) (segment : Elf.ProgramHeader) (i : Nat) : BitVec 8 :=
  if segment.virtualAddress - segmentStart segment ≤ i ∧
      i < segment.virtualAddress - segmentStart segment + segment.fileSize then
    image (wrap64 (segment.offset + (i - (segment.virtualAddress - segmentStart segment))))
  else 0

/-- The call of `Map` that `LoadSegment` makes. -/
def segmentCall (segment : Elf.ProgramHeader) (start size frames : Nat) : MapCall :=
  ⟨BitVec.ofNat 64 start, BitVec.ofNat 64 frames, BitVec.ofNat 64 size, accessFor segment,
    .user, .normal⟩

/-- `LoadSegment` changes nothing for want of frames, or maps a new run with
the bytes of the segment. -/
theorem loadSegment_cases (hs₀ : Addressable s₀) (h : Isolated s₀ k t tables)
    (hmemory : segment.memorySize < 2 ^ 64) (hcheck : checkSegment size segment = none)
    {loaded : Bool} (hcall : loadSegment image segment k = .ok (loaded, k')) :
    (k.Starved (segmentFrames segment) ∧ loaded = false ∧ k' = k) ∨
      (¬k.Starved (segmentFrames segment) ∧ ∃ run,
        Provided s₀ k t tables .segment run (segmentContent image segment)
          (segmentCall segment (segmentStart segment)
            (sub64 (segmentEnd segment) (segmentStart segment)) run.address) loaded k' ∧
        run.count = segmentFrames segment) := by
  obtain ⟨-, -, hfile, hhalf⟩ := checkSegment_eq_none.1 hcheck
  obtain ⟨hstart, count, hsize, -, hfits⟩ := segment_pages hmemory hhalf
  rw [segmentFrames, hsize]
  rw [loadSegment, hsize] at hcall
  unfold loadPages at hcall
  rcases h.allocateFrames hs₀ .segment (count * PAGE_SIZE / PAGE_SIZE) with
    ⟨hstarved, hnone⟩ | ⟨hstarved, run, k₁, hcount, halloc⟩
  · simp only [hnone, if_true] at hcall
    obtain ⟨rfl, rfl⟩ := Prod.mk.inj (Except.ok.inj hcall)
    exact Or.inl ⟨hstarved, rfl, rfl⟩
  · simp only [← hcount, halloc.call, if_neg halloc.address_ne] at hcall
    refine Or.inr ⟨hstarved, run, ?_, hcount⟩
    rw [Nat.mul_div_cancel _ (by decide)] at hcount
    rw [ByteMemory.copy_fill_eq_copy (by omega), ← hcount] at hcall
    rw [← hcount]
    exact halloc.provided hs₀ hcall (Or.inr rfl) rfl (toNat_ofNat_aligned hstart) rfl rfl

theorem loadSegment_safe (hs₀ : Addressable s₀) (h : Safe s₀ noExecute k)
    (hmemory : segment.memorySize < 2 ^ 64) (hcheck : checkSegment size segment = none)
    {loaded : Bool} (hcall : loadSegment image segment k = .ok (loaded, k')) :
    Safe s₀ noExecute k' ∧ k'.nextStackTop = k.nextStackTop := by
  obtain ⟨hnx, htop, t, tables, h⟩ := h
  rcases loadSegment_cases hs₀ h hmemory hcheck hcall with
    ⟨-, -, rfl⟩ | ⟨-, run, hprovided, -⟩
  · exact ⟨⟨hnx, htop, t, tables, h⟩, rfl⟩
  · obtain ⟨hiso, hnx', htop'⟩ := hprovided.isolated hs₀
    exact ⟨⟨hnx'.trans hnx, htop'.symm ▸ htop, hiso⟩, htop'⟩

theorem memorySize_lt (image : ByteMemory) (index : Nat) :
    (Elf.programHeader image index).memorySize < 2 ^ 64 :=
  ByteMemory.load_lt ..

theorem Loads.safe (hs₀ : Addressable s₀) {index n : Nat} {failure : Option LoadError}
    (hloop : Loads image size k index n failure k') (h : Safe s₀ noExecute k) :
    Safe s₀ noExecute k' :=
  hloop.invariant (fun hcheck hsegment h =>
    (loadSegment_safe hs₀ h (memorySize_lt image _) hcheck hsegment).1) h

theorem load_safe (hs₀ : Addressable s₀) (h : Safe s₀ noExecute k) {name : String}
    {result : Except LoadError Task} (hcall : load k name image size = .ok (result, k')) :
    Safe s₀ noExecute k' :=
  load_invariant (fun hcheck hsegment h =>
      (loadSegment_safe hs₀ h (memorySize_lt image _) hcheck hsegment).1)
    (fun hstack h => allocateStack_safe hs₀ h hstack) hcall h

end User

/-! ## Runs -/

/-- What is asked of the kernel after boot. -/
inductive Request where
  /-- `KernelStack::Allocate`. -/
  | kernelStack
  /-- `User::AllocateStack`. -/
  | userStack
  /-- `User::Load`. -/
  | load (name : String) (image : ByteMemory) (size : Nat)

def serve (k : Kernel) : Request → Outcome Kernel
  | .kernelStack => do
    let (_, k) ← KernelStack.allocate k
    return k
  | .userStack => do
    let (_, k) ← User.allocateStack k
    return k
  | .load name image size => do
    let (_, k) ← User.load k name image size
    return k

def serveAll (k : Kernel) (requests : List Request) : Outcome Kernel :=
  requests.foldlM serve k

/-- What the calls keep, every request keeps. -/
theorem serve_invariant {P : Kernel → Prop}
    (hkernel : ∀ {k k₁ : Kernel} {top : Nat}, KernelStack.allocate k = .ok (top, k₁) → P k → P k₁)
    (hstack : ∀ {k k₁ : Kernel} {top : Nat}, User.allocateStack k = .ok (top, k₁) → P k → P k₁)
    (hload : ∀ {k k₁ : Kernel} {name : String} {image : ByteMemory} {size : Nat}
      {result : Except User.LoadError User.Task},
      User.load k name image size = .ok (result, k₁) → P k → P k₁)
    {request : Request} (hserve : serve k request = .ok k') (h : P k) : P k' := by
  cases request with
  | kernelStack =>
    obtain ⟨⟨top, k₁⟩, hcall, hret⟩ := (bind_ok_iff _ _ _).1 hserve
    obtain rfl := Except.ok.inj hret
    exact hkernel hcall h
  | userStack =>
    obtain ⟨⟨top, k₁⟩, hcall, hret⟩ := (bind_ok_iff _ _ _).1 hserve
    obtain rfl := Except.ok.inj hret
    exact hstack hcall h
  | load name image size =>
    obtain ⟨⟨result, k₁⟩, hcall, hret⟩ := (bind_ok_iff _ _ _).1 hserve
    obtain rfl := Except.ok.inj hret
    exact hload hcall h

theorem serve_safe (hs₀ : Addressable s₀) (h : Safe s₀ noExecute k) {request : Request}
    (hserve : serve k request = .ok k') : Safe s₀ noExecute k' :=
  serve_invariant (fun hcall h => allocateKernelStack_safe hs₀ h hcall)
    (fun hcall h => User.allocateStack_safe hs₀ h hcall)
    (fun hcall h => User.load_safe hs₀ h hcall) hserve h

theorem serveAll_safe (hs₀ : Addressable s₀) {requests : List Request} (h : Safe s₀ noExecute k)
    (hrun : serveAll k requests = .ok k') : Safe s₀ noExecute k' :=
  foldlM_invariant (P := Safe s₀ noExecute) (fun _ _ _ _ h hserve => serve_safe hs₀ h hserve) h hrun

/-! ## Boot -/

/-- Page tables that nobody has mapped anything for ring 3 in. -/
structure Quiet (s₀ : Frame.State) (noExecute : Bool) (s : Paging.State) : Prop where
  noExecute_eq : s.noExecuteAvailable = noExecute
  owned : ∃ t tables, Owned s₀ s t tables [] ∧ Leaves noExecute [] t.leaf

variable {s s' : Paging.State} {boot : Handover}

theorem Quiet.mapOrPanic (hs₀ : Addressable s₀) (h : Quiet s₀ noExecute s)
    (hkernel : call.privilege = .kernel) (hmap : mapOrPanic s call = .ok s') :
    Quiet s₀ noExecute s' := by
  obtain ⟨hnx, t, tables, howned, hleaves⟩ := h
  obtain ⟨⟨mapped, s₁⟩, hcall, hret⟩ := (bind_ok_iff _ _ _).1 hmap
  obtain ⟨n, t', tables', hm⟩ := map_spec hs₀ howned hcall
  cases mapped with
  | false => exact absurd hret nofun
  | true =>
    obtain rfl := Except.ok.inj hret
    refine ⟨hm.setup.noExecuteAvailable.trans hnx, t', tables', hm.owned, ?_⟩
    rw [hm.leaf, hnx]
    exact hleaves.map_kernel hkernel n

theorem Quiet.mapIdentity (hs₀ : Addressable s₀) (h : Quiet s₀ noExecute s) {start stop : Nat}
    {access : Access} {caching : Caching}
    (hmap : mapIdentity s start stop access caching = .ok s') : Quiet s₀ noExecute s' := by
  unfold Paging.mapIdentity at hmap
  split at hmap
  · obtain rfl := Except.ok.inj hmap
    exact h
  · exact h.mapOrPanic hs₀ rfl hmap

theorem Quiet.mapKernelSpan (hs₀ : Addressable s₀) (h : Quiet s₀ noExecute s) {span : Range}
    {access : Access} (hmap : mapKernelSpan s span access = .ok s') :
    Quiet s₀ noExecute s' := by
  unfold Paging.mapKernelSpan at hmap
  split at hmap
  · obtain rfl := Except.ok.inj hmap
    exact h
  · exact h.mapOrPanic hs₀ rfl hmap

theorem Quiet.mapDirectRegions (hs₀ : Addressable s₀) {regions : List MemoryRegion} :
    ∀ {s s' : Paging.State}, Quiet s₀ noExecute s →
      regions.foldlM mapDirectRegion s = .ok s' → Quiet s₀ noExecute s' := by
  induction regions with
  | nil =>
    intro s s' h hmap
    obtain rfl := Except.ok.inj hmap
    exact h
  | cons region regions ih =>
    intro s s' h hmap
    rw [List.foldlM_cons] at hmap
    obtain ⟨s₁, hregion, hrest⟩ := (bind_ok_iff _ _ _).1 hmap
    obtain ⟨s₂, hcall, hret⟩ := (bind_ok_iff _ _ _).1 hregion
    obtain rfl := Except.ok.inj hret
    obtain ⟨hnx, t, tables, howned, hleaves⟩ := h.mapOrPanic hs₀ rfl hcall
    have h₂ : Quiet s₀ noExecute { s₂ with mappedRamEnd := max s₂.mappedRamEnd region.stop } :=
      ⟨hnx, t, tables, ⟨howned.rep, howned.tracks, howned.held⟩, hleaves⟩
    exact ih h₂ hrest

/-- `Paging::Initialize` maps nothing for ring 3. -/
theorem initializePaging_quiet (hwf : Frame.Wf s₀) (hs₀ : Addressable s₀)
    (hinit : Paging.initializeState boot memory s₀ = .ok s) :
    Quiet s₀ boot.noExecute s := by
  unfold Paging.initializeState at hinit
  obtain ⟨s₁, hroot, hinit⟩ := (bind_ok_iff _ _ _).1 hinit
  obtain ⟨s₂, hlow, hinit⟩ := (bind_ok_iff _ _ _).1 hinit
  obtain ⟨s₃, hdevices, hinit⟩ := (bind_ok_iff _ _ _).1 hinit
  obtain ⟨s₄, hdirect, hinit⟩ := (bind_ok_iff _ _ _).1 hinit
  obtain ⟨s₅, himage, hinit⟩ := (bind_ok_iff _ _ _).1 hinit
  obtain ⟨-, -, hret⟩ := (bind_ok_iff _ _ _).1 hinit
  obtain rfl := Except.ok.inj hret
  obtain ⟨t, tables, howned, hzero, hnx⟩ := createRoot_owned hwf hs₀ hroot
  have h₁ : Quiet s₀ boot.noExecute s₁ := by
    have hclear : ∀ {q j}, (t.leaf q).getLsbD j = false := fun {q j} => by
      rw [hzero]
      simp
    refine ⟨hnx, t, tables, howned, ?_, ?_, ?_⟩
    · intro q hq
      exact absurd (hclear.symm.trans hq) nofun
    · intro q q' hq
      exact absurd (hclear.symm.trans hq) nofun
    · intro _ q hq
      exact absurd (hclear.symm.trans hq) nofun
  have h₂ := h₁.mapIdentity hs₀ hlow
  have h₃ : Quiet s₀ boot.noExecute s₃ := by
    obtain ⟨s', hlocal, hio⟩ := (bind_ok_iff _ _ _).1 hdevices
    have h' := h₂.mapIdentity hs₀ hlocal
    split at hio
    · exact h'.mapIdentity hs₀ hio
    · obtain rfl := Except.ok.inj hio
      exact h'
  have h₄ := Quiet.mapDirectRegions hs₀ h₃ hdirect
  have h₅ : Quiet s₀ boot.noExecute s₅ := by
    obtain ⟨sb, hboot, himage⟩ := (bind_ok_iff _ _ _).1 himage
    obtain ⟨st, htext, himage⟩ := (bind_ok_iff _ _ _).1 himage
    obtain ⟨sr, hrodata, hdata⟩ := (bind_ok_iff _ _ _).1 himage
    exact (((h₄.mapIdentity hs₀ hboot).mapKernelSpan hs₀ htext).mapKernelSpan hs₀
      hrodata).mapKernelSpan hs₀ hdata
  obtain ⟨hnx₅, t₅, tables₅, howned₅, hleaves₅⟩ := h₅
  exact ⟨hnx₅, t₅, tables₅, ⟨howned₅.rep, howned₅.tracks.setReachableLimit _, howned₅.held⟩,
    hleaves₅⟩

/-- `Heap::Initialize` writes one header into its own frames. -/
theorem initializeHeap_cases (hs₀ : Addressable s₀) (h : Isolated s₀ k t tables)
    (hinit : k.initializeHeap = .ok k') :
    ∃ run k₁ memory, Allocated s₀ k t tables .heap run k₁ ∧ k' = k₁.setMemory memory ∧
      Isolated s₀ (k₁.setMemory memory) t tables := by
  unfold Kernel.initializeHeap at hinit
  rcases h.allocateFrames hs₀ .heap (Heap.HEAP_SIZE / SIZE) with
    ⟨-, hnone⟩ | ⟨-, run, k₁, hcount, halloc⟩
  · simp only [hnone, ne_eq, not_true_eq_false, if_false, if_true] at hinit
    exact absurd hinit nofun
  · simp only [← hcount, halloc.call] at hinit
    by_cases hregion : (if run.address ≠ 0 then toVirtual run.address else 0) = 0
    · rw [if_pos hregion] at hinit
      cases hinit
    · rw [if_neg hregion] at hinit
      have hlegal := halloc.isolated.owned.tracks.legal run
        (List.mem_append_right _ halloc.mem_runs)
      have hlt : run.address < 2 ^ 64 := by
        have hle := Nat.le_trans hlegal.below_limit (Nat.le_trans hlegal.limit_le hs₀.frameCount_le)
        rw [hlegal.aligned, show SIZE = 4096 from rfl]
        omega
      refine ⟨run, k₁, _, halloc, (Except.ok.inj hinit).symm,
        halloc.isolated.setMemory halloc.mem_runs fun a ha => ?_⟩
      have hroom : Heap.HEADER_SIZE ≤ run.count * SIZE := by
        rw [hcount]
        decide
      exact Heap.initializeAt_of_outside hlt (by omega)

theorem initializeHeap_safe (hs₀ : Addressable s₀) (h : Safe s₀ noExecute k)
    (hinit : k.initializeHeap = .ok k') : Safe s₀ noExecute k' := by
  obtain ⟨hnx, htop, t, tables, h⟩ := h
  obtain ⟨run, k₁, memory, halloc, rfl, hiso⟩ := initializeHeap_cases hs₀ h hinit
  exact ⟨halloc.noExecute.trans hnx, halloc.nextStackTop.symm ▸ htop, t, tables, hiso⟩

/-- Before any request. -/
def Kernel.start (paging : Paging.State) : Kernel :=
  ⟨paging, Config.KERNEL_STACK_BASE, HK.USER_STACK_TOP, []⟩

theorem initializePaging_safe {bitmap : Nat} {s : Paging.State}
    (hphysical : PhysicallyAddressable boot)
    (hframes : Frame.initializeState boot = .ok (s₀, bitmap))
    (hpaging : Paging.initializeState boot memory s₀ = .ok s) :
    Addressable s₀ ∧ Safe s₀ boot.noExecute (Kernel.start s) := by
  have hs₀ := addressable_of_boot hframes hphysical
  obtain ⟨hnx, t, tables, howned, hleaves⟩ :=
    initializePaging_quiet (Frame.initialized_of_ok hframes).wf hs₀ hpaging
  have htop : HK.USER_STACK_TOP % PAGE_SIZE = 0 ∧ HK.USER_STACK_TOP < 2 ^ 64 := by decide
  exact ⟨hs₀, hnx, htop, t, tables, howned, hnx.symm ▸ hleaves⟩

theorem bootKernel_safe {bitmap : Nat} (hphysical : Frame.Physical boot)
    (hboot : bootKernel boot memory = .ok (k, bitmap)) :
    ∃ s₀, Frame.Initialized boot bitmap s₀ ∧ Addressable s₀ ∧ Safe s₀ boot.noExecute k := by
  obtain ⟨s₀, paging, hframes, hpaging, hheap⟩ := bootKernel_eq_ok hboot
  obtain ⟨hs₀, hsafe⟩ := initializePaging_safe hphysical.available hframes hpaging
  exact ⟨s₀, Frame.initialized_of_ok hframes, hs₀, initializeHeap_safe hs₀ hsafe hheap⟩

/-! ## The result -/

/-- The frame behind a virtual address. -/
def Kernel.frameOf (k : Kernel) (v : BitVec 64) : Nat := (translate k.paging v).toNat / SIZE

/-- What holds between ring 3 and the kernel. -/
structure UserIsolation (boot : Handover) (bitmap : Nat) (k : Kernel) : Prop where
  /-- What ring 3 can read was allocated for a segment or a user stack. -/
  backed : ∀ v, Canonical v → isUserReadable k.paging v = true →
    ∃ owner run, (owner, run) ∈ k.handedOut ∧ owner.IsUser ∧ run.Holds (k.frameOf v)
  kernelImage : ∀ v, Canonical v → isUserReadable k.paging v = true →
    Frame.Outside (k.frameOf v) (Frame.kernelRange boot)
  bitmap : ∀ v, Canonical v → isUserReadable k.paging v = true →
    Frame.Outside (k.frameOf v) (Frame.bitmapRange boot bitmap)
  /-- No page table stands in a frame that ring 3 can read. -/
  tables : ∀ v, Canonical v → isUserReadable k.paging v = true →
    ∀ w d table, d ≤ 3 → tableAt k.paging w d = some table → table / SIZE ≠ k.frameOf v
  /-- Nor does the heap or a kernel stack. -/
  kernelRuns : ∀ v, Canonical v → isUserReadable k.paging v = true →
    ∀ owner run, (owner, run) ∈ k.handedOut → ¬owner.IsUser → ¬run.Holds (k.frameOf v)
  /-- Different pages of ring 3 show different frames. -/
  distinct : ∀ v w, Canonical v → Canonical w → isUserReadable k.paging v = true →
    isUserReadable k.paging w = true → k.frameOf v = k.frameOf w →
    v.toNat / PAGE_SIZE = w.toNat / PAGE_SIZE
  noWriteExecute : boot.noExecute = true → ∀ v, Canonical v →
    ¬(isWritable k.paging v = true ∧ isExecutable k.paging v = true)

theorem Safe.userIsolation {bitmap : Nat} (hphysical : Frame.Physical boot)
    (hinit : Frame.Initialized boot bitmap s₀) (h : Safe s₀ boot.noExecute k) :
    UserIsolation boot bitmap k := by
  obtain ⟨hnx, -, t, tables, h⟩ := h
  have hshown : ∀ v, isUserReadable k.paging v = true →
      (t.leaf (pageNumber v)).getLsbD 2 = true ∧ k.frameOf v = leafFrame (t.leaf (pageNumber v)) :=
    fun v hv => h.owned.rep.translate_of_user hv
  have hbacked : ∀ v, isUserReadable k.paging v = true →
      ∃ owner run, (owner, run) ∈ k.handedOut ∧ owner.IsUser ∧ run.Holds (k.frameOf v) := by
    intro v hv
    obtain ⟨hbit, hframe⟩ := hshown v hv
    obtain ⟨run, hrun, hholds⟩ := h.leaves.backed hbit
    obtain ⟨owner, hmem, huser⟩ := Kernel.mem_userRuns.1 hrun
    exact ⟨owner, run, hmem, huser, hframe ▸ hholds⟩
  have hfree : ∀ v, isUserReadable k.paging v = true →
      isTaken s₀ (k.frameOf v) = false ∧ k.frameOf v < s₀.frameCount := by
    intro v hv
    obtain ⟨owner, run, hmem, -, hholds⟩ := hbacked v hv
    have hlegal := h.owned.tracks.legal run
      (List.mem_append_right _ (List.mem_map.2 ⟨_, hmem, rfl⟩))
    exact ⟨hlegal.allocatable _ hholds, Nat.lt_of_lt_of_le hholds.2
      (Nat.le_trans hlegal.below_limit hlegal.limit_le)⟩
  have hdisjoint := List.pairwise_append.1 h.owned.tracks.disjoint
  refine ⟨fun v _ => hbacked v, ?_, ?_, ?_, ?_, ?_, ?_⟩
  · intro v _ hv
    exact hinit.outside_kernel hphysical (hfree v hv).1 (hfree v hv).2
  · intro v _ hv
    exact hinit.outside_bitmap hphysical (hfree v hv).1 (hfree v hv).2
  · intro v _ hv w d table hd htable heq
    obtain ⟨owner, run, hmem, -, hholds⟩ := hbacked v hv
    obtain ⟨run', hrun', hholds'⟩ := h.owned.tableAt_holds hd htable
    exact hdisjoint.2.2 run' hrun' run (List.mem_map.2 ⟨_, hmem, rfl⟩) _ ⟨heq ▸ hholds', hholds⟩
  · intro v _ hv owner run hmem hkernel hholds
    obtain ⟨owner', run', hmem', huser, hholds'⟩ := hbacked v hv
    have hne : (owner, run) ≠ (owner', run') := fun heq =>
      hkernel ((Prod.mk.inj heq).1 ▸ huser)
    have hsymm : Std.Symm fun a b : Owner × Run =>
        ∀ j, ¬(a.2.Holds j ∧ b.2.Holds j) := ⟨fun _ _ hab j hj => hab j hj.symm⟩
    have hapart := (List.pairwise_map.1 hdisjoint.2.1).forall hmem hmem' hne
    exact hapart _ ⟨hholds, hholds'⟩
  · intro v w hcv hcw hv hw heq
    obtain ⟨hbit, hframe⟩ := hshown v hv
    obtain ⟨hbit', hframe'⟩ := hshown w hw
    exact hcv.page_eq hcw (h.leaves.injective hbit hbit' (by rw [← hframe, ← hframe', heq]))
  · intro hnoExecute v _
    exact h.owned.rep.not_writable_and_executable h.leaves (hnx.trans hnoExecute) v

/-- The mapping of the first user stack. -/
def firstStackCall (frames : Nat) : MapCall :=
  ⟨0x7FFFFFFEF000, BitVec.ofNat 64 frames, 0x10000, .readWrite, .user, .normal⟩

/-- The machine of `bootKernel_roomy` has room for a user stack. -/
theorem User.allocateStack_roomy (hs₀ : Addressable s₀) {c : Nat} (h : Roomy s₀ k c)
    (hle : c ≤ 5000) (htop : k.nextStackTop = HK.USER_STACK_TOP) :
    ∃ k' c', allocateStack k = .ok (HK.USER_STACK_TOP, k') ∧ Roomy s₀ k' c' ∧
      c' ≤ c + 22 ∧ Served k.paging (firstStackCall (c * SIZE)) k'.paging ∧
      k'.nextSlot = k.nextSlot := by
  have hnext : Roomy s₀ { k with nextStackTop := sub64 k.nextStackTop STACK_STRIDE } c :=
    h.of_eq rfl rfl
  obtain ⟨halloc, -⟩ := hnext.allocateFrames hs₀ .userStack (show 0 < 16 by decide) (by omega)
  have hcost : (firstStackCall (c * SIZE)).cost = 3 :=
    (show _ = (firstStackCall 0).cost from rfl).trans (by decide)
  have hcall : (firstStackCall (c * SIZE)).Admissible :=
    admissible_of_frames (by decide) (by decide) (by omega)
  have hmemory : ∀ a, a < c * SIZE ∨ c * SIZE + 16 * SIZE ≤ a →
      k.paging.memory.fill (c * SIZE) HK.USER_STACK_SIZE 0 a = k.paging.memory a :=
    fun a ha => ByteMemory.fill_of_outside ha
  obtain ⟨k', c', hmap, hroomy, hle', hserved, -, hslot⟩ :=
    hnext.provide hs₀ .userStack (show 0 < 16 by decide) hcall (by omega) hmemory
  refine ⟨k', c', ?_, hroomy, by omega, hserved, hslot⟩
  have hne : c * SIZE ≠ 0 := Nat.mul_ne_zero (Nat.ne_zero_of_lt h.pos) (by decide)
  unfold allocateStack
  simp only [show HK.USER_STACK_SIZE / PAGE_SIZE = 16 from rfl, halloc]
  rw [if_neg hne]
  refine (bind_ok_iff _ _ _).2 ⟨(true, k'), ?_, ?_⟩
  · have hcall : (⟨BitVec.ofNat 64 (sub64 k.nextStackTop HK.USER_STACK_SIZE),
        BitVec.ofNat 64 (c * SIZE), BitVec.ofNat 64 HK.USER_STACK_SIZE, .readWrite, .user,
        .normal⟩ : MapCall) = firstStackCall (c * SIZE) := by
      rw [htop]
      rfl
    rw [hcall]
    exact hmap
  · rw [htop]
    rfl

/-- After boot, every sequence of calls of `KernelStack::Allocate`,
`User::AllocateStack` and `User::Load` on any images keeps ring 3 isolated
from the kernel. -/
theorem user_isolation {boot : Handover} {memory : ByteMemory} {bitmap : Nat} {k₀ : Kernel}
    (hphysical : Frame.Physical boot) (hboot : bootKernel boot memory = .ok (k₀, bitmap))
    {requests : List Request} (hrun : serveAll k₀ requests = .ok k) :
    UserIsolation boot bitmap k := by
  obtain ⟨s₀, hinit, hs₀, h₀⟩ := bootKernel_safe hphysical hboot
  exact (serveAll_safe hs₀ h₀ hrun).userIsolation hphysical hinit

/-- A user stack on the machine with 20 MiB. -/
theorem user_isolation_roomy :
    Frame.Physical roomyHandover ∧
      ∃ k₀ k, bootKernel roomyHandover (fun _ => 0) = .ok (k₀, 0x120000) ∧
        serveAll k₀ [.userStack] = .ok k ∧ isUserReadable k.paging 0x7FFFFFFFE000 = true ∧
        UserIsolation roomyHandover 0x120000 k := by
  have hphysical : Frame.Physical roomyHandover :=
    ⟨by decide, by decide, by decide, by decide⟩
  obtain ⟨s₀, k₀, c, hboot, hs₀, hroomy, hle, htop, -⟩ := bootKernel_roomy fun _ => 0
  obtain ⟨k, c', hstack, -, -, hserved, -⟩ :=
    User.allocateStack_roomy hs₀ hroomy (by omega) htop
  have hrun : serveAll k₀ [.userStack] = .ok k :=
    (bind_ok_iff _ _ _).2 ⟨k, (bind_ok_iff _ _ _).2 ⟨_, hstack, rfl⟩, rfl⟩
  have htouches : (firstStackCall 0).Touches 0x7FFFFFFFE000 := ⟨by decide, by decide⟩
  have hreadable :=
    (hserved.requested 0x7FFFFFFFE000 (Or.inl (by decide)) htouches).isUserReadable
  exact ⟨hphysical, k₀, k, hboot, hrun, hreadable, user_isolation hphysical hboot hrun⟩

end X64HK
