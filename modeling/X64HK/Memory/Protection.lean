import X64HK.User.LoadedImage

/-!
# What a core lets ring 0 do

`IsWritable` and `IsExecutable` answer from the page tables.  Whether a core
agrees also depends on its control registers, and those are set up on two paths:
the bootstrap processor comes from the boot loader and runs `Paging::Initialize`,
the others come from INIT through `ApTrampoline.asm` and `LongMode.asm`.

* `walk` is the walk of the CPU, with the bits that it refuses.  All processors of
  a machine have the no-execute bit, or none has it.
* `Represents.walk`: in the tables of the kernel the walk ends at the leaf.
* `Settled` is what the calls after boot keep: the root, and that a machine without the
  no-execute bit never sees it set.  `serveAll_settled` is about a whole run.
* `core_protection_iff`: the cores agree with `IsExecutable`.  With `IsWritable`, only
  the bootstrap processor does, because nobody sets `CR0.WP` on the others.
-/

namespace X64HK

open X64HK.Frame (SIZE Run)
open Multiboot
open Paging

namespace Cpu

def CR0_PE : BitVec 64 := 1 <<< 0
def CR0_WP : BitVec 64 := 1 <<< 16
def CR0_PG : BitVec 64 := 1 <<< 31
def EFER_SCE : BitVec 64 := 1 <<< 0
def EFER_LME : BitVec 64 := 1 <<< 8
def EFER_NXE : BitVec 64 := 1 <<< 11

/-- `CR0` after INIT. -/
def INIT_CR0 : BitVec 64 := 0x60000010

/-- The registers of a core that decide about an access. -/
structure Registers where
  cr0 : BitVec 64
  cr3 : BitVec 64
  efer : BitVec 64

/-- `EnablePaging` of `LongMode.asm`, with the root of the tables in `eax`. -/
def enablePaging (noExecute : Bool) (root : Nat) (r : Registers) : Registers where
  cr3 := BitVec.ofNat 64 (root % 2 ^ 32)
  efer := r.efer ||| EFER_LME ||| (if noExecute then EFER_NXE else 0)
  cr0 := r.cr0 ||| CR0_PG

/-- What `Cpu::Initialize` does to these registers, in `Syscall::Initialize`. -/
def enableSyscall (r : Registers) : Registers := { r with efer := r.efer ||| EFER_SCE }

/-- The start of `ApTrampoline.asm`. -/
def enableProtection (r : Registers) : Registers := { r with cr0 := r.cr0 ||| CR0_PE }

/-- `Paging::EnableNoExecute`. -/
def enableNoExecute (r : Registers) : Registers := { r with efer := r.efer ||| EFER_NXE }

/-- `Paging::Activate`. -/
def activate (root : Nat) (r : Registers) : Registers :=
  { r with cr0 := r.cr0 ||| CR0_WP, cr3 := BitVec.ofNat 64 root }

/-- How a processor came to the kernel. -/
inductive Role where
  /-- From the boot loader, with tables of the boot code until `Paging::Initialize`. -/
  | bootstrap (loader : Registers) (bootTables : Nat)
  /-- From INIT, which leaves `EFER` alone. -/
  | application (efer : BitVec 64)

/-- The registers of a processor in `MainAp`, with `s_Root` at `root`. -/
def Role.registers (noExecute : Bool) (root : Nat) : Role → Registers
  | .bootstrap loader bootTables =>
    let r := enableSyscall (enablePaging noExecute bootTables loader)
    activate root (if noExecute then enableNoExecute r else r)
  | .application efer =>
    enableSyscall (enablePaging noExecute root (enableProtection ⟨INIT_CR0, 0, efer⟩))

/-- `EFER` before the kernel.  A processor without the no-execute bit cannot have it on. -/
def Role.efer : Role → BitVec 64
  | .bootstrap loader _ => loader.efer
  | .application efer => efer

def Role.IsBootstrap : Role → Prop
  | .bootstrap .. => True
  | .application _ => False

/-! ## The walk of the CPU -/

/-- What the entries on the way allow together. -/
structure Rights where
  writable : Bool
  noExecute : Bool
  deriving DecidableEq, Repr

def Rights.narrow (rights : Rights) (entry : BitVec 64) : Rights :=
  ⟨rights.writable && entry.getLsbD 1, rights.noExecute || entry.getLsbD 63⟩

/-- Bits that have to be clear.  The low bits of the frame of a large page are among them. -/
def Reserved (nxe : Bool) (level : Nat) (entry : BitVec 64) : Prop :=
  nxe = false ∧ entry &&& NO_EXECUTE ≠ 0 ∨
    level ≠ LEAF_LEVEL ∧ entry &&& LARGE ≠ 0 ∧
      (level = TOP_LEVEL ∨ level = 3 ∧ entry &&& 0x3FFFE000 ≠ 0 ∨
        level = 2 ∧ entry &&& 0x1FE000 ≠ 0)

instance (nxe : Bool) (level : Nat) (entry : BitVec 64) : Decidable (Reserved nxe level entry) :=
  inferInstanceAs (Decidable (_ ∨ _))

/-- The walk with `n` levels to go above the leaf.  Nothing is the answer for a page
fault. -/
def walk (nxe : Bool) (memory : ByteMemory) (v : BitVec 64) :
    Nat → Nat → Rights → Option Rights
  | 0, table, rights =>
    let entry := memory.read64 (entryAddress table v LEAF_LEVEL)
    if entry &&& PRESENT = 0 ∨ Reserved nxe LEAF_LEVEL entry then none
    else some (rights.narrow entry)
  | n + 1, table, rights =>
    let entry := memory.read64 (entryAddress table v (LEAF_LEVEL + n + 1))
    if entry &&& PRESENT = 0 ∨ Reserved nxe (LEAF_LEVEL + n + 1) entry then none
    else if entry &&& LARGE ≠ 0 then some (rights.narrow entry)
    else walk nxe memory v n (entry &&& ADDRESS_MASK).toNat (rights.narrow entry)

instance (v : BitVec 64) : Decidable (Canonical v) := inferInstanceAs (Decidable (_ ∨ _))

/-- What a core with paging on finds for an address. -/
def Registers.rights (r : Registers) (memory : ByteMemory) (v : BitVec 64) : Option Rights :=
  if Canonical v then
    walk (r.efer.getLsbD 11) memory v (TOP_LEVEL - LEAF_LEVEL) (r.cr3 &&& ADDRESS_MASK).toNat
      ⟨true, false⟩
  else none

/-- Ring 0 may write to an address. -/
def Registers.mayWrite (r : Registers) (memory : ByteMemory) (v : BitVec 64) : Bool :=
  match r.rights memory v with
  | none => false
  | some rights => rights.writable || !r.cr0.getLsbD 16

/-- Ring 0 may fetch an instruction from an address. -/
def Registers.mayFetch (r : Registers) (memory : ByteMemory) (v : BitVec 64) : Bool :=
  match r.rights memory v with
  | none => false
  | some rights => !(r.efer.getLsbD 11 && rights.noExecute)

end Cpu

open Cpu

/-! ## The walk in the tables of the kernel -/

section

variable {m : ByteMemory} {root : Nat} {t : Tree} {nxe : Bool}

/-- An entry that points to a table changes nothing. -/
theorem Cpu.Rights.narrow_tableEntry {f : Nat} (hf : f < 2 ^ 40) (user : Bool) :
    Rights.narrow ⟨true, false⟩ (tableEntry f user) = ⟨true, false⟩ := by
  unfold Rights.narrow
  rw [getLsbD_tableEntry hf user (by decide), getLsbD_tableEntry hf user (by decide)]
  simp

theorem Cpu.not_reserved_tableEntry {f level : Nat} (hf : f < 2 ^ 40) (user : Bool) :
    ¬Reserved nxe level (tableEntry f user) := by
  rintro (⟨-, hnx⟩ | ⟨-, hlarge, -⟩)
  · exact hnx (tableEntry_and_NO_EXECUTE user hf)
  · exact hlarge (tableEntry_and_LARGE user hf)

/-- What the CPU makes of a leaf. -/
def Cpu.leafRights (nxe : Bool) (leaf : BitVec 64) : Option Rights :=
  if leaf &&& PRESENT = 0 ∨ Reserved nxe LEAF_LEVEL leaf then none
  else some (Rights.narrow ⟨true, false⟩ leaf)

theorem Paging.Represents.walk_from (h : Represents m root t) (v : BitVec 64) :
    ∀ n f, n ≤ 3 → t.table (3 - n) (nodeOf v (3 - n)) = some f →
      walk nxe m v n (f * SIZE) ⟨true, false⟩ = leafRights nxe (t.leaf (pageNumber v)) := by
  intro n
  induction n with
  | zero =>
    intro f _ hf
    have hleaf := h.slot hf (indexAt_lt v 1)
    rw [Nat.sub_zero, ← nodeOf_succ v (d := 3) (by decide), Tree.word, if_pos rfl] at hleaf
    rw [walk, entryAddress, show LEAF_LEVEL = 1 from rfl, hleaf]
    rfl
  | succ n ih =>
    intro f hn hf
    have hdepth : 3 - n = 3 - (n + 1) + 1 := by omega
    have hlevel := level_of_depth hn
    have hword := h.slot hf (indexAt_lt v (4 - (3 - (n + 1))))
    rw [← nodeOf_succ v (by omega), ← hdepth, Tree.word, if_neg (by omega), ← hdepth] at hword
    rw [walk, entryAddress, hlevel, hword]
    cases hg : t.table (3 - n) (nodeOf v (3 - n)) with
    | none =>
      have hpage := nodeOf_eq_div v (d := 3) (by decide)
      have hnone := h.table_none v n (by omega) hg
      rw [hpage] at hnone
      have hzero : t.leaf (pageNumber v) = 0 := h.leaf_zero hnone
      dsimp only
      rw [hzero, if_pos (Or.inl (by decide)), leafRights, if_pos (Or.inl (by decide))]
    | some g =>
      have hlt := h.frame_lt hg
      dsimp only
      rw [if_neg, if_neg, tableEntry_address _ hlt, Rights.narrow_tableEntry hlt,
        ih g (by omega) hg]
      · rw [not_not]
        exact tableEntry_and_LARGE _ hlt
      · exact not_or.2 ⟨tableEntry_present _ hlt, not_reserved_tableEntry hlt _⟩

/-- The rights of a leaf, from what `Effective` makes of it. -/
theorem Cpu.leafRights_eq (nxe : Bool) (leaf : BitVec 64) :
    leafRights nxe leaf =
      if granted leaf = 0 ∨ nxe = false ∧ (granted leaf).getLsbD 63 = true then none
      else some ⟨(granted leaf).getLsbD 1, (granted leaf).getLsbD 63⟩ := by
  have hreserved : Reserved nxe LEAF_LEVEL leaf ↔ nxe = false ∧ leaf.getLsbD 63 = true := by
    unfold Reserved
    rw [ne_eq, and_NO_EXECUTE_eq_zero, Bool.not_eq_false]
    constructor
    · rintro (h | ⟨hlevel, -⟩)
      · exact h
      · exact absurd rfl hlevel
    · exact Or.inl
  unfold leafRights granted
  simp only [hreserved]
  by_cases hpresent : leaf &&& PRESENT = 0
  · rw [if_pos (Or.inl hpresent), if_pos hpresent, if_pos (Or.inl rfl)]
  · have hbit : ∀ j < 64, GRANT_MASK.getLsbD j = true →
        (leaf &&& GRANT_MASK).getLsbD j = leaf.getLsbD j := by
      intro j _ hmask
      rw [BitVec.getLsbD_and, hmask, Bool.and_true]
    have hne : leaf &&& GRANT_MASK ≠ 0 := by
      intro hzero
      have h0 := hbit 0 (by decide) (by decide)
      rw [hzero] at h0
      exact hpresent ((and_PRESENT_eq_zero leaf).2 h0.symm)
    rw [if_neg hpresent, hbit 63 (by decide) (by decide), hbit 1 (by decide) (by decide)]
    simp only [hpresent, hne, false_or, Rights.narrow, Bool.true_and, Bool.false_or]

end

/-- A machine without the no-execute bit has it nowhere in its tables. -/
def Plain (s : Paging.State) : Prop :=
  s.noExecuteAvailable = false → ∀ v, (effective s v).getLsbD 63 = false

variable {v : BitVec 64}

section

variable {s : Paging.State} {t : Tree} {r : Registers} (h : Represents s.memory s.root t)
  (hcr3 : (r.cr3 &&& ADDRESS_MASK).toNat = s.root)
  (hnxe : r.efer.getLsbD 11 = s.noExecuteAvailable) (hplain : Plain s) (hv : Canonical v)
include h hcr3 hnxe hplain hv

/-- What a core finds in the tables of the kernel. -/
theorem Cpu.Registers.rights_eq :
    r.rights s.memory v =
      if effective s v = 0 then none
      else some ⟨(effective s v).getLsbD 1, (effective s v).getLsbD 63⟩ := by
  obtain ⟨f, hf, hroot⟩ := h.root_eq
  have hstray : ¬(s.noExecuteAvailable = false ∧ (effective s v).getLsbD 63 = true) := by
    rintro ⟨hnx, hbit⟩
    exact absurd ((hplain hnx v).symm.trans hbit) (by decide)
  unfold Registers.rights
  rw [if_pos hv, hcr3, hnxe, hroot, show TOP_LEVEL - LEAF_LEVEL = 3 from rfl,
    h.walk_from v 3 f (by decide) (by rw [Nat.sub_self, nodeOf_zero]; exact hf),
    leafRights_eq, ← h.effective v]
  simp only [hstray, or_false]

theorem Cpu.Registers.mayWrite_eq :
    r.mayWrite s.memory v =
      (decide (effective s v ≠ 0) && (isWritable s v || !r.cr0.getLsbD 16)) := by
  unfold Registers.mayWrite
  rw [rights_eq h hcr3 hnxe hplain hv, isWritable_eq]
  by_cases hzero : effective s v = 0
  · rw [if_pos hzero, decide_eq_false (not_not.2 hzero)]
    rfl
  · rw [if_neg hzero, decide_eq_true hzero]
    rfl

theorem Cpu.Registers.mayFetch_eq : r.mayFetch s.memory v = isExecutable s v := by
  unfold Registers.mayFetch
  rw [rights_eq h hcr3 hnxe hplain hv, isExecutable_eq]
  by_cases hzero : effective s v = 0
  · rw [if_pos hzero, decide_eq_false (not_not.2 hzero)]
    rfl
  · rw [if_neg hzero, decide_eq_true hzero, hnxe]
    cases s.noExecuteAvailable <;> rfl

end

/-! ## Runs of the kernel -/

variable {run : Run}

section

variable {s₀ : Frame.State} {s s' : Paging.State} {t : Tree} {tables others : List Run}
  {call : MapCall} {mapped : Bool}

/-- `Map` visits no more than its range, wherever that is, when it comes to an end. -/
theorem Paging.Mapped.offset_lt {n : Nat} {t' : Tree} {tables' : List Run} {flags : BitVec 64}
    (hm : Mapped s₀ s t others flags call.stop call.firstPage call.source (true, s') n t' tables')
    {k : Nat} (hk : k < n) : k * PAGE_SIZE < call.size.toNat + PAGE_SIZE := by
  have hfirst := call.toNat_firstPage
  have hend := hm.complete rfl
  have hbelow := hm.below k hk
  have haligned := aligned_pagesAbove (by rw [hfirst]; exact Nat.mul_mod_left ..) n
  have hstop : call.stop.toNat ≤ call.virtual.toNat + call.size.toNat := by
    rw [MapCall.stop, BitVec.toNat_add]
    exact Nat.mod_le _ _
  have hroom : call.stop.toNat + PAGE_SIZE ≤ 2 ^ 64 := by
    have hlt := (pagesAbove call.firstPage n).isLt
    rw [BitVec.lt_def] at hend
    rw [show PAGE_SIZE = 4096 from rfl] at haligned ⊢
    omega
  have hlt := hm.page_lt hroom k (Nat.le_of_lt hk)
  rw [BitVec.lt_def, toNat_pagesAbove hlt, hfirst] at hbelow
  have hdiv := Nat.lt_div_mul_add (a := call.virtual.toNat) (b := PAGE_SIZE) (by decide)
  omega

/-- `Map` of memory whose addresses leave the no-execute bit alone. -/
theorem Paging.Mapped.plain {n : Nat} {t' : Tree} {tables' : List Run}
    (hm : Mapped s₀ s t others (call.flags s.noExecuteAvailable) call.stop call.firstPage
      call.source (mapped, s') n t' tables')
    (h : Owned s₀ s t tables others) (hplain : Plain s)
    (hsource : ∀ k < n, (pagesAbove call.source k).toNat < 2 ^ 63) : Plain s' := by
  intro hnx v
  have hnx₀ : s.noExecuteAvailable = false := hm.setup.noExecuteAvailable.symm.trans hnx
  rw [hm.owned.rep.effective, hm.leaf]
  rcases mapPages_cases (call.flags s.noExecuteAvailable) n call.firstPage call.source t.leaf
    (pageNumber v) with hsame | ⟨k, hk, -, hnew⟩
  · rw [hsame, ← h.rep.effective]
    exact hplain hnx₀ v
  · rw [hnew, getLsbD_granted _ (call.flags_present _), BitVec.getLsbD_or,
      getLsbD_of_lt (hsource k hk) (by decide), call.flags_noExecute, hnx₀]
    simp

theorem Paging.Owned.map_plain (hs₀ : Addressable s₀) (h : Owned s₀ s t tables others)
    (hplain : Plain s) (hcall : call.physical.toNat + call.size.toNat ≤ 2 ^ 52)
    (hmap : map s call = .ok (true, s')) : Plain s' := by
  obtain ⟨n, t', tables', hm⟩ := map_spec hs₀ h hmap
  refine hm.plain h hplain fun k hk => ?_
  have hlt := hm.offset_lt hk
  have hsource : call.source.toNat + k * PAGE_SIZE < 2 ^ 63 := by
    have hle := Nat.div_mul_le_self call.physical.toNat PAGE_SIZE
    have hpage : PAGE_SIZE ≤ 2 ^ 52 := by decide
    rw [call.toNat_source]
    omega
  rw [toNat_pagesAbove (Nat.lt_trans hsource (by decide))]
  exact hsource

theorem ForRun.map_plain (hs₀ : Addressable s₀) (h : Owned s₀ s t tables others)
    (hplain : Plain s) (hcall : ForRun call run) (hmap : map s call = .ok (mapped, s')) :
    Plain s' := by
  obtain ⟨n, t', tables', hm⟩ := map_spec hs₀ h hmap
  have hn := hm.le_of_stop hcall.stop
  refine hm.plain h hplain fun k hk => ?_
  have hbound := hcall.bound
  have hsource : call.source.toNat + k * PAGE_SIZE < 2 ^ 63 := by
    rw [hcall.source]
    rw [show PAGE_SIZE = 4096 from rfl] at *
    omega
  rw [toNat_pagesAbove (Nat.lt_trans hsource (by decide))]
  exact hsource

end

/-- What stays as it was when the cores set up their registers. -/
structure Settled (root : Nat) (k : Kernel) : Prop where
  root_eq : k.paging.root = root
  aligned : k.nextSlot % PAGE_SIZE = 0
  plain : Plain k.paging

section

variable {s₀ : Frame.State} {k k' : Kernel} {t : Tree} {tables : List Run} {root : Nat}
  {noExecute : Bool} {call : MapCall} {mapped : Bool} {boot : Handover} {memory : ByteMemory}

/-- Memory that is not part of the tables. -/
theorem Settled.keep (h : Settled root k) (hiso : Isolated s₀ k t tables)
    (hiso' : Isolated s₀ k' t tables) (hroot : k'.paging.root = k.paging.root)
    (hslot : k'.nextSlot % PAGE_SIZE = 0)
    (hnx : k'.paging.noExecuteAvailable = k.paging.noExecuteAvailable) : Settled root k' := by
  refine ⟨hroot.trans h.root_eq, hslot, fun hno v => ?_⟩
  rw [hiso.effective_eq hiso' rfl v]
  exact h.plain (hnx.symm.trans hno) v

theorem Settled.map (hs₀ : Addressable s₀) (h : Settled root k) (hiso : Isolated s₀ k t tables)
    (hcall : ForRun call run) (hmap : k.map call = .ok (mapped, k')) :
    Settled root k' := by
  obtain ⟨paging, hpaging, rfl⟩ := Kernel.map_eq_ok hmap
  obtain ⟨n, t', tables', hm⟩ := map_spec hs₀ hiso.owned hpaging
  exact ⟨hm.setup.root.trans h.root_eq, h.aligned, hcall.map_plain hs₀ hiso.owned h.plain hpaging⟩

theorem Settled.allocated (h : Settled root k) (hiso : Isolated s₀ k t tables) {owner : Owner}
    (halloc : Allocated s₀ k t tables owner run k') : Settled root k' :=
  h.keep hiso halloc.isolated (by rw [halloc.paging]) (halloc.nextSlot ▸ h.aligned) halloc.noExecute

/-- A run for ring 3. -/
theorem Settled.provided (hs₀ : Addressable s₀) (h : Settled root k)
    (hiso : Isolated s₀ k t tables) {owner : Owner} {content : Nat → BitVec 8}
    (hprovided : Provided s₀ k t tables owner run content call mapped k') : Settled root k' := by
  obtain ⟨k₁, halloc, hset, hmap⟩ := hprovided.steps
  have hsettled := h.allocated hiso halloc
  have hwritten : Settled root (k₁.writeRun run content) :=
    hsettled.keep halloc.isolated hset rfl hsettled.aligned rfl
  exact hwritten.map hs₀ hset hprovided.forRun hmap

theorem initializeHeap_settled (hs₀ : Addressable s₀) (h : Settled root k)
    (hiso : Isolated s₀ k t tables) (hheap : k.initializeHeap = .ok k') : Settled root k' := by
  obtain ⟨run, k₁, memory, halloc, rfl, hiso'⟩ := initializeHeap_cases hs₀ hiso hheap
  have hsettled := h.allocated hiso halloc
  exact hsettled.keep halloc.isolated hiso' rfl hsettled.aligned rfl

theorem allocateKernelStack_settled (hs₀ : Addressable s₀) (h : Settled root k)
    (hsafe : Safe s₀ noExecute k) {top : Nat} (hcall : KernelStack.allocate k = .ok (top, k')) :
    Settled root k' := by
  obtain ⟨-, -, t, tables, hiso⟩ := hsafe
  obtain ⟨k₁, run, k₂, hslot, hiso₁, halloc, hcount, hmap, -⟩ :=
    allocateKernelStack_cases hs₀ hiso hcall
  have hsize : Config.THREAD_STACK_SIZE % PAGE_SIZE = 0 := by decide
  have hguard : KernelStack.GUARD_SIZE = 4096 := rfl
  have hpage : PAGE_SIZE = 4096 := rfl
  have haligned := h.aligned
  have hsettled : Settled root k₁ := by
    refine h.keep hiso hiso₁ ?_ ?_ ?_
    · rw [← hslot.eq]
    · rw [← hslot.eq]
      show wrap64 (k.nextSlot + KernelStack.STRIDE) % PAGE_SIZE = 0
      rw [wrap64, show KernelStack.STRIDE = 0x5000 from rfl]
      rw [hpage] at haligned ⊢
      omega
    · rw [← hslot.eq]
  have hvirtual : (KernelStack.stackCall k.nextSlot run.address).virtual.toNat % PAGE_SIZE = 0 :=
    toNat_ofNat_aligned (by rw [hpage] at haligned ⊢; omega)
  have hforRun : ForRun (KernelStack.stackCall k.nextSlot run.address) run :=
    halloc.isolated.forRun hs₀ halloc.mem_runs hvirtual rfl (by
      rw [hcount, Nat.div_mul_cancel (Nat.dvd_of_mod_eq_zero hsize)]
      rfl)
  exact (hsettled.allocated hiso₁ halloc).map hs₀ halloc.isolated hforRun hmap

theorem allocateStack_settled (hs₀ : Addressable s₀) (h : Settled root k)
    (hsafe : Safe s₀ noExecute k) {top : Nat} (hcall : User.allocateStack k = .ok (top, k')) :
    Settled root k' := by
  obtain ⟨-, htop, t, tables, hiso⟩ := hsafe
  obtain ⟨k₁, hmarked, hiso₁, hcases⟩ := User.allocateStack_cases hs₀ hiso htop.1 hcall
  have hsettled : Settled root k₁ := by
    refine h.keep hiso hiso₁ ?_ ?_ ?_
    · rw [hmarked.paging]
    · rw [← hmarked.eq]
      exact h.aligned
    · rw [hmarked.paging]
  rcases hcases with ⟨-, -, rfl⟩ | ⟨-, run, mapped, hprovided, -⟩
  · exact hsettled
  · exact hsettled.provided hs₀ hiso₁ hprovided

theorem loadSegment_settled (hs₀ : Addressable s₀) (h : Settled root k)
    (hsafe : Safe s₀ noExecute k) {image : ByteMemory} {size index : Nat}
    (hcheck : User.checkSegment size (Elf.programHeader image index) = none) {loaded : Bool}
    (hcall : User.loadSegment image (Elf.programHeader image index) k = .ok (loaded, k')) :
    Settled root k' := by
  obtain ⟨-, -, t, tables, hiso⟩ := hsafe
  rcases User.loadSegment_cases hs₀ hiso (User.memorySize_lt image index) hcheck hcall with
    ⟨-, -, rfl⟩ | ⟨-, run, hprovided, -⟩
  · exact h
  · exact h.provided hs₀ hiso hprovided

theorem load_settled (hs₀ : Addressable s₀) (h : Settled root k) (hsafe : Safe s₀ noExecute k)
    {name : String} {image : ByteMemory} {size : Nat} {result : Except User.LoadError User.Task}
    (hcall : User.load k name image size = .ok (result, k')) : Settled root k' :=
  (User.load_invariant (P := fun k => Settled root k ∧ Safe s₀ noExecute k)
    (fun hcheck hsegment h => ⟨loadSegment_settled hs₀ h.1 h.2 hcheck hsegment,
      (User.loadSegment_safe hs₀ h.2 (User.memorySize_lt image _) hcheck hsegment).1⟩)
    (fun hstack h => ⟨allocateStack_settled hs₀ h.1 h.2 hstack,
      User.allocateStack_safe hs₀ h.2 hstack⟩) hcall ⟨h, hsafe⟩).1

/-- Any sequence of requests. -/
theorem serveAll_settled (hs₀ : Addressable s₀) {requests : List Request} (h : Settled root k)
    (hsafe : Safe s₀ noExecute k) (hrun : serveAll k requests = .ok k') :
    Settled root k' ∧ Safe s₀ noExecute k' :=
  foldlM_invariant (P := fun k => Settled root k ∧ Safe s₀ noExecute k)
    (fun _ _ _ _ h hserve => serve_invariant (P := fun k => Settled root k ∧ Safe s₀ noExecute k)
      (fun hcall h => ⟨allocateKernelStack_settled hs₀ h.1 h.2 hcall,
        allocateKernelStack_safe hs₀ h.2 hcall⟩)
      (fun hcall h => ⟨allocateStack_settled hs₀ h.1 h.2 hcall,
        User.allocateStack_safe hs₀ h.2 hcall⟩)
      (fun hcall h => ⟨load_settled hs₀ h.1 h.2 hcall, User.load_safe hs₀ h.2 hcall⟩)
      hserve h) ⟨h, hsafe⟩ hrun

/-! ## Boot -/

/-- `Paging::Initialize`, with what it publishes for the other cores. -/
theorem initializePaging_plain {s : Paging.State} (hwf : Frame.Wf s₀) (hs₀ : Addressable s₀)
    (hcalls : ∀ step ∈ bootSteps boot, step.call.physical.toNat + step.call.size.toNat ≤ 2 ^ 52)
    (hinit : initializeState boot memory s₀ = .ok s) : Plain s ∧ s.root < 4 * GIB := by
  rw [initializeState_eq] at hinit
  obtain ⟨s₁, hroot, hinit⟩ := (bind_ok_iff _ _ _).1 hinit
  obtain ⟨s₂, hsteps, hinit⟩ := (bind_ok_iff _ _ _).1 hinit
  obtain ⟨_, hassert, hret⟩ := (bind_ok_iff _ _ _).1 hinit
  obtain rfl := Except.ok.inj hret
  obtain ⟨t, tables, howned, hzero, -⟩ := createRoot_owned hwf hs₀ hroot
  have hempty : Plain s₁ := by
    intro _ v
    rw [howned.rep.effective, hzero]
    decide
  have hdone : Plain s₂ ∧ ∃ t tables, Owned s₀ s₂ t tables [] := by
    refine foldlM_invariant (P := fun s => Plain s ∧ ∃ t tables, Owned s₀ s t tables [])
      (fun step hmem s s' h hrun => ?_) ⟨hempty, t, tables, howned⟩ hsteps
    obtain ⟨hplain, t, tables, howned⟩ := h
    obtain ⟨s₃, hmap, rfl⟩ := step.run_eq_ok hrun
    obtain ⟨n, t', tables', hm⟩ := map_spec hs₀ howned hmap
    have hmapped : Plain s₃ := howned.map_plain hs₀ hplain (hcalls step hmem) hmap
    exact ⟨fun hnx v => hmapped hnx v, t', tables', hm.owned.setMappedRamEnd _⟩
  exact ⟨hdone.1, of_decide_eq_true (assert_eq_ok.1 hassert)⟩

/-- All available memory has addresses of 52 bits, the most that the architecture has. -/
def RamAddressable (boot : Handover) : Prop :=
  ∀ region ∈ Frame.availableRegions boot, region.address + region.length ≤ 2 ^ 52

/-- Boot maps no other memory. -/
theorem Paging.Linked.physical_le (h : Linked boot) (hram : RamAddressable boot)
    {step : BootStep} (hstep : step ∈ bootSteps boot) :
    step.call.physical.toNat + step.call.size.toNat ≤ 2 ^ 52 := by
  cases h.kind hstep with
  | @identity start stop access caching hlt hstop =>
    obtain ⟨-, hs, hp⟩ := spans_identity access caching hlt hstop
    rw [hs, hp]
    omega
  | @direct region hregion =>
    have hle := hram region hregion
    show (BitVec.ofNat 64 _).toNat + (BitVec.ofNat 64 _).toNat ≤ _
    rw [toNat_ofNat_of_lt (by omega), toNat_ofNat_of_lt (by omega)]
    exact hle
  | @span span access hstart hlt hstop =>
    have hvma : Config.KERNEL_VMA = 2 ^ 64 - 2 ^ 31 := rfl
    obtain ⟨-, hs, hp⟩ := spans_span access hstart hlt hstop
    rw [hs, hp]
    omega

theorem bootKernel_settled {bitmap : Nat} (hlinked : Linked boot) (hram : RamAddressable boot)
    (hboot : bootKernel boot memory = .ok (k, bitmap)) :
    ∃ s₀, Addressable s₀ ∧ Safe s₀ boot.noExecute k ∧ Settled k.paging.root k ∧
      k.paging.root < 4 * GIB := by
  obtain ⟨s₀, s, hframes, hpaging, hheap⟩ := bootKernel_eq_ok hboot
  have hphysical : PhysicallyAddressable boot := fun region hregion =>
    Nat.le_trans (Nat.mod_le _ _) (hram region hregion)
  obtain ⟨hs₀, hsafe⟩ := initializePaging_safe hphysical hframes hpaging
  obtain ⟨hplain, hroot⟩ := initializePaging_plain (Frame.initialized_of_ok hframes).wf hs₀
    (fun step => hlinked.physical_le hram) hpaging
  have hsafe' := initializeHeap_safe hs₀ hsafe hheap
  obtain ⟨-, -, t, tables, hiso⟩ := hsafe
  have hsettled : Settled s.root (Kernel.start s) :=
    ⟨rfl, show Config.KERNEL_STACK_BASE % PAGE_SIZE = 0 by decide, hplain⟩
  have hsettled' := initializeHeap_settled hs₀ hsettled hiso hheap
  have heq := hsettled'.root_eq
  exact ⟨s₀, hs₀, hsafe', ⟨rfl, hsettled'.aligned, hsettled'.plain⟩, heq ▸ hroot⟩

/-! ## The registers -/

namespace Cpu

/-- All cores use the tables of the kernel. -/
theorem Role.registers_cr3 (role : Role) (noExecute : Bool) {root : Nat} (hroot : root < 2 ^ 32)
    (haligned : root % PAGE_SIZE = 0) :
    ((role.registers noExecute root).cr3 &&& ADDRESS_MASK).toNat = root := by
  have hcr3 : (role.registers noExecute root).cr3 = BitVec.ofNat 64 root := by
    cases role with
    | bootstrap loader bootTables => rfl
    | application efer => exact congrArg (BitVec.ofNat 64) (Nat.mod_eq_of_lt hroot)
  have hnat : (BitVec.ofNat 64 root).toNat = root := toNat_ofNat_of_lt (by omega)
  rw [hcr3, and_ADDRESS_MASK_eq (by rw [hnat]; exact haligned) (by omega), hnat]

theorem enablePaging_nxe {noExecute : Bool} (root : Nat) {r : Registers}
    (hefer : noExecute = false → r.efer.getLsbD 11 = false) :
    (enablePaging noExecute root r).efer.getLsbD 11 = noExecute := by
  have hlme : EFER_LME.getLsbD 11 = false := by decide
  have hnxe : EFER_NXE.getLsbD 11 = true := by decide
  unfold enablePaging
  rw [BitVec.getLsbD_or, BitVec.getLsbD_or, hlme]
  cases noExecute with
  | false =>
    rw [hefer rfl]
    rfl
  | true => rw [if_pos rfl, hnxe, Bool.or_true]

theorem enableSyscall_nxe (r : Registers) :
    (enableSyscall r).efer.getLsbD 11 = r.efer.getLsbD 11 := by
  have hsce : EFER_SCE.getLsbD 11 = false := by decide
  unfold enableSyscall
  rw [BitVec.getLsbD_or, hsce, Bool.or_false]

/-- All cores know the no-execute bit when the machine has it. -/
theorem Role.registers_nxe (role : Role) (noExecute : Bool) (root : Nat)
    (hefer : noExecute = false → role.efer.getLsbD 11 = false) :
    (role.registers noExecute root).efer.getLsbD 11 = noExecute := by
  cases role with
  | bootstrap loader bootTables =>
    have hbit : (enableSyscall (enablePaging noExecute bootTables loader)).efer.getLsbD 11 =
        noExecute := by
      rw [enableSyscall_nxe]
      exact enablePaging_nxe bootTables hefer
    unfold registers
    cases noExecute with
    | false => exact hbit
    | true =>
      show (_ ||| EFER_NXE).getLsbD 11 = true
      rw [BitVec.getLsbD_or, hbit, Bool.true_or]
  | application efer =>
    unfold registers
    rw [enableSyscall_nxe]
    exact enablePaging_nxe root hefer

/-- Only the bootstrap processor honours read-only pages in ring 0. -/
theorem Role.registers_wp (role : Role) (noExecute : Bool) (root : Nat) :
    (role.registers noExecute root).cr0.getLsbD 16 = true ↔ role.IsBootstrap := by
  cases role with
  | bootstrap loader bootTables =>
    refine iff_of_true ?_ trivial
    have hwp : CR0_WP.getLsbD 16 = true := by decide
    simp [registers, activate, hwp]
  | application efer =>
    refine iff_of_false ?_ id
    have hclear : (INIT_CR0 ||| CR0_PE ||| CR0_PG).getLsbD 16 = false := by decide
    exact Bool.eq_false_iff.1 hclear

end Cpu

/-! ## The result -/

/-- What a core in `MainAp` permits, in every state that boot and any sequence of requests
lead to. -/
theorem core_permits {bitmap : Nat} {k₀ : Kernel} (hlinked : Linked boot)
    (hram : RamAddressable boot) (hboot : bootKernel boot memory = .ok (k₀, bitmap))
    {requests : List Request} (hrun : serveAll k₀ requests = .ok k) (role : Role)
    (hefer : boot.noExecute = false → role.efer.getLsbD 11 = false) (hv : Canonical v) :
    (role.registers boot.noExecute k₀.paging.root).mayWrite k.paging.memory v =
        (decide (effective k.paging v ≠ 0) && (isWritable k.paging v ||
          !(role.registers boot.noExecute k₀.paging.root).cr0.getLsbD 16)) ∧
      (role.registers boot.noExecute k₀.paging.root).mayFetch k.paging.memory v =
        isExecutable k.paging v := by
  obtain ⟨s₀, hs₀, hsafe₀, hsettled₀, hroot⟩ := bootKernel_settled hlinked hram hboot
  obtain ⟨hsettled, hnx, -, t, tables, hiso⟩ := serveAll_settled hs₀ hsettled₀ hsafe₀ hrun
  have hrep := hiso.owned.rep
  have haligned : k₀.paging.root % PAGE_SIZE = 0 := by
    obtain ⟨f, -, hf⟩ := hrep.root_eq
    rw [← hsettled.root_eq, hf]
    exact Nat.mul_mod_left ..
  have hcr3 := (role.registers_cr3 boot.noExecute hroot haligned).trans hsettled.root_eq.symm
  have hnxe := (role.registers_nxe boot.noExecute k₀.paging.root hefer).trans hnx.symm
  exact ⟨Registers.mayWrite_eq hrep hcr3 hnxe hsettled.plain hv,
    Registers.mayFetch_eq hrep hcr3 hnxe hsettled.plain hv⟩

/-- The cores agree with `IsExecutable`, and the bootstrap processor agrees with `IsWritable`.
The others do not for a page that is mapped read-only. -/
theorem core_protection_iff {boot : Handover} {memory : ByteMemory} {bitmap : Nat} {k₀ : Kernel}
    (hlinked : Linked boot) (hram : RamAddressable boot)
    (hboot : bootKernel boot memory = .ok (k₀, bitmap)) {requests : List Request}
    (hrun : serveAll k₀ requests = .ok k) (role : Role)
    (hefer : boot.noExecute = false → role.efer.getLsbD 11 = false) {v : BitVec 64}
    (hv : Canonical v) :
    ((role.registers boot.noExecute k₀.paging.root).mayWrite k.paging.memory v =
        isWritable k.paging v ↔
      role.IsBootstrap ∨ effective k.paging v = 0 ∨ isWritable k.paging v = true) ∧
      (role.registers boot.noExecute k₀.paging.root).mayFetch k.paging.memory v =
        isExecutable k.paging v := by
  obtain ⟨hwrite, hfetch⟩ := core_permits hlinked hram hboot hrun role hefer hv
  refine ⟨?_, hfetch⟩
  rw [hwrite, ← role.registers_wp boot.noExecute k₀.paging.root]
  by_cases hzero : effective k.paging v = 0
  · have hnever : isWritable k.paging v = false := by
      rw [isWritable_eq, hzero]
      decide
    rw [hnever, decide_eq_false (not_not.2 hzero)]
    exact iff_of_true rfl (Or.inr (Or.inl hzero))
  · rw [decide_eq_true hzero, Bool.true_and, or_iff_right hzero]
    cases isWritable k.paging v <;>
      cases (role.registers boot.noExecute k₀.paging.root).cr0.getLsbD 16 <;> decide

theorem ramAddressable_roomy : RamAddressable roomyHandover := by
  unfold RamAddressable
  decide

theorem canonical_boot_code : Canonical (0x100000 : BitVec 64) := Or.inl (by decide)

/-- A page of the boot code is mapped read-only. -/
theorem boot_code_read_only :
    ∃ k, bootKernel roomyHandover (fun _ => 0) = .ok (k, 0x120000) ∧
      effective k.paging 0x100000 ≠ 0 ∧ isWritable k.paging 0x100000 = false := by
  obtain ⟨s₀, k, c, hboot, -⟩ := bootKernel_roomy fun _ => 0
  obtain ⟨s, hbooted, hanswers⟩ := bootKernel_answers linked_roomy ramFits_roomy hboot
  obtain ⟨step, hstep, haccess⟩ : ∃ step,
      lastTouching (bootSteps roomyHandover) 0x100000 = some step ∧
        step.call.access = .readExecute :=
    ⟨⟨⟨0x100000, 0x100000, 0x1000, .readExecute, .kernel, .normal⟩, 0⟩, by decide, rfl⟩
  have hrequested := hbooted.requested 0x100000 canonical_boot_code step hstep
  refine ⟨k, hboot, fun hzero => ?_, ?_⟩
  · have hexecutable : isExecutable k.paging 0x100000 = true := by
      refine (congrArg Answers.isExecutable (hanswers _)).trans ?_
      refine hrequested.isExecutable.trans ?_
      rw [haccess]
      exact Bool.or_true _
    rw [isExecutable_eq, hzero] at hexecutable
    exact absurd hexecutable (by simp)
  · refine (congrArg Answers.isWritable (hanswers _)).trans ?_
    refine hrequested.isWritable.trans ?_
    rw [haccess]
    rfl

/-- A bootstrap processor in protected mode. -/
def protectedMode : Role := .bootstrap ⟨0x11, 0, 0⟩ 0x110000

theorem core_protection_iff_bootstrap :
    ∃ k, bootKernel roomyHandover (fun _ => 0) = .ok (k, 0x120000) ∧
      (protectedMode.registers roomyHandover.noExecute k.paging.root).mayWrite k.paging.memory
        0x100000 = false := by
  obtain ⟨k, hboot, -, hwritable⟩ := boot_code_read_only
  have hrun : serveAll k [] = .ok k := rfl
  have hagrees := (core_protection_iff linked_roomy ramAddressable_roomy hboot hrun
    protectedMode (fun _ => by decide) canonical_boot_code).1
  exact ⟨k, hboot, (hagrees.2 (Or.inl trivial)).trans hwritable⟩

/-- Any other processor writes to it. -/
theorem application_writes_boot_code :
    ∃ k, bootKernel roomyHandover (fun _ => 0) = .ok (k, 0x120000) ∧
      isWritable k.paging 0x100000 = false ∧
      ((Role.application 0).registers roomyHandover.noExecute k.paging.root).mayWrite
        k.paging.memory 0x100000 = true := by
  obtain ⟨k, hboot, hmapped, hwritable⟩ := boot_code_read_only
  have hrun : serveAll k [] = .ok k := rfl
  have hwp : ¬((Role.application 0).registers roomyHandover.noExecute
      k.paging.root).cr0.getLsbD 16 = true :=
    mt (Role.registers_wp _ _ _).1 id
  refine ⟨k, hboot, hwritable, ?_⟩
  rw [(core_permits linked_roomy ramAddressable_roomy hboot hrun (.application 0)
    (fun _ => by decide) canonical_boot_code).1, decide_eq_true hmapped, Bool.eq_false_iff.2 hwp]
  exact Bool.or_true _

end

end X64HK
