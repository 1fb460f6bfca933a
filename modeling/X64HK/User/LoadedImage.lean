import Mathlib.Data.Nat.Find
import X64HK.Memory.KernelStacks
import X64HK.User.LoadedPages

/-!
# The image of a loaded task

`Load` rounds every segment to whole pages and maps it over whatever was there.
When two segments share a page, only the later one is left, and the stack comes
after all of them.

* `load_builds_image_iff`: a task has the image that its file describes if and
  only if the bytes that were mapped over are zeros anyway, under the same rights.
* `segments_on_one_page`: two segments of one page each half.
* `task_starts_iff`: when the entry point and the stack of a task are usable.  The
  check of the entry point asks for a page that is executable, not for one of the
  task.
* `entry_in_boot_code`: a task that enters the boot code of the kernel.
-/

namespace X64HK

open X64HK.Frame (SIZE Run)
open Multiboot
open Paging
open User (Covers IsSegment Loaded StackPages SegmentPages segmentContent accessFor)

variable {s₀ : Frame.State} {k k' : Kernel} {run : Run} {noExecute : Bool}
  {image : ByteMemory} {segment : Elf.ProgramHeader}
  {l : Nat} {task : User.Task} {v : BitVec 64}

/-! ## The bytes of the segments -/

/-- The byte that the file describes at an offset into a segment. -/
def describedByte (image : ByteMemory) (segment : Elf.ProgramHeader) (j : Nat) : BitVec 8 :=
  if j < segment.fileSize then image (wrap64 (segment.offset + j)) else 0

/-- A byte of a segment is in memory as the file describes it. -/
structure AsDescribed (s : Paging.State) (image : ByteMemory) (segment : Elf.ProgramHeader)
    (j : Nat) : Prop where
  byte : byteAt s (BitVec.ofNat 64 (segment.virtualAddress + j)) = describedByte image segment j
  readable : isUserReadable s (BitVec.ofNat 64 (segment.virtualAddress + j)) = true
  writable : isUserWritable s (BitVec.ofNat 64 (segment.virtualAddress + j)) = segment.wantsWrite
  executable : s.noExecuteAvailable = true →
    isExecutable s (BitVec.ofNat 64 (segment.virtualAddress + j)) = segment.wantsExecute

/-- All segments are. -/
def BuildsImage (s : Paging.State) (image : ByteMemory) : Prop :=
  ∀ l, IsSegment image l → ∀ j < (Elf.programHeader image l).memorySize,
    AsDescribed s image (Elf.programHeader image l) j

/-- The segments are disjoint ranges of bytes. -/
def SegmentsDisjoint (image : ByteMemory) : Prop :=
  ∀ l l', IsSegment image l → IsSegment image l' → l ≠ l' → ∀ a,
    ¬(((Elf.programHeader image l).virtualAddress ≤ a ∧
        a < (Elf.programHeader image l).virtualAddress + (Elf.programHeader image l).memorySize) ∧
      (Elf.programHeader image l').virtualAddress ≤ a ∧
        a < (Elf.programHeader image l').virtualAddress + (Elf.programHeader image l').memorySize)

/-- The last segment whose pages reach over an address. -/
structure LastCover (image : ByteMemory) (l a : Nat) : Prop where
  isSegment : IsSegment image l
  covers : Covers (Elf.programHeader image l) a
  last : ∀ l', IsSegment image l' → l < l' → ¬Covers (Elf.programHeader image l') a

/-- A byte of a segment that another mapping may have replaced.  The stack is mapped
last, and before it the segments in the order of the table.  What is mapped over the
page has zeros at the place of the byte. -/
structure Survives (k : Kernel) (image : ByteMemory) (l j : Nat) : Prop where
  stack : StackPages k (pageNumber
      (BitVec.ofNat 64 ((Elf.programHeader image l).virtualAddress + j))) →
    describedByte image (Elf.programHeader image l) j = 0 ∧
      (Elf.programHeader image l).wantsWrite = true
  segment : ¬StackPages k (pageNumber
      (BitVec.ofNat 64 ((Elf.programHeader image l).virtualAddress + j))) →
    ∀ l', LastCover image l' ((Elf.programHeader image l).virtualAddress + j) → l' ≠ l →
    describedByte image (Elf.programHeader image l) j = 0 ∧
      (Elf.programHeader image l').wantsWrite = (Elf.programHeader image l).wantsWrite ∧
      (k.paging.noExecuteAvailable = true →
        (Elf.programHeader image l').wantsExecute = (Elf.programHeader image l).wantsExecute)

theorem exists_lastCover {a : Nat} (hl : IsSegment image l)
    (ha : Covers (Elf.programHeader image l) a) : ∃ l', LastCover image l' a := by
  obtain ⟨P, hP⟩ : ∃ P : Nat → Prop, P = fun l =>
      IsSegment image l ∧ Covers (Elf.programHeader image l) a := ⟨_, rfl⟩
  have hdec : DecidablePred P := by
    rw [hP]
    infer_instance
  have hcount : l ≤ (Elf.Header.read image).programHeaderCount := Nat.le_of_lt hl.1
  have hspec : P (Nat.findGreatest P (Elf.Header.read image).programHeaderCount) :=
    Nat.findGreatest_spec hcount (by rw [hP]; exact ⟨hl, ha⟩)
  have hgreatest := fun l' => Nat.findGreatest_is_greatest (P := P)
    (n := (Elf.Header.read image).programHeaderCount) (k := l')
  generalize Nat.findGreatest P (Elf.Header.read image).programHeaderCount = last at *
  rw [hP] at hspec hgreatest
  exact ⟨last, hspec.1, hspec.2, fun l' hl' hlt hcovers =>
    hgreatest l' hlt (Nat.le_of_lt hl'.1) ⟨hl', hcovers⟩⟩

theorem LastCover.unique {l' a : Nat} (h : LastCover image l a) (h' : LastCover image l' a) :
    l = l' := by
  rcases Nat.lt_trichotomy l l' with hlt | heq | hgt
  · exact absurd h'.covers (h.last l' h'.isSegment hlt)
  · exact heq
  · exact absurd h.covers (h'.last l h.isSegment hgt)

/-- What an address shows decides. -/
theorem Landed.asDescribed_iff {content : Nat → BitVec 8} {access : Access} {i j : Nat}
    (h : Landed k run content access (BitVec.ofNat 64 (segment.virtualAddress + j)) i) :
    AsDescribed k.paging image segment j ↔ content i = describedByte image segment j ∧
      decide (access = .readWrite) = segment.wantsWrite ∧
      (k.paging.noExecuteAvailable = true →
        decide (access = .readExecute) = segment.wantsExecute) := by
  constructor
  · rintro ⟨hbyte, -, hwritable, hexecutable⟩
    refine ⟨h.byteAt_eq.symm.trans hbyte, h.isUserWritable.symm.trans hwritable, fun hnx => ?_⟩
    rw [← hexecutable hnx, h.isExecutable, hnx]
    rfl
  · rintro ⟨hbyte, hwritable, hexecutable⟩
    refine ⟨h.byteAt_eq.trans hbyte, h.isUserReadable, h.isUserWritable.trans hwritable,
      fun hnx => ?_⟩
    rw [h.isExecutable, hnx, ← hexecutable hnx]
    rfl

/-- Code that can be written is refused, so the rights of a segment are the two
flags. -/
theorem accessFor_flags (h : ¬(segment.wantsWrite = true ∧ segment.wantsExecute = true)) :
    decide (accessFor segment = .readWrite) = segment.wantsWrite ∧
      decide (accessFor segment = .readExecute) = segment.wantsExecute := by
  unfold accessFor
  cases hwrite : segment.wantsWrite <;> cases hexecute : segment.wantsExecute
  · decide
  · decide
  · decide
  · exact absurd ⟨hwrite, hexecute⟩ h

theorem segmentContent_described (j : Nat)
    (hstart : User.segmentStart segment ≤ segment.virtualAddress) :
    segmentContent image segment (segment.virtualAddress + j - User.segmentStart segment) =
      describedByte image segment j := by
  unfold User.segmentContent describedByte
  by_cases hj : j < segment.fileSize
  · rw [if_pos hj, if_pos ⟨by omega, by omega⟩]
    congr 2
    omega
  · rw [if_neg hj, if_neg (by omega)]

/-- Outside of the segment, its pages are zeros. -/
theorem segmentContent_eq_zero {a : Nat}
    (hstart : User.segmentStart segment ≤ segment.virtualAddress)
    (hfile : segment.fileSize ≤ segment.memorySize) (ha : User.segmentStart segment ≤ a)
    (hout : ¬(segment.virtualAddress ≤ a ∧ a < segment.virtualAddress + segment.memorySize)) :
    segmentContent image segment (a - User.segmentStart segment) = 0 := by
  unfold User.segmentContent
  rw [if_neg]
  rintro ⟨hlo, hhi⟩
  exact hout ⟨by omega, by omega⟩

/-- One byte of one segment. -/
theorem User.Loaded.asDescribed_iff {size : Nat} (h : Loaded k image size task k')
    (hdisjoint : SegmentsDisjoint image) {j : Nat} (hl : IsSegment image l)
    (hj : j < (Elf.programHeader image l).memorySize) :
    AsDescribed k'.paging image (Elf.programHeader image l) j ↔ Survives k image l j := by
  obtain ⟨hrights, -, hfile, hhalf⟩ := User.checkSegment_eq_none.1 (h.checked l hl)
  have hrange := User.segment_range (User.memorySize_lt image l) hhalf
  have hnat : (BitVec.ofNat 64 ((Elf.programHeader image l).virtualAddress + j)).toNat =
      (Elf.programHeader image l).virtualAddress + j := toNat_ofNat_of_lt (by omega)
  have hcovers : Covers (Elf.programHeader image l)
      ((Elf.programHeader image l).virtualAddress + j) := ⟨by omega, by omega⟩
  by_cases hstack : StackPages k (pageNumber
      (BitVec.ofNat 64 ((Elf.programHeader image l).virtualAddress + j)))
  · obtain ⟨run, i, hlanded⟩ := h.stack _ hstack
    rw [hlanded.asDescribed_iff]
    constructor
    · rintro ⟨hbyte, hwrite, -⟩
      exact ⟨fun _ => ⟨hbyte.symm, hwrite.symm⟩, fun hout => absurd hstack hout⟩
    · intro hsurvives
      obtain ⟨hbyte, hwrite⟩ := hsurvives.stack hstack
      refine ⟨hbyte.symm, hwrite.symm, fun _ => ?_⟩
      have hexecute : (Elf.programHeader image l).wantsExecute = false :=
        Bool.eq_false_iff.2 fun hexecute => hrights ⟨hwrite, hexecute⟩
      exact hexecute.symm
  · obtain ⟨l', hlast⟩ := exists_lastCover hl hcovers
    obtain ⟨hrights', -, hfile', hhalf'⟩ :=
      User.checkSegment_eq_none.1 (h.checked l' hlast.isSegment)
    have hrange' := User.segment_range (User.memorySize_lt image l') hhalf'
    obtain ⟨hwrite', hexecute'⟩ := accessFor_flags hrights'
    obtain ⟨run, hlanded⟩ := h.segment l' hlast.isSegment _ hstack
      (by rw [hnat]; exact hlast.covers) (by rw [hnat]; exact hlast.last)
    rw [hlanded.asDescribed_iff, hwrite', hexecute', hnat, h.noExecute]
    by_cases hsame : l' = l
    · -- the segment itself
      subst hsame
      refine ⟨fun _ => ⟨fun hon => absurd hon hstack, fun _ l'' hlast' hne => ?_⟩, fun _ =>
        ⟨segmentContent_described j hrange'.2.2.2.2.1, rfl, fun _ => rfl⟩⟩
      exact absurd (hlast'.unique hlast) hne
    · -- another one, which has zeros there
      have hout := hdisjoint l l' hl hlast.isSegment (Ne.symm hsame)
        ((Elf.programHeader image l).virtualAddress + j)
      have hzero : segmentContent image (Elf.programHeader image l')
          ((Elf.programHeader image l).virtualAddress + j -
            User.segmentStart (Elf.programHeader image l')) = 0 :=
        segmentContent_eq_zero hrange'.2.2.2.2.1 hfile' hlast.covers.1
          fun hin => hout ⟨⟨Nat.le_add_right .., by omega⟩, hin⟩
      rw [hzero]
      constructor
      · rintro ⟨hbyte, hwrite, hexecute⟩
        refine ⟨fun hon => absurd hon hstack, fun _ l'' hlast' _ => ?_⟩
        obtain rfl := hlast'.unique hlast
        exact ⟨hbyte.symm, hwrite, hexecute⟩
      · intro hsurvives
        obtain ⟨hbyte, hwrite, hexecute⟩ := hsurvives.segment hstack l' hlast hsame
        exact ⟨hbyte.symm, hwrite, hexecute⟩

/-- In every state that boot and any sequence of requests lead to. -/
theorem load_builds_image_iff {boot : Handover} {memory : ByteMemory} {bitmap : Nat}
    {k₀ : Kernel} (hphysical : Frame.Physical boot)
    (hboot : bootKernel boot memory = .ok (k₀, bitmap)) {requests : List Request}
    (hrun : serveAll k₀ requests = .ok k) {name : String} {image : ByteMemory} {size : Nat}
    {task : User.Task} (hload : User.load k name image size = .ok (.ok task, k'))
    (hdisjoint : SegmentsDisjoint image) :
    BuildsImage k'.paging image ↔
      ∀ l, IsSegment image l → ∀ j < (Elf.programHeader image l).memorySize,
        Survives k image l j := by
  obtain ⟨s₀, -, hs₀, h₀⟩ := bootKernel_safe hphysical hboot
  have hloaded := User.loaded_of_ok hs₀ (serveAll_safe hs₀ h₀ hrun) hload
  unfold BuildsImage
  refine forall_congr' fun l => forall_congr' fun hl => forall_congr' fun j =>
    forall_congr' fun hj => ?_
  exact hloaded.asDescribed_iff hdisjoint hl hj

/-- The first stack is at the top of the user half. -/
theorem not_stackPages_of_lt (htop : k.nextStackTop = HK.USER_STACK_TOP)
    (hv : v.toNat < 0x7FFFFFFEF000) : ¬StackPages k (pageNumber v) := by
  rw [User.StackPages, htop]
  intro hstack
  obtain ⟨w, hpage, hlo, hhi⟩ := hstack.exists_address (by decide) (by decide)
  have hlo' : 0x7FFFFFFEF000 ≤ w.toNat := hlo
  have hhi' : w.toNat < 0x7FFFFFFEF000 + 0x10000 := hhi
  have heq : v.toNat / 4096 % 2 ^ 36 = w.toNat / 4096 % 2 ^ 36 := hpage
  omega

/-- An image with two segments for code, of half a page each.  The second one is on the
upper half of the page at `0x100000000`. -/
def pairImage (first : Nat) : ByteMemory :=
  let image := (((tinyImage 0x100000000).store 56 2 2).store 80 8 first).store 104 8 0x800
  let image := (image.store 120 4 Elf.PT_LOAD).store 124 4 5
  (image.store 136 8 0x100000800).store 160 8 0x800

def firstHalf (first : Nat) : Elf.ProgramHeader := ⟨Elf.PT_LOAD, 5, 0, first, 120, 0x800⟩

/-- The second half. -/
def secondHalf : Elf.ProgramHeader := ⟨Elf.PT_LOAD, 5, 0, 0x100000800, 0, 0x800⟩

section

-- The first segment is on the lower half of that page, or on the page above it.
variable {first : Nat} (hfirst : first = 0x100000000 ∨ first = 0x100001000)

include hfirst

theorem pair_header : Elf.Header.read (pairImage first) =
    { tinyHeader 0x100000000 with programHeaderCount := 2 } := by
  rcases hfirst with rfl | rfl <;> decide +kernel

theorem pair_first : Elf.programHeader (pairImage first) 0 = firstHalf first := by
  rcases hfirst with rfl | rfl <;> decide +kernel

theorem pair_second : Elf.programHeader (pairImage first) 1 = secondHalf := by
  rcases hfirst with rfl | rfl <;> decide +kernel

/-- `Load` succeeds, one half after the other. -/
theorem load_pair :
    ∃ k k', bootKernel roomyHandover (fun _ => 0) = .ok (k, 0x120000) ∧
      k.nextStackTop = HK.USER_STACK_TOP ∧
      User.load k "init" (pairImage first) 176 =
        .ok (.ok ⟨"init", 0x100000000, HK.USER_STACK_TOP⟩, k') := by
  have hlower : CodePage 176 first (Elf.programHeader (pairImage first) 0) := by
    rw [pair_first hfirst]
    rcases hfirst with rfl | rfl <;> exact ⟨⟨by decide, by decide, by decide⟩, by decide +kernel,
      by decide +kernel, by decide, by decide, by decide, by decide⟩
  have hupper : CodePage 176 0x100000000 (Elf.programHeader (pairImage first) 1) := by
    rw [pair_second hfirst]
    exact ⟨⟨by decide, by decide, by decide⟩, by decide +kernel, by decide +kernel, by decide,
      by decide, by decide, by decide⟩
  obtain ⟨s₀, k, c, hboot, hs₀, hroomy, hle, htop, -⟩ := bootKernel_roomy fun _ => 0
  obtain ⟨k₁, c₁, hload₁, hroomy₁, hc₁, -, htop₁⟩ :=
    loadSegment_roomy hs₀ hroomy (by omega) hlower
  obtain ⟨k₂, c₂, hload₂, hroomy₂, hc₂, hcode, htop₂⟩ :=
    loadSegment_roomy hs₀ hroomy₁ (by omega) hupper
  have hloop : User.Loads (pairImage first) 176 k 0 2 none k₂ :=
    .load hlower.loaded hlower.checked hload₁ (.load hupper.loaded hupper.checked hload₂ (.done ..))
  obtain ⟨k', hload, -⟩ := load_code hs₀ hroomy₂ (by omega) (htop₂.trans (htop₁.trans htop))
    (pair_header hfirst) (by decide) hloop hupper.inside hcode "init"
  exact ⟨k, k', hboot, htop, hload⟩

theorem pair_isSegment_iff : IsSegment (pairImage first) l ↔ l = 0 ∨ l = 1 := by
  unfold User.IsSegment
  rw [pair_header hfirst]
  constructor
  · rintro ⟨hlt, -⟩
    have hlt' : l < 2 := hlt
    omega
  · rintro (rfl | rfl)
    · rw [pair_first hfirst]
      exact ⟨by decide, rfl⟩
    · rw [pair_second hfirst]
      decide

theorem pair_disjoint : SegmentsDisjoint (pairImage first) := by
  intro l l' hl hl' hne a
  rcases (pair_isSegment_iff hfirst).1 hl with rfl | rfl <;>
    rcases (pair_isSegment_iff hfirst).1 hl' with rfl | rfl
  · exact absurd rfl hne
  · rw [pair_first hfirst, pair_second hfirst]
    simp only [firstHalf, secondHalf]
    omega
  · rw [pair_first hfirst, pair_second hfirst]
    simp only [firstHalf, secondHalf]
    omega
  · exact absurd rfl hne

end

/-- Two segments on pages of their own. -/
theorem load_builds_image_iff_pair :
    ∃ k k', bootKernel roomyHandover (fun _ => 0) = .ok (k, 0x120000) ∧
      User.load k "init" (pairImage 0x100001000) 176 =
        .ok (.ok ⟨"init", 0x100000000, HK.USER_STACK_TOP⟩, k') ∧
      SegmentsDisjoint (pairImage 0x100001000) ∧ IsSegment (pairImage 0x100001000) 0 ∧
      IsSegment (pairImage 0x100001000) 1 ∧ BuildsImage k'.paging (pairImage 0x100001000) := by
  have hfirst : 0x100001000 = 0x100000000 ∨ 0x100001000 = 0x100001000 := Or.inr rfl
  have hiff := fun l => pair_isSegment_iff hfirst (l := l)
  have hdisjoint := pair_disjoint hfirst
  obtain ⟨k, k', hboot, htop, hload⟩ := load_pair hfirst
  have hrun : serveAll k [] = .ok k := rfl
  refine ⟨k, k', hboot, hload, hdisjoint, (hiff 0).2 (Or.inl rfl), (hiff 1).2 (Or.inr rfl),
    (load_builds_image_iff physical_roomy hboot hrun hload hdisjoint).2 fun l hl j hj => ?_⟩
  have hranges : 0x100000800 ≤ (Elf.programHeader (pairImage 0x100001000) l).virtualAddress + j ∧
      (Elf.programHeader (pairImage 0x100001000) l).virtualAddress + j < 0x100001800 := by
    rcases (hiff l).1 hl with rfl | rfl
    · rw [pair_first hfirst] at hj ⊢
      simp only [firstHalf] at hj ⊢
      omega
    · rw [pair_second hfirst] at hj ⊢
      simp only [secondHalf] at hj ⊢
      omega
  refine ⟨fun hstack => absurd hstack (not_stackPages_of_lt htop ?_), fun _ l' hlast hne => ?_⟩
  · rw [toNat_ofNat_of_lt (by omega)]
    omega
  · -- a segment reaches over no byte of the other one
    have hcovers := hlast.covers
    rcases (hiff l).1 hl with rfl | rfl <;> rcases (hiff l').1 hlast.isSegment with rfl | rfl
    · exact absurd rfl hne
    · rw [pair_second hfirst, pair_first hfirst] at hcovers
      have hend : (firstHalf 0x100001000).virtualAddress + j < 0x100001000 := hcovers.2
      simp only [firstHalf] at hend
      omega
    · rw [pair_second hfirst, pair_first hfirst] at hcovers
      rw [pair_second hfirst] at hj
      have hbegin : 0x100001000 ≤ secondHalf.virtualAddress + j := hcovers.1
      simp only [secondHalf] at hbegin hj
      omega
    · exact absurd rfl hne

/-- Both segments are on one page. -/
def sharedImage : ByteMemory := pairImage 0x100000000

/-- `Load` succeeds, and the first half reads as zeros. -/
theorem segments_on_one_page :
    ∃ k k', bootKernel roomyHandover (fun _ => 0) = .ok (k, 0x120000) ∧
      User.load k "init" sharedImage 176 = .ok (.ok ⟨"init", 0x100000000, HK.USER_STACK_TOP⟩, k') ∧
      SegmentsDisjoint sharedImage ∧ IsSegment sharedImage 0 ∧
      describedByte sharedImage (Elf.programHeader sharedImage 0) 0 = 0x7F ∧
      byteAt k'.paging (BitVec.ofNat 64 0x100000000) = 0 ∧
      ¬BuildsImage k'.paging sharedImage := by
  have hpair : 0x100000000 = 0x100000000 ∨ 0x100000000 = 0x100001000 := Or.inl rfl
  have hiff : ∀ l, IsSegment sharedImage l ↔ l = 0 ∨ l = 1 := fun _ => pair_isSegment_iff hpair
  obtain ⟨k, k', hboot, htop, hload⟩ := load_pair hpair
  have hfirst : Elf.programHeader sharedImage 0 = firstHalf 0x100000000 := pair_first hpair
  have hbyte : describedByte sharedImage (Elf.programHeader sharedImage 0) 0 = 0x7F := by
    rw [hfirst]
    decide +kernel
  -- the page shows the second segment
  have hzero : byteAt k'.paging (BitVec.ofNat 64 0x100000000) = 0 := by
    obtain ⟨s₁, -, hs₁, hsafe⟩ := bootKernel_safe physical_roomy hboot
    obtain ⟨run, hlanded⟩ := (User.loaded_of_ok hs₁ hsafe hload).segment 1
      ((hiff 1).2 (Or.inr rfl)) (BitVec.ofNat 64 0x100000000)
      (not_stackPages_of_lt htop (by decide)) (by rw [pair_second hpair]; decide)
      fun l' hl' hlt => by
        have := (hiff l').1 hl'
        omega
    rw [hlanded.byteAt_eq, pair_second hpair]
    decide +kernel
  refine ⟨k, k', hboot, hload, pair_disjoint hpair, (hiff 0).2 (Or.inl rfl), hbyte, hzero,
    fun hbuilds => ?_⟩
  have hdescribed := (hbuilds 0 ((hiff 0).2 (Or.inl rfl)) 0 (by rw [hfirst]; decide)).byte
  rw [hbyte, hfirst] at hdescribed
  exact absurd (hzero.symm.trans hdescribed) (by decide)

/-! ## The start of a task -/

/-- The entry point is code of the task, and the stack can be written and has a page
below it that is not mapped. -/
structure Startable (s : Paging.State) (image : ByteMemory) (task : User.Task) : Prop where
  readable : isUserReadable s (BitVec.ofNat 64 task.entry) = true
  executable : isExecutable s (BitVec.ofNat 64 task.entry) = true
  own : ∃ l, IsSegment image l ∧ Covers (Elf.programHeader image l) task.entry
  room : HK.USER_STACK_SIZE + PAGE_SIZE ≤ task.stackTop
  writable : ∀ v : BitVec 64, task.stackTop - HK.USER_STACK_SIZE ≤ v.toNat →
    v.toNat < task.stackTop → isUserWritable s v = true
  guard : ∀ v : BitVec 64, task.stackTop - (HK.USER_STACK_SIZE + PAGE_SIZE) ≤ v.toNat →
    v.toNat < task.stackTop - HK.USER_STACK_SIZE → effective s v = 0

/-- What `Load` does not check. -/
structure StartsFrom (k : Kernel) (image : ByteMemory) : Prop where
  own : ∃ l, IsSegment image l ∧ Covers (Elf.programHeader image l) (Elf.Header.read image).entry
  /-- The stack is mapped after the check of the entry point. -/
  offStack : k.paging.noExecuteAvailable = true →
    ¬StackPages k (pageNumber (BitVec.ofNat 64 (Elf.Header.read image).entry))
  room : HK.USER_STACK_SIZE + PAGE_SIZE ≤ k.nextStackTop
  guard : ∀ v : BitVec 64, k.nextStackTop - (HK.USER_STACK_SIZE + PAGE_SIZE) ≤ v.toNat →
    v.toNat < k.nextStackTop - HK.USER_STACK_SIZE → effective k.paging v = 0 ∧
      ∀ l, IsSegment image l → ¬SegmentPages (Elf.programHeader image l) (pageNumber v)

section

variable (hsafe : Safe s₀ noExecute k) (hroom : HK.USER_STACK_SIZE + PAGE_SIZE ≤ k.nextStackTop)
include hsafe hroom

/-- The range that `AllocateStack` maps. -/
theorem stack_range {bottom size : BitVec 64}
    (hbottom : bottom = BitVec.ofNat 64 (sub64 k.nextStackTop HK.USER_STACK_SIZE))
    (hsize : size = BitVec.ofNat 64 HK.USER_STACK_SIZE) :
    bottom.toNat = k.nextStackTop - HK.USER_STACK_SIZE ∧ size.toNat = HK.USER_STACK_SIZE ∧
      bottom.toNat % PAGE_SIZE = 0 ∧ bottom.toNat + size.toNat + PAGE_SIZE ≤ 2 ^ 64 := by
  obtain ⟨haligned, hlt⟩ := hsafe.stackTop
  have hlength : size.toNat = 65536 := by
    rw [hsize]
    decide
  have hstart : bottom.toNat = k.nextStackTop - HK.USER_STACK_SIZE := by
    rw [hbottom, sub64_of_le (by omega) (by omega)]
    exact toNat_ofNat_of_lt (by omega)
  rw [hstart, hlength]
  rw [show HK.USER_STACK_SIZE = 65536 from rfl, show PAGE_SIZE = 4096 from rfl] at *
  omega

theorem stackPages_of_range (hlo : k.nextStackTop - HK.USER_STACK_SIZE ≤ v.toNat)
    (hhi : v.toNat < k.nextStackTop) : StackPages k (pageNumber v) := by
  obtain ⟨hbottom, hsize, haligned, hstop⟩ := stack_range hsafe hroom rfl rfl
  have hpage : PAGE_SIZE = 4096 := rfl
  exact visited_of_range haligned (by omega) (by omega) (by omega)

theorem not_stackPages_of_guard (hlo : k.nextStackTop - (HK.USER_STACK_SIZE + PAGE_SIZE) ≤ v.toNat)
    (hhi : v.toNat < k.nextStackTop - HK.USER_STACK_SIZE) : ¬StackPages k (pageNumber v) := by
  obtain ⟨hbottom, hsize, haligned, hstop⟩ := stack_range hsafe hroom rfl rfl
  intro hstack
  obtain ⟨w, hpage, hlo', hhi'⟩ := hstack.exists_address haligned hstop
  have heq : v.toNat / 4096 % 2 ^ 36 = w.toNat / 4096 % 2 ^ 36 := hpage
  rw [hbottom] at haligned hlo' hhi'
  rw [hsize] at hhi'
  rw [show HK.USER_STACK_SIZE = 65536 from rfl, show PAGE_SIZE = 4096 from rfl] at *
  omega

end

theorem isUserReadable_eq_false {s : Paging.State} (h : effective s v = 0) :
    isUserReadable s v = false := by
  unfold Paging.isUserReadable
  rw [h]
  decide

/-- The entry point of a loaded task is an address of the user half. -/
theorem User.Loaded.toNat_entry {size : Nat} (h : Loaded k image size task k') :
    (BitVec.ofNat 64 task.entry).toNat = task.entry ∧ task.entry < 2 ^ 47 := by
  have hentry := ((User.inUserHalf_iff (by decide)).1 h.inUserHalf).2
  rw [show HK.USER_MAX = 2 ^ 47 from rfl] at hentry
  exact ⟨toNat_ofNat_of_lt (by omega), by omega⟩

theorem User.Loaded.startable_iff (hsafe : Safe s₀ noExecute k) {size : Nat}
    (h : Loaded k image size task k') :
    Startable k'.paging image task ↔ StartsFrom k image := by
  obtain ⟨hnat, hlow⟩ := h.toNat_entry
  constructor
  · rintro ⟨-, hexecutable, hown, hroom, -, hguard⟩
    rw [h.stackTop] at hroom hguard
    rw [h.entry] at hown hexecutable
    refine ⟨hown, fun hnx hstack => ?_, hroom, fun v hlo hhi => ?_⟩
    · obtain ⟨run, i, hlanded⟩ := h.stack _ hstack
      have hdenied := hlanded.isExecutable
      rw [hexecutable, h.noExecute, hnx] at hdenied
      exact absurd hdenied (by decide)
    · have hzero := hguard v hlo hhi
      have hunread := isUserReadable_eq_false hzero
      have hnone : ∀ l, IsSegment image l →
          ¬SegmentPages (Elf.programHeader image l) (pageNumber v) := by
        intro l hl hpage
        rw [h.readable l hl v hpage] at hunread
        exact absurd hunread (by decide)
      exact ⟨(h.kept v (not_stackPages_of_guard hsafe hroom hlo hhi) hnone).symm.trans hzero, hnone⟩
  · rintro ⟨hown, hoff, hroom, hguard⟩
    rw [← h.entry] at hown hoff
    refine ⟨?_, ?_, hown, by rw [h.stackTop]; exact hroom, fun v hlo hhi => ?_, fun v hlo hhi => ?_⟩
    · obtain ⟨l, hl, hcovers⟩ := hown
      obtain ⟨-, -, -, hhalf⟩ := User.checkSegment_eq_none.1 (h.checked l hl)
      refine h.readable l hl _ ((User.segmentPages_iff (User.memorySize_lt image l) hhalf ?_).2 ?_)
      · rw [hnat]
        exact hlow
      · rw [hnat]
        exact hcovers
    · by_cases hstack : StackPages k (pageNumber (BitVec.ofNat 64 task.entry))
      · -- every page is executable on a machine without the bit
        obtain ⟨run, i, hlanded⟩ := h.stack _ hstack
        have hnx : k'.paging.noExecuteAvailable = false := by
          rw [h.noExecute]
          exact Bool.eq_false_iff.2 fun hnx => hoff hnx hstack
        rw [hlanded.isExecutable, hnx]
        rfl
      · exact h.executable hstack
    · rw [h.stackTop] at hlo hhi
      obtain ⟨run, i, hlanded⟩ := h.stack v (stackPages_of_range hsafe hroom hlo hhi)
      exact hlanded.isUserWritable
    · rw [h.stackTop] at hlo hhi
      obtain ⟨hzero, hnone⟩ := hguard v hlo hhi
      exact (h.kept v (not_stackPages_of_guard hsafe hroom hlo hhi) hnone).trans hzero

/-- In every state that boot and any sequence of requests lead to. -/
theorem task_starts_iff {boot : Handover} {memory : ByteMemory} {bitmap : Nat} {k₀ : Kernel}
    (hphysical : Frame.Physical boot) (hboot : bootKernel boot memory = .ok (k₀, bitmap))
    {requests : List Request} (hrun : serveAll k₀ requests = .ok k) {name : String}
    {image : ByteMemory} {size : Nat} {task : User.Task}
    (hload : User.load k name image size = .ok (.ok task, k')) :
    Startable k'.paging image task ↔ StartsFrom k image := by
  obtain ⟨s₀, -, hs₀, h₀⟩ := bootKernel_safe hphysical hboot
  have hsafe := serveAll_safe hs₀ h₀ hrun
  exact (User.loaded_of_ok hs₀ hsafe hload).startable_iff hsafe

/-- The only segment of such an image. -/
theorem Tiny.isSegment_iff {address : Nat} (h : Tiny image address) :
    IsSegment image l ↔ l = 0 := by
  unfold User.IsSegment
  rw [h.header, show (tinyHeader address).programHeaderCount = 1 from rfl, Nat.lt_one_iff]
  constructor
  · exact And.left
  · rintro rfl
    rw [h.segment]
    exact ⟨rfl, decide_eq_true ⟨rfl, show 0x1000 ≠ 0 by decide⟩⟩

theorem task_starts_iff_tiny :
    ∃ k k', bootKernel roomyHandover (fun _ => 0) = .ok (k, 0x120000) ∧
      User.load k "init" (tinyImage 0x100000000) 120 =
        .ok (.ok ⟨"init", 0x100000000, HK.USER_STACK_TOP⟩, k') ∧
      Startable k'.paging (tinyImage 0x100000000) ⟨"init", 0x100000000, HK.USER_STACK_TOP⟩ := by
  have haddress : TinyAddress 0x100000000 := ⟨by decide, by decide, by decide⟩
  obtain ⟨s₀, k, c, hboot, hs₀, hroomy, hle, htop, -, -, hvacant⟩ := bootKernel_roomy fun _ => 0
  obtain ⟨k', hload, -⟩ := load_roomy hs₀ hroomy (by omega) htop tiny_high haddress "init"
  have hrun : serveAll k [] = .ok k := rfl
  refine ⟨k, k', hboot, hload, (task_starts_iff physical_roomy hboot hrun hload).2
    ⟨⟨0, tiny_high.isSegment_iff.2 rfl, ?_⟩, fun _ => ?_, by rw [htop]; decide, ?_⟩⟩
  · rw [tiny_high.segment, tiny_high.header]
    decide
  · rw [tiny_high.header]
    exact not_stackPages_of_lt htop (by decide)
  · intro v hlo hhi
    rw [htop] at hlo hhi
    have hlo' : 0x7FFFFFFEE000 ≤ v.toNat := hlo
    have hhi' : v.toNat < 0x7FFFFFFEF000 := hhi
    refine ⟨hvacant v ⟨?_, by omega⟩, fun l hl hpage => ?_⟩
    · rw [show 4 * GIB = 2 ^ 32 from rfl]
      omega
    · obtain rfl := tiny_high.isSegment_iff.1 hl
      rw [tiny_high.segment] at hpage
      have hcovers := (User.segmentPages_iff (by decide) (by decide) (by omega)).1 hpage
      have hend : v.toNat < 0x100001000 := hcovers.2
      omega

/-- The tables after boot are those that `Paging::Initialize` built. -/
theorem bootKernel_answers {boot : Handover} {memory : ByteMemory} {bitmap : Nat}
    (hlinked : Linked boot) (hram : RamFits boot)
    (hboot : bootKernel boot memory = .ok (k, bitmap)) :
    ∃ s, Booted boot s ∧ ∀ v, Paging.answers k.paging v = Paging.answers s v := by
  obtain ⟨s₀, s, hframes, hpaging, hheap⟩ := bootKernel_eq_ok hboot
  have hinit := Frame.initialized_of_ok hframes
  have hs₀ := addressable_of_boot hframes (physicallyAddressable_of_ramFits hram)
  obtain ⟨hbooted, -⟩ :=
    booted_of_ok hinit.wf hs₀ (fun step => hlinked.admissible hram) hpaging
  obtain ⟨-, -, t, tables, hiso⟩ := (initializePaging_stacked hlinked hram hframes hpaging).safe
  obtain ⟨run, k₁, memory, halloc, rfl, hiso'⟩ := initializeHeap_cases hs₀ hiso hheap
  exact ⟨s, hbooted, fun v => answers_congr halloc.noExecute (hiso.effective_eq hiso' rfl v)⟩

/-- An image without a segment, with the entry point in the boot code of the kernel. -/
def strayImage : ByteMemory := (tinyImage 0x100000).store 64 4 0

/-- `Load` succeeds, and ring 3 may not even read the entry point. -/
theorem entry_in_boot_code :
    ∃ k k', bootKernel roomyHandover (fun _ => 0) = .ok (k, 0x120000) ∧
      User.load k "init" strayImage 120 = .ok (.ok ⟨"init", 0x100000, HK.USER_STACK_TOP⟩, k') ∧
      (∀ l, ¬IsSegment strayImage l) ∧
      isUserReadable k'.paging (BitVec.ofNat 64 0x100000) = false ∧
      ¬Startable k'.paging strayImage ⟨"init", 0x100000, HK.USER_STACK_TOP⟩ := by
  have hheader : Elf.Header.read strayImage = tinyHeader 0x100000 := by decide +kernel
  have hskip : User.isLoaded (Elf.programHeader strayImage 0) = false := by decide +kernel
  have hnone : ∀ l, ¬IsSegment strayImage l := by
    rintro l ⟨hlt, hloaded⟩
    rw [hheader] at hlt
    obtain rfl : l = 0 := Nat.lt_one_iff.1 hlt
    rw [hskip] at hloaded
    exact absurd hloaded (by decide)
  obtain ⟨s₀, k, c, hboot, hs₀, hroomy, hle, htop, -⟩ := bootKernel_roomy fun _ => 0
  obtain ⟨s, hbooted, hanswers⟩ := bootKernel_answers linked_roomy ramFits_roomy hboot
  obtain ⟨step, hstep, haccess, hprivilege⟩ : ∃ step,
      lastTouching (bootSteps roomyHandover) (BitVec.ofNat 64 0x100000) = some step ∧
        step.call.access = .readExecute ∧ step.call.privilege = .kernel :=
    ⟨⟨⟨0x100000, 0x100000, 0x1000, .readExecute, .kernel, .normal⟩, 0⟩, by decide, rfl, rfl⟩
  have hrequested := hbooted.requested _ (Or.inl (by decide)) step hstep
  have hentry : User.EntryAccepted k (Elf.Header.read strayImage).entry := by
    rw [hheader]
    refine ⟨by decide, (congrArg Answers.isExecutable (hanswers _)).trans ?_⟩
    refine hrequested.isExecutable.trans ?_
    rw [haccess]
    exact Bool.or_true _
  have hloop : User.Loads strayImage 120 k 0
      (Elf.Header.read strayImage).programHeaderCount none k := by
    rw [hheader]
    exact .skip hskip (.done ..)
  obtain ⟨k', hload, -⟩ := load_after_loop hs₀ hroomy (by omega) htop
    (show User.isRunnable (Elf.Header.read strayImage) 120 = true by
      rw [hheader]
      decide) hloop hentry "init"
  rw [hheader] at hload
  obtain ⟨s₁, -, hs₁, hsafe⟩ := bootKernel_safe physical_roomy hboot
  have hloaded := User.loaded_of_ok hs₁ hsafe hload
  have hkept := answers_congr hloaded.noExecute (hloaded.kept (BitVec.ofNat 64 0x100000)
    (not_stackPages_of_lt htop (by decide)) fun l hl => absurd hl (hnone l))
  have hunread : isUserReadable k'.paging (BitVec.ofNat 64 0x100000) = false := by
    refine (congrArg Answers.isUserReadable (hkept.trans (hanswers _))).trans ?_
    refine hrequested.isUserReadable.trans ?_
    rw [hprivilege]
    rfl
  refine ⟨k, k', hboot, hload, hnone, hunread, fun hstart => ?_⟩
  exact absurd (hunread.symm.trans hstart.readable) (by decide)

end X64HK
