import X64HK.User.CopyIn
import X64HK.User.LoadEffect

/-!
# What the pages of a task hold

`Landed k run content access v i` says that the address `v` shows byte `i` of
a run of frames, that this byte is what `content` wants there, and what ring 3
may do with it.

* `KeepsRuns`: nothing that the kernel does for one run changes the bytes of
  another.  With `Effect`, it carries `Landed` through later calls
  (`Landed.later`).
* `Provided.lands` and `Provided.lands_at`: a run that was filled and mapped is
  seen at its pages.
* `Loads.lands`: after the loop of `Load`, a page shows the last segment that
  covers it.
* `Loaded` is the sum for a call of `Load` that succeeds.
-/

namespace X64HK

open X64HK.Frame (SIZE Run Tracks)
open Multiboot
open Paging

variable {s₀ : Frame.State} {k k₁ k₂ k' : Kernel} {t : Tree} {tables : List Run}
  {noExecute : Bool} {owner : Owner} {run : Run} {content : Nat → BitVec 8} {call : MapCall}
  {mapped : Bool} {v : BitVec 64}

/-! ## Bytes of other runs -/

/-- The runs on record stay on record, with their bytes. -/
structure KeepsRuns (k k' : Kernel) : Prop where
  mem_runs : ∀ run ∈ k.runs, run ∈ k'.runs
  bytes : ∀ run ∈ k.runs, k.paging.memory.AgreeOn k'.paging.memory run.address (run.count * SIZE)

theorem KeepsRuns.refl (k : Kernel) : KeepsRuns k k :=
  ⟨fun _ h => h, fun _ _ _ _ _ => rfl⟩

theorem KeepsRuns.of_eq (hpaging : k'.paging = k.paging) (hrecord : k'.handedOut = k.handedOut) :
    KeepsRuns k k' := by
  refine ⟨fun run hrun => ?_, fun run _ a _ _ => ?_⟩
  · rw [Kernel.runs, hrecord]
    exact hrun
  · rw [hpaging]

theorem KeepsRuns.trans (h : KeepsRuns k k₁) (h' : KeepsRuns k₁ k₂) : KeepsRuns k k₂ :=
  ⟨fun run hrun => h'.mem_runs run (h.mem_runs run hrun),
    fun run hrun => (h.bytes run hrun).trans (h'.bytes run (h.mem_runs run hrun))⟩

/-- Writing to a run touches no byte of a run that shares no frame with it. -/
theorem agreeOn_copy_of_disjoint {m : ByteMemory} {run' : Run}
    (haligned : run.address = run.first * SIZE) (haligned' : run'.address = run'.first * SIZE)
    (hdisjoint : ∀ j, ¬(run.Holds j ∧ run'.Holds j)) :
    m.AgreeOn (m.copy run.address (run.count * SIZE) content) run'.address (run'.count * SIZE) := by
  intro a hlo hhi
  have hframe : run'.Holds (a / SIZE) := by
    rw [haligned'] at hlo hhi
    rw [← Nat.add_mul] at hhi
    exact ⟨(Nat.le_div_iff_mul_le (by decide)).2 hlo, Nat.div_lt_of_lt_mul (by
      rw [Nat.mul_comm]
      exact hhi)⟩
  have hout := Run.outside haligned fun hholds => hdisjoint _ ⟨hholds, hframe⟩
  refine ByteMemory.copy_of_outside ?_
  rw [show SIZE = 4096 from rfl] at *
  omega

theorem Kernel.map_runs (hmap : k.map call = .ok (mapped, k')) : k'.runs = k.runs := by
  obtain ⟨paging, -, rfl⟩ := Kernel.map_eq_ok hmap
  rfl

theorem Provided.keepsRuns (hs₀ : Addressable s₀)
    (h : Provided s₀ k t tables owner run content call mapped k') : KeepsRuns k k' := by
  obtain ⟨k₁, halloc, hset, hmap⟩ := h.steps
  have hruns : k'.runs = run :: k.runs := (Kernel.map_runs hmap).trans halloc.runs_eq
  refine ⟨fun run' hrun' => by rw [hruns]; exact List.mem_cons_of_mem _ hrun', fun run' hrun' => ?_⟩
  have hmem : run' ∈ k₁.runs := by
    rw [halloc.runs_eq]
    exact List.mem_cons_of_mem _ hrun'
  have htracks := halloc.isolated.owned.tracks
  have hdisjoint := (List.pairwise_append.1 htracks.disjoint).2.1
  rw [halloc.runs_eq] at hdisjoint
  have hwritten : k.paging.memory.AgreeOn (k₁.writeRun run content).paging.memory run'.address
      (run'.count * SIZE) := by
    show k.paging.memory.AgreeOn (k₁.paging.memory.copy run.address (run.count * SIZE) content)
      run'.address (run'.count * SIZE)
    rw [halloc.paging]
    exact agreeOn_copy_of_disjoint
      (htracks.legal run (List.mem_append_right _ halloc.mem_runs)).aligned
      (htracks.legal run' (List.mem_append_right _ hmem)).aligned
      ((List.pairwise_cons.1 hdisjoint).1 run' hrun')
  exact hwritten.trans ((hset.map_work hs₀ hmap).kept run' hmem)

/-- The run that was filled and mapped. -/
theorem Provided.bytes (hs₀ : Addressable s₀)
    (h : Provided s₀ k t tables owner run content call mapped k') :
    run ∈ k'.runs ∧ ∀ i < run.count * SIZE, k'.paging.memory (run.address + i) = content i := by
  obtain ⟨k₁, halloc, hset, hmap⟩ := h.steps
  refine ⟨by rw [Kernel.map_runs hmap]; exact halloc.mem_runs, fun i hi => ?_⟩
  have hkept := (hset.map_work hs₀ hmap).kept run halloc.mem_runs
  rw [hkept _ (Nat.le_add_right ..) (by omega)]
  exact ByteMemory.copy_of_inside hi

/-! ## Addresses that show a run -/

structure Landed (k : Kernel) (run : Run) (content : Nat → BitVec 8) (access : Access)
    (v : BitVec 64) (i : Nat) : Prop where
  held : run ∈ k.runs
  inside : i < run.count * SIZE
  byte : k.paging.memory (run.address + i) = content i
  translate : (translate k.paging v).toNat = run.address + i
  isUserReadable : isUserReadable k.paging v = true
  isUserWritable : isUserWritable k.paging v = decide (access = .readWrite)
  isExecutable : isExecutable k.paging v =
    (!k.paging.noExecuteAvailable || decide (access = .readExecute))

theorem Landed.byteAt_eq {access : Access} {i : Nat} (h : Landed k run content access v i) :
    byteAt k.paging v = content i := by
  rw [byteAt, h.translate, h.byte]

/-- What is done elsewhere later does not matter. -/
theorem Landed.later {access : Access} {i : Nat} (h : Landed k run content access v i)
    (hkeeps : KeepsRuns k k') (heffective : effective k'.paging v = effective k.paging v)
    (hnx : k'.paging.noExecuteAvailable = k.paging.noExecuteAvailable) :
    Landed k' run content access v i := by
  have hanswers := answers_congr hnx heffective
  have hinside := h.inside
  refine ⟨hkeeps.mem_runs _ h.held, h.inside, ?_, ?_, ?_, ?_, ?_⟩
  · rw [hkeeps.bytes _ h.held _ (Nat.le_add_right ..) (by omega)]
    exact h.byte
  · rw [show Paging.translate k'.paging v = Paging.translate k.paging v from
      congrArg Answers.translate hanswers]
    exact h.translate
  · exact (congrArg Answers.isUserReadable hanswers).trans h.isUserReadable
  · exact (congrArg Answers.isUserWritable hanswers).trans h.isUserWritable
  · rw [hnx]
    exact (congrArg Answers.isExecutable hanswers).trans h.isExecutable

/-- The pages of a range that does not wrap around. -/
theorem visited_of_range {virtual size : BitVec 64} (haligned : virtual.toNat % PAGE_SIZE = 0)
    (hstop : virtual.toNat + size.toNat < 2 ^ 64) (hlo : virtual.toNat ≤ v.toNat)
    (hhi : v.toNat < virtual.toNat + size.toNat) : Visited virtual size (pageNumber v) := by
  have hsize : PAGE_SIZE = 4096 := rfl
  have hend : (virtual + size).toNat = virtual.toNat + size.toNat := by
    rw [BitVec.toNat_add]
    exact Nat.mod_eq_of_lt hstop
  have hfirst : (virtual &&& ~~~OFFSET_MASK).toNat = virtual.toNat := by
    rw [toNat_and_not_OFFSET_MASK]
    exact Nat.div_mul_cancel (Nat.dvd_of_mod_eq_zero haligned)
  have hpages : ∀ j ≤ (v.toNat - virtual.toNat) / PAGE_SIZE,
      (pagesAbove (virtual &&& ~~~OFFSET_MASK) j).toNat = virtual.toNat + j * PAGE_SIZE := by
    intro j hj
    rw [hsize] at hj
    rw [toNat_pagesAbove (by rw [hfirst, hsize]; omega), hfirst]
  refine ⟨(v.toNat - virtual.toNat) / PAGE_SIZE, fun j hj => ?_, pageNumber_eq ?_⟩
  · rw [BitVec.lt_def, hend, hpages j hj]
    rw [hsize] at hj ⊢
    omega
  · rw [hpages _ (Nat.le_refl _), hsize]
    rw [hsize] at haligned
    omega

/-- A call of `Map` for ring 3 decides what its pages show. -/
theorem Paging.Requested.landed {i : Nat} (h : Requested k.paging call v)
    (hprivilege : call.privilege = .user) (hheld : run ∈ k.runs)
    (hinside : i < run.count * SIZE) (hbyte : k.paging.memory (run.address + i) = content i)
    (htranslate : (Paging.translate k.paging v).toNat = run.address + i) :
    Landed k run content call.access v i := by
  refine ⟨hheld, hinside, hbyte, htranslate, ?_, ?_, h.isExecutable⟩
  · rw [h.isUserReadable, hprivilege]
    rfl
  · rw [h.isUserWritable, hprivilege]
    rfl

/-- The run is one of the machine. -/
theorem Provided.legal (h : Provided s₀ k t tables owner run content call mapped k') :
    Frame.Legal s₀ run := by
  obtain ⟨k₁, halloc, -⟩ := h.steps
  exact halloc.isolated.owned.tracks.legal run (List.mem_append_right _ halloc.mem_runs)

/-- A page that was mapped shows some page of the run. -/
theorem Provided.lands (hs₀ : Addressable s₀)
    (h : Provided s₀ k t tables owner run content call true k')
    (hv : Visited call.virtual call.size (pageNumber v)) :
    ∃ i, Landed k' run content call.access v i := by
  obtain ⟨hheld, hbytes⟩ := h.bytes hs₀
  obtain ⟨k₁, halloc, hset, hmap⟩ := h.steps
  obtain ⟨paging, hpaging, rfl⟩ := Kernel.map_eq_ok hmap
  obtain ⟨n, t', tables', hm⟩ := map_spec hs₀ hset.owned hpaging
  obtain ⟨i, hbelow, hpage⟩ := hv
  have hi : i < n := by
    by_contra hle
    exact hm.complete rfl (hbelow n (by omega))
  have hn := hm.le_of_stop h.forRun.stop
  obtain ⟨j, hj, hleaf⟩ := mapPages_visited
    (call.flags (k₁.writeRun run content).paging.noExecuteAvailable) hi call.firstPage call.source
    t.leaf
  rw [← hm.leaf, show pageNumber (pagesAbove call.firstPage i) = pageNumber v from hpage.symm]
    at hleaf
  -- the page of `v` as a call of its own
  have hnat : (pagesAbove call.source j).toNat = (run.first + j) * PAGE_SIZE := by
    have hbound := h.forRun.bound
    rw [toNat_pagesAbove, h.forRun.source, Nat.add_mul]
    rw [h.forRun.source, ← Nat.add_mul]
    rw [show PAGE_SIZE = 4096 from rfl] at *
    omega
  have heffective : effective paging v = granted (pagesAbove call.source j |||
      call.flags paging.noExecuteAvailable) := by
    rw [hm.owned.rep.effective v, hleaf, hm.setup.noExecuteAvailable]
  have hrequested : Requested paging { call with
      virtual := BitVec.ofNat 64 (v.toNat / PAGE_SIZE * PAGE_SIZE)
      physical := pagesAbove call.source j } v := by
    refine requested_of_effective heffective (aligned_pagesAbove call.source_aligned j) ?_ ?_
    · have hbound := h.forRun.bound
      rw [hnat]
      rw [show PAGE_SIZE = 4096 from rfl] at *
      omega
    · have hv := v.isLt
      dsimp only
      rw [toNat_ofNat_of_lt (by rw [show PAGE_SIZE = 4096 from rfl]; omega),
        show PAGE_SIZE = 4096 from rfl]
      omega
  have hlegal := h.legal
  have htranslate : (translate paging v).toNat =
      run.address + (j * SIZE + v.toNat % PAGE_SIZE) := by
    have hv := v.isLt
    have hto := hrequested.translate
    dsimp only at hto
    rw [toNat_ofNat_of_lt (by rw [show PAGE_SIZE = 4096 from rfl]; omega), hnat] at hto
    rw [hlegal.aligned, SIZE_eq_PAGE_SIZE]
    rw [show PAGE_SIZE = 4096 from rfl] at *
    omega
  have hinside : j * SIZE + v.toNat % PAGE_SIZE < run.count * SIZE := by
    have hlt : j + 1 ≤ run.count := by omega
    have hle := Nat.mul_le_mul_right SIZE hlt
    rw [SIZE_eq_PAGE_SIZE, show PAGE_SIZE = 4096 from rfl] at *
    omega
  have hlanded := Paging.Requested.landed
    (k := { k₁.writeRun run content with paging := paging }) hrequested h.privilege hheld hinside
    (hbytes _ hinside) htranslate
  exact ⟨_, hlanded⟩

/-- The bounds of a call for a run, as numbers. -/
theorem ForRun.spans (h : ForRun call run) (hlegal : Frame.Legal s₀ run) :
    call.physical.toNat = run.address ∧ call.size.toNat = run.count * SIZE ∧
      run.address % PAGE_SIZE = 0 ∧ run.address + run.count * SIZE ≤ 2 ^ 52 := by
  have hbound := h.bound
  have hpositive := hlegal.count_pos
  have haligned := hlegal.aligned
  rw [SIZE_eq_PAGE_SIZE] at *
  have hstop : run.address + run.count * PAGE_SIZE ≤ 2 ^ 52 := by
    rw [haligned, ← Nat.add_mul]
    exact hbound
  have hpage : 0 < PAGE_SIZE := by decide
  have hbytes := Nat.mul_pos hpositive hpage
  refine ⟨?_, ?_, by rw [haligned]; exact Nat.mul_mod_left .., hstop⟩
  · rw [h.physical]
    exact toNat_ofNat_of_lt (by omega)
  · rw [h.size]
    exact toNat_ofNat_of_lt (by omega)

theorem ForRun.admissible (h : ForRun call run) (hlegal : Frame.Legal s₀ run)
    (haligned : call.virtual.toNat % PAGE_SIZE = 0)
    (hstop : call.virtual.toNat + call.size.toNat ≤ 2 ^ 47) : call.Admissible := by
  obtain ⟨hphysical, hsize, hzero, hbound⟩ := h.spans hlegal
  refine ⟨by rw [hphysical, hzero, haligned], by rw [hphysical, hsize]; exact hbound, ?_,
    Or.inl hstop⟩
  rw [show PAGE_SIZE = 4096 from rfl]
  omega

/-- A range that callers may ask for shows the run in order. -/
theorem Provided.lands_at (hs₀ : Addressable s₀)
    (h : Provided s₀ k t tables owner run content call true k') (hcall : call.Admissible)
    (hlo : call.virtual.toNat ≤ v.toNat) (hhi : v.toNat < call.virtual.toNat + call.size.toNat) :
    Landed k' run content call.access v (v.toNat - call.virtual.toNat) := by
  obtain ⟨hheld, hbytes⟩ := h.bytes hs₀
  obtain ⟨k₁, halloc, hset, hmap⟩ := h.steps
  obtain ⟨paging, hpaging, rfl⟩ := Kernel.map_eq_ok hmap
  obtain ⟨hserved, -⟩ := hset.owned.served hs₀ hcall hpaging
  obtain ⟨hphysical, hsize, -, -⟩ := h.forRun.spans h.legal
  have htouch : call.Touches v := by
    refine ⟨Nat.div_le_div_right hlo, ?_⟩
    have hle := Nat.div_mul_le_self v.toNat PAGE_SIZE
    omega
  have hcanonical : Canonical v := by
    rcases hcall.canonical with hlow | hhigh
    · exact Or.inl (by omega)
    · exact Or.inr (by omega)
  have hrequested := hserved.requested v hcanonical htouch
  have htranslate : (translate paging v).toNat = run.address + (v.toNat - call.virtual.toNat) := by
    have hto := hrequested.translate
    rw [hphysical] at hto
    omega
  exact hrequested.landed h.privilege hheld (by omega) (hbytes _ (by omega)) htranslate

namespace User

/-! ## The steps of `Load` -/

theorem allocateStack_lands (hs₀ : Addressable s₀) (h : Safe s₀ noExecute k) {top : Nat}
    (hcall : allocateStack k = .ok (top, k')) :
    KeepsRuns k k' ∧ (top ≠ 0 → top = k.nextStackTop ∧
      ∀ v, StackPages k (pageNumber v) → ∃ run i, Landed k' run (fun _ => 0) .readWrite v i) := by
  obtain ⟨-, htop, t, tables, hiso⟩ := h
  obtain ⟨k₁, hmarked, -, hcases⟩ := allocateStack_cases hs₀ hiso htop.1 hcall
  have hsame : KeepsRuns k k₁ := .of_eq hmarked.paging hmarked.handedOut
  rcases hcases with ⟨-, rfl, rfl⟩ | ⟨-, run, mapped, hprovided, -, rfl⟩
  · exact ⟨hsame, fun hzero => absurd rfl hzero⟩
  · refine ⟨hsame.trans (hprovided.keepsRuns hs₀), fun hnonzero => ?_⟩
    cases mapped with
    | false => exact absurd rfl hnonzero
    | true =>
      exact ⟨rfl, fun v hv => ⟨run, hprovided.lands hs₀ hv⟩⟩

/-- The pages of a segment reach over an address. -/
def Covers (segment : Elf.ProgramHeader) (a : Nat) : Prop :=
  segmentStart segment ≤ a ∧ a < segmentEnd segment

instance (segment : Elf.ProgramHeader) (a : Nat) : Decidable (Covers segment a) :=
  inferInstanceAs (Decidable (_ ∧ _))

section

variable {segment : Elf.ProgramHeader} (hmemory : segment.memorySize < 2 ^ 64)
  (hhalf : inUserHalf segment.virtualAddress segment.memorySize = true)

include hmemory hhalf

/-- The range of pages in numbers. -/
theorem segment_range : segmentStart segment % PAGE_SIZE = 0 ∧
    segmentEnd segment % PAGE_SIZE = 0 ∧ segmentStart segment ≤ segmentEnd segment ∧
    segmentEnd segment ≤ 2 ^ 47 ∧ segmentStart segment ≤ segment.virtualAddress ∧
    segment.virtualAddress + segment.memorySize ≤ segmentEnd segment := by
  obtain ⟨-, hend⟩ := (inUserHalf_iff hmemory).1 hhalf
  rw [show HK.USER_MAX = 2 ^ 47 from rfl] at hend
  unfold segmentStart segmentEnd Frame.alignUp wrap64
  rw [SIZE_eq_PAGE_SIZE, show PAGE_SIZE = 4096 from rfl]
  rw [Nat.mod_eq_of_lt (a := segment.virtualAddress + segment.memorySize) (by omega)]
  omega

theorem toNat_segmentStart :
    (BitVec.ofNat 64 (segmentStart segment)).toNat = segmentStart segment := by
  obtain ⟨-, -, hle, hend, -⟩ := segment_range hmemory hhalf
  exact toNat_ofNat_of_lt (by omega)

theorem toNat_segmentSize :
    (BitVec.ofNat 64 (sub64 (segmentEnd segment) (segmentStart segment))).toNat =
      segmentEnd segment - segmentStart segment := by
  obtain ⟨-, -, hle, hend, -⟩ := segment_range hmemory hhalf
  rw [sub64_of_le (by omega) hle]
  exact toNat_ofNat_of_lt (by omega)

/-- In the user half, a page number belongs to one page. -/
theorem segmentPages_iff (hv : v.toNat < 2 ^ 47) :
    SegmentPages segment (pageNumber v) ↔ Covers segment v.toNat := by
  obtain ⟨hstart, hstop, hle, hend, -⟩ := segment_range hmemory hhalf
  have hfrom := toNat_segmentStart hmemory hhalf
  have hsize := toNat_segmentSize hmemory hhalf
  constructor
  · intro hpages
    obtain ⟨w, hpage, hlo, hhi⟩ := hpages.exists_address (by rw [hfrom]; exact hstart) (by
      rw [hfrom, hsize, show PAGE_SIZE = 4096 from rfl]
      omega)
    rw [hfrom] at hlo
    rw [hfrom, hsize] at hhi
    have heq : v.toNat / 4096 % 2 ^ 36 = w.toNat / 4096 % 2 ^ 36 := hpage
    rw [show PAGE_SIZE = 4096 from rfl] at hstart hstop
    exact ⟨by omega, by omega⟩
  · rintro ⟨hlo, hhi⟩
    refine visited_of_range (by rw [hfrom]; exact hstart) ?_ ?_ ?_
    · rw [hfrom, hsize]
      omega
    · rw [hfrom]
      exact hlo
    · rw [hfrom, hsize]
      omega

end

variable {image : ByteMemory} {size : Nat}

theorem loadSegment_lands (hs₀ : Addressable s₀) (h : Safe s₀ noExecute k)
    {segment : Elf.ProgramHeader} (hmemory : segment.memorySize < 2 ^ 64)
    (hcheck : checkSegment size segment = none) {loaded : Bool}
    (hcall : loadSegment image segment k = .ok (loaded, k')) :
    KeepsRuns k k' ∧ (loaded = true → ∀ v : BitVec 64, Covers segment v.toNat →
      ∃ run, Landed k' run (segmentContent image segment) (accessFor segment) v
        (v.toNat - segmentStart segment)) := by
  obtain ⟨-, -, -, hhalf⟩ := checkSegment_eq_none.1 hcheck
  obtain ⟨-, -, t, tables, h⟩ := h
  rcases loadSegment_cases hs₀ h hmemory hcheck hcall with
    ⟨-, rfl, rfl⟩ | ⟨-, run, hprovided, -⟩
  · exact ⟨.refl _, nofun⟩
  · refine ⟨hprovided.keepsRuns hs₀, fun hloaded v hv => ⟨run, ?_⟩⟩
    obtain ⟨hstart, -, hle, hend, -⟩ := segment_range hmemory hhalf
    have hfrom : (segmentCall segment (segmentStart segment)
        (sub64 (segmentEnd segment) (segmentStart segment)) run.address).virtual.toNat =
        segmentStart segment := toNat_segmentStart hmemory hhalf
    have hlength : (segmentCall segment (segmentStart segment)
        (sub64 (segmentEnd segment) (segmentStart segment)) run.address).size.toNat =
        segmentEnd segment - segmentStart segment := toNat_segmentSize hmemory hhalf
    obtain ⟨hlo, hhi⟩ := hv
    subst hloaded
    have hadmissible := hprovided.forRun.admissible hprovided.legal
      (by rw [hfrom]; exact hstart) (by omega)
    have hlands := hprovided.lands_at hs₀ hadmissible (show _ ≤ v.toNat by omega) (by omega)
    rw [hfrom] at hlands
    exact hlands

variable {failure : Option LoadError}

/-- After the loop, every segment passed its checks. -/
theorem Loads.checked {index n : Nat} (hloop : Loads image size k index n failure k')
    (hok : failure = none) {l : Nat} (hlo : index ≤ l) (hhi : l < index + n)
    (hl : isLoaded (Elf.programHeader image l) = true) :
    checkSegment size (Elf.programHeader image l) = none := by
  induction hloop with
  | done => omega
  | @skip k k' index n failure hskip _ ih =>
    rcases Nat.eq_or_lt_of_le hlo with rfl | hlt
    · exact absurd (hskip.symm.trans hl) nofun
    · exact ih hok hlt (by omega)
  | refuse => exact absurd hok nofun
  | starve => exact absurd hok nofun
  | @load k k₁ k' index n failure _ hcheck _ _ ih =>
    rcases Nat.eq_or_lt_of_le hlo with rfl | hlt
    · exact hcheck
    · exact ih hok hlt (by omega)

theorem Loads.keepsRuns (hs₀ : Addressable s₀) {index n : Nat}
    (hloop : Loads image size k index n failure k') (h : Safe s₀ noExecute k) : KeepsRuns k k' :=
  (hloop.invariant (P := fun k₁ => Safe s₀ noExecute k₁ ∧ KeepsRuns k k₁)
    (fun hcheck hsegment h₁ =>
      ⟨(loadSegment_safe hs₀ h₁.1 (memorySize_lt image _) hcheck hsegment).1,
        h₁.2.trans (loadSegment_lands hs₀ h₁.1 (memorySize_lt image _) hcheck hsegment).1⟩)
    ⟨h, .refl k⟩).2

/-- After the loop, a page shows the last segment that covers it. -/
theorem Loads.lands (hs₀ : Addressable s₀) {index n : Nat}
    (hloop : Loads image size k index n failure k') (h : Safe s₀ noExecute k)
    (hok : failure = none) {l : Nat} (hlo : index ≤ l) (hhi : l < index + n)
    (hl : isLoaded (Elf.programHeader image l) = true)
    (hv : Covers (Elf.programHeader image l) v.toNat)
    (hlast : ¬LoopPages image size (l + 1) (index + n - (l + 1)) (pageNumber v)) :
    ∃ run, Landed k' run (segmentContent image (Elf.programHeader image l))
      (accessFor (Elf.programHeader image l)) v
      (v.toNat - segmentStart (Elf.programHeader image l)) := by
  induction hloop with
  | done => omega
  | @skip k k' index n failure hskip _ ih =>
    rcases Nat.eq_or_lt_of_le hlo with rfl | hlt
    · exact absurd (hskip.symm.trans hl) nofun
    · rw [show index + (n + 1) = index + 1 + n by omega] at hhi hlast
      exact ih h hok hlt hhi hlast
  | refuse => exact absurd hok nofun
  | starve => exact absurd hok nofun
  | @load k k₁ k' index n failure _ hcheck hsegment hrest ih =>
    have hmemory := memorySize_lt image index
    have hsafe := (loadSegment_safe hs₀ h hmemory hcheck hsegment).1
    rcases Nat.eq_or_lt_of_le hlo with rfl | hlt
    · -- the segments after this one leave the page alone
      obtain ⟨run, hlanded⟩ :=
        (loadSegment_lands hs₀ h hmemory hcheck hsegment).2 rfl v hv
      obtain ⟨-, given, heffect⟩ := hrest.effect hs₀ hsafe
      rw [show index + (n + 1) - (index + 1) = n by omega] at hlast
      exact ⟨run, hlanded.later (hrest.keepsRuns hs₀ hsafe)
        (heffect.kept v fun hq => hlast hq.loopPages) heffect.noExecute⟩
    · rw [show index + (n + 1) = index + 1 + n by omega] at hhi hlast
      exact ih hsafe hok hlt hhi hlast

/-! ## A call that succeeds -/

/-- The segments that `Load` loads from an image. -/
def IsSegment (image : ByteMemory) (l : Nat) : Prop :=
  l < (Elf.Header.read image).programHeaderCount ∧ isLoaded (Elf.programHeader image l) = true

instance (image : ByteMemory) (l : Nat) : Decidable (IsSegment image l) :=
  inferInstanceAs (Decidable (_ ∧ _))

/-- What a call of `Load` that succeeds leaves behind.  A page shows the stack, or
else the last segment that covers it, or else what it showed before. -/
structure Loaded (k : Kernel) (image : ByteMemory) (size : Nat) (task : Task) (k' : Kernel) :
    Prop where
  entry : task.entry = (Elf.Header.read image).entry
  stackTop : task.stackTop = k.nextStackTop
  noExecute : k'.paging.noExecuteAvailable = k.paging.noExecuteAvailable
  checked : ∀ l, IsSegment image l → checkSegment size (Elf.programHeader image l) = none
  stack : ∀ v, StackPages k (pageNumber v) → ∃ run i, Landed k' run (fun _ => 0) .readWrite v i
  segment : ∀ l, IsSegment image l → ∀ v : BitVec 64, ¬StackPages k (pageNumber v) →
    Covers (Elf.programHeader image l) v.toNat →
    (∀ l', IsSegment image l' → l < l' → ¬Covers (Elf.programHeader image l') v.toNat) →
    ∃ run, Landed k' run (segmentContent image (Elf.programHeader image l))
      (accessFor (Elf.programHeader image l)) v
      (v.toNat - segmentStart (Elf.programHeader image l))
  kept : ∀ v, ¬StackPages k (pageNumber v) →
    (∀ l, IsSegment image l → ¬SegmentPages (Elf.programHeader image l) (pageNumber v)) →
    effective k'.paging v = effective k.paging v
  readable : ∀ l, IsSegment image l → ∀ v,
    SegmentPages (Elf.programHeader image l) (pageNumber v) → isUserReadable k'.paging v = true
  inUserHalf : inUserHalf task.entry 1 = true
  executable : ¬StackPages k (pageNumber (BitVec.ofNat 64 task.entry)) →
    isExecutable k'.paging (BitVec.ofNat 64 task.entry) = true

theorem loaded_of_ok (hs₀ : Addressable s₀) (h : Safe s₀ noExecute k) {name : String}
    {task : Task} (hcall : load k name image size = .ok (.ok task, k')) :
    Loaded k image size task k' := by
  obtain ⟨_, hload⟩ := load_effect hs₀ h hcall
  cases ends_of_ok hcall with
  | @started k₁ _ top hrunnable hloop hentry hstack htop =>
    have hsafe := hloop.safe hs₀ h
    obtain ⟨hsame, given, heffect⟩ := hloop.effect hs₀ h
    obtain ⟨given', heffect'⟩ := allocateStack_effect hs₀ hsafe hstack
    obtain ⟨hkeeps, hstacked⟩ := allocateStack_lands hs₀ hsafe hstack
    obtain ⟨htop', hlands⟩ := hstacked htop
    have hpages : StackPages k₁ = StackPages k := by
      unfold StackPages
      rw [hsame]
    rw [hpages] at hlands
    have hkept : ∀ v, ¬StackPages k (pageNumber v) →
        effective k'.paging v = effective k₁.paging v := fun v hout =>
      heffect'.kept v fun hq => hout (hpages ▸ hq.stackPages)
    have hchecked : ∀ l, IsSegment image l →
        checkSegment size (Elf.programHeader image l) = none := fun l hl =>
      hloop.checked rfl (Nat.zero_le l) (by rw [Nat.zero_add]; exact hl.1) hl.2
    refine ⟨rfl, htop'.trans hsame, heffect'.noExecute.trans heffect.noExecute, hchecked, hlands,
      fun l hl v hout hv hlast => ?_, fun v hout hnone => ?_, fun l hl v hv => ?_, hentry.1,
      fun hout => ?_⟩
    · have hnot : ¬LoopPages image size (l + 1)
          (0 + (Elf.Header.read image).programHeaderCount - (l + 1)) (pageNumber v) := by
        rintro ⟨l', hlo, hhi, hl', hcheck, hpage⟩
        have hlow : v.toNat < 2 ^ 47 := by
          obtain ⟨-, -, -, hhalf⟩ := checkSegment_eq_none.1 (hchecked l hl)
          have hend := (segment_range (memorySize_lt image l) hhalf).2.2.2.1
          exact Nat.lt_of_lt_of_le hv.2 hend
        obtain ⟨-, -, -, hhalf⟩ := checkSegment_eq_none.1 hcheck
        exact hlast l' ⟨by omega, hl'⟩ hlo
          ((segmentPages_iff (memorySize_lt image l') hhalf hlow).1 hpage)
      obtain ⟨run, hlanded⟩ := hloop.lands hs₀ h rfl (Nat.zero_le l)
        (by rw [Nat.zero_add]; exact hl.1) hl.2 hv hnot
      exact ⟨run, hlanded.later hkeeps (hkept v hout) heffect'.noExecute⟩
    · refine (hkept v hout).trans (heffect.kept v fun hq => ?_)
      obtain ⟨l, -, hhi, hl, -, hpage⟩ := hq.loopPages
      exact hnone l ⟨by omega, hl⟩ hpage
    · have hpage : LoopPages image size 0 (Elf.Header.read image).programHeaderCount
          (pageNumber v) :=
        ⟨l, Nat.zero_le l, by rw [Nat.zero_add]; exact hl.1, hl.2, hchecked l hl, hv⟩
      exact (hload.shows_given v ⟨hrunnable, Or.inl (hloop.loopWrites hs₀ h rfl hpage)⟩).1
    · have hsame := answers_congr heffect'.noExecute (hkept _ hout)
      exact (congrArg Answers.isExecutable hsame).trans hentry.2

end User

end X64HK
