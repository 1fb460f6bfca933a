import Mathlib.Logic.Relation
import X64HK.Memory.FrameReserved
import X64HK.Memory.PagingMap

/-!
# The page tables as a flat map

To its callers `Paging` is a map from pages to frames and rights.
`answers` collects the five questions that the interface answers for one
address, and `MapContract` is what one call of `Map` means for them: the
pages of the range get what was asked for, and every other page keeps its
answers.

The tables live in a machine where other parts of the kernel use the frame
allocator and write to memory as well.  `Step` is one move of that machine,
a call of `Map` or a move of the others.  They may do anything with their
own frames, but not write to the frames of the tables.

* `Reaches.owned`: the tree invariant holds in every state.
* `map_contract`: in such a state a call of `Map` keeps the contract.
* `map_refines_flat_map`: the two together.
-/

namespace X64HK.Paging

open X64HK.Frame (SIZE Run Tracks isTaken)
open Multiboot

/-! ## Answers -/

/-- What `Paging` says about one address. -/
structure Answers where
  translate : BitVec 64
  isWritable : Bool
  isExecutable : Bool
  isUserReadable : Bool
  isUserWritable : Bool
  deriving DecidableEq, Repr

def answers (s : State) (v : BitVec 64) : Answers where
  translate := translate s v
  isWritable := isWritable s v
  isExecutable := isExecutable s v
  isUserReadable := isUserReadable s v
  isUserWritable := isUserWritable s v

variable {v : BitVec 64} {s : State} {source flags : BitVec 64} {call : MapCall}

/-- The answers are read off the result of the walk. -/
theorem answers_congr {s' : State} (hsetup : s'.noExecuteAvailable = s.noExecuteAvailable)
    (heff : effective s' v = effective s v) : answers s' v = answers s v := by
  unfold answers translate isWritable isExecutable isUserReadable isUserWritable
  rw [heff, hsetup]

theorem isWritable_eq (s : State) (v : BitVec 64) : isWritable s v = (effective s v).getLsbD 1 :=
  decide_and_ne_zero (by decide) getLsbD_WRITABLE _

theorem isUserReadable_eq (s : State) (v : BitVec 64) :
    isUserReadable s v = (effective s v).getLsbD 2 :=
  decide_and_ne_zero (by decide) getLsbD_USER _

theorem isUserWritable_eq (s : State) (v : BitVec 64) :
    isUserWritable s v = ((effective s v).getLsbD 2 && (effective s v).getLsbD 1) := by
  rw [isUserWritable, decide_eq_decide.2 (and_USER_WRITABLE_eq _), Bool.decide_and,
    Bool.decide_eq_true, Bool.decide_eq_true]

theorem isExecutable_eq (s : State) (v : BitVec 64) :
    isExecutable s v = (decide (effective s v ≠ 0) &&
      (!s.noExecuteAvailable || !(effective s v).getLsbD 63)) := by
  unfold isExecutable
  simp only [and_NO_EXECUTE_eq_zero, Bool.decide_and, Bool.decide_or,
    Bool.decide_eq_true, Bool.decide_eq_false]

/-- The low bits of an entry are those of the flags. -/
theorem getLsbD_entry (hsource : source.toNat % PAGE_SIZE = 0) {j : Nat} (hj : j < 12) :
    (source ||| flags).getLsbD j = flags.getLsbD j := by
  rw [BitVec.getLsbD_or, getLsbD_of_aligned hsource hj, Bool.false_or]

theorem MapCall.flags_present (call : MapCall) (noExecute : Bool) :
    (call.flags noExecute).getLsbD 0 = true := by
  rw [MapCall.flags, getLsbD_flagsFor _ _ _ _ (by decide)]
  simp

theorem MapCall.flags_user (call : MapCall) (noExecute : Bool) :
    (call.flags noExecute).getLsbD 2 = decide (call.privilege = .user) := by
  rw [MapCall.flags, getLsbD_flagsFor _ _ _ _ (by decide)]
  simp

theorem MapCall.flags_writable (call : MapCall) (noExecute : Bool) :
    (call.flags noExecute).getLsbD 1 = decide (call.access = .readWrite) := by
  rw [MapCall.flags, getLsbD_flagsFor _ _ _ _ (by decide)]
  simp

theorem MapCall.flags_noExecute (call : MapCall) (noExecute : Bool) :
    (call.flags noExecute).getLsbD 63 = decide (call.access ≠ .readExecute ∧ noExecute = true) := by
  rw [MapCall.flags, getLsbD_flagsFor _ _ _ _ (by decide)]
  simp

/-- The address in an entry is its source. -/
theorem MapCall.entry_address (call : MapCall) (haligned : source.toNat % PAGE_SIZE = 0)
    (hlt : source.toNat < 2 ^ 52) (noExecute : Bool) :
    (source ||| call.flags noExecute) &&& ADDRESS_MASK = source := by
  have hflags : call.flags noExecute &&& ADDRESS_MASK = 0 := by
    refine BitVec.eq_of_getLsbD_eq fun j hj => ?_
    rw [BitVec.getLsbD_and, MapCall.flags, getLsbD_flagsFor _ _ _ _ hj, getLsbD_ADDRESS_MASK j hj]
    by_cases hin : 12 ≤ j ∧ j < 52
    · simp [show j ≠ 0 by omega, show j ≠ 1 by omega, show j ≠ 2 by omega,
        show j ≠ 4 by omega, show j ≠ 63 by omega]
    · simp [hin]
  rw [BitVec.and_or_distrib_right, hflags, and_ADDRESS_MASK_eq haligned hlt]
  exact BitVec.or_zero

/-- What `Effective` reports of an entry that `Map` wrote. -/
theorem granted_entry (source : BitVec 64) (hflags : flags.getLsbD 0 = true) :
    granted (source ||| flags) = (source ||| flags) &&& GRANT_MASK := by
  refine if_neg ?_
  rw [and_PRESENT_eq_zero, BitVec.getLsbD_or, hflags]
  simp

theorem getLsbD_granted (source : BitVec 64) (hflags : flags.getLsbD 0 = true) (j : Nat) :
    (granted (source ||| flags)).getLsbD j =
      ((source ||| flags).getLsbD j && GRANT_MASK.getLsbD j) := by
  rw [granted_entry source hflags, BitVec.getLsbD_and]

/-- What `Map` was asked to answer for an address of its range. -/
structure Requested (s : State) (call : MapCall) (v : BitVec 64) : Prop where
  /-- `InPhysical + (v - InVirtual)`. -/
  translate : (translate s v).toNat + call.virtual.toNat = call.physical.toNat + v.toNat
  isWritable : isWritable s v = decide (call.access = .readWrite)
  isExecutable : isExecutable s v = (!s.noExecuteAvailable || decide (call.access = .readExecute))
  isUserReadable : isUserReadable s v = decide (call.privilege = .user)
  isUserWritable : isUserWritable s v =
    (decide (call.privilege = .user) && decide (call.access = .readWrite))

theorem Requested.congr {s' : State} (h : Requested s call v)
    (hsetup : s'.noExecuteAvailable = s.noExecuteAvailable)
    (heff : effective s' v = effective s v) : Requested s' call v := by
  have hsame := answers_congr hsetup heff
  refine ⟨?_, ?_, ?_, ?_, ?_⟩
  · rw [show Paging.translate s' v = _ from congrArg Answers.translate hsame]
    exact h.translate
  · exact (congrArg Answers.isWritable hsame).trans h.isWritable
  · rw [hsetup]
    exact (congrArg Answers.isExecutable hsame).trans h.isExecutable
  · exact (congrArg Answers.isUserReadable hsame).trans h.isUserReadable
  · exact (congrArg Answers.isUserWritable hsame).trans h.isUserWritable

/-- The entry of a page that `Map` wrote gives what was asked for. -/
theorem requested_of_effective
    (heff : effective s v = granted (source ||| call.flags s.noExecuteAvailable))
    (haligned : source.toNat % PAGE_SIZE = 0) (hlt : source.toNat < 2 ^ 52)
    (hsource : source.toNat + v.toNat % PAGE_SIZE + call.virtual.toNat =
      call.physical.toNat + v.toNat) : Requested s call v := by
  have hpresent := call.flags_present s.noExecuteAvailable
  have hbit := getLsbD_granted source hpresent
  rw [← heff] at hbit
  have b0 : (effective s v).getLsbD 0 = true := by
    rw [hbit, getLsbD_entry haligned (by decide), hpresent, getLsbD_GRANT_MASK (by decide)]
    simp
  have b1 : (effective s v).getLsbD 1 = decide (call.access = .readWrite) := by
    rw [hbit, getLsbD_entry haligned (by decide), call.flags_writable,
      getLsbD_GRANT_MASK (by decide)]
    simp
  have b2 : (effective s v).getLsbD 2 = decide (call.privilege = .user) := by
    rw [hbit, getLsbD_entry haligned (by decide), call.flags_user, getLsbD_GRANT_MASK (by decide)]
    simp
  have b63 : (effective s v).getLsbD 63 =
      decide (call.access ≠ .readExecute ∧ s.noExecuteAvailable = true) := by
    rw [hbit, BitVec.getLsbD_or, getLsbD_of_lt hlt (by decide), call.flags_noExecute,
      getLsbD_GRANT_MASK (by decide)]
    simp
  have hmask : effective s v &&& ADDRESS_MASK = source := by
    rw [heff, granted_entry source hpresent, BitVec.and_assoc,
      show GRANT_MASK &&& ADDRESS_MASK = ADDRESS_MASK by decide]
    exact call.entry_address haligned hlt _
  have hne : effective s v ≠ 0 := by
    intro hzero
    rw [hzero] at b0
    exact absurd b0 (by simp)
  refine ⟨?_, ?_, ?_, ?_, ?_⟩
  · unfold Paging.translate
    rw [if_neg hne, hmask, toNat_or_offset haligned]
    exact hsource
  · rw [isWritable_eq, b1]
  · rw [isExecutable_eq, b63, decide_eq_true hne, Bool.true_and]
    cases s.noExecuteAvailable <;> cases call.access <;> rfl
  · rw [isUserReadable_eq, b2]
  · rw [isUserWritable_eq, b1, b2]

/-! ## The contract of one call -/

/-- An address that the CPU accepts. -/
def Canonical (v : BitVec 64) : Prop := v.toNat < 2 ^ 47 ∨ 2 ^ 64 - 2 ^ 47 ≤ v.toNat

/-- Canonical addresses with one page number are on one page. -/
theorem Canonical.page_eq {w : BitVec 64} (hv : Canonical v) (hw : Canonical w)
    (h : pageNumber v = pageNumber w) : v.toNat / PAGE_SIZE = w.toNat / PAGE_SIZE := by
  unfold Canonical at hv hw
  unfold pageNumber nodeOf at h
  rw [show PAGE_SIZE = 4096 from rfl]
  omega

theorem pageNumber_eq {w : BitVec 64} (h : v.toNat / PAGE_SIZE = w.toNat / PAGE_SIZE) :
    pageNumber v = pageNumber w := by
  unfold pageNumber nodeOf
  rw [show PAGE_SIZE = 4096 from rfl] at h
  omega

/-- The pages that `Map` is to write: from the page of `InVirtual` to the
last one that begins below the end of the range. -/
def MapCall.Touches (call : MapCall) (v : BitVec 64) : Prop :=
  call.virtual.toNat / PAGE_SIZE ≤ v.toNat / PAGE_SIZE ∧
    v.toNat / PAGE_SIZE * PAGE_SIZE < call.virtual.toNat + call.size.toNat

instance (call : MapCall) (v : BitVec 64) : Decidable (call.Touches v) :=
  inferInstanceAs (Decidable (_ ∧ _))

/-- The ranges that callers may ask for. -/
structure MapCall.Admissible (call : MapCall) : Prop where
  offset : call.physical.toNat % PAGE_SIZE = call.virtual.toNat % PAGE_SIZE
  physical_le : call.physical.toNat + call.size.toNat ≤ 2 ^ 52
  stop_le : call.virtual.toNat + call.size.toNat ≤ 2 ^ 64 - PAGE_SIZE
  canonical : call.virtual.toNat + call.size.toNat ≤ 2 ^ 47 ∨ 2 ^ 64 - 2 ^ 47 ≤ call.virtual.toNat

instance (call : MapCall) : Decidable call.Admissible :=
  decidable_of_iff
    (call.physical.toNat % PAGE_SIZE = call.virtual.toNat % PAGE_SIZE ∧
      call.physical.toNat + call.size.toNat ≤ 2 ^ 52 ∧
      call.virtual.toNat + call.size.toNat ≤ 2 ^ 64 - PAGE_SIZE ∧
      (call.virtual.toNat + call.size.toNat ≤ 2 ^ 47 ∨ 2 ^ 64 - 2 ^ 47 ≤ call.virtual.toNat))
    ⟨fun ⟨h₁, h₂, h₃, h₄⟩ => ⟨h₁, h₂, h₃, h₄⟩, fun h => ⟨h.1, h.2, h.3, h.4⟩⟩

/-- What a call of `Map` means to its caller.  It returns, it gives the
pages of the range what was asked for when it answers `true`, and it never
changes an answer for another page. -/
def MapContract (s : State) (call : MapCall) : Prop :=
  ∃ mapped s', map s call = .ok (mapped, s') ∧
    (mapped = true → ∀ v, Canonical v → call.Touches v → Requested s' call v) ∧
    ∀ v, Canonical v → ¬call.Touches v → answers s' v = answers s v

/-- A page of a range whose offsets agree is backed by memory of the
range. -/
private theorem source_lt {v p z k : Nat} (hoff : p % PAGE_SIZE = v % PAGE_SIZE)
    (hphys : p + z ≤ 2 ^ 52) (hlt : v / PAGE_SIZE * PAGE_SIZE + k * PAGE_SIZE < v + z) :
    p / PAGE_SIZE * PAGE_SIZE + k * PAGE_SIZE < 2 ^ 52 := by
  have hp := Nat.div_add_mod' p PAGE_SIZE
  have hv := Nat.div_add_mod' v PAGE_SIZE
  omega

/-- The offset of an address in the range is its offset in the physical
range. -/
private theorem source_offset {v p w k : Nat} (hoff : p % PAGE_SIZE = v % PAGE_SIZE)
    (hk : w / PAGE_SIZE = v / PAGE_SIZE + k) :
    p / PAGE_SIZE * PAGE_SIZE + k * PAGE_SIZE + w % PAGE_SIZE + v = p + w := by
  have hp := Nat.div_add_mod' p PAGE_SIZE
  have hv := Nat.div_add_mod' v PAGE_SIZE
  have hw := Nat.div_add_mod' w PAGE_SIZE
  rw [hk, Nat.add_mul] at hw
  omega

theorem MapCall.Admissible.toNat_stop (hcall : call.Admissible) :
    call.stop.toNat = call.virtual.toNat + call.size.toNat := by
  have hle := hcall.stop_le
  have hsize : PAGE_SIZE = 4096 := rfl
  rw [MapCall.stop, BitVec.toNat_add]
  exact Nat.mod_eq_of_lt (by omega)

section

variable {s₀ : Frame.State} {s' : State} {t t' : Tree} {tables tables' others : List Run}
  {mapped : Bool} {n : Nat}

section

variable (hm : Mapped s₀ s t others (call.flags s.noExecuteAvailable) call.stop call.firstPage
  call.source (mapped, s') n t' tables')
include hm

/-- The pages that the loop of `Map` visits in an admissible range. -/
theorem Mapped.pages (hcall : call.Admissible) :
    (∀ k ≤ n, (pagesAbove call.firstPage k).toNat =
      call.virtual.toNat / PAGE_SIZE * PAGE_SIZE + k * PAGE_SIZE) ∧
    (∀ k < n, call.virtual.toNat / PAGE_SIZE * PAGE_SIZE + k * PAGE_SIZE <
      call.virtual.toNat + call.size.toNat) ∧
    ∀ k < n, Canonical (pagesAbove call.firstPage k) := by
  have hsize : PAGE_SIZE = 4096 := rfl
  have hle := hcall.stop_le
  have hstop := hcall.toNat_stop
  have hpage : ∀ k ≤ n, (pagesAbove call.firstPage k).toNat =
      call.virtual.toNat / PAGE_SIZE * PAGE_SIZE + k * PAGE_SIZE := by
    intro k hk
    rw [toNat_pagesAbove (hm.page_lt (by omega) k hk), call.toNat_firstPage]
  have hbelow : ∀ k < n, call.virtual.toNat / PAGE_SIZE * PAGE_SIZE + k * PAGE_SIZE <
      call.virtual.toNat + call.size.toNat := by
    intro k hk
    have hk' := hm.below k hk
    rwa [BitVec.lt_def, hpage k (by omega), hstop] at hk'
  refine ⟨hpage, hbelow, fun k hk => ?_⟩
  have hlt := hbelow k hk
  have hrange := hcall.canonical
  unfold Canonical
  rw [hpage k (by omega)]
  rw [hsize] at hlt ⊢
  omega

/-- `Map` leaves the pages that its loop does not visit alone. -/
theorem Mapped.effective_eq (h : Owned s₀ s t tables others)
    (hv : ∀ k < n, pageNumber (pagesAbove call.firstPage k) ≠ pageNumber v) :
    effective s' v = effective s v := by
  rw [hm.owned.rep.effective v, h.rep.effective v, hm.leaf, mapPages_of_ne _ hv]

theorem Mapped.effective_of_untouched (h : Owned s₀ s t tables others) (hcall : call.Admissible)
    (hv : Canonical v) (htouch : ¬call.Touches v) : effective s' v = effective s v := by
  obtain ⟨hpage, hbelow, hcanon⟩ := hm.pages hcall
  refine hm.effective_eq h fun k hk hsame => htouch ?_
  have heq := (hcanon k hk).page_eq hv hsame
  have hlt := hbelow k hk
  rw [hpage k (by omega)] at heq
  unfold MapCall.Touches
  rw [← heq]
  rw [show PAGE_SIZE = 4096 from rfl] at *
  omega

end

theorem map_contract (hs₀ : Addressable s₀) (h : Owned s₀ s t tables others)
    (hcall : call.Admissible) : MapContract s call := by
  have hsize : PAGE_SIZE = 4096 := rfl
  obtain ⟨⟨mapped, s'⟩, hmap⟩ := map_ok s hcall.stop_le
  obtain ⟨n, t', tables', hm⟩ := map_spec hs₀ h hmap
  have hstop := hcall.toNat_stop
  obtain ⟨hpage, hbelow, hcanon⟩ := hm.pages hcall
  refine ⟨mapped, s', hmap, ?_, ?_⟩
  · intro hok v hv htouch
    have hend := hm.complete hok
    rw [BitVec.lt_def, hpage n (Nat.le_refl n), hstop] at hend
    obtain ⟨hlo, hhi⟩ := htouch
    obtain ⟨k, hk⟩ : ∃ k, v.toNat / PAGE_SIZE = call.virtual.toNat / PAGE_SIZE + k :=
      ⟨_, (Nat.add_sub_cancel' hlo).symm⟩
    have hkn : k < n := by
      rw [hk, hsize] at hhi
      rw [hsize] at hend
      omega
    have hnum : pageNumber v = pageNumber (pagesAbove call.firstPage k) := by
      refine pageNumber_eq ?_
      rw [hpage k (by omega), hk, hsize]
      omega
    have hleaf : t'.leaf (pageNumber v) = pagesAbove call.source k |||
        call.flags s.noExecuteAvailable := by
      rw [hm.leaf, hnum]
      refine mapPages_at _ hkn fun j hj hkj hsame => ?_
      have heq := (hcanon j hj).page_eq (hcanon k hkn) hsame
      rw [hpage j (by omega), hpage k (by omega), hsize] at heq
      omega
    have hlt := source_lt hcall.offset hcall.physical_le (hbelow k hkn)
    have hsource : (pagesAbove call.source k).toNat =
        call.physical.toNat / PAGE_SIZE * PAGE_SIZE + k * PAGE_SIZE := by
      rw [toNat_pagesAbove, call.toNat_source]
      rw [call.toNat_source]
      exact Nat.lt_trans hlt (by decide)
    have heffective : effective s' v = granted (pagesAbove call.source k |||
        call.flags s'.noExecuteAvailable) := by
      rw [hm.owned.rep.effective v, hleaf, hm.setup.noExecuteAvailable]
    refine requested_of_effective heffective ?_ ?_ ?_
    · rw [hsource, ← Nat.add_mul]
      exact Nat.mul_mod_left _ _
    · rw [hsource]
      exact hlt
    · rw [hsource]
      exact source_offset hcall.offset hk
  · intro v hv htouch
    exact answers_congr hm.setup.noExecuteAvailable (hm.effective_of_untouched h hcall hv htouch)

end

/-! ## The machine around the tables -/

/-- Every available region ends below 2^52, the largest physical address of
the architecture. -/
def PhysicallyAddressable (boot : Handover) : Prop :=
  ∀ region ∈ Frame.availableRegions boot, region.stop ≤ 2 ^ 52

instance (boot : Handover) : Decidable (PhysicallyAddressable boot) :=
  inferInstanceAs (Decidable (∀ _ ∈ _, _))

variable {s₀ : Frame.State}

theorem addressable_of_boot {boot : Handover} {location : Nat}
    (hinit : Frame.initializeState boot = .ok (s₀, location))
    (hphys : PhysicallyAddressable boot) : Addressable s₀ := by
  have hboot := Frame.initialized_of_ok hinit
  refine ⟨hboot.isTaken_zero, ?_⟩
  rw [hboot.frameCount]
  exact Frame.initialFrameCount_le_of_available hphys

/-- The root that `Initialize` builds has no entries. -/
theorem createRoot_owned {boot : Handover} {memory : ByteMemory} (hwf : Frame.Wf s₀)
    (hs₀ : Addressable s₀) (h : createRoot boot memory s₀ = .ok s) :
    ∃ t tables, Owned s₀ s t tables [] ∧ (∀ q, t.leaf q = 0) ∧
      s.noExecuteAvailable = boot.noExecute := by
  unfold createRoot at h
  have hstart : Tracks s₀ (⟨memory, s₀, 0, boot.noExecute, 0, 0⟩ : State).frames ([] ++ []) :=
    Tracks.refl hwf
  rcases allocateTable_cases hs₀ hstart with
    heq | ⟨run, g, frames, heq, hne, hlt, hholds, -, -, -, htr⟩
  · rw [heq] at h
    exact absurd h nofun
  · rw [heq] at h
    simp only [if_neg hne] at h
    obtain rfl := Except.ok.inj h
    refine ⟨Tree.empty g, [run], ⟨?_, htr, ?_⟩, fun _ => rfl, rfl⟩
    · refine Represents.empty hlt fun j hj => ?_
      refine ByteMemory.read64_fill_zero (by omega) ?_
      rw [show PAGE_SIZE = 4096 from rfl]
      omega
    · intro d n f hf
      by_cases hroot : d = 0 ∧ n = 0
      · have hfg : some g = some f := (if_pos hroot).symm.trans hf
        exact ⟨run, List.mem_singleton.2 rfl, Option.some.inj hfg ▸ hholds⟩
      · exact absurd ((if_neg hroot).symm.trans hf) nofun

/-- The page tables, and the runs of frames that other parts of the kernel
hold. -/
structure System where
  paging : State
  others : List Run

/-- A frame that the allocator handed out and that nobody but the page
tables holds. -/
def System.HeldByTables (s₀ : Frame.State) (sys : System) (f : Nat) : Prop :=
  isTaken s₀ f = false ∧ isTaken sys.paging.frames f = true ∧ ∀ run ∈ sys.others, ¬run.Holds f

inductive Step (s₀ : Frame.State) : System → System → Prop where
  /-- Any call of `Map`, with any result. -/
  | map {sys : System} {call : MapCall} {mapped : Bool} {s' : State}
      (h : map sys.paging call = .ok (mapped, s')) :
      Step s₀ sys ⟨s', sys.others⟩
  /-- Others ask the frame allocator for frames or give theirs back. -/
  | frames {sys : System} {request : Frame.Request} {result : Frame.System}
      (h : Frame.serve ⟨sys.paging.frames, sys.others⟩ request = .ok result) :
      Step s₀ sys ⟨{ sys.paging with frames := result.frames }, result.live⟩
  /-- Others write to memory, but not to the tables. -/
  | write {sys : System} {memory : ByteMemory}
      (h : ∀ a, sys.HeldByTables s₀ (a / SIZE) → memory a = sys.paging.memory a) :
      Step s₀ sys ⟨{ sys.paging with memory := memory }, sys.others⟩

/-- Every step keeps the tables a tree. -/
theorem Step.owned (hs₀ : Addressable s₀) {sys sys' : System} (hstep : Step s₀ sys sys')
    {t : Tree} {tables : List Run} (h : Owned s₀ sys.paging t tables sys.others) :
    ∃ t' tables', Owned s₀ sys'.paging t' tables' sys'.others := by
  cases hstep with
  | map hmap =>
    obtain ⟨n, t', tables', hm⟩ := map_spec hs₀ h hmap
    exact ⟨t', tables', hm.owned⟩
  | @frames request _ hserve =>
    obtain ⟨result, hok, htr⟩ := Frame.serve_ok
      (show Tracks s₀ (⟨sys.paging.frames, sys.others⟩ : Frame.System).frames
        (tables ++ sys.others) from h.tracks) hs₀.zero_taken request
    obtain rfl := Except.ok.inj (hok.symm.trans hserve)
    exact ⟨t, tables, h.rep, htr, h.held⟩
  | write hwrite =>
    refine ⟨t, tables, h.rep.congr fun d n f hf a hlo hhi => hwrite a ?_, h.tracks, h.held⟩
    have hframe : a / SIZE = f := by
      rw [show SIZE = 4096 from rfl] at *
      omega
    obtain ⟨run, hmem, hholds⟩ := h.held hf
    have hlegal := h.tracks.legal run (List.mem_append_left _ hmem)
    rw [hframe]
    refine ⟨hlegal.allocatable f hholds, ?_, fun other hother hf' => ?_⟩
    · rw [h.tracks.isTaken_eq f, Bool.or_eq_true, List.any_eq_true]
      exact Or.inr ⟨run, List.mem_append_left _ hmem, decide_eq_true hholds⟩
    · exact (List.pairwise_append.1 h.tracks.disjoint).2.2 run hmem other hother f
        ⟨hholds, hf'⟩

theorem Reaches.owned (hs₀ : Addressable s₀) {sys sys' : System}
    (hrun : Relation.ReflTransGen (Step s₀) sys sys') {t : Tree} {tables : List Run}
    (h : Owned s₀ sys.paging t tables sys.others) :
    ∃ t' tables', Owned s₀ sys'.paging t' tables' sys'.others := by
  induction hrun with
  | refl => exact ⟨t, tables, h⟩
  | tail _ hstep ih =>
    obtain ⟨t', tables', h'⟩ := ih
    exact hstep.owned hs₀ h'

/-- From the empty root on, after any run of calls of `Map` and of moves of
the others, an admissible call of `Map` keeps its contract. -/
theorem map_refines_flat_map {boot : Handover} {s₀ : Frame.State} {location : Nat}
    (hinit : Frame.initializeState boot = .ok (s₀, location))
    (hphys : PhysicallyAddressable boot) {memory : ByteMemory} {s : State}
    (hroot : createRoot boot memory s₀ = .ok s) {sys : System}
    (hrun : Relation.ReflTransGen (Step s₀) ⟨s, []⟩ sys) {call : MapCall}
    (hcall : call.Admissible) : MapContract sys.paging call := by
  have hs₀ := addressable_of_boot hinit hphys
  obtain ⟨t, tables, hstart, -⟩ :=
    createRoot_owned (Frame.initialized_of_ok hinit).wf hs₀ hroot
  obtain ⟨t', tables', h⟩ := Reaches.owned hs₀ hrun hstart
  exact map_contract hs₀ h hcall

/-- Two pages of user code. -/
def codeCall : MapCall := ⟨0x400000, 0x130000, 0x1800, .readExecute, .user, .normal⟩

/-- The pages on the small machine, then a run of frames for somebody else, and then data in
the place of the second page. -/
theorem map_refines_flat_map_remap :
    ∃ s s' result, createRoot Frame.smallHandover (fun _ => 0) Frame.smallFrames = .ok s ∧
      map s codeCall = .ok (true, s') ∧
      Frame.serve ⟨s'.frames, []⟩ (.allocate 2) = .ok result ∧ result.live.length = 1 ∧
      MapContract { s' with frames := result.frames }
        ⟨0x401000, 0x134000, 0x1000, .readWrite, .user, .normal⟩ := by
  have hrun : ((do
      let s ← createRoot Frame.smallHandover (fun _ => 0) Frame.smallFrames
      let r ← map s codeCall
      let result ← Frame.serve ⟨r.2.frames, []⟩ (.allocate 2)
      return (r.1, result.live.length)) : Outcome (Bool × Nat)) = .ok (true, 1) := by
    decide +kernel
  obtain ⟨s, hroot, hrun⟩ := (bind_ok_iff _ _ _).1 hrun
  obtain ⟨⟨mapped, s'⟩, hmap, hrun⟩ := (bind_ok_iff _ _ _).1 hrun
  obtain ⟨result, hserve, hrun⟩ := (bind_ok_iff _ _ _).1 hrun
  obtain ⟨rfl, hlive⟩ := Prod.mk.inj (Except.ok.inj hrun)
  have hreaches : Relation.ReflTransGen (Step Frame.smallFrames) ⟨s, []⟩
      ⟨{ s' with frames := result.frames }, result.live⟩ :=
    (Relation.ReflTransGen.single (.map hmap)).tail (.frames hserve)
  exact ⟨s, s', result, hroot, hmap, hserve, hlive,
    map_refines_flat_map Frame.initializeState_small (by decide) hroot hreaches
      ⟨by decide, by decide, by decide, by decide⟩⟩

/-- A range without a byte, at an address inside a page. -/
def emptyCall : MapCall := ⟨0x1800, 0x5800, 0, .readOnly, .user, .normal⟩

/-- `Map` maps a page for it all the same. -/
theorem map_of_empty_range :
    emptyCall.Admissible ∧
      (∀ a, ¬(emptyCall.virtual.toNat ≤ a ∧ a < emptyCall.virtual.toNat + emptyCall.size.toNat)) ∧
      ∃ s s', createRoot Frame.smallHandover (fun _ => 0) Frame.smallFrames = .ok s ∧
        map s emptyCall = .ok (true, s') ∧
        answers s 0x1004 = ⟨0, false, false, false, false⟩ ∧
        answers s' 0x1004 = ⟨0x5004, false, false, true, false⟩ := by
  refine ⟨⟨by decide, by decide, by decide, by decide⟩, ?_, ?_⟩
  · intro a
    have hsize : emptyCall.size.toNat = 0 := rfl
    omega
  have hrun : (do
      let s ← createRoot Frame.smallHandover (fun _ => 0) Frame.smallFrames
      let r ← map s emptyCall
      return (r.1, answers s 0x1004, answers r.2 0x1004)) =
        (.ok (true, ⟨0, false, false, false, false⟩,
          ⟨0x5004, false, false, true, false⟩) : Outcome _) := by
    decide +kernel
  obtain ⟨s, hroot, hrun⟩ := (bind_ok_iff _ _ _).1 hrun
  obtain ⟨⟨mapped, s'⟩, hmap, hrun⟩ := (bind_ok_iff _ _ _).1 hrun
  obtain ⟨rfl, hbefore, hafter⟩ : mapped = true ∧ _ ∧ _ := by
    simpa only [pure, Except.pure, Except.ok.injEq, Prod.mk.injEq] using hrun
  exact ⟨s, s', hroot, hmap, hbefore, hafter⟩

end X64HK.Paging
