import Mathlib.Algebra.GroupWithZero.Nat
import Mathlib.Algebra.BigOperators.Group.List.Basic
import Mathlib.Data.List.Perm.Basic
import X64HK.Memory.FrameLemmas

/-!
# The frame allocator over whole runs

A `System` is the allocator together with the runs of frames its clients
hold.  A client asks for a run, gives one back, or moves the reachable
limit.  `serve` is one request and `serveAll` is a sequence of them.

`Tracks s₀ s live` is the invariant that carries every result: a frame is
taken exactly when it was taken after `Initialize` or a live run holds it,
and no two live runs share a frame.

* `Tracks.allocate` and `Tracks.free` are the two steps that move frames
  between the bitmap and the clients.
* `serve_ok` says that no request raises an assertion, and
  `serveAll_tracks` that the invariant holds after every sequence.
* `Tracks.exists_run_holding` says that every free frame is handed out by
  some sequence.
* `frames_run_invariant` reads the properties of the allocator off the
  invariant.
* `allocate_complete`: in every state that a sequence of requests leads to,
  `Allocate` fails only when there is no run of that many frames.
-/

namespace X64HK.Frame

open Multiboot

/-- A run of frames that `Allocate` handed out, with the number of
reachable frames at that time. -/
structure Run where
  address : Nat
  count : Nat
  limit : Nat
  deriving DecidableEq, Repr

/-- The index of the first frame of a run. -/
def Run.first (run : Run) : Nat := run.address / SIZE

/-- Frame `j` belongs to the run. -/
def Run.Holds (run : Run) (j : Nat) : Prop :=
  run.first ≤ j ∧ j < run.first + run.count

instance (run : Run) (j : Nat) : Decidable (run.Holds j) :=
  inferInstanceAs (Decidable (_ ∧ _))

/-- The allocator and the runs that were handed out and not given back. -/
structure System where
  frames : State
  live : List Run

/-- What clients ask for. -/
inductive Request where
  | allocate (count : Nat)
  /-- Give back the live run at this position. -/
  | free (index : Nat)
  /-- Give back what an `Allocate` that found nothing returned. -/
  | freeNothing (count : Nat)
  | setReachableLimit (limit : Nat)
  deriving DecidableEq, Repr

def serve (sys : System) : Request → Outcome System
  | .allocate count =>
    let result := allocate sys.frames count
    .ok ⟨result.2,
      if result.1 = 0 then sys.live
      else ⟨result.1, count, sys.frames.reachableFrames⟩ :: sys.live⟩
  | .free index =>
    match sys.live[index]? with
    | none => .ok sys
    | some run => do
      let frames ← free sys.frames run.address run.count
      return ⟨frames, sys.live.eraseIdx index⟩
  | .freeNothing count => do
    let frames ← free sys.frames 0 count
    return ⟨frames, sys.live⟩
  | .setReachableLimit limit =>
    .ok ⟨setReachableLimit sys.frames limit, sys.live⟩

def serveAll (sys : System) (requests : List Request) : Outcome System :=
  requests.foldlM serve sys

/-! ## The invariant -/

/-- A run that the allocator in state `s₀` could hand out. -/
structure Legal (s₀ : State) (run : Run) : Prop where
  aligned : run.address = run.first * SIZE
  count_pos : 0 < run.count
  below_limit : run.first + run.count ≤ run.limit
  limit_le : run.limit ≤ s₀.frameCount
  allocatable : ∀ j, run.Holds j → isTaken s₀ j = false

structure Tracks (s₀ s : State) (live : List Run) : Prop where
  wf : Wf s
  frameCount : s.frameCount = s₀.frameCount
  length : s.taken.length = s₀.taken.length
  isTaken_eq : ∀ j, isTaken s j = (isTaken s₀ j || live.any fun run => decide (run.Holds j))
  disjoint : live.Pairwise fun a b => ∀ j, ¬(a.Holds j ∧ b.Holds j)
  legal : ∀ run ∈ live, Legal s₀ run
  counted : s.freeFrames + (live.map Run.count).sum = s₀.freeFrames

variable {s₀ s : State} {live : List Run}

theorem Tracks.refl (h : Wf s₀) : Tracks s₀ s₀ [] where
  wf := h
  frameCount := rfl
  length := rfl
  isTaken_eq := fun j => by simp
  disjoint := List.Pairwise.nil
  legal := nofun
  counted := rfl

theorem Tracks.setReachableLimit (h : Tracks s₀ s live) (limit : Nat) :
    Tracks s₀ (Frame.setReachableLimit s limit) live where
  wf := setReachableLimit_wf h.wf limit
  frameCount := h.frameCount
  length := h.length
  isTaken_eq := h.isTaken_eq
  disjoint := h.disjoint
  legal := h.legal
  counted := h.counted

theorem Run.first_mul_SIZE (first count limit : Nat) :
    Run.first ⟨first * SIZE, count, limit⟩ = first :=
  Nat.mul_div_cancel first (by decide)

/-- The bytes of a frame outside of a run. -/
theorem Run.outside {run : Run} (haligned : run.address = run.first * SIZE) {f : Nat}
    (hf : ¬run.Holds f) :
    f * SIZE + SIZE ≤ run.address ∨ run.address + run.count * SIZE ≤ f * SIZE := by
  rw [haligned, ← Nat.add_mul, ← Nat.add_one_mul]
  unfold Run.Holds at hf
  rcases Nat.lt_or_ge f run.first with hlt | hge
  · exact Or.inl (Nat.mul_le_mul_right _ hlt)
  · exact Or.inr (Nat.mul_le_mul_right _ (by omega))

/-- A frame that is clear was allocatable and no live run holds it. -/
theorem Tracks.of_clear (h : Tracks s₀ s live) {j : Nat} (hj : isTaken s j = false) :
    isTaken s₀ j = false ∧ ∀ run ∈ live, ¬run.Holds j := by
  rw [h.isTaken_eq j, Bool.or_eq_false_iff, List.any_eq_false] at hj
  exact ⟨hj.1, fun run hrun => by simpa using hj.2 run hrun⟩

/-- `Allocate` answers zero and changes nothing, or hands out a new run
that is legal and shares no frame with a live one. -/
theorem Tracks.allocate (h : Tracks s₀ s live) (hzero : isTaken s₀ 0 = true) (count : Nat) :
    Frame.allocate s count = (0, s) ∨
      ∃ run s', Frame.allocate s count = (run.address, s') ∧ run.address ≠ 0 ∧
        run.count = count ∧ run.limit = s.reachableFrames ∧
        Tracks s₀ s' (run :: live) := by
  rcases allocate_cases s count with hnone | ⟨first, hcount, hend, hclear, heq⟩
  · exact Or.inl hnone
  have hle : first + count ≤ s.frameCount := Nat.le_trans hend h.wf.reachable_le
  have hfirst : first ≠ 0 := by
    rintro rfl
    have h0 := (h.of_clear (hclear 0 (Nat.le_refl 0) (by omega))).1
    rw [hzero] at h0
    exact Bool.noConfusion h0
  obtain ⟨hwf, hfree⟩ := allocated_wf h.wf hle hclear
  have hholds : ∀ j, Run.Holds ⟨first * SIZE, count, s.reachableFrames⟩ j ↔
      first ≤ j ∧ j < first + count := by
    intro j
    unfold Run.Holds
    rw [Run.first_mul_SIZE]
  refine Or.inr ⟨⟨first * SIZE, count, s.reachableFrames⟩,
    allocated s first count, heq, Nat.mul_ne_zero hfirst (by decide), rfl, rfl,
    hwf, ?_, ?_, ?_, ?_, ?_, ?_⟩
  · rw [← h.frameCount]
    simp [allocated, takeRun_eq]
  · rw [← h.length]
    simp [allocated, takeRun_eq]
  · intro j
    rw [isTaken_allocated h.wf hle, h.isTaken_eq j, List.any_cons,
      decide_eq_decide.2 (hholds j), Bool.or_left_comm]
  · refine List.pairwise_cons.2 ⟨?_, h.disjoint⟩
    intro run hrun j hj
    have hj' := (hholds j).1 hj.1
    exact (h.of_clear (hclear j hj'.1 hj'.2)).2 run hrun hj.2
  · intro run hrun
    rcases List.mem_cons.1 hrun with rfl | hrun
    · refine ⟨?_, hcount, ?_, ?_, ?_⟩
      · rw [Run.first_mul_SIZE]
      · rw [Run.first_mul_SIZE]
        exact hend
      · exact Nat.le_trans h.wf.reachable_le (Nat.le_of_eq h.frameCount)
      · intro j hj
        have hj' := (hholds j).1 hj
        exact (h.of_clear (hclear j hj'.1 hj'.2)).1
    · exact h.legal run hrun
  · have hcounted := h.counted
    rw [List.map_cons, List.sum_cons]
    change (allocated s first count).freeFrames + (count + _) = _
    omega

/-- The order of the live runs does not matter. -/
theorem Tracks.perm (h : Tracks s₀ s live) {live' : List Run}
    (hp : live.Perm live') : Tracks s₀ s live' where
  wf := h.wf
  frameCount := h.frameCount
  length := h.length
  isTaken_eq := fun j => by rw [h.isTaken_eq j, hp.any_eq]
  disjoint := (hp.pairwise_iff fun hab j hj => hab j hj.symm).1 h.disjoint
  legal := fun run hrun => h.legal run (hp.mem_iff.2 hrun)
  counted := by rw [← h.counted, (hp.map Run.count).sum_eq]

/-- `Free` of a live run raises no assertion and gives exactly its frames
back. -/
theorem Tracks.free {run : Run} (h : Tracks s₀ s (run :: live)) (hzero : isTaken s₀ 0 = true) :
    ∃ s', Frame.free s run.address run.count = .ok s' ∧ Tracks s₀ s' live := by
  have hrun := h.legal run (List.mem_cons_self ..)
  have hle : run.first + run.count ≤ s.frameCount := by
    rw [h.frameCount]
    exact Nat.le_trans hrun.below_limit hrun.limit_le
  have hset : ∀ j, run.first ≤ j → j < run.first + run.count → isTaken s j = true := by
    intro j h1 h2
    have hj : run.Holds j := ⟨h1, h2⟩
    rw [h.isTaken_eq j, List.any_cons, decide_eq_true hj]
    simp
  have hfirst : run.first ≠ 0 := by
    intro h0
    have hclear := hrun.allocatable 0 ⟨by omega, by have := hrun.count_pos; omega⟩
    rw [hzero] at hclear
    exact Bool.noConfusion hclear
  obtain ⟨hdisjoint, hrest⟩ := List.pairwise_cons.1 h.disjoint
  refine ⟨freed s run.first run.count, ?_, freed_wf h.wf hle hset, h.frameCount,
    ?_, ?_, hrest, fun r hr => h.legal r (List.mem_cons_of_mem _ hr), ?_⟩
  · rw [hrun.aligned]
    exact free_spec h.wf hfirst hrun.count_pos hle hset
  · rw [← h.length]
    exact Bitmap.length_unmarkRun _ _ _
  · -- Inside the run the bit is clear in `s₀` and no other run holds it.
    intro j
    have hbit : isTaken (freed s run.first run.count) j =
        (decide (¬run.Holds j) && isTaken s j) := isTaken_freed h.wf hle j
    rw [hbit, h.isTaken_eq j, List.any_cons]
    by_cases hj : run.Holds j
    · have hothers : (live.any fun r => decide (r.Holds j)) = false := by
        refine List.any_eq_false.2 fun r hr => ?_
        simpa using fun hrj => hdisjoint r hr j ⟨hj, hrj⟩
      rw [hrun.allocatable j hj, hothers, decide_eq_false (not_not.2 hj)]
      rfl
    · rw [decide_eq_true hj, decide_eq_false hj]
      simp
  · have hcounted := h.counted
    rw [List.map_cons, List.sum_cons] at hcounted
    change s.freeFrames + run.count + _ = _
    omega

/-! ## Requests -/

/-- No request raises an assertion, and every request keeps the invariant.
The runs `held` belong to somebody who does not take part. -/
theorem serve_ok {sys : System} {held : List Run} (h : Tracks s₀ sys.frames (held ++ sys.live))
    (hzero : isTaken s₀ 0 = true) (request : Request) :
    ∃ sys', serve sys request = .ok sys' ∧ Tracks s₀ sys'.frames (held ++ sys'.live) := by
  cases request with
  | allocate count =>
    refine ⟨_, rfl, ?_⟩
    rcases h.allocate hzero count with hnone | ⟨run, s', heq, hne, rfl, hlim, htr⟩
    · simpa [hnone] using h
    · simp only [heq, if_neg hne, ← hlim]
      exact htr.perm List.perm_middle.symm
  | free index =>
    simp only [serve]
    split
    · exact ⟨sys, rfl, h⟩
    · rename_i run hget
      obtain ⟨hindex, rfl⟩ := List.getElem?_eq_some_iff.1 hget
      have hperm : (held ++ sys.live).Perm (sys.live[index] :: (held ++ sys.live.eraseIdx index)) :=
        ((List.getElem_cons_eraseIdx_perm hindex).symm.append_left held).trans List.perm_middle
      obtain ⟨s', hfree, htr⟩ := (h.perm hperm).free hzero
      exact ⟨⟨s', _⟩, by rw [hfree]; rfl, htr⟩
  | freeNothing count =>
    exact ⟨sys, rfl, h⟩
  | setReachableLimit limit =>
    exact ⟨_, rfl, h.setReachableLimit limit⟩

theorem serveAll_tracks {sys : System} (h : Tracks s₀ sys.frames sys.live)
    (hzero : isTaken s₀ 0 = true) (requests : List Request) :
    ∃ sys', serveAll sys requests = .ok sys' ∧ Tracks s₀ sys'.frames sys'.live := by
  induction requests generalizing sys with
  | nil => exact ⟨sys, rfl, h⟩
  | cons request requests ih =>
    obtain ⟨sys₁, hserve, htr⟩ :=
      serve_ok (show Tracks s₀ sys.frames ([] ++ sys.live) from h) hzero request
    obtain ⟨sys₂, hall, htr₂⟩ := ih htr
    refine ⟨sys₂, ?_, htr₂⟩
    rw [serveAll, List.foldlM_cons, hserve]
    exact hall

/-! ## Every free frame is handed out by some run -/

/-- `Allocate` answers zero for want of a run alone, because frame zero is
never part of one. -/
theorem allocate_eq_zero_iff (hzero : isTaken s 0 = true) {count : Nat} (hcount : 0 < count) :
    (allocate s count).1 = 0 ↔ ¬∃ first, FreeRun s first count := by
  rw [← findFirst_eq_none_iff hcount]
  unfold allocate
  rw [if_neg (Nat.ne_of_gt hcount)]
  split
  · rename_i hnone
    exact iff_of_true rfl hnone
  · rename_i first hfirst
    obtain ⟨-, hbits⟩ := findFirst_some hcount hfirst
    refine iff_of_false ?_ (by rw [hfirst]; exact nofun)
    refine Nat.mul_ne_zero ?_ (by decide)
    rintro rfl
    exact absurd (hzero.symm.trans (hbits 0 (Nat.le_refl 0) (by omega))) nofun

/-- Frames were taken and none was given back. -/
structure Depletes (s s' : State) : Prop where
  taken : ∀ j, isTaken s j = true → isTaken s' j = true
  reachable : s'.reachableFrames = s.reachableFrames

theorem Depletes.refl (s : State) : Depletes s s := ⟨fun _ => id, rfl⟩

theorem Depletes.trans {s s' s'' : State} (h : Depletes s s') (h' : Depletes s' s'') :
    Depletes s s'' :=
  ⟨fun j hj => h'.taken j (h.taken j hj), h'.reachable.trans h.reachable⟩

/-- What `Allocate` could not find, it does not find later. -/
theorem Depletes.allocate_eq_zero {s s' : State} (h : Depletes s s') (hzero : isTaken s 0 = true)
    {count : Nat} (hcount : 0 < count) (hnone : (allocate s count).1 = 0) :
    (allocate s' count).1 = 0 := by
  rw [allocate_eq_zero_iff hzero hcount] at hnone
  rw [allocate_eq_zero_iff (h.taken 0 hzero) hcount]
  rintro ⟨first, hend, hclear⟩
  refine hnone ⟨first, by rw [← h.reachable]; exact hend, fun j hlo hhi => ?_⟩
  rw [Bool.eq_false_iff]
  intro htaken
  exact absurd ((h.taken j htaken).symm.trans (hclear j hlo hhi)) nofun

/-- Asking for single frames hands out any frame in the end, because each
request leaves one free frame fewer. -/
theorem Tracks.exists_run_holding (hzero : isTaken s₀ 0 = true) {i : Nat}
    (hfree : isTaken s₀ i = false) :
    ∀ (k : Nat) (sys : System), Tracks s₀ sys.frames sys.live →
      sys.frames.freeFrames = k → i < sys.frames.reachableFrames →
      ∃ requests sys', serveAll sys requests = .ok sys' ∧ ∃ run ∈ sys'.live, run.Holds i := by
  intro k
  induction k with
  | zero =>
    intro sys htracks hk hi
    have hlt : i < BITS_PER_WORD * sys.frames.taken.length :=
      htracks.wf.bit_lt (Nat.lt_of_lt_of_le hi htracks.wf.reachable_le)
    have hcount := htracks.wf.free_eq
    rw [hk, Bitmap.clearCount, eq_comm, List.countP_eq_zero] at hcount
    have htaken : isTaken sys.frames i = true := by
      simpa [isTaken] using hcount i (List.mem_range.2 hlt)
    rw [htracks.isTaken_eq i, hfree, Bool.false_or, List.any_eq_true] at htaken
    obtain ⟨run, hrun, hholds⟩ := htaken
    exact ⟨[], sys, rfl, run, hrun, of_decide_eq_true hholds⟩
  | succ k ih =>
    intro sys htracks hk hi
    by_cases htaken : isTaken sys.frames i = true
    · rw [htracks.isTaken_eq i, hfree, Bool.false_or, List.any_eq_true] at htaken
      obtain ⟨run, hrun, hholds⟩ := htaken
      exact ⟨[], sys, rfl, run, hrun, of_decide_eq_true hholds⟩
    · rw [Bool.not_eq_true] at htaken
      have hzero' : isTaken sys.frames 0 = true := by
        rw [htracks.isTaken_eq 0, hzero, Bool.true_or]
      have hne : (Frame.allocate sys.frames 1).1 ≠ 0 := by
        rw [Ne, allocate_eq_zero_iff hzero' Nat.one_pos, not_not]
        exact ⟨i, hi, fun j h1 h2 => (show j = i by omega) ▸ htaken⟩
      rcases htracks.allocate hzero 1 with hnone | ⟨run, s', heq, haddr, hcount, hlimit, htr⟩
      · exact absurd (by rw [hnone]) hne
      have hrun : (⟨run.address, 1, sys.frames.reachableFrames⟩ : Run) = run := by
        rw [← hcount, ← hlimit]
      have hserve : serve sys (.allocate 1) = .ok ⟨s', run :: sys.live⟩ := by
        simp only [serve, heq, if_neg haddr, hrun]
      have hreach : s'.reachableFrames = sys.frames.reachableFrames := by
        rw [← allocate_reachableFrames sys.frames 1, heq]
      have hfewer : s'.freeFrames = k := by
        have hbefore := htracks.counted
        have hafter := htr.counted
        rw [List.map_cons, List.sum_cons] at hafter
        omega
      obtain ⟨requests, sys', hall, hrun⟩ := ih ⟨s', run :: sys.live⟩ htr hfewer
        (by rw [hreach]; exact hi)
      refine ⟨.allocate 1 :: requests, sys', ?_, hrun⟩
      rw [serveAll, List.foldlM_cons, hserve]
      exact hall

/-- What clients may rely on, given the state `s₀` that `Initialize`
left. -/
structure RunInvariant (s₀ : State) (sys : System) : Prop where
  /-- Live runs share no frame. -/
  disjoint : sys.live.Pairwise fun a b => ∀ j, ¬(a.Holds j ∧ b.Holds j)
  /-- Live runs are made of frames that were allocatable. -/
  allocatable : ∀ run ∈ sys.live, ∀ j, run.Holds j → j < s₀.frameCount ∧ isTaken s₀ j = false
  /-- A run ends below the limit that was in force at its allocation. -/
  below_limit : ∀ run ∈ sys.live, run.first + run.count ≤ run.limit
  /-- `Run.Holds` speaks about the address the client got. -/
  aligned : ∀ run ∈ sys.live, run.address = run.first * SIZE ∧ 0 < run.count
  free_eq_clear : sys.frames.freeFrames = Bitmap.clearCount sys.frames.taken
  free_add_live : sys.frames.freeFrames + (sys.live.map Run.count).sum = s₀.freeFrames
  frameCount : sys.frames.frameCount = s₀.frameCount
  tail : ∀ i, sys.frames.frameCount ≤ i →
    i < BITS_PER_WORD * sys.frames.taken.length → isTaken sys.frames i = true
  frame_zero : ∀ run ∈ sys.live, ¬run.Holds 0
  /-- With every run given back, the bitmap is what it was. -/
  restored : sys.live = [] → sys.frames.taken = s₀.taken

/-- No sequence of requests raises an assertion, and every sequence leaves a
state that satisfies `RunInvariant`. -/
theorem frames_run_of_initialized {boot : Handover} {location : Nat}
    (hboot : Initialized boot location s₀) (requests : List Request) :
    ∃ sys, serveAll ⟨s₀, []⟩ requests = .ok sys ∧ RunInvariant s₀ sys := by
  have hzero := hboot.isTaken_zero
  have hstart : Tracks s₀ (⟨s₀, []⟩ : System).frames (⟨s₀, []⟩ : System).live :=
    Tracks.refl hboot.wf
  obtain ⟨sys, hall, h⟩ := serveAll_tracks hstart hzero requests
  refine ⟨sys, hall, h.disjoint, ?_, fun run hrun => (h.legal run hrun).below_limit,
    fun run hrun => ⟨(h.legal run hrun).aligned, (h.legal run hrun).count_pos⟩,
    h.wf.free_eq, h.counted, h.frameCount, h.wf.tail, ?_, ?_⟩
  · intro run hrun j hj
    have hlegal := h.legal run hrun
    have hend := Nat.le_trans hlegal.below_limit hlegal.limit_le
    exact ⟨Nat.lt_of_lt_of_le hj.2 hend, hlegal.allocatable j hj⟩
  · intro run hrun h0
    have hclear := (h.legal run hrun).allocatable 0 h0
    rw [hzero] at hclear
    exact Bool.noConfusion hclear
  · intro hnil
    refine Bitmap.ext_test (by decide) h.length fun j _ => ?_
    have hj := h.isTaken_eq j
    rw [hnil, List.any_nil, Bool.or_false] at hj
    exact hj

/-- After `Initialize`, no sequence of requests raises an assertion, and
every sequence leaves a state that satisfies `RunInvariant`. -/
theorem frames_run_invariant {boot : Handover} {location : Nat}
    (hinit : initializeState boot = .ok (s₀, location)) (requests : List Request) :
    ∃ sys, serveAll ⟨s₀, []⟩ requests = .ok sys ∧ RunInvariant s₀ sys :=
  frames_run_of_initialized (initialized_of_ok hinit) requests

/-- A machine with 640 KiB of low memory and 256 KiB above one MiB, half of
it filled by the kernel. -/
def smallHandover : Handover where
  memoryRegions := [⟨0, 0x9FC00, .available⟩, ⟨0x100000, 0x40000, .available⟩]
  infoRegions := []
  modules := []
  bootSpan := ⟨0x100000, 0x101000⟩
  textSpan := ⟨0xFFFFFFFF80101000, 0xFFFFFFFF80110000⟩
  rodataSpan := ⟨0xFFFFFFFF80110000, 0xFFFFFFFF80118000⟩
  dataSpan := ⟨0xFFFFFFFF80118000, 0xFFFFFFFF80120000⟩
  localApicAddress := 0xFEE00000
  ioApicAddress := 0xFEC00000
  noExecute := true

/-- What `Initialize` makes of it.  The bitmap follows the kernel. -/
def smallFrames : State where
  taken := [ALL_TAKEN, ALL_TAKEN, ALL_TAKEN, ALL_TAKEN, 0x00000001FFFFFFFF]
  frameCount := 320
  reachableFrames := 320
  totalFrames := 223
  freeFrames := 31
  nextIndex := 0

theorem initializeState_small : initializeState smallHandover = .ok (smallFrames, 0x120000) := by
  decide +kernel

/-- Two allocations around a lowered limit, given back out of order. -/
theorem frames_run_invariant_small :
    initializeState smallHandover = .ok (smallFrames, 0x120000) ∧
      ∃ sys, serveAll ⟨smallFrames, []⟩
          [.allocate 3, .setReachableLimit 0x128000, .allocate 4, .free 1, .free 0]
            = .ok sys ∧ RunInvariant smallFrames sys :=
  ⟨initializeState_small, frames_run_invariant initializeState_small _⟩

/-- What a call of `Allocate` did. -/
structure AllocateContract (s : State) (count : Nat) (result : Nat × State) : Prop where
  fails_iff : result.1 = 0 ↔ ¬∃ first, FreeRun s first count
  unchanged : result.1 = 0 → result.2 = s
  /-- The answer is the base of a run, and the frames of the run are what is
  taken in addition. -/
  succeeds : result.1 ≠ 0 → ∃ first, result.1 = first * SIZE ∧ FreeRun s first count ∧
    (∀ j, isTaken result.2 j = (decide (first ≤ j ∧ j < first + count) || isTaken s j)) ∧
    result.2.freeFrames + count = s.freeFrames ∧
    result.2.frameCount = s.frameCount ∧ result.2.totalFrames = s.totalFrames ∧
    result.2.reachableFrames = s.reachableFrames ∧
    (result.2.nextIndex = 0 ∨ result.2.nextIndex < result.2.reachableFrames)

/-- In every state that `Initialize` and a sequence of requests lead to,
wherever its cursor is, `Allocate` fails if and only if no run of that many
free frames is left below the reachable limit. -/
theorem allocate_complete {boot : Handover} {location : Nat}
    (hinit : initializeState boot = .ok (s₀, location)) {requests : List Request} {sys : System}
    (hrun : serveAll ⟨s₀, []⟩ requests = .ok sys) {count : Nat} (hcount : 1 ≤ count) :
    AllocateContract sys.frames count (allocate sys.frames count) := by
  have hboot := initialized_of_ok hinit
  have hzero := hboot.isTaken_zero
  obtain ⟨sys', hrun', h⟩ :=
    @serveAll_tracks _ ⟨s₀, []⟩ (Tracks.refl hboot.wf) hzero requests
  obtain rfl := Except.ok.inj (hrun'.symm.trans hrun)
  have hzero' : isTaken sys'.frames 0 = true := by rw [h.isTaken_eq 0, hzero, Bool.true_or]
  have hiff := allocate_eq_zero_iff hzero' hcount
  refine ⟨hiff, ?_, ?_⟩
  · intro hnone
    rcases allocate_cases sys'.frames count with hsame | ⟨first, -, hend, hclear, -⟩
    · rw [hsame]
    · exact absurd ⟨first, hend, hclear⟩ (hiff.1 hnone)
  · intro hsome
    rcases allocate_cases sys'.frames count with hsame | ⟨first, -, hend, hclear, heq⟩
    · exact absurd (by rw [hsame]) hsome
    have hle := Nat.le_trans hend h.wf.reachable_le
    rw [heq]
    refine ⟨first, rfl, ⟨hend, hclear⟩, isTaken_allocated h.wf hle,
      (allocated_wf h.wf hle hclear).2, ?_, ?_, reachableFrames_allocated .., ?_⟩
    · rw [allocated, takeRun_eq]
    · rw [allocated, takeRun_eq]
    · rw [reachableFrames_allocated, allocated]
      split
      · rename_i hlt
        exact Or.inr hlt
      · exact Or.inl rfl

/-- The cursor is above the limit, and the run that was given back is found
again. -/
theorem allocate_complete_small :
    ∃ sys, serveAll ⟨smallFrames, []⟩
        [.allocate 4, .allocate 16, .free 1, .setReachableLimit 0x126000] = .ok sys ∧
      sys.frames.reachableFrames < sys.frames.nextIndex ∧
      (allocate sys.frames 4).1 = 0x121000 ∧
      AllocateContract sys.frames 4 (allocate sys.frames 4) := by
  obtain ⟨sys, hrun, hcursor, hfound⟩ : ∃ sys, serveAll ⟨smallFrames, []⟩
      [.allocate 4, .allocate 16, .free 1, .setReachableLimit 0x126000] = .ok sys ∧
      sys.frames.reachableFrames < sys.frames.nextIndex ∧
      (allocate sys.frames 4).1 = 0x121000 :=
    exists_ok_of_check (fun sys : System =>
      sys.frames.reachableFrames < sys.frames.nextIndex ∧
        (allocate sys.frames 4).1 = 0x121000) (by decide +kernel)
  exact ⟨sys, hrun, hcursor, hfound, allocate_complete initializeState_small hrun (by decide)⟩

end X64HK.Frame
