import X64HK.Memory.HeapInvariant
import X64HK.Memory.KernelMemory
import X64HK.Memory.PagingFlat

/-!
# Allocation with room to spare

On a machine whose first free frames are one piece, `Allocate` hands frames out
from the bottom of that piece.  `Spare s c limit` says that it goes from frame
`c` to frame `limit`, and `Spare.allocate` that an allocation moves `c` up.

`Map` then fails for want of a frame only when the piece is used up.  A
range needs no more than three tables for every two MiB that it touches.

* `descendLoop_room` and `mapLoop_room` follow the two loops.
* `Owned.served` says what a call of `Map` does that answers `true`, and
  `HasRoom.map` that a call with enough room does.
* `HasRoom.allocateFrames`, `HasRoom.provide` and `HasRoom.initializeHeap` are the
  steps of the kernel that hand out frames.
-/

namespace X64HK.Frame

open Multiboot

/-- The first `c` frames are taken and those from there to `limit` are free. -/
structure Spare (s : State) (c limit : Nat) : Prop where
  wf : Wf s
  next_le : s.nextIndex ≤ c
  limit_le : limit ≤ s.reachableFrames
  isTaken_iff : ∀ j, j < limit → (isTaken s j = true ↔ j < c)

variable {s : State} {c count limit : Nat}

private theorem findRunLoop_free (hfree : ∀ j, c ≤ j → j < c + count → isTaken s j = false) :
    ∀ {m n run : Nat}, run + m = count → 0 < m → m ≤ n →
      findRunLoop s count n (c + run) run = some c := by
  intro m
  induction m with
  | zero =>
    intro n run _ hm
    exact absurd hm (Nat.lt_irrefl 0)
  | succ m ih =>
    intro n run hrun _ hn
    obtain ⟨n, rfl⟩ := Nat.exists_eq_succ_of_ne_zero (Nat.ne_zero_of_lt hn)
    rw [Nat.succ_eq_add_one, findRunLoop, hfree _ (by omega) (by omega)]
    by_cases hlast : run + 1 = count
    · rw [if_neg Bool.false_ne_true, if_pos hlast]
      exact congrArg some (by omega)
    · rw [if_neg Bool.false_ne_true, if_neg hlast, Nat.add_assoc]
      exact ih (by omega) (by omega) (by omega)

private theorem findRunLoop_taken (hcount : 0 < count) (htaken : ∀ j, j < c → isTaken s j = true)
    (hfree : ∀ j, c ≤ j → j < c + count → isTaken s j = false) :
    ∀ {d n index : Nat}, index + d = c → d + count ≤ n →
      findRunLoop s count n index 0 = some c := by
  intro d
  induction d with
  | zero =>
    intro n index hindex hn
    rw [show index = c + 0 by omega]
    exact findRunLoop_free hfree (Nat.zero_add _) hcount (by omega)
  | succ d ih =>
    intro n index hindex hn
    obtain ⟨n, rfl⟩ := Nat.exists_eq_succ_of_ne_zero (show n ≠ 0 by omega)
    rw [Nat.succ_eq_add_one, findRunLoop, htaken index (by omega), if_pos rfl]
    exact ih (by omega) (by omega)

/-- The next run starts at the first free frame. -/
theorem Spare.allocate (h : Spare s c limit) (hcount : 0 < count) (hroom : c + count < limit) :
    Frame.allocate s count = (c * SIZE, allocated s c count) ∧
      Spare (allocated s c count) (c + count) limit := by
  have hlimit := h.limit_le
  have htaken : ∀ j, j < c → isTaken s j = true := fun j hj =>
    (h.isTaken_iff j (by omega)).2 hj
  have hfree : ∀ j, c ≤ j → j < c + count → isTaken s j = false := by
    intro j hlo hhi
    rw [Bool.eq_false_iff, Ne, h.isTaken_iff j (by omega)]
    omega
  have hnext := h.next_le
  have hrun : findRun s s.nextIndex count = some c :=
    findRunLoop_taken hcount htaken hfree (d := c - s.nextIndex) (by omega) (by omega)
  have hle : c + count ≤ s.frameCount := by
    have hreach := h.wf.reachable_le
    omega
  refine ⟨?_, (allocated_wf h.wf hle hfree).1, ?_, ?_, ?_⟩
  · unfold Frame.allocate findFirst
    rw [if_neg (by omega), hrun]
    rfl
  · simp only [allocated, if_pos (Nat.lt_of_lt_of_le hroom hlimit)]
    exact Nat.le_refl _
  · rw [reachableFrames_allocated]
    exact hlimit
  · intro j hj
    rw [isTaken_allocated h.wf hle, Bool.or_eq_true, decide_eq_true_eq, h.isTaken_iff j hj]
    omega

/-- The frames that `Initialize` leaves taken. -/
def takenAtBoot (boot : Handover) (location j : Nat) : Bool :=
  !(availableRegions boot).any (fun region =>
      decide (Contains (initialFrameCount boot) ⟨region.address, region.stop⟩ j)) ||
    (usedRanges boot location).any fun r => decide (Touches (initialFrameCount boot) r j)

/-- `Initialize` gets through and leaves the first free frames to spare. -/
theorem initializeState_spare {boot : Handover} {location : Nat}
    (hloc : chooseBitmapLocation boot (bitmapBytes (initialFrameCount boot)) = .ok location)
    (hne : location ≠ 0) (hlimit : limit ≤ Config.IDENTITY_MAPPED_LIMIT / SIZE)
    (hcount : limit ≤ initialFrameCount boot) (hc : c < limit)
    (htaken : ∀ j, j < limit → (takenAtBoot boot location j = true ↔ j < c)) :
    ∃ s, initializeState boot = .ok (s, location) ∧ Spare s c limit := by
  have hfree := (htaken c hc).not.2 (Nat.lt_irrefl c)
  rw [Bool.not_eq_true, takenAtBoot, Bool.or_eq_false_iff, Bool.not_eq_false'] at hfree
  obtain ⟨s, hok⟩ := initializeState_ok hloc hne (by omega) hfree.1 hfree.2
  have hinit := initialized_of_ok hok
  refine ⟨s, hok, hinit.wf, ?_, ?_, fun j hj => ?_⟩
  · rw [hinit.nextIndex]
    exact Nat.zero_le _
  · rw [hinit.reachableFrames, hinit.frameCount]
    exact Nat.le_min.2 ⟨hlimit, hcount⟩
  · rw [hinit.isTaken_eq j (by rw [hinit.frameCount]; omega), hinit.frameCount]
    exact htaken j hj

end X64HK.Frame

namespace X64HK.Paging

open X64HK.Frame (SIZE Run Spare)

variable {s₀ : Frame.State} {s : State} {t : Tree} {tables others : List Run} {c limit : Nat}
  {call : MapCall}

/-- The allocator moved up by `n` frames at most. -/
structure Advanced (s s' : State) (c n limit : Nat) (c' : Nat) : Prop where
  spare : Spare s'.frames c' limit
  le : c ≤ c'
  le_add : c' ≤ c + n
  reachable : s'.frames.reachableFrames = s.frames.reachableFrames

theorem Advanced.trans {s₁ s₂ s' : State} {m n k c₁ c' : Nat} (h : Advanced s s₁ c m limit c₁)
    (h' : Advanced s₂ s' c₁ k limit c') (hsame : s₂.frames = s₁.frames) (hle : c₁ + k ≤ c + n) :
    Advanced s s' c n limit c' :=
  ⟨h'.spare, Nat.le_trans h.le h'.le, Nat.le_trans h'.le_add hle,
    h'.reachable.trans (hsame ▸ h.reachable)⟩

/-- With a frame left, an entry can be made present. -/
theorem ensurePresent_room (h : Spare s.frames c limit) (hpos : 0 < c) (hroom : c + 1 < limit)
    (a : Nat) :
    ∃ s' c', ensurePresent s a = (true, s') ∧ Advanced s s' c 1 limit c' ∧
      (s.memory.read64 a &&& PRESENT ≠ 0 → c' = c) := by
  by_cases habsent : s.memory.read64 a &&& PRESENT = 0
  · obtain ⟨heq, hspare⟩ := h.allocate Nat.one_pos hroom
    have hne : c * SIZE ≠ 0 := Nat.mul_ne_zero (Nat.ne_of_gt hpos) (by decide)
    refine ⟨{ s with
        frames := Frame.allocated s.frames c 1
        memory := (s.memory.fill (c * SIZE) PAGE_SIZE 0).write64 a
          (BitVec.ofNat 64 (c * SIZE) ||| PRESENT ||| WRITABLE)
        tableCount := s.tableCount + 1 }, c + 1, ?_,
      ⟨hspare, Nat.le_succ c, Nat.le_refl _, Frame.reachableFrames_allocated ..⟩,
      fun hpresent => absurd habsent hpresent⟩
    simp only [ensurePresent, if_pos habsent, allocateTable, heq, if_neg hne]
  · refine ⟨s, c, ?_, ⟨h, Nat.le_refl c, Nat.le_succ c, rfl⟩, fun _ => rfl⟩
    simp only [ensurePresent, if_neg habsent]

/-- With three frames left, `Descend` reaches the leaf's table.  It needs
none of them when the table is there. -/
theorem descendLoop_room (hs₀ : Addressable s₀) (v : BitVec 64) (u : Bool) :
    ∀ {n : Nat} {s : State} {t : Tree} {tables : List Run} {f c : Nat}, n ≤ 3 →
      Owned s₀ s t tables others → t.table (3 - n) (nodeOf v (3 - n)) = some f →
      Spare s.frames c limit → 0 < c → c + n < limit →
      ∃ table s' c', descendLoop v (userFlag u) LEAF_LEVEL n s (f * SIZE) =
          (some table, s') ∧ Advanced s s' c n limit c' ∧
        (t.table 3 (nodeOf v 3) ≠ none → c' = c) := by
  intro n
  induction n with
  | zero =>
    intro s t tables f c _ _ _ hspare _ _
    exact ⟨f * SIZE, s, c, rfl, ⟨hspare, Nat.le_refl c, Nat.le_refl c, rfl⟩, fun _ => rfl⟩
  | succ n ih =>
    intro s t tables f c hn h hf hspare hpos hroom
    have hdepth : 3 - n = 3 - (n + 1) + 1 := by omega
    have hlevel := level_of_depth hn
    have hnode := nodeOf_succ v (d := 3 - (n + 1)) (by omega)
    rw [← hdepth] at hnode
    have hindex := indexAt_lt v (4 - (3 - (n + 1)))
    obtain ⟨s₁, c₁, hensure, hmoved, hkept⟩ :=
      ensurePresent_room hspare hpos (by omega) (f * SIZE + 8 * indexAt v (4 - (3 - (n + 1))))
    rw [descendLoop, entryAddress, hlevel]
    rcases h.visit hs₀ (by omega) hf hindex u with hfail | ⟨s₂, t', tables', g, hok, hv⟩
    · rw [hensure] at hfail
      exact absurd (Prod.mk.inj hfail).1 Bool.noConfusion
    · obtain ⟨-, rfl⟩ := Prod.mk.inj (hensure.symm.trans hok)
      rw [← hnode] at hv
      have htable := hv.table
      rw [← hdepth] at htable
      simp only [hensure, if_true, hv.address]
      have hle := hmoved.le_add
      obtain ⟨table, s', c', hloop, hmoved', hkept'⟩ :=
        ih (by omega) hv.owned htable hmoved.spare (Nat.lt_of_lt_of_le hpos hmoved.le) (by omega)
      refine ⟨table, s', c', hloop, hmoved.trans hmoved' rfl (by omega), fun hleaf => ?_⟩
      -- A leaf's table has all the tables above it.
      obtain ⟨leaf, hleaf'⟩ := Option.ne_none_iff_exists'.1 hleaf
      have hpresent : s.memory.read64 (f * SIZE + 8 * indexAt v (4 - (3 - (n + 1)))) &&&
          PRESENT ≠ 0 := by
        cases hg : t.table (3 - n) (nodeOf v (3 - n)) with
        | none => exact absurd (h.rep.table_none v n (by omega) hg) hleaf
        | some g' =>
          have hword := h.rep.slot hf hindex
          rw [Tree.word, if_neg (by omega), ← hnode, ← hdepth, hg] at hword
          rw [hword]
          exact tableEntry_present _ (h.rep.frame_lt hg)
      rw [hkept' (by rw [hv.extends_tree.table hleaf']; exact Option.some_ne_none leaf),
        hkept hpresent]

/-- `Descend` from the root. -/
theorem descend_room (hs₀ : Addressable s₀) (h : Owned s₀ s t tables others)
    (hspare : Spare s.frames c limit) (hpos : 0 < c) (hroom : c + 3 < limit)
    (v : BitVec 64) (u : Bool) :
    ∃ table s' c', descend s v LEAF_LEVEL (userFlag u) = (some table, s') ∧
      Advanced s s' c 3 limit c' ∧ (t.table 3 (nodeOf v 3) ≠ none → c' = c) := by
  obtain ⟨f, hf, hroot⟩ := h.rep.root_eq
  unfold descend
  rw [hroot]
  exact descendLoop_room hs₀ v u (n := 3) (by decide) h
    (by rw [Nat.sub_self, nodeOf_zero]; exact hf) hspare hpos hroom

/-! ## `Map` -/

/-- The number of the two MiB that an address is in.  Its pages share the
leaf's table. -/
def chunk (v : BitVec 64) : Nat := v.toNat / 2 ^ 21

theorem nodeOf_eq_of_chunk {v w : BitVec 64} (h : chunk v = chunk w) : nodeOf v 3 = nodeOf w 3 := by
  unfold nodeOf chunk at *
  rw [show 48 - 9 * 3 = 21 from rfl, h]

theorem chunk_le {v w : BitVec 64} (h : v.toNat ≤ w.toNat) : chunk v ≤ chunk w :=
  Nat.div_le_div_right h

/-- The next page is in the same chunk or in the one behind it. -/
theorem chunk_next {page : BitVec 64}
    (hnext : (page + BitVec.ofNat 64 PAGE_SIZE).toNat = page.toNat + PAGE_SIZE) :
    chunk (page + BitVec.ofNat 64 PAGE_SIZE) = chunk page ∨
      chunk (page + BitVec.ofNat 64 PAGE_SIZE) = chunk page + 1 := by
  have hsize : PAGE_SIZE = 4096 := rfl
  unfold chunk
  rw [hnext, hsize]
  omega

/-- With room for the tables that a range can need, `Map` gets through. -/
theorem mapLoop_room (hs₀ : Addressable s₀) {flags stop : BitVec 64} {u : Bool}
    (hflags : flags.getLsbD 2 = u) (hstop : stop.toNat + PAGE_SIZE ≤ 2 ^ 64) :
    ∀ {fuel : Nat} {page source : BitVec 64} {s : State} {t : Tree} {tables : List Run}
      {c n : Nat}, source.toNat % PAGE_SIZE = 0 → Owned s₀ s t tables others →
      Spare s.frames c limit → 0 < c → stop.toNat ≤ page.toNat + fuel * PAGE_SIZE →
      (page < stop → 3 * (chunk stop - chunk page) +
        (if t.table 3 (nodeOf page 3) = none then 3 else 0) ≤ n) →
      c + n + 3 < limit →
      ∃ s' c', mapLoop flags (userFlag u) stop (fuel + 1) page source s = .ok (true, s') ∧
        Advanced s s' c n limit c' := by
  have hsize : PAGE_SIZE = 4096 := rfl
  intro fuel
  induction fuel with
  | zero =>
    intro page source s t tables c n _ _ hspare _ hfuel _ _
    have hnot : ¬page < stop := by
      rw [BitVec.lt_def]
      omega
    exact ⟨s, c, by rw [mapLoop, if_neg hnot], ⟨hspare, Nat.le_refl c, by omega, rfl⟩⟩
  | succ fuel ih =>
    intro page source s t tables c n hsource h hspare hpos hfuel hcost hroom
    rw [mapLoop]
    by_cases hlt : page < stop
    · rw [if_pos hlt]
      have hcost' := hcost hlt
      obtain ⟨table, s₁, c₁, hdescend, hmoved, hkept⟩ :=
        descend_room hs₀ h hspare hpos (by omega) page u
      obtain ⟨t₁, tables₁, hd⟩ := descend_spec hs₀ h page u
      rw [hdescend] at hd ⊢
      obtain ⟨g, rfl, hg, hopen⟩ := hd.found table rfl
      have hbit : (source ||| flags).getLsbD 2 = true → t₁.openFrom page 3 = true := by
        intro hbit
        rw [BitVec.getLsbD_or, getLsbD_of_aligned hsource (by decide), hflags,
          Bool.false_or] at hbit
        exact hopen hbit
      -- What this page used up leaves enough for the chunks after it.
      have hrest : c₁ + 3 * (chunk stop - chunk page) ≤ c + n := by
        have hle := hmoved.le_add
        by_cases hnone : t.table 3 (nodeOf page 3) = none
        · rw [if_pos hnone] at hcost'
          omega
        · rw [if_neg hnone] at hcost'
          rw [hkept hnone]
          omega
      rw [BitVec.lt_def] at hlt
      have hnext : (page + BitVec.ofNat 64 PAGE_SIZE).toNat = page.toNat + PAGE_SIZE := by
        rw [BitVec.toNat_add, BitVec.toNat_ofNat]
        rw [hsize] at hstop ⊢
        omega
      obtain ⟨s', c', hloop, hmoved'⟩ := ih (aligned_add hsource)
        (hd.owned.setLeaf hg hbit) hmoved.spare (Nat.lt_of_lt_of_le hpos hmoved.le)
        (by rw [hnext]; rw [Nat.add_one_mul] at hfuel; omega)
        (n := 3 * (chunk stop - chunk page)) (by
          intro hlt'
          rcases chunk_next hnext with hsame | hup
          · rw [nodeOf_eq_of_chunk hsame,
              if_neg (by rw [Tree.setLeaf, hg]; exact Option.some_ne_none g), hsame]
            exact Nat.le_refl _
          · have hbelow := chunk_le (Nat.le_of_lt (BitVec.lt_def.1 hlt'))
            rw [hup] at hbelow ⊢
            split <;> omega) (by omega)
      exact ⟨s', c', hloop, hmoved.trans hmoved' rfl hrest⟩
    · rw [if_neg hlt]
      exact ⟨s, c, rfl, ⟨hspare, Nat.le_refl c, by omega, rfl⟩⟩

/-- A call of `Map` that did what it was asked for. -/
structure Served (s : State) (call : MapCall) (s' : State) : Prop where
  setup : SameSetup s s'
  requested : ∀ v, Canonical v → call.Touches v → Requested s' call v
  effective_eq : ∀ v, Canonical v → ¬call.Touches v → effective s' v = effective s v

theorem Served.unchanged {s s' : State} (h : Served s call s') (v : BitVec 64)
    (hv : Canonical v) (htouch : ¬call.Touches v) :
    answers s' v = answers s v :=
  answers_congr h.setup.noExecuteAvailable (h.effective_eq v hv htouch)

/-- A call of `Map` that answers `true`, with a range that callers may ask for. -/
theorem Owned.served (hs₀ : Addressable s₀) (h : Owned s₀ s t tables others)
    (hcall : call.Admissible) {s' : State} (hmap : map s call = .ok (true, s')) :
    Served s call s' ∧ ∃ t' tables', Owned s₀ s' t' tables' others := by
  obtain ⟨n, t', tables', hm⟩ := map_spec hs₀ h hmap
  obtain ⟨mapped, s₁, hmap', hrequested, -⟩ := map_contract hs₀ h hcall
  obtain ⟨rfl, rfl⟩ := Prod.mk.inj (Except.ok.inj (hmap.symm.trans hmap'))
  exact ⟨⟨hm.setup, hrequested rfl, fun v hv htouch => hm.effective_of_untouched h hcall hv htouch⟩,
    t', tables', hm.owned⟩

/-- The number of frames that a call can need for tables. -/
def MapCall.cost (call : MapCall) : Nat :=
  3 * (chunk call.stop - chunk call.firstPage) + 3

/-- Page tables on a machine with free frames from `c` to `limit`. -/
structure HasRoom (s₀ : Frame.State) (others : List Run) (s : State) (c limit : Nat) : Prop where
  owned : ∃ t tables, Owned s₀ s t tables others
  spare : Spare s.frames c limit
  pos : 0 < c

/-- `Map` on a machine with room. -/
theorem HasRoom.map (hs₀ : Addressable s₀) (h : HasRoom s₀ others s c limit)
    (hcall : call.Admissible) (hroom : c + call.cost + 3 < limit) :
    ∃ s' c', map s call = .ok (true, s') ∧ HasRoom s₀ others s' c' limit ∧
      Advanced s s' c call.cost limit c' ∧ Served s call s' := by
  obtain ⟨⟨t, tables, howned⟩, hspare, hpos⟩ := h
  have hsize : PAGE_SIZE = 4096 := rfl
  have hle := hcall.stop_le
  have hstop := hcall.toNat_stop
  have hflags : (call.flags s.noExecuteAvailable).getLsbD 2 = decide (call.privilege = .user) := by
    rw [MapCall.flags, getLsbD_flagsFor _ _ _ _ (by decide)]
    simp
  have hsource : call.source.toNat % PAGE_SIZE = 0 := by
    rw [call.toNat_source]
    exact Nat.mul_mod_left _ _
  have hend : call.stop.toNat + PAGE_SIZE ≤ 2 ^ 64 := by omega
  have hfuel : call.stop.toNat ≤ call.firstPage.toNat +
      (call.stop.toNat / PAGE_SIZE + 1) * PAGE_SIZE := by
    rw [hsize]
    omega
  obtain ⟨s', c', hloop, hmoved⟩ := mapLoop_room (n := call.cost) hs₀ hflags hend hsource
    howned hspare hpos hfuel (fun _ => by
      unfold MapCall.cost
      split <;> omega) hroom
  have hmap : Paging.map s call = .ok (true, s') := by
    unfold Paging.map
    rw [call.tableFlags_eq]
    exact hloop
  obtain ⟨hserved, howned'⟩ := howned.served hs₀ hcall hmap
  exact ⟨s', c', hmap, ⟨howned', hmoved.spare, Nat.lt_of_lt_of_le hpos hmoved.le⟩, hmoved, hserved⟩

end X64HK.Paging

/-! ## The steps of the kernel -/

namespace X64HK

open X64HK.Frame (SIZE Run)
open Paging

variable {s₀ : Frame.State} {k : Kernel} {c limit : Nat} {call : MapCall}

/-- The kernel after it handed out the run of `count` frames at frame `c`. -/
def Kernel.given (k : Kernel) (owner : Owner) (c count : Nat) : Kernel :=
  { k with
    paging := { k.paging with frames := Frame.allocated k.paging.frames c count }
    handedOut :=
      (owner, ⟨c * SIZE, count, k.paging.frames.reachableFrames⟩) :: k.handedOut }

theorem Paging.HasRoom.allocateFrames (hs₀ : Addressable s₀)
    (h : HasRoom s₀ k.runs k.paging c limit) (owner : Owner) {count : Nat} (hcount : 0 < count)
    (hroom : c + count < limit) :
    k.allocateFrames owner count = (c * SIZE, k.given owner c count) ∧
      HasRoom s₀ (k.given owner c count).runs (k.given owner c count).paging (c + count)
        limit := by
  obtain ⟨⟨t, tables, howned⟩, hspare, hpos⟩ := h
  obtain ⟨heq, hspare'⟩ := hspare.allocate hcount hroom
  have hne : c * SIZE ≠ 0 := Nat.mul_ne_zero (Nat.ne_zero_of_lt hpos) (by decide)
  refine ⟨?_, ⟨t, tables, ?_⟩, hspare', Nat.add_pos_left hpos _⟩
  · simp only [Kernel.allocateFrames, heq, if_neg hne]
    rfl
  · rcases howned.tracks.allocate hs₀.zero_taken count with
      hnone | ⟨⟨address, n, limit⟩, frames, hsome, -, hn, hlimit, htr⟩
    · exact absurd (Prod.mk.inj (heq.symm.trans hnone)).1 hne
    · obtain ⟨haddress, hframes⟩ := Prod.mk.inj (heq.symm.trans hsome)
      rw [← hframes] at htr
      dsimp only at haddress hn hlimit
      subst haddress hn hlimit
      exact howned.handOut htr

theorem Paging.HasRoom.of_eq (h : HasRoom s₀ k.runs k.paging c limit) {k' : Kernel}
    (hpaging : k'.paging = k.paging) (hrecord : k'.handedOut = k.handedOut) :
    HasRoom s₀ k'.runs k'.paging c limit := by
  rw [hpaging, Kernel.runs, hrecord]
  exact h

/-- A write to a run on record keeps the tables and what they say. -/
theorem Paging.HasRoom.setMemory (h : HasRoom s₀ k.runs k.paging c limit) {run : Run}
    (hrun : run ∈ k.runs) {memory : ByteMemory}
    (hmemory : ∀ a, a < run.address ∨ run.address + run.count * SIZE ≤ a →
      memory a = k.paging.memory a) :
    HasRoom s₀ (k.setMemory memory).runs (k.setMemory memory).paging c limit ∧
      ∀ v, effective (k.setMemory memory).paging v = effective k.paging v := by
  obtain ⟨⟨t, tables, howned⟩, hspare, hpos⟩ := h
  have howned' := howned.setMemory hrun hmemory
  exact ⟨⟨⟨t, tables, howned'⟩, hspare, hpos⟩,
    fun v => (howned'.rep.effective v).trans (howned.rep.effective v).symm⟩

/-- `Heap::Initialize` on a machine with room for the heap. -/
theorem Paging.HasRoom.initializeHeap (hs₀ : Addressable s₀)
    (h : HasRoom s₀ k.runs k.paging c limit) (hroom : c + 4096 < limit) (hlimit : limit ≤ 2 ^ 35) :
    ∃ k', k.initializeHeap = .ok k' ∧ HasRoom s₀ k'.runs k'.paging (c + 4096) limit ∧
      (∀ v, effective k'.paging v = effective k.paging v) ∧
      k'.nextStackTop = k.nextStackTop ∧ k'.nextSlot = k.nextSlot ∧
      k'.paging.noExecuteAvailable = k.paging.noExecuteAvailable := by
  -- The number of frames stays a variable, for evaluation not to unroll it.
  obtain ⟨n, hn⟩ : ∃ n, Heap.HEAP_SIZE / SIZE = n := ⟨_, rfl⟩
  have hn' : n = 4096 := hn.symm.trans (by decide)
  have hpos := h.pos
  have hlt : c * SIZE < 2 ^ 64 := by
    rw [show SIZE = 4096 from rfl]
    omega
  obtain ⟨halloc, hgiven⟩ := h.allocateFrames hs₀ .heap (show 0 < n by omega) (by omega)
  obtain ⟨memory', hmemory'⟩ : ∃ memory',
      (Heap.initializeAt (k.given .heap c n).paging.memory (c * SIZE)).memory = memory' :=
    ⟨_, rfl⟩
  have houtside : ∀ a, a < c * SIZE ∨ c * SIZE + n * SIZE ≤ a →
      memory' a = (k.given .heap c n).paging.memory a := by
    intro a ha
    rw [← hmemory']
    refine Heap.initializeAt_of_outside hlt ?_
    rw [show Heap.HEADER_SIZE = 16 from rfl]
    rw [show SIZE = 4096 from rfl] at ha ⊢
    omega
  obtain ⟨hset, hsame⟩ := hgiven.setMemory (List.mem_cons_self ..) houtside
  have hdone : k.initializeHeap = .ok ((k.given .heap c n).setMemory memory') := by
    have hregion : ¬(if c * SIZE ≠ 0 then toVirtual (c * SIZE) else 0) = 0 := by
      rw [toVirtual, wrap64, show SIZE = 4096 from rfl,
        show Config.DIRECT_MAP_BASE = 0xFFFF800000000000 from rfl, if_pos (by omega)]
      omega
    unfold Kernel.initializeHeap
    rw [hn]
    simp only [halloc]
    rw [if_neg hregion, hmemory']
    rfl
  exact ⟨_, hdone, hn' ▸ hset, hsame, rfl, rfl, rfl⟩

/-- Mapping frames at a whole page of the user half. -/
theorem admissible_of_frames {virtual size : BitVec 64} {access : Access}
    {privilege : Privilege} {caching : Caching} (hvirtual : virtual.toNat % PAGE_SIZE = 0)
    (hstop : virtual.toNat + size.toNat ≤ 2 ^ 47) (hc : c ≤ 2 ^ 35) :
    MapCall.Admissible ⟨virtual, BitVec.ofNat 64 (c * SIZE), size, access, privilege, caching⟩ := by
  have hphysical : (BitVec.ofNat 64 (c * SIZE)).toNat = c * 4096 := by
    rw [BitVec.toNat_ofNat, show SIZE = 4096 from rfl]
    omega
  rw [show PAGE_SIZE = 4096 from rfl] at hvirtual
  refine ⟨?_, ?_, ?_, Or.inl hstop⟩
  · rw [hphysical, show PAGE_SIZE = 4096 from rfl]
    dsimp only
    omega
  · rw [hphysical]
    dsimp only
    omega
  · rw [show PAGE_SIZE = 4096 from rfl]
    dsimp only
    omega

/-- Handing out a run, filling it and mapping it. -/
theorem Paging.HasRoom.provide (hs₀ : Addressable s₀) (h : HasRoom s₀ k.runs k.paging c limit)
    (owner : Owner) {count : Nat} (hcount : 0 < count) (hcall : call.Admissible)
    (hroom : c + count + call.cost + 3 < limit) {memory : ByteMemory}
    (hmemory : ∀ a, a < c * SIZE ∨ c * SIZE + count * SIZE ≤ a → memory a = k.paging.memory a) :
    ∃ k' c', ((k.given owner c count).setMemory memory).map call = .ok (true, k') ∧
      HasRoom s₀ k'.runs k'.paging c' limit ∧ c' ≤ c + count + call.cost ∧
      Served k.paging call k'.paging ∧ k'.nextStackTop = k.nextStackTop ∧
      k'.nextSlot = k.nextSlot := by
  obtain ⟨-, hgiven⟩ := h.allocateFrames hs₀ owner hcount (by omega)
  obtain ⟨hset, hsame⟩ := hgiven.setMemory (List.mem_cons_self ..) hmemory
  obtain ⟨paging, c', hmap, hroom', hmoved, hserved⟩ := hset.map hs₀ hcall hroom
  refine ⟨{ (k.given owner c count).setMemory memory with paging := paging }, c',
    (bind_ok_iff _ _ _).2 ⟨_, hmap, rfl⟩, hroom', hmoved.le_add, ?_, rfl, rfl⟩
  exact ⟨⟨hserved.setup.root, hserved.setup.noExecuteAvailable, hserved.setup.mappedRamEnd⟩,
    hserved.requested, fun v hv htouch => (hserved.effective_eq v hv htouch).trans (hsame v)⟩

end X64HK
