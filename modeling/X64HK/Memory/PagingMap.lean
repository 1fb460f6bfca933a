import X64HK.Memory.FrameRuns
import X64HK.Memory.PagingTree

/-!
# What `Map` does to the tree

`Owned s₀ s t tables others` ties the page tables to the frame allocator.
The tables in memory are those of `t`, each of them stands in a run that
`AllocateTable` got, and the runs of the tables share no frame with the
runs of anybody else.

* `descend_spec`: a walk down creates and opens tables and changes no leaf.
* `mapLoop_spec`: `Map` writes the leaves of the pages it visits, in the
  order of `mapPages`, and changes no other leaf, whether it ends with
  `true` or with `false`.
* `mapLoop_ok`: the loop ends when the range does not reach the last page
  of the address space.
-/

namespace X64HK.Paging

open X64HK.Frame (SIZE Run Tracks isTaken)

/-- Statics that the operations on tables leave alone. -/
structure SameSetup (s s' : State) : Prop where
  root : s'.root = s.root
  noExecuteAvailable : s'.noExecuteAvailable = s.noExecuteAvailable
  mappedRamEnd : s'.mappedRamEnd = s.mappedRamEnd

theorem SameSetup.refl (s : State) : SameSetup s s := ⟨rfl, rfl, rfl⟩

theorem SameSetup.trans {s s' s'' : State} (h : SameSetup s s')
    (h' : SameSetup s' s'') : SameSetup s s'' :=
  ⟨h'.root.trans h.root, h'.noExecuteAvailable.trans h.noExecuteAvailable,
    h'.mappedRamEnd.trans h.mappedRamEnd⟩

/-- The allocator after `Frame::Initialize`, on a machine whose frames all
have addresses below the 52 bits that an entry has room for. -/
structure Addressable (s₀ : Frame.State) : Prop where
  zero_taken : isTaken s₀ 0 = true
  frameCount_le : s₀.frameCount ≤ 2 ^ 40

/-- What the operations on tables do outside of the tables.  Each new table
costs one frame, no frame is given back, and what others have in their runs
stays. -/
structure TableWork (others : List Run) (s s' : State) : Prop where
  counted : s'.frames.freeFrames + s'.tableCount = s.frames.freeFrames + s.tableCount
  reachable : s'.frames.reachableFrames = s.frames.reachableFrames
  taken : ∀ j, isTaken s.frames j = true → isTaken s'.frames j = true
  /-- The frames for new tables are reachable ones. -/
  fresh : ∀ j, isTaken s'.frames j = true → isTaken s.frames j = true ∨ j < s.frames.reachableFrames
  kept : ∀ run ∈ others, s.memory.AgreeOn s'.memory run.address (run.count * SIZE)

theorem TableWork.refl (others : List Run) (s : State) : TableWork others s s :=
  ⟨rfl, rfl, fun _ => id, fun _ => Or.inl, fun _ _ _ _ _ => rfl⟩

theorem TableWork.trans {others : List Run} {s s' s'' : State} (h : TableWork others s s')
    (h' : TableWork others s' s'') : TableWork others s s'' :=
  ⟨h'.counted.trans h.counted, h'.reachable.trans h.reachable,
    fun j hj => h'.taken j (h.taken j hj),
    fun j hj => (h'.fresh j hj).elim (h.fresh j) fun hlt => Or.inr (h.reachable ▸ hlt),
    fun run hrun => (h.kept run hrun).trans (h'.kept run hrun)⟩

structure Owned (s₀ : Frame.State) (s : State) (t : Tree)
    (tables others : List Run) : Prop where
  rep : Represents s.memory s.root t
  tracks : Tracks s₀ s.frames (tables ++ others)
  held : ∀ {d n f}, t.table d n = some f → ∃ run ∈ tables, run.Holds f

variable {s₀ : Frame.State} {s : State} {t : Tree} {tables others : List Run}
  {run : Run} {frames : Frame.State} {n : Nat} {page source stop : BitVec 64}
  {result : Bool × State} {g d f i : Nat} {call : MapCall}

/-- `AllocateTable` changes nothing, or provides a frame of zeros that no
table stands in. -/
theorem allocateTable_cases (hs₀ : Addressable s₀) (h : Tracks s₀ s.frames (tables ++ others)) :
    allocateTable s = (0, s) ∨
      ∃ run g frames, allocateTable s =
          (g * SIZE,
            { s with
              frames := frames
              memory := s.memory.fill (g * SIZE) PAGE_SIZE 0
              tableCount := s.tableCount + 1 }) ∧
        g * SIZE ≠ 0 ∧ g < 2 ^ 40 ∧ run.Holds g ∧ run.count = 1 ∧
        run.limit = s.frames.reachableFrames ∧
        frames.reachableFrames = s.frames.reachableFrames ∧
        Tracks s₀ frames (run :: (tables ++ others)) := by
  rcases h.allocate hs₀.zero_taken 1 with hnone | ⟨run, frames, heq, hne, hcount, hlimit, htr⟩
  · refine Or.inl ?_
    simp only [allocateTable, hnone]
    rfl
  · have hlegal := htr.legal run (List.mem_cons_self ..)
    have hholds : run.Holds run.first := ⟨Nat.le_refl _, by omega⟩
    have hreachable : frames.reachableFrames = s.frames.reachableFrames := by
      rw [← Frame.allocate_reachableFrames s.frames 1, heq]
    refine Or.inr ⟨run, run.first, frames, ?_, ?_, ?_, hholds, hcount, hlimit, hreachable, htr⟩
    · simp only [allocateTable, heq, if_neg hne, ← hlegal.aligned]
    · rw [← hlegal.aligned]
      exact hne
    · have hlim := hlegal.below_limit
      have hle := hlegal.limit_le
      have hfc := hs₀.frameCount_le
      omega

/-- A frame of a new run holds no table yet. -/
theorem Owned.not_table (h : Owned s₀ s t tables others)
    (htr : Tracks s₀ frames (run :: (tables ++ others))) (hg : run.Holds g) (d n : Nat) :
    t.table d n ≠ some g := by
  intro hsome
  obtain ⟨run', hmem, hholds⟩ := h.held hsome
  exact (List.pairwise_cons.1 htr.disjoint).1 run' (List.mem_append_left _ hmem) g ⟨hg, hholds⟩

/-- A table shares no byte with a run of others. -/
theorem Owned.table_outside (h : Owned s₀ s t tables others) (hf : t.table d n = some f)
    (hrun : run ∈ others) :
    f * SIZE + SIZE ≤ run.address ∨ run.address + run.count * SIZE ≤ f * SIZE := by
  have hlegal := h.tracks.legal run (List.mem_append_right _ hrun)
  obtain ⟨run', hmem, hholds⟩ := h.held hf
  exact Frame.Run.outside hlegal.aligned fun hf' =>
    (List.pairwise_append.1 h.tracks.disjoint).2.2 run' hmem run hrun f ⟨hholds, hf'⟩

/-- Writing an entry of a table. -/
theorem Owned.kept_write64 (h : Owned s₀ s t tables others) (hf : t.table d n = some f)
    (hi : i < 512) (e : BitVec 64) (hrun : run ∈ others) :
    s.memory.AgreeOn (s.memory.write64 (f * SIZE + 8 * i) e) run.address (run.count * SIZE) := by
  have hout := h.table_outside hf hrun
  have hsize : SIZE = 4096 := rfl
  refine ByteMemory.agreeOn_write64 ?_
  rw [hsize] at hout ⊢
  omega

/-- What one level of `Descend` leaves behind at the entry `i` of table `n`
at depth `d`. -/
structure Visited (s₀ : Frame.State) (s s' : State) (t : Tree) (others : List Run)
    (d k a : Nat) (u : Bool) (t' : Tree) (tables' : List Run) (g : Nat) : Prop where
  owned : Owned s₀ s' t' tables' others
  setup : SameSetup s s'
  work : TableWork others s s'
  extends_tree : t.Extends t'
  table : t'.table (d + 1) k = some g
  address : (s'.memory.read64 a &&& ADDRESS_MASK).toNat = g * SIZE
  user : u = true → t'.user (d + 1) k = true

/-- `entry |= InTableFlags` on an entry that points to a table. -/
theorem Owned.openEntry (h : Owned s₀ s t tables others) (hd : d ≤ 2) (hf : t.table d n = some f)
    (hi : i < 512) (hg : t.table (d + 1) (n * 512 + i) = some g) (u : Bool) :
    Visited s₀ s (openEntry s (f * SIZE + 8 * i) (userFlag u)) t others d
      (n * 512 + i) (f * SIZE + 8 * i) u
      (t.setTable (d + 1) (n * 512 + i) g (t.user (d + 1) (n * 512 + i) || u))
      tables g := by
  have hword := h.rep.slot hf hi
  rw [Tree.word, if_neg (by omega), hg] at hword
  have hmem : (Paging.openEntry s (f * SIZE + 8 * i) (userFlag u)).memory =
      s.memory.write64 (f * SIZE + 8 * i) (tableEntry g (t.user (d + 1) (n * 512 + i) || u)) := by
    simp only [Paging.openEntry, hword, tableEntry_or_userFlag]
  have huser : t.user (d + 1) (n * 512 + i) = true →
      (t.user (d + 1) (n * 512 + i) || u) = true := fun htrue => by simp [htrue]
  have hext : t.Extends (t.setTable (d + 1) (n * 512 + i) g (t.user (d + 1) (n * 512 + i) || u)) :=
    t.extends_setTable (fun f' hf' => Option.some.inj (hf'.symm.trans hg)) huser
  refine ⟨⟨?_, h.tracks, ?_⟩, ⟨rfl, rfl, rfl⟩,
    ⟨rfl, rfl, fun _ => id, fun _ => Or.inl, fun run hrun => h.kept_write64 hf hi _ hrun⟩, hext,
    Tree.setTable_self .., ?_, ?_⟩
  · rw [hmem]
    exact h.rep.openTable hd hf hi hg _ huser
  · intro d' n' f' hsome
    by_cases hsame : d' = d + 1 ∧ n' = n * 512 + i
    · obtain ⟨rfl, rfl⟩ := hsame
      rw [Tree.setTable_self] at hsome
      exact h.held (hg.trans hsome)
    · rw [Tree.setTable_of_ne _ _ _ hsame] at hsome
      exact h.held hsome
  · rw [hmem, ByteMemory.read64_write64]
    exact tableEntry_address _ (h.rep.frame_lt hg)
  · intro htrue
    exact (if_pos ⟨rfl, rfl⟩).trans (by simp [htrue])

/-- Linking the table that `AllocateTable` provided. -/
theorem Owned.link (h : Owned s₀ s t tables others) (hd : d ≤ 2) (hf : t.table d n = some f)
    (hi : i < 512) (hnone : t.table (d + 1) (n * 512 + i) = none) (hlt : g < 2 ^ 40)
    (hholds : run.Holds g) (htr : Tracks s₀ frames (run :: (tables ++ others))) :
    Owned s₀
      { s with
        frames := frames
        memory := (s.memory.fill (g * SIZE) PAGE_SIZE 0).write64 (f * SIZE + 8 * i)
          (BitVec.ofNat 64 (g * SIZE) ||| PRESENT ||| WRITABLE)
        tableCount := s.tableCount + 1 }
      (t.setTable (d + 1) (n * 512 + i) g false) (run :: tables) others := by
  have hfresh := h.not_table htr hholds
  have hsize : SIZE = 4096 := rfl
  have hpage : PAGE_SIZE = 4096 := rfl
  have hfill : Represents (s.memory.fill (g * SIZE) PAGE_SIZE 0) s.root t := by
    refine h.rep.congr fun d' n' f' hf' => ByteMemory.agreeOn_fill ?_
    have hne : f' ≠ g := fun heq => hfresh d' n' (heq ▸ hf')
    rw [hsize, hpage]
    omega
  have hzero : ∀ j < 512, (s.memory.fill (g * SIZE) PAGE_SIZE 0).read64 (g * SIZE + 8 * j) = 0 :=
    fun j hj => ByteMemory.read64_fill_zero (by omega) (by rw [hsize, hpage]; omega)
  refine ⟨?_, htr, ?_⟩
  · rw [tableEntry_false]
    exact hfill.create hd hf hi hnone false hlt hfresh hzero
  · intro d' n' f' hsome
    by_cases hsame : d' = d + 1 ∧ n' = n * 512 + i
    · obtain ⟨rfl, rfl⟩ := hsame
      rw [Tree.setTable_self] at hsome
      exact ⟨run, List.mem_cons_self .., Option.some.inj hsome ▸ hholds⟩
    · rw [Tree.setTable_of_ne _ _ _ hsame] at hsome
      obtain ⟨run', hmem, hrun'⟩ := h.held hsome
      exact ⟨run', List.mem_cons_of_mem _ hmem, hrun'⟩

/-- Linking a table costs its frame and writes to tables alone. -/
theorem Owned.link_work (h : Owned s₀ s t tables others) (hf : t.table d n = some f) (hi : i < 512)
    (hholds : run.Holds g) (hcount : run.count = 1) (hlimit : run.limit = s.frames.reachableFrames)
    (hreachable : frames.reachableFrames = s.frames.reachableFrames)
    (htr : Tracks s₀ frames (run :: (tables ++ others))) (e : BitVec 64) :
    TableWork others s
      { s with
        frames := frames
        memory := (s.memory.fill (g * SIZE) PAGE_SIZE 0).write64 (f * SIZE + 8 * i) e
        tableCount := s.tableCount + 1 } := by
  have hbefore := h.tracks.counted
  have hafter := htr.counted
  rw [List.map_cons, List.sum_cons, hcount] at hafter
  refine ⟨?_, hreachable, fun j hj => ?_, fun j hj => ?_, fun run' hrun' => ?_⟩
  · dsimp only
    omega
  · rw [h.tracks.isTaken_eq j] at hj
    rw [htr.isTaken_eq j, List.any_cons, Bool.or_left_comm, hj, Bool.or_true]
  · rw [htr.isTaken_eq j, List.any_cons, Bool.or_left_comm, Bool.or_eq_true, decide_eq_true_eq,
      ← h.tracks.isTaken_eq j] at hj
    refine hj.symm.imp_right fun hnew => ?_
    have hbelow := (htr.legal run List.mem_cons_self).below_limit
    exact hlimit ▸ Nat.lt_of_lt_of_le hnew.2 hbelow
  · have hlegal := htr.legal run' (List.mem_cons_of_mem _ (List.mem_append_right _ hrun'))
    have hout := Frame.Run.outside hlegal.aligned fun hg =>
      (List.pairwise_cons.1 htr.disjoint).1 run' (List.mem_append_right _ hrun') g ⟨hholds, hg⟩
    have hfilled : s.memory.AgreeOn (s.memory.fill (g * SIZE) PAGE_SIZE 0) run'.address
        (run'.count * SIZE) := ByteMemory.agreeOn_fill hout.symm
    have hout' := h.table_outside hf hrun'
    refine hfilled.trans (ByteMemory.agreeOn_write64 ?_)
    rw [show SIZE = 4096 from rfl] at *
    omega

/-- One level of `Descend` finds no frame and changes nothing, or leaves an
entry that points to a table and is as open as the call asks for. -/
theorem Owned.visit (hs₀ : Addressable s₀) (h : Owned s₀ s t tables others) (hd : d ≤ 2)
    (hf : t.table d n = some f) (hi : i < 512) (u : Bool) :
    ensurePresent s (f * SIZE + 8 * i) = (false, s) ∨
      ∃ s' t' tables' g, ensurePresent s (f * SIZE + 8 * i) = (true, s') ∧
        Visited s₀ s (Paging.openEntry s' (f * SIZE + 8 * i) (userFlag u)) t others d
          (n * 512 + i) (f * SIZE + 8 * i) u t' tables' g := by
  have hword := h.rep.slot hf hi
  rw [Tree.word, if_neg (by omega)] at hword
  cases hg : t.table (d + 1) (n * 512 + i) with
  | some g =>
    rw [hg] at hword
    refine Or.inr ⟨s, _, tables, g, ?_, h.openEntry hd hf hi hg u⟩
    simp only [ensurePresent, hword, if_neg (tableEntry_present _ (h.rep.frame_lt hg))]
  | none =>
    rw [hg] at hword
    have habsent : s.memory.read64 (f * SIZE + 8 * i) &&& PRESENT = 0 := by
      rw [hword]
      exact BitVec.zero_and
    have hgrow : ∀ g, t.Extends (t.setTable (d + 1) (n * 512 + i) g false) :=
      fun g => t.extends_setTable (fun f' hf' => by cases hg.symm.trans hf')
        (fun hu => by rw [h.rep.user_false hg] at hu; exact hu)
    rcases allocateTable_cases hs₀ h.tracks with
      heq | ⟨run, g, frames, heq, hne, hlt, hholds, hcount, hlimit, hreachable, htr⟩
    · refine Or.inl ?_
      simp only [ensurePresent, if_pos habsent, heq, if_true]
    · have hlink := h.link hd hf hi hg hlt hholds htr
      have hopen := hlink.openEntry hd ((hgrow g).table hf) hi (Tree.setTable_self ..) u
      refine Or.inr ⟨_, _, run :: tables, g, ?_, ⟨hopen.owned, ?_,
        (h.link_work hf hi hholds hcount hlimit hreachable htr _).trans hopen.work,
        (hgrow g).trans hopen.extends_tree, hopen.table, hopen.address, hopen.user⟩⟩
      · simp only [ensurePresent, if_pos habsent, heq, if_neg hne]
      · exact ⟨hopen.setup.root, hopen.setup.noExecuteAvailable,
          hopen.setup.mappedRamEnd⟩

/-! ## `Descend` -/

/-- What the loop of `Descend` leaves behind when `n` levels were to go. -/
structure Descended (s₀ : Frame.State) (s : State) (t : Tree) (others : List Run)
    (v : BitVec 64) (u : Bool) (n : Nat) (result : Option Nat × State)
    (t' : Tree) (tables' : List Run) : Prop where
  owned : Owned s₀ result.2 t' tables' others
  setup : SameSetup s result.2
  work : TableWork others s result.2
  extends_tree : t.Extends t'
  /-- The answer is the table of the leaf, and the way to it is open. -/
  found : ∀ table, result.1 = some table → ∃ g, table = g * SIZE ∧
    t'.table 3 (nodeOf v 3) = some g ∧ (u = true → t'.openFrom v n = true)

theorem descendLoop_spec (hs₀ : Addressable s₀) (v : BitVec 64) (u : Bool) :
    ∀ {n : Nat} {s : State} {t : Tree} {tables : List Run} {f : Nat}, n ≤ 3 →
      Owned s₀ s t tables others → t.table (3 - n) (nodeOf v (3 - n)) = some f →
      ∃ t' tables', Descended s₀ s t others v u n
        (descendLoop v (userFlag u) LEAF_LEVEL n s (f * SIZE)) t' tables' := by
  intro n
  induction n with
  | zero =>
    intro s t tables f _ h hf
    refine ⟨t, tables, h, SameSetup.refl s, TableWork.refl others s, Tree.Extends.refl t, ?_⟩
    intro table htable
    exact ⟨f, (Option.some.inj htable).symm, hf, fun _ => rfl⟩
  | succ n ih =>
    intro s t tables f hn h hf
    have hdepth : 3 - n = 3 - (n + 1) + 1 := by omega
    have hlevel := level_of_depth hn
    have hnode := nodeOf_succ v (d := 3 - (n + 1)) (by omega)
    rw [← hdepth] at hnode
    have hvisit := h.visit hs₀ (by omega) hf (indexAt_lt v (4 - (3 - (n + 1)))) u
    rw [descendLoop, entryAddress, hlevel]
    rcases hvisit with hfail | ⟨s', t', tables', g, hok, hv⟩
    · simp only [hfail]
      exact ⟨t, tables, h, SameSetup.refl s, TableWork.refl others s, Tree.Extends.refl t,
        fun _ hsome => by cases hsome⟩
    · rw [← hnode] at hv
      have htable := hv.table
      have huser := hv.user
      rw [← hdepth] at htable huser
      obtain ⟨t'', tables'', hd⟩ := ih (by omega) hv.owned htable
      simp only [hok, if_true, hv.address]
      refine ⟨t'', tables'', hd.owned, hv.setup.trans hd.setup, hv.work.trans hd.work,
        hv.extends_tree.trans hd.extends_tree, ?_⟩
      intro table hsome
      obtain ⟨g', hg', hleaf, hopen⟩ := hd.found table hsome
      refine ⟨g', hg', hleaf, fun htrue => ?_⟩
      rw [Tree.openFrom, hd.extends_tree.user (huser htrue), hopen htrue]
      rfl

/-- `Descend` to the leaf's table. -/
theorem descend_spec (hs₀ : Addressable s₀) (h : Owned s₀ s t tables others)
    (v : BitVec 64) (u : Bool) :
    ∃ t' tables', Descended s₀ s t others v u 3
      (descend s v LEAF_LEVEL (userFlag u)) t' tables' := by
  obtain ⟨f, hf, hroot⟩ := h.rep.root_eq
  unfold descend
  rw [hroot]
  exact descendLoop_spec hs₀ v u (n := 3) (by decide) h
    (by rw [Nat.sub_self, nodeOf_zero]; exact hf)

/-! ## `Map` as an operation on the leaves -/

/-- The flat counterpart of the loop of `Map`: write the leaves of `n` pages,
one after the other. -/
def mapPages (flags : BitVec 64) :
    Nat → BitVec 64 → BitVec 64 → (Nat → BitVec 64) → Nat → BitVec 64
  | 0, _, _, leaf => leaf
  | n + 1, page, source, leaf =>
    mapPages flags n (page + BitVec.ofNat 64 PAGE_SIZE)
      (source + BitVec.ofNat 64 PAGE_SIZE)
      (Function.update leaf (pageNumber page) (source ||| flags))

/-- The address that is `k` pages above another. -/
def pagesAbove (page : BitVec 64) (k : Nat) : BitVec 64 :=
  page + BitVec.ofNat 64 (k * PAGE_SIZE)

theorem pagesAbove_zero (page : BitVec 64) : pagesAbove page 0 = page := by
  simp [pagesAbove]

theorem pagesAbove_succ (page : BitVec 64) (k : Nat) :
    pagesAbove (page + BitVec.ofNat 64 PAGE_SIZE) k = pagesAbove page (k + 1) := by
  rw [pagesAbove, pagesAbove, BitVec.add_assoc, ← BitVec.ofNat_add, Nat.add_one_mul,
    Nat.add_comm PAGE_SIZE]

theorem mapPages_of_ne (flags : BitVec 64) {leaf : Nat → BitVec 64} {q : Nat}
    (h : ∀ k < n, pageNumber (pagesAbove page k) ≠ q) :
    mapPages flags n page source leaf q = leaf q := by
  induction n generalizing page source leaf with
  | zero => rfl
  | succ n ih =>
    rw [mapPages, ih fun k hk => by rw [pagesAbove_succ]; exact h (k + 1) (by omega)]
    have h0 := h 0 (Nat.succ_pos n)
    rw [pagesAbove_zero] at h0
    exact Function.update_of_ne (Ne.symm h0) ..

/-- The leaf of a page that no later page of the range shares. -/
theorem mapPages_at (flags : BitVec 64) {k : Nat} (hk : k < n) {leaf : Nat → BitVec 64}
    (h : ∀ j < n, k < j → pageNumber (pagesAbove page j) ≠ pageNumber (pagesAbove page k)) :
    mapPages flags n page source leaf (pageNumber (pagesAbove page k)) =
      pagesAbove source k ||| flags := by
  induction n generalizing page source leaf k with
  | zero => exact absurd hk (Nat.not_lt_zero k)
  | succ n ih =>
    rw [mapPages]
    cases k with
    | zero =>
      rw [mapPages_of_ne]
      · rw [pagesAbove_zero, pagesAbove_zero, Function.update_self]
      · intro j hj
        rw [pagesAbove_succ]
        exact h (j + 1) (by omega) (by omega)
    | succ k =>
      rw [← pagesAbove_succ, ← pagesAbove_succ]
      refine ih (by omega) fun j hj hkj => ?_
      rw [pagesAbove_succ, pagesAbove_succ]
      exact h (j + 1) (by omega) (by omega)

/-- The leaf of any page of the range is one that the range wrote. -/
theorem mapPages_visited (flags : BitVec 64) {k : Nat} (hk : k < n) (page source : BitVec 64)
    (leaf : Nat → BitVec 64) :
    ∃ j < n, mapPages flags n page source leaf (pageNumber (pagesAbove page k)) =
      pagesAbove source j ||| flags := by
  induction n generalizing page source leaf k with
  | zero => exact absurd hk (Nat.not_lt_zero k)
  | succ n ih =>
    rw [mapPages]
    -- A later page of the same number wins.
    by_cases hlater : ∃ i < n, pageNumber (pagesAbove page (i + 1)) = pageNumber (pagesAbove page k)
    · obtain ⟨i, hi, hsame⟩ := hlater
      obtain ⟨j, hj, heq⟩ := ih hi (page + BitVec.ofNat 64 PAGE_SIZE)
        (source + BitVec.ofNat 64 PAGE_SIZE)
        (Function.update leaf (pageNumber page) (source ||| flags))
      rw [pagesAbove_succ, hsame] at heq
      exact ⟨j + 1, by omega, by rw [heq, pagesAbove_succ]⟩
    · have hfirst : k = 0 := by
        by_contra hne
        exact hlater ⟨k - 1, by omega, by rw [Nat.sub_add_cancel (by omega)]⟩
      subst hfirst
      refine ⟨0, Nat.succ_pos n, ?_⟩
      rw [mapPages_of_ne _ fun i hi hsame => hlater ⟨i, hi, by rw [← pagesAbove_succ, hsame]⟩,
        pagesAbove_zero, pagesAbove_zero, Function.update_self]

/-- Every leaf is an old one or one that the range wrote. -/
theorem mapPages_cases (flags : BitVec 64) (n : Nat) (page source : BitVec 64)
    (leaf : Nat → BitVec 64) (q : Nat) :
    mapPages flags n page source leaf q = leaf q ∨
      ∃ k < n, q = pageNumber (pagesAbove page k) ∧
        mapPages flags n page source leaf q = pagesAbove source k ||| flags := by
  induction n generalizing page source leaf with
  | zero => exact Or.inl rfl
  | succ n ih =>
    rw [mapPages]
    rcases ih (page + BitVec.ofNat 64 PAGE_SIZE) (source + BitVec.ofNat 64 PAGE_SIZE)
        (Function.update leaf (pageNumber page) (source ||| flags)) with
      hold | ⟨k, hk, hq, hnew⟩
    · rw [hold]
      by_cases hpage : q = pageNumber page
      · refine Or.inr ⟨0, Nat.succ_pos n, ?_, ?_⟩
        · rw [pagesAbove_zero, hpage]
        · rw [pagesAbove_zero, hpage, Function.update_self]
      · exact Or.inl (Function.update_of_ne hpage ..)
    · refine Or.inr ⟨k + 1, by omega, ?_, ?_⟩
      · rw [hq, pagesAbove_succ]
      · rw [hnew, pagesAbove_succ]

/-! ## The loop of `Map` -/

theorem aligned_add {x : BitVec 64} (hx : x.toNat % PAGE_SIZE = 0) :
    (x + BitVec.ofNat 64 PAGE_SIZE).toNat % PAGE_SIZE = 0 := by
  rw [BitVec.toNat_add, BitVec.toNat_ofNat]
  rw [show PAGE_SIZE = 4096 from rfl] at *
  omega

/-- What the loop of `Map` leaves behind after `n` pages. -/
structure Mapped (s₀ : Frame.State) (s : State) (t : Tree) (others : List Run)
    (flags stop page source : BitVec 64) (result : Bool × State) (n : Nat)
    (t' : Tree) (tables' : List Run) : Prop where
  owned : Owned s₀ result.2 t' tables' others
  setup : SameSetup s result.2
  work : TableWork others s result.2
  leaf : t'.leaf = mapPages flags n page source t.leaf
  below : ∀ k < n, pagesAbove page k < stop
  complete : result.1 = true → ¬pagesAbove page n < stop

/-- The loop stops at the end of its range. -/
theorem Mapped.le_of_stop {flags : BitVec 64} {m : Nat} {t' : Tree} {tables' : List Run}
    (h : Mapped s₀ s t others flags stop page source result n t' tables')
    (hstop : stop = pagesAbove page m) : n ≤ m := by
  by_contra hgt
  exact absurd (hstop ▸ h.below m (by omega)) (BitVec.lt_irrefl _)

/-- Writing the entry of one page. -/
theorem Owned.setLeaf (h : Owned s₀ s t tables others) {v : BitVec 64}
    (hg : t.table 3 (nodeOf v 3) = some g) {e : BitVec 64}
    (he : e.getLsbD 2 = true → t.openFrom v 3 = true) :
    Owned s₀ { s with memory := s.memory.write64 (entryAddress (g * SIZE) v LEAF_LEVEL) e }
      (t.setLeaf (pageNumber v) e) tables others := by
  have hpage : pageNumber v = nodeOf v 3 * 512 + indexAt v 1 :=
    nodeOf_succ v (d := 3) (by decide)
  have hopen : e.getLsbD 2 = true → t.Open (nodeOf v 3 * 512 + indexAt v 1) := by
    intro hbit
    rw [← hpage]
    exact (t.open_iff v).2 (he hbit)
  refine ⟨?_, h.tracks, h.held⟩
  rw [hpage]
  exact h.rep.setLeaf hg (indexAt_lt v 1) hopen

/-- The number of pages that the loop of `Map` writes.  It stops at the end of
the range, or at the first page that it gets no table for. -/
def mapRounds (flags tableFlags stop : BitVec 64) :
    Nat → BitVec 64 → BitVec 64 → State → Nat
  | 0, _, _, _ => 0
  | fuel + 1, page, source, s =>
    if page < stop then
      match descend s page LEAF_LEVEL tableFlags with
      | (none, _) => 0
      | (some table, s) =>
        mapRounds flags tableFlags stop fuel (page + BitVec.ofNat 64 PAGE_SIZE)
          (source + BitVec.ofNat 64 PAGE_SIZE)
          { s with
            memory := s.memory.write64 (entryAddress table page LEAF_LEVEL) (source ||| flags) } + 1
    else 0

/-- The pages that the loop writes lie below the end. -/
theorem mapRounds_below {flags tableFlags : BitVec 64} :
    ∀ {fuel : Nat} {page source : BitVec 64} {s : State} {i : Nat},
      i < mapRounds flags tableFlags stop fuel page source s → pagesAbove page i < stop := by
  intro fuel
  induction fuel with
  | zero => exact fun hi => absurd hi (Nat.not_lt_zero _)
  | succ fuel ih =>
    intro page source s i hi
    rw [mapRounds] at hi
    split at hi
    · rename_i hlt
      split at hi
      · exact absurd hi (Nat.not_lt_zero _)
      · cases i with
        | zero => rwa [pagesAbove_zero]
        | succ i =>
          rw [← pagesAbove_succ]
          exact ih (Nat.lt_of_succ_lt_succ hi)
    · exact absurd hi (Nat.not_lt_zero _)

theorem mapLoop_spec (hs₀ : Addressable s₀) {flags : BitVec 64} {u : Bool}
    (hflags : flags.getLsbD 2 = u) :
    ∀ {fuel : Nat} {page source : BitVec 64} {s : State} {t : Tree}
      {tables : List Run} {result : Bool × State},
      source.toNat % PAGE_SIZE = 0 → Owned s₀ s t tables others →
      mapLoop flags (userFlag u) stop fuel page source s = .ok result →
      ∃ t' tables', Mapped s₀ s t others flags stop page source result
        (mapRounds flags (userFlag u) stop fuel page source s) t' tables' := by
  intro fuel
  induction fuel with
  | zero =>
    intro page source s t tables result _ _ hmap
    exact absurd hmap nofun
  | succ fuel ih =>
    intro page source s t tables result hsource h hmap
    rw [mapLoop] at hmap
    rw [mapRounds]
    by_cases hlt : page < stop
    · rw [if_pos hlt] at hmap ⊢
      obtain ⟨t', tables', hd⟩ := descend_spec hs₀ h page u
      rcases hres : descend s page LEAF_LEVEL (userFlag u) with ⟨table, s'⟩
      rw [hres] at hmap hd
      cases table with
      | none =>
        obtain rfl := Except.ok.inj hmap
        exact ⟨t', tables', hd.owned, hd.setup, hd.work, hd.extends_tree.leaf,
          fun k hk => absurd hk (Nat.not_lt_zero k), nofun⟩
      | some table =>
        obtain ⟨g, rfl, hg, hopen⟩ := hd.found table rfl
        have hbit : (source ||| flags).getLsbD 2 = true → t'.openFrom page 3 = true := by
          intro hbit
          rw [BitVec.getLsbD_or, getLsbD_of_aligned hsource (by decide), hflags,
            Bool.false_or] at hbit
          exact hopen hbit
        obtain ⟨t'', tables'', hm⟩ := ih (aligned_add hsource) (hd.owned.setLeaf hg hbit) hmap
        have hwrite : TableWork others s' { s' with
            memory := s'.memory.write64 (entryAddress (g * SIZE) page LEAF_LEVEL)
              (source ||| flags) } :=
          ⟨rfl, rfl, fun _ => id, fun _ => Or.inl,
            fun run hrun => hd.owned.kept_write64 hg (indexAt_lt page 1) _ hrun⟩
        refine ⟨t'', tables'', hm.owned, hd.setup.trans ⟨hm.setup.root,
          hm.setup.noExecuteAvailable, hm.setup.mappedRamEnd⟩,
          hd.work.trans (hwrite.trans hm.work), ?_, ?_, ?_⟩
        · rw [hm.leaf, mapPages, Tree.setLeaf, hd.extends_tree.leaf]
        · intro k hk
          cases k with
          | zero => rwa [pagesAbove_zero]
          | succ k =>
            rw [← pagesAbove_succ]
            exact hm.below k (Nat.lt_of_succ_lt_succ hk)
        · intro hok
          rw [← pagesAbove_succ]
          exact hm.complete hok
    · rw [if_neg hlt] at hmap ⊢
      obtain rfl := Except.ok.inj hmap
      refine ⟨t, tables, h, SameSetup.refl s, TableWork.refl others s, rfl,
        fun k hk => absurd hk (Nat.not_lt_zero k), fun _ => ?_⟩
      rwa [pagesAbove_zero]

/-- The loop ends when no page of the range is the last of the address
space. -/
theorem mapLoop_ok {flags tableFlags : BitVec 64} (hstop : stop.toNat + PAGE_SIZE ≤ 2 ^ 64) :
    ∀ {fuel : Nat} {page source : BitVec 64} {s : State},
      stop.toNat ≤ page.toNat + fuel * PAGE_SIZE →
      ∃ result, mapLoop flags tableFlags stop (fuel + 1) page source s = .ok result := by
  have hsize : PAGE_SIZE = 4096 := rfl
  intro fuel
  induction fuel with
  | zero =>
    intro page source s hfuel
    have hnot : ¬page < stop := by
      rw [BitVec.lt_def]
      omega
    exact ⟨_, by rw [mapLoop, if_neg hnot]⟩
  | succ fuel ih =>
    intro page source s hfuel
    rw [mapLoop]
    split
    · rename_i hlt
      rw [BitVec.lt_def] at hlt
      split
      · exact ⟨_, rfl⟩
      · refine ih ?_
        rw [BitVec.toNat_add, BitVec.toNat_ofNat]
        rw [hsize] at hfuel hstop ⊢
        omega
    · exact ⟨_, rfl⟩

/-! ## `Map` -/

theorem MapCall.tableFlags_eq (call : MapCall) :
    call.tableFlags = userFlag (decide (call.privilege = .user)) := by
  unfold MapCall.tableFlags userFlag
  by_cases h : call.privilege = .user <;> simp [h]

theorem MapCall.toNat_firstPage (call : MapCall) :
    call.firstPage.toNat = call.virtual.toNat / PAGE_SIZE * PAGE_SIZE :=
  toNat_and_not_OFFSET_MASK _

theorem MapCall.toNat_source (call : MapCall) :
    call.source.toNat = call.physical.toNat / PAGE_SIZE * PAGE_SIZE :=
  toNat_and_not_OFFSET_MASK _

/-- The flags that a call writes into its leaves. -/
def MapCall.flags (noExecute : Bool) (call : MapCall) : BitVec 64 :=
  flagsFor noExecute call.access call.privilege call.caching

/-- The number of pages that a call of `Map` writes. -/
def MapCall.rounds (s : State) (call : MapCall) : Nat :=
  mapRounds (call.flags s.noExecuteAvailable) call.tableFlags call.stop
    (call.stop.toNat / PAGE_SIZE + 2) call.firstPage call.source s

theorem map_rounds (hs₀ : Addressable s₀) (h : Owned s₀ s t tables others)
    (hmap : map s call = .ok result) :
    ∃ t' tables', Mapped s₀ s t others (call.flags s.noExecuteAvailable) call.stop
      call.firstPage call.source result (call.rounds s) t' tables' := by
  unfold map at hmap
  rw [call.tableFlags_eq] at hmap
  rw [MapCall.rounds, call.tableFlags_eq]
  refine mapLoop_spec hs₀ ?_ ?_ h hmap
  · rw [MapCall.flags, getLsbD_flagsFor _ _ _ _ (by decide)]
    simp
  · rw [call.toNat_source]
    exact Nat.mul_mod_left _ _

/-- `Map` writes leaves of its range in order, and nothing else. -/
theorem map_spec (hs₀ : Addressable s₀) (h : Owned s₀ s t tables others)
    (hmap : map s call = .ok result) :
    ∃ n t' tables', Mapped s₀ s t others (call.flags s.noExecuteAvailable) call.stop
      call.firstPage call.source result n t' tables' :=
  ⟨call.rounds s, map_rounds hs₀ h hmap⟩

theorem toNat_pagesAbove {x : BitVec 64} {k : Nat} (h : x.toNat + k * PAGE_SIZE < 2 ^ 64) :
    (pagesAbove x k).toNat = x.toNat + k * PAGE_SIZE := by
  rw [pagesAbove, BitVec.toNat_add, BitVec.toNat_ofNat, Nat.add_mod_mod]
  exact Nat.mod_eq_of_lt h

/-- The pages of a call do not wrap around. -/
theorem Mapped.page_lt {flags : BitVec 64} {t' : Tree} {tables' : List Run}
    (h : Mapped s₀ s t others flags stop page source result n t' tables')
    (hstop : stop.toNat + PAGE_SIZE ≤ 2 ^ 64) :
    ∀ k ≤ n, page.toNat + k * PAGE_SIZE < 2 ^ 64 := by
  intro k
  induction k with
  | zero => exact fun _ => by have := page.isLt; omega
  | succ k ih =>
    intro hk
    have hprev := ih (by omega)
    have hbelow := h.below k (by omega)
    rw [BitVec.lt_def, toNat_pagesAbove hprev] at hbelow
    rw [Nat.add_one_mul]
    omega

/-- `Map` returns when its range ends before the last page. -/
theorem map_ok (s : State) (hstop : call.virtual.toNat + call.size.toNat ≤ 2 ^ 64 - PAGE_SIZE) :
    ∃ result, map s call = .ok result := by
  have hsize : PAGE_SIZE = 4096 := rfl
  have hsum : call.stop.toNat = call.virtual.toNat + call.size.toNat := by
    rw [MapCall.stop, BitVec.toNat_add]
    exact Nat.mod_eq_of_lt (by omega)
  unfold map
  refine @mapLoop_ok _ _ _ (by omega) (call.stop.toNat / PAGE_SIZE + 1) _ _ _ ?_
  rw [hsize]
  omega

/-! ## What others do -/

/-- Others get a run of frames. -/
theorem Owned.handOut (h : Owned s₀ s t tables others)
    (htr : Tracks s₀ frames (run :: (tables ++ others))) :
    Owned s₀ { s with frames := frames } t tables (run :: others) :=
  ⟨h.rep, htr.perm List.perm_middle.symm, h.held⟩

/-- Others write to frames that they hold. -/
theorem Owned.setMemory (h : Owned s₀ s t tables others) (hrun : run ∈ others) {memory : ByteMemory}
    (hmemory : ∀ a, a < run.address ∨ run.address + run.count * SIZE ≤ a → memory a = s.memory a) :
    Owned s₀ { s with memory := memory } t tables others := by
  refine ⟨h.rep.congr fun d n f hf a hlo hhi => hmemory a ?_, h.tracks, h.held⟩
  have hout := h.table_outside hf hrun
  omega

end X64HK.Paging
