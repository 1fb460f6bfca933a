import X64HK.Memory.PagingFlat

/-!
# Which frames user pages show

`Leaves noExecute users leaf` says what the entries of all pages have in
common, whoever mapped them: a page that ring 3 can read shows a frame of
one of the runs in `users`, no two such pages show the same frame, and a
page is never writable and executable at once.

* `Leaves.map_kernel`: mapping for the kernel keeps this, whatever is
  mapped.
* `Leaves.map_user`: so does mapping a new run for ring 3.
* `tableAt` finds the page tables in memory, and `Owned.tableAt_holds` says
  that each of them stands in a run of the tables.
-/

namespace X64HK.Paging

open X64HK.Frame (SIZE Run Tracks)

/-- The number of the frame that an entry shows. -/
def leafFrame (e : BitVec 64) : Nat := (e &&& ADDRESS_MASK).toNat / PAGE_SIZE

structure Leaves (noExecute : Bool) (users : List Run) (leaf : Nat → BitVec 64) : Prop where
  backed : ∀ {q}, (leaf q).getLsbD 2 = true → ∃ run ∈ users, run.Holds (leafFrame (leaf q))
  injective : ∀ {q q'}, (leaf q).getLsbD 2 = true → (leaf q').getLsbD 2 = true →
    leafFrame (leaf q) = leafFrame (leaf q') → q = q'
  writable_noExecute : noExecute = true → ∀ {q}, (leaf q).getLsbD 1 = true →
    (leaf q).getLsbD 63 = true

variable {noExecute : Bool} {users : List Run} {leaf : Nat → BitVec 64}
  {call : MapCall} {s : State} {t : Tree}

theorem Leaves.mono (h : Leaves noExecute users leaf) {users' : List Run}
    (hsub : users ⊆ users') : Leaves noExecute users' leaf where
  backed := by
    intro q hq
    obtain ⟨run, hrun, hholds⟩ := h.backed hq
    exact ⟨run, hsub hrun, hholds⟩
  injective := h.injective
  writable_noExecute := h.writable_noExecute

/-! ## Entries that `Map` writes -/

theorem aligned_pagesAbove {x : BitVec 64} (hx : x.toNat % PAGE_SIZE = 0) (k : Nat) :
    (pagesAbove x k).toNat % PAGE_SIZE = 0 := by
  rw [pagesAbove, BitVec.toNat_add, BitVec.toNat_ofNat]
  rw [show PAGE_SIZE = 4096 from rfl] at *
  omega

theorem MapCall.source_aligned (call : MapCall) : call.source.toNat % PAGE_SIZE = 0 := by
  rw [call.toNat_source]
  exact Nat.mul_mod_left _ _

/-- The frame of an entry is the frame of its source. -/
theorem leafFrame_entry {source : BitVec 64} (haligned : source.toNat % PAGE_SIZE = 0)
    (hlt : source.toNat < 2 ^ 52) (call : MapCall) (noExecute : Bool) :
    leafFrame (source ||| call.flags noExecute) = source.toNat / PAGE_SIZE := by
  rw [leafFrame, call.entry_address haligned hlt]

/-- An entry that `Map` writes is not writable and executable at once. -/
theorem MapCall.writable_noExecute (call : MapCall) {source : BitVec 64}
    (hsource : source.toNat % PAGE_SIZE = 0) (h : (source ||| call.flags true).getLsbD 1 = true) :
    (source ||| call.flags true).getLsbD 63 = true := by
  rw [getLsbD_entry hsource (by decide), call.flags_writable, decide_eq_true_eq] at h
  rw [BitVec.getLsbD_or, call.flags_noExecute, h]
  simp

theorem Leaves.map_noExecute (h : Leaves noExecute users leaf) (n : Nat) (hnx : noExecute = true)
    {q : Nat}
    (hq : (mapPages (call.flags noExecute) n call.firstPage call.source leaf q).getLsbD 1 = true) :
    (mapPages (call.flags noExecute) n call.firstPage call.source leaf q).getLsbD 63 = true := by
  subst hnx
  rcases mapPages_cases (call.flags true) n call.firstPage call.source leaf q with
    heq | ⟨k, -, -, heq⟩
  · rw [heq] at hq ⊢
    exact h.writable_noExecute rfl hq
  · rw [heq] at hq ⊢
    exact call.writable_noExecute (aligned_pagesAbove call.source_aligned k) hq

/-- Mapping for the kernel creates no page for ring 3. -/
theorem Leaves.map_kernel (h : Leaves noExecute users leaf) (hkernel : call.privilege = .kernel)
    (n : Nat) :
    Leaves noExecute users (mapPages (call.flags noExecute) n call.firstPage call.source leaf) := by
  have hnew : ∀ k, ((pagesAbove call.source k) ||| call.flags noExecute).getLsbD 2 = false := by
    intro k
    rw [getLsbD_entry (aligned_pagesAbove call.source_aligned k) (by decide), call.flags_user,
      hkernel]
    rfl
  -- A page that ring 3 can read kept its entry.
  have hold : ∀ {q}, (mapPages (call.flags noExecute) n call.firstPage call.source
      leaf q).getLsbD 2 = true →
      mapPages (call.flags noExecute) n call.firstPage call.source leaf q = leaf q := by
    intro q hq
    rcases mapPages_cases (call.flags noExecute) n call.firstPage call.source leaf q with
      heq | ⟨k, -, -, heq⟩
    · exact heq
    · rw [heq, hnew] at hq
      exact Bool.noConfusion hq
  refine ⟨?_, ?_, ?_⟩
  · intro q hq
    have heq := hold hq
    rw [heq] at hq ⊢
    exact h.backed hq
  · intro q q' hq hq' hframe
    have heq := hold hq
    have heq' := hold hq'
    rw [heq] at hq hframe
    rw [heq'] at hq' hframe
    exact h.injective hq hq' hframe
  · exact h.map_noExecute n

/-- The pages of a call for a run show its frames one after the other. -/
theorem leafFrame_of_run {run : Run} (hsource : call.source.toNat = run.first * PAGE_SIZE)
    (hbound : (run.first + run.count) * PAGE_SIZE ≤ 2 ^ 52) (noExecute : Bool) {k : Nat}
    (hk : k < run.count) :
    leafFrame ((pagesAbove call.source k) ||| call.flags noExecute) = run.first + k := by
  have hlt : (run.first + k) * PAGE_SIZE < 2 ^ 52 :=
    Nat.lt_of_lt_of_le (Nat.mul_lt_mul_of_pos_right (by omega) (by decide)) hbound
  have hnat : (pagesAbove call.source k).toNat = (run.first + k) * PAGE_SIZE := by
    rw [toNat_pagesAbove, hsource, Nat.add_mul]
    rw [hsource, ← Nat.add_mul]
    omega
  rw [leafFrame_entry (aligned_pagesAbove call.source_aligned k) (by omega), hnat]
  exact Nat.mul_div_cancel _ (by decide)

/-- Mapping a run that no page shows yet for ring 3. -/
theorem Leaves.map_user (h : Leaves noExecute users leaf) {run : Run} (hrun : run ∈ users)
    (hsource : call.source.toNat = run.first * PAGE_SIZE)
    (hbound : (run.first + run.count) * PAGE_SIZE ≤ 2 ^ 52)
    (hfresh : ∀ {q}, (leaf q).getLsbD 2 = true → ¬run.Holds (leafFrame (leaf q))) {n : Nat}
    (hn : n ≤ run.count) :
    Leaves noExecute users (mapPages (call.flags noExecute) n call.firstPage call.source leaf) := by
  have hnew : ∀ k < n,
      leafFrame ((pagesAbove call.source k) ||| call.flags noExecute) = run.first + k :=
    fun k hk => leafFrame_of_run hsource hbound noExecute (by omega)
  have hholds : ∀ k < n, run.Holds (run.first + k) := fun k hk =>
    ⟨Nat.le_add_right .., by omega⟩
  refine ⟨?_, ?_, ?_⟩
  · intro q hq
    rcases mapPages_cases (call.flags noExecute) n call.firstPage call.source leaf q with
      heq | ⟨k, hk, -, heq⟩
    · rw [heq] at hq ⊢
      exact h.backed hq
    · rw [heq, hnew k hk]
      exact ⟨run, hrun, hholds k hk⟩
  · intro q q' hq hq' hframe
    rcases mapPages_cases (call.flags noExecute) n call.firstPage call.source leaf q with
      heq | ⟨k, hk, hpage, heq⟩ <;>
    rcases mapPages_cases (call.flags noExecute) n call.firstPage call.source leaf q' with
      heq' | ⟨k', hk', hpage', heq'⟩ <;>
    rw [heq] at hq hframe <;> rw [heq'] at hq' hframe
    · exact h.injective hq hq' hframe
    · rw [hnew k' hk'] at hframe
      exact absurd (hframe ▸ hholds k' hk') (hfresh hq)
    · rw [hnew k hk] at hframe
      exact absurd (hframe ▸ hholds k hk) (hfresh hq')
    · rw [hnew k hk, hnew k' hk'] at hframe
      obtain rfl : k = k' := by omega
      rw [hpage, hpage']
  · exact h.map_noExecute n

/-! ## Reading the answers off the leaves -/

theorem and_ADDRESS_MASK_aligned (e : BitVec 64) : (e &&& ADDRESS_MASK).toNat % PAGE_SIZE = 0 := by
  have hclear : e &&& ADDRESS_MASK = (e &&& ADDRESS_MASK) &&& ~~~OFFSET_MASK := by
    rw [BitVec.and_assoc]
    rfl
  rw [hclear, toNat_and_not_OFFSET_MASK]
  exact Nat.mul_mod_left _ _

/-- Ring 3 reads a page whose entry is present and carries the bit. -/
theorem granted_user {e : BitVec 64} (hpresent : e.getLsbD 0 = true)
    (huser : e.getLsbD 2 = true) : (granted e).getLsbD 2 = true := by
  have hne : ¬e &&& PRESENT = 0 := by
    rw [and_PRESENT_eq_zero, hpresent]
    decide
  rw [granted, if_neg hne, BitVec.getLsbD_and, huser, getLsbD_GRANT_MASK (by decide)]
  simp

/-- The frame behind a page that ring 3 can read. -/
theorem Represents.translate_of_user (h : Represents s.memory s.root t) {v : BitVec 64}
    (hv : isUserReadable s v = true) :
    (t.leaf (pageNumber v)).getLsbD 2 = true ∧
      (translate s v).toNat / PAGE_SIZE = leafFrame (t.leaf (pageNumber v)) := by
  have heff := h.effective v
  obtain ⟨e, he⟩ : ∃ e, e = t.leaf (pageNumber v) := ⟨_, rfl⟩
  rw [← he] at heff ⊢
  rw [isUserReadable_eq, heff] at hv
  have hpresent : ¬e &&& PRESENT = 0 := by
    intro hzero
    rw [granted, if_pos hzero] at hv
    exact absurd hv (by simp)
  rw [granted, if_neg hpresent] at hv heff
  have hmask : Paging.effective s v &&& ADDRESS_MASK = e &&& ADDRESS_MASK := by
    rw [heff, BitVec.and_assoc]
    rfl
  have hne : Paging.effective s v ≠ 0 := by
    intro hzero
    rw [← heff, hzero] at hv
    exact absurd hv (by simp)
  refine ⟨?_, ?_⟩
  · rw [BitVec.getLsbD_and, Bool.and_eq_true] at hv
    exact hv.1
  · rw [translate]
    simp only [if_neg hne, hmask]
    rw [toNat_or_offset (and_ADDRESS_MASK_aligned e), leafFrame]
    have haligned := and_ADDRESS_MASK_aligned e
    rw [show PAGE_SIZE = 4096 from rfl] at *
    omega

/-- The answers of a page that is both writable and executable come from an
entry that is. -/
theorem Represents.not_writable_and_executable (h : Represents s.memory s.root t)
    (hleaves : Leaves s.noExecuteAvailable users t.leaf) (hnx : s.noExecuteAvailable = true)
    (v : BitVec 64) :
    ¬(isWritable s v = true ∧ isExecutable s v = true) := by
  rintro ⟨hw, hx⟩
  rw [isWritable_eq, h.effective v] at hw
  rw [isExecutable_eq, hnx, h.effective v] at hx
  have hpresent : ¬t.leaf (pageNumber v) &&& PRESENT = 0 := by
    intro hzero
    rw [granted, if_pos hzero] at hw
    exact absurd hw (by simp)
  rw [granted, if_neg hpresent, BitVec.getLsbD_and, getLsbD_GRANT_MASK (by decide)] at hw
  have h63 := hleaves.writable_noExecute hnx (q := pageNumber v) (by simpa using hw)
  rw [granted, if_neg hpresent, BitVec.getLsbD_and, h63, getLsbD_GRANT_MASK (by decide)] at hx
  simp at hx

/-! ## The tables in memory -/

/-- The table that the walk of an address stands at after `d` levels. -/
def tableAt (s : State) (v : BitVec 64) : Nat → Option Nat
  | 0 => some s.root
  | d + 1 =>
    match tableAt s v d with
    | none => none
    | some table =>
      let entry := s.memory.read64 (entryAddress table v (TOP_LEVEL - d))
      if entry &&& PRESENT = 0 then none else some (entry &&& ADDRESS_MASK).toNat

theorem Represents.tableAt_eq (h : Represents s.memory s.root t) (v : BitVec 64) :
    ∀ {d : Nat}, d ≤ 3 → tableAt s v d = (t.table d (nodeOf v d)).map (· * SIZE) := by
  intro d
  induction d with
  | zero =>
    intro _
    obtain ⟨f, hf, hroot⟩ := h.root_eq
    rw [nodeOf_zero, hf, tableAt, hroot]
    rfl
  | succ d ih =>
    intro hd
    have hnode := nodeOf_succ v (d := d) (by omega)
    rw [tableAt, ih (by omega)]
    cases hf : t.table d (nodeOf v d) with
    | none =>
      have hparent : nodeOf v d = nodeOf v (d + 1) / 512 := nodeOf_eq_div v (by omega)
      rw [h.parent (hparent ▸ hf)]
      rfl
    | some f =>
      have hword := h.slot hf (indexAt_lt v (4 - d))
      rw [Tree.word, if_neg (by omega), ← hnode] at hword
      simp only [Option.map_some, entryAddress, TOP_LEVEL, hword]
      cases hg : t.table (d + 1) (nodeOf v (d + 1)) with
      | none => exact if_pos BitVec.zero_and
      | some g =>
        simp only [if_neg (tableEntry_present _ (h.frame_lt hg)),
          tableEntry_address _ (h.frame_lt hg)]
        rfl

/-- Every page table stands in a run of the tables. -/
theorem Owned.tableAt_holds {s₀ : Frame.State} {tables others : List Run}
    (h : Owned s₀ s t tables others) {v : BitVec 64} {d table : Nat} (hd : d ≤ 3)
    (htable : tableAt s v d = some table) :
    ∃ run ∈ tables, run.Holds (table / SIZE) := by
  rw [h.rep.tableAt_eq v hd, Option.map_eq_some_iff] at htable
  obtain ⟨f, hf, rfl⟩ := htable
  rw [Nat.mul_div_cancel f (by decide)]
  exact h.held hf

end X64HK.Paging
