import Mathlib.Logic.Function.Basic
import X64HK.Memory.PagingEntry

/-!
# The tree behind the page tables

`Tree` is what the tables in memory mean.  A table is named by its depth
and by the number that the bits of an address select down to it, so the
root is table zero at depth zero, and table `n` has the children
`512 * n + i`.  `Represents m root t` says that the words in memory are
those of the tree, and that no frame holds two tables.

Three operations change the tree, and each has one lemma here.

* `Represents.create` links a fresh table of zeros.
* `Represents.openTable` sets the `USER` bit of an entry on the way.
* `Represents.setLeaf` writes the entry of a page.

The first two leave every leaf alone.  `Represents.congr` is the frame
rule: memory outside the tables does not matter.
-/

namespace X64HK.Paging

/-! ## Numbers of tables -/

/-- The number of the table at depth `d` that the walk of an address
reaches.  At depth four it is the number of the page. -/
def nodeOf (v : BitVec 64) (d : Nat) : Nat := v.toNat / 2 ^ (48 - 9 * d) % 2 ^ (9 * d)

theorem indexAt_eq (v : BitVec 64) (level : Nat) :
    indexAt v level = v.toNat / 2 ^ (12 + 9 * (level - 1)) % 512 := by
  rw [indexAt, BitVec.toNat_and, BitVec.toNat_ushiftRight, Nat.shiftRight_eq_div_pow]
  exact Nat.and_two_pow_sub_one_eq_mod _ 9

theorem indexAt_lt (v : BitVec 64) (level : Nat) : indexAt v level < 512 := by
  rw [indexAt_eq]
  exact Nat.mod_lt _ (by decide)

theorem nodeOf_zero (v : BitVec 64) : nodeOf v 0 = 0 := Nat.mod_one _

/-- One more level of the walk appends nine bits. -/
theorem nodeOf_succ (v : BitVec 64) {d : Nat} (hd : d ≤ 3) :
    nodeOf v (d + 1) = nodeOf v d * 512 + indexAt v (4 - d) := by
  rw [indexAt_eq]
  unfold nodeOf
  obtain rfl | rfl | rfl | rfl : d = 0 ∨ d = 1 ∨ d = 2 ∨ d = 3 := by omega
  all_goals omega

/-- The number of the page of an address. -/
def pageNumber (v : BitVec 64) : Nat := nodeOf v 4

theorem nodeOf_eq_div (v : BitVec 64) {d : Nat} (hd : d ≤ 3) :
    nodeOf v d = nodeOf v (d + 1) / 512 := by
  have hlt := indexAt_lt v (4 - d)
  rw [nodeOf_succ v hd]
  omega

/-! ## Trees -/

structure Tree where
  /-- The frame of a table, by depth and number. -/
  table : Nat → Nat → Option Nat
  /-- Whether the entry that points to a table has the `USER` bit. -/
  user : Nat → Nat → Bool
  /-- The entry of a page. -/
  leaf : Nat → BitVec 64

/-- The word of entry `k` at depth `d`, where `k` numbers the entries of all
tables of that depth. -/
def Tree.word (t : Tree) (d k : Nat) : BitVec 64 :=
  if d = 3 then t.leaf k
  else
    match t.table (d + 1) k with
    | none => 0
    | some g => tableEntry g (t.user (d + 1) k)

/-- Every table above a page has the `USER` bit. -/
def Tree.Open (t : Tree) (q : Nat) : Prop :=
  t.user 1 (q / 512 ^ 3) = true ∧ t.user 2 (q / 512 ^ 2) = true ∧ t.user 3 (q / 512) = true

structure Represents (m : ByteMemory) (root : Nat) (t : Tree) : Prop where
  root_eq : ∃ f, t.table 0 0 = some f ∧ root = f * Frame.SIZE
  depth_le : ∀ {d n f}, t.table d n = some f → d ≤ 3
  frame_lt : ∀ {d n f}, t.table d n = some f → f < 2 ^ 40
  /-- A frame holds one table at most. -/
  injective : ∀ {d n f d' n'}, t.table d n = some f → t.table d' n' = some f → d = d' ∧ n = n'
  parent : ∀ {d n}, t.table d (n / 512) = none → t.table (d + 1) n = none
  user_false : ∀ {d n}, t.table d n = none → t.user d n = false
  slot : ∀ {d n f i}, t.table d n = some f → i < 512 →
    m.read64 (f * Frame.SIZE + 8 * i) = t.word d (n * 512 + i)
  leaf_zero : ∀ {q}, t.table 3 (q / 512) = none → t.leaf q = 0
  /-- A page that grants user access has only open tables above it. -/
  leaf_user : ∀ {q}, (t.leaf q).getLsbD 2 = true → t.Open q

variable {m m' : ByteMemory} {root : Nat} {t : Tree} {d n f i : Nat}

/-- Memory outside the tables does not matter. -/
theorem Represents.congr (h : Represents m root t)
    (hm : ∀ d n f, t.table d n = some f → ByteMemory.AgreeOn m m' (f * Frame.SIZE) Frame.SIZE) :
    Represents m' root t :=
  { h with
    slot := by
      intro d n f i hf hi
      rw [← h.slot hf hi]
      refine ByteMemory.read64_congr ((hm d n f hf).mono (by omega) ?_)
      rw [show Frame.SIZE = 4096 from rfl]
      omega }

/-- A write to one entry, seen from any entry. -/
theorem Represents.read64_write64 (h : Represents m root t)
    (hf : t.table d n = some f) (hi : i < 512) (e : BitVec 64) {d' n' f' i' : Nat}
    (hf' : t.table d' n' = some f') (hi' : i' < 512) :
    (m.write64 (f * Frame.SIZE + 8 * i) e).read64 (f' * Frame.SIZE + 8 * i') =
      if d' = d ∧ n' * 512 + i' = n * 512 + i then e
      else t.word d' (n' * 512 + i') := by
  split
  · rename_i hsame
    obtain ⟨rfl, hk⟩ := hsame
    obtain ⟨rfl, rfl⟩ : n' = n ∧ i' = i := by omega
    rw [hf] at hf'
    obtain rfl := Option.some.inj hf'
    exact ByteMemory.read64_write64 _ _ _
  · rename_i hother
    rw [← h.slot hf' hi']
    refine ByteMemory.read64_write64_of_disjoint ?_
    have hne : f' ≠ f ∨ i' ≠ i := by
      by_contra hboth
      push Not at hboth
      obtain ⟨rfl, rfl⟩ := hboth
      obtain ⟨rfl, rfl⟩ := h.injective hf' hf
      exact hother ⟨rfl, rfl⟩
    rw [show Frame.SIZE = 4096 from rfl]
    omega

/-! ## Linking and opening tables -/

/-- Put frame `g` at table `k` of depth `d`, with the given `USER` bit in the
entry that points to it. -/
def Tree.setTable (t : Tree) (d k g : Nat) (u : Bool) : Tree where
  table := fun d' k' => if d' = d ∧ k' = k then some g else t.table d' k'
  user := fun d' k' => if d' = d ∧ k' = k then u else t.user d' k'
  leaf := t.leaf

theorem Tree.setTable_self (t : Tree) (d k g : Nat) (u : Bool) :
    (t.setTable d k g u).table d k = some g :=
  if_pos ⟨rfl, rfl⟩

theorem Tree.setTable_of_ne (t : Tree) {d k d' k' : Nat} (g : Nat) (u : Bool)
    (h : ¬(d' = d ∧ k' = k)) : (t.setTable d k g u).table d' k' = t.table d' k' :=
  if_neg h

theorem Tree.word_setTable (t : Tree) (hd : d ≤ 2) (k g : Nat) (u : Bool) (d' k' : Nat) :
    (t.setTable (d + 1) k g u).word d' k' =
      if d' = d ∧ k' = k then tableEntry g u else t.word d' k' := by
  by_cases h3 : d' = 3
  · rw [if_neg (by omega), Tree.word, Tree.word, if_pos h3, if_pos h3]
    rfl
  · by_cases hsame : d' = d ∧ k' = k
    · obtain ⟨rfl, rfl⟩ := hsame
      simp [Tree.word, Tree.setTable, h3]
    · have hne : ¬(d' + 1 = d + 1 ∧ k' = k) := by omega
      rw [if_neg hsame]
      simp only [Tree.word, if_neg h3, Tree.setTable, if_neg hne]

/-- The common part of linking and opening.  The caller provides what the
words of frame `g` are. -/
private theorem Represents.setTable (h : Represents m root t) (hd : d ≤ 2)
    (hf : t.table d n = some f) (hi : i < 512) {g : Nat} (u : Bool) (hg : g < 2 ^ 40)
    (howner : ∀ d' n', t.table d' n' = some g → d' = d + 1 ∧ n' = n * 512 + i)
    (huser : t.user (d + 1) (n * 512 + i) = true → u = true)
    (hslot : ∀ j < 512,
      (m.write64 (f * Frame.SIZE + 8 * i) (tableEntry g u)).read64
        (g * Frame.SIZE + 8 * j) = t.word (d + 1) ((n * 512 + i) * 512 + j)) :
    Represents (m.write64 (f * Frame.SIZE + 8 * i) (tableEntry g u)) root
      (t.setTable (d + 1) (n * 512 + i) g u) := by
  -- Every table of the new tree is `g` or an old one.
  have hcases : ∀ {d' n' f'},
      (t.setTable (d + 1) (n * 512 + i) g u).table d' n' = some f' →
      (d' = d + 1 ∧ n' = n * 512 + i ∧ f' = g) ∨
        (¬(d' = d + 1 ∧ n' = n * 512 + i) ∧ t.table d' n' = some f') := by
    intro d' n' f' h'
    by_cases hsame : d' = d + 1 ∧ n' = n * 512 + i
    · obtain ⟨rfl, rfl⟩ := hsame
      rw [Tree.setTable_self] at h'
      exact Or.inl ⟨rfl, rfl, (Option.some.inj h').symm⟩
    · rw [Tree.setTable_of_ne _ _ _ hsame] at h'
      exact Or.inr ⟨hsame, h'⟩
  have huser' : ∀ d' n', t.user d' n' = true →
      (t.setTable (d + 1) (n * 512 + i) g u).user d' n' = true := by
    intro d' n' htrue
    by_cases hsame : d' = d + 1 ∧ n' = n * 512 + i
    · obtain ⟨rfl, rfl⟩ := hsame
      exact (if_pos ⟨rfl, rfl⟩).trans (huser htrue)
    · exact (if_neg hsame).trans htrue
  refine ⟨?_, ?_, ?_, ?_, ?_, ?_, ?_, ?_, ?_⟩
  · obtain ⟨f₀, hroot, heq⟩ := h.root_eq
    exact ⟨f₀, (Tree.setTable_of_ne _ _ _ (by omega)).trans hroot, heq⟩
  · intro d' n' f' h'
    rcases hcases h' with ⟨rfl, -, -⟩ | ⟨-, hold⟩
    · omega
    · exact h.depth_le hold
  · intro d' n' f' h'
    rcases hcases h' with ⟨-, -, rfl⟩ | ⟨-, hold⟩
    · exact hg
    · exact h.frame_lt hold
  · intro d₁ n₁ f' d₂ n₂ h₁ h₂
    rcases hcases h₁ with ⟨rfl, rfl, rfl⟩ | ⟨hne₁, hold₁⟩ <;>
      rcases hcases h₂ with ⟨rfl, rfl, hf'⟩ | ⟨hne₂, hold₂⟩
    · exact ⟨rfl, rfl⟩
    · exact absurd (howner _ _ hold₂) hne₂
    · exact absurd (howner _ _ (hf' ▸ hold₁)) hne₁
    · exact h.injective hold₁ hold₂
  · intro d' n' hnone
    by_cases hsame : d' = d + 1 ∧ n' / 512 = n * 512 + i
    · obtain ⟨rfl, hn'⟩ := hsame
      rw [hn', Tree.setTable_self] at hnone
      exact absurd hnone nofun
    · rw [Tree.setTable_of_ne _ _ _ hsame] at hnone
      have hne : ¬(d' + 1 = d + 1 ∧ n' = n * 512 + i) := by
        rintro ⟨hd', rfl⟩
        obtain rfl : d' = d := by omega
        rw [show (n * 512 + i) / 512 = n by omega, hf] at hnone
        exact absurd hnone nofun
      rw [Tree.setTable_of_ne _ _ _ hne]
      exact h.parent hnone
  · intro d' n' hnone
    by_cases hsame : d' = d + 1 ∧ n' = n * 512 + i
    · obtain ⟨rfl, rfl⟩ := hsame
      rw [Tree.setTable_self] at hnone
      exact absurd hnone nofun
    · rw [Tree.setTable_of_ne _ _ _ hsame] at hnone
      exact (if_neg hsame).trans (h.user_false hnone)
  · intro d' n' f' j h' hj
    rw [Tree.word_setTable t hd]
    rcases hcases h' with ⟨rfl, rfl, rfl⟩ | ⟨-, hold⟩
    · rw [hslot j hj, if_neg (by omega)]
    · exact h.read64_write64 hf hi _ hold hj
  · intro q hnone
    refine h.leaf_zero ?_
    by_cases hsame : 3 = d + 1 ∧ q / 512 = n * 512 + i
    · rw [hsame.1, hsame.2, Tree.setTable_self] at hnone
      exact absurd hnone nofun
    · rwa [Tree.setTable_of_ne _ _ _ hsame] at hnone
  · intro q hq
    obtain ⟨h1, h2, h3⟩ := h.leaf_user (q := q) hq
    exact ⟨huser' _ _ h1, huser' _ _ h2, huser' _ _ h3⟩

/-- An entry below a table that does not exist is zero. -/
theorem Represents.word_of_none (h : Represents m root t) {k j : Nat}
    (hnone : t.table (d + 1) k = none) (hj : j < 512) :
    t.word (d + 1) (k * 512 + j) = 0 := by
  have hk : (k * 512 + j) / 512 = k := by omega
  unfold Tree.word
  split
  · rename_i h3
    refine h.leaf_zero ?_
    rw [hk, ← h3]
    exact hnone
  · rw [h.parent (by rw [hk]; exact hnone)]

/-- Link a fresh table of zeros. -/
theorem Represents.create (h : Represents m root t) (hd : d ≤ 2) (hf : t.table d n = some f)
    (hi : i < 512) (hnone : t.table (d + 1) (n * 512 + i) = none) {g : Nat} (u : Bool)
    (hg : g < 2 ^ 40) (hfresh : ∀ d' n', t.table d' n' ≠ some g)
    (hzero : ∀ j < 512, m.read64 (g * Frame.SIZE + 8 * j) = 0) :
    Represents (m.write64 (f * Frame.SIZE + 8 * i) (tableEntry g u)) root
      (t.setTable (d + 1) (n * 512 + i) g u) := by
  refine h.setTable hd hf hi u hg (fun d' n' hsome => absurd hsome (hfresh d' n')) ?_ ?_
  · intro htrue
    rw [h.user_false hnone] at htrue
    exact absurd htrue nofun
  · intro j hj
    have hne : g ≠ f := fun heq => hfresh d n (heq ▸ hf)
    rw [h.word_of_none hnone hj, ← hzero j hj]
    refine ByteMemory.read64_write64_of_disjoint ?_
    rw [show Frame.SIZE = 4096 from rfl]
    omega

/-- Set the `USER` bit of the entry that points to an existing table, or
write the entry again as it is. -/
theorem Represents.openTable (h : Represents m root t) (hd : d ≤ 2) (hf : t.table d n = some f)
    (hi : i < 512) {g : Nat} (hg : t.table (d + 1) (n * 512 + i) = some g) (u : Bool)
    (huser : t.user (d + 1) (n * 512 + i) = true → u = true) :
    Represents (m.write64 (f * Frame.SIZE + 8 * i) (tableEntry g u)) root
      (t.setTable (d + 1) (n * 512 + i) g u) := by
  refine h.setTable hd hf hi u (h.frame_lt hg) (fun d' n' hsome => ?_) huser ?_
  · exact h.injective hsome hg
  · intro j hj
    rw [h.read64_write64 hf hi _ hg hj, if_neg (by omega)]

/-! ## Writing leaves -/

def Tree.setLeaf (t : Tree) (q : Nat) (e : BitVec 64) : Tree :=
  { t with leaf := Function.update t.leaf q e }

theorem Tree.leaf_setLeaf (t : Tree) (q : Nat) (e : BitVec 64) (q' : Nat) :
    (t.setLeaf q e).leaf q' = if q' = q then e else t.leaf q' :=
  Function.update_apply ..

theorem Represents.setLeaf (h : Represents m root t) (hf : t.table 3 n = some f) (hi : i < 512)
    {e : BitVec 64} (he : e.getLsbD 2 = true → t.Open (n * 512 + i)) :
    Represents (m.write64 (f * Frame.SIZE + 8 * i) e) root (t.setLeaf (n * 512 + i) e) := by
  refine { h with slot := ?_, leaf_zero := ?_, leaf_user := ?_ }
  · intro d' n' f' j hf' hj
    rw [h.read64_write64 hf hi e hf' hj]
    by_cases h3 : d' = 3
    · subst h3
      simp only [Tree.word, Tree.setLeaf, Function.update_apply, true_and, if_true]
    · rw [if_neg (by omega)]
      simp only [Tree.word, Tree.setLeaf, if_neg h3]
  · intro q hnone
    have hne : q ≠ n * 512 + i := by
      rintro rfl
      rw [show (n * 512 + i) / 512 = n by omega] at hnone
      exact absurd (hf.symm.trans hnone) nofun
    rw [Tree.leaf_setLeaf, if_neg hne]
    exact h.leaf_zero hnone
  · intro q hq
    rw [Tree.leaf_setLeaf] at hq
    split at hq
    · rename_i hsame
      rw [hsame]
      exact he hq
    · exact h.leaf_user hq

/-! ## Growth -/

/-- What creating and opening tables keeps. -/
structure Tree.Extends (t t' : Tree) : Prop where
  table : ∀ {d n f}, t.table d n = some f → t'.table d n = some f
  user : ∀ {d n}, t.user d n = true → t'.user d n = true
  leaf : t'.leaf = t.leaf

theorem Tree.Extends.refl (t : Tree) : t.Extends t := ⟨id, id, rfl⟩

theorem Tree.Extends.trans {t t' t'' : Tree} (h : t.Extends t') (h' : t'.Extends t'') :
    t.Extends t'' :=
  ⟨fun hf => h'.table (h.table hf), fun hu => h'.user (h.user hu), h'.leaf.trans h.leaf⟩

theorem Tree.extends_setTable (t : Tree) {d k g : Nat} {u : Bool}
    (htable : ∀ f, t.table d k = some f → f = g)
    (huser : t.user d k = true → u = true) : t.Extends (t.setTable d k g u) where
  table := by
    intro d' n' f' hf'
    by_cases hsame : d' = d ∧ n' = k
    · obtain ⟨rfl, rfl⟩ := hsame
      rw [Tree.setTable_self, htable f' hf']
    · rw [Tree.setTable_of_ne _ _ _ hsame]
      exact hf'
  user := by
    intro d' n' hu
    by_cases hsame : d' = d ∧ n' = k
    · obtain ⟨rfl, rfl⟩ := hsame
      exact (if_pos ⟨rfl, rfl⟩).trans (huser hu)
    · exact (if_neg hsame).trans hu
  leaf := rfl

/-! ## The empty root -/

/-- A root without entries. -/
def Tree.empty (f : Nat) : Tree where
  table := fun d n => if d = 0 ∧ n = 0 then some f else none
  user := fun _ _ => false
  leaf := fun _ => 0

theorem Represents.empty (hf : f < 2 ^ 40)
    (hzero : ∀ j < 512, m.read64 (f * Frame.SIZE + 8 * j) = 0) :
    Represents m (f * Frame.SIZE) (Tree.empty f) := by
  have hcases : ∀ {d n f'}, (Tree.empty f).table d n = some f' → d = 0 ∧ n = 0 ∧ f' = f := by
    intro d n f' h
    by_cases hsame : d = 0 ∧ n = 0
    · exact ⟨hsame.1, hsame.2, (Option.some.inj ((if_pos hsame).symm.trans h)).symm⟩
    · exact absurd ((if_neg hsame).symm.trans h) nofun
  refine ⟨⟨f, rfl, rfl⟩, ?_, ?_, ?_, ?_, fun _ => rfl, ?_, fun _ => rfl, ?_⟩
  · intro d n f' h
    have h' := hcases h
    omega
  · intro d n f' h
    rw [(hcases h).2.2]
    exact hf
  · intro d n f' d' n' h h'
    have h₁ := hcases h
    have h₂ := hcases h'
    omega
  · intro d n _
    have hne : ¬(d + 1 = 0 ∧ n = 0) := by omega
    simp only [Tree.empty, if_neg hne]
  · intro d n f' j h hj
    obtain ⟨rfl, rfl, rfl⟩ := hcases h
    rw [hzero j hj]
    rfl
  · intro q hq
    exact absurd hq (by simp [Tree.empty])

/-! ## What the walk grants -/

/-- Every bit of a leaf that `Effective` can report. -/
def GRANT_MASK : BitVec 64 :=
  PRESENT ||| WRITABLE ||| USER ||| NO_EXECUTE ||| ADDRESS_MASK

/-- What a leaf grants when every table above it is permissive. -/
def granted (leaf : BitVec 64) : BitVec 64 :=
  if leaf &&& PRESENT = 0 then 0 else leaf &&& GRANT_MASK

theorem getLsbD_GRANT_MASK {j : Nat} (hj : j < 64) :
    GRANT_MASK.getLsbD j = (decide (j = 0) || decide (j = 1) || decide (j = 2) ||
      decide (j = 63) || decide (12 ≤ j ∧ j < 52)) := by
  rw [GRANT_MASK, BitVec.getLsbD_or, BitVec.getLsbD_or, BitVec.getLsbD_or,
    BitVec.getLsbD_or, getLsbD_PRESENT j hj, getLsbD_WRITABLE j hj,
    getLsbD_USER j hj, getLsbD_NO_EXECUTE j hj, getLsbD_ADDRESS_MASK j hj]

/-- What the levels above the leaf grant. -/
def pathGrant (user : Bool) : BitVec 64 := PRESENT ||| WRITABLE ||| userFlag user

theorem getLsbD_pathGrant (user : Bool) {j : Nat} (hj : j < 64) :
    (pathGrant user).getLsbD j =
      (decide (j = 0) || decide (j = 1) || (user && decide (j = 2))) := by
  rw [pathGrant, BitVec.getLsbD_or, BitVec.getLsbD_or, getLsbD_PRESENT j hj,
    getLsbD_WRITABLE j hj, getLsbD_userFlag user hj]

theorem pathGrant_and_tableEntry (hf : f < 2 ^ 40) (user u : Bool) :
    pathGrant user &&& tableEntry f u = pathGrant (user && u) := by
  refine BitVec.eq_of_getLsbD_eq fun j hj => ?_
  rw [BitVec.getLsbD_and, getLsbD_pathGrant user hj, getLsbD_tableEntry hf u hj,
    getLsbD_pathGrant (user && u) hj]
  by_cases h0 : j = 0
  · simp [h0]
  by_cases h1 : j = 1
  · simp [h1]
  by_cases h2 : j = 2
  · simp [h2]
  · simp [h0, h1, h2]

/-- The last lines of `Effective`, below tables that are all open or a leaf
without the `USER` bit. -/
theorem pathGrant_and_leaf (user : Bool) (leaf : BitVec 64)
    (h : leaf.getLsbD 2 = true → user = true) :
    (pathGrant user &&& leaf) ||| (0 ||| (leaf &&& NO_EXECUTE)) |||
      (leaf &&& ADDRESS_MASK) = leaf &&& GRANT_MASK := by
  refine BitVec.eq_of_getLsbD_eq fun j hj => ?_
  simp only [BitVec.getLsbD_or, BitVec.getLsbD_and,
    getLsbD_pathGrant user hj, getLsbD_NO_EXECUTE j hj, getLsbD_ADDRESS_MASK j hj,
    getLsbD_GRANT_MASK hj]
  by_cases h2 : j = 2
  · subst h2
    cases hl : leaf.getLsbD 2 with
    | false => simp
    | true => simp [h hl]
  · cases leaf.getLsbD j <;> simp [h2]

/-- The tables from depth `4 - n` to the leaf's are all open. -/
def Tree.openFrom (t : Tree) (v : BitVec 64) : Nat → Bool
  | 0 => true
  | n + 1 => t.user (3 - n) (nodeOf v (3 - n)) && t.openFrom v n

/-- A table that is missing has no table below it. -/
theorem Represents.table_none (h : Represents m root t) (v : BitVec 64) :
    ∀ n, n ≤ 3 → t.table (3 - n) (nodeOf v (3 - n)) = none → t.table 3 (nodeOf v 3) = none := by
  intro n
  induction n with
  | zero => exact fun _ hnone => hnone
  | succ n ih =>
    intro hn hnone
    refine ih (by omega) ?_
    have hdepth : 3 - n = 3 - (n + 1) + 1 := by omega
    rw [hdepth]
    refine h.parent ?_
    rw [← nodeOf_eq_div v (by omega)]
    exact hnone

/-- The level of the tables at a depth. -/
theorem level_of_depth {n : Nat} (hn : n + 1 ≤ 3) : LEAF_LEVEL + n + 1 = 4 - (3 - (n + 1)) := by
  unfold LEAF_LEVEL
  omega

/-- The walk ends at the leaf's table, with what the entries on the way
grant. -/
theorem Represents.effectiveLoop (h : Represents m root t) (v : BitVec 64) :
    ∀ n f user, n ≤ 3 → t.table (3 - n) (nodeOf v (3 - n)) = some f →
      effectiveLoop m v n (f * Frame.SIZE) (pathGrant user) 0 =
        (t.table 3 (nodeOf v 3)).map fun g =>
          (g * Frame.SIZE, pathGrant (user && t.openFrom v n), 0) := by
  intro n
  induction n with
  | zero =>
    intro f user _ hf
    rw [show 3 - 0 = 3 from rfl] at hf
    rw [hf]
    simp [Paging.effectiveLoop, Tree.openFrom]
  | succ n ih =>
    intro f user hn hf
    have hdepth : 3 - n = 3 - (n + 1) + 1 := by omega
    have hlevel := level_of_depth hn
    have hword := h.slot hf (indexAt_lt v (4 - (3 - (n + 1))))
    rw [← nodeOf_succ v (by omega), ← hdepth, Tree.word, if_neg (by omega), ← hdepth] at hword
    cases hg : t.table (3 - n) (nodeOf v (3 - n)) with
    | none =>
      rw [hg] at hword
      simp only [Paging.effectiveLoop, entryAddress, hlevel, hword]
      rw [if_pos (Or.inl (by decide)), h.table_none v n (by omega) hg]
      rfl
    | some g =>
      have hlt := h.frame_lt hg
      rw [hg] at hword
      simp only [Paging.effectiveLoop, entryAddress, hlevel, hword]
      rw [if_neg (by
          rw [not_or, not_not]
          exact ⟨tableEntry_present _ hlt, tableEntry_and_LARGE _ hlt⟩),
        tableEntry_address _ hlt, pathGrant_and_tableEntry hlt,
        tableEntry_and_NO_EXECUTE _ hlt, BitVec.or_self, ih g _ (by omega) hg,
        Tree.openFrom, Bool.and_assoc]

theorem Tree.open_iff (t : Tree) (v : BitVec 64) :
    t.Open (pageNumber v) ↔ t.openFrom v 3 = true := by
  have e3 := nodeOf_eq_div v (d := 3) (by decide)
  have e2 := nodeOf_eq_div v (d := 2) (by decide)
  have e1 := nodeOf_eq_div v (d := 1) (by decide)
  unfold Tree.Open
  rw [show 512 ^ 3 = 512 * 512 * 512 from rfl, show 512 ^ 2 = 512 * 512 from rfl,
    ← Nat.div_div_eq_div_mul, ← Nat.div_div_eq_div_mul, pageNumber, ← e3, ← e2, ← e1]
  simp [Tree.openFrom]

/-- What the walk grants for an address depends on the leaf of its page
alone. -/
theorem Represents.effective {s : State} (h : Represents s.memory s.root t)
    (v : BitVec 64) : effective s v = granted (t.leaf (pageNumber v)) := by
  obtain ⟨f, hf, hroot⟩ := h.root_eq
  have hwalk := h.effectiveLoop v 3 f true (by decide) (by rw [Nat.sub_self, nodeOf_zero]; exact hf)
  have hpage := nodeOf_eq_div v (d := 3) (by decide)
  unfold Paging.effective
  rw [hroot, show TOP_LEVEL - LEAF_LEVEL = 3 from rfl,
    show PRESENT ||| WRITABLE ||| USER = pathGrant true from rfl, hwalk]
  cases hg : t.table 3 (nodeOf v 3) with
  | none =>
    rw [hpage] at hg
    simp [granted, pageNumber, h.leaf_zero hg]
  | some g =>
    have hleaf := h.slot hg (indexAt_lt v 1)
    rw [← nodeOf_succ v (d := 3) (by decide)] at hleaf
    simp only [Option.map_some, entryAddress, show LEAF_LEVEL = 1 from rfl, hleaf,
      Tree.word, if_true, Bool.true_and, granted]
    rw [pathGrant_and_leaf]
    · rfl
    · intro huser
      exact (t.open_iff v).1 (h.leaf_user huser)

end X64HK.Paging
