import Mathlib.Algebra.BigOperators.Group.Finset.Basic
import Mathlib.Data.Nat.Bitwise

/-!
# Tilings by aligned powers of two

The geometry of a buddy allocator.  A layout gives some offsets a block,
and a block has an order and a status of any type.  In a `Tiling` the
blocks are aligned to their own size and cover `[0, 2 ^ top)` without
overlap.

* `Tiling.split` halves a block and `Tiling.merge` joins two buddies.
* `Tiling.buddy_start` is the fact that makes merging safe: the offset of a
  block's buddy is the start of a block, and of one that is not larger.
* `weight` adds a number up over all blocks, and `weight_update` says how
  it moves when one block changes.
* `Merged` says that no two buddies are both free, and `Tiling.eq_of_merged`
  that the other blocks then determine the free ones.
-/

namespace Buddy

variable {σ : Type} {o k : Nat}

structure Block (σ : Type) where
  order : Nat
  status : σ

/-- The block that starts at an offset, if one does. -/
abbrev Layout (σ : Type) := Nat → Option (Block σ)

/-! ## Multiples -/

theorem le_of_dvd_of_lt_add {d a b : Nat} (ha : d ∣ a) (hb : d ∣ b) (h : a < b + d) : a ≤ b := by
  obtain ⟨x, rfl⟩ := ha
  obtain ⟨y, rfl⟩ := hb
  rw [← Nat.mul_succ] at h
  exact Nat.mul_le_mul_left d (Nat.le_of_lt_succ (Nat.lt_of_mul_lt_mul_left h))

theorem two_pow_succ (k : Nat) : 2 ^ (k + 1) = 2 ^ k + 2 ^ k := by
  rw [Nat.pow_succ, Nat.mul_two]

/-- Flipping bit `k` of a multiple of `2 ^ k` moves to the other half of the
pair. -/
theorem xor_two_pow (h : 2 ^ k ∣ o) :
    (2 ^ (k + 1) ∣ o ∧ o ^^^ 2 ^ k = o + 2 ^ k) ∨
      (2 ^ k ≤ o ∧ 2 ^ (k + 1) ∣ o - 2 ^ k ∧ o ^^^ 2 ^ k = o - 2 ^ k) := by
  obtain ⟨c, rfl⟩ := h
  have hxor : 2 ^ k * c ^^^ 2 ^ k = 2 ^ k * (c ^^^ 1) := by
    rw [Nat.mul_comm _ (c ^^^ 1), ← Nat.shiftLeft_eq, Nat.shiftLeft_xor_distrib,
      Nat.shiftLeft_eq, Nat.shiftLeft_eq, Nat.one_mul, Nat.mul_comm c]
  rw [hxor]
  rcases Nat.even_or_odd c with heven | hodd
  · refine Or.inl ⟨?_, ?_⟩
    · rw [Nat.pow_succ]
      exact Nat.mul_dvd_mul_left _ heven.two_dvd
    · rw [Nat.xor_one_of_even heven, Nat.mul_succ]
  · obtain ⟨x, rfl⟩ := hodd
    refine Or.inr ⟨?_, ?_, ?_⟩
    · exact Nat.le_mul_of_pos_right _ (Nat.succ_pos _)
    · refine ⟨x, ?_⟩
      rw [Nat.pow_succ, Nat.mul_add, Nat.mul_one, Nat.add_sub_cancel, Nat.mul_assoc]
    · rw [Nat.xor_one_of_odd (odd_two_mul_add_one x), Nat.mul_sub_one]

/-- The lower half of a pair flips to the upper one. -/
theorem xor_two_pow_of_dvd (h : 2 ^ (k + 1) ∣ o) : o ^^^ 2 ^ k = o + 2 ^ k := by
  have hpos := Nat.two_pow_pos k
  have htwo := two_pow_succ k
  rcases xor_two_pow ((Nat.pow_dvd_pow 2 (Nat.le_succ k)).trans h) with ⟨-, hxor⟩ | ⟨hle, hd, -⟩
  · exact hxor
  · have hup := le_of_dvd_of_lt_add h hd (by omega)
    omega

/-! ## Tilings -/

structure Tiling (low top : Nat) (b : Layout σ) : Prop where
  low_le : ∀ {o blk}, b o = some blk → low ≤ blk.order
  le_top : ∀ {o blk}, b o = some blk → blk.order ≤ top
  aligned : ∀ {o blk}, b o = some blk → 2 ^ blk.order ∣ o
  lt : ∀ {o blk}, b o = some blk → o < 2 ^ top
  disjoint : ∀ {o blk o' blk'}, b o = some blk → b o' = some blk' → o < o' → o + 2 ^ blk.order ≤ o'
  cover : ∀ x, x < 2 ^ top → ∃ o blk, b o = some blk ∧ o ≤ x ∧ x < o + 2 ^ blk.order

variable {low top x : Nat} {b : Layout σ} {blk : Block σ} {s : σ}

/-- A block ends within the range. -/
theorem Tiling.stop_le (h : Tiling low top b) (ho : b o = some blk) :
    o + 2 ^ blk.order ≤ 2 ^ top := by
  have hle := h.le_top ho
  refine le_of_dvd_of_lt_add (d := 2 ^ blk.order) ?_ ?_ ?_
  · exact Nat.dvd_add (h.aligned ho) (Nat.dvd_refl _)
  · exact Nat.pow_dvd_pow 2 hle
  · exact Nat.add_lt_add_right (h.lt ho) _

/-- Two blocks are apart. -/
theorem Tiling.apart (h : Tiling low top b) {o' : Nat} {blk' : Block σ} (ho : b o = some blk)
    (ho' : b o' = some blk') (hne : o ≠ o') :
    o + 2 ^ blk.order ≤ o' ∨ o' + 2 ^ blk'.order ≤ o := by
  rcases Nat.lt_or_gt_of_ne hne with hlt | hgt
  · exact Or.inl (h.disjoint ho ho' hlt)
  · exact Or.inr (h.disjoint ho' ho hgt)

/-- No block starts inside another. -/
theorem Tiling.none_inside (h : Tiling low top b) (ho : b o = some blk) (hlo : o < x)
    (hhi : x < o + 2 ^ blk.order) : b x = none := by
  cases hx : b x with
  | none => rfl
  | some blk' =>
    have hdis := h.disjoint ho hx hlo
    omega

/-- One block that covers everything. -/
theorem Tiling.single (hlow : low ≤ top) (s : σ) :
    Tiling low top (fun o => if o = 0 then some ⟨top, s⟩ else none) := by
  have hcases : ∀ {o blk}, (if o = 0 then some (⟨top, s⟩ : Block σ) else none) = some blk →
      o = 0 ∧ blk = ⟨top, s⟩ := by
    intro o blk h
    split at h
    · rename_i ho
      exact ⟨ho, (Option.some.inj h).symm⟩
    · exact absurd h nofun
  refine ⟨?_, ?_, ?_, ?_, ?_, ?_⟩
  · intro o blk h
    rw [(hcases h).2]
    exact hlow
  · intro o blk h
    rw [(hcases h).2]
  · intro o blk h
    rw [(hcases h).1]
    exact Nat.dvd_zero _
  · intro o blk h
    rw [(hcases h).1]
    exact Nat.two_pow_pos top
  · intro o blk o' blk' h h' hlt
    rw [(hcases h).1, (hcases h').1] at hlt
    exact absurd hlt (Nat.lt_irrefl 0)
  · intro x hx
    exact ⟨0, ⟨top, s⟩, if_pos rfl, Nat.zero_le x, by simpa using hx⟩

/-- The status of a block does not matter. -/
theorem Tiling.setStatus (h : Tiling low top b) (ho : b o = some ⟨k, s⟩) (s' : σ) :
    Tiling low top (Function.update b o (some ⟨k, s'⟩)) := by
  -- Every block of the new layout has an old block of its order in its place.
  have hold : ∀ {x blk}, Function.update b o (some ⟨k, s'⟩) x = some blk →
      ∃ blk', b x = some blk' ∧ blk'.order = blk.order := by
    intro x blk hx
    by_cases hxo : x = o
    · subst hxo
      rw [Function.update_self] at hx
      exact ⟨_, ho, by rw [← Option.some.inj hx]⟩
    · rw [Function.update_of_ne hxo] at hx
      exact ⟨blk, hx, rfl⟩
  refine ⟨?_, ?_, ?_, ?_, ?_, ?_⟩
  · intro x blk hx
    obtain ⟨blk', hx', heq⟩ := hold hx
    exact heq ▸ h.low_le hx'
  · intro x blk hx
    obtain ⟨blk', hx', heq⟩ := hold hx
    exact heq ▸ h.le_top hx'
  · intro x blk hx
    obtain ⟨blk', hx', heq⟩ := hold hx
    exact heq ▸ h.aligned hx'
  · intro x blk hx
    obtain ⟨blk', hx', -⟩ := hold hx
    exact h.lt hx'
  · intro x blk y blk' hx hy hlt
    obtain ⟨_, hx', heq⟩ := hold hx
    obtain ⟨_, hy', -⟩ := hold hy
    exact heq ▸ h.disjoint hx' hy' hlt
  · intro x hx
    obtain ⟨y, blk, hy, hlo, hhi⟩ := h.cover x hx
    by_cases hyo : y = o
    · subst hyo
      rw [ho] at hy
      obtain rfl := Option.some.inj hy
      exact ⟨y, ⟨k, s'⟩, Function.update_self .., hlo, hhi⟩
    · exact ⟨y, blk, (Function.update_of_ne hyo ..).trans hy, hlo, hhi⟩

/-! ## Splitting -/

/-- The two halves of a block in its place. -/
def splitAt (b : Layout σ) (o k : Nat) (s s' : σ) : Layout σ :=
  Function.update (Function.update b o (some ⟨k, s⟩)) (o + 2 ^ k) (some ⟨k, s'⟩)

theorem splitAt_lower (b : Layout σ) (o k : Nat) (s s' : σ) :
    splitAt b o k s s' o = some ⟨k, s⟩ := by
  have hpos := Nat.two_pow_pos k
  rw [splitAt, Function.update_of_ne (by omega), Function.update_self]

theorem splitAt_upper (b : Layout σ) (o k : Nat) (s s' : σ) :
    splitAt b o k s s' (o + 2 ^ k) = some ⟨k, s'⟩ :=
  Function.update_self ..

theorem splitAt_of_ne (b : Layout σ) (s s' : σ) (h1 : x ≠ o) (h2 : x ≠ o + 2 ^ k) :
    splitAt b o k s s' x = b x := by
  rw [splitAt, Function.update_of_ne h2, Function.update_of_ne h1]

/-- The blocks after a split. -/
theorem splitAt_cases {s' : σ} (h : splitAt b o k s s' x = some blk) :
    (x = o ∧ blk = ⟨k, s⟩) ∨ (x = o + 2 ^ k ∧ blk = ⟨k, s'⟩) ∨
      (x ≠ o ∧ x ≠ o + 2 ^ k ∧ b x = some blk) := by
  by_cases h1 : x = o
  · subst h1
    rw [splitAt_lower] at h
    exact Or.inl ⟨rfl, (Option.some.inj h).symm⟩
  by_cases h2 : x = o + 2 ^ k
  · subst h2
    rw [splitAt_upper] at h
    exact Or.inr (Or.inl ⟨rfl, (Option.some.inj h).symm⟩)
  · rw [splitAt_of_ne _ _ _ h1 h2] at h
    exact Or.inr (Or.inr ⟨h1, h2, h⟩)

/-- A split of a block of one status leaves the blocks of the others. -/
theorem splitAt_eq_iff_of_ne {j k' : Nat} {st : σ} (ho : b o = some ⟨j, s⟩)
    (hnone : b (o + 2 ^ k) = none) (hst : st ≠ s) :
    splitAt b o k s s x = some ⟨k', st⟩ ↔ b x = some ⟨k', st⟩ := by
  by_cases h1 : x = o
  · subst h1
    simp [splitAt_lower, ho, hst.symm]
  by_cases h2 : x = o + 2 ^ k
  · subst h2
    simp [splitAt_upper, hnone, hst.symm]
  · rw [splitAt_of_ne _ _ _ h1 h2]

theorem Tiling.split (h : Tiling low top b) {s₀ : σ} (ho : b o = some ⟨k + 1, s₀⟩)
    (hk : low ≤ k) (s s' : σ) : Tiling low top (splitAt b o k s s') := by
  have hpos := Nat.two_pow_pos k
  have htwo := two_pow_succ k
  have hdvd := h.aligned ho
  have hstop := h.stop_le ho
  have htop := h.le_top ho
  have hhalf : 2 ^ k ∣ 2 ^ (k + 1) := Nat.pow_dvd_pow 2 (Nat.le_succ k)
  simp only [htwo] at hstop
  refine ⟨?_, ?_, ?_, ?_, ?_, ?_⟩
  · intro x blk hx
    rcases splitAt_cases hx with ⟨-, rfl⟩ | ⟨-, rfl⟩ | ⟨-, -, hx⟩
    · exact hk
    · exact hk
    · exact h.low_le hx
  · intro x blk hx
    rcases splitAt_cases hx with ⟨-, rfl⟩ | ⟨-, rfl⟩ | ⟨-, -, hx⟩
    · exact Nat.le_of_succ_le htop
    · exact Nat.le_of_succ_le htop
    · exact h.le_top hx
  · intro x blk hx
    rcases splitAt_cases hx with ⟨rfl, rfl⟩ | ⟨rfl, rfl⟩ | ⟨-, -, hx⟩
    · exact hhalf.trans hdvd
    · exact Nat.dvd_add (hhalf.trans hdvd) (Nat.dvd_refl _)
    · exact h.aligned hx
  · intro x blk hx
    rcases splitAt_cases hx with ⟨rfl, rfl⟩ | ⟨rfl, rfl⟩ | ⟨-, -, hx⟩
    · exact h.lt ho
    · omega
    · exact h.lt hx
  · -- A block elsewhere is apart from the whole old block.
    have haway : ∀ {x blk}, x ≠ o → b x = some blk →
        x + 2 ^ blk.order ≤ o ∨ o + (2 ^ k + 2 ^ k) ≤ x := by
      intro x blk hxo hx
      rcases h.apart ho hx hxo.symm with hle | hle
      · exact Or.inr (htwo ▸ hle)
      · exact Or.inl hle
    intro x blk y blk' hx hy hlt
    have hxpos := Nat.two_pow_pos blk.order
    have hypos := Nat.two_pow_pos blk'.order
    rcases splitAt_cases hx with ⟨rfl, rfl⟩ | ⟨rfl, rfl⟩ | ⟨hxo, -, hx₁⟩ <;>
      rcases splitAt_cases hy with ⟨hyo, hyb⟩ | ⟨hyo, hyb⟩ | ⟨hyo, -, hy₁⟩
    · omega
    · exact Nat.le_of_eq hyo.symm
    · have hy' := haway hyo hy₁
      change x + 2 ^ k ≤ y
      omega
    · omega
    · omega
    · have hy' := haway hyo hy₁
      change o + 2 ^ k + 2 ^ k ≤ y
      omega
    · have hx' := haway hxo hx₁
      omega
    · have hx' := haway hxo hx₁
      omega
    · exact h.disjoint hx₁ hy₁ hlt
  · intro x hx
    obtain ⟨y, blk, hy, hlo, hhi⟩ := h.cover x hx
    by_cases hyo : y = o
    · subst hyo
      rw [ho] at hy
      obtain rfl := Option.some.inj hy
      simp only [htwo] at hhi
      by_cases hxk : x < y + 2 ^ k
      · exact ⟨y, ⟨k, s⟩, splitAt_lower .., hlo, hxk⟩
      · refine ⟨y + 2 ^ k, ⟨k, s'⟩, splitAt_upper .., by omega, ?_⟩
        change x < y + 2 ^ k + 2 ^ k
        omega
    · have hne : y ≠ o + 2 ^ k := by
        rintro rfl
        have hnone := h.none_inside ho (x := o + 2 ^ k) (by omega) (by simp only [htwo]; omega)
        exact absurd (hnone.symm.trans hy) nofun
      exact ⟨y, blk, (splitAt_of_ne _ _ _ hyo hne).trans hy, hlo, hhi⟩

/-! ## Buddies -/

/-- The offset of the buddy is the start of a block that is not larger. -/
theorem Tiling.buddy_start (h : Tiling low top b) (ho : b o = some ⟨k, s⟩) (hk : k < top) :
    ∃ blk, b (o ^^^ 2 ^ k) = some blk ∧ blk.order ≤ k := by
  have hpos := Nat.two_pow_pos k
  have htwo := two_pow_succ k
  have hdvd : 2 ^ k ∣ o := h.aligned ho
  have hhalf : 2 ^ k ∣ 2 ^ (k + 1) := Nat.pow_dvd_pow 2 (Nat.le_succ k)
  have htop : 2 ^ (k + 1) ∣ 2 ^ top := Nat.pow_dvd_pow 2 hk
  have hlt := h.lt ho
  -- The pair of the block and its buddy starts at `base`.
  obtain ⟨base, hbase, ho', hy, hyo⟩ : ∃ base, 2 ^ (k + 1) ∣ base ∧
      (o = base ∨ o = base + 2 ^ k) ∧
      (o ^^^ 2 ^ k = base ∨ o ^^^ 2 ^ k = base + 2 ^ k) ∧ 2 ^ k ∣ o ^^^ 2 ^ k := by
    rcases xor_two_pow hdvd with ⟨hd, hx⟩ | ⟨hle, hd, hx⟩
    · refine ⟨o, hd, Or.inl rfl, Or.inr hx, ?_⟩
      rw [hx]
      exact Nat.dvd_add hdvd (Nat.dvd_refl _)
    · refine ⟨o - 2 ^ k, hd, Or.inr (by omega), Or.inl hx, ?_⟩
      rw [hx]
      exact hhalf.trans hd
  have hend : base + 2 ^ (k + 1) ≤ 2 ^ top :=
    le_of_dvd_of_lt_add (Nat.dvd_add hbase (Nat.dvd_refl _)) htop (by omega)
  obtain ⟨x, blk, hx, hlo, hhi⟩ := h.cover (o ^^^ 2 ^ k) (by omega)
  rcases Nat.lt_or_ge k blk.order with hgt | hle
  · -- A larger block around the buddy would contain the block itself.
    have hxdvd : 2 ^ (k + 1) ∣ x := (Nat.pow_dvd_pow 2 hgt).trans (h.aligned hx)
    have hxdvd' : 2 ^ (k + 1) ∣ x + 2 ^ blk.order :=
      Nat.dvd_add hxdvd (Nat.pow_dvd_pow 2 hgt)
    have h1 : x ≤ base := le_of_dvd_of_lt_add hxdvd hbase (by omega)
    have h2 : base + 2 ^ (k + 1) ≤ x + 2 ^ blk.order :=
      le_of_dvd_of_lt_add (Nat.dvd_add hbase (Nat.dvd_refl _)) hxdvd' (by omega)
    by_cases hxo : x = o
    · rw [hxo, ho] at hx
      rw [← Option.some.inj hx] at hgt
      exact absurd hgt (Nat.lt_irrefl k)
    · have hapart := h.apart hx ho hxo
      simp only at hapart
      omega
  · have hxdvd := h.aligned hx
    have hydvd : 2 ^ blk.order ∣ o ^^^ 2 ^ k := (Nat.pow_dvd_pow 2 hle).trans hyo
    have hle' := le_of_dvd_of_lt_add hydvd hxdvd hhi
    rw [Nat.le_antisymm hle' hlo]
    exact ⟨blk, hx, hle⟩

/-! ## Merging -/

/-- One block in the place of the two halves at `o` and `o + 2 ^ k`. -/
def mergeAt (b : Layout σ) (o k : Nat) (s : σ) : Layout σ :=
  Function.update (Function.update b (o + 2 ^ k) none) o (some ⟨k + 1, s⟩)

theorem mergeAt_lower (b : Layout σ) (o k : Nat) (s : σ) : mergeAt b o k s o = some ⟨k + 1, s⟩ :=
  Function.update_self ..

theorem mergeAt_of_ne (b : Layout σ) (s : σ) (h1 : x ≠ o) (h2 : x ≠ o + 2 ^ k) :
    mergeAt b o k s x = b x := by
  rw [mergeAt, Function.update_of_ne h1, Function.update_of_ne h2]

/-- A merge of two blocks of one status leaves the blocks of the others. -/
theorem mergeAt_eq_iff_of_ne {k' : Nat} {st : σ} (ho : b o = some ⟨k, s⟩)
    (hup : b (o + 2 ^ k) = some ⟨k, s⟩) (hst : st ≠ s) :
    mergeAt b o k s x = some ⟨k', st⟩ ↔ b x = some ⟨k', st⟩ := by
  by_cases h1 : x = o
  · subst h1
    simp [mergeAt_lower, ho, hst.symm]
  by_cases h2 : x = o + 2 ^ k
  · subst h2
    simp [mergeAt, hup, hst.symm]
  · rw [mergeAt_of_ne _ _ h1 h2]

/-- The blocks after a merge. -/
theorem mergeAt_cases (h : mergeAt b o k s x = some blk) :
    (x = o ∧ blk = ⟨k + 1, s⟩) ∨ (x ≠ o ∧ x ≠ o + 2 ^ k ∧ b x = some blk) := by
  by_cases h1 : x = o
  · subst h1
    rw [mergeAt_lower] at h
    exact Or.inl ⟨rfl, (Option.some.inj h).symm⟩
  by_cases h2 : x = o + 2 ^ k
  · rw [mergeAt, Function.update_of_ne h1, h2, Function.update_self] at h
    exact absurd h nofun
  · rw [mergeAt_of_ne _ _ h1 h2] at h
    exact Or.inr ⟨h1, h2, h⟩

theorem Tiling.mergeAt (h : Tiling low top b) {s₁ s₂ : σ} (ho : b o = some ⟨k, s₁⟩)
    (hy : b (o + 2 ^ k) = some ⟨k, s₂⟩) (hdvd : 2 ^ (k + 1) ∣ o) (hk : k < top) (s : σ) :
    Tiling low top (mergeAt b o k s) := by
  have hpos := Nat.two_pow_pos k
  have htwo := two_pow_succ k
  refine ⟨?_, ?_, ?_, ?_, ?_, ?_⟩
  · intro x blk hx
    rcases mergeAt_cases hx with ⟨-, rfl⟩ | ⟨-, -, hx⟩
    · exact Nat.le_succ_of_le (h.low_le ho)
    · exact h.low_le hx
  · intro x blk hx
    rcases mergeAt_cases hx with ⟨-, rfl⟩ | ⟨-, -, hx⟩
    · exact hk
    · exact h.le_top hx
  · intro x blk hx
    rcases mergeAt_cases hx with ⟨rfl, rfl⟩ | ⟨-, -, hx⟩
    · exact hdvd
    · exact h.aligned hx
  · intro x blk hx
    rcases mergeAt_cases hx with ⟨rfl, rfl⟩ | ⟨-, -, hx⟩
    · exact h.lt ho
    · exact h.lt hx
  · intro x blk x' blk' hx hx' hlt
    rcases mergeAt_cases hx with ⟨rfl, rfl⟩ | ⟨hxo, hxy, hx₁⟩ <;>
      rcases mergeAt_cases hx' with ⟨hx'o, hblk⟩ | ⟨hx'o, hx'y, hx'₁⟩
    · omega
    · have h1 : x + 2 ^ k ≤ x' := h.disjoint ho hx'₁ hlt
      have h2 : x + 2 ^ k + 2 ^ k ≤ x' := h.disjoint hy hx'₁ (by omega)
      change x + 2 ^ (k + 1) ≤ x'
      omega
    · rw [hx'o] at hlt ⊢
      exact h.disjoint hx₁ ho hlt
    · exact h.disjoint hx₁ hx'₁ hlt
  · intro x hx
    obtain ⟨y, blk, hyb, hlo, hhi⟩ := h.cover x hx
    by_cases hyo : y = o
    · subst hyo
      rw [ho] at hyb
      obtain rfl := Option.some.inj hyb
      simp only at hhi
      exact ⟨y, _, mergeAt_lower .., hlo, by simp only [htwo]; omega⟩
    by_cases hyk : y = o + 2 ^ k
    · subst hyk
      rw [hy] at hyb
      obtain rfl := Option.some.inj hyb
      simp only at hhi
      exact ⟨o, _, mergeAt_lower .., by omega, by simp only [htwo]; omega⟩
    · exact ⟨y, blk, (mergeAt_of_ne _ _ hyo hyk).trans hyb, hlo, hhi⟩

/-- A block and its buddy are the two halves of a pair. -/
theorem Tiling.halves (h : Tiling low top b) {s₁ : σ} (ho : b o = some ⟨k, s₁⟩) :
    (2 ^ (k + 1) ∣ o ∧ o ^^^ 2 ^ k = o + 2 ^ k ∧ min o (o ^^^ 2 ^ k) = o) ∨
      (2 ^ (k + 1) ∣ o ^^^ 2 ^ k ∧ o = (o ^^^ 2 ^ k) + 2 ^ k ∧
        min o (o ^^^ 2 ^ k) = o ^^^ 2 ^ k) := by
  rcases xor_two_pow (h.aligned ho) with ⟨hd, hx⟩ | ⟨hle, hd, hx⟩
  · refine Or.inl ⟨hd, hx, ?_⟩
    rw [hx]
    exact Nat.min_eq_left (Nat.le_add_right ..)
  · rw [hx]
    exact Or.inr ⟨hd, (Nat.sub_add_cancel hle).symm, Nat.min_eq_right (Nat.sub_le ..)⟩

/-! ## Sums over the blocks -/

/-- The sum of a number over all blocks below `n`. -/
def weight (w : Block σ → Nat) (n : Nat) (b : Layout σ) : Nat :=
  ∑ o ∈ Finset.range n, (b o).elim 0 w

theorem weight_update (w : Block σ → Nat) {n : Nat} (b : Layout σ) (hon : o < n)
    (x : Option (Block σ)) :
    weight w n (Function.update b o x) + (b o).elim 0 w = weight w n b + x.elim 0 w := by
  have hmem := Finset.mem_range.2 hon
  unfold weight
  rw [← Finset.add_sum_erase _ _ hmem, ← Finset.add_sum_erase _ (fun o => (b o).elim 0 w) hmem,
    Function.update_self]
  have hrest : ∀ y ∈ (Finset.range n).erase o,
      (Function.update b o x y).elim 0 w = (b y).elim 0 w := by
    intro y hy
    rw [Function.update_of_ne (Finset.ne_of_mem_erase hy)]
  rw [Finset.sum_congr rfl hrest]
  omega

/-- Changing a block that counts nothing to one that counts nothing. -/
theorem weight_update_of_zero (w : Block σ → Nat) {n : Nat} (hon : o < n) {x : Option (Block σ)}
    (hold : (b o).elim 0 w = 0) (hnew : x.elim 0 w = 0) :
    weight w n (Function.update b o x) = weight w n b := by
  have h := weight_update w b hon x
  omega

/-! ## Merged tilings -/

/-- No two buddies have the status `f`. -/
def Merged (f : σ) (top : Nat) (b : Layout σ) : Prop :=
  ∀ o k, k < top → b o = some ⟨k, f⟩ → b (o ^^^ 2 ^ k) ≠ some ⟨k, f⟩

theorem xor_two_pow_ne (o k : Nat) : o ^^^ 2 ^ k ≠ o := by
  intro h
  have hzero : 2 ^ k = 0 := by
    rw [← Nat.zero_xor (2 ^ k), ← Nat.xor_self o, Nat.xor_assoc, h]
  exact absurd hzero (Nat.ne_of_gt (Nat.two_pow_pos k))

variable {f : σ} {b' : Layout σ}

/-- A layout without new free blocks stays merged. -/
theorem Merged.of_imp (h : Merged f top b)
    (himp : ∀ {o k}, b' o = some ⟨k, f⟩ → b o = some ⟨k, f⟩) : Merged f top b' :=
  fun _ _ hk ho hy => h _ _ hk (himp ho) (himp hy)

/-- A block whose buddy is not free may become free. -/
theorem Merged.free (h : Merged f top b) (hbuddy : k < top → b (o ^^^ 2 ^ k) ≠ some ⟨k, f⟩) :
    Merged f top (Function.update b o (some ⟨k, f⟩)) := by
  intro x n hn hx hy
  by_cases hxo : x = o
  · subst hxo
    rw [Function.update_self] at hx
    cases Option.some.inj hx
    rw [Function.update_of_ne (xor_two_pow_ne x k)] at hy
    exact hbuddy hn hy
  · rw [Function.update_of_ne hxo] at hx
    by_cases hyo : x ^^^ 2 ^ n = o
    · rw [hyo, Function.update_self] at hy
      cases Option.some.inj hy
      refine hbuddy hn ?_
      rw [← hyo, Nat.xor_xor_cancel_right]
      exact hx
    · rw [Function.update_of_ne hyo] at hy
      exact h _ _ hn hx hy

/-- An aligned range that only free blocks meet lies in one of them. -/
theorem Tiling.free_around (h : Tiling low top b) (hmerged : Merged f top b) (n : Nat) :
    ∀ {x : Nat}, 2 ^ n ∣ x → x + 2 ^ n ≤ 2 ^ top →
      (∀ {o blk}, b o = some blk → o < x + 2 ^ n → x < o + 2 ^ blk.order → blk.status = f) →
      ∃ o k, b o = some ⟨k, f⟩ ∧ o ≤ x ∧ x + 2 ^ n ≤ o + 2 ^ k := by
  induction n with
  | zero =>
    intro x _ hstop hfree
    rw [Nat.pow_zero] at hstop hfree ⊢
    obtain ⟨o, ⟨k, s⟩, ho, hlo, hhi⟩ := h.cover x hstop
    obtain rfl : s = f := hfree ho (Nat.lt_succ_of_le hlo) hhi
    exact ⟨o, k, ho, hlo, hhi⟩
  | succ n ih =>
    intro x hdvd hstop hfree
    have hpos := Nat.two_pow_pos n
    have htwo := two_pow_succ n
    have hhalf : 2 ^ n ∣ x := (Nat.pow_dvd_pow 2 (Nat.le_succ n)).trans hdvd
    obtain ⟨o₁, k₁, ho₁, hlo₁, hhi₁⟩ := ih hhalf (by omega)
      fun ho hlt hgt => hfree ho (by omega) hgt
    obtain ⟨o₂, k₂, ho₂, hlo₂, hhi₂⟩ := ih (Nat.dvd_add hhalf (Nat.dvd_refl _)) (by omega)
      fun ho hlt hgt => hfree ho (by omega) (by omega)
    have hdvd₁ : 2 ^ k₁ ∣ o₁ := h.aligned ho₁
    have hdvd₂ : 2 ^ k₂ ∣ o₂ := h.aligned ho₂
    -- A free block that is larger than a half contains both of them.
    rcases Nat.lt_or_ge n k₁ with hk₁ | hk₁
    · refine ⟨o₁, k₁, ho₁, hlo₁, ?_⟩
      have hpow := Nat.pow_dvd_pow 2 hk₁
      exact le_of_dvd_of_lt_add (Nat.dvd_add hdvd (Nat.dvd_refl _))
        (Nat.dvd_add (hpow.trans hdvd₁) hpow) (by omega)
    rcases Nat.lt_or_ge n k₂ with hk₂ | hk₂
    · refine ⟨o₂, k₂, ho₂, ?_, by omega⟩
      exact le_of_dvd_of_lt_add ((Nat.pow_dvd_pow 2 hk₂).trans hdvd₂) hdvd (by omega)
    -- Otherwise the two halves are free buddies.
    have hle₁ : 2 ^ k₁ ≤ 2 ^ n := Nat.pow_le_pow_right Nat.two_pos hk₁
    have hle₂ : 2 ^ k₂ ≤ 2 ^ n := Nat.pow_le_pow_right Nat.two_pos hk₂
    obtain rfl : k₁ = n := Nat.pow_right_injective (Nat.le_refl 2) (by simp only; omega)
    obtain rfl : k₂ = k₁ := Nat.pow_right_injective (Nat.le_refl 2) (by simp only; omega)
    obtain rfl : o₁ = x := by omega
    obtain rfl : o₂ = o₁ + 2 ^ k₂ := by omega
    have hxor : o₁ ^^^ 2 ^ k₂ = o₁ + 2 ^ k₂ := xor_two_pow_of_dvd hdvd
    have htop : k₂ < top := (Nat.pow_lt_pow_iff_right (by decide : 1 < 2)).1 (by omega)
    exact absurd (hxor ▸ ho₂) (hmerged _ _ htop ho₁)

/-- The free blocks of two merged tilings with the same other blocks lie in
each other. -/
private theorem Tiling.free_inside (h : Tiling low top b) (h' : Tiling low top b')
    (hmerged' : Merged f top b')
    (hsame : ∀ {o blk}, blk.status ≠ f → b' o = some blk → b o = some blk)
    (ho : b o = some ⟨k, f⟩) :
    ∃ o' k', b' o' = some ⟨k', f⟩ ∧ o' ≤ o ∧ o + 2 ^ k ≤ o' + 2 ^ k' := by
  refine h'.free_around hmerged' k (h.aligned ho) (h.stop_le ho) ?_
  intro x blk hx hlt hgt
  by_contra hstatus
  have hx' := hsame hstatus hx
  by_cases hne : x = o
  · rw [hne, ho] at hx'
    rw [← Option.some.inj hx'] at hstatus
    exact hstatus rfl
  · have hapart := h.apart hx' ho hne
    simp only at hapart
    omega

/-- Two merged tilings with the same blocks of the other statuses are the
same. -/
theorem Tiling.eq_of_merged (h : Tiling low top b) (h' : Tiling low top b')
    (hmerged : Merged f top b) (hmerged' : Merged f top b')
    (hsame : ∀ {o blk}, blk.status ≠ f → (b o = some blk ↔ b' o = some blk)) : b = b' := by
  have hfree : ∀ {b b' : Layout σ}, Tiling low top b → Tiling low top b' → Merged f top b →
      Merged f top b' → (∀ {o blk}, blk.status ≠ f → (b o = some blk ↔ b' o = some blk)) →
      ∀ {o blk}, b o = some blk → b' o = some blk := by
    intro b b' h h' hmerged hmerged' hsame o blk ho
    by_cases hstatus : blk.status = f
    · obtain ⟨k, s⟩ := blk
      obtain rfl : s = f := hstatus
      obtain ⟨o₁, k₁, ho₁, hlo₁, hhi₁⟩ :=
        h.free_inside h' hmerged' (fun hne hx => (hsame hne).2 hx) ho
      obtain ⟨o₂, k₂, ho₂, hlo₂, hhi₂⟩ :=
        h'.free_inside h hmerged (fun hne hx => (hsame hne).1 hx) ho₁
      -- The block around the block around `o` is the block at `o`.
      have hpos := Nat.two_pow_pos k
      obtain rfl : o₂ = o := by
        by_contra hne
        have hapart := h.apart ho₂ ho hne
        simp only at hapart
        omega
      rw [ho] at ho₂
      cases Option.some.inj ho₂
      obtain rfl : o₁ = o₂ := by omega
      obtain rfl : k₁ = k := Nat.pow_right_injective (Nat.le_refl 2) (by simp only; omega)
      exact ho₁
    · exact (hsame hstatus).1 ho
  funext o
  cases ho : b o with
  | some blk => exact (hfree h h' hmerged hmerged' hsame ho).symm
  | none =>
    cases ho' : b' o with
    | none => rfl
    | some blk =>
      have hback := hfree h' h hmerged' hmerged (fun hne => (hsame hne).symm) ho'
      exact absurd (ho.symm.trans hback) nofun

end Buddy
