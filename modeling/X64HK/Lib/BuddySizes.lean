import Mathlib.Algebra.Order.Ring.GeomSum
import Mathlib.Order.Interval.Finset.Nat
import X64HK.Lib.Buddy

/-!
# The sizes of the blocks of a tiling

* `Tiling.weight_size`: the blocks of a tiling add up to the whole range.
* `Lonely` says that no two blocks of one order have a status, and `Lonely.weight_lt` that such
  blocks add up to less than the next power of two.
-/

namespace Buddy

variable {σ : Type} {low top n : Nat} {b : Layout σ} {w w' : Block σ → Nat}

theorem weight_congr (h : ∀ {o blk}, b o = some blk → w blk = w' blk) :
    weight w n b = weight w' n b := by
  refine Finset.sum_congr rfl fun o _ => ?_
  cases ho : b o with
  | none => rfl
  | some blk => exact h ho

theorem weight_add (w w' : Block σ → Nat) (n : Nat) (b : Layout σ) :
    weight (fun blk => w blk + w' blk) n b = weight w n b + weight w' n b := by
  unfold weight
  rw [← Finset.sum_add_distrib]
  refine Finset.sum_congr rfl fun o _ => ?_
  cases b o <;> rfl

/-- A block counts towards the sum. -/
theorem le_weight {o : Nat} {blk : Block σ} (ho : b o = some blk) (hlt : o < n) :
    w blk ≤ weight w n b := by
  have hle := Finset.single_le_sum (f := fun o => (b o).elim 0 w)
    (fun _ _ => Nat.zero_le _) (Finset.mem_range.2 hlt)
  simp only [ho] at hle
  exact hle

/-- The offsets of a block. -/
def offsets (b : Layout σ) (o : Nat) : Finset Nat :=
  (b o).elim ∅ fun blk => Finset.Ico o (o + 2 ^ blk.order)

theorem mem_offsets {o x : Nat} :
    x ∈ offsets b o ↔ ∃ blk, b o = some blk ∧ o ≤ x ∧ x < o + 2 ^ blk.order := by
  unfold offsets
  cases b o with
  | none => simp
  | some blk => simp

theorem card_offsets (b : Layout σ) (o : Nat) :
    (offsets b o).card = (b o).elim 0 fun blk => 2 ^ blk.order := by
  unfold offsets
  cases b o with
  | none => rfl
  | some blk => exact (Nat.card_Ico ..).trans (Nat.add_sub_cancel_left ..)

theorem Tiling.weight_size (h : Tiling low top b) :
    weight (fun blk => 2 ^ blk.order) (2 ^ top) b = 2 ^ top := by
  have hcover : Finset.range (2 ^ top) = (Finset.range (2 ^ top)).biUnion (offsets b) := by
    ext x
    rw [Finset.mem_biUnion, Finset.mem_range]
    constructor
    · intro hx
      obtain ⟨o, blk, ho, hlo, hhi⟩ := h.cover x hx
      exact ⟨o, Finset.mem_range.2 (h.lt ho), mem_offsets.2 ⟨blk, ho, hlo, hhi⟩⟩
    · rintro ⟨o, -, hx⟩
      obtain ⟨blk, ho, -, hhi⟩ := mem_offsets.1 hx
      exact Nat.lt_of_lt_of_le hhi (h.stop_le ho)
  have hdisjoint : ∀ o ∈ Finset.range (2 ^ top), ∀ o' ∈ Finset.range (2 ^ top), o ≠ o' →
      Disjoint (offsets b o) (offsets b o') := by
    intro o _ o' _ hne
    rw [Finset.disjoint_left]
    intro x hx hx'
    obtain ⟨blk, ho, hlo, hhi⟩ := mem_offsets.1 hx
    obtain ⟨blk', ho', hlo', hhi'⟩ := mem_offsets.1 hx'
    have hapart := h.apart ho ho' hne
    omega
  calc weight (fun blk => 2 ^ blk.order) (2 ^ top) b
      = ∑ o ∈ Finset.range (2 ^ top), (offsets b o).card :=
        Finset.sum_congr rfl fun o _ => (card_offsets b o).symm
    _ = ((Finset.range (2 ^ top)).biUnion (offsets b)).card :=
        (Finset.card_biUnion hdisjoint).symm
    _ = 2 ^ top := by rw [← hcover, Finset.card_range]

/-- No two blocks of one order have the status `f`. -/
def Lonely (f : σ) (b : Layout σ) : Prop :=
  ∀ o o' k, b o = some ⟨k, f⟩ → b o' = some ⟨k, f⟩ → o = o'

/-- The size of a block that has the status `f`. -/
def sizeIf [DecidableEq σ] (f : σ) (blk : Block σ) : Nat :=
  if blk.status = f then 2 ^ blk.order else 0

/-- Different powers of two below `2 ^ k` add up to less. -/
theorem Lonely.weight_lt [DecidableEq σ] {f : σ} {k : Nat} (h : Lonely f b)
    (hsmall : ∀ o j, b o = some ⟨j, f⟩ → j < k) : weight (sizeIf f) n b < 2 ^ k := by
  let order (o : Nat) : Nat := (b o).elim 0 Block.order
  let blocks := (Finset.range n).filter fun o => (b o).any fun blk => blk.status = f
  have hblock : ∀ o ∈ blocks, b o = some ⟨order o, f⟩ := by
    intro o ho
    obtain ⟨⟨j, s⟩, hj, hs⟩ := Option.any_eq_true _ _ |>.1 (Finset.mem_filter.1 ho).2
    obtain rfl : s = f := of_decide_eq_true hs
    simp only [order, hj, Option.elim_some]
  calc weight (sizeIf f) n b
      = ∑ o ∈ Finset.range n,
          if (b o).any fun blk => blk.status = f then 2 ^ order o else 0 := by
        refine Finset.sum_congr rfl fun o _ => ?_
        cases ho : b o with
        | none => rfl
        | some blk => simp [order, ho, sizeIf]
    _ = ∑ o ∈ blocks, 2 ^ order o := (Finset.sum_filter _ _).symm
    _ = ∑ j ∈ blocks.image order, 2 ^ j := by
        refine (Finset.sum_image fun o ho o' ho' heq => ?_).symm
        refine h o o' (order o) (hblock o ho) ?_
        rw [heq]
        exact hblock o' ho'
    _ < 2 ^ k := by
        refine Nat.geomSum_lt (Nat.le_refl 2) fun j hj => ?_
        obtain ⟨o, ho, rfl⟩ := Finset.mem_image.1 hj
        exact hsmall o _ (hblock o ho)

end Buddy
