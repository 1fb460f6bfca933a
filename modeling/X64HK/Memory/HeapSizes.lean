import X64HK.Memory.HeapRuns

/-!
# How large a block is

`Allocate` adds the size of the header to the request before it compares the
sum with the heap, and the sum wraps around at 64 bits.  A request within
sixteen bytes of 2 ^ 64 looks like a small one, and any free block serves it.

* `le_two_pow_orderFor` and `orderFor_le` say that `OrderFor` gives the
  smallest order that is large enough.
* `allocate_eq_null_iff` is when `Allocate` answers null.
* `allocate_sized` is the block behind any other answer.
* `size_guarantee_iff` says for which requests the guarantee holds, for
  `Allocate` and for `calloc`.
-/

namespace X64HK.Heap

open Buddy

variable {s : State} {b : Layout} {lists : Nat → List Nat} {o k : Nat} {size : Nat} {bytes : Nat}

/-! ## `OrderFor` -/

theorem le_two_pow_orderForLoop :
    ∀ {n order : Nat}, bytes ≤ 2 ^ (order + n) → bytes ≤ 2 ^ orderForLoop bytes n order
  | 0, _, h => h
  | n + 1, order, h => by
    rw [orderForLoop]
    split
    · exact le_two_pow_orderForLoop (by rwa [Nat.add_right_comm])
    · omega

theorem le_two_pow_orderFor (h : bytes ≤ HEAP_SIZE) : bytes ≤ 2 ^ orderFor bytes :=
  le_two_pow_orderForLoop h

theorem orderForLoop_le (hk : bytes ≤ 2 ^ k) :
    ∀ {n order : Nat}, order ≤ k → orderForLoop bytes n order ≤ k
  | 0, _, h => h
  | n + 1, order, h => by
    rw [orderForLoop]
    split
    · next hlt =>
      have hne : order ≠ k := by
        rintro rfl
        omega
      exact orderForLoop_le hk (by omega)
    · exact h

/-- A larger order than the one of `OrderFor` is not needed. -/
theorem orderFor_le (hmin : MIN_ORDER ≤ k) (hk : bytes ≤ 2 ^ k) : orderFor bytes ≤ k :=
  orderForLoop_le hk hmin

/-! ## When the answer is null -/

/-- The search passes empty lists only. -/
theorem findOrder_passed (s : State) :
    ∀ {n order j : Nat}, order ≤ j → j < findOrder s n order → s.freeLists j = 0
  | 0, order, j, hle, hlt => absurd hlt (Nat.not_lt.2 hle)
  | n + 1, order, j, hle, hlt => by
    rw [findOrder] at hlt
    split at hlt
    · next hempty =>
      rcases Nat.eq_or_lt_of_le hle with rfl | hgt
      · exact hempty
      · exact findOrder_passed s hgt hlt
    · exact absurd hlt (Nat.not_lt.2 hle)

/-- The head of a list is null exactly when no block is on it. -/
theorem Inv.freeLists_eq_zero_iff (h : Inv s b lists) : s.freeLists k = 0 ↔ ∀ o, ¬FreeAt s k o := by
  constructor
  · intro hzero o hfree
    have hmem := h.mem_lists.2 (h.freeAt_iff.1 hfree)
    have hlinked := h.linked k
    cases hl : lists k with
    | nil =>
      rw [hl] at hmem
      cases hmem
    | cons x rest =>
      rw [hl, hzero] at hlinked
      have hpos := h.region_pos
      have hx := hlinked.1
      omega
  · intro hnone
    by_contra hne
    obtain ⟨x, rest, hl, -⟩ := h.exists_head hne
    exact hnone x (h.freeAt_iff.2 (h.mem_lists.1 (by simp [hl])))

/-- The orders of free blocks. -/
theorem Inv.freeAt_bounds (h : Inv s b lists) (hfree : FreeAt s k o) :
    MIN_ORDER ≤ k ∧ k ≤ MAX_ORDER := by
  have ho := h.freeAt_iff.1 hfree
  exact ⟨h.tiling.low_le ho, h.tiling.le_top ho⟩

/-- The search fails exactly when every free block is too small. -/
theorem Inv.findOrder_gt_iff (h : Inv s b lists) {needed : Nat} (hneeded : needed ≤ HEAP_SIZE) :
    findOrder s (MAX_ORDER + 1 - orderFor needed) (orderFor needed) > MAX_ORDER ↔
      ∀ k o, FreeAt s k o → 2 ^ k < needed := by
  obtain ⟨hmin, hmax⟩ := orderFor_bounds needed
  constructor
  · intro hgt k o hfree
    by_contra hle
    obtain ⟨hmink, hmaxk⟩ := h.freeAt_bounds hfree
    have hzero : s.freeLists k = 0 :=
      findOrder_passed s (orderFor_le hmink (Nat.not_lt.1 hle)) (Nat.lt_of_le_of_lt hmaxk hgt)
    exact h.freeLists_eq_zero_iff.1 hzero o hfree
  · intro hsmall
    by_contra hle
    obtain ⟨hge, hlist⟩ :=
      findOrder_spec s (MAX_ORDER + 1 - orderFor needed) (orderFor needed)
    have hne := hlist (by omega)
    rw [ne_eq, h.freeLists_eq_zero_iff, not_forall] at hne
    obtain ⟨o, hfree⟩ := hne
    have hlt := hsmall _ o (not_not.1 hfree)
    have hfits := le_two_pow_orderFor hneeded
    have hpow := Nat.pow_le_pow_right Nat.two_pos hge
    omega

/-- `Allocate` answers null for an empty request, for one that looks too large
and for one that looks larger than every free block. -/
theorem allocate_eq_null_iff (h : Inv s b lists) (size : Nat) :
    (allocate s size).1 = 0 ↔ size = 0 ∨ HEAP_SIZE < wrap64 (size + HEADER_SIZE) ∨
      ∀ k o, FreeAt s k o → 2 ^ k < wrap64 (size + HEADER_SIZE) := by
  obtain ⟨needed, hn⟩ : ∃ needed, needed = wrap64 (size + HEADER_SIZE) := ⟨_, rfl⟩
  unfold allocate
  rw [← hn]
  dsimp only
  split
  · simp [*]
  · next hsize =>
    split
    · next hlarge => simp [hsize, hlarge]
    · next hfits =>
      have hiff := h.findOrder_gt_iff (Nat.not_lt.1 hfits)
      split
      · next hgt => exact iff_of_true rfl (Or.inr (Or.inr (hiff.1 hgt)))
      · next hle =>
        obtain ⟨hge, hlist⟩ := findOrder_spec s (MAX_ORDER + 1 - orderFor needed) (orderFor needed)
        obtain ⟨o, rest, hl, hhead⟩ := h.exists_head (hlist (by omega))
        have hend := h.lt (h.mem_lists.1 (by rw [hl]; exact List.mem_cons_self ..))
        have hblock := h.size_le (h.mem_lists.1 (by rw [hl]; exact List.mem_cons_self ..))
        have hpos := h.region_pos
        have hbound := h.region_le
        have hheader : HEADER_SIZE = 16 := rfl
        rw [hhead, wrap64_of_lt (by omega)]
        constructor
        · intro hzero
          omega
        · rintro (hzero | hlarge | hsmall)
          · exact absurd hzero hsize
          · exact absurd hlarge hfits
          · exact absurd (hiff.2 hsmall) hle

/-- A null answer leaves the heap as it was. -/
theorem allocate_null_unchanged (h : Inv s b lists) (hnone : NoneHeld b)
    (hnull : (allocate s size).1 = 0) : (allocate s size).2 = s := by
  rcases allocate_spec h hnone size with heq | ⟨o, k, s', b', lists', heq, -⟩
  · rw [heq]
  · have hpos := h.region_pos
    rw [heq] at hnull
    simp only at hnull
    omega

/-- The block behind an answer lies in the region and has the order that
`OrderFor` gives for the sum. -/
theorem allocate_sized (h : Inv s b lists) (hnone : NoneHeld b) (hsome : (allocate s size).1 ≠ 0) :
    order (allocate s size).2 (blockOf (allocate s size).1) =
        orderFor (wrap64 (size + HEADER_SIZE)) ∧
      s.region ≤ blockOf (allocate s size).1 ∧
      blockOf (allocate s size).1 + 2 ^ orderFor (wrap64 (size + HEADER_SIZE)) ≤
        s.region + HEAP_SIZE := by
  rcases allocate_spec h hnone size with
    heq | ⟨o, k, s', b', lists', heq, h', -, hkeeps, -, hlive, rfl, -⟩
  · rw [heq] at hsome
    exact absurd rfl hsome
  · have ho := (hlive o _).2 (Or.inl ⟨rfl, rfl⟩)
    have hlabel := h'.header ho (by decide)
    have hend := h'.lt ho
    rw [hkeeps.region] at hlabel
    simp only [heq, blockOf_add]
    exact ⟨hlabel.order, by omega, by simp only at hend; omega⟩

/-- What fits the heap without wrapping around gets a block that is large
enough. -/
theorem allocate_fits (h : Inv s b lists) (hsize : size + HEADER_SIZE < 2 ^ 64)
    (hsome : (allocate s size).1 ≠ 0) :
    size + HEADER_SIZE ≤ 2 ^ orderFor (wrap64 (size + HEADER_SIZE)) := by
  rw [ne_eq, allocate_eq_null_iff h, not_or, not_or] at hsome
  have hfits := le_two_pow_orderFor (Nat.not_lt.1 hsome.2.1)
  rwa [wrap64_of_lt hsize] at hfits ⊢

/-! ## The guarantee -/

/-- What a client expects of an allocation of `size` bytes that is asked for in
the state `s`. -/
structure SizeGuarantee (s : State) (size : Nat) (result : Nat × State) : Prop where
  /-- The block behind the answer lies in the region and holds the request. -/
  large : result.1 ≠ 0 → size + HEADER_SIZE ≤ 2 ^ order result.2 (blockOf result.1) ∧
    s.region ≤ blockOf result.1 ∧
    blockOf result.1 + 2 ^ order result.2 (blockOf result.1) ≤ s.region + HEAP_SIZE
  /-- The answer is null exactly when the request is empty or no free block can
  hold it. -/
  null : result.1 = 0 ↔ size = 0 ∨ HEAP_SIZE < size + HEADER_SIZE ∨
    ∀ k o, FreeAt s k o → 2 ^ k < size + HEADER_SIZE
  unchanged : result.1 = 0 → result.2 = s

variable {sys : System}

theorem sizeGuarantee_allocate (h : Served sys b lists) (hsize : size + HEADER_SIZE < 2 ^ 64) :
    SizeGuarantee sys.heap size (allocate sys.heap size) where
  large := by
    intro hsome
    obtain ⟨horder, hlo, hhi⟩ := allocate_sized h.inv h.noneHeld hsome
    rw [horder]
    exact ⟨allocate_fits h.inv hsize hsome, hlo, hhi⟩
  null := by
    have hiff := allocate_eq_null_iff h.inv size
    rwa [wrap64_of_lt hsize] at hiff
  unchanged := allocate_null_unchanged h.inv h.noneHeld

/-- A request that is larger than the heap is refused, or the guarantee is
broken. -/
theorem SizeGuarantee.null_of_large {result : Nat × State} (h : SizeGuarantee s size result)
    (hlarge : HEAP_SIZE < size + HEADER_SIZE) :
    result.1 = 0 :=
  h.null.2 (Or.inr (Or.inl hlarge))

/-- A request that wraps around is served with any free block. -/
theorem allocate_wrapped (h : Inv s b lists) (hlt : size < 2 ^ 64)
    (hwraps : 2 ^ 64 ≤ size + HEADER_SIZE) :
    (allocate s size).1 = 0 ↔ ∀ k o, ¬FreeAt s k o := by
  have hheader : HEADER_SIZE = 16 := rfl
  have hneeded : wrap64 (size + HEADER_SIZE) < 16 := by
    unfold wrap64
    omega
  have hheap : HEAP_SIZE = 2 ^ 24 := rfl
  rw [allocate_eq_null_iff h]
  constructor
  · rintro (hzero | hlarge | hsmall) k o hfree
    · omega
    · omega
    · have hlt' := hsmall k o hfree
      have hpow := Nat.pow_le_pow_right Nat.two_pos (h.freeAt_bounds hfree).1
      have hmin : 2 ^ MIN_ORDER = 32 := rfl
      omega
  · exact fun hnone => Or.inr (Or.inr fun k o hfree => absurd hfree (hnone k o))

theorem sizeGuarantee_allocate_iff (h : Served sys b lists) (hlt : size < 2 ^ 64) :
    SizeGuarantee sys.heap size (allocate sys.heap size) ↔
      size + HEADER_SIZE < 2 ^ 64 ∨ ∀ k o, ¬FreeAt sys.heap k o := by
  rcases Nat.lt_or_ge (size + HEADER_SIZE) (2 ^ 64) with hsize | hwraps
  · exact ⟨fun _ => Or.inl hsize, fun _ => sizeGuarantee_allocate h hsize⟩
  · have hheap : HEAP_SIZE = 2 ^ 24 := rfl
    have hlarge : HEAP_SIZE < size + HEADER_SIZE := by omega
    have hnull := allocate_wrapped h.inv hlt hwraps
    constructor
    · exact fun hguarantee => Or.inr (hnull.1 (hguarantee.null_of_large hlarge))
    · rintro (hsize | hnone)
      · omega
      · exact ⟨fun hsome => absurd (hnull.2 hnone) hsome,
          ⟨fun _ => Or.inr (Or.inl hlarge), fun _ => hnull.2 hnone⟩,
          allocate_null_unchanged h.inv h.noneHeld⟩

/-! ## `calloc` -/

/-- The division finds every product that does not fit 64 bits. -/
theorem wrap64_div_eq_iff {count : Nat} (hcount : count ≠ 0) (size : Nat) :
    wrap64 (count * size) / count = size ↔ count * size < 2 ^ 64 := by
  constructor
  · intro heq
    have hle : count * size ≤ wrap64 (count * size) := by
      have hmul := Nat.div_mul_le_self (wrap64 (count * size)) count
      rwa [heq, Nat.mul_comm] at hmul
    exact Nat.lt_of_le_of_lt hle (wrap64_lt _)
  · intro hlt
    rw [wrap64_of_lt hlt, Nat.mul_div_cancel_left _ (Nat.pos_of_ne_zero hcount)]

/-- `calloc` refuses a product that wraps around, and asks for any other. -/
theorem calloc_eq (s : State) (count size : Nat) :
    calloc s count size =
      if 2 ^ 64 ≤ count * size then (0, s)
      else if (allocate s (count * size)).1 = 0 then (0, (allocate s (count * size)).2)
      else ((allocate s (count * size)).1, memsetZero (allocate s (count * size)).2
        (allocate s (count * size)).1 (count * size)) := by
  unfold calloc
  dsimp only
  by_cases hcount : count = 0
  · subst hcount
    simp [wrap64, allocate]
  · by_cases hlarge : 2 ^ 64 ≤ count * size
    · rw [if_pos hlarge, if_pos ⟨hcount, fun heq =>
        absurd ((wrap64_div_eq_iff hcount size).1 heq) (Nat.not_lt.2 hlarge)⟩]
    · have hlt := Nat.lt_of_not_le hlarge
      have hdiv := (wrap64_div_eq_iff hcount size).2 hlt
      rw [if_neg hlarge, if_neg (fun hne => hne.2 hdiv), wrap64_of_lt hlt]
      by_cases hnull : (allocate s (count * size)).1 = 0
      · simp [hnull]
      · simp [hnull]

/-- `memset` leaves the header in front of its range alone. -/
theorem order_memsetZero {p count : Nat} (hheader : HEADER_SIZE ≤ p) (hp : p < 2 ^ 64)
    (hcount : count + HEADER_SIZE ≤ 2 ^ 64) :
    order (memsetZero s p count) (blockOf p) = order s (blockOf p) := by
  refine ByteMemory.load_congr fun a hlo hhi => ?_
  have hsize : HEADER_SIZE = 16 := rfl
  simp only [memsetZero, blockOf] at hlo hhi ⊢
  rw [if_neg]
  unfold sub64
  omega

/-- `memset` does not matter for the guarantee. -/
theorem sizeGuarantee_memsetZero_iff (h : Served sys b lists) {total : Nat}
    (hsome : (allocate sys.heap total).1 ≠ 0) :
    SizeGuarantee sys.heap total ((allocate sys.heap total).1,
        memsetZero (allocate sys.heap total).2 (allocate sys.heap total).1 total) ↔
      SizeGuarantee sys.heap total (allocate sys.heap total) := by
  rcases Nat.lt_or_ge HEAP_SIZE (total + HEADER_SIZE) with hlarge | hfits
  · exact ⟨fun hguarantee => absurd (hguarantee.null_of_large hlarge) hsome,
      fun hguarantee => absurd (hguarantee.null_of_large hlarge) hsome⟩
  · obtain ⟨-, hlo, hhi⟩ := allocate_sized h.inv h.noneHeld hsome
    have hpos := h.inv.region_pos
    have hbound := h.inv.region_le
    have hheap : HEAP_SIZE = 2 ^ 24 := rfl
    have hheader : HEADER_SIZE = 16 := rfl
    have hblock : 32 ≤ 2 ^ orderFor (wrap64 (total + HEADER_SIZE)) :=
      Nat.pow_le_pow_right Nat.two_pos (orderFor_bounds _).1
    have horder := @order_memsetZero (allocate sys.heap total).2 (allocate sys.heap total).1 total
      (by simp only [blockOf] at hlo; omega) (by simp only [blockOf] at hhi; omega) (by omega)
    constructor
    · intro hguarantee
      have hlarge := hguarantee.large
      simp only [horder] at hlarge
      exact ⟨hlarge, hguarantee.null, fun hnull => absurd hnull hsome⟩
    · intro hguarantee
      refine ⟨?_, hguarantee.null, fun hnull => absurd hnull hsome⟩
      simp only [horder]
      exact hguarantee.large

theorem sizeGuarantee_calloc_iff (h : Served sys b lists) (count size : Nat) :
    SizeGuarantee sys.heap (count * size) (calloc sys.heap count size) ↔
      count * size + HEADER_SIZE < 2 ^ 64 ∨ 2 ^ 64 ≤ count * size ∨
        ∀ k o, ¬FreeAt sys.heap k o := by
  have hheap : HEAP_SIZE = 2 ^ 24 := rfl
  have hheader : HEADER_SIZE = 16 := rfl
  rw [calloc_eq]
  obtain ⟨total, htotal⟩ : ∃ total, total = count * size := ⟨_, rfl⟩
  rw [← htotal]
  split
  · next hlarge =>
    refine ⟨fun _ => Or.inr (Or.inl hlarge), fun _ => ⟨fun hne => absurd rfl hne, ?_, fun _ => rfl⟩⟩
    exact ⟨fun _ => Or.inr (Or.inl (by omega)), fun _ => rfl⟩
  · next hlt =>
    have hiff := sizeGuarantee_allocate_iff h (Nat.lt_of_not_le hlt)
    rw [or_iff_right hlt (a := 2 ^ 64 ≤ total), ← hiff]
    split
    · next hnull => rw [← hnull]
    · next hsome => exact sizeGuarantee_memsetZero_iff h hsome

/-- The size guarantee of `Allocate` holds for a request that does not wrap around
when the header is added, and it holds for the others only if there is no free
block at all.  `calloc` refuses a product that does not fit 64 bits, and passes
the others on. -/
theorem size_guarantee_iff (h : Reachable sys) :
    (∀ size < 2 ^ 64, SizeGuarantee sys.heap size (allocate sys.heap size) ↔
        size + HEADER_SIZE < 2 ^ 64 ∨ ∀ k o, ¬FreeAt sys.heap k o) ∧
      ∀ count < 2 ^ 64, ∀ size < 2 ^ 64,
        SizeGuarantee sys.heap (count * size) (calloc sys.heap count size) ↔
          count * size + HEADER_SIZE < 2 ^ 64 ∨ 2 ^ 64 ≤ count * size ∨
            ∀ k o, ¬FreeAt sys.heap k o := by
  obtain ⟨b, lists, hserved, -⟩ := h.served
  exact ⟨fun size hsize => sizeGuarantee_allocate_iff hserved hsize,
    fun count _ size _ => sizeGuarantee_calloc_iff hserved count size⟩

/-- A page from a fresh heap. -/
theorem size_guarantee_iff_page :
    Reachable ⟨heapStart, []⟩ ∧ SizeGuarantee heapStart 4096 (allocate heapStart 4096) := by
  have hreachable : Reachable ⟨heapStart, []⟩ := @reachable_of_heapStart ⟨heapStart, []⟩ [] rfl
  exact ⟨hreachable, ((size_guarantee_iff hreachable).1 4096 (by decide)).2 (Or.inl (by decide))⟩

/-- In a fresh heap a request for all but sixteen bytes of the address space gets the
smallest block. -/
theorem wrapped_request_gets_smallest_block :
    Reachable ⟨heapStart, []⟩ ∧ (allocate heapStart (2 ^ 64 - 16)).1 = heapStart.region + 16 ∧
      order (allocate heapStart (2 ^ 64 - 16)).2 heapStart.region = MIN_ORDER ∧
      (calloc heapStart 1 (2 ^ 64 - 16)).1 = heapStart.region + 16 ∧
      ¬SizeGuarantee heapStart (2 ^ 64 - 16) (allocate heapStart (2 ^ 64 - 16)) := by
  have hpointer : (allocate heapStart (2 ^ 64 - 16)).1 = heapStart.region + 16 := by
    decide +kernel
  refine ⟨@reachable_of_heapStart ⟨heapStart, []⟩ [] rfl, hpointer, by decide +kernel,
    by decide +kernel, fun h => ?_⟩
  have hnull := h.null_of_large (by decide)
  rw [hpointer] at hnull
  exact absurd hnull (by decide +kernel)

end X64HK.Heap
