import X64HK.Lib.BuddySizes
import X64HK.Memory.HeapCanonical
import X64HK.Memory.HeapSizes

/-!
# When the heap is full

`Allocate` answers null when no free block is large enough.  What that means for a client depends
on the blocks of the others only.

* `heap_allocate_complete`: a request fails exactly if every place that its block could have meets
  a live block.
* `heap_fills_without_free`: as long as nothing is freed, there is at most one free block of each
  order, and a request fails exactly if the live blocks leave too little.
-/

namespace X64HK.Heap

open Buddy

variable {s s' : State} {sys sys' : System} {b : Layout} {lists : Nat → List Nat} {o k size : Nat}

/-- A block of order `k` at `x` would meet a live block. -/
def Blocked (sys : System) (k x : Nat) : Prop :=
  ∃ o j, LiveAt sys o j ∧ o < x + 2 ^ k ∧ x < o + 2 ^ j

/-- A place for a block that meets no live block lies in a free one. -/
theorem Served.free_of_not_blocked (h : Served sys b lists) (hmerged : Merged .free MAX_ORDER b)
    {x : Nat} (hdvd : 2 ^ k ∣ x) (hstop : x + 2 ^ k ≤ HEAP_SIZE) (hnot : ¬Blocked sys k x) :
    ∃ o j, b o = some ⟨j, .free⟩ ∧ k ≤ j := by
  have hfree : ∀ {o blk}, b o = some blk → o < x + 2 ^ k → x < o + 2 ^ blk.order →
      blk.status = .free := by
    intro o blk ho hlt hgt
    by_contra hstatus
    obtain ⟨j, rfl⟩ := h.live_of_ne_free hstatus ho
    exact hnot ⟨o, j, h.liveAt_iff.2 ho, hlt, hgt⟩
  obtain ⟨o, j, ho, hlo, hhi⟩ := h.inv.tiling.free_around hmerged k hdvd hstop hfree
  have hpow : 2 ^ k ≤ 2 ^ j := by omega
  exact ⟨o, j, ho, (Nat.pow_le_pow_iff_right (by decide)).1 hpow⟩

/-- No place in a free block meets a live one. -/
theorem Served.not_blocked_of_free (h : Served sys b lists) (ho : b o = some ⟨k, .free⟩)
    {j : Nat} (hj : j ≤ k) : ¬Blocked sys j o := by
  rintro ⟨o', j', hlive, hlt, hgt⟩
  have ho' := h.liveAt_iff.1 hlive
  have hpow : 2 ^ j ≤ 2 ^ k := Nat.pow_le_pow_right Nat.two_pos hj
  have hpos := Nat.two_pow_pos k
  by_cases heq : o = o'
  · subst heq
    rw [ho] at ho'
    cases ho'
  · have hapart := h.inv.tiling.apart ho ho' heq
    simp only at hapart
    omega

/-- A request fails exactly if no free block has its order. -/
theorem Inv.allocate_eq_null_iff_order (h : Inv s b lists) (hsize : 0 < size)
    (hfits : size + HEADER_SIZE ≤ HEAP_SIZE) :
    (allocate s size).1 = 0 ↔ ∀ o k, b o = some ⟨k, .free⟩ → k < orderFor (size + HEADER_SIZE) := by
  have hwrap : wrap64 (size + HEADER_SIZE) = size + HEADER_SIZE :=
    wrap64_of_lt (Nat.lt_of_le_of_lt hfits (by decide))
  rw [allocate_eq_null_iff h, hwrap]
  constructor
  · rintro (hzero | hlarge | hsmall) o k ho
    · omega
    · omega
    · by_contra hle
      have hlt := hsmall k o (h.freeAt_iff.2 ho)
      have hneeded := le_two_pow_orderFor hfits
      have hpow := Nat.pow_le_pow_right Nat.two_pos (Nat.not_lt.1 hle)
      omega
  · intro hsmall
    refine Or.inr (Or.inr fun k o hfree => ?_)
    by_contra hle
    have ho := h.freeAt_iff.1 hfree
    have horder := orderFor_le (h.tiling.low_le ho) (Nat.not_lt.1 hle)
    exact absurd (hsmall o k ho) (Nat.not_lt.2 horder)

/-- `Allocate` fails exactly if every place for the block meets a live one. -/
theorem heap_allocate_complete (h : Reachable sys) (hsize : 0 < size)
    (hfits : size + HEADER_SIZE ≤ HEAP_SIZE) :
    (allocate sys.heap size).1 = 0 ↔ ∀ x, 2 ^ orderFor (size + HEADER_SIZE) ∣ x → x < HEAP_SIZE →
      Blocked sys (orderFor (size + HEADER_SIZE)) x := by
  obtain ⟨b, lists, hserved, hmerged⟩ := h.served
  obtain ⟨-, hmax⟩ := orderFor_bounds (size + HEADER_SIZE)
  rw [hserved.inv.allocate_eq_null_iff_order hsize hfits]
  constructor
  · intro hsmall x hdvd hlt
    by_contra hnot
    have hstop : x + 2 ^ orderFor (size + HEADER_SIZE) ≤ HEAP_SIZE :=
      le_of_dvd_of_lt_add (Nat.dvd_add hdvd (Nat.dvd_refl _)) (Nat.pow_dvd_pow 2 hmax) (by omega)
    obtain ⟨o, j, ho, hle⟩ := hserved.free_of_not_blocked hmerged hdvd hstop hnot
    exact absurd (hsmall o j ho) (Nat.not_lt.2 hle)
  · intro hblocked o k ho
    by_contra hle
    have hle := Nat.not_lt.1 hle
    have hdvd := (Nat.pow_dvd_pow 2 hle).trans (hserved.inv.tiling.aligned ho)
    exact hserved.not_blocked_of_free ho hle (hblocked o hdvd (hserved.inv.tiling.lt ho))

/-- One block takes up the whole heap. -/
theorem heap_allocate_complete_full :
    ∃ sys, serveAll ⟨heapStart, []⟩ [.allocate (HEAP_SIZE - HEADER_SIZE)] = .ok sys ∧
      (allocate sys.heap 1).1 = 0 ∧ ∀ x, 2 ^ MIN_ORDER ∣ x → x < HEAP_SIZE →
        Blocked sys MIN_ORDER x := by
  obtain ⟨sys, hrun, hnull⟩ := exists_ok_of_check
    (x := serveAll ⟨heapStart, []⟩ [.allocate (HEAP_SIZE - HEADER_SIZE)])
    (fun sys => (allocate sys.heap 1).1 = 0) (by decide +kernel)
  exact ⟨sys, hrun, hnull,
    (heap_allocate_complete (reachable_of_heapStart hrun) (by decide) (by decide)).1 hnull⟩

/-! ## Runs without `Free` -/

/-- The sizes of live and free blocks add up to the heap. -/
theorem Served.used_add_free (h : Served sys b lists) :
    sys.heap.usedBytes + weight (sizeIf .free) HEAP_SIZE b = HEAP_SIZE := by
  rw [h.inv.used, ← weight_add]
  refine Eq.trans (weight_congr fun {o blk} ho => ?_) h.inv.tiling.weight_size
  by_cases hstatus : blk.status = .free
  · simp [liveBytes, sizeIf, hstatus]
  · obtain ⟨k, rfl⟩ := h.live_of_ne_free hstatus ho
    simp [liveBytes, sizeIf]

/-- With at most one free block of each order, what matters is how much is free. -/
theorem Served.allocate_eq_null_iff_used (h : Served sys b lists) (hlonely : Lonely .free b)
    (hsize : 0 < size) (hfits : size + HEADER_SIZE ≤ HEAP_SIZE) :
    (Heap.allocate sys.heap size).1 = 0 ↔
      HEAP_SIZE < sys.heap.usedBytes + 2 ^ orderFor (size + HEADER_SIZE) := by
  have hsum := h.used_add_free
  rw [h.inv.allocate_eq_null_iff_order hsize hfits]
  constructor
  · intro hsmall
    have hlt := hlonely.weight_lt (n := HEAP_SIZE) hsmall
    omega
  · intro hfull o k ho
    by_contra hle
    have hpow := Nat.pow_le_pow_right Nat.two_pos (Nat.not_lt.1 hle)
    have hblock : sizeIf Status.free ⟨k, .free⟩ ≤ weight (sizeIf .free) HEAP_SIZE b :=
      le_weight ho (h.inv.lt_HEAP_SIZE ho)
    rw [sizeIf, if_pos rfl] at hblock
    dsimp only at hblock
    omega

/-- The lists after the splitting loop of `Allocate`. -/
def splitLists (o wanted n : Nat) (lists : Nat → List Nat) (k : Nat) : List Nat :=
  if wanted ≤ k ∧ k < wanted + n then (o + 2 ^ k) :: lists k else lists k

theorem splitLists_succ (o wanted n : Nat) (lists : Nat → List Nat) :
    splitLists o wanted n (Function.update lists (wanted + n)
      ((o + 2 ^ (wanted + n)) :: lists (wanted + n))) = splitLists o wanted (n + 1) lists := by
  funext k
  unfold splitLists
  by_cases hk : k = wanted + n
  · subst hk
    rw [if_neg (by omega), if_pos (by omega), Function.update_self]
  · rw [Function.update_of_ne hk]
    by_cases hin : wanted ≤ k ∧ k < wanted + n
    · rw [if_pos hin, if_pos (by omega)]
    · rw [if_neg hin, if_neg (by omega)]

/-- The splitting loop puts one block on each list that it passes. -/
theorem splitLoop_lists {wanted : Nat} (hwanted : MIN_ORDER ≤ wanted) :
    ∀ {n : Nat} {s : State} {b : Layout} {lists : Nat → List Nat},
      Inv s b lists → b o = some ⟨wanted + n, .held⟩ →
      ∃ b', Inv (splitLoop (s.region + o) wanted s n) b' (splitLists o wanted n lists) ∧
        (splitLoop (s.region + o) wanted s n).region = s.region ∧
        b' o = some ⟨wanted, .held⟩ := by
  intro n
  induction n with
  | zero =>
    intro s b lists h ho
    have hsame : splitLists o wanted 0 lists = lists := by
      funext k
      exact if_neg (by omega)
    rw [hsame]
    exact ⟨b, h, rfl, ho⟩
  | succ n ih =>
    intro s b lists h ho
    have hpos := Nat.two_pow_pos (wanted + n)
    have htwo := two_pow_succ (wanted + n)
    have hstop := h.lt ho
    simp only [← Nat.add_assoc, htwo] at hstop
    have hsplit := h.split (k := wanted + n) ho (by omega)
    obtain ⟨hpush, hkeeps⟩ := hsplit.push (splitAt_upper ..)
    have hlower : Function.update (splitAt b o (wanted + n) .held .held) (o + 2 ^ (wanted + n))
        (some ⟨wanted + n, .free⟩) o = some ⟨wanted + n, .held⟩ := by
      rw [Function.update_of_ne (by omega), splitAt_lower]
    obtain ⟨b', h', hregion, ho'⟩ := ih hpush hlower
    rw [splitLists_succ, hkeeps.region] at h'
    rw [hkeeps.region] at hregion
    rw [splitLoop]
    simp only [h.offsetOf (show o < HEAP_SIZE by omega), h.blockAt (show
      o + 2 ^ (wanted + n) < HEAP_SIZE by omega)]
    exact ⟨b', h', hregion, ho'⟩

/-- No two free blocks have one order. -/
def LonelyFree (s : State) : Prop := ∀ k o o', FreeAt s k o → FreeAt s k o' → o = o'

theorem Inv.lonely (h : Inv s b lists) (hlonely : LonelyFree s) : Lonely .free b :=
  fun o o' k ho ho' => hlonely k o o' (h.freeAt_iff.2 ho) (h.freeAt_iff.2 ho')

theorem Inv.lonelyFree (h : Inv s b lists)
    (hlonely : ∀ k, ∀ o ∈ lists k, ∀ o' ∈ lists k, o = o') : LonelyFree s :=
  fun k o o' ho ho' => hlonely k o (h.mem_lists.2 (h.freeAt_iff.1 ho)) o'
    (h.mem_lists.2 (h.freeAt_iff.1 ho'))

/-- `Allocate` only splits a block when the lists that get a half are empty. -/
theorem Inv.lonelyFree_allocate (h : Inv s b lists) (hlonely : LonelyFree s) (size : Nat) :
    LonelyFree (allocate s size).2 := by
  unfold allocate
  split
  · exact hlonely
  simp only
  split
  · exact hlonely
  obtain ⟨wanted, hw⟩ : ∃ wanted, wanted = orderFor (wrap64 (size + HEADER_SIZE)) :=
    ⟨_, rfl⟩
  obtain ⟨hmin, hmax⟩ := orderFor_bounds (wrap64 (size + HEADER_SIZE))
  rw [← hw] at hmin hmax ⊢
  obtain ⟨hle, hlist⟩ := findOrder_spec s (MAX_ORDER + 1 - wanted) wanted
  have hpassed := fun {j} => @findOrder_passed s (MAX_ORDER + 1 - wanted) wanted j
  obtain ⟨order, horder⟩ : ∃ order, order = findOrder s (MAX_ORDER + 1 - wanted) wanted := ⟨_, rfl⟩
  rw [← horder] at hle hlist hpassed ⊢
  split
  · exact hlonely
  obtain ⟨n, rfl⟩ := Nat.exists_eq_add_of_le hle
  obtain ⟨o, rest, hl, hhead⟩ := h.exists_head (hlist (by omega))
  obtain ⟨h₁, hkeeps₁⟩ := h.pop hl
  obtain ⟨b₂, h₂, hregion, ho₂⟩ := splitLoop_lists hmin h₁ (Function.update_self ..)
  obtain ⟨h₃, -⟩ := h₂.handOut ho₂
  rw [hregion, hkeeps₁.region] at h₃
  rw [hhead, Nat.add_sub_cancel_left]
  refine h₃.lonelyFree fun k x hx y hy => ?_
  have hold : ∀ x ∈ lists k, ∀ y ∈ lists k, x = y := fun x hx y hy =>
    hlonely k x y (h.freeAt_iff.2 (h.mem_lists.1 hx)) (h.freeAt_iff.2 (h.mem_lists.1 hy))
  unfold splitLists at hx hy
  by_cases hin : wanted ≤ k ∧ k < wanted + n
  · -- a list that was passed was empty
    have hempty : lists k = [] := by
      refine List.eq_nil_iff_forall_not_mem.2 fun z hz => ?_
      exact h.freeLists_eq_zero_iff.1 (hpassed hin.1 hin.2) z (h.freeAt_iff.2 (h.mem_lists.1 hz))
    rw [if_pos hin, Function.update_of_ne (by omega), hempty] at hx hy
    rw [List.mem_singleton.1 hx, List.mem_singleton.1 hy]
  · rw [if_neg hin] at hx hy
    by_cases hk : k = wanted + n
    · subst hk
      rw [Function.update_self] at hx hy
      exact hold x (hl ▸ List.mem_cons_of_mem _ hx) y (hl ▸ List.mem_cons_of_mem _ hy)
    · rw [Function.update_of_ne hk] at hx hy
      exact hold x hx y hy

theorem Evolves.layout_of_write {b' : Layout} {index offset : Nat} {byte : BitVec 8}
    (h : Evolves s b (.write index offset byte) s' b') : b = b' := by
  cases h <;> rfl

/-- What is not a call of `Free` keeps it so. -/
theorem Served.lonelyFree_serve (h : Served sys b lists) (hlonely : LonelyFree sys.heap)
    {request : Request} (hfree : ∀ index, request ≠ .free index)
    (hserve : Heap.serve sys request = .ok sys') : LonelyFree sys'.heap := by
  obtain ⟨sys₁, b₁, lists₁, hserve₁, h₁, -, hevolves⟩ := h.serve request
  obtain rfl := Except.ok.inj (hserve.symm.trans hserve₁)
  cases request with
  | allocate size =>
    obtain rfl := Except.ok.inj hserve
    exact h.inv.lonelyFree_allocate hlonely size
  | free index => exact absurd rfl (hfree index)
  | write index offset byte =>
    obtain rfl := hevolves.layout_of_write
    exact fun k o o' ho ho' => hlonely k o o' (h.inv.freeAt_iff.2 (h₁.inv.freeAt_iff.1 ho))
      (h.inv.freeAt_iff.2 (h₁.inv.freeAt_iff.1 ho'))

/-- The same for runs. -/
theorem Served.lonelyFree_serveAll {requests : List Request} (h : Served sys b lists)
    (hlonely : LonelyFree sys.heap) (hfree : ∀ index, .free index ∉ requests)
    (hrun : serveAll sys requests = .ok sys') :
    ∃ b' lists', Served sys' b' lists' ∧ LonelyFree sys'.heap := by
  induction requests generalizing sys b lists with
  | nil =>
    obtain rfl := Except.ok.inj hrun
    exact ⟨b, lists, h, hlonely⟩
  | cons request requests ih =>
    rw [serveAll, List.foldlM_cons] at hrun
    obtain ⟨sys₁, hserve, hrest⟩ := (bind_ok_iff _ _ _).1 hrun
    obtain ⟨sys₂, b₁, lists₁, hserve₁, h₁, -⟩ := h.serve request
    obtain rfl := Except.ok.inj (hserve.symm.trans hserve₁)
    have hlonely₁ := h.lonelyFree_serve hlonely
      (fun index heq => hfree index (heq ▸ List.mem_cons_self)) hserve
    exact ih h₁ hlonely₁ (fun index hmem => hfree index (List.mem_cons_of_mem _ hmem)) hrest

/-- Before anything is freed, `Allocate` fails exactly if the blocks that it handed out leave too
little.  No memory is lost to the way in which the free blocks lie. -/
theorem heap_fills_without_free {memory : ByteMemory} {frames frames' : Frame.State} {s₀ : State}
    (hinit : initializeState memory frames = .ok (s₀, frames'))
    (hdirect : frames.reachableFrames * Frame.SIZE ≤ 2 ^ 47) {requests : List Request}
    (hfree : ∀ index, .free index ∉ requests) (hrun : serveAll ⟨s₀, []⟩ requests = .ok sys)
    (hsize : 0 < size) (hfits : size + HEADER_SIZE ≤ HEAP_SIZE) :
    (allocate sys.heap size).1 = 0 ↔
      HEAP_SIZE < sys.heap.usedBytes + 2 ^ orderFor (size + HEADER_SIZE) := by
  obtain ⟨region, hpos, haligned, hle, rfl⟩ := initializeState_spec hinit hdirect
  obtain ⟨b₀, lists₀, h₀, hmerged₀⟩ := initializeAt_served memory hpos haligned hle
  have hsingle := h₀.eq_single hmerged₀ rfl
  have hlonely₀ : LonelyFree (initializeAt memory region) := by
    intro k o o' ho ho'
    have hb := h₀.inv.freeAt_iff.1 ho
    have hb' := h₀.inv.freeAt_iff.1 ho'
    rw [hsingle] at hb hb'
    obtain ⟨hzero, -⟩ := Option.ite_none_right_eq_some.1 hb
    obtain ⟨hzero', -⟩ := Option.ite_none_right_eq_some.1 hb'
    rw [hzero, hzero']
  obtain ⟨b, lists, hserved, hlonely⟩ := h₀.lonelyFree_serveAll hlonely₀ hfree hrun
  exact hserved.allocate_eq_null_iff_used (hserved.inv.lonely hlonely) hsize hfits

/-- Half of the heap and a small block leave no room for the other half. -/
theorem heap_fills_without_free_half :
    ∃ sys, serveAll ⟨heapStart, []⟩ [.allocate (HEAP_SIZE / 2 - HEADER_SIZE), .allocate 1] =
        .ok sys ∧ (allocate sys.heap (HEAP_SIZE / 2 - HEADER_SIZE)).1 = 0 := by
  obtain ⟨frames', hinit⟩ := initializeState_heapFrames
  obtain ⟨sys, hrun, hused⟩ := exists_ok_of_check
    (x := serveAll ⟨heapStart, []⟩ [.allocate (HEAP_SIZE / 2 - HEADER_SIZE), .allocate 1])
    (fun sys => sys.heap.usedBytes = HEAP_SIZE / 2 + 32) (by decide +kernel)
  refine ⟨sys, hrun, (heap_fills_without_free hinit (by decide) (fun index hmem => ?_) hrun
    (by decide) (by decide)).2 ?_⟩
  · simp at hmem
  · rw [hused]
    decide

end X64HK.Heap
