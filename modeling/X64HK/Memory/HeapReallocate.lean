import X64HK.Memory.HeapSizes

/-!
# `Reallocate`

`Reallocate` keeps a block whose order suits the new size.  Otherwise it allocates,
copies and frees, which is a sequence of requests of the kind that `Reachable` is
about: the copy is made of writes by the client that holds the new block.

* `serveAll_copyRequests` runs the writes of a copy.
* `Served.copy_outside` says that the other blocks keep their bytes.
* `Served.replace` puts the three steps together.
-/

namespace X64HK.Heap

open Buddy

variable {sys : System} {b : Layout} {lists : Nat → List Nat} {p q : Nat}

/-- The writes that copy `n` bytes into the block of the first live pointer. -/
def copyRequests (bytes : Nat → BitVec 8) (n : Nat) : List Request :=
  (List.range n).map fun i => .write 0 (HEADER_SIZE + i) (bytes i)

/-- The system after a copy into the block of `q`. -/
def System.copy (sys : System) (q n : Nat) (bytes : Nat → BitVec 8) : System :=
  { sys with heap := { sys.heap with memory := sys.heap.memory.copy q n bytes } }

theorem order_copy (hq : HEADER_SIZE ≤ q) (n : Nat) (bytes : Nat → BitVec 8) :
    order (sys.copy q n bytes).heap (blockOf q) = order sys.heap (blockOf q) := by
  refine ByteMemory.load_congr fun a _ hhi => ?_
  have hsize : HEADER_SIZE = 16 := rfl
  rw [blockOf] at hhi
  exact ByteMemory.copy_of_outside (by omega)

theorem copy_succ (m : ByteMemory) (q n : Nat) (bytes : Nat → BitVec 8) :
    Function.update (m.copy q n bytes) (q + n) (bytes n) = m.copy q (n + 1) bytes := by
  funext a
  by_cases ha : a = q + n
  · subst ha
    rw [Function.update_self, ByteMemory.copy, if_pos (by omega), Nat.add_sub_cancel_left]
  · rw [Function.update_of_ne ha, ByteMemory.copy, ByteMemory.copy]
    by_cases hin : q ≤ a ∧ a < q + n
    · rw [if_pos hin, if_pos (by omega)]
    · rw [if_neg hin, if_neg (by omega)]

/-- A copy is a sequence of writes by the client that holds the block. -/
theorem serveAll_copyRequests (hlive : sys.live[0]? = some q) (hq : HEADER_SIZE ≤ q)
    (bytes : Nat → BitVec 8) {n : Nat} (hfits : HEADER_SIZE + n ≤ 2 ^ order sys.heap (blockOf q)) :
    serveAll sys (copyRequests bytes n) = .ok (sys.copy q n bytes) := by
  induction n with
  | zero =>
    have hsame : sys.heap.memory.copy q 0 bytes = sys.heap.memory :=
      funext fun a => if_neg (by omega)
    rw [System.copy, hsame]
    rfl
  | succ n ih =>
    have hlast : serve (sys.copy q n bytes) (.write 0 (HEADER_SIZE + n) (bytes n)) =
        .ok (sys.copy q (n + 1) bytes) := by
      have hget : (sys.copy q n bytes).live[0]? = some q := hlive
      have haddress : blockOf q + (HEADER_SIZE + n) = q + n := by
        rw [blockOf]
        omega
      simp only [serve, hget, order_copy hq]
      rw [if_pos (by omega), haddress, writeByte]
      simp only [System.copy, copy_succ]
    rw [copyRequests, List.range_succ, List.map_append, serveAll_append]
    rw [← copyRequests, ih (by omega)]
    exact (serveAll_singleton _ _).trans hlast

/-- The client of `r` keeps its block and what it wrote there. -/
def System.Keeps (sys sys' : System) (r : Nat) : Prop :=
  r ∈ sys'.live ∧ order sys'.heap (blockOf r) = order sys.heap (blockOf r) ∧
    ∀ i, HEADER_SIZE ≤ i → i < 2 ^ order sys.heap (blockOf r) →
      sys'.heap.memory (blockOf r + i) = sys.heap.memory (blockOf r + i)

theorem System.Keeps.trans {sys' sys'' : System} {r : Nat} (h : sys.Keeps sys' r)
    (h' : sys'.Keeps sys'' r) : sys.Keeps sys'' r := by
  obtain ⟨-, horder, hbytes⟩ := h
  obtain ⟨hlive, horder', hbytes'⟩ := h'
  refine ⟨hlive, horder'.trans horder, fun i hlo hhi => ?_⟩
  rw [hbytes' i hlo (by rwa [horder]), hbytes i hlo hhi]

/-- A copy into one block leaves the others alone. -/
theorem Served.copy_outside (h : Served sys b lists) (hq : q ∈ sys.live) {r : Nat}
    (hr : r ∈ sys.live) (hne : r ≠ q) {n : Nat}
    (hfits : HEADER_SIZE + n ≤ 2 ^ order sys.heap (blockOf q)) (bytes : Nat → BitVec 8) :
    sys.Keeps (sys.copy q n bytes) r := by
  have hlive := hr
  obtain ⟨o, k, ho, rfl⟩ := h.mem_live.1 hq
  obtain ⟨o', k', ho', rfl⟩ := h.mem_live.1 hr
  have hsize := h.inv.size_le ho'
  have hheader : HEADER_SIZE = 16 := rfl
  have hapart := h.inv.tiling.apart ho ho' (by rintro rfl; exact hne rfl)
  rw [blockOf_add, (h.inv.header ho (by decide)).order] at hfits
  rw [System.Keeps, blockOf_add, (h.inv.header ho' (by decide)).order]
  simp only at hapart hsize
  have hkept : ∀ i, i < 2 ^ k' →
      (sys.copy (sys.heap.region + o + HEADER_SIZE) n bytes).heap.memory
        (sys.heap.region + o' + i) = sys.heap.memory (sys.heap.region + o' + i) := by
    intro i hi
    exact ByteMemory.copy_of_outside (by omega)
  refine ⟨hlive, ?_, fun i _ => hkept i⟩
  rw [← (h.inv.header ho' (by decide)).order]
  refine ByteMemory.load_congr fun a hlo hhi => ?_
  obtain ⟨i, rfl⟩ := Nat.exists_eq_add_of_le hlo
  have hbyte := hkept (4 + i) (by omega)
  rwa [← Nat.add_assoc (sys.heap.region + o')] at hbyte

/-! ## What a client sees -/

/-- The client of `p` holds `q` instead, with at least `size` bytes that start with
what fits of the old ones, and nobody else is affected. -/
structure Reallocated (sys : System) (p size q : Nat) (sys' : System) : Prop where
  live : q ∈ sys'.live
  large : size + HEADER_SIZE ≤ 2 ^ order sys'.heap (blockOf q)
  bytes : ∀ i, i < min size (2 ^ order sys.heap (blockOf p) - HEADER_SIZE) →
    sys'.heap.memory (q + i) = sys.heap.memory (p + i)
  old : p ∈ sys'.live → q = p
  others : ∀ r ∈ sys.live, r ≠ p → r ∈ sys'.live ∧
    order sys'.heap (blockOf r) = order sys.heap (blockOf r) ∧
    ∀ i, HEADER_SIZE ≤ i → i < 2 ^ order sys.heap (blockOf r) →
      sys'.heap.memory (blockOf r + i) = sys.heap.memory (blockOf r + i)
  /-- Nothing else becomes live. -/
  only : ∀ r ∈ sys'.live, r ≠ q → r ∈ sys.live

/-- The new block. -/
theorem Served.allocateBlock (h : Served sys b lists) {size : Nat} {s₁ : State}
    (hsize : size + HEADER_SIZE < 2 ^ 64) (halloc : Heap.allocate sys.heap size = (q, s₁))
    (hq : q ≠ 0) :
    Heap.serve sys (.allocate size) = .ok ⟨s₁, q :: sys.live⟩ ∧
      (∃ b₁ lists₁, Served ⟨s₁, q :: sys.live⟩ b₁ lists₁) ∧
      (∀ r ∈ sys.live, sys.Keeps ⟨s₁, q :: sys.live⟩ r) ∧
      HEADER_SIZE ≤ q ∧ size + HEADER_SIZE ≤ 2 ^ order s₁ (blockOf q) := by
  obtain ⟨sys₁, b₁, lists₁, hserve₁, h₁, hund₁, -⟩ := h.allocate size
  have hserve : Heap.serve sys (.allocate size) = .ok ⟨s₁, q :: sys.live⟩ := by
    simp only [Heap.serve, halloc, if_neg hq]
  obtain rfl := Except.ok.inj (hserve₁.symm.trans hserve)
  have hsome : (Heap.allocate sys.heap size).1 ≠ 0 := by rwa [halloc]
  obtain ⟨horder, hlo, -⟩ := allocate_sized h.inv h.noneHeld hsome
  have hlarge := allocate_fits h.inv hsize hsome
  rw [← horder] at hlarge
  simp only [halloc] at hlarge hlo
  refine ⟨hserve, ⟨b₁, lists₁, h₁⟩, fun r hr => hund₁ r hr fun hfrom => hfrom.elim, ?_, hlarge⟩
  have hpos := h.inv.region_pos
  rw [blockOf] at hlo
  omega

/-- The old block. -/
theorem Served.freeBlock (h : Served sys b lists) {i : Nat} (hget : sys.live[i]? = some p) :
    ∃ s', Heap.free sys.heap p = .ok s' ∧
      Heap.serve sys (.free i) = .ok ⟨s', sys.live.eraseIdx i⟩ ∧
      ∀ r ∈ sys.live, r ≠ p → sys.Keeps ⟨s', sys.live.eraseIdx i⟩ r := by
  obtain ⟨sys', b', lists', hserve, -, hund, -⟩ := h.free i
  have hfreed := hserve
  simp only [Heap.serve, hget] at hfreed
  obtain ⟨s', hfree, hsys⟩ := (bind_ok_iff _ _ _).1 hfreed
  obtain rfl := Except.ok.inj hsys
  refine ⟨s', hfree, hserve, fun r hr hne => hund r hr fun hfrom => hne ?_⟩
  exact Option.some.inj (hfrom.symm.trans hget)

/-- `Allocate`, `memcpy` and `Free` in a row. -/
theorem Served.replace (h : Served sys b lists) {i size n : Nat} {s₁ : State}
    (hget : sys.live[i]? = some p) (hsize : size + HEADER_SIZE < 2 ^ 64)
    (halloc : Heap.allocate sys.heap size = (q, s₁)) (hq : q ≠ 0)
    (hn : n = min size (2 ^ order sys.heap (blockOf p) - HEADER_SIZE)) :
    ∃ s' requests, Heap.free (memcpy s₁ q p n) p = .ok s' ∧
      serveAll sys requests = .ok ⟨s', q :: sys.live.eraseIdx i⟩ ∧
      Reallocated sys p size q ⟨s', q :: sys.live.eraseIdx i⟩ := by
  have hp : p ∈ sys.live := List.mem_of_getElem? hget
  obtain ⟨hserve₁, ⟨b₁, lists₁, h₁⟩, hkeeps₁, hqlow, hlarge⟩ := h.allocateBlock hsize halloc hq
  have hqnew : q ∉ sys.live := (List.nodup_cons.1 h₁.nodup_live).1
  obtain ⟨bytes, hbytes⟩ : ∃ bytes : Nat → BitVec 8, bytes = fun j => s₁.memory (p + j) := ⟨_, rfl⟩
  have hfits : HEADER_SIZE + n ≤ 2 ^ order s₁ (blockOf q) := by omega
  have hcopy := @serveAll_copyRequests ⟨s₁, q :: sys.live⟩ q rfl hqlow bytes n hfits
  obtain ⟨sys₂, b₂, lists₂, hserve₂, h₂, -⟩ :=
    serveAll_invariant (J := fun _ _ => True) (fun _ _ _ _ => trivial) h₁ trivial
  obtain rfl := Except.ok.inj (hserve₂.symm.trans hcopy)
  obtain ⟨s', hfree, hserve₃, hkeeps₃⟩ := h₂.freeBlock (i := i + 1) hget
  have hmemcpy : (System.copy ⟨s₁, q :: sys.live⟩ q n bytes).heap = memcpy s₁ q p n := by
    rw [hbytes]
    rfl
  obtain ⟨-, horder₃, hkept₃⟩ :=
    hkeeps₃ q (List.mem_cons_self ..) fun heq => hqnew (heq ▸ hp)
  rw [order_copy hqlow] at horder₃ hkept₃
  refine ⟨s', .allocate size :: (copyRequests bytes n ++ [.free (i + 1)]), hmemcpy ▸ hfree, ?_, ?_⟩
  · rw [serveAll, List.foldlM_cons, hserve₁]
    change serveAll _ (_ ++ _) = _
    rw [serveAll_append, hcopy]
    exact (serveAll_singleton _ _).trans hserve₃
  · constructor
    · exact List.mem_cons_self ..
    · rw [horder₃]
      exact hlarge
    · intro j hj
      rw [← hn] at hj
      obtain ⟨-, -, hkept₁⟩ := hkeeps₁ p hp
      have hold := hkept₁ (HEADER_SIZE + j) (by omega) (by omega)
      have hnew := hkept₃ (HEADER_SIZE + j) (by omega) (by simp only; omega)
      have hplow : HEADER_SIZE ≤ p := by
        obtain ⟨o, k, -, rfl⟩ := h.mem_live.1 hp
        omega
      rw [blockOf, ← Nat.add_assoc, Nat.sub_add_cancel hplow] at hold
      rw [blockOf, ← Nat.add_assoc, Nat.sub_add_cancel hqlow] at hnew
      rw [hnew, ← hold]
      change s₁.memory.copy q n bytes (q + j) = _
      rw [ByteMemory.copy, if_pos (by omega), Nat.add_sub_cancel_left, hbytes]
    · intro hmem
      rcases List.mem_cons.1 hmem with heq | hmem
      · exact heq.symm
      · obtain ⟨hi, hp'⟩ := List.getElem?_eq_some_iff.1 hget
        rw [← h.nodup_live.erase_getElem i hi, hp', h.nodup_live.mem_erase_iff] at hmem
        exact absurd rfl hmem.1
    · intro r hr hne
      have hcopied := h₁.copy_outside (List.mem_cons_self ..) (List.mem_cons_of_mem q hr)
        (fun heq => hqnew (heq ▸ hr)) hfits bytes
      exact (hkeeps₁ r hr).trans (hcopied.trans (hkeeps₃ r (List.mem_cons_of_mem q hr) hne))
    · intro r hr hne
      rcases List.mem_cons.1 hr with heq | hmem
      · exact absurd heq hne
      · exact List.mem_of_mem_eraseIdx hmem

/-- `Reallocate` of a live pointer returns.  With a null answer the heap is as it was.
Any other answer is a live pointer with room for the request, which starts with the
old bytes, and nothing but the old block is given up for it. -/
theorem reallocate_correct (h : Reachable sys) (hp : p ∈ sys.live) (size : Nat) (hpos : 0 < size)
    (hsize : size + HEADER_SIZE < 2 ^ 64) :
    ∃ q s', reallocate sys.heap p size = .ok (q, s') ∧ (q = 0 → s' = sys.heap) ∧
      (q ≠ 0 → ∃ live, Reachable ⟨s', live⟩ ∧ Reallocated sys p size q ⟨s', live⟩) := by
  obtain ⟨b, lists, hserved, -⟩ := h.served
  obtain ⟨o, k, ho, rfl⟩ := hserved.mem_live.1 hp
  obtain ⟨i, hi, hget⟩ := List.getElem_of_mem hp
  have hget : sys.live[i]? = some (sys.heap.region + o + HEADER_SIZE) :=
    List.getElem?_eq_some_iff.2 ⟨hi, hget⟩
  have hlabel := hserved.inv.header ho (by decide)
  have hstop := hserved.inv.lt ho
  have hblock := hserved.inv.size_le ho
  have hle := hserved.inv.region_le
  have hheap : HEAP_SIZE = 2 ^ 24 := rfl
  have hheader : HEADER_SIZE = 16 := rfl
  simp only at hstop hblock
  have hsub : sub64 (sys.heap.region + o + HEADER_SIZE) HEADER_SIZE = sys.heap.region + o := by
    rw [sub64_of_le (by omega) (by omega)]
    omega
  have hold : sub64 (2 ^ k) HEADER_SIZE = 2 ^ k - HEADER_SIZE := sub64_of_le (by omega) (by omega)
  have hmagic : assert "block->Magic == BLOCK_MAGIC"
      (decide (magic sys.heap (sys.heap.region + o) = BLOCK_MAGIC)) = .ok () :=
    assert_eq_ok.2 (decide_eq_true hlabel.magic)
  unfold reallocate
  rw [if_neg (by omega), if_neg (by omega)]
  simp only [hsub, hmagic, hlabel.order, hold, bind, Except.bind]
  split
  · next hsuits =>
    refine ⟨_, _, rfl, fun hnull => absurd hnull (by omega), fun _ => ⟨sys.live, h, ?_⟩⟩
    refine ⟨hp, ?_, fun _ _ => rfl, fun _ => rfl, fun r hr _ => ⟨hr, rfl, fun _ _ _ => rfl⟩,
      fun r hr _ => hr⟩
    rw [blockOf_add, hlabel.order]
    omega
  · obtain ⟨q, s₁, halloc⟩ : ∃ q s₁, allocate sys.heap size = (q, s₁) := ⟨_, _, rfl⟩
    simp only [halloc]
    split
    · next hq =>
      obtain ⟨s', requests, hfree, hrun, hreallocated⟩ := hserved.replace hget hsize halloc hq rfl
      rw [blockOf_add, hlabel.order] at hfree
      rw [hfree]
      exact ⟨q, s', rfl, fun hnull => absurd hnull hq, fun _ => ⟨_, h.serveAll hrun, hreallocated⟩⟩
    · next hnull =>
      have hsame := @allocate_null_unchanged _ _ _ size hserved.inv hserved.noneHeld
        (by rw [halloc]; exact not_not.1 hnull)
      rw [halloc] at hsame
      exact ⟨0, s₁, rfl, fun _ => hsame, fun hne => absurd rfl hne⟩

/-- A block of the smallest order moves when a hundred bytes are asked for. -/
theorem reallocate_correct_grow :
    ∃ sys s' live, serveAll ⟨heapStart, []⟩ [.allocate 16, .write 0 16 7] = .ok sys ∧
      reallocate sys.heap (heapStart.region + 16) 100 = .ok (heapStart.region + 128 + 16, s') ∧
      Reallocated sys (heapStart.region + 16) 100 (heapStart.region + 128 + 16) ⟨s', live⟩ := by
  obtain ⟨sys, hrun, hlive, hanswer⟩ := exists_ok_of_check
    (x := serveAll ⟨heapStart, []⟩ [.allocate 16, .write 0 16 7])
    (fun sys => sys.live = [heapStart.region + 16] ∧
      (reallocate sys.heap (heapStart.region + 16) 100).toOption.map Prod.fst =
        some (heapStart.region + 128 + 16))
    (by decide +kernel)
  obtain ⟨q, s', heq, -, hmoved⟩ := reallocate_correct (reachable_of_heapStart hrun)
    (p := heapStart.region + 16) (by rw [hlive]; exact List.mem_singleton.2 rfl)
    100 (by decide) (by decide)
  rw [heq] at hanswer
  obtain rfl : q = heapStart.region + 128 + 16 := Option.some.inj hanswer
  obtain ⟨live, -, hreallocated⟩ := hmoved (by decide +kernel)
  exact ⟨sys, s', live, hrun, heq, hreallocated⟩

end X64HK.Heap
