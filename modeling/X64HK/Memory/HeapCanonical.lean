import X64HK.Memory.HeapRuns

/-!
# The free blocks of the heap

`Free` merges a block with its buddy as long as it can, so no two free blocks
of the same order are buddies.  A tiling like that is determined by its live
blocks, whatever requests have led to it.

* `Served.eq_of_live` compares the layouts of two heaps with the same live
  blocks.
* `heap_canonical` is the result in terms of the lists and headers in memory.
-/

namespace X64HK.Heap

open Buddy

/-- A client holds the block at offset `o`, and its header says order `k`. -/
def LiveAt (sys : System) (o k : Nat) : Prop :=
  sys.heap.region + o + HEADER_SIZE ∈ sys.live ∧ order sys.heap (sys.heap.region + o) = k

variable {sys sys' : System} {b b' : Layout} {lists lists' : Nat → List Nat} {o k : Nat}

theorem Served.liveAt_iff (h : Served sys b lists) : LiveAt sys o k ↔ b o = some ⟨k, .live⟩ := by
  constructor
  · rintro ⟨hmem, horder⟩
    obtain ⟨o', k', ho', heq⟩ := h.mem_live.1 hmem
    obtain rfl : o = o' := by omega
    rwa [← horder, (h.inv.header ho' (by decide)).order]
  · intro ho
    exact ⟨h.mem_live.2 ⟨o, k, ho, rfl⟩, (h.inv.header ho (by decide)).order⟩

/-- Between two requests a block that is not free is live. -/
theorem Served.live_of_ne_free (h : Served sys b lists) {blk : Block Status}
    (hstatus : blk.status ≠ .free) (ho : b o = some blk) : ∃ k, blk = ⟨k, .live⟩ := by
  obtain ⟨k, st⟩ := blk
  cases st with
  | free => exact absurd rfl hstatus
  | live => exact ⟨k, rfl⟩
  | held => exact absurd ho (h.noneHeld o k)

/-- Two heaps with the same live blocks have the same layout. -/
theorem Served.eq_of_live (h : Served sys b lists) (hmerged : Merged .free MAX_ORDER b)
    (h' : Served sys' b' lists') (hmerged' : Merged .free MAX_ORDER b')
    (hlive : ∀ o k, b o = some ⟨k, .live⟩ ↔ b' o = some ⟨k, .live⟩) : b = b' := by
  refine h.inv.tiling.eq_of_merged h'.inv.tiling hmerged hmerged' ?_
  intro o blk hstatus
  constructor
  · intro ho
    obtain ⟨k, rfl⟩ := h.live_of_ne_free hstatus ho
    exact (hlive o k).1 ho
  · intro ho
    obtain ⟨k, rfl⟩ := h'.live_of_ne_free hstatus ho
    exact (hlive o k).2 ho

/-- Without a live block the heap is one free block. -/
theorem Served.eq_single (h : Served sys b lists) (hmerged : Merged .free MAX_ORDER b)
    (hlive : sys.live = []) : b = fun o => if o = 0 then some ⟨MAX_ORDER, .free⟩ else none := by
  have hsingle : ∀ {o blk}, (if o = 0 then some (⟨MAX_ORDER, .free⟩ : Block Status) else none) =
      some blk → blk = ⟨MAX_ORDER, .free⟩ := by
    intro o blk ho
    split at ho
    · exact (Option.some.inj ho).symm
    · cases ho
  have htiling : Tiling MIN_ORDER MAX_ORDER (fun o => if o = 0 then
      some (⟨MAX_ORDER, .free⟩ : Block Status) else none) := Tiling.single (by decide) _
  refine h.inv.tiling.eq_of_merged htiling hmerged ?_ ?_
  · intro o k hk ho
    cases hsingle ho
    exact absurd hk (Nat.lt_irrefl _)
  · intro o blk hstatus
    constructor
    · intro ho
      obtain ⟨k, rfl⟩ := h.live_of_ne_free hstatus ho
      have hmem := h.mem_live.2 ⟨o, k, ho, rfl⟩
      rw [hlive] at hmem
      cases hmem
    · intro ho
      rw [hsingle ho] at hstatus
      exact absurd rfl hstatus

/-- Two reachable heaps with the same live blocks have the same free blocks of
each order.  No two free blocks are buddies, and without a live block there is
one free block of the largest order. -/
theorem heap_canonical (h : Reachable sys) (h' : Reachable sys') :
    ((∀ o k, LiveAt sys o k ↔ LiveAt sys' o k) →
        ∀ k o, FreeAt sys.heap k o ↔ FreeAt sys'.heap k o) ∧
      (∀ k o, k < MAX_ORDER → FreeAt sys.heap k o → ¬FreeAt sys.heap k (o ^^^ 2 ^ k)) ∧
      (sys.live = [] → ∀ k o, FreeAt sys.heap k o ↔ k = MAX_ORDER ∧ o = 0) := by
  obtain ⟨b, lists, hserved, hmerged⟩ := h.served
  obtain ⟨b', lists', hserved', hmerged'⟩ := h'.served
  simp only [hserved.inv.freeAt_iff, hserved'.inv.freeAt_iff, hserved.liveAt_iff,
    hserved'.liveAt_iff]
  refine ⟨?_, fun k o => hmerged o k, ?_⟩
  · intro hlive k o
    rw [hserved.eq_of_live hmerged hserved' hmerged' hlive]
  · intro hlive k o
    rw [hserved.eq_single hmerged hlive]
    by_cases ho : o = 0
    · simp [ho, eq_comm]
    · simp [ho]

/-- Two blocks are freed in one order and in the other. -/
theorem heap_canonical_two_orders :
    ∃ sys sys', serveAll ⟨heapStart, []⟩ [.allocate 16, .allocate 100, .free 1, .free 0] = .ok sys ∧
      serveAll ⟨heapStart, []⟩ [.allocate 16, .allocate 100, .free 0, .free 0] = .ok sys' ∧
      ∀ k o, FreeAt sys.heap k o ↔ FreeAt sys'.heap k o := by
  obtain ⟨sys, hrun, hlive⟩ := exists_ok_of_check
    (x := serveAll ⟨heapStart, []⟩ [.allocate 16, .allocate 100, .free 1, .free 0])
    (fun sys => sys.live = []) (by decide +kernel)
  obtain ⟨sys', hrun', hlive'⟩ := exists_ok_of_check
    (x := serveAll ⟨heapStart, []⟩ [.allocate 16, .allocate 100, .free 0, .free 0])
    (fun sys => sys.live = []) (by decide +kernel)
  have hcanonical := heap_canonical (reachable_of_heapStart hrun) (reachable_of_heapStart hrun')
  refine ⟨sys, sys', hrun, hrun', hcanonical.1 fun o k => ?_⟩
  simp [LiveAt, hlive, hlive']

end X64HK.Heap
