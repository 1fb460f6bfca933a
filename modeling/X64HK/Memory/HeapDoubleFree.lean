import X64HK.Memory.HeapRuns

/-!
# Freeing a pointer twice

`Free` recognises a block that is free already by the flag in its header.  It sets
the flag in the header of the merged block alone.  A block that was absorbed by its
lower buddy keeps a header that looks live, and a second `Free` accepts it.

* `Stale` says what the header of a block that was freed looks like, for as long as
  nothing is allocated: the block is free, or it is part of a larger one and its
  header looks live.
* `FreeMove.stale` and `Evolves.stale` are the steps of that invariant.
* `double_free_caught_iff` is the result, and `merged_block_is_freed_twice` a run in
  which the second `Free` goes through.
-/

namespace X64HK.Heap

open Buddy

/-- The magic and the flag do not let `Free` pass. -/
def Rejected (s : State) (pointer : Nat) : Prop :=
  magic s (sub64 pointer HEADER_SIZE) ≠ BLOCK_MAGIC ∨ isFree s (sub64 pointer HEADER_SIZE) ≠ 0

instance (s : State) (pointer : Nat) : Decidable (Rejected s pointer) :=
  inferInstanceAs (Decidable (_ ∨ _))

/-- The block at offset `x` lies in no live block.  It is free, or its header looks
live. -/
structure Stale (region x : Nat) (s : State) (b : Layout) : Prop where
  region_eq : s.region = region
  dvd : 32 ∣ x
  outside : ∀ {o k}, b o = some ⟨k, .live⟩ → x < o ∨ o + 2 ^ k ≤ x
  header : (∃ k, b x = some ⟨k, .free⟩) ∨ ∃ k, Labelled s (region + x) k .held

variable {s s' : State} {b b' : Layout} {lists : Nat → List Nat} {region x : Nat}

/-- Blocks that get another status than live are not live. -/
theorem of_update_ne_live {o k : Nat} {st : Status} (hst : st ≠ .live) {o' k' : Nat}
    (ho' : Function.update b o (some ⟨k, st⟩) o' = some ⟨k', .live⟩) :
    b o' = some ⟨k', .live⟩ := by
  by_cases hne : o' = o
  · subst hne
    rw [Function.update_self] at ho'
    cases ho'
    exact absurd rfl hst
  · rwa [Function.update_of_ne hne] at ho'

/-- A header that looks live stays as it is until it is written. -/
theorem Stale.header_congr (h : Stale region x s b)
    (hfree : ∀ {k}, b x = some ⟨k, .free⟩ → b' x = some ⟨k, .free⟩)
    (hagree : ByteMemory.AgreeOn s.memory s'.memory (s.region + x) 8) :
    (∃ k, b' x = some ⟨k, .free⟩) ∨ ∃ k, Labelled s' (region + x) k .held := by
  rcases h.header with ⟨k, hx⟩ | ⟨k, hlabel⟩
  · exact Or.inl ⟨k, hfree hx⟩
  · exact Or.inr ⟨k, hlabel.congr (h.region_eq ▸ hagree)⟩

theorem FreeMove.stale (hinv : Inv s b lists) (hmove : FreeMove (s, b) (s', b'))
    (h : Stale region x s b) : Stale region x s' b' := by
  cases hmove with
  | @remove _ _ _ y k hy hregion hlabel hothers =>
    refine ⟨hregion.trans h.region_eq, h.dvd,
      fun ho => h.outside (of_update_ne_live (by decide) ho), ?_⟩
    by_cases hxy : x = y
    · subst hxy
      exact Or.inr ⟨k, h.region_eq ▸ hlabel⟩
    · refine h.header_congr ?_ (hothers h.dvd hxy)
      intro k' hx
      rwa [Function.update_of_ne hxy]
  | @merge _ _ o k ho hy =>
    have hhalves : ∀ {k'}, b x = some ⟨k', .free⟩ →
        x ≠ min o (o ^^^ 2 ^ k) ∧ x ≠ min o (o ^^^ 2 ^ k) + 2 ^ k := by
      intro k' hx
      have hxo : x ≠ o := by
        rintro rfl
        rw [ho] at hx
        cases hx
      have hxy : x ≠ o ^^^ 2 ^ k := by
        rintro rfl
        rw [hy] at hx
        cases hx
      rcases hinv.tiling.halves ho with ⟨-, hxor, hmin⟩ | ⟨-, hxor, hmin⟩
      · exact ⟨by rw [hmin]; exact hxo, by rw [hmin, ← hxor]; exact hxy⟩
      · exact ⟨by rw [hmin]; exact hxy, by rw [hmin, ← hxor]; exact hxo⟩
    refine ⟨h.region_eq, h.dvd, ?_, h.header_congr ?_ fun _ _ _ => rfl⟩
    · intro o' k' ho'
      rcases mergeAt_cases ho' with ⟨-, hblk⟩ | ⟨-, -, hold⟩
      · cases hblk
      · exact h.outside hold
    · intro k' hx
      rwa [mergeAt_of_ne _ _ (hhalves hx).1 (hhalves hx).2]
  | @push _ _ _ o k ho _ hregion honly _ =>
    refine ⟨hregion.trans h.region_eq, h.dvd,
      fun ho' => h.outside (of_update_ne_live (by decide) ho'), ?_⟩
    by_cases hxo : x = o
    · subst hxo
      exact Or.inl ⟨k, Function.update_self ..⟩
    · refine h.header_congr ?_ ?_
      · intro k' hx
        rwa [Function.update_of_ne hxo]
      · intro a hlo hhi
        have hdvd := hinv.dvd ho
        have hdvd' := h.dvd
        have hsize : HEADER_SIZE = 16 := rfl
        exact honly a (by omega)

/-- The block that `Free` takes from its client. -/
theorem Inv.stale_release (hinv : Inv s b lists) {o k : Nat} (ho : b o = some ⟨k, .live⟩)
    (usedBytes : Nat) :
    Stale s.region o { s with usedBytes := usedBytes } (Function.update b o (some ⟨k, .held⟩)) := by
  have hlabel := hinv.header ho (by decide)
  refine ⟨rfl, hinv.dvd ho, ?_, Or.inr ⟨k, hlabel.magic, hlabel.order, hlabel.isFree⟩⟩
  intro o' k' ho'
  have hne : o' ≠ o := by
    rintro rfl
    rw [Function.update_self] at ho'
    cases ho'
  rw [Function.update_of_ne hne] at ho'
  have hapart := hinv.tiling.apart ho ho' hne.symm
  have hpos := Nat.two_pow_pos k
  simp only at hapart
  omega

theorem Evolves.stale {request : Request} (hinv : Inv s b lists)
    (hevolves : Evolves s b request s' b') (hrequest : ∀ size, request ≠ .allocate size)
    (h : Stale region x s b) : Stale region x s' b' := by
  cases hevolves with
  | idle => exact h
  | allocate => exact absurd rfl (hrequest _)
  | @free _ o k _ _ ho hmoves =>
    refine hmoves.invariant (J := Stale region x) (fun hinv hmove => hmove.stale hinv) ?_
    refine ⟨h.region_eq, h.dvd, fun ho' => h.outside (of_update_ne_live (by decide) ho'),
      h.header_congr ?_ fun _ _ _ => rfl⟩
    intro k' hx
    have hne : x ≠ o := by
      rintro rfl
      rw [ho] at hx
      cases hx
    rwa [Function.update_of_ne hne]
  | @write _ _ byte o k a ho hlo hhi =>
    refine ⟨h.region_eq, h.dvd, h.outside, h.header_congr id fun c hclo hchi => ?_⟩
    have hout := h.outside ho
    have hdvd := hinv.dvd ho
    have hdvd' := h.dvd
    exact Function.update_of_ne (by omega) ..

/-- Whether the second `Free` is stopped depends on whether the block is free by
itself. -/
theorem Stale.rejected_iff (hinv : Inv s b lists) (h : Stale region x s b)
    (hblock : sub64 (region + x + HEADER_SIZE) HEADER_SIZE = region + x) :
    Rejected s (region + x + HEADER_SIZE) ↔ ∃ k, FreeAt s k x := by
  have hflag : ∀ {k}, FreeAt s k x → isFree s (region + x) = 1 := by
    intro k hfree
    have hlabel := hinv.header (hinv.freeAt_iff.1 hfree) (by decide)
    rw [h.region_eq] at hlabel
    exact hlabel.isFree
  rw [Rejected, hblock]
  constructor
  · intro hrejected
    rcases h.header with ⟨k, hx⟩ | ⟨k, hlabel⟩
    · exact ⟨k, hinv.freeAt_iff.2 hx⟩
    · rcases hrejected with hmagic | hfree
      · exact absurd hlabel.magic hmagic
      · exact absurd hlabel.isFree hfree
  · rintro ⟨k, hfree⟩
    exact Or.inr (by rw [hflag hfree]; decide)

/-- Without assertions a call that is stopped changes nothing. -/
theorem freeNoAssert_of_rejected {pointer : Nat} (h : Rejected s pointer) :
    freeNoAssert s pointer = .ok s := by
  unfold freeNoAssert
  split
  · rfl
  · exact if_pos h

variable {sys sys' : System}

/-- A live pointer is freed, and then other clients free and write as they like.  A
second `Free` of the pointer fails the check, and changes nothing without assertions,
exactly when the block is on a free list by itself and not part of a larger one. -/
theorem double_free_caught_iff (h : Reachable sys) {i p : Nat} (hget : sys.live[i]? = some p)
    {requests : List Request} (hnone : ∀ size, .allocate size ∉ requests)
    (hrun : serveAll sys (.free i :: requests) = .ok sys') :
    (Rejected sys'.heap p ∧ freeNoAssert sys'.heap p = .ok sys'.heap) ↔
      ∃ k, FreeAt sys'.heap k (offsetOf sys'.heap (blockOf p)) := by
  obtain ⟨b, lists, hserved, -⟩ := h.served
  obtain ⟨o, k, ho, rfl⟩ := hserved.mem_live.1 (List.mem_of_getElem? hget)
  have hstop := hserved.inv.lt ho
  have hsize := hserved.inv.size_le ho
  have hle := hserved.inv.region_le
  have hheader : HEADER_SIZE = 16 := rfl
  have hblock : sub64 (sys.heap.region + o + HEADER_SIZE) HEADER_SIZE = sys.heap.region + o := by
    rw [sub64_of_le (by omega) (by omega)]
    omega
  -- the first `Free`
  obtain ⟨sys₁, b₁, lists₁, hserve₁, h₁, -, hmoves⟩ := hserved.free_at hget ho
  have hstale₁ : Stale sys.heap.region o sys₁.heap b₁ :=
    hmoves.invariant (fun hinv hmove => hmove.stale hinv) (hserved.inv.stale_release ho _)
  -- what comes in between
  obtain ⟨sys₂, b₂, lists₂, hserve₂, h₂, hstale₂⟩ :=
    serveAll_invariant (J := Stale sys.heap.region o)
      (fun hmem hinv hevolves => hevolves.stale hinv fun size heq => hnone size (heq ▸ hmem))
      h₁ hstale₁
  rw [serveAll, List.foldlM_cons, hserve₁] at hrun
  obtain rfl := Except.ok.inj (hrun.symm.trans hserve₂)
  have hiff := hstale₂.rejected_iff h₂.inv hblock
  have hoffset : offsetOf sys'.heap (blockOf (sys.heap.region + o + HEADER_SIZE)) = o := by
    rw [blockOf_add, ← hstale₂.region_eq]
    exact h₂.inv.offsetOf (hserved.inv.lt_HEAP_SIZE ho)
  rw [hoffset, ← hiff]
  exact ⟨fun hcaught => hcaught.1, fun hcaught => ⟨hcaught, freeNoAssert_of_rejected hcaught⟩⟩

/-- The lower of two buddies is freed last, and a second `Free` of it is stopped. -/
theorem double_free_caught_iff_lower :
    ∃ sys sys', serveAll ⟨heapStart, []⟩ [.allocate 16, .allocate 16, .free 0] = .ok sys ∧
      sys.live = [heapStart.region + 16] ∧ serveAll sys [.free 0] = .ok sys' ∧
      Rejected sys'.heap (heapStart.region + 16) ∧
      ∃ k, FreeAt sys'.heap k (offsetOf sys'.heap (blockOf (heapStart.region + 16))) := by
  obtain ⟨sys, hrun, hlive⟩ := exists_ok_of_check
    (x := serveAll ⟨heapStart, []⟩ [.allocate 16, .allocate 16, .free 0])
    (fun sys => sys.live = [heapStart.region + 16]) (by decide +kernel)
  obtain ⟨sys', hall, hrejected⟩ := exists_ok_of_check
    (x := serveAll ⟨heapStart, []⟩ ([.allocate 16, .allocate 16, .free 0] ++ [.free 0]))
    (fun sys' => Rejected sys'.heap (heapStart.region + 16)) (by decide +kernel)
  have hrun' : serveAll sys [.free 0] = .ok sys' := by
    rw [serveAll_append, hrun] at hall
    exact hall
  have hiff := double_free_caught_iff (reachable_of_heapStart hrun) (i := 0)
    (by rw [hlive]; rfl) (fun _ => List.not_mem_nil) hrun'
  exact ⟨sys, sys', hrun, hlive, hrun', hrejected,
    hiff.1 ⟨hrejected, freeNoAssert_of_rejected hrejected⟩⟩

/-- The upper of two buddies is freed last.  Its header still looks live, a second `Free`
takes another 32 bytes off the counter, and the block is on a list while it is part of the
free block that the whole heap is. -/
theorem merged_block_is_freed_twice :
    ∃ sys sys' s', serveAll ⟨heapStart, []⟩ [.allocate 16, .allocate 16, .free 1] = .ok sys ∧
      Reachable sys ∧ sys.live = [heapStart.region + 48] ∧
      serveAll sys [.free 0] = .ok sys' ∧ sys'.heap.usedBytes = 0 ∧
      ¬Rejected sys'.heap (heapStart.region + 48) ∧
      freeNoAssert sys'.heap (heapStart.region + 48) = .ok s' ∧
      s'.usedBytes = 2 ^ 64 - 32 ∧ s'.freeLists MIN_ORDER = s'.region + 32 ∧
      s'.freeLists MAX_ORDER = s'.region := by
  obtain ⟨sys, hrun, hlive⟩ := exists_ok_of_check
    (x := serveAll ⟨heapStart, []⟩ [.allocate 16, .allocate 16, .free 1])
    (fun sys => sys.live = [heapStart.region + 48]) (by decide +kernel)
  obtain ⟨sys', hall, hused, hpasses⟩ := exists_ok_of_check
    (x := serveAll ⟨heapStart, []⟩ ([.allocate 16, .allocate 16, .free 1] ++ [.free 0]))
    (fun sys' => sys'.heap.usedBytes = 0 ∧ ¬Rejected sys'.heap (heapStart.region + 48))
    (by decide +kernel)
  obtain ⟨s', htwice, hfacts⟩ := exists_ok_of_check
    (x := serveAll ⟨heapStart, []⟩ ([.allocate 16, .allocate 16, .free 1] ++ [.free 0]) >>=
      fun sys' => freeNoAssert sys'.heap (heapStart.region + 48))
    (fun s' => s'.usedBytes = 2 ^ 64 - 32 ∧ s'.freeLists MIN_ORDER = s'.region + 32 ∧
      s'.freeLists MAX_ORDER = s'.region)
    (by decide +kernel)
  rw [hall] at htwice
  rw [serveAll_append, hrun] at hall
  exact ⟨sys, sys', s', hrun, reachable_of_heapStart hrun, hlive, hall, hused, hpasses, htwice,
    hfacts⟩

end X64HK.Heap
