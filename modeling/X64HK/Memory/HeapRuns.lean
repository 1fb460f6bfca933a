import X64HK.Memory.FrameLemmas
import X64HK.Memory.HeapInvariant
import X64HK.Memory.Paging

/-!
# The heap over whole runs

`Allocate` and `Free` keep the representation invariant, and so does every
byte that a client writes into the payload of a block it holds.  The proofs
compose the moves of `HeapInvariant`: one block is held by the operation
from the time it leaves a list or its client until it is handed out or put
on a list again (`Held`), and the other live blocks stay as they are
(`SameLive`).

* `splitLoop_spec` and `mergeLoop_spec` are the two loops, by induction on
  the orders that are left.
* `allocate_spec` and `free_spec` are the two operations.  `Free` of a live
  pointer raises no assertion.
* `heap_run_invariant` carries the invariant through every sequence of
  requests.
-/

namespace X64HK.Heap

open Buddy

variable {s : State} {b : Layout} {lists : Nat → List Nat} {o k : Nat}

/-! ## One block under way -/

/-- The same blocks are live. -/
def SameLive (b b' : Layout) : Prop :=
  ∀ o k, b' o = some ⟨k, .live⟩ ↔ b o = some ⟨k, .live⟩

theorem SameLive.trans {b b' b'' : Layout} (h : SameLive b b') (h' : SameLive b' b'') :
    SameLive b b'' :=
  fun o k => (h' o k).trans (h o k)

/-- The block at `o` is the only one that is held. -/
structure Held (b : Layout) (o k : Nat) : Prop where
  at_offset : b o = some ⟨k, .held⟩
  only : ∀ {o' k'}, b o' = some ⟨k', .held⟩ → o' = o

/-- No operation is under way. -/
def NoneHeld (b : Layout) : Prop := ∀ o k, b o ≠ some ⟨k, .held⟩

theorem sameLive_update {st : Status} (ho : b o = some ⟨k, st⟩) (hst : st ≠ .live)
    {st' : Status} (hst' : st' ≠ .live) : SameLive b (Function.update b o (some ⟨k, st'⟩)) := by
  intro o' k'
  by_cases hne : o' = o
  · subst hne
    rw [Function.update_self, ho]
    simp [hst, hst']
  · rw [Function.update_of_ne hne]

/-- A block that gets another status adds no free block. -/
theorem of_update_ne_free {st : Status} (hst : st ≠ .free) {o' k' : Nat}
    (ho' : Function.update b o (some ⟨k, st⟩) o' = some ⟨k', .free⟩) :
    b o' = some ⟨k', .free⟩ := by
  by_cases hne : o' = o
  · subst hne
    rw [Function.update_self] at ho'
    cases ho'
    exact absurd rfl hst
  · rwa [Function.update_of_ne hne] at ho'

theorem NoneHeld.hold (h : NoneHeld b) (o k : Nat) :
    Held (Function.update b o (some ⟨k, .held⟩)) o k where
  at_offset := Function.update_self ..
  only := by
    intro o' k' ho'
    by_contra hne
    rw [Function.update_of_ne hne] at ho'
    exact h o' k' ho'

theorem Held.settle (h : Held b o k) {st : Status} (hst : st ≠ .held) :
    NoneHeld (Function.update b o (some ⟨k, st⟩)) := by
  intro o' k' ho'
  by_cases hne : o' = o
  · subst hne
    rw [Function.update_self] at ho'
    cases ho'
    exact hst rfl
  · rw [Function.update_of_ne hne] at ho'
    exact hne (h.only ho')

/-! ## The steps of `Free` -/

/-- What the steps of `Free` do to the layout and to the headers, once the block
is taken from its client. -/
inductive FreeMove : State × Layout → State × Layout → Prop where
  /-- A free buddy is taken off its list, and its flag is cleared. -/
  | remove {s s' : State} {b : Layout} {y k : Nat} (hy : b y = some ⟨k, .free⟩)
      (hregion : s'.region = s.region) (hlabel : Labelled s' (s.region + y) k .held)
      (hothers : ∀ {x}, 32 ∣ x → x ≠ y → ByteMemory.AgreeOn s.memory s'.memory (s.region + x) 8) :
      FreeMove (s, b) (s', Function.update b y (some ⟨k, .held⟩))
  /-- Two held buddies become one block.  No header is written. -/
  | merge {s : State} {b : Layout} {o k : Nat} (ho : b o = some ⟨k, .held⟩)
      (hy : b (o ^^^ 2 ^ k) = some ⟨k, .held⟩) :
      FreeMove (s, b) (s, mergeAt b (min o (o ^^^ 2 ^ k)) k .held)
  /-- A block that has no free buddy goes on its list. -/
  | push {s s' : State} {b : Layout} {o k : Nat} (ho : b o = some ⟨k, .held⟩)
      (hbuddy : k < MAX_ORDER → b (o ^^^ 2 ^ k) ≠ some ⟨k, .free⟩)
      (hregion : s'.region = s.region) (honly : HeaderOnly s o s')
      (hlabel : Labelled s' (s.region + o) k .free) :
      FreeMove (s, b) (s', Function.update b o (some ⟨k, .free⟩))

/-- Steps of `Free` from states in which the invariant holds. -/
def FreeMoves : State × Layout → State × Layout → Prop :=
  Relation.ReflTransGen fun x y => (∃ lists, Inv x.1 x.2 lists) ∧ FreeMove x y

/-- What every step keeps holds after all of them. -/
theorem FreeMoves.invariant {J : State → Layout → Prop}
    (hstep : ∀ {s b lists s' b'}, Inv s b lists → FreeMove (s, b) (s', b') → J s b → J s' b')
    {s s' : State} {b b' : Layout} (h : FreeMoves (s, b) (s', b')) (hJ : J s b) : J s' b' := by
  suffices hall : ∀ x, FreeMoves (s, b) x → J x.1 x.2 from hall _ h
  intro x hx
  induction hx with
  | refl => exact hJ
  | tail _ hmove ih =>
    obtain ⟨⟨lists, hinv⟩, hmove⟩ := hmove
    exact hstep hinv hmove ih

/-! ## `Allocate` -/

theorem orderForLoop_bounds (bytes : Nat) :
    ∀ n order, order ≤ orderForLoop bytes n order ∧ orderForLoop bytes n order ≤ order + n
  | 0, order => ⟨Nat.le_refl _, Nat.le_refl _⟩
  | n + 1, order => by
    have ih := orderForLoop_bounds bytes n (order + 1)
    rw [orderForLoop]
    split
    · omega
    · omega

theorem orderFor_bounds (bytes : Nat) :
    MIN_ORDER ≤ orderFor bytes ∧ orderFor bytes ≤ MAX_ORDER := by
  have h := orderForLoop_bounds bytes (MAX_ORDER - MIN_ORDER) MIN_ORDER
  have hle : MIN_ORDER + (MAX_ORDER - MIN_ORDER) = MAX_ORDER := by decide
  rw [hle] at h
  exact h

/-- The search stops at a list that is not empty, or past the last one. -/
theorem findOrder_spec (s : State) :
    ∀ n order, order ≤ findOrder s n order ∧
      (findOrder s n order < order + n → s.freeLists (findOrder s n order) ≠ 0)
  | 0, order => ⟨Nat.le_refl _, fun h => absurd h (Nat.lt_irrefl _)⟩
  | n + 1, order => by
    obtain ⟨hle, hne⟩ := findOrder_spec s n (order + 1)
    rw [findOrder]
    split
    · exact ⟨by omega, fun h => hne (by omega)⟩
    · rename_i hlist
      exact ⟨Nat.le_refl _, fun _ => hlist⟩

/-- A list whose head is not null has a first block. -/
theorem Inv.exists_head (h : Inv s b lists) (hne : s.freeLists k ≠ 0) :
    ∃ o rest, lists k = o :: rest ∧ s.freeLists k = s.region + o := by
  have hlinked := h.linked k
  cases hl : lists k with
  | nil =>
    rw [hl] at hlinked
    exact absurd hlinked hne
  | cons o rest =>
    rw [hl] at hlinked
    exact ⟨o, rest, rfl, hlinked.1⟩

/-- The upper half of a held block goes to the list below, and the lower
half stays held. -/
theorem Inv.splitStep (h : Inv s b lists) (ho : Held b o (k + 1)) (hk : MIN_ORDER ≤ k) :
    ∃ b' lists', Inv (pushFree s (s.region + (o + 2 ^ k)) k) b' lists' ∧
      Keeps s b (pushFree s (s.region + (o + 2 ^ k)) k) b' ∧
      SameLive b b' ∧ Held b' o k ∧
      (Merged .free MAX_ORDER b → Merged .free MAX_ORDER b') := by
  have hpos := Nat.two_pow_pos k
  have htwo := two_pow_succ k
  have hnone : b (o + 2 ^ k) = none :=
    h.tiling.none_inside ho.at_offset (by omega) (by simp only [htwo]; omega)
  have hsplit := h.split ho.at_offset hk
  have hsame : SameLive b (splitAt b o k .held .held) :=
    fun _ _ => splitAt_eq_iff_of_ne ho.at_offset hnone (by decide)
  have hupper : splitAt b o k .held .held (o + 2 ^ k) = some ⟨k, .held⟩ :=
    splitAt_upper ..
  obtain ⟨hpush, hkeeps⟩ := hsplit.push hupper
  refine ⟨_, _, hpush, ?_, hsame.trans (sameLive_update hupper (by decide) (by decide)),
    ⟨?_, ?_⟩, ?_⟩
  · exact Keeps.trans ⟨rfl, fun ho' => (hsame _ _).2 ho', fun _ _ _ _ => rfl⟩ hkeeps
  · rw [Function.update_of_ne (by omega), splitAt_lower]
  · intro o' k' ho'
    by_cases h2 : o' = o + 2 ^ k
    · subst h2
      rw [Function.update_self] at ho'
      cases ho'
    · rw [Function.update_of_ne h2] at ho'
      by_contra h1
      rw [splitAt_of_ne _ _ _ h1 h2] at ho'
      exact h1 (ho.only ho')
  · intro hmerged
    refine Merged.free (hmerged.of_imp ?_) ?_
    · exact (splitAt_eq_iff_of_ne ho.at_offset hnone (by decide)).1
    · -- the buddy of the upper half is the lower one, which is held
      intro _ hbuddy
      have hxor : (o + 2 ^ k) ^^^ 2 ^ k = o := by
        rw [← xor_two_pow_of_dvd (h.tiling.aligned ho.at_offset), Nat.xor_xor_cancel_right]
      rw [hxor, splitAt_lower] at hbuddy
      cases hbuddy

/-- The splitting loop of `Allocate` brings a held block down to the order
that is wanted. -/
theorem splitLoop_spec {wanted : Nat} (hwanted : MIN_ORDER ≤ wanted) :
    ∀ {n : Nat} {s : State} {b : Layout} {lists : Nat → List Nat},
      Inv s b lists → Held b o (wanted + n) →
      ∃ b' lists', Inv (splitLoop (s.region + o) wanted s n) b' lists' ∧
        Keeps s b (splitLoop (s.region + o) wanted s n) b' ∧
        SameLive b b' ∧ Held b' o wanted ∧
        (Merged .free MAX_ORDER b → Merged .free MAX_ORDER b') := by
  intro n
  induction n with
  | zero =>
    intro s b lists h ho
    exact ⟨b, lists, h, ⟨rfl, fun ho' => ho', fun _ _ _ _ => rfl⟩, fun _ _ => Iff.rfl, ho, id⟩
  | succ n ih =>
    intro s b lists h ho
    have hpos := Nat.two_pow_pos (wanted + n)
    have htwo := two_pow_succ (wanted + n)
    have hstop := h.lt ho.at_offset
    simp only [← Nat.add_assoc, htwo] at hstop
    obtain ⟨b₁, lists₁, h₁, hkeeps₁, hsame₁, ho₁, hmerged₁⟩ :=
      h.splitStep (k := wanted + n) ho (by omega)
    obtain ⟨b₂, lists₂, h₂, hkeeps₂, hsame₂, ho₂, hmerged₂⟩ := ih h₁ ho₁
    rw [hkeeps₁.region] at h₂ hkeeps₂
    rw [splitLoop]
    simp only [h.offsetOf (show o < HEAP_SIZE by omega), h.blockAt (show
      o + 2 ^ (wanted + n) < HEAP_SIZE by omega)]
    exact ⟨b₂, lists₂, h₂, hkeeps₁.trans hkeeps₂, hsame₁.trans hsame₂, ho₂,
      fun hmerged => hmerged₂ (hmerged₁ hmerged)⟩

/-- `Allocate` answers null and changes nothing, or hands out a block of the
order that it computes, which was not live. -/
theorem allocate_spec (h : Inv s b lists) (hnone : NoneHeld b) (size : Nat) :
    allocate s size = (0, s) ∨
      ∃ o k s' b' lists', allocate s size = (s.region + o + HEADER_SIZE, s') ∧
        Inv s' b' lists' ∧ NoneHeld b' ∧ Keeps s b s' b' ∧
        (∀ k', b o ≠ some ⟨k', .live⟩) ∧
        (∀ o' k', b' o' = some ⟨k', .live⟩ ↔ o' = o ∧ k' = k ∨ b o' = some ⟨k', .live⟩) ∧
        k = orderFor (wrap64 (size + HEADER_SIZE)) ∧
        (Merged .free MAX_ORDER b → Merged .free MAX_ORDER b') := by
  unfold allocate
  split
  · exact Or.inl rfl
  simp only
  split
  · exact Or.inl rfl
  obtain ⟨wanted, hw⟩ : ∃ wanted, wanted = orderFor (wrap64 (size + HEADER_SIZE)) :=
    ⟨_, rfl⟩
  obtain ⟨hmin, hmax⟩ := orderFor_bounds (wrap64 (size + HEADER_SIZE))
  rw [← hw] at hmin hmax ⊢
  obtain ⟨hle, hlist⟩ := findOrder_spec s (MAX_ORDER + 1 - wanted) wanted
  obtain ⟨order, horder⟩ : ∃ order, order = findOrder s (MAX_ORDER + 1 - wanted) wanted := ⟨_, rfl⟩
  rw [← horder] at hle hlist ⊢
  split
  · exact Or.inl rfl
  -- The first block of the list that was found is held from here on.
  obtain ⟨n, rfl⟩ := Nat.exists_eq_add_of_le hle
  obtain ⟨o, rest, hl, hhead⟩ := h.exists_head (hlist (by omega))
  obtain ⟨h₁, hkeeps₁⟩ := h.pop hl
  have hfree : b o = some ⟨wanted + n, .free⟩ :=
    h.mem_lists.1 (hl ▸ List.mem_cons_self .. : o ∈ lists (wanted + n))
  have hsame₁ : SameLive b (Function.update b o (some ⟨wanted + n, .held⟩)) :=
    sameLive_update hfree (by decide) (by decide)
  obtain ⟨b₂, lists₂, h₂, hkeeps₂, hsame₂, hheld₂, hmerged₂⟩ :=
    splitLoop_spec hmin h₁ (hnone.hold o (wanted + n))
  have hsame := hsame₁.trans hsame₂
  have hregion := hkeeps₂.region
  obtain ⟨h₃, hkeeps₃⟩ := h₂.handOut hheld₂.at_offset
  have hnew : ∀ k', b o ≠ some ⟨k', .live⟩ := by
    intro k' hlive
    rw [hfree] at hlive
    cases hlive
  refine Or.inr ⟨o, wanted, _, _, _, ?_, h₃, hheld₂.settle (by decide),
    (hkeeps₁.trans hkeeps₂).trans hkeeps₃, hnew, ?_, rfl, fun hmerged => ?_⟩
  · rw [hhead, Nat.add_sub_cancel_left, hregion, wrap64_of_lt]
    · rfl
    · have hstop := h.lt hfree
      have hsize := h.size_le hfree
      have hle := h.region_le
      have hheader : HEADER_SIZE = 16 := rfl
      omega
  · intro o' k'
    by_cases hne : o' = o
    · subst hne
      rw [Function.update_self]
      simp [hnew, eq_comm]
    · rw [Function.update_of_ne hne, hsame]
      simp [hne]
  · exact (hmerged₂ (hmerged.of_imp (of_update_ne_free (by decide)))).of_imp
      (of_update_ne_free (by decide))

/-! ## `Free` -/

/-- Two held buddies become one held block of the next order. -/
theorem Inv.mergeStep (h : Inv s b lists) (ho : b o = some ⟨k, .held⟩)
    (hy : b (o ^^^ 2 ^ k) = some ⟨k, .held⟩) (hk : k < MAX_ORDER)
    (honly : ∀ {o' k'}, b o' = some ⟨k', .held⟩ → o' = o ∨ o' = o ^^^ 2 ^ k) :
    Inv s (mergeAt b (min o (o ^^^ 2 ^ k)) k .held) lists ∧
      SameLive b (mergeAt b (min o (o ^^^ 2 ^ k)) k .held) ∧
      Held (mergeAt b (min o (o ^^^ 2 ^ k)) k .held) (min o (o ^^^ 2 ^ k)) (k + 1) := by
  have hmerge := h.merge ho hy hk
  obtain ⟨x, hmin, hx, hx', honly'⟩ : ∃ x, min o (o ^^^ 2 ^ k) = x ∧
      b x = some ⟨k, .held⟩ ∧ b (x + 2 ^ k) = some ⟨k, .held⟩ ∧
      ∀ {o' k'}, b o' = some ⟨k', .held⟩ → o' = x ∨ o' = x + 2 ^ k := by
    rcases h.tiling.halves ho with ⟨-, hxor, hmin⟩ | ⟨-, hxor, hmin⟩
    · exact ⟨o, hmin, ho, hxor ▸ hy, fun ho' => by rw [← hxor]; exact honly ho'⟩
    · exact ⟨o ^^^ 2 ^ k, hmin, hy, hxor ▸ ho,
        fun ho' => by rw [← hxor]; exact (honly ho').symm⟩
  have hpos := Nat.two_pow_pos k
  rw [hmin] at hmerge ⊢
  refine ⟨hmerge, ?_, mergeAt_lower .., ?_⟩
  · exact fun _ _ => mergeAt_eq_iff_of_ne hx hx' (by decide)
  · intro o' k' ho'
    rcases mergeAt_cases ho' with ⟨heq, -⟩ | ⟨h1, h2, hold⟩
    · exact heq
    · rcases honly' hold with heq | heq
      · exact heq
      · exact absurd heq h2

/-- The offset of the buddy is the start of another block, so what stands
there is a header and not the data of a client. -/
theorem Inv.buddy (h : Inv s b lists) (ho : Held b o k) (hk : k < MAX_ORDER) :
    ∃ k' st, b (o ^^^ 2 ^ k) = some ⟨k', st⟩ ∧ o ^^^ 2 ^ k ≠ o ∧
      Labelled s (s.region + (o ^^^ 2 ^ k)) k' st := by
  obtain ⟨⟨k', st⟩, hy, -⟩ := h.tiling.buddy_start ho.at_offset hk
  have hpos := Nat.two_pow_pos k
  have hne : o ^^^ 2 ^ k ≠ o := by
    rcases h.tiling.halves ho.at_offset with ⟨-, hxor, -⟩ | ⟨-, hxor, -⟩ <;> omega
  refine ⟨k', st, hy, hne, h.header hy ?_⟩
  rintro rfl
  exact hne (ho.only hy)

/-- The merging loop of `Free` finds every buddy it decides to take on the
list of its order, and ends with one held block. -/
theorem mergeLoop_spec :
    ∀ {n : Nat} {s : State} {b : Layout} {lists : Nat → List Nat} {o k : Nat},
      k + n = MAX_ORDER → Inv s b lists → Held b o k →
      ∃ o' k' s' b' lists', mergeLoop n s o k = .ok (o', k', s') ∧ Inv s' b' lists' ∧
        Keeps s b s' b' ∧ SameLive b b' ∧ Held b' o' k' ∧ FreeMoves (s, b) (s', b') ∧
        (k' < MAX_ORDER → b' (o' ^^^ 2 ^ k') ≠ some ⟨k', .free⟩) := by
  intro n
  induction n with
  | zero =>
    intro s b lists o k hk h ho
    exact ⟨o, k, s, b, lists, rfl, h, ⟨rfl, fun ho' => ho', fun _ _ _ _ => rfl⟩,
      fun _ _ => Iff.rfl, ho, .refl, fun hlt => absurd hk (Nat.ne_of_lt hlt)⟩
  | succ n ih =>
    intro s b lists o k hn h ho
    have hk : k < MAX_ORDER := by omega
    obtain ⟨k', st, hy, hne, hlabel⟩ := h.buddy ho hk
    rw [mergeLoop]
    simp only [h.blockAt (h.lt_HEAP_SIZE hy)]
    split
    · rename_i hlooks
      refine ⟨o, k, s, b, lists, rfl, h, ⟨rfl, fun ho' => ho', fun _ _ _ _ => rfl⟩,
        fun _ _ => Iff.rfl, ho, .refl, fun _ hfree => ?_⟩
      -- a free buddy of the same order looks like one
      have hbuddy := h.header hfree (by decide)
      simp [hbuddy.magic, hbuddy.isFree, hbuddy.order] at hlooks
    · rename_i hlooks
      simp only [not_or, not_not] at hlooks
      obtain ⟨-, hfree, horder⟩ := hlooks
      rw [hlabel.order] at horder
      subst horder
      obtain rfl : st = .free := by
        rw [hlabel.isFree] at hfree
        by_contra hst
        exact hfree (if_neg hst)
      obtain ⟨s₁, lists₁, hremove, h₁, hkeeps₁, hlabel₁, hothers₁⟩ := h.remove hy
      have hsame₁ := sameLive_update hy (by decide) (show Status.held ≠ .live by decide)
      have ho₁ : Function.update b (o ^^^ 2 ^ k') (some ⟨k', .held⟩) o = some ⟨k', .held⟩ := by
        rw [Function.update_of_ne hne.symm]
        exact ho.at_offset
      obtain ⟨h₂, hsame₂, ho₂⟩ := h₁.mergeStep ho₁ (Function.update_self ..) hk (by
          intro o' k'' ho'
          by_cases heq : o' = o ^^^ 2 ^ k'
          · exact Or.inr heq
          · rw [Function.update_of_ne heq] at ho'
            exact Or.inl (ho.only ho'))
      have hmoves : FreeMoves (s, b) (s₁, mergeAt _ (min o (o ^^^ 2 ^ k')) k' .held) :=
        (Relation.ReflTransGen.single
          ⟨⟨lists, h⟩, .remove hy hkeeps₁.region hlabel₁ hothers₁⟩).tail
          ⟨⟨lists₁, h₁⟩, .merge ho₁ (Function.update_self ..)⟩
      obtain ⟨o₃, k₃, s₃, b₃, lists₃, hloop, h₃, hkeeps₃, hsame₃, ho₃, hmoves₃, hbuddy₃⟩ :=
        ih (by omega) h₂ ho₂
      refine ⟨o₃, k₃, s₃, b₃, lists₃, ?_, h₃, (hkeeps₁.trans
        ⟨rfl, fun ho' => (hsame₂ _ _).2 ho', fun _ _ _ _ => rfl⟩).trans hkeeps₃,
        (hsame₁.trans hsame₂).trans hsame₃, ho₃, hmoves.trans hmoves₃, hbuddy₃⟩
      rw [hremove]
      exact hloop

/-- `Free` of a live pointer raises no assertion and ends the life of its
block alone. -/
theorem free_spec (h : Inv s b lists) (hnone : NoneHeld b) (ho : b o = some ⟨k, .live⟩) :
    ∃ s' b' lists', free s (s.region + o + HEADER_SIZE) = .ok s' ∧ Inv s' b' lists' ∧
      NoneHeld b' ∧ Keeps s (Function.update b o (some ⟨k, .held⟩)) s' b' ∧
      SameLive (Function.update b o (some ⟨k, .held⟩)) b' ∧
      FreeMoves ({ s with usedBytes := sub64 s.usedBytes (2 ^ k) },
        Function.update b o (some ⟨k, .held⟩)) (s', b') := by
  have hlabel := h.header ho (by decide)
  have hstop := h.lt_HEAP_SIZE ho
  have hsize := h.size_le ho
  have hend := h.lt ho
  have hle := h.region_le
  have hheader : HEADER_SIZE = 16 := rfl
  have hblock : sub64 (s.region + o + HEADER_SIZE) HEADER_SIZE = s.region + o := by
    rw [sub64_of_le (by omega) (by omega)]
    omega
  have hflag : isFree s (s.region + o) = 0 := hlabel.isFree.trans (if_neg (by decide))
  obtain ⟨o', k', s₁, b₁, lists₁, hloop, h₁, hkeeps₁, hsame₁, ho₁, hmoves₁, hbuddy₁⟩ :=
    mergeLoop_spec (n := MAX_ORDER - k)
      (by have hmax := h.tiling.le_top ho; simp only at hmax; omega)
      (h.release ho) (hnone.hold o k)
  obtain ⟨h₂, hkeeps₂⟩ := h₁.push ho₁.at_offset
  have hpush : FreeMove (s₁, b₁) (pushFree s₁ (s₁.region + o') k',
      Function.update b₁ o' (some ⟨k', .free⟩)) :=
    .push ho₁.at_offset hbuddy₁ rfl (fun a ha => writeHeader_of_outside s₁ ha)
      (h₂.header (Function.update_self ..) (by decide))
  refine ⟨_, _, _, ?_, h₂, ho₁.settle (by decide),
    ⟨(hkeeps₁.trans hkeeps₂).region, (hkeeps₁.trans hkeeps₂).live, (hkeeps₁.trans hkeeps₂).payload⟩,
    hsame₁.trans (sameLive_update ho₁.at_offset (by decide) (by decide)),
    hmoves₁.tail ⟨⟨lists₁, h₁⟩, hpush⟩⟩
  rw [free, if_neg (by omega)]
  simp only [hblock, hlabel.magic, hflag, hlabel.order]
  rw [(h.release ho).offsetOf hstop, hloop, ← h₁.blockAt (h₁.lt_HEAP_SIZE ho₁.at_offset)]
  rfl

/-- `Free` leaves no two free buddies behind. -/
theorem FreeMove.merged {s s' : State} {b b' : Layout} (h : FreeMove (s, b) (s', b'))
    (hmerged : Merged .free MAX_ORDER b) : Merged .free MAX_ORDER b' := by
  cases h with
  | remove => exact hmerged.of_imp (of_update_ne_free (by decide))
  | merge =>
    refine hmerged.of_imp fun ho' => ?_
    rcases mergeAt_cases ho' with ⟨-, hblk⟩ | ⟨-, -, hold⟩
    · cases hblk
    · exact hold
  | push _ hbuddy => exact hmerged.free hbuddy

/-! ## Clients -/

/-- The heap and the pointers that clients hold. -/
structure System where
  heap : State
  live : List Nat

/-- The header in front of a pointer that was handed out. -/
def blockOf (pointer : Nat) : Nat := pointer - HEADER_SIZE

/-- What clients do. -/
inductive Request where
  | allocate (size : Nat)
  /-- Free the live pointer at this position. -/
  | free (index : Nat)
  /-- The holder of the live pointer at this position writes a byte into the
  payload of its block, at an offset from the block's start. -/
  | write (index offset : Nat) (byte : BitVec 8)
  deriving DecidableEq, Repr

def serve (sys : System) : Request → Outcome System
  | .allocate size =>
    let result := allocate sys.heap size
    .ok ⟨result.2, if result.1 = 0 then sys.live else result.1 :: sys.live⟩
  | .free index =>
    match sys.live[index]? with
    | none => .ok sys
    | some pointer => do
      let heap ← free sys.heap pointer
      return ⟨heap, sys.live.eraseIdx index⟩
  | .write index offset byte =>
    match sys.live[index]? with
    | none => .ok sys
    | some pointer =>
      let block := blockOf pointer
      if HEADER_SIZE ≤ offset ∧ offset < 2 ^ order sys.heap block then
        .ok { sys with heap := writeByte sys.heap (block + offset) byte }
      else .ok sys

def serveAll (sys : System) (requests : List Request) : Outcome System :=
  requests.foldlM serve sys

/-- The request comes from the holder of the pointer. -/
def Request.ComesFrom (sys : System) (pointer : Nat) : Request → Prop
  | .allocate _ => False
  | .free index => sys.live[index]? = some pointer
  | .write index _ _ => sys.live[index]? = some pointer

/-- Every block whose holder did not ask stays live, with its order and the
bytes of its payload. -/
def Undisturbed (sys : System) (request : Request) (sys' : System) : Prop :=
  ∀ pointer ∈ sys.live, ¬request.ComesFrom sys pointer →
    pointer ∈ sys'.live ∧
      order sys'.heap (blockOf pointer) = order sys.heap (blockOf pointer) ∧
      ∀ i, HEADER_SIZE ≤ i → i < 2 ^ order sys.heap (blockOf pointer) →
        sys'.heap.memory (blockOf pointer + i) = sys.heap.memory (blockOf pointer + i)

/-- What a request does to the layout and to the headers. -/
inductive Evolves (s : State) (b : Layout) : Request → State → Layout → Prop where
  | idle (request : Request) : Evolves s b request s b
  | allocate {size : Nat} {s' : State} {b' : Layout}
      (hmerged : Merged .free MAX_ORDER b → Merged .free MAX_ORDER b') :
      Evolves s b (.allocate size) s' b'
  | free {index o k : Nat} {s' : State} {b' : Layout} (ho : b o = some ⟨k, .live⟩)
      (hmoves : FreeMoves ({ s with usedBytes := sub64 s.usedBytes (2 ^ k) },
        Function.update b o (some ⟨k, .held⟩)) (s', b')) :
      Evolves s b (.free index) s' b'
  | write {index offset : Nat} {byte : BitVec 8} {o k a : Nat} (ho : b o = some ⟨k, .live⟩)
      (hlo : s.region + o + HEADER_SIZE ≤ a) (hhi : a < s.region + o + 2 ^ k) :
      Evolves s b (.write index offset byte) (writeByte s a byte) b

theorem Evolves.merged {s s' : State} {b b' : Layout} {request : Request}
    (h : Evolves s b request s' b') (hmerged : Merged .free MAX_ORDER b) :
    Merged .free MAX_ORDER b' := by
  cases h with
  | idle => exact hmerged
  | allocate himp => exact himp hmerged
  | free _ hmoves =>
    exact hmoves.invariant (J := fun _ b => Merged .free MAX_ORDER b)
      (fun _ hmove => hmove.merged) (hmerged.of_imp (of_update_ne_free (by decide)))
  | write => exact hmerged

/-- The heap between two requests. -/
structure RunInvariant (sys : System) (b : Layout) (lists : Nat → List Nat) : Prop where
  /-- The blocks tile the region. -/
  tiling : Tiling MIN_ORDER MAX_ORDER b
  /-- Every block is free or live, and its header says so. -/
  header : ∀ {o k st}, b o = some ⟨k, st⟩ →
    st ≠ .held ∧ Labelled sys.heap (sys.heap.region + o) k st
  /-- The next pointers lead from the head of each list through its blocks
  to null. -/
  linked : ∀ k, Segment sys.heap (sys.heap.freeLists k) (lists k) 0
  /-- List `k` holds exactly the free blocks of order `k`. -/
  mem_lists : ∀ {k o}, o ∈ lists k ↔ b o = some ⟨k, .free⟩
  nodup : ∀ k, (lists k).Nodup
  used : sys.heap.usedBytes = weight liveBytes HEAP_SIZE b
  /-- The clients hold the pointers of exactly the live blocks. -/
  mem_live : ∀ {p}, p ∈ sys.live ↔
    ∃ o k, b o = some ⟨k, .live⟩ ∧ p = sys.heap.region + o + HEADER_SIZE
  nodup_live : sys.live.Nodup
  aligned : ∀ p ∈ sys.live, 16 ∣ p

/-- The representation invariant and the pointers that clients hold. -/
structure Served (sys : System) (b : Layout) (lists : Nat → List Nat) : Prop where
  inv : Inv sys.heap b lists
  noneHeld : NoneHeld b
  mem_live : ∀ {p}, p ∈ sys.live ↔
    ∃ o k, b o = some ⟨k, .live⟩ ∧ p = sys.heap.region + o + HEADER_SIZE
  nodup_live : sys.live.Nodup

theorem blockOf_add (p : Nat) : blockOf (p + HEADER_SIZE) = p :=
  Nat.add_sub_cancel ..

variable {sys : System}

theorem Served.runInvariant (h : Served sys b lists) : RunInvariant sys b lists where
  tiling := h.inv.tiling
  header := by
    intro o k st ho
    have hst : st ≠ .held := by
      rintro rfl
      exact h.noneHeld o k ho
    exact ⟨hst, h.inv.header ho hst⟩
  linked := h.inv.linked
  mem_lists := h.inv.mem_lists
  nodup := h.inv.nodup
  used := h.inv.used
  mem_live := h.mem_live
  nodup_live := h.nodup_live
  aligned := by
    intro p hp
    obtain ⟨o, k, ho, rfl⟩ := h.mem_live.1 hp
    have hmin : 2 ^ MIN_ORDER ∣ o :=
      (Nat.pow_dvd_pow 2 (h.inv.tiling.low_le ho)).trans (h.inv.tiling.aligned ho)
    exact Nat.dvd_add (Nat.dvd_add h.inv.region_aligned ((by decide : 16 ∣ 2 ^ MIN_ORDER).trans
      hmin)) (Nat.dvd_refl _)

/-- What the frame condition of the moves means for the clients. -/
theorem Served.undisturbed (h : Served sys b lists) {request : Request} {sys' : System}
    {b' : Layout} {lists' : Nat → List Nat} (h' : Served sys' b' lists') {b₁ : Layout}
    (hkeeps : Keeps sys.heap b₁ sys'.heap b')
    (hlive : ∀ {o k}, b o = some ⟨k, .live⟩ →
      ¬request.ComesFrom sys (sys.heap.region + o + HEADER_SIZE) →
      b₁ o = some ⟨k, .live⟩) : Undisturbed sys request sys' := by
  intro p hp hfrom
  obtain ⟨o, k, ho, rfl⟩ := h.mem_live.1 hp
  have ho₁ := hlive ho hfrom
  have ho' := hkeeps.live ho₁
  have hregion := hkeeps.region
  have horder := (h.inv.header ho (by decide)).order
  have horder' := (h'.inv.header ho' (by decide)).order
  rw [hregion] at horder'
  rw [blockOf_add, horder, horder']
  refine ⟨h'.mem_live.2 ⟨o, k, ho', by rw [hregion]⟩, rfl, fun i hlo hhi => ?_⟩
  exact hkeeps.payload ho₁ _ (by omega) (by omega)

theorem Served.allocate (h : Served sys b lists) (size : Nat) :
    ∃ sys' b' lists', serve sys (.allocate size) = .ok sys' ∧ Served sys' b' lists' ∧
      Undisturbed sys (.allocate size) sys' ∧
      Evolves sys.heap b (.allocate size) sys'.heap b' := by
  rcases allocate_spec h.inv h.noneHeld size with
    hnull | ⟨o, k, s', b', lists', heq, hinv, hnone, hkeeps, hnew, hlive, -, hmerged⟩
  · refine ⟨sys, b, lists, ?_, h, fun p hp _ => ⟨hp, rfl, fun _ _ _ => rfl⟩, .idle _⟩
    simp [serve, hnull]
  · have hne : sys.heap.region + o + HEADER_SIZE ≠ 0 :=
      Nat.ne_of_gt (Nat.lt_of_lt_of_le h.inv.region_pos (by omega))
    have hregion := hkeeps.region
    have h' : Served ⟨s', (sys.heap.region + o + HEADER_SIZE) :: sys.live⟩ b' lists' := by
      refine ⟨hinv, hnone, ?_, ?_⟩
      · intro p
        simp only [List.mem_cons, h.mem_live, hlive, hregion]
        constructor
        · rintro (rfl | ⟨o', k', ho', rfl⟩)
          · exact ⟨o, k, Or.inl ⟨rfl, rfl⟩, rfl⟩
          · exact ⟨o', k', Or.inr ho', rfl⟩
        · rintro ⟨o', k', ⟨rfl, rfl⟩ | ho', rfl⟩
          · exact Or.inl rfl
          · exact Or.inr ⟨o', k', ho', rfl⟩
      · refine List.nodup_cons.2 ⟨fun hmem => ?_, h.nodup_live⟩
        obtain ⟨o', k', ho', heq'⟩ := h.mem_live.1 hmem
        obtain rfl : o = o' := by omega
        exact hnew k' ho'
    exact ⟨_, b', lists', by simp only [Heap.serve, heq, if_neg hne], h',
      h.undisturbed h' hkeeps fun ho _ => ho, .allocate hmerged⟩

/-- The client of the block at `o` frees it. -/
theorem Served.free_at (h : Served sys b lists) {index : Nat}
    (hget : sys.live[index]? = some (sys.heap.region + o + HEADER_SIZE))
    (ho : b o = some ⟨k, .live⟩) :
    ∃ sys' b' lists', serve sys (.free index) = .ok sys' ∧ Served sys' b' lists' ∧
      Undisturbed sys (.free index) sys' ∧
      FreeMoves ({ sys.heap with usedBytes := sub64 sys.heap.usedBytes (2 ^ k) },
        Function.update b o (some ⟨k, .held⟩)) (sys'.heap, b') := by
  obtain ⟨hindex, hp⟩ := List.getElem?_eq_some_iff.1 hget
  obtain ⟨s', b', lists', hfree, hinv, hnone, hkeeps, hsame, hmoves⟩ :=
    free_spec h.inv h.noneHeld ho
  have hregion := hkeeps.region
  have hmem : ∀ {q}, q ∈ sys.live.eraseIdx index ↔
      q ≠ sys.heap.region + o + HEADER_SIZE ∧ q ∈ sys.live := by
    intro q
    rw [← h.nodup_live.erase_getElem index hindex, hp, h.nodup_live.mem_erase_iff]
  have h' : Served ⟨s', sys.live.eraseIdx index⟩ b' lists' := by
    refine ⟨hinv, hnone, ?_, h.nodup_live.sublist (List.eraseIdx_sublist ..)⟩
    intro q
    rw [hmem, h.mem_live]
    constructor
    · rintro ⟨hne, o', k', ho', rfl⟩
      refine ⟨o', k', (hsame o' k').2 ?_, by rw [hregion]⟩
      rw [Function.update_of_ne (fun heq => hne (by rw [heq])), ho']
    · rintro ⟨o', k', ho', rfl⟩
      have hlive := (hsame o' k').1 ho'
      have hne : o' ≠ o := by
        rintro rfl
        rw [Function.update_self] at hlive
        cases hlive
      rw [Function.update_of_ne hne] at hlive
      simp only [hregion]
      exact ⟨by omega, o', k', hlive, rfl⟩
  refine ⟨_, b', lists', by simp only [serve, hget, hfree]; rfl, h',
    h.undisturbed h' hkeeps ?_, hmoves⟩
  intro o' k' ho' hfrom
  rw [Function.update_of_ne (fun heq => hfrom (by rw [heq]; exact hget))]
  exact ho'

theorem Served.free (h : Served sys b lists) (index : Nat) :
    ∃ sys' b' lists', serve sys (.free index) = .ok sys' ∧ Served sys' b' lists' ∧
      Undisturbed sys (.free index) sys' ∧ Evolves sys.heap b (.free index) sys'.heap b' := by
  cases hget : sys.live[index]? with
  | none =>
    exact ⟨sys, b, lists, by simp [serve, hget], h,
      fun p hp _ => ⟨hp, rfl, fun _ _ _ => rfl⟩, .idle _⟩
  | some p =>
    obtain ⟨o, k, ho, rfl⟩ := h.mem_live.1 (List.mem_of_getElem? hget)
    obtain ⟨sys', b', lists', hserve, h', hundisturbed, hmoves⟩ := h.free_at hget ho
    exact ⟨sys', b', lists', hserve, h', hundisturbed, .free ho hmoves⟩

theorem Served.write (h : Served sys b lists) (index offset : Nat) (byte : BitVec 8) :
    ∃ sys' b' lists', serve sys (.write index offset byte) = .ok sys' ∧
      Served sys' b' lists' ∧ Undisturbed sys (.write index offset byte) sys' ∧
      Evolves sys.heap b (.write index offset byte) sys'.heap b' := by
  have hidle : Undisturbed sys (.write index offset byte) sys :=
    fun p hp _ => ⟨hp, rfl, fun _ _ _ => rfl⟩
  cases hget : sys.live[index]? with
  | none => exact ⟨sys, b, lists, by simp [serve, hget], h, hidle, .idle _⟩
  | some p =>
    obtain ⟨hindex, hp⟩ := List.getElem?_eq_some_iff.1 hget
    obtain ⟨o, k, ho, rfl⟩ := h.mem_live.1 (hp ▸ List.getElem_mem hindex : p ∈ sys.live)
    have horder := (h.inv.header ho (by decide)).order
    by_cases hin : HEADER_SIZE ≤ offset ∧ offset < 2 ^ k
    · have hinv := h.inv.write ho (a := sys.heap.region + o + offset) (by omega) (by omega) byte
      have h' : Served { sys with
          heap := writeByte sys.heap (sys.heap.region + o + offset) byte } b lists :=
        ⟨hinv, h.noneHeld, h.mem_live, h.nodup_live⟩
      refine ⟨_, b, lists, ?_, h', @Served.undisturbed _ _ _ h _ _ _ _ h'
        (fun o' => if o' = o then none else b o') ⟨rfl, ?_, ?_⟩ ?_,
        .write ho (by omega) (by omega)⟩
      · simp only [serve, hget, blockOf_add, horder, if_pos hin]
      · intro o' k' ho'
        split at ho'
        · cases ho'
        · exact ho'
      · -- Payloads of different blocks share no byte.
        intro o' k' ho' a hlo hhi
        split at ho'
        · cases ho'
        · rename_i hne
          have hapart := h.inv.tiling.apart ho' ho hne
          simp only at hapart
          exact Function.update_of_ne (by omega) ..
      · intro o' k' ho' hfrom
        rw [if_neg (fun heq => hfrom (by rw [heq]; exact hget))]
        exact ho'
    · exact ⟨sys, b, lists, by simp only [serve, hget, blockOf_add, horder, if_neg hin],
        h, hidle, .idle _⟩

/-- No request raises an assertion, every request keeps the invariant, and
none disturbs the blocks of others. -/
theorem Served.serve (h : Served sys b lists) (request : Request) :
    ∃ sys' b' lists', Heap.serve sys request = .ok sys' ∧ Served sys' b' lists' ∧
      Undisturbed sys request sys' ∧ Evolves sys.heap b request sys'.heap b' := by
  cases request with
  | allocate size => exact h.allocate size
  | free index => exact h.free index
  | write index offset byte => exact h.write index offset byte

/-- What every request of a run keeps holds after the run. -/
theorem serveAll_invariant {J : State → Layout → Prop} {requests : List Request}
    (hstep : ∀ {s b lists request s' b'}, request ∈ requests → Inv s b lists →
      Evolves s b request s' b' → J s b → J s' b') :
    ∀ {sys : System} {b : Layout} {lists : Nat → List Nat}, Served sys b lists → J sys.heap b →
      ∃ sys' b' lists', serveAll sys requests = .ok sys' ∧ Served sys' b' lists' ∧
        J sys'.heap b' := by
  induction requests with
  | nil => exact fun {sys b lists} h hJ => ⟨sys, b, lists, rfl, h, hJ⟩
  | cons request requests ih =>
    intro sys b lists h hJ
    obtain ⟨sys₁, b₁, lists₁, hserve, h₁, -, hevolves⟩ := h.serve request
    have hJ₁ := hstep (List.mem_cons_self ..) h.inv hevolves hJ
    obtain ⟨sys₂, b₂, lists₂, hall, h₂, hJ₂⟩ :=
      ih (fun hmem => hstep (List.mem_cons_of_mem _ hmem)) h₁ hJ₁
    refine ⟨sys₂, b₂, lists₂, ?_, h₂, hJ₂⟩
    rw [serveAll, List.foldlM_cons, hserve]
    exact hall

/-! ## Whole runs -/

/-- The one free block that `Initialize` leaves. -/
theorem initializeAt_served (memory : ByteMemory) {region : Nat} (hpos : 0 < region)
    (haligned : HEADER_SIZE ∣ region) (hle : region + HEAP_SIZE ≤ 2 ^ 64) :
    ∃ b lists, Served ⟨initializeAt memory region, []⟩ b lists ∧ Merged .free MAX_ORDER b := by
  have hinitial := Inv.initial memory hpos haligned hle
  obtain ⟨hinv, -⟩ := hinitial.push (if_pos rfl)
  have hheld : Held (fun o => if o = 0 then some ⟨MAX_ORDER, .held⟩ else none) 0 MAX_ORDER := by
    refine ⟨if_pos rfl, ?_⟩
    intro o k ho
    by_contra hne
    rw [if_neg hne] at ho
    cases ho
  rw [← hinitial.blockAt (by decide)] at hinv
  refine ⟨_, _, ⟨hinv, hheld.settle (by decide), ?_, List.nodup_nil⟩, Merged.free ?_
    fun hlt => absurd hlt (Nat.lt_irrefl _)⟩
  · intro p
    refine ⟨nofun, ?_⟩
    rintro ⟨o, k, ho, -⟩
    by_cases hne : o = 0
    · rw [hne, Function.update_self] at ho
      cases ho
    · rw [Function.update_of_ne hne, if_neg hne] at ho
      cases ho
  · intro o k _ ho
    dsimp only at ho
    split at ho <;> cases ho

/-- `Initialize` puts the region where the direct map shows a run of
frames. -/
theorem initializeState_spec {memory : ByteMemory} {frames frames' : Frame.State} {s : State}
    (hinit : initializeState memory frames = .ok (s, frames'))
    (hdirect : frames.reachableFrames * Frame.SIZE ≤ 2 ^ 47) :
    ∃ region, 0 < region ∧ HEADER_SIZE ∣ region ∧ region + HEAP_SIZE ≤ 2 ^ 64 ∧
      s = initializeAt memory region := by
  unfold initializeState at hinit
  rcases Frame.allocate_cases frames (HEAP_SIZE / Frame.SIZE) with
    hnone | ⟨first, -, hend, -, heq⟩
  · rw [hnone] at hinit
    exact absurd hinit nofun
  · rw [heq] at hinit
    dsimp only at hinit
    by_cases hregion :
        (if first * Frame.SIZE ≠ 0 then Paging.toVirtual (first * Frame.SIZE) else 0) = 0
    · rw [if_pos hregion] at hinit
      cases hinit
    · rw [if_neg hregion] at hinit
      obtain ⟨rfl, -⟩ := Prod.mk.inj (Except.ok.inj hinit)
      have hne : first * Frame.SIZE ≠ 0 := fun h0 => hregion (if_neg (not_not.2 h0))
      have hbound : first * Frame.SIZE + HEAP_SIZE ≤ 2 ^ 47 := by
        refine Nat.le_trans ?_ hdirect
        have hwhole : HEAP_SIZE / Frame.SIZE * Frame.SIZE = HEAP_SIZE := by decide
        calc first * Frame.SIZE + HEAP_SIZE
            = (first + HEAP_SIZE / Frame.SIZE) * Frame.SIZE := by
              rw [Nat.add_mul, hwhole]
          _ ≤ frames.reachableFrames * Frame.SIZE := Nat.mul_le_mul_right _ hend
      have hbase : Config.DIRECT_MAP_BASE = 2 ^ 64 - 2 ^ 47 := by decide
      have hvirtual : Paging.toVirtual (first * Frame.SIZE) =
          first * Frame.SIZE + Config.DIRECT_MAP_BASE :=
        wrap64_of_lt (by have := Nat.two_pow_pos MAX_ORDER; rw [HEAP_SIZE] at hbound; omega)
      rw [if_pos hne, hvirtual]
      refine ⟨_, by omega, ?_, by omega, rfl⟩
      exact Nat.dvd_add (Dvd.dvd.mul_left (by decide) first) (by decide)

/-- From `Initialize` on, every sequence of requests raises no assertion and
leaves a heap that satisfies the invariant, and whatever is asked next
disturbs no block but the one of the client that asks.  The frames have to
lie below 128 TiB, where the direct map ends. -/
theorem heap_run_invariant {memory : ByteMemory} {frames frames' : Frame.State} {s₀ : State}
    (hinit : initializeState memory frames = .ok (s₀, frames'))
    (hdirect : frames.reachableFrames * Frame.SIZE ≤ 2 ^ 47) (requests : List Request) :
    ∃ sys b lists, serveAll ⟨s₀, []⟩ requests = .ok sys ∧ RunInvariant sys b lists ∧
      ∀ request, ∃ sys', serve sys request = .ok sys' ∧ Undisturbed sys request sys' := by
  obtain ⟨region, hpos, haligned, hle, rfl⟩ := initializeState_spec hinit hdirect
  obtain ⟨b₀, lists₀, h₀, -⟩ := initializeAt_served memory hpos haligned hle
  obtain ⟨sys, b, lists, hall, h, -⟩ :=
    serveAll_invariant (J := fun _ _ => True) (fun _ _ _ _ => trivial) h₀ trivial
  refine ⟨sys, b, lists, hall, h.runInvariant, fun request => ?_⟩
  obtain ⟨sys', -, -, hserve, -, hundisturbed, -⟩ := h.serve request
  exact ⟨sys', hserve, hundisturbed⟩

/-- The heap and its clients after some requests, from `Initialize` on. -/
def Reachable (sys : System) : Prop :=
  ∃ memory frames s₀ frames' requests, initializeState memory frames = .ok (s₀, frames') ∧
    frames.reachableFrames * Frame.SIZE ≤ 2 ^ 47 ∧ serveAll ⟨s₀, []⟩ requests = .ok sys

/-- A layout of every reachable heap satisfies the invariant, and no two
buddies are both free in it. -/
theorem Reachable.served (h : Reachable sys) :
    ∃ b lists, Served sys b lists ∧ Merged .free MAX_ORDER b := by
  obtain ⟨memory, frames, s₀, frames', requests, hinit, hdirect, hrun⟩ := h
  obtain ⟨region, hpos, haligned, hle, rfl⟩ := initializeState_spec hinit hdirect
  obtain ⟨b₀, lists₀, h₀, hmerged₀⟩ := initializeAt_served memory hpos haligned hle
  obtain ⟨sys', b, lists, hrun', hserved, hmerged⟩ :=
    serveAll_invariant (J := fun _ b => Merged .free MAX_ORDER b)
      (fun _ _ hevolves hmerged => hevolves.merged hmerged) h₀ hmerged₀
  obtain rfl := Except.ok.inj (hrun.symm.trans hrun')
  exact ⟨b, lists, hserved, hmerged⟩

theorem serveAll_append (sys : System) (requests requests' : List Request) :
    serveAll sys (requests ++ requests') = serveAll sys requests >>= (serveAll · requests') :=
  List.foldlM_append

theorem serveAll_singleton (sys : System) (request : Request) :
    serveAll sys [request] = serve sys request := by
  rw [serveAll, List.foldlM_cons]
  exact bind_pure _

theorem Reachable.serveAll {sys' : System} {requests : List Request} (h : Reachable sys)
    (hrun : Heap.serveAll sys requests = .ok sys') : Reachable sys' := by
  obtain ⟨memory, frames, s₀, frames', requests₀, hinit, hdirect, hrun₀⟩ := h
  refine ⟨memory, frames, s₀, frames', requests₀ ++ requests, hinit, hdirect, ?_⟩
  rw [serveAll_append, hrun₀]
  exact hrun

/-- A machine with 64 taken frames and room for the heap behind them. -/
def heapFrames : Frame.State where
  taken := Frame.ALL_TAKEN :: List.replicate 64 0
  frameCount := 4160
  reachableFrames := 4160
  totalFrames := 4160
  freeFrames := 4096
  nextIndex := 0

/-- The heap that `Initialize` sets up there. -/
def heapStart : State := initializeAt (fun _ => 0) 0xFFFF800000040000

theorem initializeState_heapFrames :
    ∃ frames', initializeState (fun _ => 0) heapFrames = .ok (heapStart, frames') := by
  have hfirst : Frame.findFirst heapFrames (HEAP_SIZE / Frame.SIZE) = some 64 := by
    decide +kernel
  simp only [initializeState, Frame.allocate, hfirst]
  exact ⟨_, rfl⟩

theorem reachable_of_heapStart {requests : List Request}
    (h : serveAll ⟨heapStart, []⟩ requests = .ok sys) : Reachable sys := by
  obtain ⟨frames', hinit⟩ := initializeState_heapFrames
  exact ⟨_, _, _, frames', requests, hinit, by decide, h⟩

/-- Two blocks of different orders, a byte that looks like the start of the
magic in one of them, and both freed. -/
theorem heap_run_invariant_small :
    ∃ s₀ frames', initializeState (fun _ => 0) heapFrames = .ok (s₀, frames') ∧
      ∃ sys b lists, serveAll ⟨s₀, []⟩ [.allocate 100, .allocate 16,
          .write 0 16 0x4C, .free 1, .free 0] = .ok sys ∧ RunInvariant sys b lists ∧
        ∀ request, ∃ sys', serve sys request = .ok sys' ∧ Undisturbed sys request sys' := by
  obtain ⟨frames', hinit⟩ := initializeState_heapFrames
  exact ⟨heapStart, frames', hinit, heap_run_invariant hinit (by decide) _⟩

end X64HK.Heap
