import Mathlib.Algebra.Order.BigOperators.Group.Finset
import X64HK.Lib.Buddy
import X64HK.Memory.Heap

/-!
# The representation invariant of the heap

The blocks of the heap are a tiling of the region.  A block is free, or
live in the hands of a client, or held by the operation that is under way.
`Inv s b lists` says that the memory matches the layout `b`: headers carry
the magic, the order and the flag, the list of each order links exactly its
free blocks, and `usedBytes` is the size of the live ones.  Nothing is said
about the bytes of a held block.

`Allocate` and `Free` are compositions of a few moves, and each move has
one lemma: `Inv.pop`, `Inv.split`, `Inv.push` and `Inv.handOut` for the
one, `Inv.release`, `Inv.remove`, `Inv.merge` and `Inv.push` for the other.
`Keeps` is the frame condition that all of them share: no byte of a live
block's payload changes.
-/

namespace X64HK.Heap

open Buddy

/-- Whose a block is. -/
inductive Status where
  | free
  | live
  | held
  deriving DecidableEq, Repr

abbrev Layout := Buddy.Layout Status

/-! ## Fields -/

variable {s s' : State} {p : Nat} {a : Nat} {l : List Nat}

/-- The four fields of a header depend on its sixteen bytes. -/
theorem fields_congr (h : ByteMemory.AgreeOn s.memory s'.memory p HEADER_SIZE) :
    magic s' p = magic s p ∧ order s' p = order s p ∧ isFree s' p = isFree s p ∧
      nextFree s' p = nextFree s p := by
  have hsize : HEADER_SIZE = 16 := rfl
  exact ⟨ByteMemory.load_congr (h.mono (Nat.le_refl p) (by omega)),
    ByteMemory.load_congr (h.mono (by omega) (by omega)),
    ByteMemory.load_congr (h.mono (by omega) (by omega)),
    ByteMemory.load_congr (h.mono (by omega) (by omega))⟩

/-- A header of a block that is free or live, and its next pointer. -/
structure HeaderIs (s : State) (p k flag next : Nat) : Prop where
  magic : magic s p = BLOCK_MAGIC
  order : order s p = k
  isFree : isFree s p = flag
  nextFree : nextFree s p = next

/-- Writing all four fields of a header. -/
def writeHeader (s : State) (p k flag next : Nat) : State :=
  setNextFree (setIsFree (setOrder (setMagic s p BLOCK_MAGIC) p k) p flag) p next

theorem writeHeader_headerIs (s : State) {k flag next : Nat} (hk : k < 256) (hflag : flag < 256)
    (hnext : next < 2 ^ 64) :
    HeaderIs (writeHeader s p k flag next) p k flag next := by
  have hmagic : BLOCK_MAGIC < 256 ^ 4 := by decide
  have hnext' : next < 256 ^ 8 := hnext
  refine ⟨?_, ?_, ?_, ?_⟩
  · simp only [magic, writeHeader, setNextFree, setIsFree, setOrder, setMagic]
    rw [ByteMemory.load_store_of_disjoint (by omega),
      ByteMemory.load_store_of_disjoint (by omega),
      ByteMemory.load_store_of_disjoint (by omega),
      ByteMemory.load_store_of_lt hmagic]
  · simp only [order, writeHeader, setNextFree, setIsFree, setOrder]
    rw [ByteMemory.load_store_of_disjoint (by omega),
      ByteMemory.load_store_of_disjoint (by omega),
      ByteMemory.load_store_of_lt (by omega)]
  · simp only [isFree, writeHeader, setNextFree, setIsFree]
    rw [ByteMemory.load_store_of_disjoint (by omega), ByteMemory.load_store_of_lt (by omega)]
  · simp only [nextFree, writeHeader, setNextFree]
    rw [ByteMemory.load_store_of_lt hnext']

theorem writeHeader_of_outside (s : State) {k flag next : Nat} (h : a < p ∨ p + HEADER_SIZE ≤ a) :
    (writeHeader s p k flag next).memory a = s.memory a := by
  have hsize : HEADER_SIZE = 16 := rfl
  simp only [writeHeader, setNextFree, setIsFree, setOrder, setMagic]
  rw [ByteMemory.store_of_outside (by omega), ByteMemory.store_of_outside (by omega),
    ByteMemory.store_of_outside (by omega), ByteMemory.store_of_outside (by omega)]

theorem memory_pushFree (s : State) (p k : Nat) :
    (pushFree s p k).memory = (writeHeader s p k 1 (s.freeLists k)).memory := rfl

/-- `Initialize` writes one header. -/
theorem initializeAt_of_outside {memory : ByteMemory} {region : Nat} (hlt : region < 2 ^ 64)
    (h : a < region ∨ region + HEADER_SIZE ≤ a) :
    (initializeAt memory region).memory a = memory a := by
  have hblock : blockAt ⟨memory, region, fun _ => 0, 0⟩ 0 = region := wrap64_of_lt hlt
  rw [initializeAt, hblock, memory_pushFree, writeHeader_of_outside _ h]

theorem memory_handOut (s : State) (p k : Nat) :
    (handOut s p k).memory = (writeHeader s p k 0 0).memory := rfl

/-- A header only depends on the memory. -/
theorem HeaderIs.of_memory_eq {k flag next : Nat} (h : HeaderIs s p k flag next)
    (hm : s'.memory = s.memory) :
    HeaderIs s' p k flag next := by
  have hagree : ByteMemory.AgreeOn s.memory s'.memory p HEADER_SIZE := fun a _ _ => by rw [hm]
  obtain ⟨h1, h2, h3, h4⟩ := fields_congr hagree
  exact ⟨h1.trans h.magic, h2.trans h.order, h3.trans h.isFree, h4.trans h.nextFree⟩

/-! ## Linked lists in memory -/

/-- From pointer `p` the next pointers lead through the blocks at the
offsets of the list, and then to `q`. -/
def Segment (s : State) : Nat → List Nat → Nat → Prop
  | p, [], q => p = q
  | p, o :: rest, q => p = s.region + o ∧ Segment s (nextFree s p) rest q

theorem segment_append (s : State) (l l' : List Nat) (p q : Nat) :
    Segment s p (l ++ l') q ↔ ∃ r, Segment s p l r ∧ Segment s r l' q := by
  induction l generalizing p with
  | nil => exact ⟨fun h => ⟨p, rfl, h⟩, fun ⟨r, hr, h⟩ => hr ▸ h⟩
  | cons o l ih =>
    constructor
    · rintro ⟨hp, hrest⟩
      obtain ⟨r, hl, hl'⟩ := (ih _).1 hrest
      exact ⟨r, ⟨hp, hl⟩, hl'⟩
    · rintro ⟨r, ⟨hp, hl⟩, hl'⟩
      exact ⟨hp, (ih _).2 ⟨r, hl, hl'⟩⟩

/-- A list only depends on the next pointers of its blocks. -/
theorem Segment.congr {q : Nat} (hl : Segment s p l q) (hregion : s'.region = s.region)
    (h : ∀ o ∈ l, nextFree s' (s.region + o) = nextFree s (s.region + o)) :
    Segment s' p l q := by
  induction l generalizing p with
  | nil => exact hl
  | cons o l ih =>
    obtain ⟨hp, hrest⟩ := hl
    refine ⟨hregion ▸ hp, ?_⟩
    rw [hp, h o (List.mem_cons_self ..), ← hp]
    exact ih hrest fun x hx => h x (List.mem_cons_of_mem _ hx)

theorem Segment.of_memory_eq {q : Nat} (h : Segment s p l q) (hregion : s'.region = s.region)
    (hmem : s'.memory = s.memory) : Segment s' p l q :=
  h.congr hregion fun o _ => by rw [nextFree, hmem, nextFree]

/-- The next pointers determine the list. -/
theorem Segment.unique (hpos : 0 < s.region) {l' : List Nat} (h : Segment s p l 0)
    (h' : Segment s p l' 0) : l = l' := by
  induction l generalizing p l' with
  | nil =>
    cases l' with
    | nil => rfl
    | cons o l' =>
      have hzero : s.region + o = 0 := h'.1.symm.trans h
      omega
  | cons o l ih =>
    obtain ⟨hp, hrest⟩ := h
    cases l' with
    | nil =>
      have hzero : s.region + o = 0 := hp.symm.trans h'
      omega
    | cons o' l' =>
      obtain ⟨hp', hrest'⟩ := h'
      obtain rfl : o = o' := by omega
      rw [ih hrest hrest']

/-- The block at offset `o` is on the list of order `k`. -/
def FreeAt (s : State) (k o : Nat) : Prop :=
  ∃ l, Segment s (s.freeLists k) l 0 ∧ o ∈ l

/-! ## The invariant -/

/-- The header says what the block is. -/
structure Labelled (s : State) (p k : Nat) (st : Status) : Prop where
  magic : magic s p = BLOCK_MAGIC
  order : order s p = k
  isFree : isFree s p = if st = .free then 1 else 0

theorem eight_le_HEADER_SIZE : 8 ≤ HEADER_SIZE := by decide

variable {st : Status}

/-- A label does not depend on the next pointer. -/
theorem Labelled.congr {k : Nat} (h : Labelled s p k st)
    (hm : ByteMemory.AgreeOn s.memory s'.memory p 8) :
    Labelled s' p k st :=
  ⟨(ByteMemory.load_congr (hm.mono (Nat.le_refl p) (by omega))).trans h.magic,
    (ByteMemory.load_congr (hm.mono (by omega) (by omega))).trans h.order,
    (ByteMemory.load_congr (hm.mono (by omega) (by omega))).trans h.isFree⟩

/-- What a block adds to `usedBytes`. -/
def liveBytes (blk : Block Status) : Nat :=
  if blk.status = .live then 2 ^ blk.order else 0

structure Inv (s : State) (b : Layout) (lists : Nat → List Nat) : Prop where
  region_pos : 0 < s.region
  region_aligned : HEADER_SIZE ∣ s.region
  /-- The region does not reach past the end of the address space. -/
  region_le : s.region + HEAP_SIZE ≤ 2 ^ 64
  tiling : Tiling MIN_ORDER MAX_ORDER b
  header : ∀ {o k st}, b o = some ⟨k, st⟩ → st ≠ .held → Labelled s (s.region + o) k st
  linked : ∀ k, Segment s (s.freeLists k) (lists k) 0
  mem_lists : ∀ {k o}, o ∈ lists k ↔ b o = some ⟨k, .free⟩
  nodup : ∀ k, (lists k).Nodup
  used : s.usedBytes = weight liveBytes HEAP_SIZE b

/-- The frame condition of every move: live blocks stay live, and their
payloads keep their bytes. -/
structure Keeps (s : State) (b : Layout) (s' : State) (b' : Layout) : Prop where
  region : s'.region = s.region
  live : ∀ {o k}, b o = some ⟨k, .live⟩ → b' o = some ⟨k, .live⟩
  payload : ∀ {o k}, b o = some ⟨k, .live⟩ → ∀ a, s.region + o + HEADER_SIZE ≤ a →
    a < s.region + o + 2 ^ k → s'.memory a = s.memory a

theorem Keeps.trans {s'' : State} {b b' b'' : Layout} (h : Keeps s b s' b')
    (h' : Keeps s' b' s'' b'') : Keeps s b s'' b'' where
  region := h'.region.trans h.region
  live := fun ho => h'.live (h.live ho)
  payload := by
    intro o k ho a hlo hhi
    have hr := h.region
    rw [h'.payload (h.live ho) a (by omega) (by omega), h.payload ho a hlo hhi]

variable {b : Layout} {lists : Nat → List Nat} {o o' k y : Nat} {blk : Block Status}
  {pre post : List Nat} {st' : Status} {k' : Nat}

theorem Inv.lt (h : Inv s b lists) (ho : b o = some blk) : o + 2 ^ blk.order ≤ HEAP_SIZE :=
  h.tiling.stop_le ho

theorem Inv.size_le (h : Inv s b lists) (ho : b o = some blk) : 32 ≤ 2 ^ blk.order :=
  show 2 ^ MIN_ORDER ≤ 2 ^ blk.order from Nat.pow_le_pow_right (by decide) (h.tiling.low_le ho)

/-- Blocks start at multiples of the smallest size. -/
theorem Inv.dvd (h : Inv s b lists) (ho : b o = some blk) : 32 ∣ o :=
  show 2 ^ MIN_ORDER ∣ o from (Nat.pow_dvd_pow 2 (h.tiling.low_le ho)).trans (h.tiling.aligned ho)

/-- Headers of different blocks are apart. -/
theorem Inv.header_apart (h : Inv s b lists) {blk' : Block Status} (ho : b o = some blk)
    (ho' : b o' = some blk') (hne : o ≠ o') :
    o + 32 ≤ o' ∨ o' + 32 ≤ o := by
  have h1 := h.size_le ho
  have h2 := h.size_le ho'
  rcases h.tiling.apart ho ho' hne with hlt | hlt
  · omega
  · omega

theorem Inv.blockAt (h : Inv s b lists) {x : Nat} (hx : x < HEAP_SIZE) :
    blockAt s x = s.region + x := by
  have hle := h.region_le
  exact wrap64_of_lt (by omega)

theorem Inv.offsetOf (h : Inv s b lists) {x : Nat} (hx : x < HEAP_SIZE) :
    offsetOf s (s.region + x) = x := by
  have hle := h.region_le
  rw [Heap.offsetOf, sub64_of_le (by omega) (by omega)]
  omega

theorem Inv.lt_HEAP_SIZE (h : Inv s b lists) (ho : b o = some blk) : o < HEAP_SIZE :=
  h.tiling.lt ho

theorem Inv.order_lt (h : Inv s b lists) (ho : b o = some ⟨k, st⟩) : k < 256 :=
  Nat.lt_of_le_of_lt (h.tiling.le_top ho) (by decide)

/-- The head of a list is a pointer, or zero for the empty list. -/
theorem Inv.head_lt (h : Inv s b lists) (k : Nat) : s.freeLists k < 2 ^ 64 := by
  have hlinked := h.linked k
  cases hl : lists k with
  | nil =>
    rw [hl] at hlinked
    rw [show s.freeLists k = 0 from hlinked]
    decide
  | cons o rest =>
    rw [hl] at hlinked
    have hfree := h.mem_lists.1 (hl ▸ List.mem_cons_self .. : o ∈ lists k)
    have hlt := h.lt_HEAP_SIZE hfree
    have hle := h.region_le
    rw [hlinked.1]
    omega

theorem Inv.freeAt_iff (h : Inv s b lists) : FreeAt s k o ↔ b o = some ⟨k, .free⟩ := by
  rw [← h.mem_lists]
  constructor
  · rintro ⟨l, hl, hmem⟩
    rwa [hl.unique h.region_pos (h.linked k)] at hmem
  · exact fun hmem => ⟨lists k, h.linked k, hmem⟩

/-- Far more than `usedBytes` can be. -/
theorem weight_liveBytes_le (h : Tiling MIN_ORDER MAX_ORDER b) :
    weight liveBytes HEAP_SIZE b ≤ HEAP_SIZE * HEAP_SIZE := by
  have hle := Finset.sum_le_card_nsmul (Finset.range HEAP_SIZE)
    (fun o => (b o).elim 0 liveBytes) HEAP_SIZE ?_
  · simpa [weight] using hle
  · intro o _
    cases ho : b o with
    | none => exact Nat.zero_le _
    | some blk =>
      have hstop := h.stop_le ho
      simp only [Option.elim_some, liveBytes, HEAP_SIZE]
      split
      · omega
      · exact Nat.zero_le _

/-! ## Changing the status of one block -/

/-- The common part of the moves that change one block's status.  The caller
says what became of the headers and of the lists. -/
theorem Inv.change (h : Inv s b lists) (ho : b o = some ⟨k, st⟩)
    {lists' : Nat → List Nat} (hregion : s'.region = s.region)
    (hothers : ∀ {o' k' st''}, o' ≠ o → b o' = some ⟨k', st''⟩ → st'' ≠ .held →
      Labelled s' (s.region + o') k' st'')
    (hlabel : st' ≠ .held → Labelled s' (s.region + o) k st')
    (hlinked : ∀ k', Segment s' (s'.freeLists k') (lists' k') 0)
    (hmem : ∀ {k' o'}, o' ∈ lists' k' ↔
      if o' = o then k' = k ∧ st' = .free else o' ∈ lists k')
    (hnodup : ∀ k', (lists' k').Nodup)
    (hused : s'.usedBytes + liveBytes ⟨k, st⟩ = s.usedBytes + liveBytes ⟨k, st'⟩) :
    Inv s' (Function.update b o (some ⟨k, st'⟩)) lists' := by
  refine ⟨hregion ▸ h.region_pos, hregion ▸ h.region_aligned, hregion ▸ h.region_le,
    h.tiling.setStatus ho _, ?_, hlinked, ?_, hnodup, ?_⟩
  · intro o' k' st'' ho' hst
    rw [hregion]
    by_cases hne : o' = o
    · subst hne
      rw [Function.update_self] at ho'
      cases Option.some.inj ho'
      exact hlabel hst
    · rw [Function.update_of_ne hne] at ho'
      exact hothers hne ho' hst
  · intro k' o'
    rw [hmem]
    by_cases hne : o' = o
    · subst hne
      rw [if_pos rfl, Function.update_self, Option.some.injEq, Block.mk.injEq]
      exact ⟨fun hh => ⟨hh.1.symm, hh.2⟩, fun hh => ⟨hh.1.symm, hh.2⟩⟩
    · rw [if_neg hne, Function.update_of_ne hne]
      exact h.mem_lists
  · have hweight := weight_update liveBytes b (h.lt_HEAP_SIZE ho) (some ⟨k, st'⟩)
    rw [ho] at hweight
    simp only [Option.elim_some] at hweight
    have hold := h.used
    omega

/-- The same where only the list of the block's order changes. -/
theorem Inv.relist (h : Inv s b lists) (ho : b o = some ⟨k, st⟩)
    (hregion : s'.region = s.region)
    (hothers : ∀ {o' k' st''}, o' ≠ o → b o' = some ⟨k', st''⟩ → st'' ≠ .held →
      Labelled s' (s.region + o') k' st'')
    (hlabel : st' ≠ .held → Labelled s' (s.region + o) k st')
    (hlinked : Segment s' (s'.freeLists k) l 0)
    (hrest : ∀ k', k' ≠ k → Segment s' (s'.freeLists k') (lists k') 0)
    (hmem : ∀ {o'}, o' ∈ l ↔ if o' = o then st' = .free else o' ∈ lists k) (hnodup : l.Nodup)
    (hused : s'.usedBytes + liveBytes ⟨k, st⟩ = s.usedBytes + liveBytes ⟨k, st'⟩) :
    Inv s' (Function.update b o (some ⟨k, st'⟩)) (Function.update lists k l) := by
  refine h.change ho hregion hothers hlabel ?_ ?_ ?_ hused
  · intro k'
    by_cases hk : k' = k
    · rw [hk, Function.update_self]
      exact hlinked
    · rw [Function.update_of_ne hk]
      exact hrest k' hk
  · intro k' o'
    by_cases hk : k' = k
    · subst hk
      simp [hmem]
    · rw [Function.update_of_ne hk]
      by_cases hne : o' = o
      · simp [hne, h.mem_lists, ho, hk, Ne.symm hk]
      · rw [if_neg hne]
  · intro k'
    by_cases hk : k' = k
    · rw [hk, Function.update_self]
      exact hnodup
    · rw [Function.update_of_ne hk]
      exact h.nodup k'

/-- Live blocks other than the one that changes stay live. -/
theorem live_update (ho : b o = some ⟨k, st⟩) (hst : st ≠ .live) (ho' : b o' = some ⟨k', .live⟩) :
    Function.update b o (some ⟨k, st'⟩) o' = some ⟨k', .live⟩ := by
  have hne : o' ≠ o := by
    rintro rfl
    rw [ho] at ho'
    cases Option.some.inj ho'
    exact hst rfl
  rw [Function.update_of_ne hne]
  exact ho'

/-- A block of another status is on no list. -/
theorem Inv.not_mem_of_status (h : Inv s b lists) (ho : b o = some ⟨k, st⟩) (hst : st ≠ .free)
    (k' : Nat) : o ∉ lists k' := by
  intro hmem
  have hfree := h.mem_lists.1 hmem
  rw [ho] at hfree
  cases Option.some.inj hfree
  exact hst rfl

/-- Lists that did not change do not hold a block that was on none. -/
theorem Inv.mem_unchanged (h : Inv s b lists) (ho : b o = some ⟨k, st⟩) (hst : st ≠ .free)
    (hst' : st' ≠ .free) :
    o' ∈ lists k' ↔ if o' = o then k' = k ∧ st' = .free else o' ∈ lists k' := by
  by_cases hne : o' = o
  · subst hne
    rw [if_pos rfl]
    exact ⟨fun hmem => absurd hmem (h.not_mem_of_status ho hst k'), fun hh => absurd hh.2 hst'⟩
  · rw [if_neg hne]

/-! ## Moves that leave memory alone -/

/-- Take the first block off a list. -/
theorem Inv.pop (h : Inv s b lists) {rest : List Nat} (hl : lists k = o :: rest) :
    Inv (setList s k (nextFree s (s.region + o)))
        (Function.update b o (some ⟨k, .held⟩)) (Function.update lists k rest) ∧
      Keeps s b (setList s k (nextFree s (s.region + o)))
        (Function.update b o (some ⟨k, .held⟩)) := by
  have hfree : b o = some ⟨k, .free⟩ :=
    h.mem_lists.1 (hl ▸ List.mem_cons_self .. : o ∈ lists k)
  have hlinked := h.linked k
  have hnodup := h.nodup k
  rw [hl] at hlinked hnodup
  obtain ⟨hnotin, hrest⟩ := List.nodup_cons.1 hnodup
  refine ⟨h.relist hfree rfl ?_ (fun hne => absurd rfl hne) ?_ ?_ ?_ hrest rfl, rfl,
    live_update hfree (by decide), fun _ _ _ _ => rfl⟩
  · intro o' k' st'' _ ho' hst
    exact (h.header ho' hst).congr fun _ _ _ => rfl
  · simp only [setList, Function.update_self]
    rw [← hlinked.1]
    exact hlinked.2.of_memory_eq rfl rfl
  · intro k' hk
    simp only [setList, Function.update_of_ne hk]
    exact (h.linked k').of_memory_eq rfl rfl
  · intro o'
    by_cases hne : o' = o
    · simp [hne, hnotin]
    · simp [hne, hl]

/-- Take a live block back from its client. -/
theorem Inv.release (h : Inv s b lists) (ho : b o = some ⟨k, .live⟩) :
    Inv { s with usedBytes := sub64 s.usedBytes (2 ^ k) }
      (Function.update b o (some ⟨k, .held⟩)) lists := by
  have hweight := weight_update liveBytes b (h.lt_HEAP_SIZE ho) (some ⟨k, .held⟩)
  rw [ho] at hweight
  have hle := weight_liveBytes_le h.tiling
  have hsize : HEAP_SIZE * HEAP_SIZE < 2 ^ 64 := by decide
  have hused := h.used
  have hlive : liveBytes ⟨k, .live⟩ = 2 ^ k := rfl
  have hheld : liveBytes ⟨k, .held⟩ = 0 := rfl
  simp only [Option.elim_some, hlive, hheld] at hweight
  refine h.change ho rfl ?_ (fun hne => absurd rfl hne) ?_
    (h.mem_unchanged ho (by decide) (by decide)) h.nodup ?_
  · intro o' k' st'' _ ho' hst
    exact (h.header ho' hst).congr fun _ _ _ => rfl
  · intro k'
    exact (h.linked k').of_memory_eq rfl rfl
  · rw [hlive, hheld]
    change sub64 s.usedBytes (2 ^ k) + 2 ^ k = s.usedBytes + 0
    rw [sub64_of_le (by omega) (by omega)]
    omega

/-- Split a held block, with both halves held. -/
theorem Inv.split (h : Inv s b lists) (ho : b o = some ⟨k + 1, .held⟩)
    (hk : MIN_ORDER ≤ k) : Inv s (splitAt b o k .held .held) lists := by
  have hpos := Nat.two_pow_pos k
  have htwo := two_pow_succ k
  have hnone : b (o + 2 ^ k) = none :=
    h.tiling.none_inside ho (by omega) (by simp only [htwo]; omega)
  refine { h with
    tiling := h.tiling.split ho hk _ _, header := ?_, mem_lists := ?_, used := ?_ }
  · intro o' k' st ho' hst
    exact h.header ((splitAt_eq_iff_of_ne ho hnone hst).1 ho') hst
  · intro k' o'
    rw [h.mem_lists, splitAt_eq_iff_of_ne ho hnone (by decide)]
  · have hlt := h.lt ho
    simp only [htwo] at hlt
    rw [splitAt, weight_update_of_zero _ (by omega) ?_ rfl,
      weight_update_of_zero _ (h.lt_HEAP_SIZE ho) (by rw [ho]; rfl) rfl]
    · exact h.used
    · rw [Function.update_of_ne (by omega), hnone]
      rfl

/-- Join two held buddies. -/
theorem Inv.merge (h : Inv s b lists) (ho : b o = some ⟨k, .held⟩)
    (hy : b (o ^^^ 2 ^ k) = some ⟨k, .held⟩) (hk : k < MAX_ORDER) :
    Inv s (mergeAt b (min o (o ^^^ 2 ^ k)) k .held) lists := by
  -- Name the two halves by their order.
  obtain ⟨x, hmin, hdvd, hx, hx'⟩ : ∃ x, min o (o ^^^ 2 ^ k) = x ∧ 2 ^ (k + 1) ∣ x ∧
      b x = some ⟨k, .held⟩ ∧ b (x + 2 ^ k) = some ⟨k, .held⟩ := by
    rcases h.tiling.halves ho with ⟨hd, hxor, hmin⟩ | ⟨hd, hxor, hmin⟩
    · exact ⟨o, hmin, hd, ho, hxor ▸ hy⟩
    · exact ⟨o ^^^ 2 ^ k, hmin, hd, hy, hxor ▸ ho⟩
  have hpos := Nat.two_pow_pos k
  rw [hmin]
  refine { h with
    tiling := h.tiling.mergeAt hx hx' hdvd hk _, header := ?_, mem_lists := ?_, used := ?_ }
  · intro o' k' st ho' hst
    exact h.header ((mergeAt_eq_iff_of_ne hx hx' hst).1 ho') hst
  · intro k' o'
    rw [h.mem_lists, mergeAt_eq_iff_of_ne hx hx' (by decide)]
  · rw [mergeAt, weight_update_of_zero _ (h.lt_HEAP_SIZE hx) ?_ rfl,
      weight_update_of_zero _ (h.lt_HEAP_SIZE hx') (by rw [hx']; rfl) rfl]
    · exact h.used
    · rw [Function.update_of_ne (by omega), hx]
      rfl

/-! ## Moves that write headers -/

/-- Only the header of the block at `o` changed. -/
def HeaderOnly (s : State) (o : Nat) (s' : State) : Prop :=
  ∀ a, a < s.region + o ∨ s.region + o + HEADER_SIZE ≤ a → s'.memory a = s.memory a

theorem Inv.agree_header (h : Inv s b lists) (hs' : HeaderOnly s o s') {blk' : Block Status}
    (ho : b o = some blk) (ho' : b o' = some blk') (hne : o' ≠ o) :
    ByteMemory.AgreeOn s.memory s'.memory (s.region + o') HEADER_SIZE := by
  have hapart := h.header_apart ho ho' hne.symm
  have hsize : HEADER_SIZE = 16 := rfl
  exact fun a hlo hhi => hs' a (by omega)

/-- No header stands in a live block's payload. -/
theorem Inv.payload_outside (h : Inv s b lists) (ho : b o = some blk)
    (ho' : b o' = some ⟨k', .live⟩) (hlo : s.region + o' + HEADER_SIZE ≤ a)
    (hhi : a < s.region + o' + 2 ^ k') :
    a < s.region + o ∨ s.region + o + HEADER_SIZE ≤ a := by
  have hsize : HEADER_SIZE = 16 := rfl
  have h32 := h.size_le ho
  by_cases hne : o' = o
  · subst hne
    exact Or.inr hlo
  · rcases h.tiling.apart ho' ho hne with hle | hle
    · simp only at hle
      omega
    · omega

/-- Writing a header keeps the payloads of live blocks. -/
theorem Inv.payload_of_headerOnly (h : Inv s b lists) (hs' : HeaderOnly s o s')
    (ho : b o = some blk) (ho' : b o' = some ⟨k', .live⟩) (a : Nat)
    (hlo : s.region + o' + HEADER_SIZE ≤ a) (hhi : a < s.region + o' + 2 ^ k') :
    s'.memory a = s.memory a :=
  hs' a (h.payload_outside ho ho' hlo hhi)

/-- It keeps the labels of the other blocks. -/
theorem Inv.labelled_of_headerOnly (h : Inv s b lists) (hs' : HeaderOnly s o s')
    (ho : b o = some blk) (hne : o' ≠ o) (ho' : b o' = some ⟨k', st⟩) (hst : st ≠ .held) :
    Labelled s' (s.region + o') k' st :=
  (h.header ho' hst).congr ((h.agree_header hs' ho ho' hne).mono (Nat.le_refl _)
    (Nat.add_le_add_left eight_le_HEADER_SIZE _))

/-- It keeps the links of every list, since a held block is on none. -/
theorem Inv.linked_of_headerOnly (h : Inv s b lists) (hs' : HeaderOnly s o s')
    (hregion : s'.region = s.region) (ho : b o = some ⟨k, .held⟩) (k' : Nat) :
    Segment s' (s.freeLists k') (lists k') 0 := by
  refine (h.linked k').congr hregion fun o' hmem => ?_
  have hne : o' ≠ o := fun heq => h.not_mem_of_status ho (by decide) k' (heq ▸ hmem)
  exact (fields_congr (h.agree_header hs' ho (h.mem_lists.1 hmem) hne)).2.2.2

/-- Put a held block on the list of its order. -/
theorem Inv.push (h : Inv s b lists) (ho : b o = some ⟨k, .held⟩) :
    Inv (pushFree s (s.region + o) k) (Function.update b o (some ⟨k, .free⟩))
        (Function.update lists k (o :: lists k)) ∧
      Keeps s b (pushFree s (s.region + o) k) (Function.update b o (some ⟨k, .free⟩)) := by
  have honly : HeaderOnly s o (pushFree s (s.region + o) k) :=
    fun a ha => writeHeader_of_outside s ha
  have hhead : HeaderIs (pushFree s (s.region + o) k) (s.region + o) k 1 (s.freeLists k) :=
    (writeHeader_headerIs s (h.order_lt ho) (by decide) (h.head_lt k)).of_memory_eq
      (memory_pushFree s _ k)
  have hnotin := h.not_mem_of_status ho (by decide) k
  refine ⟨h.relist ho rfl (h.labelled_of_headerOnly honly ho) ?_ ?_ ?_ ?_
    (List.nodup_cons.2 ⟨hnotin, h.nodup k⟩) rfl, rfl, live_update ho (by decide),
    fun ho' => h.payload_of_headerOnly honly ho ho'⟩
  · intro _
    exact ⟨hhead.magic, hhead.order, hhead.isFree.trans (if_pos rfl).symm⟩
  · have hlist : (pushFree s (s.region + o) k).freeLists k = s.region + o := by
      simp [pushFree, setList]
    rw [hlist]
    refine ⟨rfl, ?_⟩
    rw [hhead.nextFree]
    exact h.linked_of_headerOnly honly rfl ho k
  · intro k' hk
    have hlist : (pushFree s (s.region + o) k).freeLists k' = s.freeLists k' := by
      simp [pushFree, setList, Function.update_of_ne hk, setNextFree, setIsFree, setOrder, setMagic]
    rw [hlist]
    exact h.linked_of_headerOnly honly rfl ho k'
  · intro o'
    by_cases hne : o' = o
    · simp [hne]
    · simp [hne]

/-- Hand a held block out to a client. -/
theorem Inv.handOut (h : Inv s b lists) (ho : b o = some ⟨k, .held⟩) :
    Inv (handOut s (s.region + o) k) (Function.update b o (some ⟨k, .live⟩)) lists ∧
      Keeps s b (Heap.handOut s (s.region + o) k) (Function.update b o (some ⟨k, .live⟩)) := by
  have honly : HeaderOnly s o (Heap.handOut s (s.region + o) k) :=
    fun a ha => writeHeader_of_outside s ha
  have hhead : HeaderIs (Heap.handOut s (s.region + o) k) (s.region + o) k 0 0 :=
    (writeHeader_headerIs s (h.order_lt ho) (by decide) (by decide)).of_memory_eq
      (memory_handOut s _ k)
  have hle := weight_liveBytes_le h.tiling
  have hsize : HEAP_SIZE * HEAP_SIZE + HEAP_SIZE < 2 ^ 64 := by decide
  have hstop := h.lt ho
  have hused := h.used
  refine ⟨h.change ho rfl (h.labelled_of_headerOnly honly ho) ?_
    (h.linked_of_headerOnly honly rfl ho) (h.mem_unchanged ho (by decide) (by decide)) h.nodup
    ?_, rfl, live_update ho (by decide), fun ho' => h.payload_of_headerOnly honly ho ho'⟩
  · intro _
    exact ⟨hhead.magic, hhead.order, hhead.isFree.trans (if_neg (by decide)).symm⟩
  · have hlive : liveBytes ⟨k, .live⟩ = 2 ^ k := rfl
    have hheld : liveBytes ⟨k, .held⟩ = 0 := rfl
    rw [hlive, hheld]
    change wrap64 (s.usedBytes + 2 ^ k) + 0 = s.usedBytes + 2 ^ k
    simp only at hstop
    rw [wrap64_of_lt (by omega), Nat.add_zero]

/-! ## Taking a block off the middle of a list -/

/-- What `RemoveFree` does once it stands at the block. -/
def unlink (s : State) (p : Nat) (link : Link) : State :=
  setIsFree (setNextFree (link.write s (nextFree s p)) p 0) p 0

theorem region_unlink (s : State) (p : Nat) (link : Link) :
    (unlink s p link).region = s.region := by
  cases link <;> rfl

theorem usedBytes_unlink (s : State) (p : Nat) (link : Link) :
    (unlink s p link).usedBytes = s.usedBytes := by
  cases link <;> rfl

/-- The link that the walk has reached after the blocks of a list. -/
def Link.after (region : Nat) : Link → List Nat → Link
  | link, [] => link
  | _, x :: rest => Link.after region (.next (region + x)) rest

/-- The walk passes the blocks before the one it looks for. -/
theorem removeFreeLoop_spec (hpos : 0 < s.region) :
    ∀ {pre : List Nat} {fuel : Nat} {link : Link}, y ∉ pre → pre.length < fuel →
      Segment s (link.read s) (pre ++ y :: post) 0 →
      removeFreeLoop s (s.region + y) fuel link =
        .ok (true, unlink s (s.region + y) (link.after s.region pre)) := by
  intro pre
  induction pre with
  | nil =>
    intro fuel link _ hfuel hseg
    obtain ⟨fuel, rfl⟩ := Nat.exists_eq_succ_of_ne_zero (Nat.ne_of_gt hfuel)
    have hread : link.read s = s.region + y := hseg.1
    rw [Nat.succ_eq_add_one, removeFreeLoop]
    simp only [hread, if_true]
    rw [if_neg (by omega)]
    rfl
  | cons x pre ih =>
    intro fuel link hy hfuel hseg
    have hxy : y ≠ x := fun heq => hy (heq ▸ List.mem_cons_self)
    have hy' : y ∉ pre := fun hmem => hy (List.mem_cons_of_mem x hmem)
    obtain ⟨fuel, rfl⟩ := Nat.exists_eq_succ_of_ne_zero (Nat.ne_zero_of_lt hfuel)
    obtain ⟨hread, hrest⟩ := hseg
    rw [Nat.succ_eq_add_one, removeFreeLoop]
    simp only [hread]
    rw [if_neg (by omega), if_neg (by omega)]
    rw [hread] at hrest
    exact ih hy' (by simpa using hfuel) hrest

/-- The link before a block of a list is the head of the list or the next
pointer of the block before it. -/
theorem Link.after_append (region : Nat) (link : Link) (pre : List Nat) (x : Nat) :
    link.after region (pre ++ [x]) = .next (region + x) := by
  induction pre generalizing link with
  | nil => rfl
  | cons y pre ih => exact ih _

theorem memory_unlink_of_outside {link : Link} (hp : a < p ∨ p + HEADER_SIZE ≤ a)
    (hlink : ∀ q, link = .next q → a < q + 8 ∨ q + HEADER_SIZE ≤ a) :
    (unlink s p link).memory a = s.memory a := by
  have hsize : HEADER_SIZE = 16 := rfl
  simp only [unlink, setIsFree, setNextFree]
  rw [ByteMemory.store_of_outside (by omega), ByteMemory.store_of_outside (by omega)]
  cases link with
  | head order => rfl
  | next q =>
    have hq := hlink q rfl
    exact ByteMemory.store_of_outside (by omega)

/-- The next pointer that `RemoveFree` redirects. -/
theorem nextFree_unlink {q : Nat} (hpq : q + HEADER_SIZE ≤ p ∨ p + HEADER_SIZE ≤ q) :
    nextFree (unlink s p (.next q)) q = nextFree s p := by
  have hsize : HEADER_SIZE = 16 := rfl
  have hnext : nextFree s p < 256 ^ 8 := ByteMemory.load_lt ..
  simp only [unlink, setIsFree, setNextFree, Link.write]
  rw [nextFree, ByteMemory.load_store_of_disjoint (by omega),
    ByteMemory.load_store_of_disjoint (by omega), ByteMemory.load_store_of_lt hnext]

/-- Offsets of blocks are multiples of the smallest size, so a list is not
longer than the heap has such places. -/
theorem Inv.length_le (h : Inv s b lists) (k : Nat) :
    (lists k).length ≤ HEAP_SIZE / 2 ^ MIN_ORDER := by
  have hsub : ((lists k).map (· / 2 ^ MIN_ORDER)).toFinset ⊆
      Finset.range (HEAP_SIZE / 2 ^ MIN_ORDER) := by
    intro x hx
    obtain ⟨o, hmem, rfl⟩ := List.mem_map.1 (List.mem_toFinset.1 hx)
    have hlt := h.lt_HEAP_SIZE (h.mem_lists.1 hmem)
    rw [Finset.mem_range]
    exact Nat.div_lt_div_of_lt_of_dvd (by decide) hlt
  have hinj : ((lists k).map (· / 2 ^ MIN_ORDER)).Nodup := by
    refine List.Nodup.map_on ?_ (h.nodup k)
    intro x hx y hy heq
    have hdvd : ∀ {z}, z ∈ lists k → 2 ^ MIN_ORDER ∣ z := fun hz =>
      (Nat.pow_dvd_pow 2 (h.tiling.low_le (h.mem_lists.1 hz))).trans
        (h.tiling.aligned (h.mem_lists.1 hz))
    rw [← Nat.div_mul_cancel (hdvd hx), ← Nat.div_mul_cancel (hdvd hy)]
    exact congrArg (· * 2 ^ MIN_ORDER) heq
  calc (lists k).length
      = ((lists k).map (· / 2 ^ MIN_ORDER)).toFinset.card := by
        rw [List.toFinset_card_of_nodup hinj, List.length_map]
    _ ≤ (Finset.range (HEAP_SIZE / 2 ^ MIN_ORDER)).card := Finset.card_le_card hsub
    _ = HEAP_SIZE / 2 ^ MIN_ORDER := Finset.card_range _

/-- The link before `y` is the head of its list or stands in a free block
of the same order. -/
theorem Inv.after_cases (h : Inv s b lists) (hl : lists k = pre ++ y :: post) :
    (pre = [] ∧ (Link.head k).after s.region pre = .head k) ∨
      ∃ pre' x, pre = pre' ++ [x] ∧ (Link.head k).after s.region pre = .next (s.region + x) ∧
        b x = some ⟨k, .free⟩ ∧ x ≠ y := by
  rcases List.eq_nil_or_concat' pre with rfl | ⟨pre', x, rfl⟩
  · exact Or.inl ⟨rfl, rfl⟩
  · have hx : x ∈ lists k := by simp [hl]
    have hnodup := h.nodup k
    rw [hl] at hnodup
    refine Or.inr ⟨pre', x, rfl, Link.after_append _ _ _ _, h.mem_lists.1 hx, ?_⟩
    rintro rfl
    simp [List.nodup_append] at hnodup

/-- Taking `y` off its list touches its own header and one next pointer. -/
theorem Inv.memory_unlink (h : Inv s b lists) (hl : lists k = pre ++ y :: post)
    (hy : a < s.region + y ∨ s.region + y + HEADER_SIZE ≤ a)
    (hx : ∀ pre' x, pre = pre' ++ [x] → a < s.region + x + 8 ∨ s.region + x + HEADER_SIZE ≤ a) :
    (unlink s (s.region + y) ((Link.head k).after s.region pre)).memory a = s.memory a := by
  refine memory_unlink_of_outside hy ?_
  intro q hq
  rcases h.after_cases hl with ⟨-, hafter⟩ | ⟨pre', x, hpre, hafter, -, -⟩
  · rw [hafter] at hq
    cases hq
  · rw [hafter] at hq
    cases hq
    exact hx pre' x hpre

/-- `RemoveFree` clears the flag of the block and leaves the rest of its label. -/
theorem Inv.labelled_unlink (h : Inv s b lists) (hl : lists k = pre ++ y :: post) :
    Labelled (unlink s (s.region + y) ((Link.head k).after s.region pre)) (s.region + y) k
      .held := by
  have hy : b y = some ⟨k, .free⟩ := h.mem_lists.1 (by simp [hl])
  have hlabel := h.header hy (by decide)
  have hsize : HEADER_SIZE = 16 := rfl
  have hkept : ByteMemory.AgreeOn s.memory
      (unlink s (s.region + y) ((Link.head k).after s.region pre)).memory (s.region + y) 5 := by
    intro a hlo hhi
    simp only [unlink, setIsFree, setNextFree]
    rw [ByteMemory.store_of_outside (by omega), ByteMemory.store_of_outside (by omega)]
    rcases h.after_cases hl with ⟨-, hafter⟩ | ⟨pre', x, -, hafter, hx, hne⟩
    · rw [hafter]
      rfl
    · have hapart := h.header_apart hx hy hne
      rw [hafter]
      exact ByteMemory.store_of_outside (by omega)
  refine ⟨(ByteMemory.load_congr (hkept.mono (Nat.le_refl _) (by omega))).trans hlabel.magic,
    (ByteMemory.load_congr (hkept.mono (by omega) (by omega))).trans hlabel.order, ?_⟩
  exact ByteMemory.load_store_of_lt (by decide)

/-- A block that is neither `y` nor the one before it keeps its next pointer. -/
theorem Inv.nextFree_unlink_of_ne (h : Inv s b lists) (hl : lists k = pre ++ y :: post)
    (ho' : b o' = some blk) (hne : o' ≠ y) (hnx : ∀ pre' x, pre = pre' ++ [x] → o' ≠ x) :
    nextFree (unlink s (s.region + y) ((Link.head k).after s.region pre)) (s.region + o') =
      nextFree s (s.region + o') := by
  have hsize : HEADER_SIZE = 16 := rfl
  refine ByteMemory.load_congr fun a hlo hhi => ?_
  have hapart := h.header_apart ho' (h.mem_lists.1 (by simp [hl] : y ∈ lists k)) hne
  rw [h.memory_unlink hl (by omega)]
  intro pre' x hpre
  have hapart' := h.header_apart ho' (h.mem_lists.1 (by simp [hl, hpre] : x ∈ lists k))
    (hnx pre' x hpre)
  omega

/-- The list without `y` is linked after `y` was taken off. -/
theorem Inv.linked_unlink (h : Inv s b lists) (hl : lists k = pre ++ y :: post)
    (hs' : s' = unlink s (s.region + y) ((Link.head k).after s.region pre)) :
    Segment s' (s'.freeLists k) (pre ++ post) 0 := by
  have hnext : ∀ {o'}, o' ∈ lists k → o' ≠ y → (∀ pre' x, pre = pre' ++ [x] → o' ≠ x) →
      nextFree s' (s.region + o') = nextFree s (s.region + o') :=
    fun hmem hne hnx => hs' ▸ h.nextFree_unlink_of_ne hl (h.mem_lists.1 hmem) hne hnx
  have hregion : s'.region = s.region := hs' ▸ region_unlink ..
  have hnodup := h.nodup k
  have hseg := h.linked k
  rw [hl] at hnodup hseg
  obtain ⟨r, hpre, hr, hpost⟩ := (segment_append s _ _ _ _).1 hseg
  rw [List.nodup_append, List.nodup_cons] at hnodup
  obtain ⟨hnodupPre, ⟨hynot, -⟩, hdisjoint⟩ := hnodup
  have hnextPost : ∀ o' ∈ post, nextFree s' (s.region + o') = nextFree s (s.region + o') := by
    intro o' ho'
    refine hnext (by simp [hl, ho']) (fun heq => hynot (heq ▸ ho')) ?_
    rintro pre' x rfl rfl
    exact hdisjoint o' (by simp) o' (by simp [ho']) rfl
  rcases h.after_cases hl with ⟨rfl, hafter⟩ | ⟨pre', x, rfl, hafter, hxfree, hxy⟩
  · -- The head of the list pointed at `y`.
    have hhead : s'.freeLists k = nextFree s (s.region + y) := by
      rw [hs', hafter]
      exact Function.update_self ..
    rw [hhead, ← hr]
    exact hpost.congr hregion hnextPost
  · -- The block before `y` pointed at it.
    have hyfree : b y = some ⟨k, .free⟩ := h.mem_lists.1 (by simp [hl])
    have hapart := h.header_apart hxfree hyfree hxy
    have hsize : HEADER_SIZE = 16 := rfl
    have hhead : s'.freeLists k = s.freeLists k := by
      rw [hs', hafter]
      rfl
    obtain ⟨r', hpre', hr', hrx⟩ := (segment_append s _ _ _ _).1 hpre
    rw [hhead, List.append_assoc, segment_append]
    refine ⟨r', hpre'.congr hregion ?_, hr'.trans (by rw [hregion]), ?_⟩
    · intro o' ho'
      have hx' : o' ≠ x := by
        rintro rfl
        exact (List.nodup_append.1 hnodupPre).2.2 o' ho' o' (by simp) rfl
      refine hnext (by simp [hl, ho']) ?_ ?_
      · rintro rfl
        exact hdisjoint o' (by simp [ho']) o' (by simp) rfl
      · intro pre'' x' heq
        rw [(List.append_inj_right' heq rfl |> List.singleton_inj.1 : x = x')] at hx'
        exact hx'
    · have hlink : nextFree s' r' = nextFree s (s.region + y) := by
        rw [hr', hs', hafter]
        exact nextFree_unlink (by omega)
      rw [hlink, ← hr]
      exact hpost.congr hregion hnextPost

/-- The first eight bytes of every other header stay. -/
theorem Inv.agree_unlink (h : Inv s b lists) (hl : lists k = pre ++ y :: post) (hdvd : 32 ∣ o')
    (hne : o' ≠ y) :
    ByteMemory.AgreeOn s.memory
      (unlink s (s.region + y) ((Link.head k).after s.region pre)).memory (s.region + o') 8 := by
  have hsize : HEADER_SIZE = 16 := rfl
  have hdvd' := h.dvd (h.mem_lists.1 (by simp [hl] : y ∈ lists k))
  intro a hlo hhi
  rw [h.memory_unlink hl (by omega)]
  intro pre' x hpre
  have hdvd'' := h.dvd (h.mem_lists.1 (by simp [hl, hpre] : x ∈ lists k))
  omega

/-- The other lists stay linked. -/
theorem Inv.linked_unlink_of_ne (h : Inv s b lists) (hl : lists k = pre ++ y :: post)
    (hk : k' ≠ k) (hs' : s' = unlink s (s.region + y) ((Link.head k).after s.region pre)) :
    Segment s' (s'.freeLists k') (lists k') 0 := by
  subst hs'
  have hregion : (unlink s (s.region + y) ((Link.head k).after s.region pre)).region =
      s.region := region_unlink ..
  have hlists : (unlink s (s.region + y) ((Link.head k).after s.region pre)).freeLists k' =
      s.freeLists k' := by
    rw [unlink]
    rcases h.after_cases hl with ⟨-, hafter⟩ | ⟨-, x, -, hafter, -, -⟩ <;> rw [hafter]
    · exact Function.update_of_ne hk ..
    · rfl
  -- A block of this list is none of list `k`.
  have hother : ∀ {o' x}, o' ∈ lists k' → x ∈ lists k → o' ≠ x := by
    rintro o' _ hmem hx rfl
    have hfree := h.mem_lists.1 hmem
    rw [h.mem_lists.1 hx] at hfree
    cases hfree
    exact hk rfl
  rw [hlists]
  refine (h.linked k').congr hregion fun o' hmem => ?_
  exact h.nextFree_unlink_of_ne hl (h.mem_lists.1 hmem) (hother hmem (by simp [hl]))
    fun pre' x hpre => hother hmem (by simp [hl, hpre])

/-- `RemoveFree` finds every free block on the list of its order. -/
theorem Inv.remove (h : Inv s b lists) (hy : b y = some ⟨k, .free⟩) :
    ∃ s' lists', removeFree s (s.region + y) k = .ok (true, s') ∧
      Inv s' (Function.update b y (some ⟨k, .held⟩)) lists' ∧
      Keeps s b s' (Function.update b y (some ⟨k, .held⟩)) ∧
      Labelled s' (s.region + y) k .held ∧
      ∀ {x}, 32 ∣ x → x ≠ y → ByteMemory.AgreeOn s.memory s'.memory (s.region + x) 8 := by
  obtain ⟨pre, post, hl⟩ := List.append_of_mem (h.mem_lists.2 hy)
  have hnodup := h.nodup k
  have hlength := h.length_le k
  have hseg := h.linked k
  rw [hl] at hnodup hlength hseg
  have hynot : y ∉ pre := fun hmem =>
    (List.nodup_append.1 hnodup).2.2 y hmem y (by simp) rfl
  have hpost := (List.nodup_cons.1 (List.nodup_append.1 hnodup).2.1).1
  obtain ⟨s', hs'⟩ : ∃ s', s' = unlink s (s.region + y)
      ((Link.head k).after s.region pre) := ⟨_, rfl⟩
  have hregion : s'.region = s.region := hs' ▸ region_unlink ..
  have hused : s'.usedBytes = s.usedBytes := hs' ▸ usedBytes_unlink ..
  refine ⟨s', Function.update lists k (pre ++ post), ?_, h.relist hy hregion ?_
    (fun hne => absurd rfl hne) (h.linked_unlink hl hs')
    (fun k' hk => h.linked_unlink_of_ne hl hk hs') ?_ ?_
    (by rw [hused]; rfl), ⟨hregion, live_update hy (by decide), ?_⟩,
    hs' ▸ h.labelled_unlink hl, fun hdvd hne => hs' ▸ h.agree_unlink hl hdvd hne⟩
  · rw [removeFree, hs']
    refine removeFreeLoop_spec h.region_pos hynot ?_ hseg
    simp only [List.length_append, List.length_cons] at hlength
    omega
  · intro o' k' st'' hne ho' hst
    exact (h.header ho' hst).congr (hs' ▸ h.agree_unlink hl (h.dvd ho') hne)
  · intro o'
    by_cases hne : o' = y
    · simp [hne, hynot, hpost]
    · simp [hne, hl]
  · exact hnodup.sublist ((List.Sublist.refl pre).append (List.sublist_cons_self y post))
  · intro o' k' ho' a hlo hhi
    rw [hs', h.memory_unlink hl (h.payload_outside hy ho' hlo hhi)]
    intro pre' x hpre
    have hout := h.payload_outside (h.mem_lists.1 (by simp [hl, hpre] : x ∈ lists k)) ho' hlo hhi
    omega

/-! ## Where it starts, and what clients do -/

/-- Before the first block is pushed the operation holds the whole region. -/
theorem Inv.initial (memory : ByteMemory) {region : Nat} (hpos : 0 < region)
    (haligned : HEADER_SIZE ∣ region) (hle : region + HEAP_SIZE ≤ 2 ^ 64) :
    Inv ⟨memory, region, fun _ => 0, 0⟩
      (fun o => if o = 0 then some ⟨MAX_ORDER, .held⟩ else none) (fun _ => []) where
  region_pos := hpos
  region_aligned := haligned
  region_le := hle
  tiling := Tiling.single (by decide) _
  header := by
    intro o k st ho hst
    split at ho
    · cases ho
      exact absurd rfl hst
    · cases ho
  linked := fun _ => rfl
  mem_lists := by
    intro k o
    split <;> simp
  nodup := fun _ => List.nodup_nil
  used := by
    refine (Finset.sum_eq_zero fun o _ => ?_).symm
    dsimp only
    split <;> rfl

/-- A client writes a byte. -/
def writeByte (s : State) (a : Nat) (byte : BitVec 8) : State :=
  { s with memory := Function.update s.memory a byte }

/-- A client may write what it likes into the payload of its block. -/
theorem Inv.write (h : Inv s b lists) (ho : b o = some ⟨k, .live⟩)
    (hlo : s.region + o + HEADER_SIZE ≤ a) (hhi : a < s.region + o + 2 ^ k) (byte : BitVec 8) :
    Inv (writeByte s a byte) b lists := by
  have hagree : ∀ {o' blk}, b o' = some blk → ByteMemory.AgreeOn s.memory
      (Function.update s.memory a byte) (s.region + o') HEADER_SIZE := by
    intro o' blk ho' x hx hx'
    have hout := h.payload_outside ho' ho hlo hhi
    exact Function.update_of_ne (by omega) ..
  refine { h with header := ?_, linked := ?_ }
  · intro o' k' st ho' hst
    exact (h.header ho' hst).congr ((hagree ho').mono (Nat.le_refl _)
      (Nat.add_le_add_left eight_le_HEADER_SIZE _))
  · intro k'
    exact (h.linked k').congr rfl fun o' hmem =>
      (fields_congr (hagree (h.mem_lists.1 hmem))).2.2.2

end X64HK.Heap
