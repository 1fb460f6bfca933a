import X64HK.Boot.MultibootParse

/-!
# The walk over the tags of a Multiboot2 block

The loop of `ParseV2` goes from tag to tag by the sizes that the loader wrote,
and the end of the block is its only other guard.  Nothing is assumed about the
bytes of the block here.

* `parseLoop_eq_ok_iff`: the loop folds its body over the tags that it visits.
* `returns_iff`: it returns unless a tag has size zero or entries of size zero.
* `entriesInside_iff`: when the entries of the memory map are inside its tag.
* `tag_walk_robust_iff` puts these together.
-/

namespace X64HK.Multiboot.V2

open ByteMemory RecordWalk

/-- The condition of the loop. -/
def Goes (m : ByteMemory) (stop tag : Nat) : Prop := tag < stop ∧ tagType m tag ≠ .stop

instance (m : ByteMemory) (stop : Nat) : DecidablePred (Goes m stop) :=
  fun _ => inferInstanceAs (Decidable (_ ∧ _))

/-- The address behind the block. -/
def blockEnd (m : ByteMemory) (info : Nat) : Nat := info + u32 m info

/-- The loop evaluates its condition for this tag. -/
def Reached (m : ByteMemory) (info tag : Nat) : Prop :=
  Reaches (Goes m (blockEnd m info)) (next m) (info + 8) tag

/-- The loop visits the tags and ends. -/
def Visits (m : ByteMemory) (info : Nat) (tags : List Nat) : Prop :=
  Walks (Goes m (blockEnd m info)) (next m) (info + 8) tags

variable {m : ByteMemory} {info stop tag fuel : Nat} {tags : List Nat} {st st' : Statics}

/-- `EntrySize` of a memory map tag. -/
def entrySize (m : ByteMemory) (tag : Nat) : Nat := u32 m (tag + 8)

/-- The body does not divide by zero at this tag. -/
def Divides (m : ByteMemory) (tag : Nat) : Prop :=
  tagType m tag = .memoryMap → entrySize m tag ≠ 0

theorem parseTag_eq_ok (h : Divides m tag) : parseTag m st tag = .ok (recordTag m st tag) :=
  if_neg fun hzero => h hzero.1 hzero.2

theorem parseTag_eq_error (h : ¬Divides m tag) : parseTag m st tag = .error .divideError := by
  unfold Divides at h
  rw [Classical.not_imp, not_not] at h
  exact if_pos h

/-- One round of the loop. -/
theorem parseLoop_succ (m : ByteMemory) (stop : Nat) (st : Statics) (tag fuel : Nat) :
    parseLoop m stop st tag (fuel + 1) =
      if Goes m stop tag then parseTag m st tag >>= fun st => parseLoop m stop st (next m tag) fuel
      else .ok st := rfl

theorem parseLoop_eq_ok_iff :
    parseLoop m stop st tag fuel = .ok st' ↔
      ∃ tags, Walks (Goes m stop) (next m) tag tags ∧ tags.length < fuel ∧
        (∀ tag ∈ tags, Divides m tag) ∧ tags.foldl (recordTag m) st = st' := by
  induction fuel generalizing st tag with
  | zero => exact iff_of_false nofun fun ⟨_, _, hlt, _⟩ => absurd hlt (Nat.not_lt_zero _)
  | succ fuel ih =>
    rw [parseLoop_succ]
    by_cases hgo : Goes m stop tag
    · rw [if_pos hgo, bind_ok_iff]
      constructor
      · rintro ⟨st₁, htag, hloop⟩
        obtain ⟨tags, hwalk, hlt, hdivides, hfold⟩ := ih.1 hloop
        have hfirst : Divides m tag := by
          by_contra hnot
          cases (parseTag_eq_error hnot).symm.trans htag
        obtain rfl := Except.ok.inj ((parseTag_eq_ok hfirst).symm.trans htag)
        exact ⟨tag :: tags, .step hgo hwalk, Nat.succ_lt_succ hlt,
          List.forall_mem_cons.2 ⟨hfirst, hdivides⟩, hfold⟩
      · rintro ⟨tags, hwalk, hlt, hdivides, hfold⟩
        cases hwalk with
        | done hnot => exact absurd hgo hnot
        | step _ hwalk =>
          obtain ⟨hfirst, hrest⟩ := List.forall_mem_cons.1 hdivides
          exact ⟨_, parseTag_eq_ok hfirst,
            ih.2 ⟨_, hwalk, Nat.lt_of_succ_lt_succ hlt, hrest, hfold⟩⟩
    · rw [if_neg hgo]
      constructor
      · intro h
        exact ⟨[], .done hgo, Nat.succ_pos _, List.forall_mem_nil _, Except.ok.inj h⟩
      · rintro ⟨tags, hwalk, -, -, rfl⟩
        cases hwalk with
        | done => rfl
        | step hgo' _ => exact absurd hgo' hgo

/-- A loop that does not return runs for ever or traps at a tag that it gets
to. -/
theorem parseLoop_error {halt : Halt} (h : parseLoop m stop st tag fuel = .error halt) :
    halt = .outOfFuel ∨ halt = .divideError ∧
      ∃ tag', Reaches (Goes m stop) (next m) tag tag' ∧ Goes m stop tag' ∧ ¬Divides m tag' := by
  induction fuel generalizing st tag with
  | zero => exact .inl (Except.error.inj h).symm
  | succ fuel ih =>
    rw [parseLoop_succ] at h
    split at h
    · rename_i hgo
      by_cases hdivides : Divides m tag
      · rw [parseTag_eq_ok hdivides] at h
        refine (ih h).imp_right fun ⟨htrap, tag', hreach, htag'⟩ => ?_
        exact ⟨htrap, tag', hreach.head hgo, htag'⟩
      · rw [parseTag_eq_error hdivides] at h
        exact .inr ⟨(Except.error.inj h).symm, tag, .refl, hgo, hdivides⟩
    · cases h

/-! ## Progress -/

theorem next_mod (m : ByteMemory) (tag : Nat) : next m tag % 8 = 0 := Nat.mul_mod_left _ _

theorem le_next (haligned : tag % 8 = 0) : tag ≤ next m tag := by
  unfold next
  omega

/-- A tag that has a size is followed by another one eight bytes further at
least. -/
theorem next_eq_iff (haligned : tag % 8 = 0) : next m tag = tag ↔ tagSize m tag = 0 := by
  unfold next
  omega

theorem Reached.aligned (h : Reached m info tag) (hinfo : info % 8 = 0) : tag % 8 = 0 := by
  cases h with
  | refl => omega
  | step _ _ => exact next_mod m _

theorem Reached.above (h : Reached m info tag) (hinfo : info % 8 = 0) : info + 8 ≤ tag := by
  unfold Reached at h
  induction h with
  | refl => exact Nat.le_refl _
  | step hreach _ ih => exact Nat.le_trans ih (le_next (Reached.aligned hreach hinfo))

/-- The loop ends if and only if no tag that it gets to has size zero. -/
theorem exists_visits_iff (hinfo : info % 8 = 0) :
    (∃ tags, Visits m info tags) ↔
      ∀ tag, Reached m info tag → Goes m (blockEnd m info) tag → tagSize m tag ≠ 0 := by
  unfold Visits
  rw [exists_walks_iff (fun _ hgo => hgo.1) fun tag hreach =>
    le_next (Reached.aligned hreach hinfo)]
  refine forall₃_congr fun tag hreach _ => not_congr ?_
  exact next_eq_iff (Reached.aligned hreach hinfo)

/-- Every tag takes eight bytes of the block. -/
theorem Visits.length_le (h : Visits m info tags) (hinfo : info % 8 = 0) :
    tags.length ≤ u32 m info / 8 := by
  have hgeneral : ∀ {tag : Nat} {tags : List Nat},
      Walks (Goes m (blockEnd m info)) (next m) tag tags → Reached m info tag →
      8 * tags.length ≤ blockEnd m info + 7 - tag := by
    intro tag tags hwalk
    induction hwalk with
    | done => exact fun _ => Nat.zero_le _
    | @step tag tags hgo hrest ih =>
      intro hreach
      have haligned := hreach.aligned hinfo
      have hrest' := ih (.step hreach hgo)
      have hnext : tag + 8 ≤ next m tag := by
        have hne := (Walks.step hgo hrest).next_ne tag List.mem_cons_self
        rw [Ne, next_eq_iff haligned] at hne
        unfold next
        omega
      have hlt := hgo.1
      rw [List.length_cons]
      omega
  have hle := hgeneral h .refl
  unfold blockEnd at hle
  omega

/-- `ParseV2` has rounds enough. -/
theorem parse_eq_ok_iff (hinfo : info % 8 = 0) :
    parse m info = .ok st' ↔
      ∃ tags, Visits m info tags ∧ (∀ tag ∈ tags, Divides m tag) ∧
        tags.foldl (recordTag m) { standard := .v2 } = st' := by
  unfold parse
  rw [parseLoop_eq_ok_iff]
  constructor
  · rintro ⟨tags, hwalk, -, hrest⟩
    exact ⟨tags, hwalk, hrest⟩
  · rintro ⟨tags, hwalk, hrest⟩
    exact ⟨tags, hwalk, Nat.lt_succ_of_le (Visits.length_le hwalk hinfo), hrest⟩

/-! ## The memory map -/

/-- The statics that describe the memory map. -/
def mapPart (st : Statics) : Nat × Nat × Nat :=
  (st.memoryMapEntries, st.memoryMapEntrySize, st.memoryRegionCount)

/-- The number of entries that the body of the loop computes. -/
def entryCount (m : ByteMemory) (tag : Nat) : Nat :=
  sub64 (tagSize m tag) 16 / entrySize m tag % 2 ^ 32

theorem recordTag_mapPart (m : ByteMemory) (st : Statics) (tag : Nat) :
    mapPart (recordTag m st tag) =
      if tagType m tag = .memoryMap then (tag + 16, entrySize m tag, entryCount m tag)
      else mapPart st := by
  unfold recordTag
  obtain ⟨type, htype⟩ : ∃ type, tagType m tag = type := ⟨_, rfl⟩
  simp only [htype]
  cases type with
  | memoryMap => rfl
  | module => simp only [reduceCtorEq, if_false]; split <;> rfl
  | acpiOld => simp only [reduceCtorEq, if_false]; split <;> rfl
  | _ => rfl

/-- The memory map is the one of the last tag. -/
theorem foldl_mapPart (tags : List Nat) :
    mapPart (tags.foldl (recordTag m) { standard := .v2 }) =
      ((tags.filter (tagType m · = .memoryMap)).getLast?.map fun tag =>
        (tag + 16, entrySize m tag, entryCount m tag)).getD (0, 0, 0) :=
  foldl_last mapPart (recordTag_mapPart m) tags _

/-- Every entry that `GetMemoryRegion` reads is inside this tag. -/
def EntriesInside (m : ByteMemory) (st : Statics) (tag : Nat) : Prop :=
  ∀ i < st.memoryRegionCount,
    tag ≤ memoryMapEntry st i ∧ memoryMapEntry st i + st.memoryMapEntrySize ≤ tag + tagSize m tag

theorem tagSize_lt (m : ByteMemory) (tag : Nat) : tagSize m tag < 2 ^ 32 := u32_lt m _

/-- The wrapped difference of a size below 16 has a multiple of `2 ^ 32` entries
only for the largest entry size. -/
theorem wrapped_quotient_iff {size entry : Nat} (hsize : size < 16) (hpos : entry ≠ 0)
    (hentry : entry < 2 ^ 32) :
    (2 ^ 64 - 16 + size) / entry % 2 ^ 32 = 0 ↔ size ≤ 14 ∧ entry = 2 ^ 32 - 1 := by
  constructor
  · intro hzero
    obtain ⟨k, hk⟩ := Nat.dvd_of_mod_eq_zero hzero
    have hlow := Nat.mul_div_le (2 ^ 64 - 16 + size) entry
    have hhigh := Nat.lt_mul_div_succ (2 ^ 64 - 16 + size) (Nat.pos_of_ne_zero hpos)
    rw [hk] at hlow hhigh
    rw [Nat.mul_succ] at hhigh
    have hassoc : entry * (2 ^ 32 * k) = 2 ^ 32 * (entry * k) := Nat.mul_left_comm _ _ _
    -- the product is `2 ^ 32 - 1`, and the entry size is more than half of it
    have hone : k = 1 := by
      rcases k with _ | _ | k
      · omega
      · rfl
      · have htwice : entry * (k + 1 + 1) = entry * k + entry * 2 := Nat.mul_add _ _ 2
        omega
    subst hone
    omega
  · rintro ⟨hle, rfl⟩
    have hquot : (2 ^ 64 - 16 + size) / (2 ^ 32 - 1) = 2 ^ 32 :=
      Nat.div_eq_of_lt_le (by omega) (by omega)
    rw [hquot, Nat.mod_self]

/-- The rest of a memory map tag behind its header is not negative.  The one
exception is a size of entries so large that the wrapped difference has `2 ^ 32`
of them, of which the low half is kept. -/
def RoomForHeader (m : ByteMemory) (tag : Nat) : Prop :=
  16 ≤ tagSize m tag ∨ tagSize m tag ≤ 14 ∧ entrySize m tag = 2 ^ 32 - 1

theorem entryCount_eq_zero_iff (hpos : entrySize m tag ≠ 0) (hlt : tagSize m tag < 16) :
    entryCount m tag = 0 ↔ tagSize m tag ≤ 14 ∧ entrySize m tag = 2 ^ 32 - 1 := by
  have hwrapped : sub64 (tagSize m tag) 16 = 2 ^ 64 - 16 + tagSize m tag := by
    unfold sub64
    omega
  rw [← wrapped_quotient_iff hlt hpos (u32_lt m _), entryCount, hwrapped]

/-- The entries fill the rest of the tag at most, as long as there is a rest. -/
theorem entriesInside_iff (hpos : entrySize m tag ≠ 0)
    (hmap : mapPart st = (tag + 16, entrySize m tag, entryCount m tag)) :
    EntriesInside m st tag ↔ RoomForHeader m tag := by
  obtain ⟨hentries, hsize, hcount⟩ : st.memoryMapEntries = tag + 16 ∧
      st.memoryMapEntrySize = entrySize m tag ∧ st.memoryRegionCount = entryCount m tag := by
    simpa [mapPart] using hmap
  unfold EntriesInside memoryMapEntry RoomForHeader
  rw [hentries, hsize, hcount]
  by_cases hle : 16 ≤ tagSize m tag
  · refine iff_of_true (fun i hi => ?_) (.inl hle)
    have hsize' := tagSize_lt m tag
    have hquot : entryCount m tag ≤ (tagSize m tag - 16) / entrySize m tag := by
      unfold entryCount
      rw [sub64_of_le (Nat.lt_trans hsize' (by decide)) hle]
      exact Nat.mod_le _ _
    have hfill : (i + 1) * entrySize m tag ≤ tagSize m tag - 16 :=
      Nat.le_trans (Nat.mul_le_mul_right _ (Nat.le_trans hi hquot)) (Nat.div_mul_le_self _ _)
    rw [Nat.succ_mul] at hfill
    rw [Nat.mod_eq_of_lt (by omega)]
    omega
  · rw [or_iff_right hle, ← entryCount_eq_zero_iff hpos (Nat.lt_of_not_le hle)]
    constructor
    · intro hinside
      by_contra hnot
      have hfirst := (hinside 0 (Nat.pos_of_ne_zero hnot)).2
      rw [Nat.zero_mul, Nat.zero_mod] at hfirst
      omega
    · intro hzero i hi
      exact absurd (hzero ▸ hi) (Nat.not_lt_zero i)

/-! ## What is read of a tag -/

/-- The fields that the loop reads of a tag that it gets to: the type, and if it
goes on the size and what the body needs. -/
def tagReads (m : ByteMemory) (stop tag : Nat) : List Range :=
  if tag < stop then
    ⟨tag, tag + 4⟩ ::
      if tagType m tag = .stop then []
      else
        ⟨tag + 4, tag + 8⟩ ::
          match tagType m tag with
          | .memoryMap => [⟨tag + 8, tag + 12⟩]
          | .framebuffer =>
            [⟨tag + 8, tag + 16⟩, ⟨tag + 16, tag + 20⟩, ⟨tag + 20, tag + 24⟩,
              ⟨tag + 24, tag + 28⟩, ⟨tag + 28, tag + 29⟩, ⟨tag + 29, tag + 30⟩]
          | _ => []
  else []

/-- The number of bytes from the start of a tag to the last one that is read. -/
def readSize (m : ByteMemory) (tag : Nat) : Nat :=
  match tagType m tag with
  | .stop => 4
  | .memoryMap => 12
  | .framebuffer => 30
  | _ => 8

theorem tagReads_inside_iff (m : ByteMemory) (hle : info ≤ tag) :
    (∀ range ∈ tagReads m stop tag, info ≤ range.start ∧ range.stop ≤ stop) ↔
      (tag < stop → tag + readSize m tag ≤ stop) := by
  unfold tagReads readSize
  by_cases hlt : tag < stop
  · rw [if_pos hlt]
    obtain ⟨type, htype⟩ : ∃ type, tagType m tag = type := ⟨_, rfl⟩
    simp only [htype, hlt, forall_const]
    cases type <;>
      simp only [if_true, reduceCtorEq, if_false, List.forall_mem_cons, List.not_mem_nil,
        false_implies, implies_true, and_true] <;>
      omega
  · rw [if_neg hlt]
    exact iff_of_true (List.forall_mem_nil _) fun h => absurd h hlt

/-! ## Robustness -/

/-- What the walk must do, whatever the block contains. -/
structure Robust (m : ByteMemory) (info : Nat) : Prop where
  terminates : ∃ fuel, parseLoop m (blockEnd m info) { standard := .v2 } (info + 8) fuel ≠
    .error .outOfFuel
  divides : ∀ fuel, parseLoop m (blockEnd m info) { standard := .v2 } (info + 8) fuel ≠
    .error .divideError
  reads : ∀ tag, Reached m info tag → ∀ range ∈ tagReads m (blockEnd m info) tag,
    info ≤ range.start ∧ range.stop ≤ blockEnd m info
  entries : ∀ st, parse m info = .ok st → st.memoryRegionCount ≠ 0 →
    ∃ tag, Reached m info tag ∧ Goes m (blockEnd m info) tag ∧ tagType m tag = .memoryMap ∧
      st.memoryMapEntries = tag + 16 ∧ EntriesInside m st tag

/-- What the tags of a block must be like. -/
structure Sound (m : ByteMemory) (info : Nat) : Prop where
  sizes : ∀ tag, Reached m info tag → Goes m (blockEnd m info) tag → tagSize m tag ≠ 0
  fields : ∀ tag, Reached m info tag → tag < blockEnd m info →
    tag + readSize m tag ≤ blockEnd m info
  entrySizes : ∀ tag, Reached m info tag → Goes m (blockEnd m info) tag → Divides m tag
  lastMap : ∀ tags, Visits m info tags →
    ∀ tag ∈ (tags.filter (tagType m · = .memoryMap)).getLast?, RoomForHeader m tag

theorem Visits.mem_iff (h : Visits m info tags) :
    tag ∈ tags ↔ Reached m info tag ∧ Goes m (blockEnd m info) tag :=
  Walks.mem_iff h

/-- The loop returns if and only if no tag that it gets to has size zero or
entries of size zero. -/
theorem returns_iff (hinfo : info % 8 = 0) :
    ((∃ fuel, parseLoop m (blockEnd m info) { standard := .v2 } (info + 8) fuel ≠
        .error .outOfFuel) ∧
      ∀ fuel, parseLoop m (blockEnd m info) { standard := .v2 } (info + 8) fuel ≠
        .error .divideError) ↔
      ∀ tag, Reached m info tag → Goes m (blockEnd m info) tag →
        tagSize m tag ≠ 0 ∧ Divides m tag := by
  constructor
  · rintro ⟨⟨fuel, hends⟩, hdivides⟩ tag hreach hgo
    cases hloop : parseLoop m (blockEnd m info) { standard := .v2 } (info + 8) fuel with
    | error halt =>
      rcases parseLoop_error hloop with rfl | ⟨rfl, -⟩
      · exact absurd hloop hends
      · exact absurd hloop (hdivides fuel)
    | ok st =>
      obtain ⟨tags, hwalk, -, hall, -⟩ := parseLoop_eq_ok_iff.1 hloop
      exact ⟨(exists_visits_iff hinfo).1 ⟨tags, hwalk⟩ tag hreach hgo,
        hall tag (Visits.mem_iff hwalk |>.2 ⟨hreach, hgo⟩)⟩
  · intro hall
    obtain ⟨tags, hwalk⟩ := (exists_visits_iff hinfo).2 fun tag hreach hgo =>
      (hall tag hreach hgo).1
    refine ⟨⟨tags.length + 1, ?_⟩, fun fuel htrap => ?_⟩
    · have hdivides : ∀ tag ∈ tags, Divides m tag := fun tag htag =>
        (hall tag (hwalk.mem_iff.1 htag).1 (hwalk.mem_iff.1 htag).2).2
      rw [parseLoop_eq_ok_iff.2 ⟨tags, hwalk, Nat.lt_succ_self _, hdivides, rfl⟩]
      intro h
      cases h
    · rcases parseLoop_error htrap with hfuel | ⟨-, tag, hreach, hgo, hnot⟩
      · cases hfuel
      · exact hnot (hall tag hreach hgo).2

/-- The statics after the loop hold the memory map of the last tag. -/
theorem mapPart_of_last (hlast : (tags.filter (tagType m · = .memoryMap)).getLast? = some tag) :
    mapPart (tags.foldl (recordTag m) { standard := .v2 }) =
      (tag + 16, entrySize m tag, entryCount m tag) := by
  rw [foldl_mapPart, hlast]
  rfl

theorem mem_of_last (hlast : (tags.filter (tagType m · = .memoryMap)).getLast? = some tag) :
    tag ∈ tags ∧ tagType m tag = .memoryMap := by
  have hmem := List.mem_of_getLast? hlast
  rw [List.mem_filter, decide_eq_true_eq] at hmem
  exact hmem

/-- The entries are inside the tag that they were taken from. -/
theorem entries_iff (hinfo : info % 8 = 0) (hvisits : Visits m info tags)
    (hdivides : ∀ tag ∈ tags, Divides m tag) :
    (∀ st, parse m info = .ok st → st.memoryRegionCount ≠ 0 →
        ∃ tag, Reached m info tag ∧ Goes m (blockEnd m info) tag ∧ tagType m tag = .memoryMap ∧
          st.memoryMapEntries = tag + 16 ∧ EntriesInside m st tag) ↔
      ∀ tag ∈ (tags.filter (tagType m · = .memoryMap)).getLast?, RoomForHeader m tag := by
  have hparse : parse m info = .ok (tags.foldl (recordTag m) { standard := .v2 }) :=
    (parse_eq_ok_iff hinfo).2 ⟨tags, hvisits, hdivides, rfl⟩
  constructor
  · intro hentries last hlast
    have hmap := mapPart_of_last hlast
    obtain ⟨hmem, htype⟩ := mem_of_last hlast
    rw [← entriesInside_iff (hdivides last hmem htype) hmap]
    by_cases hcount : (tags.foldl (recordTag m) { standard := .v2 }).memoryRegionCount = 0
    · exact fun i hi => absurd (hcount ▸ hi) (Nat.not_lt_zero i)
    · obtain ⟨tag, -, -, -, hpointer, hinside⟩ := hentries _ hparse hcount
      obtain rfl : tag = last :=
        Nat.add_right_cancel (hpointer.symm.trans (congrArg Prod.fst hmap))
      exact hinside
  · intro hroom st hst hcount
    obtain rfl := Except.ok.inj (hparse.symm.trans hst)
    cases hlast : (tags.filter (tagType m · = .memoryMap)).getLast? with
    | none =>
      have hmap := foldl_mapPart (m := m) tags
      rw [hlast] at hmap
      exact absurd (congrArg (fun part => part.2.2) hmap) hcount
    | some tag =>
      have hmap := mapPart_of_last hlast
      obtain ⟨hmem, htype⟩ := mem_of_last hlast
      obtain ⟨hreach, hgo⟩ := hvisits.mem_iff.1 hmem
      exact ⟨tag, hreach, hgo, htype, congrArg Prod.fst hmap,
        (entriesInside_iff (hdivides tag hmem htype) hmap).2 (hroom tag hlast)⟩

/-- A command line, a map of two regions and a module. -/
def loadedBlock : ByteMemory := ofWords 0x130000
  [120, 0, 1, 12, 0x6B6378, 0, 6, 64, 24, 0, 0, 0, 0x9FC00, 0, 1, 0, 0x100000, 0, 0x40000, 0, 1, 0,
    3, 20, 0x131000, 0x132000, 0x6E, 0, 0, 8]

theorem loadedBlock_visits : Visits loadedBlock 0x130000 [0x130008, 0x130018, 0x130058] :=
  walks_of_loop (show loop _ _ _ [] (0x130000 + 8) 4 = _ by decide +kernel)

theorem loadedBlock_sound : Sound loadedBlock 0x130000 := by
  have hend : blockEnd loadedBlock 0x130000 = 0x130078 := by decide +kernel
  have hall : ∀ tag ∈ [0x130008, 0x130018, 0x130058], tagSize loadedBlock tag ≠ 0 ∧
      tag + readSize loadedBlock tag ≤ blockEnd loadedBlock 0x130000 ∧
      (tagType loadedBlock tag = .memoryMap →
        entrySize loadedBlock tag ≠ 0 ∧ 16 ≤ tagSize loadedBlock tag) := by
    decide +kernel
  have hmem : ∀ {tag}, Reached loadedBlock 0x130000 tag →
      Goes loadedBlock (blockEnd loadedBlock 0x130000) tag → tag ∈ [0x130008, 0x130018, 0x130058] :=
    fun hreach hgo => loadedBlock_visits.mem_iff.2 ⟨hreach, hgo⟩
  refine ⟨fun tag hreach hgo => (hall tag (hmem hreach hgo)).1, fun tag hreach hlt => ?_,
    fun tag hreach hgo htype => ((hall tag (hmem hreach hgo)).2.2 htype).1,
    fun tags hvisits tag htag => ?_⟩
  · by_cases hstop : tagType loadedBlock tag = .stop
    · have haligned := hreach.aligned (by decide)
      simp only [readSize, hstop]
      rw [hend] at hlt ⊢
      omega
    · exact (hall tag (hmem hreach ⟨hlt, hstop⟩)).2.1
  · obtain ⟨hvisited, htype⟩ := mem_of_last htag
    obtain ⟨hreach, hgo⟩ := hvisits.mem_iff.1 hvisited
    exact .inl ((hall tag (hmem hreach hgo)).2.2 htype).2

/-- For every aligned address and every content of the block, the walk is robust
exactly when the tags are sound. -/
theorem tag_walk_robust_iff (m : ByteMemory) (info : BitVec 32) (hinfo : info.toNat % 8 = 0) :
    Robust m info.toNat ↔ Sound m info.toNat := by
  constructor
  · intro h
    have hreturns := (returns_iff hinfo).1 ⟨h.terminates, h.divides⟩
    refine ⟨fun tag hreach hgo => (hreturns tag hreach hgo).1, fun tag hreach => ?_,
      fun tag hreach hgo => (hreturns tag hreach hgo).2, fun tags hvisits => ?_⟩
    · have hle := Nat.le_trans (Nat.le_add_right _ 8) (hreach.above hinfo)
      exact (tagReads_inside_iff m hle).1 (h.reads tag hreach)
    · refine (entries_iff hinfo hvisits fun tag htag => ?_).1 h.entries
      obtain ⟨hreach, hgo⟩ := hvisits.mem_iff.1 htag
      exact (hreturns tag hreach hgo).2
  · intro h
    obtain ⟨hterminates, hdivides⟩ := (returns_iff hinfo).2 fun tag hreach hgo =>
      ⟨h.sizes tag hreach hgo, h.entrySizes tag hreach hgo⟩
    obtain ⟨tags, hvisits⟩ := (exists_visits_iff hinfo).2 h.sizes
    refine ⟨hterminates, hdivides, fun tag hreach => ?_,
      (entries_iff hinfo hvisits fun tag htag => ?_).2 (h.lastMap tags hvisits)⟩
    · have hle := Nat.le_trans (Nat.le_add_right _ 8) (hreach.above hinfo)
      exact (tagReads_inside_iff m hle).2 (h.fields tag hreach)
    · obtain ⟨hreach, hgo⟩ := hvisits.mem_iff.1 htag
      exact h.entrySizes tag hreach hgo

theorem tag_walk_robust_iff_loadedBlock : Robust loadedBlock 0x130000 :=
  (tag_walk_robust_iff loadedBlock 0x130000 (by decide)).2 loadedBlock_sound

/-- A command line tag of size zero. -/
def stuckBlock : ByteMemory := ofWords 0x130000 [24, 0, 1, 0, 0, 8]

/-- A memory map tag with the size of its entries left zero. -/
def zeroEntryBlock : ByteMemory := ofWords 0x130000 [32, 0, 6, 16, 0, 0, 0, 8]

/-- A memory map tag that is shorter than its own header. -/
def shortMapBlock : ByteMemory := ofWords 0x130000 [32, 0, 6, 12, 24, 0, 0, 8]

theorem parseLoop_stuckBlock (st : Statics) (fuel : Nat) :
    parseLoop stuckBlock (blockEnd stuckBlock 0x130000) st 0x130008 fuel = .error .outOfFuel := by
  induction fuel generalizing st with
  | zero => rfl
  | succ fuel ih =>
    have hgo : Goes stuckBlock (blockEnd stuckBlock 0x130000) 0x130008 := by decide +kernel
    have hdivides : Divides stuckBlock 0x130008 := fun htype => absurd htype (by decide +kernel)
    have hnext : next stuckBlock 0x130008 = 0x130008 := by decide +kernel
    rw [parseLoop_succ, if_pos hgo, parseTag_eq_ok hdivides, hnext]
    exact ih _

/-- The loop never leaves a tag of size zero.  The other two blocks make it divide
by zero and leave more than a billion entries. -/
theorem tag_walk_not_robust :
    (∀ fuel, parseLoop stuckBlock (blockEnd stuckBlock 0x130000) { standard := .v2 } 0x130008
        fuel = .error .outOfFuel) ∧
      parse zeroEntryBlock 0x130000 = .error .divideError ∧
      ∃ st, parse shortMapBlock 0x130000 = .ok st ∧ 10 ^ 9 < st.memoryRegionCount := by
  exact ⟨parseLoop_stuckBlock _, by decide +kernel,
    exists_ok_of_check (fun st : Statics => 10 ^ 9 < st.memoryRegionCount) (by decide +kernel)⟩

end X64HK.Multiboot.V2
