import X64HK.Boot.MultibootWalk

/-!
# Reading back a Multiboot2 block

A loader writes tags one after the other, each padded to eight bytes, and
`ParseV2` and the accessors read them.  `Tag` is what a loader has to say,
`Tag.bytes` is how it is written, and `Block` says that a list of tags is in
memory.  Padding may be anything, and so may the bytes behind the last tag.

* `Block.visits`: the walk visits the tags that were written.
* `multiboot_round_trip`: the accessors return what was written.
-/

namespace X64HK.Multiboot.V2

open ByteMemory

/-! ## Tags and their bytes -/

/-- An entry of a memory map, with the bytes behind the type that later
revisions may use. -/
structure MapEntry where
  address : BitVec 64
  length : BitVec 64
  type : BitVec 32
  rest : List (BitVec 8)

namespace MapEntry

def bytes (entry : MapEntry) : List (BitVec 8) :=
  littleEndian 8 entry.address.toNat ++ littleEndian 8 entry.length.toNat ++
    littleEndian 4 entry.type.toNat ++ entry.rest

def region (entry : MapEntry) : MemoryRegion :=
  ⟨entry.address.toNat, entry.length.toNat, MemoryType.ofNat entry.type.toNat⟩

end MapEntry

/-- A tag as the loader means it. -/
inductive Tag where
  | cmdline (text : List (BitVec 8))
  | bootLoaderName (text : List (BitVec 8))
  | module (start stop : BitVec 32) (commandLine : List (BitVec 8))
  /-- The last bytes are less than an entry. -/
  | memoryMap (entrySize version : BitVec 32) (entries : List MapEntry) (rest : List (BitVec 8))
  | framebuffer (fields : List (BitVec 8))
  | acpiOld (rsdp : List (BitVec 8))
  | acpiNew (rsdp : List (BitVec 8))
  | unknown (type : BitVec 32) (contents : List (BitVec 8))

namespace Tag

/-- The number of the type. -/
def code : Tag → Nat
  | .cmdline _ => 1
  | .bootLoaderName _ => 2
  | .module .. => 3
  | .memoryMap .. => 6
  | .framebuffer _ => 8
  | .acpiOld _ => 14
  | .acpiNew _ => 15
  | .unknown type _ => type.toNat

def type (tag : Tag) : TagType := TagType.ofNat tag.code

/-- What stands behind the type and the size. -/
def payload : Tag → List (BitVec 8)
  | .cmdline text => text
  | .bootLoaderName text => text
  | .module start stop commandLine =>
    littleEndian 4 start.toNat ++ littleEndian 4 stop.toNat ++ commandLine
  | .memoryMap entrySize version entries rest =>
    littleEndian 4 entrySize.toNat ++ littleEndian 4 version.toNat ++
      entries.flatMap MapEntry.bytes ++ rest
  | .framebuffer fields => fields
  | .acpiOld rsdp => rsdp
  | .acpiNew rsdp => rsdp
  | .unknown _ contents => contents

def size (tag : Tag) : Nat := 8 + tag.payload.length

def bytes (tag : Tag) : List (BitVec 8) :=
  littleEndian 4 tag.code ++ littleEndian 4 tag.size ++ tag.payload

/-- What the format prescribes for a tag. -/
def WellFormed : Tag → Prop
  | .memoryMap entrySize _ entries rest =>
    24 ≤ entrySize.toNat ∧ (∀ entry ∈ entries, entry.bytes.length = entrySize.toNat) ∧
      rest.length < entrySize.toNat
  | .framebuffer fields => 24 ≤ fields.length
  | .unknown type _ => type.toNat ∉ [0, 1, 2, 3, 6, 8, 14, 15]
  | _ => True

/-! What a tag at `address` contributes to the answer of an accessor. -/

def asModule (address : Nat) : Tag → Option (Module × Nat)
  | .module start stop _ => some (⟨start.toNat, stop.toNat⟩, address + 16)
  | _ => none

def asRegions : Tag → Option (List MemoryRegion)
  | .memoryMap _ _ entries _ => some (entries.map MapEntry.region)
  | _ => none

/-- The payload of a tag of this type. -/
def pointer (type : TagType) (address : Nat) (tag : Tag) : Option Nat :=
  if tag.type = type then some (address + 8) else none

end Tag

/-! ## Blocks -/

/-- The address behind a tag and its padding. -/
def behind (address : Nat) (tag : Tag) : Nat := (address + tag.size + 7) / 8 * 8

/-- The tags with their addresses. -/
def layout : Nat → List Tag → List (Nat × Tag)
  | _, [] => []
  | address, tag :: tags => (address, tag) :: layout (behind address tag) tags

/-- The address behind all tags. -/
def layoutEnd : Nat → List Tag → Nat
  | address, [] => address
  | address, tag :: tags => layoutEnd (behind address tag) tags

/-- The tags are in memory at `info`, and a tag that ends the list is behind
them. -/
structure Block (m : ByteMemory) (info : Nat) (tags : List Tag) : Prop where
  aligned : info % 8 = 0
  formed : ∀ tag ∈ tags, tag.WellFormed
  held : ∀ located ∈ layout (info + 8) tags, Holds m located.1 located.2.bytes
  ended : Holds m (layoutEnd (info + 8) tags) (littleEndian 4 0 ++ littleEndian 4 8)
  covered : layoutEnd (info + 8) tags + 8 ≤ info + u32 m info

variable {m : ByteMemory} {info address : Nat} {tag : Tag} {tags : List Tag}
  {entries : List MapEntry}

theorem le_behind (address : Nat) (tag : Tag) : address + tag.size ≤ behind address tag := by
  unfold behind
  omega

theorem le_layoutEnd (tags : List Tag) : ∀ address, address ≤ layoutEnd address tags := by
  induction tags with
  | nil => exact fun _ => Nat.le_refl _
  | cons tag tags ih =>
    intro address
    exact Nat.le_trans (Nat.le_trans (Nat.le_add_right _ _) (le_behind address tag)) (ih _)

/-- Every tag is below the end of the layout and behind its start. -/
theorem mem_layout_bounds : ∀ {tags : List Tag} {address : Nat} {located : Nat × Tag},
    located ∈ layout address tags →
      address ≤ located.1 ∧ located.1 + located.2.size ≤ layoutEnd address tags := by
  intro tags
  induction tags with
  | nil => exact fun h => absurd h List.not_mem_nil
  | cons tag tags ih =>
    intro address located h
    have hbehind := le_behind address tag
    rcases List.mem_cons.1 h with rfl | h
    · exact ⟨Nat.le_refl _, Nat.le_trans hbehind (le_layoutEnd tags _)⟩
    · obtain ⟨hlo, hhi⟩ := ih h
      exact ⟨Nat.le_trans (Nat.le_trans (Nat.le_add_right _ _) hbehind) hlo, hhi⟩

theorem mem_of_mem_layout : ∀ {tags : List Tag} {address : Nat} {located : Nat × Tag},
    located ∈ layout address tags → located.2 ∈ tags := by
  intro tags
  induction tags with
  | nil => exact fun h => absurd h List.not_mem_nil
  | cons tag tags ih =>
    intro address located h
    rcases List.mem_cons.1 h with rfl | h
    · exact List.mem_cons_self
    · exact List.mem_cons_of_mem _ (ih h)

/-! ## Reading one tag -/

/-- A tag that is in memory, with a size of 32 bits. -/
structure Stands (m : ByteMemory) (address : Nat) (tag : Tag) : Prop where
  held : Holds m address tag.bytes
  formed : tag.WellFormed
  size_lt : tag.size < 2 ^ 32

theorem Tag.code_lt (tag : Tag) : tag.code < 2 ^ 32 := by
  cases tag with
  | unknown type _ => exact type.isLt
  | _ => simp [code]

theorem Stands.fields (h : Stands m address tag) :
    u32 m address = tag.code ∧ tagSize m address = tag.size ∧
      Holds m (address + 8) tag.payload := by
  have hheld := h.held
  unfold Tag.bytes at hheld
  rw [holds_append, holds_append, List.length_append, length_littleEndian,
    length_littleEndian] at hheld
  obtain ⟨⟨hcode, hsize⟩, hpayload⟩ := hheld
  exact ⟨load_of_holds_of_lt hcode tag.code_lt, load_of_holds_of_lt hsize h.size_lt, hpayload⟩

theorem Stands.tagType_eq (h : Stands m address tag) : tagType m address = tag.type := by
  rw [tagType, h.fields.1, Tag.type]

theorem Stands.next_eq (h : Stands m address tag) : next m address = behind address tag := by
  unfold next behind
  rw [h.fields.2.1]

/-- An unknown tag has none of the types that the walk looks at. -/
theorem Tag.type_unknown {value : BitVec 32} {contents : List (BitVec 8)}
    (h : (Tag.unknown value contents).WellFormed) :
    (Tag.unknown value contents).type = .basicMeminfo ∨
      (Tag.unknown value contents).type = .other value.toNat := by
  change value.toNat ∉ _ at h
  unfold type code TagType.ofNat
  split <;> simp_all

theorem Tag.type_ne_stop (h : tag.WellFormed) : tag.type ≠ .stop := by
  cases tag with
  | unknown value contents =>
    rcases type_unknown h with heq | heq
    · rw [heq]; exact nofun
    · rw [heq]; exact nofun
  | _ => exact nofun

/-- `GetModule` returns what the tag says. -/
theorem Stands.asModule_eq (h : Stands m address tag) {st : Statics} (hst : st.standard = .v2) :
    tag.asModule address =
      if tagType m address = .module then
        some (getModule m st address, getModuleCommandLine m st address)
      else none := by
  rw [h.tagType_eq]
  cases tag with
  | module start stop commandLine =>
    have hpayload := h.fields.2.2
    unfold Tag.payload at hpayload
    rw [holds_append, holds_append, length_littleEndian] at hpayload
    have hstart : u32 m (address + 8) = start.toNat :=
      load_of_holds_of_lt hpayload.1.1 start.isLt
    have hstop : u32 m (address + 12) = stop.toNat := load_of_holds_of_lt hpayload.1.2 stop.isLt
    have htype : (Tag.module start stop commandLine).type = .module := rfl
    rw [if_pos htype, getModule, getModuleCommandLine, if_pos hst, if_pos hst, hstart, hstop]
    rfl
  | unknown value contents =>
    rcases Tag.type_unknown h.formed with heq | heq
    · rw [heq]; rfl
    · rw [heq]; rfl
  | _ => rfl

/-! ## The memory map -/

/-- The region that an entry describes. -/
def regionAt (m : ByteMemory) (entry : Nat) : MemoryRegion :=
  ⟨u64 m entry, u64 m (entry + 8), MemoryType.ofNat (u32 m (entry + 16))⟩

/-- The regions of a memory map, given where its entries are, their size and
their number. -/
def regionsAt (m : ByteMemory) (part : Nat × Nat × Nat) : List MemoryRegion :=
  if part.1 = 0 then []
  else (List.range part.2.2).map fun i => regionAt m (part.1 + i * part.2.1 % 2 ^ 32)

theorem getMemoryRegions_eq {st : Statics} (hst : st.standard = .v2) :
    getMemoryRegions m st = regionsAt m (mapPart st) := by
  have hregion : ∀ i, getMemoryRegion m st i = regionAt m (memoryMapEntry st i) := by
    intro i
    unfold getMemoryRegion regionAt
    dsimp only
    rw [if_pos hst]
  unfold getMemoryRegions regionsAt mapPart
  rw [funext hregion]
  unfold memoryMapEntry
  dsimp only

/-- Without a memory map there are no regions. -/
theorem regionsAt_getD (last : Option Nat) :
    regionsAt m ((last.map fun tag => (tag + 16, entrySize m tag, entryCount m tag)).getD
        (0, 0, 0)) =
      (last.map fun tag => regionsAt m (tag + 16, entrySize m tag, entryCount m tag)).getD [] := by
  cases last with
  | none => exact if_pos rfl
  | some tag => rw [Option.map_some, Option.map_some, Option.getD_some, Option.getD_some]

theorem MapEntry.region_eq {entry : MapEntry} (h : Holds m address entry.bytes) :
    regionAt m address = entry.region := by
  unfold bytes at h
  rw [holds_append, holds_append, holds_append, length_littleEndian, List.length_append,
    length_littleEndian, length_littleEndian] at h
  have haddress : u64 m address = entry.address.toNat :=
    load_of_holds_of_lt h.1.1.1 entry.address.isLt
  have hlength : u64 m (address + 8) = entry.length.toNat :=
    load_of_holds_of_lt h.1.1.2 entry.length.isLt
  have htype : u32 m (address + 16) = entry.type.toNat :=
    load_of_holds_of_lt h.1.2 entry.type.isLt
  rw [regionAt, haddress, hlength, htype, region]

theorem length_flatMap_bytes {size : Nat} (h : ∀ entry ∈ entries, entry.bytes.length = size) :
    (entries.flatMap MapEntry.bytes).length = entries.length * size := by
  induction entries with
  | nil => exact (Nat.zero_mul _).symm
  | cons entry entries ih =>
    rw [List.flatMap_cons, List.length_append, h entry List.mem_cons_self,
      ih fun e he => h e (List.mem_cons_of_mem _ he), List.length_cons, Nat.succ_mul, Nat.add_comm]

theorem Stands.entrySize_eq {entrySize' version : BitVec 32} {rest : List (BitVec 8)}
    (h : Stands m address (.memoryMap entrySize' version entries rest)) :
    entrySize m address = entrySize'.toNat := by
  have hpayload := h.fields.2.2
  unfold Tag.payload at hpayload
  rw [holds_append, holds_append, holds_append] at hpayload
  exact load_of_holds_of_lt hpayload.1.1.1 entrySize'.isLt

/-- The format prescribes entries of 24 bytes at least. -/
theorem Stands.divides (h : Stands m address tag) : Divides m address := by
  intro htype
  rw [h.tagType_eq] at htype
  cases tag with
  | memoryMap entrySize' version entries rest =>
    have hlarge := h.formed.1
    rw [h.entrySize_eq]
    omega
  | unknown value contents =>
    rcases Tag.type_unknown h.formed with heq | heq
    · cases heq.symm.trans htype
    · cases heq.symm.trans htype
  | _ => cases htype

/-- The entries of a memory map tag are read back. -/
theorem Stands.regionsAt_eq {entrySize' version : BitVec 32} {rest : List (BitVec 8)}
    (h : Stands m address (.memoryMap entrySize' version entries rest)) :
    regionsAt m (address + 16, entrySize m address, entryCount m address) =
      entries.map MapEntry.region := by
  obtain ⟨hlarge, hentries, hrest⟩ := h.formed
  obtain ⟨-, hsize, hpayload⟩ := h.fields
  have hlt := h.size_lt
  have hlength := length_flatMap_bytes hentries
  unfold Tag.payload at hpayload
  rw [holds_append, holds_append, holds_append, List.length_append, length_littleEndian,
    length_littleEndian] at hpayload
  have hentrySize := h.entrySize_eq
  have htagSize : (Tag.memoryMap entrySize' version entries rest).size =
      16 + (entries.length * entrySize'.toNat + rest.length) := by
    simp only [Tag.size, Tag.payload, List.length_append, length_littleEndian, hlength]
    omega
  have hcount : entryCount m address = entries.length := by
    unfold entryCount
    rw [hentrySize, hsize, htagSize, sub64_of_le (by omega) (by omega), Nat.add_sub_cancel_left,
      Nat.add_comm, Nat.add_mul_div_right _ _ (by omega), Nat.div_eq_of_lt hrest, Nat.zero_add]
    refine Nat.mod_eq_of_lt (Nat.lt_of_le_of_lt ?_ hlt)
    rw [htagSize]
    have hmul := Nat.le_mul_of_pos_right entries.length (show 0 < entrySize'.toNat by omega)
    omega
  unfold regionsAt
  rw [if_neg (Nat.succ_ne_zero _), hcount]
  refine List.ext_getElem (by simp) fun i hi hi' => ?_
  rw [List.length_map] at hi'
  rw [List.getElem_map, List.getElem_map, List.getElem_range]
  have hin : i * entrySize'.toNat ≤ entries.length * entrySize'.toNat :=
    Nat.mul_le_mul_right _ (Nat.le_of_lt hi')
  have hentry := holds_flatMap hentries hpayload.1.2 i hi'
  have hwrap : i * entrySize'.toNat % 2 ^ 32 = i * entrySize'.toNat :=
    Nat.mod_eq_of_lt (by omega)
  dsimp only
  rw [hentrySize, hwrap]
  exact MapEntry.region_eq hentry

theorem Stands.asRegions_eq (h : Stands m address tag) :
    tag.asRegions =
      if tagType m address = .memoryMap then
        some (regionsAt m (address + 16, entrySize m address, entryCount m address))
      else none := by
  rw [h.tagType_eq]
  cases tag with
  | memoryMap entrySize' version entries rest =>
    have htype : (Tag.memoryMap entrySize' version entries rest).type = .memoryMap := rfl
    rw [if_pos htype, h.regionsAt_eq]
    rfl
  | unknown value contents =>
    rcases Tag.type_unknown h.formed with heq | heq
    · rw [heq]; rfl
    · rw [heq]; rfl
  | _ => rfl

/-! ## The pointers -/

theorem recordTag_strings (m : ByteMemory) (st : Statics) (tag : Nat) :
    (recordTag m st tag).commandLine =
        (if tagType m tag = .cmdline then tag + 8 else st.commandLine) ∧
      (recordTag m st tag).bootLoaderName =
        if tagType m tag = .bootLoaderName then tag + 8 else st.bootLoaderName := by
  unfold recordTag
  obtain ⟨type, htype⟩ : ∃ type, tagType m tag = type := ⟨_, rfl⟩
  simp only [htype]
  cases type with
  | module => simp only [reduceCtorEq, if_false]; split <;> exact ⟨rfl, rfl⟩
  | acpiOld => simp only [reduceCtorEq, if_false]; split <;> exact ⟨rfl, rfl⟩
  | _ => exact ⟨rfl, rfl⟩

theorem recordTag_acpiRsdp (m : ByteMemory) (st : Statics) (tag : Nat) :
    (recordTag m st tag).acpiRsdp =
      if tagType m tag = .acpiNew ∨ tagType m tag = .acpiOld ∧ st.acpiRsdp = 0 then tag + 8
      else st.acpiRsdp := by
  unfold recordTag
  obtain ⟨type, htype⟩ : ∃ type, tagType m tag = type := ⟨_, rfl⟩
  simp only [htype]
  cases type with
  | module => simp only [reduceCtorEq, false_and, or_self, if_false]; split <;> rfl
  | acpiOld =>
    simp only [reduceCtorEq, true_and, false_or]
    split <;> rfl
  | _ => rfl

/-- The last new RSDP wins, and without one the first old RSDP. -/
theorem foldl_acpiRsdp (tags : List Nat) :
    ∀ st : Statics, (tags.foldl (recordTag m) st).acpiRsdp =
      ((tags.filter (tagType m · = .acpiNew)).getLast?.map (· + 8)).getD
        (if st.acpiRsdp = 0 then
          ((tags.filter (tagType m · = .acpiOld)).head?.map (· + 8)).getD 0
        else st.acpiRsdp) := by
  induction tags with
  | nil =>
    intro st
    split <;> simp_all
  | cons tag tags ih =>
    intro st
    rw [List.foldl_cons, ih, recordTag_acpiRsdp]
    by_cases hnew : tagType m tag = .acpiNew
    · have hold : tagType m tag ≠ .acpiOld := by rw [hnew]; exact nofun
      rw [List.filter_cons_of_pos (by simpa using hnew),
        List.filter_cons_of_neg (by simpa using hold), if_pos (Or.inl hnew),
        if_neg (Nat.succ_ne_zero _), List.getLast?_cons]
      cases (tags.filter (tagType m · = .acpiNew)).getLast? <;> rfl
    · rw [List.filter_cons_of_neg (l := tags) (by simpa using hnew)]
      by_cases hold : tagType m tag = .acpiOld
      · rw [List.filter_cons_of_pos (by simpa using hold), List.head?_cons]
        by_cases hnull : st.acpiRsdp = 0
        · rw [if_pos (Or.inr ⟨hold, hnull⟩), if_neg (Nat.succ_ne_zero _), if_pos hnull]
          rfl
        · rw [if_neg (not_or.2 ⟨hnew, fun hgo => hnull hgo.2⟩), if_neg hnull, if_neg hnull]
      · rw [List.filter_cons_of_neg (by simpa using hold),
          if_neg (not_or.2 ⟨hnew, fun hgo => hold hgo.1⟩)]

/-! ## The whole block -/

/-- What the accessors return for tags at these addresses. -/
structure RoundTrip (m : ByteMemory) (st : Statics) (located : List (Nat × Tag)) : Prop where
  /-- The payload of every tag is where it was written. -/
  payloads : ∀ x ∈ located, Holds m (x.1 + 8) x.2.payload
  /-- `GetModule`, with the pointer to the command line. -/
  modules : st.modules.map (fun entry => (getModule m st entry, getModuleCommandLine m st entry)) =
    (located.filterMap fun x => x.2.asModule x.1).take MAX_MODULES
  /-- `GetMemoryRegion`. -/
  regions : getMemoryRegions m st = (located.filterMap fun x => x.2.asRegions).getLast?.getD []
  commandLine : st.commandLine =
    (located.filterMap fun x => x.2.pointer .cmdline x.1).getLast?.getD 0
  bootLoaderName : st.bootLoaderName =
    (located.filterMap fun x => x.2.pointer .bootLoaderName x.1).getLast?.getD 0
  acpiRsdp : st.acpiRsdp =
    (located.filterMap fun x => x.2.pointer .acpiNew x.1).getLast?.getD
      ((located.filterMap fun x => x.2.pointer .acpiOld x.1).head?.getD 0)

/-- What is picked by address is picked by tag. -/
theorem map_filter_eq_filterMap {β : Type} {P : Nat → Prop} [DecidablePred P] {f : Nat → β}
    {pick : Nat × Tag → Option β} {located : List (Nat × Tag)}
    (h : ∀ x ∈ located, pick x = if P x.1 then some (f x.1) else none) :
    ((located.map Prod.fst).filter (P ·)).map f = located.filterMap pick := by
  induction located with
  | nil => rfl
  | cons x located ih =>
    have hrest := ih fun y hy => h y (List.mem_cons_of_mem _ hy)
    have hx := h x List.mem_cons_self
    rw [List.map_cons]
    by_cases hpick : P x.1
    · rw [if_pos hpick] at hx
      rw [List.filter_cons_of_pos (by simpa using hpick), List.map_cons, hrest,
        List.filterMap_cons_some hx]
    · rw [if_neg hpick] at hx
      rw [List.filter_cons_of_neg (by simpa using hpick), hrest, List.filterMap_cons_none hx]

theorem Block.stands (h : Block m info tags) {x : Nat × Tag} (hx : x ∈ layout (info + 8) tags) :
    Stands m x.1 x.2 := by
  refine ⟨h.held x hx, h.formed x.2 (mem_of_mem_layout hx), ?_⟩
  obtain ⟨hlo, hhi⟩ := mem_layout_bounds hx
  have hcovered := h.covered
  have htotal := u32_lt m info
  omega

/-- The walk visits the tags that were written. -/
theorem Block.visits (h : Block m info tags) :
    Visits m info ((layout (info + 8) tags).map Prod.fst) := by
  have hgeneral : ∀ {tags : List Tag} {address : Nat},
      (∀ x ∈ layout address tags, Stands m x.1 x.2) →
      layoutEnd address tags + 8 ≤ blockEnd m info →
      Holds m (layoutEnd address tags) (littleEndian 4 0 ++ littleEndian 4 8) →
      RecordWalk.Walks (Goes m (blockEnd m info)) (next m) address
        ((layout address tags).map Prod.fst) := by
    intro tags
    induction tags with
    | nil =>
      intro address _ _ hended
      refine .done fun hgo => hgo.2 ?_
      have hcode : u32 m address = 0 := load_of_holds (holds_append.1 hended).1
      rw [tagType, hcode]
      rfl
    | cons tag tags ih =>
      intro address hstands hcovered hended
      have hstand := hstands (address, tag) List.mem_cons_self
      have hend := Nat.le_trans (le_behind address tag) (le_layoutEnd tags _)
      refine .step ⟨?_, ?_⟩ ?_
      · change layoutEnd (behind address tag) tags + 8 ≤ _ at hcovered
        omega
      · rw [hstand.tagType_eq]
        exact Tag.type_ne_stop hstand.formed
      · rw [hstand.next_eq]
        exact ih (fun x hx => hstands x (List.mem_cons_of_mem _ hx)) hcovered hended
  exact hgeneral (fun x hx => h.stands hx) h.covered h.ended

/-- Whatever tags the loader writes, in whatever order, the accessors return what
was written. -/
theorem multiboot_round_trip (h : Block m info tags) :
    ∃ st, parse m info = .ok st ∧ RoundTrip m st (layout (info + 8) tags) := by
  have hstandard := foldl_recordTag_standard (m := m)
    ((layout (info + 8) tags).map Prod.fst) { standard := .v2 }
  have hdivides : ∀ tag ∈ (layout (info + 8) tags).map Prod.fst, Divides m tag :=
    List.forall_mem_map.2 fun x hx => (h.stands hx).divides
  refine ⟨_, (parse_eq_ok_iff h.aligned).2 ⟨_, h.visits, hdivides, rfl⟩, ?_⟩
  have hpointer : ∀ type, ((((layout (info + 8) tags).map Prod.fst).filter
      (tagType m · = type)).map (· + 8)) =
      (layout (info + 8) tags).filterMap fun x => x.2.pointer type x.1 := by
    intro type
    refine map_filter_eq_filterMap fun x hx => ?_
    rw [(h.stands hx).tagType_eq]
    rfl
  refine ⟨fun x hx => (h.stands hx).fields.2.2, ?_, ?_, ?_, ?_, ?_⟩
  · rw [foldl_recordTag_modules, List.nil_append, List.map_take,
      map_filter_eq_filterMap fun x hx => (h.stands hx).asModule_eq hstandard]
    rfl
  · rw [getMemoryRegions_eq hstandard, foldl_mapPart,
      ← map_filter_eq_filterMap (P := (tagType m · = .memoryMap))
        (f := fun tag => regionsAt m (tag + 16, entrySize m tag, entryCount m tag))
        fun x hx => (h.stands hx).asRegions_eq, List.getLast?_map]
    exact regionsAt_getD _
  · rw [← hpointer, List.getLast?_map]
    exact RecordWalk.foldl_last Statics.commandLine
      (fun st tag => (recordTag_strings m st tag).1) _ _
  · rw [← hpointer, List.getLast?_map]
    exact RecordWalk.foldl_last Statics.bootLoaderName
      (fun st tag => (recordTag_strings m st tag).2) _ _
  · rw [← hpointer, ← hpointer, List.getLast?_map, List.head?_map]
    exact foldl_acpiRsdp _ _

/-- Two RSDPs, the new one first, a module and a memory map with one entry. -/
def someTags : List Tag :=
  [.acpiNew [1], .module 0x200000 0x201000 [0], .acpiOld [2],
    .memoryMap 24 0 [⟨0x100000, 0x40000, 1, [0, 0, 0, 0]⟩] []]

/-- These tags at 0x130000. -/
def someBlock : ByteMemory :=
  ofWords 0x130000 ([112, 0] ++ [15, 9, 1, 0] ++ [3, 17, 0x200000, 0x201000, 0, 0] ++
    [14, 9, 2, 0] ++ [6, 40, 24, 0, 0x100000, 0, 0x40000, 0, 1, 0] ++ [0, 8])

theorem multiboot_round_trip_someBlock :
    ∃ st, parse someBlock 0x130000 = .ok st ∧
      RoundTrip someBlock st (layout (0x130000 + 8) someTags) := by
  refine multiboot_round_trip ⟨by decide, ?_, by decide +kernel, by decide +kernel,
    by decide +kernel⟩
  simp [someTags, Tag.WellFormed, MapEntry.bytes]

end X64HK.Multiboot.V2
