import X64HK.Boot.Multiboot
import X64HK.Debug.Panic
import X64HK.Lib.ByteMemory
import X64HK.Lib.RecordWalk

/-!
# Reading what the boot loader left

A model of `Kernel/Boot/Multiboot.cpp` over the bytes of memory.
`initializeStatics` walks the loader's structures once and keeps pointers into
them, and the accessors read through those pointers each time they are called.
Nothing is copied out.

Pointers are physical addresses, and zero is the null pointer.  The source adds
`DIRECT_MAP_BASE` to every address that is not zero, which changes neither the
alignment of a tag nor the distance between two pointers.

* `V2.parseLoop` is the walk over the tags of a Multiboot2 block.
* `V1.parse` reads the fixed structure of Multiboot1, whose tables and strings
  are anywhere in memory.
* `getMemoryRegions`, `getInfoRegions` and `getModules` are the lists that
  the loops of the frame allocator visit, and `handover` puts them together.
-/

namespace X64HK.Multiboot

open ByteMemory

def LOADER_MAGIC_V1 : Nat := 0x2BADB002

def LOADER_MAGIC_V2 : Nat := 0x36D76289

/-- `Multiboot::Standard`. -/
inductive Standard where
  | none
  | v1
  | v2
  deriving DecidableEq, Repr

/-- `Multiboot::Framebuffer`. -/
structure Framebuffer where
  address : Nat
  pitch : Nat
  width : Nat
  height : Nat
  bitsPerPixel : Nat
  type : Nat
  deriving DecidableEq, Repr

/-- The statics of `Multiboot.cpp`.  `s_ModuleCount` is the length of
`modules`. -/
structure Statics where
  standard : Standard := .none
  commandLine : Nat := 0
  bootLoaderName : Nat := 0
  acpiRsdp : Nat := 0
  memoryMapEntries : Nat := 0
  memoryMapEntrySize : Nat := 0
  memoryRegionCount : Nat := 0
  modules : List Nat := []
  framebuffer : Option Framebuffer := none
  deriving DecidableEq, Repr

/-- `ArraySize(s_Modules)`. -/
def MAX_MODULES : Nat := 16

/-- A field of type `uint32_t`. -/
def u32 (m : ByteMemory) (a : Nat) : Nat := load m a 4

/-- A field of type `uint64_t`. -/
def u64 (m : ByteMemory) (a : Nat) : Nat := load m a 8

theorem u32_lt (m : ByteMemory) (a : Nat) : u32 m a < 2 ^ 32 := load_lt m a 4

/-- The bytes of 32-bit words from `base` on, and zero elsewhere. -/
def ofWords (base : Nat) (words : List Nat) : ByteMemory := fun a =>
  if base ≤ a ∧ a < base + 4 * words.length then
    BitVec.ofNat 8 (words.getD ((a - base) / 4) 0 / 256 ^ ((a - base) % 4))
  else 0

/-- `strlen` of a string of the loader, which ends below the limit of the boot
map. -/
def strlen (m : ByteMemory) (a : Nat) : Nat :=
  stringLength m a Config.IDENTITY_MAPPED_LIMIT

/-! ## Multiboot2 -/

namespace V2

/-- `V2::TagType`. -/
inductive TagType where
  | stop
  | cmdline
  | bootLoaderName
  | module
  | basicMeminfo
  | memoryMap
  | framebuffer
  | acpiOld
  | acpiNew
  | other (value : Nat)
  deriving DecidableEq, Repr

def TagType.ofNat : Nat → TagType
  | 0 => .stop
  | 1 => .cmdline
  | 2 => .bootLoaderName
  | 3 => .module
  | 4 => .basicMeminfo
  | 6 => .memoryMap
  | 8 => .framebuffer
  | 14 => .acpiOld
  | 15 => .acpiNew
  | value => .other value

def tagType (m : ByteMemory) (tag : Nat) : TagType := TagType.ofNat (u32 m tag)

def tagSize (m : ByteMemory) (tag : Nat) : Nat := u32 m (tag + 4)

/-- `Tag::Next`.  Tags are padded to eight bytes. -/
def next (m : ByteMemory) (tag : Nat) : Nat := (tag + tagSize m tag + 7) / 8 * 8

/-- What the body of the loop of `ParseV2` keeps of a tag. -/
def recordTag (m : ByteMemory) (st : Statics) (tag : Nat) : Statics :=
  match tagType m tag with
  | .cmdline => { st with commandLine := tag + 8 }
  | .bootLoaderName => { st with bootLoaderName := tag + 8 }
  | .module =>
    if st.modules.length < MAX_MODULES then { st with modules := st.modules ++ [tag] } else st
  | .memoryMap =>
    { st with
      memoryMapEntries := tag + 16
      memoryMapEntrySize := u32 m (tag + 8)
      memoryRegionCount := sub64 (tagSize m tag) 16 / u32 m (tag + 8) % 2 ^ 32 }
  | .framebuffer =>
    { st with
      framebuffer := some
        { address := u64 m (tag + 8)
          pitch := u32 m (tag + 16)
          width := u32 m (tag + 20)
          height := u32 m (tag + 24)
          bitsPerPixel := load m (tag + 28) 1
          type := load m (tag + 29) 1 } }
  | .acpiOld => if st.acpiRsdp = 0 then { st with acpiRsdp := tag + 8 } else st
  | .acpiNew => { st with acpiRsdp := tag + 8 }
  | _ => st

/-- The body of the loop.  The number of entries of a memory map is a quotient,
and the processor traps when the size of an entry is zero. -/
def parseTag (m : ByteMemory) (st : Statics) (tag : Nat) : Outcome Statics :=
  if tagType m tag = .memoryMap ∧ u32 m (tag + 8) = 0 then .error .divideError
  else .ok (recordTag m st tag)

/-- The loop of `ParseV2` from `tag` on.  A tag of size zero would make it run
for ever, so it has a number of rounds to go. -/
def parseLoop (m : ByteMemory) (stop : Nat) : Statics → Nat → Nat → Outcome Statics
  | _, _, 0 => .error .outOfFuel
  | st, tag, fuel + 1 =>
    if tag < stop ∧ tagType m tag ≠ .stop then do
      parseLoop m stop (← parseTag m st tag) (next m tag) fuel
    else .ok st

/-- `ParseV2`.  Every tag has eight bytes at least. -/
def parse (m : ByteMemory) (info : Nat) : Outcome Statics :=
  parseLoop m (info + u32 m info) { standard := .v2 } (info + 8) (u32 m info / 8 + 1)

end V2

/-! ## Multiboot1 -/

namespace V1

def CMDLINE : Nat := 0x4
def MODULES : Nat := 0x8
def MEMORY_MAP : Nat := 0x40
def BOOT_LOADER_NAME : Nat := 0x200

def hasFlag (m : ByteMemory) (info flag : Nat) : Bool := u32 m info &&& flag ≠ 0

/-! The fields of `V1::Info` that are read. -/

def commandLine (m : ByteMemory) (info : Nat) : Nat := u32 m (info + 16)
def moduleCount (m : ByteMemory) (info : Nat) : Nat := u32 m (info + 20)
def moduleAddress (m : ByteMemory) (info : Nat) : Nat := u32 m (info + 24)

/-- `Syms[3]`. -/
def symsThree (m : ByteMemory) (info : Nat) : Nat := u32 m (info + 40)
def memoryMapLength (m : ByteMemory) (info : Nat) : Nat := u32 m (info + 44)
def memoryMapAddress (m : ByteMemory) (info : Nat) : Nat := u32 m (info + 48)

/-- `sizeof(V1::Info)`. -/
def INFO_SIZE : Nat := 52

/-- `sizeof(V1::MemoryMapEntry)`. -/
def MEMORY_MAP_ENTRY_SIZE : Nat := 24

/-- `sizeof(V1::ModuleEntry)`. -/
def MODULE_ENTRY_SIZE : Nat := 16

def hasMemoryMap (m : ByteMemory) (info : Nat) : Bool :=
  hasFlag m info MEMORY_MAP && decide (MEMORY_MAP_ENTRY_SIZE ≤ memoryMapLength m info)

/-- The size of an entry, taken from the first one. -/
def memoryMapEntrySize (m : ByteMemory) (info : Nat) : Nat :=
  (u32 m (memoryMapAddress m info) + 4) % 2 ^ 32

/-- The address of entry `i` of the module table. -/
def moduleEntry (m : ByteMemory) (info i : Nat) : Nat :=
  moduleAddress m info + MODULE_ENTRY_SIZE * i

/-- What `ParseV1` keeps.  Its four conditionals set statics of their own. -/
def recorded (m : ByteMemory) (info : Nat) : Statics where
  standard := .v1
  commandLine := if hasFlag m info CMDLINE then commandLine m info else 0
  bootLoaderName := if hasFlag m info BOOT_LOADER_NAME then symsThree m info else 0
  memoryMapEntries := if hasMemoryMap m info then memoryMapAddress m info else 0
  memoryMapEntrySize := if hasMemoryMap m info then memoryMapEntrySize m info else 0
  memoryRegionCount :=
    if hasMemoryMap m info then memoryMapLength m info / memoryMapEntrySize m info else 0
  modules :=
    if hasFlag m info MODULES then
      (List.range (min (moduleCount m info) MAX_MODULES)).map (moduleEntry m info)
    else []

/-- `ParseV1`.  The number of entries is a quotient here too. -/
def parse (m : ByteMemory) (info : Nat) : Outcome Statics :=
  if hasMemoryMap m info ∧ memoryMapEntrySize m info = 0 then .error .divideError
  else .ok (recorded m info)

end V1

/-- `Multiboot::Initialize`.  With another magic number it answers `false` and
no accessor has anything to tell. -/
def initializeStatics (m : ByteMemory) (magic info : Nat) : Outcome Statics :=
  if magic = LOADER_MAGIC_V2 then V2.parse m info
  else if magic = LOADER_MAGIC_V1 then V1.parse m info
  else .ok {}

/-! ## Accessors -/

def MemoryType.ofNat : Nat → MemoryType
  | 1 => .available
  | 2 => .reserved
  | 3 => .acpiReclaimable
  | 4 => .acpiNonVolatile
  | 5 => .bad
  | value => .other value

/-- Where `GetMemoryRegion` reads entry `i`.  The offset is a product of 32-bit
values. -/
def memoryMapEntry (st : Statics) (i : Nat) : Nat :=
  st.memoryMapEntries + i * st.memoryMapEntrySize % 2 ^ 32

def getMemoryRegion (m : ByteMemory) (st : Statics) (i : Nat) : MemoryRegion :=
  let entry := memoryMapEntry st i
  if st.standard = .v2 then
    ⟨u64 m entry, u64 m (entry + 8), MemoryType.ofNat (u32 m (entry + 16))⟩
  else
    ⟨u64 m (entry + 4), u64 m (entry + 12), MemoryType.ofNat (u32 m (entry + 20))⟩

/-- The regions for which `GetMemoryRegion` answers `true`. -/
def getMemoryRegions (m : ByteMemory) (st : Statics) : List MemoryRegion :=
  if st.memoryMapEntries = 0 then []
  else (List.range st.memoryRegionCount).map (getMemoryRegion m st)

/-- `Describe`. -/
def describe (start length : Nat) : MemoryRegion :=
  if start ≠ 0 ∧ length ≠ 0 then ⟨start, length, .reserved⟩ else ⟨0, 0, .reserved⟩

/-- The regions for which `GetInfoRegion` answers `true`. -/
def getInfoRegions (m : ByteMemory) (info : Nat) (st : Statics) : List MemoryRegion :=
  if info = 0 then []
  else
    match st.standard with
    | .none => []
    | .v2 => [describe info (u32 m info)]
    | .v1 =>
      [describe info V1.INFO_SIZE,
        describe (V1.memoryMapAddress m info) (V1.memoryMapLength m info),
        describe (V1.moduleAddress m info) (V1.moduleCount m info * V1.MODULE_ENTRY_SIZE),
        describe (V1.commandLine m info)
          (if st.commandLine ≠ 0 then strlen m st.commandLine + 1 else 0)]

def getModule (m : ByteMemory) (st : Statics) (entry : Nat) : Module :=
  if st.standard = .v2 then ⟨u32 m (entry + 8), u32 m (entry + 12)⟩
  else ⟨u32 m entry, u32 m (entry + 4)⟩

/-- The member `CommandLine` that `GetModule` fills in. -/
def getModuleCommandLine (m : ByteMemory) (st : Statics) (entry : Nat) : Nat :=
  if st.standard = .v2 then entry + 16 else u32 m (entry + 8)

/-- The modules for which `GetModule` answers `true`. -/
def getModules (m : ByteMemory) (st : Statics) : List Module :=
  st.modules.map (getModule m st)

/-- What the loader's structures and the rest of the machine tell the frame
allocator. -/
def handover (m : ByteMemory) (info : Nat) (st : Statics) (machine : Handover) : Handover :=
  { machine with
    memoryRegions := getMemoryRegions m st
    infoRegions := getInfoRegions m info st
    modules := getModules m st }

/-! ## Well-formed handovers -/

/-- A zero byte ends the string at `a` below four GiB. -/
def Terminated (m : ByteMemory) (a : Nat) : Prop :=
  ∃ k, a + k < Config.IDENTITY_MAPPED_LIMIT ∧ m (a + k) = 0

/-- The number of bytes of an RSDP.  Revision zero has 20, and a later one
tells its length itself. -/
def rsdpSize (m : ByteMemory) (rsdp : Nat) : Nat :=
  if m (rsdp + 15) = 0 then 20 else max 24 (u32 m (rsdp + 20))

namespace V2

/-- The contents of a tag are inside the tag. -/
def TagOk (m : ByteMemory) (tag : Nat) : Prop :=
  match tagType m tag with
  | .cmdline | .bootLoaderName => ∃ k, 8 + k < tagSize m tag ∧ m (tag + 8 + k) = 0
  | .module => ∃ k, 16 + k < tagSize m tag ∧ m (tag + 16 + k) = 0
  | .memoryMap => 16 ≤ tagSize m tag ∧ 24 ≤ u32 m (tag + 8)
  | .framebuffer => 32 ≤ tagSize m tag
  | .acpiOld | .acpiNew => 8 + rsdpSize m (tag + 8) ≤ tagSize m tag
  | _ => True

/-- The tags from `tag` on, up to the one that ends the list, are inside the
block that ends at `stop`. -/
inductive Chain (m : ByteMemory) (stop : Nat) : Nat → List Nat → Prop
  | done {tag : Nat} : tag + 8 ≤ stop → tagType m tag = .stop → tagSize m tag = 8 →
      Chain m stop tag []
  | tag {tag : Nat} {tags : List Nat} : tagType m tag ≠ .stop → 8 ≤ tagSize m tag →
      tag + tagSize m tag ≤ stop → TagOk m tag → Chain m stop (next m tag) tags →
      Chain m stop tag (tag :: tags)

structure WellFormed (m : ByteMemory) (info : Nat) (tags : List Nat) : Prop where
  info_ne_zero : info ≠ 0
  aligned : info % 8 = 0
  below : info + u32 m info ≤ Config.IDENTITY_MAPPED_LIMIT
  chain : Chain m (info + u32 m info) (info + 8) tags

/-- The modules of a Multiboot2 block, all of them. -/
def describedModules (m : ByteMemory) (tags : List Nat) : List Module :=
  (tags.filter fun tag => tagType m tag = .module).map
    fun tag => ⟨u32 m (tag + 8), u32 m (tag + 12)⟩

end V2

namespace V1

/-- The tables are where the structure says, and the strings end. -/
structure WellFormed (m : ByteMemory) (info : Nat) : Prop where
  info_ne_zero : info ≠ 0
  below : info + INFO_SIZE ≤ Config.IDENTITY_MAPPED_LIMIT
  commandLine : hasFlag m info CMDLINE → Terminated m (commandLine m info)
  memoryMap : hasMemoryMap m info → memoryMapAddress m info ≠ 0 ∧
    memoryMapAddress m info + memoryMapLength m info ≤ Config.IDENTITY_MAPPED_LIMIT ∧
    20 ≤ u32 m (memoryMapAddress m info) ∧
    u32 m (memoryMapAddress m info) + 4 ≤ memoryMapLength m info
  modules : hasFlag m info MODULES → 0 < moduleCount m info →
    moduleAddress m info ≠ 0 ∧
    moduleEntry m info (moduleCount m info) ≤ Config.IDENTITY_MAPPED_LIMIT
  moduleCommandLines : hasFlag m info MODULES → ∀ i < moduleCount m info,
    u32 m (moduleEntry m info i + 8) = 0 ∨ Terminated m (u32 m (moduleEntry m info i + 8))

/-- The modules of a Multiboot1 structure, all of them. -/
def describedModules (m : ByteMemory) (info : Nat) : List Module :=
  if hasFlag m info MODULES then
    (List.range (moduleCount m info)).map fun i =>
      ⟨u32 m (moduleEntry m info i), u32 m (moduleEntry m info i + 4)⟩
  else []

end V1

/-- A well-formed handover with this magic number, and the modules that it
describes. -/
inductive Describes (m : ByteMemory) (info : Nat) : Nat → List Module → Prop
  | v1 : V1.WellFormed m info → Describes m info LOADER_MAGIC_V1 (V1.describedModules m info)
  | v2 {tags : List Nat} : V2.WellFormed m info tags →
      Describes m info LOADER_MAGIC_V2 (V2.describedModules m tags)

/-! ## What the walks record -/

namespace V2

variable {m : ByteMemory} {info stop tag fuel : Nat} {tags : List Nat} {st : Statics}

/-- The entries of a well-formed map have a size. -/
theorem parseTag_of_tagOk (hok : TagOk m tag) : parseTag m st tag = .ok (recordTag m st tag) := by
  refine if_neg fun hzero => ?_
  unfold TagOk at hok
  rw [hzero.1, hzero.2] at hok
  exact absurd hok.2 (by decide)

/-- On a chain of tags the loop folds the body over them. -/
theorem parseLoop_chain (h : Chain m stop tag tags) :
    ∀ {fuel : Nat} {st : Statics}, stop / 8 + 1 ≤ tag / 8 + fuel →
      parseLoop m stop st tag fuel = .ok (tags.foldl (recordTag m) st) := by
  induction h with
  | done hin hstop _ =>
    intro fuel st hfuel
    match fuel with
    | 0 => omega
    | fuel + 1 =>
      rw [parseLoop, if_neg (fun hgo => hgo.2 hstop)]
      rfl
  | tag hgo hsize hin hok hchain ih =>
    rename_i tag tags
    intro fuel st hfuel
    match fuel with
    | 0 => omega
    | fuel + 1 =>
      have hnext : tag / 8 + 1 ≤ next m tag / 8 := by
        unfold next
        omega
      rw [parseLoop, if_pos ⟨by omega, hgo⟩, parseTag_of_tagOk hok, List.foldl_cons]
      exact ih (by omega)

theorem parse_chain (h : WellFormed m info tags) :
    parse m info = .ok (tags.foldl (recordTag m) { standard := .v2 }) := by
  refine parseLoop_chain h.chain ?_
  have haligned := h.aligned
  omega

theorem recordTag_standard (m : ByteMemory) (st : Statics) (tag : Nat) :
    (recordTag m st tag).standard = st.standard := by
  unfold recordTag
  split <;> first | rfl | (split <;> rfl)

theorem foldl_recordTag_standard (tags : List Nat) (st : Statics) :
    (tags.foldl (recordTag m) st).standard = st.standard :=
  List.foldlRecOn (motive := fun st' : Statics => st'.standard = st.standard) _ _ rfl
    fun st' hst tag _ => (recordTag_standard m st' tag).trans hst

theorem recordTag_modules (m : ByteMemory) (st : Statics) (tag : Nat) :
    (recordTag m st tag).modules =
      if tagType m tag = .module ∧ st.modules.length < MAX_MODULES then st.modules ++ [tag]
      else st.modules := by
  unfold recordTag
  split
  case h_3 htype =>
    rw [htype]
    simp only [true_and]
    split <;> rfl
  case h_6 htype =>
    rw [htype]
    simp only [reduceCtorEq, false_and, if_false]
    split <;> rfl
  all_goals simp_all

/-- The first sixteen module tags are recorded, in order. -/
theorem foldl_recordTag_modules (tags : List Nat) (st : Statics) :
    (tags.foldl (recordTag m) st).modules =
      st.modules ++
        (tags.filter fun tag => tagType m tag = .module).take
          (MAX_MODULES - st.modules.length) := by
  have hfirst := RecordWalk.foldl_first (p := fun tag => tagType m tag = .module)
    (f := fun tag => tag) Statics.modules (recordTag_modules m) tags st
  rw [List.map_id'] at hfirst
  exact hfirst

end V2

variable {m : ByteMemory} {magic info : Nat} {described : List Module}

/-- The entries of a well-formed map have a size. -/
theorem V1.WellFormed.parsed (h : V1.WellFormed m info) :
    initializeStatics m LOADER_MAGIC_V1 info = .ok (V1.recorded m info) := by
  rw [initializeStatics, if_neg (by decide), if_pos rfl]
  refine if_neg fun hzero => ?_
  obtain ⟨haddress, hbelow, hsize, hfits⟩ := h.memoryMap hzero.1
  have hlimit : Config.IDENTITY_MAPPED_LIMIT = 2 ^ 32 := rfl
  have heq := hzero.2
  unfold memoryMapEntrySize at heq
  omega

/-- `Initialize` gets through a well-formed handover and records its first
sixteen modules. -/
theorem Describes.getModules (h : Describes m info magic described) :
    ∃ st, initializeStatics m magic info = .ok st ∧ st.standard ≠ .none ∧
      getModules m st = described.take MAX_MODULES := by
  cases h with
  | v1 hform =>
    refine ⟨V1.recorded m info, hform.parsed, nofun, ?_⟩
    unfold Multiboot.getModules V1.describedModules
    by_cases hflag : V1.hasFlag m info V1.MODULES
    · simp only [V1.recorded, hflag, if_true, List.map_map, ← List.map_take, List.take_range]
      rw [Nat.min_comm]
      rfl
    · simp [V1.recorded, hflag]
  | v2 hform =>
    rename_i tags
    have hstandard := V2.foldl_recordTag_standard (m := m) tags { standard := .v2 }
    refine ⟨_, V2.parse_chain hform, by rw [hstandard]; exact nofun, ?_⟩
    unfold Multiboot.getModules V2.describedModules
    rw [V2.foldl_recordTag_modules, ← List.map_take]
    refine List.map_congr_left fun tag _ => ?_
    simp only [getModule, hstandard, if_true]

end X64HK.Multiboot
