import X64HK.Memory.LoaderMemory

/-!
# The accessors of the loader's structures over time

`Multiboot.cpp` copies nothing, so what an accessor answers depends on bytes
that have to stay what they were.  `Dereferenced` are those bytes and
`Answers` is everything the accessors tell.

`GetInfoRegion` has the list of ranges that the frame allocator keeps.  A
Multiboot2 block is one range and holds everything (`V2.covered`).  The
structures of Multiboot1 are apart from each other, and the list leaves out two
kinds of strings: the name of the boot loader and the command lines of the
modules.

* `answers_congr`: the answers depend on the dereferenced bytes alone.
* `V2.recordTag_inside` and `V2.foldl_recordTag_inside`: every pointer that the
  walk keeps is into the block.
* `V1.covered_of_strings`: apart from the strings everything is covered.
* `loader_structures_intact_iff` is the sum.
-/

namespace X64HK.Multiboot

open ByteMemory X64HK.Frame

/-! ## What is read and what is told -/

/-- The byte at `a` belongs to the string at `p`, with the zero byte. -/
def InString (m : ByteMemory) (p a : Nat) : Prop := p ≤ a ∧ a ≤ p + strlen m p

/-- The fields of a module that `GetModule` reads. -/
def moduleFields (st : Statics) (entry : Nat) : Range :=
  if st.standard = .v2 then ⟨entry + 8, entry + 16⟩ else ⟨entry, entry + 12⟩

/-- The bytes that somebody who uses the accessors reads. -/
inductive Dereferenced (m : ByteMemory) (st : Statics) (a : Nat) : Prop
  | commandLine : st.commandLine ≠ 0 → InString m st.commandLine a → Dereferenced m st a
  | bootLoaderName : st.bootLoaderName ≠ 0 → InString m st.bootLoaderName a →
      Dereferenced m st a
  | memoryRegion (i : Nat) : st.memoryMapEntries ≠ 0 → i < st.memoryRegionCount →
      memoryMapEntry st i ≤ a → a < memoryMapEntry st i + 24 → Dereferenced m st a
  | module (entry : Nat) : entry ∈ st.modules → (moduleFields st entry).start ≤ a →
      a < (moduleFields st entry).stop → Dereferenced m st a
  | moduleCommandLine (entry : Nat) : entry ∈ st.modules →
      getModuleCommandLine m st entry ≠ 0 → InString m (getModuleCommandLine m st entry) a →
      Dereferenced m st a
  | acpiRsdp : st.acpiRsdp ≠ 0 → st.acpiRsdp ≤ a → a < st.acpiRsdp + rsdpSize m st.acpiRsdp →
      Dereferenced m st a

/-- The bytes from `p` on. -/
def bytes (m : ByteMemory) (p n : Nat) : List (BitVec 8) := (List.range n).map fun k => m (p + k)

/-- The string at `p`.  A null pointer stands for a literal of the kernel. -/
def string (m : ByteMemory) (p : Nat) : Option (List (BitVec 8)) :=
  if p = 0 then none else some (bytes m p (strlen m p))

/-- Everything the accessors tell. -/
structure Answers where
  /-- `GetCommandLine()`. -/
  commandLine : Option (List (BitVec 8))
  /-- `GetBootLoaderName()`. -/
  bootLoaderName : Option (List (BitVec 8))
  /-- `GetMemoryRegion(index)`. -/
  memoryRegions : List MemoryRegion
  /-- `GetModule(index)` with the string of its command line. -/
  modules : List (Module × Option (List (BitVec 8)))
  /-- The table at `GetAcpiRsdp()`. -/
  acpiRsdp : List (BitVec 8)
  deriving DecidableEq

def answers (m : ByteMemory) (st : Statics) : Answers where
  commandLine := string m st.commandLine
  bootLoaderName := string m st.bootLoaderName
  memoryRegions := getMemoryRegions m st
  modules := st.modules.map fun entry =>
    (getModule m st entry, string m (getModuleCommandLine m st entry))
  acpiRsdp := if st.acpiRsdp = 0 then [] else bytes m st.acpiRsdp (rsdpSize m st.acpiRsdp)

variable {m m' : ByteMemory} {st : Statics} {magic info location : Nat} {machine : Handover}
  {s : State} {described : List Module} {a : Nat}

theorem bytes_congr {p n : Nat} (h : AgreeOn m m' p n) : bytes m' p n = bytes m p n := by
  refine List.map_congr_left fun k hk => ?_
  have hlt := List.mem_range.1 hk
  exact h (p + k) (by omega) (by omega)

theorem string_congr {p : Nat} (h : p ≠ 0 → ∀ a, InString m p a → m' a = m a) :
    string m' p = string m p := by
  unfold string
  split
  · rfl
  · rename_i hne
    have hagree : AgreeOn m m' p (strlen m p + 1) :=
      fun a hlo hhi => h hne a ⟨hlo, by omega⟩
    have hlength : strlen m' p = strlen m p := stringLength_congr hagree
    rw [hlength, bytes_congr (hagree.mono (Nat.le_refl p) (by omega))]

theorem u32_congr (h : AgreeOn m m' a 4) : u32 m' a = u32 m a := load_congr h

theorem u64_congr (h : AgreeOn m m' a 8) : u64 m' a = u64 m a := load_congr h

theorem getMemoryRegion_congr {i : Nat} (h : AgreeOn m m' (memoryMapEntry st i) 24) :
    getMemoryRegion m' st i = getMemoryRegion m st i := by
  unfold getMemoryRegion
  dsimp only
  split
  · rw [u64_congr (h.mono (by omega) (by omega)), u64_congr (h.mono (by omega) (by omega)),
      u32_congr (h.mono (by omega) (by omega))]
  · rw [u64_congr (h.mono (by omega) (by omega)), u64_congr (h.mono (by omega) (by omega)),
      u32_congr (h.mono (by omega) (by omega))]

theorem getMemoryRegions_congr
    (h : st.memoryMapEntries ≠ 0 → ∀ i < st.memoryRegionCount,
      AgreeOn m m' (memoryMapEntry st i) 24) :
    getMemoryRegions m' st = getMemoryRegions m st := by
  unfold getMemoryRegions
  split
  · rfl
  · rename_i hne
    exact List.map_congr_left fun i hi => getMemoryRegion_congr (h hne i (List.mem_range.1 hi))

theorem getModule_congr {entry : Nat}
    (h : ∀ a, (moduleFields st entry).start ≤ a → a < (moduleFields st entry).stop → m' a = m a) :
    getModule m' st entry = getModule m st entry ∧
      getModuleCommandLine m' st entry = getModuleCommandLine m st entry := by
  unfold moduleFields at h
  unfold getModule getModuleCommandLine
  by_cases hv2 : st.standard = .v2
  · rw [if_pos hv2] at h
    have hagree : AgreeOn m m' (entry + 8) 8 := fun a hlo hhi => h a hlo hhi
    simp only [if_pos hv2, and_true]
    rw [u32_congr (hagree.mono (by omega) (by omega)),
      u32_congr (hagree.mono (by omega) (by omega))]
  · rw [if_neg hv2] at h
    have hagree : AgreeOn m m' entry 12 := fun a hlo hhi => h a hlo hhi
    simp only [if_neg hv2]
    rw [u32_congr (hagree.mono (by omega) (by omega)),
      u32_congr (hagree.mono (by omega) (by omega)),
      u32_congr (hagree.mono (by omega) (by omega))]
    exact ⟨rfl, rfl⟩

theorem rsdpSize_congr {p : Nat} (h : AgreeOn m m' p (rsdpSize m p)) :
    rsdpSize m' p = rsdpSize m p := by
  have hlarge : 20 ≤ rsdpSize m p := by
    unfold rsdpSize
    split
    · exact Nat.le_refl 20
    · exact Nat.le_trans (by decide) (Nat.le_max_left 24 _)
  have hrevision : m' (p + 15) = m (p + 15) := h _ (by omega) (by omega)
  unfold rsdpSize at h ⊢
  rw [hrevision]
  split
  · rfl
  · rename_i hne
    rw [if_neg hne] at h
    rw [u32_congr (h.mono (by omega) (by omega))]

/-- The answers depend on the dereferenced bytes alone. -/
theorem answers_congr (h : ∀ a, Dereferenced m st a → m' a = m a) :
    answers m' st = answers m st := by
  have hmodule : ∀ entry ∈ st.modules,
      getModule m' st entry = getModule m st entry ∧
        getModuleCommandLine m' st entry = getModuleCommandLine m st entry :=
    fun entry hentry => getModule_congr fun a hlo hhi => h a (.module entry hentry hlo hhi)
  have hregions : getMemoryRegions m' st = getMemoryRegions m st :=
    getMemoryRegions_congr fun hne i hi a hlo hhi => h a (.memoryRegion i hne hi hlo hhi)
  have hmodules : (st.modules.map fun entry =>
      (getModule m' st entry, string m' (getModuleCommandLine m' st entry))) =
      st.modules.map fun entry =>
        (getModule m st entry, string m (getModuleCommandLine m st entry)) := by
    refine List.map_congr_left fun entry hentry => ?_
    rw [(hmodule entry hentry).1, (hmodule entry hentry).2,
      string_congr fun hne a ha => h a (.moduleCommandLine entry hentry hne ha)]
  have hrsdp : (if st.acpiRsdp = 0 then []
      else bytes m' st.acpiRsdp (rsdpSize m' st.acpiRsdp)) =
      if st.acpiRsdp = 0 then [] else bytes m st.acpiRsdp (rsdpSize m st.acpiRsdp) := by
    split
    · rfl
    · rename_i hne
      have hagree : AgreeOn m m' st.acpiRsdp (rsdpSize m st.acpiRsdp) :=
        fun a hlo hhi => h a (.acpiRsdp hne hlo hhi)
      rw [rsdpSize_congr hagree, bytes_congr hagree]
  unfold answers
  rw [string_congr fun hne a ha => h a (.commandLine hne ha),
    string_congr fun hne a ha => h a (.bootLoaderName hne ha), hregions, hmodules, hrsdp]

/-! ## What is reported -/

/-- `GetInfoRegion` reports a range with this byte. -/
def Covered (m : ByteMemory) (info : Nat) (st : Statics) (a : Nat) : Prop :=
  ∃ region ∈ getInfoRegions m info st, region.address ≤ a ∧ a < region.address + region.length

theorem describe_eq {start length : Nat} (hstart : start ≠ 0) (hlength : length ≠ 0) :
    describe start length = ⟨start, length, .reserved⟩ := if_pos ⟨hstart, hlength⟩

namespace V2

/-- Every pointer that is kept is into the block `[info, stop)`, and so is
everything that is read through it. -/
structure Inside (m : ByteMemory) (info stop : Nat) (st : Statics) : Prop where
  standard : st.standard = .v2
  commandLine : st.commandLine ≠ 0 →
    info ≤ st.commandLine ∧ st.commandLine + strlen m st.commandLine < stop
  bootLoaderName : st.bootLoaderName ≠ 0 →
    info ≤ st.bootLoaderName ∧ st.bootLoaderName + strlen m st.bootLoaderName < stop
  memoryMap : st.memoryMapEntries ≠ 0 → ∀ i < st.memoryRegionCount,
    info ≤ memoryMapEntry st i ∧ memoryMapEntry st i + 24 ≤ stop
  modules : ∀ entry ∈ st.modules, info ≤ entry ∧ entry + 16 + strlen m (entry + 16) < stop
  acpiRsdp : st.acpiRsdp ≠ 0 → info ≤ st.acpiRsdp ∧ st.acpiRsdp + rsdpSize m st.acpiRsdp ≤ stop

theorem strlen_lt {p k stop : Nat} (hzero : m (p + k) = 0) (hstop : p + k < stop) :
    p + strlen m p < stop := by
  have hle := stringLength_le_of_zero hzero Config.IDENTITY_MAPPED_LIMIT
  unfold strlen
  omega

/-- The entries of a memory map are inside its tag. -/
theorem entry_inside {size entrySize i : Nat} (hsize : 16 ≤ size) (hlt : size < 2 ^ 32)
    (hentry : 24 ≤ entrySize) (hi : i < sub64 size 16 / entrySize % 2 ^ 32) :
    i * entrySize % 2 ^ 32 + 24 ≤ size - 16 := by
  rw [sub64_of_le (by omega) hsize] at hi
  have hcount : i + 1 ≤ (size - 16) / entrySize :=
    Nat.lt_of_lt_of_le hi (Nat.mod_le _ _)
  have hend : (i + 1) * entrySize ≤ size - 16 :=
    Nat.le_trans (Nat.mul_le_mul_right entrySize hcount) (Nat.div_mul_le_self _ _)
  rw [Nat.add_mul, Nat.one_mul] at hend
  rw [Nat.mod_eq_of_lt (by omega)]
  omega

/-- The body of the loop keeps every pointer inside. -/
theorem recordTag_inside {stop tag : Nat} (h : Inside m info stop st) (htag : info ≤ tag)
    (hin : tag + tagSize m tag ≤ stop) (hok : TagOk m tag) :
    Inside m info stop (recordTag m st tag) := by
  unfold TagOk at hok
  unfold recordTag
  split
  case h_1 htype =>
    rw [htype] at hok
    obtain ⟨k, hk, hzero⟩ := hok
    have hlt := strlen_lt hzero (show tag + 8 + k < stop by omega)
    exact { h with commandLine := fun _ => ⟨Nat.le_trans htag (Nat.le_add_right _ _), hlt⟩ }
  case h_2 htype =>
    rw [htype] at hok
    obtain ⟨k, hk, hzero⟩ := hok
    have hlt := strlen_lt hzero (show tag + 8 + k < stop by omega)
    exact { h with bootLoaderName := fun _ => ⟨Nat.le_trans htag (Nat.le_add_right _ _), hlt⟩ }
  case h_3 htype =>
    rw [htype] at hok
    obtain ⟨k, hk, hzero⟩ := hok
    split
    · refine { h with modules := fun entry hentry => ?_ }
      rcases List.mem_append.1 hentry with hold | hnew
      · exact h.modules entry hold
      · rw [List.mem_singleton.1 hnew]
        exact ⟨htag, strlen_lt hzero (by omega)⟩
    · exact h
  case h_4 htype =>
    rw [htype] at hok
    refine { h with memoryMap := fun _ i hi => ?_ }
    have hend := entry_inside hok.1 (u32_lt m _) hok.2 hi
    unfold memoryMapEntry
    dsimp only
    have hsize := hok.1
    omega
  case h_5 => exact { h with }
  case h_6 htype =>
    rw [htype] at hok
    split
    · exact { h with acpiRsdp := fun _ => ⟨by simp only; omega, by simp only; omega⟩ }
    · exact h
  case h_7 htype =>
    rw [htype] at hok
    exact { h with acpiRsdp := fun _ => ⟨by simp only; omega, by simp only; omega⟩ }
  case h_8 => exact h

/-- So does the walk over all tags. -/
theorem foldl_recordTag_inside {stop tag : Nat} {tags : List Nat} (h : Chain m stop tag tags) :
    ∀ {st : Statics}, Inside m info stop st → info ≤ tag →
      Inside m info stop (tags.foldl (recordTag m) st) := by
  induction h with
  | done => exact fun hinside _ => hinside
  | tag hgo hsize hin hok hchain ih =>
    rename_i tag tags
    intro st hinside htag
    have hnext : info ≤ next m tag := by
      unfold next
      omega
    exact ih (recordTag_inside hinside htag hin hok) hnext

/-- Everything that is read through the pointers of a Multiboot2 block is
reported. -/
theorem covered {tags : List Nat} (h : WellFormed m info tags)
    (ha : Dereferenced m (tags.foldl (recordTag m) { standard := .v2 }) a) :
    Covered m info (tags.foldl (recordTag m) { standard := .v2 }) a := by
  have hstart : Inside m info (info + u32 m info) { standard := .v2 } :=
    ⟨rfl, fun h => absurd rfl h, fun h => absurd rfl h, fun h => absurd rfl h, nofun,
      fun h => absurd rfl h⟩
  have hinside := foldl_recordTag_inside h.chain hstart (Nat.le_add_right info 8)
  obtain ⟨st, hst⟩ : ∃ st, tags.foldl (recordTag m) { standard := .v2 } = st := ⟨_, rfl⟩
  rw [hst] at ha hinside ⊢
  have hrange : info ≤ a ∧ a < info + u32 m info := by
    cases ha with
    | commandLine hne hin =>
      have hstring := hinside.commandLine hne
      unfold InString at hin
      omega
    | bootLoaderName hne hin =>
      have hstring := hinside.bootLoaderName hne
      unfold InString at hin
      omega
    | memoryRegion i hne hi hlo hhi =>
      have hentry := hinside.memoryMap hne i hi
      omega
    | module entry hentry hlo hhi =>
      have hmodule := hinside.modules entry hentry
      rw [moduleFields, if_pos hinside.standard] at hlo hhi
      dsimp only at hlo hhi
      omega
    | moduleCommandLine entry hentry _ hin =>
      have hmodule := hinside.modules entry hentry
      rw [getModuleCommandLine, if_pos hinside.standard] at hin
      unfold InString at hin
      omega
    | acpiRsdp hne hlo hhi =>
      have hrsdp := hinside.acpiRsdp hne
      omega
  refine ⟨describe info (u32 m info), ?_, ?_⟩
  · rw [getInfoRegions, if_neg h.info_ne_zero, hinside.standard]
    exact List.mem_singleton_self _
  · rw [describe_eq h.info_ne_zero (by omega)]
    exact hrange

end V2

namespace V1

/-- Everything that is read through the pointers of a Multiboot1 structure is
reported, apart from two kinds of strings. -/
theorem covered_of_strings (h : WellFormed m info)
    (hname : (recorded m info).bootLoaderName ≠ 0 →
      ∀ a, InString m (recorded m info).bootLoaderName a → Covered m info (recorded m info) a)
    (hlines : ∀ entry ∈ (recorded m info).modules,
      getModuleCommandLine m (recorded m info) entry ≠ 0 →
      ∀ a, InString m (getModuleCommandLine m (recorded m info) entry) a →
        Covered m info (recorded m info) a)
    (ha : Dereferenced m (recorded m info) a) : Covered m info (recorded m info) a := by
  have hregions : getInfoRegions m info (recorded m info) =
      [describe info INFO_SIZE,
        describe (memoryMapAddress m info) (memoryMapLength m info),
        describe (moduleAddress m info) (moduleCount m info * MODULE_ENTRY_SIZE),
        describe (commandLine m info)
          (if (recorded m info).commandLine ≠ 0
            then strlen m (recorded m info).commandLine + 1 else 0)] := by
    rw [getInfoRegions, if_neg h.info_ne_zero]
    rfl
  cases ha with
  | commandLine hne hin =>
    have hflag : hasFlag m info CMDLINE = true := by
      by_contra hflag
      exact hne (if_neg hflag)
    have hline : (recorded m info).commandLine = commandLine m info := if_pos hflag
    refine ⟨describe (commandLine m info) (strlen m (commandLine m info) + 1), ?_, ?_⟩
    · rw [hregions, if_pos hne, hline]
      simp
    · rw [hline] at hne hin
      unfold InString at hin
      rw [describe_eq hne (Nat.succ_ne_zero _)]
      dsimp only
      omega
  | bootLoaderName hne hin => exact hname hne a hin
  | memoryRegion i hne hi hlo hhi =>
    have hmap : hasMemoryMap m info = true := by
      by_contra hmap
      exact hne (if_neg hmap)
    obtain ⟨haddress, _, hfirst, hfits⟩ := h.memoryMap hmap
    have hlength : memoryMapLength m info < 2 ^ 32 := u32_lt _ _
    have hsize : memoryMapEntrySize m info = u32 m (memoryMapAddress m info) + 4 :=
      Nat.mod_eq_of_lt (by omega)
    have hcount : (recorded m info).memoryRegionCount =
        memoryMapLength m info / memoryMapEntrySize m info := if_pos hmap
    rw [hcount] at hi
    have hend : (i + 1) * memoryMapEntrySize m info ≤ memoryMapLength m info :=
      Nat.le_trans (Nat.mul_le_mul_right _ hi) (Nat.div_mul_le_self _ _)
    rw [Nat.add_mul, Nat.one_mul] at hend
    have hentry : memoryMapEntry (recorded m info) i =
        memoryMapAddress m info + i * memoryMapEntrySize m info := by
      have hentries : (recorded m info).memoryMapEntries = memoryMapAddress m info := if_pos hmap
      have hstep : (recorded m info).memoryMapEntrySize = memoryMapEntrySize m info := if_pos hmap
      rw [memoryMapEntry, hentries, hstep, Nat.mod_eq_of_lt (by omega)]
    rw [hentry] at hlo hhi
    refine ⟨describe (memoryMapAddress m info) (memoryMapLength m info), ?_, ?_⟩
    · rw [hregions]
      simp
    · rw [describe_eq haddress (by omega)]
      dsimp only
      omega
  | module entry hentry hlo hhi =>
    have hflag : hasFlag m info MODULES = true := by
      by_contra hflag
      rw [recorded, if_neg hflag] at hentry
      exact absurd hentry List.not_mem_nil
    rw [recorded, if_pos hflag, List.mem_map] at hentry
    obtain ⟨i, hi, rfl⟩ := hentry
    have hcount : i < moduleCount m info :=
      Nat.lt_of_lt_of_le (List.mem_range.1 hi) (Nat.min_le_left _ _)
    obtain ⟨haddress, _⟩ := h.modules hflag (by omega)
    have hstandard : (recorded m info).standard ≠ .v2 := show Standard.v1 ≠ .v2 by decide
    rw [moduleFields, if_neg hstandard] at hlo hhi
    refine ⟨describe (moduleAddress m info) (moduleCount m info * MODULE_ENTRY_SIZE), ?_, ?_⟩
    · rw [hregions]
      simp
    · unfold moduleEntry at hlo hhi
      rw [show MODULE_ENTRY_SIZE = 16 from rfl] at *
      rw [describe_eq haddress (by omega)]
      dsimp only at hlo hhi ⊢
      omega
  | moduleCommandLine entry hentry hne hin => exact hlines entry hentry hne a hin
  | acpiRsdp hne => exact absurd rfl hne

end V1

/-! ## After any sequence of allocations -/

/-- The second memory is what clients and the allocator made of the first one:
they write into frames that were handed out and into the frame bitmap. -/
def WrittenByClients (boot : Handover) (s : State) (location : Nat) (m m' : ByteMemory) : Prop :=
  ∀ a, m' a ≠ m a →
    ((bitmapRange boot location).start ≤ a ∧ a < (bitmapRange boot location).stop) ∨
      ∃ requests sys, serveAll ⟨s, []⟩ requests = .ok sys ∧ ∃ run ∈ sys.live, run.Holds (a / SIZE)

/-- The loader's structures outlive the allocator's work. -/
structure Intact (m : ByteMemory) (info : Nat) (machine : Handover) (st : Statics) (s : State)
    (location : Nat) : Prop where
  covered : ∀ a, Dereferenced m st a → Covered m info st a
  spared : ∀ a, Dereferenced m st a → Spared (handover m info st machine) s location ⟨a, a + 1⟩
  unchanged : ∀ m', WrittenByClients (handover m info st machine) s location m m' →
    answers m' st = answers m st

/-- What is reported is spared. -/
theorem Booted.spared_of_covered (h : Booted m magic info machine st s location)
    (hinfo : info < 2 ^ 32) (ha : Covered m info st a) :
    Spared (handover m info st machine) s location ⟨a, a + 1⟩ := by
  obtain ⟨region, hregion, hlo, hhi⟩ := ha
  exact (spared_of_info h.frames (handover_placed hinfo h.linked) hregion).mono hlo hhi

/-- Clients do not write into what is spared. -/
theorem WrittenByClients.eq_of_spared {boot : Handover}
    (h : WrittenByClients boot s location m m') (ha : Spared boot s location ⟨a, a + 1⟩) :
    m' a = m a := by
  by_contra hne
  rcases h a hne with ⟨hlo, hhi⟩ | ⟨requests, sys, hall, run, hrun, hholds⟩
  · exact ha.bitmap a hlo hhi ⟨Nat.le_refl a, Nat.lt_succ_self a⟩
  · exact ha.frames requests sys hall run hrun _ hholds a (Nat.le_refl a)
      (Nat.lt_succ_self a) rfl

theorem Booted.intact_of_covered (h : Booted m magic info machine st s location)
    (hinfo : info < 2 ^ 32) (hcovered : ∀ a, Dereferenced m st a → Covered m info st a) :
    Intact m info machine st s location where
  covered := hcovered
  spared := fun a ha => h.spared_of_covered hinfo (hcovered a ha)
  unchanged := fun _ hwritten => answers_congr fun a ha =>
    hwritten.eq_of_spared (h.spared_of_covered hinfo (hcovered a ha))

/-- The loader's structures stay intact under Multiboot2, and under Multiboot1
exactly when the name of the boot loader and the command lines of the modules
happen to be in ranges that are reported for something else. -/
theorem loader_structures_intact_iff (h : Describes m info magic described)
    (hboot : Booted m magic info machine st s location) :
    Intact m info machine st s location ↔
      (magic = LOADER_MAGIC_V1 →
        (st.bootLoaderName ≠ 0 → ∀ a, InString m st.bootLoaderName a → Covered m info st a) ∧
        ∀ entry ∈ st.modules, getModuleCommandLine m st entry ≠ 0 →
          ∀ a, InString m (getModuleCommandLine m st entry) a → Covered m info st a) := by
  constructor
  · intro hintact _
    exact ⟨fun hne a ha => hintact.covered a (.bootLoaderName hne ha),
      fun entry hentry hne a ha =>
        hintact.covered a (.moduleCommandLine entry hentry hne ha)⟩
  · intro hstrings
    refine hboot.intact_of_covered h.info_lt fun a ha => ?_
    cases h with
    | v1 hform =>
      obtain rfl := Except.ok.inj (hform.parsed.symm.trans hboot.parsed)
      obtain ⟨hname, hlines⟩ := hstrings rfl
      exact V1.covered_of_strings hform hname hlines ha
    | v2 hform =>
      obtain rfl := Except.ok.inj ((V2.parse_chain hform).symm.trans hboot.parsed)
      exact V2.covered hform ha

/-- One module of 256 bytes, whose command line is the letter `m` in the frame
behind it. -/
def oneModule : ByteMemory :=
  store (ofWords 0x130000 (smallInfoWords [[0x131000, 0x131100, 0x132000, 0]])) 0x132000 1 0x6D

theorem oneModule_wellFormed : V1.WellFormed oneModule 0x130000 := by
  have hcount : V1.moduleCount oneModule 0x130000 = 1 := by decide +kernel
  have hpointer : u32 oneModule (V1.moduleEntry oneModule 0x130000 0 + 8) = 0x132000 := by
    decide +kernel
  have hline : V1.hasFlag oneModule 0x130000 V1.CMDLINE = false := by decide +kernel
  refine ⟨by decide, by decide, ?_, by decide +kernel, by decide +kernel, ?_⟩
  · rw [hline]
    exact nofun
  · intro _ i hi
    obtain rfl : i = 0 := by omega
    rw [hpointer]
    exact Or.inr ⟨1, by decide, by decide +kernel⟩

theorem oneModule_handover :
    handover oneModule 0x130000 (V1.recorded oneModule 0x130000) smallHandover =
      { smallHandover with
        infoRegions := [⟨0x130000, 52, .reserved⟩, ⟨0x130040, 48, .reserved⟩,
          ⟨0x130100, 16, .reserved⟩, ⟨0, 0, .reserved⟩]
        modules := [⟨0x131000, 0x131100⟩] } := by
  decide +kernel

theorem oneModule_booted :
    Booted oneModule LOADER_MAGIC_V1 0x130000 smallHandover (V1.recorded oneModule 0x130000)
      manyModulesFrames 0x120000 where
  parsed := oneModule_wellFormed.parsed
  frames := by
    rw [oneModule_handover]
    decide +kernel
  linked := by decide

theorem loader_structures_intact_iff_oneModule :
    Intact oneModule 0x130000 smallHandover (V1.recorded oneModule 0x130000) manyModulesFrames
        0x120000 ↔
      (LOADER_MAGIC_V1 = LOADER_MAGIC_V1 →
        ((V1.recorded oneModule 0x130000).bootLoaderName ≠ 0 →
          ∀ a, InString oneModule (V1.recorded oneModule 0x130000).bootLoaderName a →
            Covered oneModule 0x130000 (V1.recorded oneModule 0x130000) a) ∧
        ∀ entry ∈ (V1.recorded oneModule 0x130000).modules,
          getModuleCommandLine oneModule (V1.recorded oneModule 0x130000) entry ≠ 0 →
          ∀ a, InString oneModule
              (getModuleCommandLine oneModule (V1.recorded oneModule 0x130000) entry) a →
            Covered oneModule 0x130000 (V1.recorded oneModule 0x130000) a) :=
  loader_structures_intact_iff (.v1 oneModule_wellFormed) oneModule_booted

/-- A client that is given the frame of the command line may write into it,
and then the module has another command line. -/
theorem module_command_line_overwritten :
    Describes oneModule 0x130000 LOADER_MAGIC_V1 (V1.describedModules oneModule 0x130000) ∧
      Booted oneModule LOADER_MAGIC_V1 0x130000 smallHandover (V1.recorded oneModule 0x130000)
        manyModulesFrames 0x120000 ∧
      Dereferenced oneModule (V1.recorded oneModule 0x130000) 0x132000 ∧
      ¬Covered oneModule 0x130000 (V1.recorded oneModule 0x130000) 0x132000 ∧
      (∃ sys, serveAll ⟨manyModulesFrames, []⟩ [.allocate 15, .allocate 1] = .ok sys ∧
        ∃ run ∈ sys.live, run.address = 0x132000) ∧
      ∃ m', WrittenByClients
          (handover oneModule 0x130000 (V1.recorded oneModule 0x130000) smallHandover)
          manyModulesFrames 0x120000 oneModule m' ∧
        answers m' (V1.recorded oneModule 0x130000) ≠
          answers oneModule (V1.recorded oneModule 0x130000) := by
  have hfirst : (allocate manyModulesFrames 15).1 = 0x121000 := by decide +kernel
  have hsecond : (allocate (allocate manyModulesFrames 15).2 1).1 = 0x132000 := by decide +kernel
  obtain ⟨sys, hall, run, hrun, haddress, hholds⟩ :
      ∃ sys, serveAll ⟨manyModulesFrames, []⟩ [.allocate 15, .allocate 1] = .ok sys ∧
        ∃ run ∈ sys.live, run.address = 0x132000 ∧ run.Holds 0x132 := by
    refine ⟨_, rfl, ⟨0x132000, 1, (allocate manyModulesFrames 15).2.reachableFrames⟩, ?_, rfl,
      by decide⟩
    simp [hfirst, hsecond]
  refine ⟨.v1 oneModule_wellFormed, oneModule_booted, ?_, ?_, ⟨sys, hall, run, hrun, haddress⟩,
    store oneModule 0x132000 1 0x58, ?_, by decide +kernel⟩
  · exact .moduleCommandLine 0x130100 (by decide +kernel) (by decide +kernel)
      (by unfold InString; decide +kernel)
  · unfold Covered
    decide +kernel
  · intro a hne
    have hbyte : a = 0x132000 := by
      by_contra hother
      exact hne (store_of_outside (by omega))
    rw [hbyte]
    exact Or.inr ⟨_, sys, hall, run, hrun, hholds⟩

end X64HK.Multiboot
