import X64HK.Memory.KernelStacks
import X64HK.Memory.BootCalls

/-!
# The page tables of the boot code

A model of `SetupPaging` in `Kernel/Boot/LongMode.asm`, which builds the first page tables in
32-bit code.  The tables are seven pages of `.bss`, one behind the other: the top level, two
tables of the third level and four page directories.  The code writes the low half of each
entry and leaves the rest at zero.

* `physical` is the walk of the CPU, with large pages.
* `boot_map_exact` says which addresses the tables map, and where to.
* `activate_keeps_translations` is about the step from these tables to those of
  `Paging::Initialize`: no address that the code uses changes its meaning.
-/

namespace X64HK.BootMap

open Multiboot
open Paging
open X64HK.Frame (availableRegions)

def PAGE_WRITEABLE : BitVec 32 := 1 <<< 1
def PAGE_PRESENT : BitVec 32 := 1 <<< 0
def PAGE_HUGE : BitVec 32 := 1 <<< 7

/-! ## The code -/

/-- The load addresses of the tables, from that of the first one. -/
def level4 (base : Nat) : Nat := base
def level3 (base : Nat) : Nat := base + PAGE_SIZE
def level3High (base : Nat) : Nat := base + 2 * PAGE_SIZE
def level2 (base : Nat) : Nat := base + 3 * PAGE_SIZE

/-- The end of the tables. -/
def tablesEnd (base : Nat) : Nat := base + 7 * PAGE_SIZE

/-- A store of `eax`. -/
def write32 (m : ByteMemory) (a : Nat) (eax : BitVec 32) : ByteMemory := m.store a 4 eax.toNat

/-- A table entry for an address. -/
def pointer (address : Nat) : BitVec 32 :=
  BitVec.ofNat 32 address ||| (PAGE_PRESENT ||| PAGE_WRITEABLE)

/-- The body of `.MapDirectories`. -/
def mapDirectory (base : Nat) (m : ByteMemory) (ecx : Nat) : ByteMemory :=
  let eax : BitVec 32 := 0x200000 * BitVec.ofNat 32 ecx
  write32 m (level2 base + ecx * 8) (eax ||| (PAGE_PRESENT ||| PAGE_WRITEABLE ||| PAGE_HUGE))

/-- The body of `.MapDirectoryPointers`. -/
def mapDirectoryPointer (base : Nat) (m : ByteMemory) (ecx : Nat) : ByteMemory :=
  let eax : BitVec 32 := BitVec.ofNat 32 PAGE_SIZE * BitVec.ofNat 32 ecx
  let eax := eax + BitVec.ofNat 32 (level2 base)
  write32 m (level3 base + ecx * 8) (eax ||| (PAGE_PRESENT ||| PAGE_WRITEABLE))

/-- The tables that the bootstrap processor builds. -/
def buildTables (base : Nat) (m : ByteMemory) : ByteMemory :=
  let m := (List.range (512 * 4)).foldl (mapDirectory base) m
  let m := (List.range 4).foldl (mapDirectoryPointer base) m
  let m := write32 m (level4 base) (pointer (level3 base))
  let m := write32 m (level4 base + 256 * 8) (pointer (level3 base))
  let m := write32 m (level3High base + 510 * 8) (pointer (level2 base))
  write32 m (level4 base + 511 * 8) (pointer (level3High base))

/-- `SetupPaging`, with `KernelPageTableRoot`.  The answer is what goes to `cr3`. -/
def setupPaging (kernelRoot : BitVec 32) (base : Nat) (m : ByteMemory) : BitVec 32 × ByteMemory :=
  if kernelRoot ≠ 0 then (kernelRoot, m)
  else (BitVec.ofNat 32 (level4 base), buildTables base m)

/-! ## The CPU -/

/-- The walk of the CPU with `level` levels to go.  A large page at the second or third level
ends it, and the bit is reserved at the top. -/
def physical (m : ByteMemory) (v : BitVec 64) : Nat → Nat → Option Nat
  | 0, _ => none
  | level + 1, table =>
    let entry := m.read64 (entryAddress table v (level + 1))
    let size := 2 ^ (12 + 9 * level)
    if entry &&& PRESENT = 0 then none
    else if level = 0 ∨ entry &&& LARGE ≠ 0 then
      if level < 3 then some ((entry &&& ADDRESS_MASK).toNat / size * size + v.toNat % size)
      else none
    else physical m v level (entry &&& ADDRESS_MASK).toNat

/-- The boot code's tables take an address to this one. -/
def Maps (v p : Nat) : Prop :=
  v < 4 * GIB ∧ p = v ∨
    Config.DIRECT_MAP_BASE ≤ v ∧ v < Config.DIRECT_MAP_BASE + 4 * GIB ∧
      p = v - Config.DIRECT_MAP_BASE ∨
    Config.KERNEL_VMA ≤ v ∧ v < Config.KERNEL_VMA + GIB ∧ p = v - Config.KERNEL_VMA

/-! ## Slots -/

/-- The number of entries of the tables. -/
def SLOTS : Nat := 7 * 512

/-- The low halves of the entries are these, and the high halves are zero. -/
def Slots (m : ByteMemory) (base : Nat) (slot : Nat → Nat) : Prop :=
  ∀ i < SLOTS, m.load (base + 8 * i) 4 = slot i ∧ m.load (base + 8 * i + 4) 4 = 0

variable {body : ByteMemory → Nat → ByteMemory}

section

variable {m : ByteMemory} {base : Nat} {slot : Nat → Nat} {j : Nat}

theorem load_append (m : ByteMemory) (a n k : Nat) :
    m.load a (n + k) = m.load a n + 256 ^ n * m.load (a + n) k := by
  induction n generalizing a with
  | zero => rw [Nat.zero_add, Nat.add_zero, ByteMemory.load, Nat.pow_zero, Nat.one_mul,
      Nat.zero_add]
  | succ n ih =>
    have hnext : a + 1 + n = a + (n + 1) := by omega
    rw [Nat.succ_add, ByteMemory.load, ih, ByteMemory.load, hnext, Nat.mul_add, ← Nat.mul_assoc,
      ← Nat.pow_succ', Nat.add_assoc]

theorem Slots.read64 (h : Slots m base slot) {i : Nat} (hi : i < SLOTS) :
    m.read64 (base + 8 * i) = BitVec.ofNat 64 (slot i) := by
  obtain ⟨hlow, hhigh⟩ := h i hi
  rw [ByteMemory.read64, show (8 : Nat) = 4 + 4 from rfl, load_append, hlow, hhigh,
    Nat.mul_zero, Nat.add_zero]

theorem Slots.write32 (h : Slots m base slot) {k : Nat} {x : BitVec 32} :
    Slots (write32 m (base + 8 * k) x) base (Function.update slot k x.toNat) := by
  intro i hi
  obtain ⟨hlow, hhigh⟩ := h i hi
  unfold BootMap.write32
  by_cases heq : i = k
  · subst heq
    rw [Function.update_self, ByteMemory.load_store_of_lt x.isLt,
      ByteMemory.load_store_of_disjoint (by omega)]
    exact ⟨rfl, hhigh⟩
  · rw [Function.update_of_ne heq, ByteMemory.load_store_of_disjoint (by omega),
      ByteMemory.load_store_of_disjoint (by omega)]
    exact ⟨hlow, hhigh⟩

/-- `.bss` is clear. -/
theorem slots_of_zero (h : ∀ a, base ≤ a → a < tablesEnd base → m a = 0) :
    Slots m base fun _ => 0 := by
  have hzero : ∀ a n, base ≤ a → a + n ≤ tablesEnd base → m.load a n = 0 := by
    intro a n hlo hhi
    have hagree : ByteMemory.AgreeOn (m.fill a n 0) m a n := by
      intro b h1 h2
      rw [ByteMemory.fill_of_inside h1 h2]
      exact h b (by omega) (by omega)
    rw [ByteMemory.load_congr hagree, ByteMemory.load_fill_zero (Nat.le_refl a) (Nat.le_refl _)]
  intro i hi
  unfold SLOTS at hi
  have hend : tablesEnd base = base + 28672 := rfl
  exact ⟨hzero _ _ (by omega) (by omega), hzero _ _ (by omega) (by omega)⟩

/-- The slots after a loop that wrote `n` of them. -/
def overlay (first n : Nat) (value slot : Nat → Nat) (i : Nat) : Nat :=
  if first ≤ i ∧ i < first + n then value (i - first) else slot i

theorem update_overlay (first n : Nat) (value slot : Nat → Nat) :
    Function.update (overlay first n value slot) (first + n) (value n) =
      overlay first (n + 1) value slot := by
  funext i
  unfold overlay
  by_cases heq : i = first + n
  · rw [heq, Function.update_self, if_pos (by omega), Nat.add_sub_cancel_left]
  · rw [Function.update_of_ne heq]
    by_cases hin : first ≤ i ∧ i < first + n
    · rw [if_pos hin, if_pos (by omega)]
    · rw [if_neg hin, if_neg (by omega)]

theorem Slots.loop {first : Nat} {value : Nat → Nat}
    {n : Nat} (hbody : ∀ {m slot} ecx, ecx < n → Slots m base slot →
      Slots (body m ecx) base (Function.update slot (first + ecx) (value ecx)))
    (h : Slots m base slot) :
    Slots ((List.range n).foldl body m) base (overlay first n value slot) := by
  suffices hall : ∀ k ≤ n,
      Slots ((List.range k).foldl body m) base (overlay first k value slot) from
    hall n (Nat.le_refl n)
  intro k hk
  induction k with
  | zero =>
    have hempty : overlay first 0 value slot = slot := by
      funext i
      exact if_neg (by omega)
    rw [hempty]
    exact h
  | succ k ih =>
    rw [List.range_succ, List.foldl_append, ← update_overlay]
    exact hbody k hk (ih (Nat.le_of_lt hk))

/-! ## Entries -/

theorem toNat_or_flags {f flags : Nat} (hf : f * 2 ^ 12 < 2 ^ 32) (hflags : flags < 2 ^ 12) :
    (BitVec.ofNat 32 (f * 2 ^ 12) ||| BitVec.ofNat 32 flags).toNat = f * 2 ^ 12 + flags := by
  rw [BitVec.toNat_or, BitVec.toNat_ofNat, BitVec.toNat_ofNat, Nat.mod_eq_of_lt hf,
    Nat.mod_eq_of_lt (by omega), Nat.mul_comm f, Nat.two_pow_add_eq_or_of_lt hflags f]

section

variable {f flags : Nat} (hf : f < 2 ^ 40) (hflags : flags < 2 ^ 12)
include hflags

theorem getLsbD_entry_low (hj : j < 12) :
    (BitVec.ofNat 64 (f * 2 ^ 12 + flags)).getLsbD j = flags.testBit j := by
  rw [BitVec.getLsbD_ofNat, Nat.mul_comm f, decide_eq_true (by omega), Bool.true_and,
    Nat.testBit_two_pow_mul_add f hflags, if_pos hj]

theorem entry_present_iff :
    BitVec.ofNat 64 (f * 2 ^ 12 + flags) &&& PRESENT = 0 ↔ flags.testBit 0 = false := by
  rw [and_PRESENT_eq_zero, getLsbD_entry_low hflags (by decide)]

theorem entry_large_iff :
    BitVec.ofNat 64 (f * 2 ^ 12 + flags) &&& LARGE = 0 ↔ flags.testBit 7 = false := by
  rw [and_eq_zero_iff (by decide) getLsbD_LARGE, getLsbD_entry_low hflags (by decide)]

include hf

theorem entry_address :
    (BitVec.ofNat 64 (f * 2 ^ 12 + flags) &&& ADDRESS_MASK).toNat = f * 2 ^ 12 := by
  have heq : BitVec.ofNat 64 (f * 2 ^ 12 + flags) &&& ADDRESS_MASK =
      BitVec.ofNat 64 (f * Frame.SIZE) := by
    refine BitVec.eq_of_getLsbD_eq fun j hj => ?_
    rw [BitVec.getLsbD_and, getLsbD_ADDRESS_MASK j hj, getLsbD_frameAddress hf hj,
      BitVec.getLsbD_ofNat, decide_eq_true hj, Bool.true_and, Nat.mul_comm f,
      Nat.testBit_two_pow_mul_add f hflags, Bool.and_comm]
    by_cases hin : 12 ≤ j ∧ j < 52
    · rw [if_neg (by omega)]
    · rw [decide_eq_false hin, Bool.false_and, Bool.false_and]
  rw [heq, BitVec.toNat_ofNat, show Frame.SIZE = 2 ^ 12 from rfl]
  exact Nat.mod_eq_of_lt (by omega)

end

/-- The entries that the boot code writes, from the number of the first frame. -/
def finalSlot (b i : Nat) : Nat :=
  if i < 512 then
    if i = 0 ∨ i = 256 then (b + 1) * 2 ^ 12 + 3
    else if i = 511 then (b + 2) * 2 ^ 12 + 3 else 0
  else if i < 1024 then if i < 516 then (b + 3 + (i - 512)) * 2 ^ 12 + 3 else 0
  else if i < 1536 then if i = 1534 then (b + 3) * 2 ^ 12 + 3 else 0
  else (i - 1536) * 512 * 2 ^ 12 + 0x83

theorem Slots.congr {slot' : Nat → Nat} (h : Slots m base slot)
    (heq : ∀ i < SLOTS, slot' i = slot i) : Slots m base slot' := by
  intro i hi
  rw [heq i hi]
  exact h i hi

/-- A store to the slot `k`, wherever its address comes from. -/
theorem Slots.write32_at {a k value : Nat} {eax : BitVec 32} (h : Slots m base slot)
    (ha : a = base + 8 * k) (hvalue : eax.toNat = value) :
    Slots (BootMap.write32 m a eax) base (Function.update slot k value) := by
  subst ha hvalue
  exact h.write32

section

variable {b : Nat} (hfits : (b + 7) * 2 ^ 12 ≤ 2 ^ 32)
include hfits

theorem toNat_pointer {f : Nat} (hf : f < b + 7) :
    (pointer (f * 2 ^ 12)).toNat = f * 2 ^ 12 + 3 := by
  have hflags : PAGE_PRESENT ||| PAGE_WRITEABLE = BitVec.ofNat 32 3 := by decide
  rw [pointer, hflags]
  exact toNat_or_flags (by omega) (by decide)

omit hfits in
theorem mapDirectory_slots {ecx : Nat} (hecx : ecx < 512 * 4) (h : Slots m (b * 2 ^ 12) slot) :
    Slots (mapDirectory (b * 2 ^ 12) m ecx) (b * 2 ^ 12)
      (Function.update slot (1536 + ecx) (ecx * 512 * 2 ^ 12 + 0x83)) := by
  refine h.write32_at ?_ ?_
  · unfold level2
    rw [show PAGE_SIZE = 4096 from rfl]
    omega
  · have hflags : PAGE_PRESENT ||| PAGE_WRITEABLE ||| PAGE_HUGE = BitVec.ofNat 32 0x83 := by
      decide
    have hpage : 0x200000 * BitVec.ofNat 32 ecx = BitVec.ofNat 32 (ecx * 512 * 2 ^ 12) := by
      rw [show ecx * 512 * 2 ^ 12 = 0x200000 * ecx by omega, BitVec.ofNat_mul]
      rfl
    rw [hflags, hpage]
    exact toNat_or_flags (by omega) (by decide)

theorem mapDirectoryPointer_slots {ecx : Nat} (hecx : ecx < 4) (h : Slots m (b * 2 ^ 12) slot) :
    Slots (mapDirectoryPointer (b * 2 ^ 12) m ecx) (b * 2 ^ 12)
      (Function.update slot (512 + ecx) ((b + 3 + ecx) * 2 ^ 12 + 3)) := by
  refine h.write32_at ?_ ?_
  · unfold level3
    rw [show PAGE_SIZE = 4096 from rfl]
    omega
  · have hflags : PAGE_PRESENT ||| PAGE_WRITEABLE = BitVec.ofNat 32 3 := by decide
    have htable : BitVec.ofNat 32 PAGE_SIZE * BitVec.ofNat 32 ecx +
        BitVec.ofNat 32 (level2 (b * 2 ^ 12)) = BitVec.ofNat 32 ((b + 3 + ecx) * 2 ^ 12) := by
      rw [← BitVec.ofNat_mul, ← BitVec.ofNat_add]
      unfold level2
      rw [show PAGE_SIZE = 4096 from rfl]
      congr 1
      omega
    rw [htable, hflags]
    exact toNat_or_flags (by omega) (by decide)

theorem buildTables_slots (h : Slots m (b * 2 ^ 12) fun _ => 0) :
    Slots (buildTables (b * 2 ^ 12) m) (b * 2 ^ 12) (finalSlot b) := by
  have hsize : PAGE_SIZE = 2 ^ 12 := rfl
  have h3 : level3 (b * 2 ^ 12) = (b + 1) * 2 ^ 12 := by unfold level3; omega
  have h3High : level3High (b * 2 ^ 12) = (b + 2) * 2 ^ 12 := by unfold level3High; omega
  have h2 : level2 (b * 2 ^ 12) = (b + 3) * 2 ^ 12 := by unfold level2; omega
  have hdirectories := h.loop fun ecx hecx hslots =>
    mapDirectory_slots (m := _) (b := b) hecx hslots
  have hpointers := hdirectories.loop fun ecx hecx hslots =>
    mapDirectoryPointer_slots hfits hecx hslots
  have h4 : level4 (b * 2 ^ 12) = b * 2 ^ 12 := rfl
  unfold buildTables
  dsimp only
  rw [h3, h2, h3High, h4]
  have hfirst := hpointers.write32_at (a := b * 2 ^ 12) (k := 0) (by omega)
    (toNat_pointer hfits (show b + 1 < b + 7 by omega))
  have hdirect := hfirst.write32_at (a := b * 2 ^ 12 + 256 * 8) (k := 256) (by omega)
    (toNat_pointer hfits (show b + 1 < b + 7 by omega))
  have hkernel := hdirect.write32_at (a := (b + 2) * 2 ^ 12 + 510 * 8) (k := 1534) (by omega)
    (toNat_pointer hfits (show b + 3 < b + 7 by omega))
  have htop := hkernel.write32_at (a := b * 2 ^ 12 + 511 * 8) (k := 511) (by omega)
    (toNat_pointer hfits (show b + 2 < b + 7 by omega))
  refine htop.congr fun i hi => ?_
  unfold SLOTS at hi
  simp only [Function.update_apply, overlay, finalSlot]
  split_ifs <;> omega

end

/-! ## The walk -/

section

variable {b : Nat} {v : BitVec 64} (h : Slots m (b * 2 ^ 12) (finalSlot b)) {level : Nat}
include h

theorem read64_entry (hj : j < 7) :
    m.read64 (entryAddress ((b + j) * 2 ^ 12) v level) =
      BitVec.ofNat 64 (finalSlot b (j * 512 + indexAt v level)) := by
  have hindex := indexAt_lt v level
  have haddress : entryAddress ((b + j) * 2 ^ 12) v level =
      b * 2 ^ 12 + 8 * (j * 512 + indexAt v level) := by
    unfold entryAddress
    omega
  rw [haddress]
  exact h.read64 (by unfold SLOTS; omega)

theorem physical_none (hj : j < 7) (hslot : finalSlot b (j * 512 + indexAt v (level + 1)) = 0) :
    physical m v (level + 1) ((b + j) * 2 ^ 12) = none := by
  rw [physical, read64_entry h hj, hslot]
  exact if_pos (by decide)

theorem physical_table {f : Nat} (hj : j < 7) (hlevel : level ≠ 0) (hf : f < 2 ^ 40)
    (hslot : finalSlot b (j * 512 + indexAt v (level + 1)) = f * 2 ^ 12 + 3) :
    physical m v (level + 1) ((b + j) * 2 ^ 12) = physical m v level (f * 2 ^ 12) := by
  rw [physical, read64_entry h hj, hslot]
  rw [if_neg (by rw [entry_present_iff (by decide)]; decide), if_neg, entry_address hf (by decide)]
  rintro (hzero | hlarge)
  · exact hlevel hzero
  · exact hlarge ((entry_large_iff (by decide)).2 (by decide))

theorem physical_large {f : Nat} (hj : j < 7) (hlevel : level < 3) (hf : f < 2 ^ 40)
    (hslot : finalSlot b (j * 512 + indexAt v (level + 1)) = f * 2 ^ 12 + 0x83) :
    physical m v (level + 1) ((b + j) * 2 ^ 12) =
      some (f * 2 ^ 12 / 2 ^ (12 + 9 * level) * 2 ^ (12 + 9 * level) +
        v.toNat % 2 ^ (12 + 9 * level)) := by
  rw [physical, read64_entry h hj, hslot]
  rw [if_neg (by rw [entry_present_iff (by decide)]; decide), if_pos, if_pos hlevel,
    entry_address hf (by decide)]
  refine Or.inr fun hzero => ?_
  exact Bool.noConfusion ((entry_large_iff (by decide)).1 hzero)

/-- The directory `k` is four pages of two MiB each time. -/
theorem physical_directory {k : Nat} (hk : k < 4) :
    physical m v 2 ((b + 3 + k) * 2 ^ 12) =
      some ((k * 512 + indexAt v 2) * 2 ^ 21 + v.toNat % 2 ^ 21) := by
  have hindex := indexAt_lt v 2
  have hslot : finalSlot b ((3 + k) * 512 + indexAt v 2) =
      (k * 512 + indexAt v 2) * 512 * 2 ^ 12 + 0x83 := by
    unfold finalSlot
    rw [if_neg (by omega), if_neg (by omega), if_neg (by omega)]
    omega
  have hpage : (k * 512 + indexAt v 2) * 512 * 2 ^ 12 = (k * 512 + indexAt v 2) * 2 ^ 21 := by
    omega
  rw [Nat.add_assoc, physical_large h (by omega) (by decide) (by omega) hslot, hpage,
    show 12 + 9 * 1 = 21 from rfl, Nat.mul_div_cancel _ (by decide)]

variable (hfits : (b + 7) * 2 ^ 12 ≤ 2 ^ 32)
include hfits

/-- Below the first and the middle entry of the top level stand the four directories. -/
theorem physical_low (hfour : indexAt v 4 = 0 ∨ indexAt v 4 = 256) :
    physical m v 4 (b * 2 ^ 12) =
      if indexAt v 3 < 4 then
        some ((indexAt v 3 * 512 + indexAt v 2) * 2 ^ 21 + v.toNat % 2 ^ 21)
      else none := by
  have hindex := indexAt_lt v 3
  have htop : finalSlot b (0 * 512 + indexAt v 4) = (b + 1) * 2 ^ 12 + 3 := by
    unfold finalSlot
    rw [Nat.zero_mul, Nat.zero_add, if_pos (by omega), if_pos hfour]
  rw [← Nat.add_zero b, physical_table h (by decide) (by decide) (by omega) htop]
  split
  · next hlow =>
    have hslot : finalSlot b (1 * 512 + indexAt v 3) = (b + 3 + indexAt v 3) * 2 ^ 12 + 3 := by
      unfold finalSlot
      rw [if_neg (by omega), if_pos (by omega), if_pos (by omega)]
      omega
    rw [physical_table h (by decide) (by decide) (by omega) hslot, physical_directory h hlow]
  · next hhigh =>
    have hslot : finalSlot b (1 * 512 + indexAt v 3) = 0 := by
      unfold finalSlot
      rw [if_neg (by omega), if_pos (by omega), if_neg (by omega)]
    exact physical_none h (by decide) hslot

/-- Below the last entry stands the first directory, in the place of the kernel. -/
theorem physical_high (hfour : indexAt v 4 = 511) :
    physical m v 4 (b * 2 ^ 12) =
      if indexAt v 3 = 510 then some (indexAt v 2 * 2 ^ 21 + v.toNat % 2 ^ 21) else none := by
  have hindex := indexAt_lt v 3
  have htop : finalSlot b (0 * 512 + indexAt v 4) = (b + 2) * 2 ^ 12 + 3 := by
    unfold finalSlot
    rw [Nat.zero_mul, Nat.zero_add, if_pos (by omega), if_neg (by omega), if_pos hfour]
  rw [← Nat.add_zero b, physical_table h (by decide) (by decide) (by omega) htop]
  split
  · next hlast =>
    have hslot : finalSlot b (2 * 512 + indexAt v 3) = (b + 3 + 0) * 2 ^ 12 + 3 := by
      unfold finalSlot
      rw [if_neg (by omega), if_neg (by omega), if_pos (by omega), if_pos (by omega)]
    rw [physical_table h (by decide) (by decide) (by omega) hslot,
      physical_directory h (show 0 < 4 by decide), Nat.zero_mul, Nat.zero_add]
  · next hother =>
    have hslot : finalSlot b (2 * 512 + indexAt v 3) = 0 := by
      unfold finalSlot
      rw [if_neg (by omega), if_neg (by omega), if_pos (by omega), if_neg (by omega)]
    exact physical_none h (by decide) hslot

omit hfits in
theorem physical_elsewhere (hzero : indexAt v 4 ≠ 0) (hmiddle : indexAt v 4 ≠ 256)
    (hlast : indexAt v 4 ≠ 511) : physical m v 4 (b * 2 ^ 12) = none := by
  have hindex := indexAt_lt v 4
  rw [← Nat.add_zero b]
  refine physical_none h (by decide) ?_
  unfold finalSlot
  rw [Nat.zero_mul, Nat.zero_add, if_pos hindex, if_neg (not_or.2 ⟨hzero, hmiddle⟩), if_neg hlast]

theorem physical_iff (hv : Canonical v) (p : Nat) :
    physical m v 4 (b * 2 ^ 12) = some p ↔ Maps v.toNat p := by
  have hv' := hv
  have hlt := v.isLt
  have h2 : indexAt v 2 = v.toNat / 2 ^ 21 % 512 := indexAt_eq v 2
  have h3 : indexAt v 3 = v.toNat / 2 ^ 30 % 512 := indexAt_eq v 3
  have h4 : indexAt v 4 = v.toNat / 2 ^ 39 % 512 := indexAt_eq v 4
  unfold Canonical at hv'
  unfold Maps
  rw [show Config.DIRECT_MAP_BASE = 2 ^ 64 - 2 ^ 47 from rfl,
    show Config.KERNEL_VMA = 2 ^ 64 - 2 ^ 31 from rfl, show GIB = 2 ^ 30 from rfl]
  by_cases hfour : indexAt v 4 = 0 ∨ indexAt v 4 = 256
  · rw [physical_low h hfits hfour]
    split
    · rw [Option.some.injEq]
      omega
    · refine iff_of_false (fun hnone => Option.some_ne_none _ hnone.symm) ?_
      omega
  · by_cases hlast : indexAt v 4 = 511
    · rw [physical_high h hfits hlast]
      split
      · rw [Option.some.injEq]
        omega
      · refine iff_of_false (fun hnone => Option.some_ne_none _ hnone.symm) ?_
        omega
    · rw [physical_elsewhere h (by omega) (by omega) hlast]
      refine iff_of_false (fun hnone => Option.some_ne_none _ hnone.symm) ?_
      omega

end

end

/-! ## The tables as the CPU finds them -/

/-- Where an address leads with the tables in `cr3`. -/
def translateWith (tables : BitVec 32 × ByteMemory) (v : BitVec 64) : Option Nat :=
  physical tables.2 v TOP_LEVEL tables.1.toNat

/-- Where the tables may stand: in clear pages below 4 GiB. -/
structure Placed (base : Nat) (m : ByteMemory) : Prop where
  aligned : base % PAGE_SIZE = 0
  fits : tablesEnd base ≤ 4 * GIB
  bss : ∀ a, base ≤ a → a < tablesEnd base → m a = 0

theorem Placed.translateWith_iff {base : Nat} {m : ByteMemory} (h : Placed base m)
    {v : BitVec 64} (hv : Canonical v) (p : Nat) :
    translateWith (setupPaging 0 base m) v = some p ↔ Maps v.toNat p := by
  have hfits := h.fits
  have haligned := h.aligned
  unfold tablesEnd at hfits
  rw [show PAGE_SIZE = 2 ^ 12 from rfl] at hfits haligned
  rw [show GIB = 2 ^ 30 from rfl] at hfits
  obtain ⟨b, rfl⟩ : ∃ b, base = b * 2 ^ 12 := ⟨base / 2 ^ 12, by omega⟩
  have hbound : (b + 7) * 2 ^ 12 ≤ 2 ^ 32 := by omega
  have hroot : (BitVec.ofNat 32 (b * 2 ^ 12)).toNat = b * 2 ^ 12 := by
    rw [BitVec.toNat_ofNat]
    exact Nat.mod_eq_of_lt (by omega)
  have hslots := buildTables_slots hbound (slots_of_zero h.bss)
  unfold translateWith setupPaging level4
  rw [if_neg (by decide)]
  dsimp only
  rw [hroot]
  exact physical_iff hslots hbound hv p

/-! ### What the code leaves alone -/

theorem foldl_of_outside {a n : Nat} (hbody : ∀ m ecx, ecx < n → body m ecx a = m a)
    (m : ByteMemory) :
    (List.range n).foldl body m a = m a := by
  suffices hall : ∀ k ≤ n, (List.range k).foldl body m a = m a from hall n (Nat.le_refl n)
  intro k hk
  induction k with
  | zero => rfl
  | succ k ih =>
    rw [List.range_succ, List.foldl_append]
    exact (hbody _ k hk).trans (ih (Nat.le_of_lt hk))

section

variable {base a : Nat} (ha : a < base ∨ tablesEnd base ≤ a)
include ha

theorem write32_of_outside {m : ByteMemory} {b : Nat} {eax : BitVec 32} (hlo : base ≤ b)
    (hhi : b + 4 ≤ tablesEnd base) : write32 m b eax a = m a :=
  ByteMemory.store_of_outside (by omega)

/-- `SetupPaging` writes to the seven pages only. -/
theorem setupPaging_of_outside (kernelRoot : BitVec 32) (m : ByteMemory) :
    (setupPaging kernelRoot base m).2 a = m a := by
  have hend : tablesEnd base = base + 28672 := rfl
  have h2 : level2 base = base + 12288 := rfl
  have h3 : level3 base = base + 4096 := rfl
  have h3h : level3High base = base + 8192 := rfl
  have h4 : level4 base = base := rfl
  unfold setupPaging
  split
  · rfl
  unfold buildTables
  dsimp only
  rw [write32_of_outside ha (by omega) (by omega), write32_of_outside ha (by omega) (by omega),
    write32_of_outside ha (by omega) (by omega), write32_of_outside ha (by omega) (by omega),
    foldl_of_outside, foldl_of_outside]
  · intro m ecx hlt
    exact write32_of_outside ha (by omega) (by omega)
  · intro m ecx hlt
    exact write32_of_outside ha (by omega) (by omega)

end

/-- The bootstrap processor maps the first 4 GiB to themselves and to the direct map, the
first GiB to the place of the kernel, and nothing else; and it writes to the tables only. -/
theorem boot_map_exact {base : Nat} {m : ByteMemory} (h : Placed base m) :
    (∀ v, Canonical v → ∀ p,
      translateWith (setupPaging 0 base m) v = some p ↔ Maps v.toNat p) ∧
      ∀ a, a < base ∨ tablesEnd base ≤ a → (setupPaging 0 base m).2 a = m a :=
  ⟨fun _ hv p => h.translateWith_iff hv p, fun _ ha => setupPaging_of_outside ha 0 m⟩

/-- Tables in clear memory. -/
theorem placed_clear : Placed 0x119000 fun _ => 0 :=
  ⟨by decide, by decide, fun _ _ _ => rfl⟩

/-- The first byte of a kernel at 1 MiB, in all three places. -/
theorem boot_map_exact_kernel :
    translateWith (setupPaging 0 0x119000 fun _ => 0) 0x100000 = some 0x100000 ∧
      translateWith (setupPaging 0 0x119000 fun _ => 0) 0xFFFF800000100000 = some 0x100000 ∧
      translateWith (setupPaging 0 0x119000 fun _ => 0) 0xFFFFFFFF80100000 = some 0x100000 := by
  have hexact := (boot_map_exact placed_clear).1
  exact ⟨(hexact _ (Or.inl (by decide)) _).2 (Or.inl (by decide)),
    (hexact _ (Or.inr (by decide)) _).2 (Or.inr (Or.inl (by decide))),
    (hexact _ (Or.inr (by decide)) _).2 (Or.inr (Or.inr (by decide)))⟩

/-! ## The step to the kernel's tables -/

section

variable {boot : Handover} {s : State} {v : BitVec 64} {p : Nat} {step : BootStep}

theorem Spans.placed {call : MapCall} {start length source : Nat}
    (hspans : Spans call start length source) (htouch : call.Touches v) (h : Requested s call v) :
    (translate s v).toNat + start = source + v.toNat ∧
      start / 4096 ≤ v.toNat / 4096 ∧ v.toNat / 4096 * 4096 < start + length := by
  obtain ⟨hv, hs, hp⟩ := hspans
  have htranslate := h.translate
  obtain ⟨hlo, hhi⟩ := htouch
  rw [hv, hp] at htranslate
  rw [hv] at hlo
  rw [hv, hs] at hhi
  exact ⟨htranslate, hlo, hhi⟩

/-- A call of `Paging::Initialize` that covers an address of the boot code's tables asks for
the same place. -/
theorem Maps.translate_eq (hlinked : Linked boot) (hram : RamFits boot)
    (hstep : step ∈ bootSteps boot) (htouch : step.call.Touches v) (hmaps : Maps v.toNat p)
    (h : Requested s step.call v) : (translate s v).toNat = p := by
  have hsize : PAGE_SIZE = 4096 := rfl
  have hbase : Config.DIRECT_MAP_BASE = 2 ^ 64 - 2 ^ 47 := rfl
  have hvma : Config.KERNEL_VMA = 2 ^ 64 - 2 ^ 31 := rfl
  have hgib : GIB = 2 ^ 30 := rfl
  unfold Maps at hmaps
  cases hlinked.kind hstep with
  | @identity start stop access caching hlt hstop =>
    have hplaced := Spans.placed (spans_identity access caching hlt hstop) htouch h
    omega
  | @direct region hregion =>
    have hfits := hram region hregion
    have hplaced := Spans.placed (spans_direct hfits) htouch h
    omega
  | @span span access hstart hlt hstop =>
    have hplaced := Spans.placed (spans_span access hstart hlt hstop) htouch h
    omega

/-- What the kernel stands on at the switch: the first two MiB, the boot code and the image,
as far as the boot code's tables reach, and available memory in the direct map. -/
def InUse (boot : Handover) (v : Nat) : Prop :=
  v < LOW_MEMORY_END ∨
    boot.bootSpan.start ≤ v ∧ v < boot.bootSpan.stop ∨
    (∃ span ∈ [boot.textSpan, boot.rodataSpan, boot.dataSpan],
      span.start ≤ v ∧ v < span.stop ∧ v < Config.KERNEL_VMA + GIB) ∨
    ∃ region ∈ availableRegions boot, Config.DIRECT_MAP_BASE + region.address ≤ v ∧
      v < Config.DIRECT_MAP_BASE + (region.address + region.length) ∧
      v < Config.DIRECT_MAP_BASE + 4 * GIB

theorem InUse.maps (hlinked : Linked boot) (h : InUse boot v.toNat) : ∃ p, Maps v.toNat p := by
  have hlow : LOW_MEMORY_END ≤ 4 * GIB := by decide
  have hboot := hlinked.bootSpan
  rcases h with h | h | ⟨span, hspan, h⟩ | ⟨region, -, h⟩
  · exact ⟨_, Or.inl ⟨by omega, rfl⟩⟩
  · exact ⟨_, Or.inl ⟨by omega, rfl⟩⟩
  · have hstart : Config.KERNEL_VMA ≤ span.start := by
      simp only [List.mem_cons, List.not_mem_nil, or_false] at hspan
      rcases hspan with rfl | rfl | rfl
      · exact hlinked.textSpan.1
      · exact hlinked.rodataSpan.1
      · exact hlinked.dataSpan.1
    exact ⟨_, Or.inr (Or.inr ⟨by omega, by omega, rfl⟩)⟩
  · exact ⟨_, Or.inr (Or.inl ⟨by omega, by omega, rfl⟩)⟩

theorem Spans.touches {call : MapCall} {start length source : Nat}
    (hspans : Spans call start length source) (hlo : start ≤ v.toNat)
    (hhi : v.toNat < start + length) : call.Touches v := by
  obtain ⟨hv, hs, -⟩ := hspans
  unfold MapCall.Touches
  rw [hv, hs, show PAGE_SIZE = 4096 from rfl]
  omega

theorem touched_of_identitySteps {start stop : Nat} {access : Access} {caching : Caching}
    (hsub : ∀ step ∈ identitySteps start stop access caching, step ∈ bootSteps boot)
    (hlo : start ≤ v.toNat) (hhi : v.toNat < stop) (hstop : stop ≤ 2 ^ 33) :
    ∃ step ∈ bootSteps boot, step.call.Touches v := by
  refine ⟨⟨identityCall start stop access caching, 0⟩, hsub _ ?_, ?_⟩
  · rw [identitySteps, if_neg (by omega)]
    exact List.mem_singleton.2 rfl
  · exact Spans.touches (spans_identity access caching (by omega) hstop) hlo (by omega)

theorem touched_of_spanSteps {span : Range} {access : Access}
    (hsub : ∀ step ∈ spanSteps span access, step ∈ bootSteps boot)
    (hspan : Config.KERNEL_VMA ≤ span.start ∧ span.stop ≤ 2 ^ 64 - PAGE_SIZE)
    (hlo : span.start ≤ v.toNat) (hhi : v.toNat < span.stop) :
    ∃ step ∈ bootSteps boot, step.call.Touches v := by
  refine ⟨⟨spanCall span access, 0⟩, hsub _ ?_, ?_⟩
  · rw [spanSteps, if_neg (by omega)]
    exact List.mem_singleton.2 rfl
  · exact Spans.touches (spans_span access hspan.1 (by omega) hspan.2) hlo (by omega)

theorem mem_bootSteps_of_image (h : step ∈ imageSteps boot) : step ∈ bootSteps boot :=
  List.mem_append_right _ (List.mem_append_right _ (List.mem_append_right _ h))

/-- `Paging::Initialize` maps what the kernel stands on. -/
theorem InUse.touched (hlinked : Linked boot) (hram : RamFits boot) (h : InUse boot v.toNat) :
    ∃ step ∈ bootSteps boot, step.call.Touches v := by
  rcases h with h | h | ⟨span, hspan, hlo, hhi, -⟩ | ⟨region, hregion, hlo, hhi, -⟩
  · exact touched_of_identitySteps (fun _ => List.mem_append_left _) (Nat.zero_le _) h (by decide)
  · exact touched_of_identitySteps
      (fun _ hstep => mem_bootSteps_of_image (List.mem_append_left _ hstep)) h.1 h.2
      (Nat.le_trans hlinked.bootSpan (by decide))
  · simp only [List.mem_cons, List.not_mem_nil, or_false] at hspan
    rcases hspan with rfl | rfl | rfl
    · exact touched_of_spanSteps (fun _ hstep => mem_bootSteps_of_image
        (List.mem_append_right _ (List.mem_append_left _ hstep))) hlinked.textSpan hlo hhi
    · exact touched_of_spanSteps (fun _ hstep => mem_bootSteps_of_image
        (List.mem_append_right _ (List.mem_append_right _ (List.mem_append_left _ hstep))))
        hlinked.rodataSpan hlo hhi
    · exact touched_of_spanSteps (fun _ hstep => mem_bootSteps_of_image
        (List.mem_append_right _ (List.mem_append_right _ (List.mem_append_right _ hstep))))
        hlinked.dataSpan hlo hhi
  · refine ⟨⟨directCall region, region.stop⟩, ?_,
      Spans.touches (spans_direct (hram region hregion)) hlo (by omega)⟩
    exact List.mem_append_right _
      (List.mem_append_right _ (List.mem_append_left _ (List.mem_map_of_mem hregion)))

end

/-- When `Paging::Activate` replaces the boot code's tables by the kernel's, an address that
both map leads to the same place, and what the kernel stands on is mapped by both. -/
theorem activate_keeps_translations {base location : Nat} {m memory : ByteMemory} {boot : Handover}
    {s₀ : Frame.State} {s : State} (hplaced : Placed base m) (hlinked : Linked boot)
    (hram : RamFits boot) (hframes : Frame.initializeState boot = .ok (s₀, location))
    (hpaging : initializeState boot memory s₀ = .ok s) {v : BitVec 64} (hv : Canonical v) :
    (∀ p, translateWith (setupPaging 0 base m) v = some p → effective s v ≠ 0 →
      (translate s v).toNat = p) ∧
      (InUse boot v.toNat →
        translateWith (setupPaging 0 base m) v = some (translate s v).toNat) := by
  have hs₀ := addressable_of_boot hframes (physicallyAddressable_of_ramFits hram)
  obtain ⟨hbooted, -⟩ := booted_of_ok (Frame.initialized_of_ok hframes).wf hs₀
    (fun step => hlinked.admissible hram) hpaging
  have htouched : ∀ p, Maps v.toNat p → (∃ step ∈ bootSteps boot, step.call.Touches v) →
      (translate s v).toNat = p := by
    rintro p hmaps ⟨step, hstep, htouch⟩
    cases hlast : lastTouching (bootSteps boot) v with
    | none => exact absurd htouch (lastTouching_eq_none.1 hlast step hstep)
    | some last =>
      obtain ⟨hmem, htouch⟩ := lastTouching_eq_some hlast
      exact hmaps.translate_eq hlinked hram hmem htouch (hbooted.requested v hv last hlast)
  constructor
  · intro p hp hmapped
    refine htouched p ((hplaced.translateWith_iff hv p).1 hp) (Decidable.not_not.1 ?_)
    intro hnone
    refine hmapped (hbooted.bare v hv fun step hstep htouch => hnone ⟨step, hstep, htouch⟩)
  · intro huse
    obtain ⟨p, hmaps⟩ := huse.maps hlinked
    rw [htouched p hmaps (huse.touched hlinked hram)]
    exact (hplaced.translateWith_iff hv p).2 hmaps

/-- The first byte of the text of a small kernel. -/
theorem activate_keeps_translations_roomy : ∃ s₀ s,
    Frame.initializeState roomyHandover = .ok (s₀, 0x120000) ∧
      Paging.initializeState roomyHandover (fun _ => 0) s₀ = .ok s ∧
      translateWith (setupPaging 0 0x119000 fun _ => 0) 0xFFFFFFFF80101000 = some 0x101000 ∧
      (translate s 0xFFFFFFFF80101000).toNat = 0x101000 := by
  obtain ⟨-, k, -, hboot, -⟩ := bootKernel_roomy fun _ => 0
  obtain ⟨s₀, s, hframes, hpaging, -⟩ := bootKernel_eq_ok hboot
  have hv : Canonical 0xFFFFFFFF80101000 := Or.inr (by decide)
  have hkept := (activate_keeps_translations placed_clear linked_roomy ramFits_roomy hframes hpaging
    hv).2 (Or.inr (Or.inr (Or.inl ⟨_, List.mem_cons_self, by decide, by decide, by decide⟩)))
  have hmaps := (placed_clear.translateWith_iff hv 0x101000).2 (Or.inr (Or.inr (by decide)))
  exact ⟨s₀, s, hframes, hpaging, hmaps, Option.some.inj (hkept.symm.trans hmaps)⟩

end X64HK.BootMap
