import X64HK.Config

/-!
# What the boot loader handed over

The accessors of `Kernel/Boot/Multiboot.h` as the rest of the kernel sees
them: a list of memory regions, a list of regions that hold the loader's
own structures, and a list of modules.  `GetMemoryRegion`,
`GetInfoRegion` and `GetModule` are indexed reads of these lists, and a
`for` loop over one of them visits the list in order.

`Handover` also carries the addresses that the linker script and the MADT
fix before `Main` runs.
-/

namespace X64HK.Multiboot

/-- `Multiboot::MemoryType`.  The loader may report a type that the
specification does not name. -/
inductive MemoryType where
  | available
  | reserved
  | acpiReclaimable
  | acpiNonVolatile
  | bad
  | other (value : Nat)
  deriving DecidableEq, Repr

structure MemoryRegion where
  address : Nat
  length : Nat
  type : MemoryType
  deriving DecidableEq, Repr

/-- `MemoryRegion::End`, a 64-bit sum. -/
def MemoryRegion.stop (region : MemoryRegion) : Nat :=
  wrap64 (region.address + region.length)

structure Module where
  start : Nat
  stop : Nat
  deriving DecidableEq, Repr

end X64HK.Multiboot

namespace X64HK

/-- A half-open range of addresses, `Frame::Range`. -/
structure Range where
  start : Nat
  stop : Nat
  deriving DecidableEq, Repr

/-- The machine as `Main` finds it: the loader's tables, the symbols of
the linker script and the addresses of the interrupt controllers. -/
structure Handover where
  memoryRegions : List Multiboot.MemoryRegion
  infoRegions : List Multiboot.MemoryRegion
  modules : List Multiboot.Module
  /-- `___BOOT_START___` and `___BOOT_END___`. -/
  bootSpan : Range
  /-- `___KERNEL_TEXT_START___` and `___KERNEL_TEXT_END___`. -/
  textSpan : Range
  /-- `___KERNEL_RODATA_START___` and `___KERNEL_RODATA_END___`. -/
  rodataSpan : Range
  /-- `___KERNEL_DATA_START___` and `___KERNEL_DATA_END___`.  The second
  one is also `___KERNEL_END___`. -/
  dataSpan : Range
  /-- `LocalApic::GetBaseAddress()`. -/
  localApicAddress : Nat
  /-- `Apic::GetIoApicAddress()`, or zero. -/
  ioApicAddress : Nat
  /-- `Cpu::Id::Has(Cpu::Id::ExtendedFeatureEdx::NX)`. -/
  noExecute : Bool
  deriving DecidableEq, Repr

end X64HK
