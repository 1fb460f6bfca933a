import Mathlib.Algebra.Group.Nat.Defs

/-!
# Constants of the kernel

The values that several modules share: the sizes of `Kernel/Types.h`, the
tuning knobs of `Kernel/Config.h` and the user half of `ABI/C/HK.h`.  A
constant that one module uses alone stays in that module.

Machine words are natural numbers wherever the code counts with them, and
`wrap64` and `sub64` are the two places where a 64-bit counter can leave
its range.  Addresses that the code takes apart bit by bit are
`BitVec 64`.
-/

namespace X64HK

/-! ## `Kernel/Types.h` -/

def KIB : Nat := 1024
def MIB : Nat := 1024 * KIB
def GIB : Nat := 1024 * MIB

/-- A sum of unsigned 64-bit values, as the machine keeps it. -/
def wrap64 (n : Nat) : Nat := n % 2 ^ 64

/-- A difference of unsigned 64-bit values.  It wraps around when `b` is
above `a`. -/
def sub64 (a b : Nat) : Nat := (a + 2 ^ 64 - b) % 2 ^ 64

theorem wrap64_of_lt {n : Nat} (h : n < 2 ^ 64) : wrap64 n = n :=
  Nat.mod_eq_of_lt h

theorem wrap64_lt (n : Nat) : wrap64 n < 2 ^ 64 :=
  Nat.mod_lt n (by decide)

theorem sub64_of_le {a b : Nat} (ha : a < 2 ^ 64) (h : b ≤ a) : sub64 a b = a - b := by
  unfold sub64
  omega

/-! ## `Kernel/Config.h` -/

namespace Config

def MAX_CORES : Nat := 8

def THREAD_STACK_SIZE : Nat := 16 * KIB

def KERNEL_STACK_BASE : Nat := 0xFFFFC00000000000

def SCHEDULER_TICK_MS : Nat := 10

def HEAP_LOG2 : Nat := 24

def KERNEL_VMA : Nat := 0xFFFFFFFF80000000

def DIRECT_MAP_BASE : Nat := 0xFFFF800000000000

def IDENTITY_MAPPED_LIMIT : Nat := 4 * GIB

def EPILOGUE_QUEUE_SIZE : Nat := 64

end Config

/-! ## `ABI/C/HK.h` -/

namespace HK

def USER_MIN : Nat := 0x0000000000001000

def USER_STACK_TOP : Nat := 0x00007FFFFFFFF000

def USER_STACK_SIZE : Nat := 64 * KIB

def USER_MAX : Nat := 0x0000800000000000

def EFAULT : Nat := 4

def EBADF : Nat := 5

def STDOUT : Nat := 1

def WRITE_MAX : Nat := 1024

end HK

end X64HK
