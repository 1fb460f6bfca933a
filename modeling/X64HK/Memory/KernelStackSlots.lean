import Mathlib.Logic.Function.Iterate
import X64HK.Config

/-!
# Slots and guard pages of kernel stacks

The address arithmetic of `Kernel/Memory/KernelStack.cpp`.  The stacks
stand one behind the other from `KERNEL_STACK_BASE` on.  The lowest page of
a slot is never mapped, so that a stack that grows out of its slot faults
there.

The source adds `STRIDE` to `s_NextSlot` once per stack.  `nextSlot n` is
the value after `n` stacks, and `nextSlot_eq` is its closed form.
-/

namespace X64HK.KernelStack

/-- `Paging::PAGE_SIZE`. -/
def GUARD_SIZE : Nat := 4 * KIB

def STRIDE : Nat := Config.THREAD_STACK_SIZE + GUARD_SIZE

/-- `s_NextSlot += STRIDE`. -/
def advance (slot : Nat) : Nat := wrap64 (slot + STRIDE)

/-- `s_NextSlot` after `n` stacks were handed out. -/
def nextSlot (n : Nat) : Nat := advance^[n] Config.KERNEL_STACK_BASE

/-- `KernelStack::IsGuardPage`, with `s_NextSlot` as an argument. -/
def isGuardPage (next address : Nat) : Bool :=
  if address < Config.KERNEL_STACK_BASE ∨ address ≥ next then false
  else (address - Config.KERNEL_STACK_BASE) % STRIDE < GUARD_SIZE

theorem nextSlot_succ (n : Nat) : nextSlot (n + 1) = advance (nextSlot n) :=
  Function.iterate_succ_apply' advance n _

theorem nextSlot_eq (n : Nat) : nextSlot n = wrap64 (Config.KERNEL_STACK_BASE + n * STRIDE) := by
  induction n with
  | zero => rfl
  | succ n ih =>
    rw [nextSlot_succ, ih]
    unfold advance wrap64
    rw [Nat.mod_add_mod, Nat.add_assoc, Nat.add_one_mul]

/-- The guard pages are the lowest pages of the slots in use, as long as
the slots have not run past the end of the address space. -/
theorem isGuardPage_iff {n : Nat}
    (hn : Config.KERNEL_STACK_BASE + n * STRIDE < 2 ^ 64) (address : Nat) :
    isGuardPage (nextSlot n) address = true ↔
      ∃ k, k < n ∧ Config.KERNEL_STACK_BASE + k * STRIDE ≤ address ∧
        address < Config.KERNEL_STACK_BASE + k * STRIDE + GUARD_SIZE := by
  rw [nextSlot_eq, wrap64_of_lt hn]
  have hguard : GUARD_SIZE < STRIDE := by decide
  have hpos : 0 < STRIDE := by decide
  unfold isGuardPage
  generalize Config.KERNEL_STACK_BASE = base at *
  constructor
  · intro h
    split at h
    · exact absurd h nofun
    · rename_i hin
      have hmod := of_decide_eq_true h
      have hdiv := Nat.div_add_mod' (address - base) STRIDE
      refine ⟨(address - base) / STRIDE, ?_, by omega, by omega⟩
      exact (Nat.div_lt_iff_lt_mul hpos).2 (by omega)
  · rintro ⟨k, hk, hlo, hhi⟩
    have hstep : (k + 1) * STRIDE ≤ n * STRIDE := Nat.mul_le_mul_right _ hk
    rw [Nat.add_one_mul] at hstep
    rw [if_neg (by omega)]
    refine decide_eq_true ?_
    obtain ⟨d, hd⟩ : ∃ d, address - base = d + k * STRIDE := ⟨_, (by omega :
      address - base = (address - base - k * STRIDE) + k * STRIDE)⟩
    rw [hd, Nat.add_mul_mod_self_right, Nat.mod_eq_of_lt (by omega)]
    omega

end X64HK.KernelStack
