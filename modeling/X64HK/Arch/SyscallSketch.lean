import Mathlib.Tactic.IntervalCases
import X64HK.Arch.SyscallPath
import X64HK.Lib.WordStack

/-!
# What is known at each instruction of `SyscallEntry`

`Sketch` says what is known of a core's registers and of the words on its kernel stack,
and `Sketch.exec` is an instruction on sketches.  `sketchAt user index` is the sketch
before the instruction at `index`, if the task executed `syscall` in the state `user`.

Interrupts are on for two of the instructions only.  At those, nothing but the
callee-saved registers is counted on.

* `Sketch.exec_sound`: an instruction leads from a state that fits a sketch to one that
  fits the next sketch.
* `sketchAt_sysret`: before `sysret` every register is known, apart from `rax`.
* `sketchAt_open`: where interrupts are on, the core is on its kernel stack and the
  bases of `gs` are not swapped.
-/

namespace X64HK.SyscallPath

open WordStack
open KernelStack (STRIDE GUARD_SIZE slotAt)
open Register

/-! ## Sketches -/

structure Sketch where
  known : Register → Option Nat
  /-- The stack pointer is the user's, with this value. -/
  userSp : Option Nat
  /-- The words on the kernel stack, up to its top. -/
  words : List (Option Nat)
  /-- Between the two `swapgs`. -/
  swapped : Bool
  /-- What the field `UserStack` of the area is known to be. -/
  parked : Option Nat
  /-- Interrupts are known to be off. -/
  masked : Bool

namespace Sketch

/-- After `syscall`. -/
def start (user : UserState) : Sketch where
  known := Function.update (Function.update (fun r => some (user.registers r)) rcx user.rip) r11
    user.flags.toNat
  userSp := some (user.registers rsp)
  words := []
  swapped := false
  parked := none
  masked := true

/-- Count on nothing but the callee-saved registers and the stack.  Other system calls on
the core park their stack pointers in the same area. -/
def forget (s : Sketch) : Sketch :=
  { s with known := fun r => if r ∈ CALLEE_SAVED then s.known r else none, parked := none }

/-- The core is on its kernel stack, with room for more words. -/
def roomy (s : Sketch) : Bool := s.userSp.isNone && s.words.length < 16

/-- An instruction on sketches.  There is no answer for instructions that `SyscallEntry`
has no use for. -/
def exec (s : Sketch) : Instr → Option Sketch
  | .swapgs => some { s with swapped := !s.swapped }
  | .storeGs .userStack rsp => if s.swapped then some { s with parked := s.userSp } else none
  | .loadGs rsp .kernelStack =>
    if s.swapped then some { s with userSp := none, words := [] } else none
  | .pushGs .userStack =>
    if s.swapped && s.roomy then some { s with words := s.parked :: s.words } else none
  | .push source =>
    if source ≠ rsp && s.roomy then some { s with words := s.known source :: s.words } else none
  | .pop target =>
    match s.userSp, s.words with
    | none, word :: words =>
      if target = rsp then
        if words.isEmpty && word.isSome then some { s with userSp := word, words := [] } else none
      else some { s with known := Function.update s.known target word, words := words }
    | _, _ => none
  | .subRsp8 => if s.roomy then some { s with words := none :: s.words } else none
  | .addRsp8 =>
    match s.userSp, s.words with
    | none, _ :: words => some { s with words := words }
    | _, _ => none
  | .mov target source =>
    if target = rsp || source = rsp then none
    else some { s with known := Function.update s.known target (s.known source) }
  | .sti | .call => some { s.forget with masked := false }
  | .cli => some { s with masked := true }
  | .storeGs .. | .loadGs .. | .pushGs _ | .sysret => none

/-- The registers, the flags and the stack words are as the sketch says. -/
structure Fits (s : Sketch) (top : Nat) (registers : Registers) (flags : Flags)
    (memory : Nat → Nat) : Prop where
  known : ∀ r w, r ≠ rsp → s.known r = some w → registers r = w
  userSp : ∀ w, s.userSp = some w → registers rsp = w ∧ s.words = []
  kernelSp : s.userSp = none → registers rsp + 8 * s.words.length = top
  words : Holds memory (top - 8 * s.words.length) s.words
  masked : s.masked = true → interruptsOn flags = false

/-- The bases of `gs` and the area are as the sketch says. -/
structure OnCore (s : Sketch) (layout : Layout) (core gsBase kernelGsBase : Nat)
    (area : Area) : Prop where
  gsBase : gsBase = if s.swapped then layout.areaAddress core else 0
  kernelGsBase : kernelGsBase = if s.swapped then 0 else layout.areaAddress core
  parked : ∀ w, s.parked = some w → area .userStack = w

end Sketch

/-- What is known before the instruction at `index`. -/
def sketchAt (user : UserState) : Nat → Option Sketch
  | 0 => some (Sketch.start user)
  | index + 1 => (sketchAt user index).bind fun s => SYSCALL_ENTRY[index]?.bind s.exec

/-! ## The slots of the stacks -/

variable {layout : Layout} {core : Nat} {thread : Thread}

theorem Layout.bottom_add (layout : Layout) (thread : Thread) :
    layout.bottom thread + Config.THREAD_STACK_SIZE = layout.top thread := by
  unfold bottom top
  rw [KernelStack.slotAt_succ, KernelStack.stride_eq]
  omega

/-- The stack has room for the words of `SyscallEntry`. -/
theorem Layout.roomy (layout : Layout) (thread : Thread) :
    layout.bottom thread + 256 ≤ layout.top thread := by
  rw [← layout.bottom_add]
  exact Nat.add_le_add_left (by decide) _

theorem Layout.areaAt_areaAddress (layout : Layout) (core : Nat) :
    layout.areaAt (layout.areaAddress core) = some core := by
  unfold areaAt areaAddress
  rw [Nat.add_sub_cancel_left, Nat.mul_mod_left, Nat.mul_div_cancel core (by decide)]
  exact if_pos ⟨Nat.le_add_right .., rfl⟩

/-! ## Every instruction keeps to its sketch -/

/-- What an instruction leaves alone. -/
structure Frugal (layout : Layout) (core : Nat) (thread : Thread) (v v' : View) : Prop where
  kernelStack : v'.areas core .kernelStack = v.areas core .kernelStack
  areas : ∀ c, c ≠ core → v'.areas c = v.areas c
  memory : ∀ a, ¬(layout.bottom thread ≤ a ∧ a < layout.top thread) → v'.memory a = v.memory a

theorem Frugal.of_eq {v v' : View} (hareas : v'.areas = v.areas) (hmemory : v'.memory = v.memory) :
    Frugal layout core thread v v' :=
  ⟨by rw [hareas], fun _ _ => by rw [hareas], fun _ _ => by rw [hmemory]⟩

namespace Sketch

variable {s s' : Sketch} {v v' : View} {top : Nat} {known : Option Nat}

theorem Fits.rsp_eq {registers : Registers} {flags : Flags} {memory : Nat → Nat}
    (h : s.Fits top registers flags memory) (hsp : s.userSp = none) :
    top - 8 * s.words.length = registers rsp := by
  have := h.kernelSp hsp
  omega

theorem roomy_iff : s.roomy = true ↔ s.userSp = none ∧ s.words.length < 16 := by
  unfold roomy
  rw [Bool.and_eq_true, Option.isNone_iff_eq_none, decide_eq_true_iff]

/-- A word is pushed that agrees with what is known of it. -/
theorem Fits.push {word : Nat} (h : s.Fits (layout.top thread) v.registers v.flags v.memory)
    (hroomy : s.roomy = true) (hknown : ∀ w, known = some w → word = w)
    (hv : v.push word = some v') :
    Fits { s with words := known :: s.words } (layout.top thread) v'.registers v'.flags v'.memory ∧
      v'.gsBase = v.gsBase ∧ v'.kernelGsBase = v.kernelGsBase ∧ v'.areas = v.areas ∧
      ∀ a, ¬(layout.bottom thread ≤ a ∧ a < layout.top thread) → v'.memory a = v.memory a := by
  obtain ⟨hsp, hlength⟩ := roomy_iff.1 hroomy
  have hrsp := h.kernelSp hsp
  have hroom := layout.roomy thread
  obtain ⟨_, rfl⟩ := View.push_eq_some hv
  have hbase : layout.top thread - 8 * (known :: s.words).length = v.registers rsp - 8 := by
    rw [List.length_cons]
    omega
  refine ⟨⟨fun r w hr hw => ?_, fun w hw => ?_, fun _ => ?_, ?_, h.masked⟩, rfl, rfl, rfl,
    fun a ha => ?_⟩
  · exact (Function.update_of_ne hr ..).trans (h.known r w hr hw)
  · exact absurd (hsp.symm.trans hw) nofun
  · show Function.update v.registers rsp (v.registers rsp - 8) rsp + 8 * (s.words.length + 1) = _
    rw [Function.update_self]
    omega
  · rw [hbase]
    refine Holds.push ?_ hknown
    have hwords := h.words
    rwa [h.rsp_eq hsp, show v.registers rsp = v.registers rsp - 8 + 8 by omega] at hwords
  · refine Function.update_of_ne ?_ ..
    rintro rfl
    exact ha ⟨by omega, by omega⟩

theorem Fits.forget {registers : Registers} {flags : Flags} {memory : Nat → Nat}
    (h : s.Fits top registers flags memory) (flags' : Flags) :
    Fits { s.forget with masked := false } top registers flags' memory where
  known := by
    intro r w hr hw
    obtain ⟨_, hw⟩ := Option.ite_none_right_eq_some.1 hw
    exact h.known r w hr hw
  userSp := h.userSp
  kernelSp := h.kernelSp
  words := h.words
  masked := nofun

/-- A register other than `rsp` gets a value that agrees with what is known of it. -/
theorem Fits.set {target : Register} {word : Nat} (h : s.Fits top v.registers v.flags v.memory)
    (htarget : target ≠ rsp) (hknown : ∀ w, known = some w → word = w) :
    Fits { s with known := Function.update s.known target known } top
      (Function.update v.registers target word) v.flags v.memory where
  known := by
    intro r w hr hw
    dsimp only at hw
    by_cases htr : r = target
    · subst htr
      rw [Function.update_self] at hw ⊢
      exact hknown w hw
    · rw [Function.update_of_ne htr] at hw ⊢
      exact h.known r w hr hw
  userSp := by
    intro w hw
    rw [Function.update_of_ne htarget.symm]
    exact h.userSp w hw
  kernelSp := by
    intro hsp
    rw [Function.update_of_ne htarget.symm]
    exact h.kernelSp hsp
  words := h.words
  masked := h.masked

/-- The lowest word is taken off the stack. -/
theorem Fits.drop {word : Option Nat} {words : List (Option Nat)}
    (h : s.Fits top v.registers v.flags v.memory) (hsp : s.userSp = none)
    (hwords : s.words = word :: words) :
    Fits { s with words := words } top (Function.update v.registers rsp (v.registers rsp + 8))
      v.flags v.memory where
  known := fun r w hr hw => (Function.update_of_ne hr ..).trans (h.known r w hr hw)
  userSp := fun w hw => absurd (hsp.symm.trans hw) nofun
  kernelSp := by
    intro _
    have hrsp := h.kernelSp hsp
    rw [hwords, List.length_cons] at hrsp
    rw [Function.update_self]
    dsimp only
    omega
  words := by
    have hrsp := h.kernelSp hsp
    have hheld := h.words
    rw [hwords, List.length_cons] at hrsp hheld
    rw [show top - 8 * words.length = top - 8 * (words.length + 1) + 8 by omega]
    exact hheld.tail
  masked := h.masked

/-- The lowest word, if it is known. -/
theorem Fits.head {word : Option Nat} {words : List (Option Nat)}
    (h : s.Fits top v.registers v.flags v.memory) (hsp : s.userSp = none)
    (hwords : s.words = word :: words) {w : Nat} (hw : word = some w) :
    v.memory (v.registers rsp) = w := by
  have hheld := h.words
  rw [h.rsp_eq hsp, hwords] at hheld
  exact hheld.head hw

/-- A word that nothing is known about is put on the stack. -/
theorem Fits.skip (h : s.Fits (layout.top thread) v.registers v.flags v.memory)
    (hroomy : s.roomy = true) :
    Fits { s with words := none :: s.words } (layout.top thread)
      (Function.update v.registers rsp (v.registers rsp - 8)) v.flags v.memory := by
  obtain ⟨hsp, hlength⟩ := roomy_iff.1 hroomy
  have hrsp := h.kernelSp hsp
  have hroom := layout.roomy thread
  refine ⟨fun r w hr hw => (Function.update_of_ne hr ..).trans (h.known r w hr hw),
    fun w hw => absurd (hsp.symm.trans hw) nofun, fun _ => ?_, Holds.skip ?_, h.masked⟩
  · rw [Function.update_self]
    dsimp only [List.length_cons]
    omega
  · have hwords := h.words
    rwa [show layout.top thread - 8 * s.words.length =
      layout.top thread - 8 * (none :: s.words).length + 8 by rw [List.length_cons]; omega]
      at hwords

/-- A core in `SyscallEntry` is as the sketch says. -/
structure Describes (s : Sketch) (layout : Layout) (core : Nat) (thread : Thread)
    (v : View) : Prop where
  fits : s.Fits (layout.top thread) v.registers v.flags v.memory
  onCore : s.OnCore layout core v.gsBase v.kernelGsBase (v.areas core)
  kernelStack : v.areas core .kernelStack = layout.top thread

theorem interruptsOn_cli (flags : Flags) : interruptsOn (flags &&& ~~~INTERRUPT_FLAG) = false := by
  unfold interruptsOn
  rw [BitVec.and_assoc, BitVec.and_comm (~~~INTERRUPT_FLAG)]
  simp

theorem OnCore.areaAt (h : s.OnCore layout core v.gsBase v.kernelGsBase (v.areas core))
    (hswapped : s.swapped = true) : layout.areaAt v.gsBase = some core := by
  rw [h.gsBase, if_pos hswapped]
  exact layout.areaAt_areaAddress core

theorem exec_swapgs (h : s.Describes layout core thread v) :
    Describes { s with swapped := !s.swapped } layout core thread
      { v with gsBase := v.kernelGsBase, kernelGsBase := v.gsBase } where
  fits := ⟨h.fits.known, h.fits.userSp, h.fits.kernelSp, h.fits.words, h.fits.masked⟩
  onCore := by
    refine ⟨?_, ?_, h.onCore.parked⟩
    · rw [show v.kernelGsBase = _ from h.onCore.kernelGsBase]
      cases s.swapped <;> rfl
    · rw [show v.gsBase = _ from h.onCore.gsBase]
      cases s.swapped <;> rfl
  kernelStack := h.kernelStack

theorem exec_storeGs (h : s.Describes layout core thread v) (hswapped : s.swapped = true)
    (hv : v.exec layout (.storeGs .userStack rsp) = some v') :
    Describes { s with parked := s.userSp } layout core thread v' ∧
      Frugal layout core thread v v' := by
  obtain ⟨other, hother, rfl⟩ := Option.map_eq_some_iff.1 hv
  obtain rfl := Option.some.inj (hother.symm.trans (h.onCore.areaAt hswapped))
  refine ⟨⟨?_, ⟨h.onCore.gsBase, h.onCore.kernelGsBase, fun w hw => ?_⟩, ?_⟩, ?_, fun c hc => ?_,
    fun _ _ => rfl⟩
  · exact ⟨h.fits.known, h.fits.userSp, h.fits.kernelSp, h.fits.words, h.fits.masked⟩
  · simp only [Function.update_self]
    exact (h.fits.userSp w hw).1
  · simp only [Function.update_self, ne_eq, reduceCtorEq, not_false_eq_true, Function.update_of_ne]
    exact h.kernelStack
  · simp
  · exact Function.update_of_ne hc ..

theorem exec_loadGs (h : s.Describes layout core thread v) (hswapped : s.swapped = true)
    (hv : v.exec layout (.loadGs rsp .kernelStack) = some v') :
    Describes { s with userSp := none, words := [] } layout core thread v' ∧
      Frugal layout core thread v v' := by
  obtain ⟨other, hother, rfl⟩ := Option.map_eq_some_iff.1 hv
  obtain rfl := Option.some.inj (hother.symm.trans (h.onCore.areaAt hswapped))
  refine ⟨⟨⟨fun r w hr hw => ?_, nofun, fun _ => ?_, trivial, h.fits.masked⟩,
    ⟨h.onCore.gsBase, h.onCore.kernelGsBase, h.onCore.parked⟩, h.kernelStack⟩, .of_eq rfl rfl⟩
  · exact (Function.update_of_ne hr ..).trans (h.fits.known r w hr hw)
  · simp only [View.set, Function.update_self]
    exact h.kernelStack

/-- The instructions that push a word. -/
theorem exec_push {word : Nat} (h : s.Describes layout core thread v) (hroomy : s.roomy = true)
    (hknown : ∀ w, known = some w → word = w) (hv : v.push word = some v') :
    Describes { s with words := known :: s.words } layout core thread v' ∧
      Frugal layout core thread v v' := by
  obtain ⟨hfits, hgs, hkernelGs, hareas, hmemory⟩ := h.fits.push hroomy hknown hv
  refine ⟨⟨hfits, ?_, ?_⟩, by rw [hareas], fun _ _ => by rw [hareas], hmemory⟩
  · rw [hgs, hkernelGs, hareas]
    exact ⟨h.onCore.gsBase, h.onCore.kernelGsBase, h.onCore.parked⟩
  · rw [hareas]
    exact h.kernelStack

theorem exec_pop {target : Register} (h : s.Describes layout core thread v)
    (hs : s.exec (.pop target) = some s') :
    s'.Describes layout core thread (v.pop target) := by
  dsimp only [exec] at hs
  split at hs
  · next word words hsp hwords =>
    have hdrop := h.fits.drop hsp hwords
    have hhead : ∀ w, word = some w → v.memory (v.registers rsp) = w :=
      fun w hw => h.fits.head hsp hwords hw
    split at hs
    · next htarget =>
      subst htarget
      obtain ⟨hlast, hs⟩ := Option.ite_none_right_eq_some.1 hs
      obtain ⟨hempty, hsome⟩ := (Bool.and_eq_true _ _).mp hlast
      obtain rfl := Option.some.inj hs
      refine ⟨⟨fun r w hr hw => ?_, fun w hw => ⟨?_, rfl⟩, fun hnone => ?_, trivial,
        h.fits.masked⟩, ⟨h.onCore.gsBase, h.onCore.kernelGsBase, h.onCore.parked⟩, h.kernelStack⟩
      · exact (Function.update_of_ne hr ..).trans (hdrop.known r w hr hw)
      · simp only [View.pop, View.set, Function.update_self]
        exact hhead w hw
      · rw [show word = none from hnone] at hsome
        simp at hsome
    · next htarget =>
      obtain rfl := Option.some.inj hs
      exact ⟨Fits.set (v := v.set rsp (v.registers rsp + 8)) hdrop htarget hhead,
        ⟨h.onCore.gsBase, h.onCore.kernelGsBase, h.onCore.parked⟩, h.kernelStack⟩
  · cases hs

/-- An instruction that goes on with the next one leads to the next sketch. -/
theorem exec_sound {instr : Instr} (hs : s.exec instr = some s')
    (h : s.Describes layout core thread v) (hv : v.exec layout instr = some v') :
    s'.Describes layout core thread v' ∧ Frugal layout core thread v v' := by
  cases instr with
  | swapgs =>
    obtain rfl := Option.some.inj hs
    obtain rfl := Option.some.inj hv
    exact ⟨exec_swapgs h, .of_eq rfl rfl⟩
  | storeGs field source =>
    cases field with
    | kernelStack => exact absurd hs nofun
    | userStack =>
      cases source with
      | rsp =>
        obtain ⟨hswapped, hs⟩ := Option.ite_none_right_eq_some.1 hs
        obtain rfl := Option.some.inj hs
        exact exec_storeGs h hswapped hv
      | _ => exact absurd hs nofun
  | loadGs target field =>
    cases field with
    | userStack => cases target <;> exact absurd hs nofun
    | kernelStack =>
      cases target with
      | rsp =>
        obtain ⟨hswapped, hs⟩ := Option.ite_none_right_eq_some.1 hs
        obtain rfl := Option.some.inj hs
        exact exec_loadGs h hswapped hv
      | _ => exact absurd hs nofun
  | pushGs field =>
    cases field with
    | kernelStack => exact absurd hs nofun
    | userStack =>
      obtain ⟨hcheck, hs⟩ := Option.ite_none_right_eq_some.1 hs
      obtain ⟨hswapped, hroomy⟩ := (Bool.and_eq_true _ _).mp hcheck
      obtain rfl := Option.some.inj hs
      obtain ⟨other, hother, hv⟩ := Option.bind_eq_some_iff.1 hv
      obtain rfl := Option.some.inj (hother.symm.trans (h.onCore.areaAt hswapped))
      exact exec_push h hroomy h.onCore.parked hv
  | push source =>
    obtain ⟨hcheck, hs⟩ := Option.ite_none_right_eq_some.1 hs
    obtain ⟨hsource, hroomy⟩ := (Bool.and_eq_true _ _).mp hcheck
    obtain rfl := Option.some.inj hs
    exact exec_push h hroomy (fun w => h.fits.known source w (of_decide_eq_true hsource)) hv
  | pop target =>
    obtain rfl := Option.some.inj hv
    exact ⟨exec_pop h hs, .of_eq rfl rfl⟩
  | subRsp8 =>
    obtain ⟨hroomy, hs⟩ := Option.ite_none_right_eq_some.1 hs
    obtain rfl := Option.some.inj hs
    obtain rfl := Option.some.inj hv
    exact ⟨⟨h.fits.skip hroomy, ⟨h.onCore.gsBase, h.onCore.kernelGsBase, h.onCore.parked⟩,
      h.kernelStack⟩, .of_eq rfl rfl⟩
  | addRsp8 =>
    obtain rfl := Option.some.inj hv
    dsimp only [exec] at hs
    split at hs
    · next word words hsp hwords =>
      obtain rfl := Option.some.inj hs
      exact ⟨⟨h.fits.drop hsp hwords, ⟨h.onCore.gsBase, h.onCore.kernelGsBase, h.onCore.parked⟩,
        h.kernelStack⟩, .of_eq rfl rfl⟩
    · exact absurd hs nofun
  | mov target source =>
    obtain ⟨hcheck, hs⟩ := Option.ite_none_left_eq_some.1 hs
    obtain rfl := Option.some.inj hs
    obtain rfl := Option.some.inj hv
    have hne : target ≠ rsp ∧ source ≠ rsp := by simpa using hcheck
    exact ⟨⟨h.fits.set hne.1 fun w => h.fits.known source w hne.2,
      ⟨h.onCore.gsBase, h.onCore.kernelGsBase, h.onCore.parked⟩, h.kernelStack⟩, .of_eq rfl rfl⟩
  | sti =>
    obtain rfl := Option.some.inj hs
    obtain rfl := Option.some.inj hv
    exact ⟨⟨h.fits.forget _, ⟨h.onCore.gsBase, h.onCore.kernelGsBase, nofun⟩, h.kernelStack⟩,
      .of_eq rfl rfl⟩
  | cli =>
    obtain rfl := Option.some.inj hs
    obtain rfl := Option.some.inj hv
    refine ⟨⟨?_, ⟨h.onCore.gsBase, h.onCore.kernelGsBase, h.onCore.parked⟩, h.kernelStack⟩,
      .of_eq rfl rfl⟩
    exact ⟨h.fits.known, h.fits.userSp, h.fits.kernelSp, h.fits.words, fun _ => interruptsOn_cli _⟩
  | call => exact absurd hv nofun
  | sysret => exact absurd hv nofun

/-- Where interrupts may be on, the core is on its kernel stack, the bases of `gs` are not
swapped, and only the callee-saved registers are counted on. -/
def sheltered (s : Sketch) : Bool :=
  s.masked || !s.swapped && s.userSp.isNone && s.parked.isNone &&
    [rax, rcx, rdx, rsi, rdi, r8, r9, r10, r11].all fun r => (s.known r).isNone

end Sketch

/-! ## The sketches of `SyscallEntry` -/

/-- The `swapgs` bracket: the first `swapgs` is executed and the second one is not. -/
def InBracket (index : Nat) : Prop := 1 ≤ index ∧ index ≤ 4

instance (index : Nat) : Decidable (InBracket index) := inferInstanceAs (Decidable (_ ∧ _))

theorem sketchAt_spec (user : UserState) {index : Nat} (h : index ≤ SYSRET) :
    (sketchAt user index).any (fun s =>
      s.sheltered && s.swapped == decide (InBracket index) && s.words.length ≤ 16) = true := by
  unfold SYSRET at h
  interval_cases index <;> rfl

theorem sketchAt_after (user : UserState) (index : Nat) :
    sketchAt user (SYSRET + 1 + index) = none := by
  induction index with
  | zero => rfl
  | succ index ih =>
    rw [← Nat.add_assoc, sketchAt, ih]
    rfl

variable {user : UserState} {index : Nat} {s : Sketch}

theorem sketchAt_le (h : sketchAt user index = some s) : index ≤ SYSRET := by
  by_contra hlt
  obtain ⟨rest, rfl⟩ := Nat.exists_eq_add_of_le (show SYSRET + 1 ≤ index by omega)
  rw [sketchAt_after] at h
  exact absurd h nofun

theorem exists_sketchAt (user : UserState) (h : index ≤ SYSRET) :
    ∃ s, sketchAt user index = some s := by
  obtain ⟨s, hs, _⟩ := (Option.any_eq_true _ _).1 (sketchAt_spec user h)
  exact ⟨s, hs⟩

theorem sketchAt_checks (h : sketchAt user index = some s) :
    s.sheltered = true ∧ (s.swapped = true ↔ InBracket index) ∧ s.words.length ≤ 16 := by
  obtain ⟨s', hs', hspec⟩ := (Option.any_eq_true _ _).1 (sketchAt_spec user (sketchAt_le h))
  obtain rfl := Option.some.inj (h.symm.trans hs')
  rw [Bool.and_eq_true, Bool.and_eq_true, beq_iff_eq] at hspec
  obtain ⟨⟨hsheltered, hswapped⟩, hlength⟩ := hspec
  exact ⟨hsheltered, by rw [hswapped, decide_eq_true_iff], of_decide_eq_true hlength⟩

/-- Where interrupts may be on. -/
structure Open (s : Sketch) : Prop where
  swapped : s.swapped = false
  userSp : s.userSp = none
  parked : s.parked = none
  known : ∀ r w, s.known r = some w → r = rsp ∨ r ∈ CALLEE_SAVED

theorem sketchAt_open (h : sketchAt user index = some s) (hmasked : s.masked = false) : Open s := by
  have hsheltered := (sketchAt_checks h).1
  unfold Sketch.sheltered at hsheltered
  simp only [hmasked, Bool.false_or, Bool.and_eq_true, Bool.not_eq_true', Option.isNone_iff_eq_none,
    List.all_eq_true] at hsheltered
  obtain ⟨⟨⟨hswapped, hsp⟩, hparked⟩, hknown⟩ := hsheltered
  refine ⟨hswapped, hsp, hparked, fun r w hw => ?_⟩
  by_contra hother
  have hnone : s.known r = none := by
    refine hknown r ?_
    cases r <;> revert hother <;> decide
  exact absurd (hnone.symm.trans hw) nofun

theorem sketchAt_succ {instr : Instr} (h : sketchAt user index = some s)
    (hinstr : SYSCALL_ENTRY[index]? = some instr) (hnot : instr ≠ .sysret) :
    ∃ s', s.exec instr = some s' ∧ sketchAt user (index + 1) = some s' := by
  have hle : index + 1 ≤ SYSRET := by
    have hindex := sketchAt_le h
    by_contra hlt
    obtain rfl : index = SYSRET := by omega
    exact hnot (Option.some.inj (hinstr.symm.trans rfl))
  obtain ⟨s', hs'⟩ := exists_sketchAt user hle
  refine ⟨s', ?_, hs'⟩
  rw [sketchAt, h, hinstr] at hs'
  exact hs'

/-- `SyscallDispatch` is called in one place, with room on the stack. -/
theorem index_of_call (h : SYSCALL_ENTRY[index]? = some .call) : index = CALL := by
  obtain ⟨hlt, _⟩ := List.getElem?_eq_some_iff.1 h
  have hlt : index < 32 := hlt
  interval_cases index <;> first | rfl | exact absurd h nofun

theorem sketchAt_call (h : sketchAt user CALL = some s) : s.roomy = true ∧ s.masked = false := by
  obtain rfl := Option.some.inj h
  exact ⟨rfl, rfl⟩

theorem index_of_sysret (h : SYSCALL_ENTRY[index]? = some .sysret) : index = SYSRET := by
  obtain ⟨hlt, _⟩ := List.getElem?_eq_some_iff.1 h
  have hlt : index < 32 := hlt
  interval_cases index <;> first | rfl | exact absurd h nofun

/-- Before `sysret` everything is known that the task had when it executed `syscall`. -/
theorem sketchAt_sysret (h : sketchAt user SYSRET = some s) :
    s.userSp = some (user.registers rsp) ∧ s.known rcx = some user.rip ∧
      s.known r11 = some user.flags.toNat ∧
      ∀ r, r ∉ [rax, rcx, r11, rsp] → s.known r = some (user.registers r) := by
  obtain rfl := Option.some.inj h
  refine ⟨rfl, rfl, rfl, fun r hr => ?_⟩
  cases r with
  | rax | rcx | r11 | rsp => exact absurd (by decide) hr
  | _ => rfl

end X64HK.SyscallPath
