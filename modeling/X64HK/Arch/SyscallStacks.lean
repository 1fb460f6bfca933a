import X64HK.Arch.SyscallSketch

/-!
# What stands on the kernel stack of a thread

The frames of a thread stand one below the other on its kernel stack.  `Intact` says that
the words of the frames are still there and that each frame leads back to a place that
the thread can go on from.  `Stands` says that of the place where a thread is.

Both speak about the words from the lowest frame up to the top of the stack only, so
whatever is written below keeps them.

* `Intact.agree` and `Stands.agree` are the frame rules.
* `Intact.interrupt` is for the frame that an interrupt pushes.
* `Stands.of_saved` is for a thread that gets its saved registers back.
-/

namespace X64HK.SyscallPath

open WordStack
open Interrupt (KERNEL_CODE KERNEL_DATA)
open KernelStack (STRIDE GUARD_SIZE slotAt)
open SyscallPath.Machine (limit)
open Register

variable {layout : Layout} {user : UserState} {thread : Thread} {memory memory' : Nat → Nat}
  {frames rest : List Frame} {registers left : Registers} {flags : Flags} {pc : Pc}
  {s : Sketch} {base rip : Nat}

/-! ## Definitions -/

/-- The thread can go on at `pc` with these registers, on top of its frames. -/
def Stands (layout : Layout) (user : UserState) (thread : Thread) (memory : Nat → Nat)
    (frames : List Frame) (registers : Registers) (flags : Flags) : Pc → Prop
  | .user _ => frames = [] ∧ UserFlags flags
  | .entry index => frames = [] ∧ ∃ s, sketchAt user index = some s ∧
      s.Fits (layout.top thread) registers flags memory
  | .body | .dispatch .. =>
    layout.bottom thread ≤ registers rsp ∧ registers rsp ≤ limit layout thread frames
  | .boot | .lost => False

/-- `SyscallEntry` has called `SyscallDispatch`. -/
structure Called (layout : Layout) (user : UserState) (thread : Thread) (memory : Nat → Nat)
    (left : Registers) (s : Sketch) : Prop where
  sketch : sketchAt user CALL = some s
  sp : left rsp + 8 * (s.words.length + 1) = layout.top thread
  returnAddress : memory (left rsp) = layout.afterCall
  words : Holds memory (left rsp + 8) s.words
  known : ∀ r ∈ CALLEE_SAVED, ∀ w, s.known r = some w → left r = w

/-- The stack pointer that the words of an interrupt are pushed from. -/
def entrySp (layout : Layout) (thread : Thread) (left : Registers) : Pc → Nat
  | .user _ => layout.top thread
  | _ => left rsp

/-- The code selector that an interrupt pushes. -/
def codeAt : Pc → Nat
  | .user _ => USER_CODE
  | _ => KERNEL_CODE.toNat

/-- An interrupt has come in at `resume`. -/
structure Interrupted (layout : Layout) (user : UserState) (thread : Thread)
    (memory : Nat → Nat) (base rip : Nat) (left : Registers) (flags : Flags) (resume : Pc)
    (rest : List Frame) : Prop where
  bottom : layout.bottom thread ≤ base
  below : base + 40 ≤ entrySp layout thread left resume
  ripWord : memory base = rip
  codeWord : memory (base + 8) = codeAt resume
  flagsWord : memory (base + 16) = flags.toNat
  spWord : memory (base + 24) = left rsp
  address : ∀ address, resume = .user address → address = rip
  stands : Stands layout user thread memory rest left flags resume
  masked : ∀ index s, resume = .entry index → sketchAt user index = some s → s.masked = false

/-- Every frame is there, and leads back to a place to go on from. -/
def Intact (layout : Layout) (user : UserState) (thread : Thread) (memory : Nat → Nat) :
    List Frame → Prop
  | [] => True
  | .call left :: rest => rest = [] ∧ ∃ s, Called layout user thread memory left s
  | .interrupt base rip left flags resume :: rest =>
    Interrupted layout user thread memory base rip left flags resume rest ∧
      Intact layout user thread memory rest
  | .switch _ _ :: _ => False

/-! ## Where the frames are -/

theorem Called.bottom_le (h : Called layout user thread memory left s) :
    layout.bottom thread ≤ left rsp := by
  have hroom := layout.roomy thread
  have hsp := h.sp
  have hlength := (sketchAt_checks h.sketch).2.2
  omega

/-- An interrupt pushes its words below the frames. -/
theorem Interrupted.below_limit {resume : Pc}
    (h : Interrupted layout user thread memory base rip left flags resume rest) :
    base + 40 ≤ limit layout thread rest := by
  have hbelow := h.below
  have hstands := h.stands
  cases resume with
  | user address =>
    rw [hstands.1]
    exact hbelow
  | entry index =>
    obtain ⟨hrest, s, hs, hfits⟩ := hstands
    have hsp := hfits.kernelSp (sketchAt_open hs (h.masked index s rfl hs)).userSp
    rw [hrest]
    exact Nat.le_trans hbelow (show left rsp ≤ layout.top thread by omega)
  | body => exact Nat.le_trans hbelow hstands.2
  | dispatch current next done => exact Nat.le_trans hbelow hstands.2
  | boot => exact hstands.elim
  | lost => exact hstands.elim

/-- An interrupt of `SyscallEntry` comes in below its words. -/
theorem Interrupted.below_words {resume : Pc}
    (h : Interrupted layout user thread memory base rip left flags resume rest) {index : Nat}
    (hentry : resume = .entry index) (hs : sketchAt user index = some s) :
    base ≤ layout.top thread - 8 * s.words.length := by
  subst hentry
  obtain ⟨_, s', hs', hfits⟩ := h.stands
  obtain rfl := Option.some.inj (hs.symm.trans hs')
  have hsp := hfits.kernelSp (sketchAt_open hs (h.masked index s rfl hs)).userSp
  have hbelow : base + 40 ≤ left rsp := h.below
  omega

theorem Intact.limit_bounds (h : Intact layout user thread memory frames) :
    layout.bottom thread ≤ limit layout thread frames ∧
      limit layout thread frames ≤ layout.top thread := by
  induction frames with
  | nil =>
    have hroom := layout.roomy thread
    exact ⟨show layout.bottom thread ≤ layout.top thread by omega, Nat.le_refl _⟩
  | cons frame rest ih =>
    cases frame with
    | call left =>
      obtain ⟨_, s, hcalled⟩ := h
      have hsp := hcalled.sp
      exact ⟨hcalled.bottom_le, show left rsp ≤ layout.top thread by omega⟩
    | interrupt base rip left flags resume =>
      have hbelow := h.1.below_limit
      have htop := (ih h.2).2
      exact ⟨h.1.bottom, show base ≤ layout.top thread by omega⟩
    | switch left returnAddress => exact h.elim

/-! ## What is written below the frames -/

/-- The words from `low` to the top of the stack are the same. -/
def Agree (layout : Layout) (thread : Thread) (low : Nat) (memory memory' : Nat → Nat) : Prop :=
  ∀ a, low ≤ a → a < layout.top thread → memory' a = memory a

theorem Agree.mono {low low' : Nat} (h : Agree layout thread low memory memory')
    (hle : low ≤ low') : Agree layout thread low' memory memory' :=
  fun a ha => h a (Nat.le_trans hle ha)

theorem Sketch.Fits.agree (h : s.Fits (layout.top thread) registers flags memory) {low : Nat}
    (hlow : low ≤ layout.top thread - 8 * s.words.length)
    (hlength : 8 * s.words.length ≤ layout.top thread)
    (hagree : Agree layout thread low memory memory') :
    s.Fits (layout.top thread) registers flags memory' where
  known := h.known
  userSp := h.userSp
  kernelSp := h.kernelSp
  words := h.words.agree fun a ha ha' => hagree a (Nat.le_trans hlow ha) (by omega)
  masked := h.masked

/-- Only the words of `SyscallEntry` matter. -/
theorem Stands.agree {low : Nat} (h : Stands layout user thread memory frames registers flags pc)
    (hlow : ∀ index s, pc = .entry index → sketchAt user index = some s →
      low ≤ layout.top thread - 8 * s.words.length)
    (hagree : Agree layout thread low memory memory') :
    Stands layout user thread memory' frames registers flags pc := by
  cases pc with
  | entry index =>
    obtain ⟨hframes, s, hs, hfits⟩ := h
    have hroom := layout.roomy thread
    have hlength := (sketchAt_checks hs).2.2
    exact ⟨hframes, s, hs, hfits.agree (hlow index s rfl hs) (by omega) hagree⟩
  | user rip => exact h
  | body => exact h
  | dispatch current next done => exact h
  | boot => exact h
  | lost => exact h

/-- The words of `SyscallEntry` are on the thread's own stack. -/
theorem bottom_le_words {index : Nat} (hs : sketchAt user index = some s) :
    layout.bottom thread ≤ layout.top thread - 8 * s.words.length := by
  have hroom := layout.roomy thread
  have hlength := (sketchAt_checks hs).2.2
  omega

theorem Called.agree (h : Called layout user thread memory left s)
    (hagree : Agree layout thread (left rsp) memory memory') :
    Called layout user thread memory' left s := by
  have hsp := h.sp
  refine ⟨h.sketch, hsp, ?_, h.words.agree fun a ha ha' => hagree a (by omega) (by omega), h.known⟩
  rw [hagree _ (Nat.le_refl _) (by omega)]
  exact h.returnAddress

theorem Interrupted.agree {resume : Pc}
    (h : Interrupted layout user thread memory base rip left flags resume rest)
    (htop : limit layout thread rest ≤ layout.top thread)
    (hagree : Agree layout thread base memory memory') :
    Interrupted layout user thread memory' base rip left flags resume rest := by
  have hbelow := h.below_limit
  have hword : ∀ offset, offset < 40 → memory' (base + offset) = memory (base + offset) :=
    fun offset hoffset => hagree _ (Nat.le_add_right ..) (by omega)
  refine ⟨h.bottom, h.below, ?_, ?_, ?_, ?_, h.address, ?_, h.masked⟩
  · exact (hword 0 (by decide)).trans h.ripWord
  · exact (hword 8 (by decide)).trans h.codeWord
  · exact (hword 16 (by decide)).trans h.flagsWord
  · exact (hword 24 (by decide)).trans h.spWord
  · exact h.stands.agree (fun index s hentry hs => h.below_words hentry hs) hagree

theorem Intact.agree (h : Intact layout user thread memory frames)
    (hagree : Agree layout thread (limit layout thread frames) memory memory') :
    Intact layout user thread memory' frames := by
  induction frames with
  | nil => trivial
  | cons frame rest ih =>
    cases frame with
    | call left =>
      obtain ⟨hrest, s, hcalled⟩ := h
      exact ⟨hrest, s, hcalled.agree hagree⟩
    | interrupt base rip left flags resume =>
      have hbelow := h.1.below_limit
      refine ⟨h.1.agree h.2.limit_bounds.2 hagree, ih h.2 (hagree.mono ?_)⟩
      exact Nat.le_trans (Nat.le_add_right base 40) hbelow
    | switch left returnAddress => exact h.elim

/-! ## Interrupts -/

theorem pushes_spec {words : List Nat} {v v' : View} (h : words.foldlM View.push v = some v')
    (hroom : 8 * words.length ≤ v.registers rsp) :
    v' = { v.set rsp (v.registers rsp - 8 * words.length) with memory := v'.memory } ∧
      Holds v'.memory (v.registers rsp - 8 * words.length) (words.reverse.map some) ∧
      (∀ a, a < v.registers rsp - 8 * words.length ∨ v.registers rsp ≤ a →
        v'.memory a = v.memory a) ∧
      (words ≠ [] → onGuardPage (v.registers rsp - 8 * words.length) = false) := by
  induction words generalizing v with
  | nil =>
    obtain rfl := Option.some.inj h
    refine ⟨?_, trivial, fun _ _ => rfl, fun hne => absurd rfl hne⟩
    simp [View.set]
  | cons word words ih =>
    rw [List.foldlM_cons, Option.bind_eq_bind] at h
    obtain ⟨v₁, hv₁, hrest⟩ := Option.bind_eq_some_iff.1 h
    obtain ⟨hguard, rfl⟩ := View.push_eq_some hv₁
    rw [List.length_cons] at hroom ⊢
    have hsp : Function.update v.registers rsp (v.registers rsp - 8) rsp = v.registers rsp - 8 :=
      Function.update_self ..
    obtain ⟨hv', hholds, hkeep, hlast⟩ := ih hrest (by simp only [View.set, hsp]; omega)
    simp only [View.set, hsp, Function.update_idem] at hv' hholds hkeep hlast
    have hbase : v.registers rsp - 8 - 8 * words.length =
        v.registers rsp - 8 * (words.length + 1) := by omega
    rw [hbase] at hv' hholds hkeep hlast
    refine ⟨hv', ?_, fun a ha => ?_, fun _ => ?_⟩
    · rw [List.reverse_cons, List.map_append]
      refine hholds.concat fun value hvalue => ?_
      rw [List.length_map, List.length_reverse, hkeep _ (.inr (by omega))]
      rw [show v.registers rsp - 8 * (words.length + 1) + 8 * words.length = v.registers rsp - 8
        by omega, Function.update_self]
      exact Option.some.inj hvalue
    · rw [hkeep a (by omega)]
      exact Function.update_of_ne (by omega) ..
    · cases words with
      | nil => exact hguard
      | cons next words => exact hlast (List.cons_ne_nil next words)

/-- The guard page catches what is pushed out of the stack. -/
theorem Layout.bottom_le_of_not_guard {a : Nat} (hslot : layout.bottom thread ≤ a + GUARD_SIZE)
    (htop : a < layout.top thread) (hguard : onGuardPage a = false) :
    layout.bottom thread ≤ a := by
  by_contra hlow
  have hstride : GUARD_SIZE < STRIDE := by decide
  unfold bottom top slotAt at *
  unfold onGuardPage at hguard
  generalize hbase : Config.KERNEL_STACK_BASE = start at *
  obtain ⟨offset, rfl⟩ : ∃ offset, a = start + layout.slot thread * STRIDE + offset :=
    ⟨a - (start + layout.slot thread * STRIDE), by omega⟩
  rw [show start + layout.slot thread * STRIDE + offset - start =
    offset + layout.slot thread * STRIDE by omega, Nat.add_mul_mod_self_right,
    Nat.mod_eq_of_lt (by omega)] at hguard
  exact of_decide_eq_false hguard (by omega)

/-- The words of an interrupt stand below the frames. -/
theorem Intact.interrupt {data : Nat}
    (h : Intact layout user thread memory frames)
    (hstands : Stands layout user thread memory frames registers flags pc)
    (hmasked : ∀ index s, pc = .entry index → sketchAt user index = some s → s.masked = false)
    (haddress : ∀ address, pc = .user address → address = rip)
    (hbottom : layout.bottom thread ≤ base)
    (hbelow : base + 40 ≤ entrySp layout thread registers pc)
    (hwords : Holds memory' base
      [some rip, some (codeAt pc), some flags.toNat, some (registers rsp), some data])
    (hkeep : ∀ a, a < base ∨ base + 40 ≤ a → memory' a = memory a) :
    Intact layout user thread memory' (.interrupt base rip registers flags pc :: frames) := by
  have hagree : Agree layout thread (base + 40) memory memory' :=
    fun a ha _ => hkeep a (.inr ha)
  have hstands' : Stands layout user thread memory' frames registers flags pc := by
    refine hstands.agree (fun index s hentry hs => ?_) hagree
    subst hentry
    obtain ⟨_, s', hs', hfits⟩ := hstands
    obtain rfl := Option.some.inj (hs.symm.trans hs')
    have hsp := hfits.kernelSp (sketchAt_open hs (hmasked index s rfl hs)).userSp
    have hrsp : base + 40 ≤ registers rsp := hbelow
    omega
  have hinterrupted : Interrupted layout user thread memory' base rip registers flags pc frames :=
    { bottom := hbottom
      below := hbelow
      ripWord := hwords.head rfl
      codeWord := hwords.tail.head rfl
      flagsWord := hwords.tail.tail.head rfl
      spWord := hwords.tail.tail.tail.head rfl
      address := haddress
      stands := hstands'
      masked := hmasked }
  exact ⟨hinterrupted, h.agree (hagree.mono hinterrupted.below_limit)⟩

/-- Only `rsp` and the callee-saved registers matter where an interrupt can come in. -/
theorem Stands.of_saved {registers' : Registers}
    (h : Stands layout user thread memory frames registers flags pc)
    (hmasked : ∀ index s, pc = .entry index → sketchAt user index = some s → s.masked = false)
    (hsp : registers' rsp = registers rsp)
    (hsaved : ∀ r ∈ CALLEE_SAVED, registers' r = registers r) :
    Stands layout user thread memory frames registers' flags pc := by
  cases pc with
  | entry index =>
    obtain ⟨hframes, s, hs, hfits⟩ := h
    have hopen := sketchAt_open hs (hmasked index s rfl hs)
    refine ⟨hframes, s, hs, fun r w hr hw => ?_, fun w hw => ?_, fun hnone => ?_, hfits.words,
      hfits.masked⟩
    · rw [hsaved r ((hopen.known r w hw).resolve_left hr)]
      exact hfits.known r w hr hw
    · exact absurd (hopen.userSp.symm.trans hw) nofun
    · rw [hsp]
      exact hfits.kernelSp hnone
  | body | dispatch current next done =>
    unfold Stands at h ⊢
    rw [hsp]
    exact h
  | user rip => exact h
  | boot => exact h
  | lost => exact h

end X64HK.SyscallPath
