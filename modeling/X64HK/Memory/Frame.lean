import X64HK.Boot.Multiboot
import X64HK.Debug.Panic
import X64HK.Lib.Bitmap

/-!
# The physical frame allocator

A model of `Kernel/Memory/Frame.cpp`.  One bit of `s_Taken` stands for one
frame of 4 KiB, and a set bit is a frame that must not be handed out.

* `initializeState` builds the bitmap from the loader's memory map.  It places
  the bitmap itself in available memory (`chooseBitmapLocation`), makes
  the whole frames of every available region allocatable (`add`) and then
  withdraws what is in use (`reserve`).
* `allocate` searches a run of clear bits from the cursor `nextIndex` on,
  and from zero when that fails.  `free` clears the bits of a run.
* `setReachableLimit` moves the limit below which runs are searched.

The counters are natural numbers.  Every sum and difference of the source
that can leave 64 bits goes through `wrap64` and `sub64`.  The spin lock
and the interrupt guard of the source make each operation atomic, and the
model takes the operations as single steps.
-/

namespace X64HK.Frame

open Multiboot

/-- `Frame::SIZE`. -/
def SIZE : Nat := 4 * KIB

def BITS_PER_WORD : Nat := 64

def ALL_TAKEN : BitVec BITS_PER_WORD := ~~~0

/-- The statics of `Frame.cpp`.  `s_WordCount` is the length of
`taken`. -/
structure State where
  taken : List (BitVec BITS_PER_WORD)
  frameCount : Nat
  reachableFrames : Nat
  totalFrames : Nat
  freeFrames : Nat
  nextIndex : Nat
  deriving DecidableEq, Repr

def isTaken (s : State) (index : Nat) : Bool := Bitmap.test s.taken index

def take (s : State) (index : Nat) : State :=
  { s with taken := Bitmap.mark s.taken index }

def release (s : State) (index : Nat) : State :=
  { s with taken := Bitmap.unmark s.taken index }

/-! ## Building the bitmap -/

/-- The body of the loop of `Add`. -/
def addFrame (s : State) (index : Nat) : State :=
  if isTaken s index then
    { release s index with
      totalFrames := s.totalFrames + 1
      freeFrames := s.freeFrames + 1 }
  else s

/-- Whole frames inside `[start, stop)` become allocatable. -/
def add (s : State) (start stop : Nat) : State :=
  let first := wrap64 (start + SIZE - 1) / SIZE
  let last := min (stop / SIZE) s.frameCount
  (List.range' first (last - first)).foldl addFrame s

/-- The body of the loop of `Reserve`. -/
def reserveFrame (s : State) (index : Nat) : State :=
  if isTaken s index then s
  else { take s index with freeFrames := sub64 s.freeFrames 1 }

/-- Every frame that `[start, stop)` touches is withdrawn, including
partial ones. -/
def reserve (s : State) (start stop : Nat) : State :=
  if stop ≤ start then s
  else
    let first := start / SIZE
    let last := min (wrap64 (stop + SIZE - 1) / SIZE) s.frameCount
    (List.range' first (last - first)).foldl reserveFrame s

def kernelRange (boot : Handover) : Range :=
  ⟨boot.bootSpan.start, sub64 boot.dataSpan.stop Config.KERNEL_VMA⟩

/-- The regions that the loops over the memory map do not skip. -/
def availableRegions (boot : Handover) : List MemoryRegion :=
  boot.memoryRegions.filter (fun region => region.type = .available)

def highestAvailableAddress (boot : Handover) : Nat :=
  (availableRegions boot).foldl (fun highest region => max highest region.stop) 0

def overlaps (left right : Range) : Bool :=
  left.start < right.stop && right.start < left.stop

/-- The address to retry at when `range` overlaps memory in use.  The
kernel is checked first, then the loader's structures, then the modules. -/
def isBlocked (boot : Handover) (range : Range) : Option Nat :=
  if overlaps range (kernelRange boot) then some (kernelRange boot).stop
  else
    match boot.infoRegions.find? (fun info =>
        info.length ≠ 0 && overlaps range ⟨info.address, info.stop⟩) with
    | some info => some info.stop
    | none =>
      (boot.modules.find? (fun module =>
        overlaps range ⟨module.start, module.stop⟩)).map Module.stop

/-- The next frame boundary at or above an address. -/
def alignUp (address : Nat) : Nat := wrap64 (address + SIZE - 1) / SIZE * SIZE

/-- The body of the loop of `FirstFit`.  `retry` is the next iteration. -/
def firstFitStep (boot : Handover) (range : Range) (bytes start : Nat)
    (retry : Nat → Outcome Nat) : Outcome Nat :=
  if wrap64 (start + bytes) ≤ range.stop then
    match isBlocked boot ⟨start, wrap64 (start + bytes)⟩ with
    | none => .ok start
    | some retryAt => retry (alignUp retryAt)
  else .ok 0

/-- The loop of `FirstFit` from `start`, with the number of iterations it may
take. -/
def firstFitLoop (boot : Handover) (range : Range) (bytes : Nat) :
    Nat → Nat → Outcome Nat
  | _, 0 => .error .outOfFuel
  | start, fuel + 1 =>
    firstFitStep boot range bytes start fun next => firstFitLoop boot range bytes next fuel

/-- Each iteration moves `start` up by a frame at least, so the frames
below the end of the range bound their number. -/
def firstFit (boot : Handover) (range : Range) (bytes : Nat) : Outcome Nat :=
  firstFitLoop boot range bytes (alignUp range.start) (range.stop / SIZE + 2)

/-- The loop of `ChooseBitmapLocation` over the regions that are left. -/
def chooseBitmapLocationIn (boot : Handover) (bytes : Nat) :
    List MemoryRegion → Outcome Nat
  | [] => .ok 0
  | region :: rest =>
    let usable : Range :=
      ⟨max region.address MIB, min region.stop Config.IDENTITY_MAPPED_LIMIT⟩
    if usable.start ≥ usable.stop then chooseBitmapLocationIn boot bytes rest
    else do
      let location ← firstFit boot usable bytes
      if location ≠ 0 then return location
      else chooseBitmapLocationIn boot bytes rest

def chooseBitmapLocation (boot : Handover) (bytes : Nat) : Outcome Nat :=
  chooseBitmapLocationIn boot bytes (availableRegions boot)

def addAvailableMemory (boot : Handover) (s : State) : State :=
  (availableRegions boot).foldl (fun s region => add s region.address region.stop) s

def reserveKnownUsers (boot : Handover) (s : State) : State :=
  let s := reserve s 0 MIB
  let s := reserve s (kernelRange boot).start (kernelRange boot).stop
  let s := boot.infoRegions.foldl (fun s info => reserve s info.address info.stop) s
  boot.modules.foldl (fun s module => reserve s module.start module.stop) s

/-- The statics after the assignments of `Initialize` and before memory is
added. -/
def blank (frameCount : Nat) : State where
  taken := List.replicate ((frameCount + BITS_PER_WORD - 1) / BITS_PER_WORD) ALL_TAKEN
  frameCount := frameCount
  reachableFrames := min (Config.IDENTITY_MAPPED_LIMIT / SIZE) frameCount
  totalFrames := 0
  freeFrames := 0
  nextIndex := 0

/-- The number of bytes of the bitmap. -/
def bitmapBytes (frameCount : Nat) : Nat :=
  (frameCount + BITS_PER_WORD - 1) / BITS_PER_WORD * 8

def initialFrameCount (boot : Handover) : Nat :=
  wrap64 (highestAvailableAddress boot + SIZE - 1) / SIZE

/-- `Frame::Initialize`.  The bitmap's own frames are withdrawn last, and
the location is returned for the layers above. -/
def initializeState (boot : Handover) : Outcome (State × Nat) := do
  let frameCount := initialFrameCount boot
  let bytes := bitmapBytes frameCount
  let location ← chooseBitmapLocation boot bytes
  if location = 0 then .error (.panic "No room for the frame bitmap")
  let s := addAvailableMemory boot (blank frameCount)
  let s := reserveKnownUsers boot s
  let s := reserve s location (wrap64 (location + bytes))
  if s.freeFrames = 0 then .error (.panic "No usable physical memory")
  return (s, location)

/-! ## Handing frames out -/

def setReachableLimit (s : State) (limit : Nat) : State :=
  { s with reachableFrames := min (limit / SIZE) s.frameCount }

/-- The loop of `FindRun` over the `n` frames from `index` on.  `run` is
the length of the run of clear bits that ends before `index`. -/
def findRunLoop (s : State) (count : Nat) : Nat → Nat → Nat → Option Nat
  | 0, _, _ => none
  | n + 1, index, run =>
    if isTaken s index then findRunLoop s count n (index + 1) 0
    else if run + 1 = count then some (index + 1 - count)
    else findRunLoop s count n (index + 1) (run + 1)

/-- `FindRun`.  `none` stands for `NOT_FOUND`. -/
def findRun (s : State) (start count : Nat) : Option Nat :=
  findRunLoop s count (s.reachableFrames - start) start 0

/-- The two searches of `Allocate`: from the cursor, then from zero. -/
def findFirst (s : State) (count : Nat) : Option Nat :=
  match findRun s s.nextIndex count with
  | some first => some first
  | none => if s.nextIndex ≠ 0 then findRun s 0 count else none

/-- Mark the run that starts at `first`. -/
def takeRun (s : State) (first count : Nat) : State :=
  (List.range' first count).foldl take s

/-- `Frame::Allocate`.  The address is zero when no run is left. -/
def allocate (s : State) (count : Nat) : Nat × State :=
  if count = 0 then (0, s)
  else
    match findFirst s count with
    | none => (0, s)
    | some first =>
      (first * SIZE,
        { takeRun s first count with
          freeFrames := sub64 s.freeFrames count
          nextIndex := if first + count < s.reachableFrames
            then first + count else 0 })

/-- The body of the loop of `Free`. -/
def freeFrame (s : State) (index : Nat) : Outcome State := do
  assert "IsTaken(index)" (isTaken s index)
  return { release s index with freeFrames := s.freeFrames + 1 }

/-- `Frame::Free`. -/
def free (s : State) (address count : Nat) : Outcome State :=
  if address = 0 ∨ count = 0 then .ok s
  else do
    assert "InAddress % SIZE == 0" (address % SIZE = 0)
    let first := address / SIZE
    assert "first + InCount <= s_FrameCount" (wrap64 (first + count) ≤ s.frameCount)
    (List.range' first count).foldlM freeFrame s

end X64HK.Frame
