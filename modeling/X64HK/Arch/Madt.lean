import Mathlib.Tactic.SplitIfs
import X64HK.Arch.Acpi
import X64HK.Lib.RecordWalk

/-!
# The topology that the MADT describes

A model of `Apic::Initialize` in `Kernel/Arch/Apic.cpp`.  The MADT is a header
and then records of four known types and any others, and each record tells its
own length.  The loop takes local APICs, an I/O APIC, rewired interrupt lines
and the address of the local APIC out of them.

Pointers are addresses.  The two writes to the ports of the interrupt mode
register and the messages are left out.

* `foldl_readEntry`: what the body leaves when it is folded over records.
* `initializeLoop_terminates_iff`: the loop ends unless a record has length
  zero.
* `madt_walk`: when the loop ends and stays inside the table, and its result
  for records that fill the table.
-/

namespace X64HK.Apic

open ByteMemory RecordWalk

/-- The broadcast address. -/
def INVALID_ID : Nat := 0xFF

/-- `sizeof(Acpi::Madt)`. -/
def MADT_SIZE : Nat := 44

/-- `ArraySize(s_PinMap)`. -/
def PIN_COUNT : Nat := 16

/-- `Acpi::MadtEntry::Type`. -/
inductive EntryType where
  | localApic
  | ioApic
  | interruptSourceOverride
  | localApicAddressOverride
  | other
  deriving DecidableEq, Repr

def EntryType.ofByte (value : BitVec 8) : EntryType :=
  if value = 0 then .localApic
  else if value = 1 then .ioApic
  else if value = 2 then .interruptSourceOverride
  else if value = 5 then .localApicAddressOverride
  else .other

/-- The size of the structure that a record of this type is cast to. -/
def EntryType.size : EntryType → Nat
  | .localApic => 8
  | .ioApic => 12
  | .interruptSourceOverride => 10
  | .localApicAddressOverride => 12
  | .other => 2

/-- `s_IoApic`. -/
structure IoApic where
  id : Nat := 0
  address : Nat := 0
  interruptBase : Nat := 0
  deriving DecidableEq, Repr

/-- The statics of `Apic.cpp` and `LocalApic::s_BaseAddress`.
`s_LocalApicCount` is the length of `localApicIds`. -/
@[ext]
structure Topology where
  baseAddress : Nat
  ioApic : IoApic := {}
  pinMap : Vector (BitVec 8) PIN_COUNT := Vector.ofFn fun i => BitVec.ofNat 8 i
  localApicIds : List Nat := []
  deriving DecidableEq

/-! ## The table -/

section Fields

variable (m : ByteMemory) (madt entry : Nat)

def u8 (a : Nat) : Nat := (m a).toNat

/-- `TableHeader::Length`. -/
def tableLength : Nat := load m (madt + 4) 4

/-- `TableHeader::End`. -/
def tableEnd : Nat := madt + tableLength m madt

def localApicAddress : Nat := load m (madt + 36) 4

def entryType : EntryType := EntryType.ofByte (m entry)

def entryLength : Nat := u8 m (entry + 1)

/-- `SubHeader::Next`. -/
def next : Nat := entry + entryLength m entry

/-! Each type of record has fields of its own. -/

def apicId : Nat := u8 m (entry + 3)
def flagsEnabled : Bool := (m (entry + 4)).getLsbD 0
def ioApicId : Nat := u8 m (entry + 2)
def ioApicAddress : Nat := load m (entry + 4) 4
def globalSystemInterruptBase : Nat := load m (entry + 8) 4
def bus : Nat := u8 m (entry + 2)
def source : Nat := u8 m (entry + 3)
def globalSystemInterrupt : Nat := load m (entry + 4) 4
def overrideAddress : Nat := load m (entry + 4) 8

end Fields

/-! ## The loop -/

/-- The body of the loop of `Initialize`. -/
def readEntry (m : ByteMemory) (t : Topology) (entry : Nat) : Topology :=
  match entryType m entry with
  | .localApic =>
    if flagsEnabled m entry = false ∨ apicId m entry = INVALID_ID then t
    else if t.localApicIds.length ≥ Config.MAX_CORES then t
    else { t with localApicIds := t.localApicIds ++ [apicId m entry] }
  | .ioApic =>
    if globalSystemInterruptBase m entry > 23 then t
    else
      { t with ioApic :=
        { id := ioApicId m entry
          address := ioApicAddress m entry
          interruptBase := globalSystemInterruptBase m entry } }
  | .interruptSourceOverride =>
    if h : bus m entry = 0 ∧ source m entry < PIN_COUNT then
      { t with pinMap :=
        t.pinMap.set (source m entry) (BitVec.ofNat 8 (globalSystemInterrupt m entry)) h.2 }
    else t
  | .localApicAddressOverride => { t with baseAddress := overrideAddress m entry }
  | .other => t

/-- The statics before the loop. -/
def initialTopology (m : ByteMemory) (madt : Nat) : Topology :=
  { baseAddress := localApicAddress m madt }

/-- The loop for a number of rounds. -/
def initializeLoop (m : ByteMemory) (madt fuel : Nat) : Option Topology :=
  loop (· < tableEnd m madt) (next m) (readEntry m) (initialTopology m madt) (madt + MADT_SIZE) fuel

/-- `Apic::Initialize`, with the table that `Acpi::Get` found. -/
def initializeTopology (m : ByteMemory) (madt : Nat) : Outcome (Bool × Topology) :=
  match initializeLoop m madt (tableLength m madt + 1) with
  | none => .error .outOfFuel
  | some t => .ok (decide (0 < t.localApicIds.length), t)

/-- The loop gets to this record. -/
def Visited (m : ByteMemory) (madt entry : Nat) : Prop :=
  Reaches (· < tableEnd m madt) (next m) (madt + MADT_SIZE) entry ∧ entry < tableEnd m madt

/-- The bytes of a record that the loop reads: its type, the fields in the order
of the source, and its length. -/
def entryReads (m : ByteMemory) (entry : Nat) : List Range :=
  ⟨entry, entry + 1⟩ :: ⟨entry + 1, entry + 2⟩ ::
    match entryType m entry with
    | .localApic =>
      ⟨entry + 4, entry + 8⟩ :: if flagsEnabled m entry then [⟨entry + 3, entry + 4⟩] else []
    | .ioApic =>
      ⟨entry + 8, entry + 12⟩ ::
        if globalSystemInterruptBase m entry > 23 then []
        else [⟨entry + 2, entry + 3⟩, ⟨entry + 4, entry + 8⟩]
    | .interruptSourceOverride =>
      ⟨entry + 2, entry + 3⟩ ::
        if bus m entry = 0 then
          ⟨entry + 3, entry + 4⟩ ::
            if source m entry < PIN_COUNT then [⟨entry + 4, entry + 8⟩] else []
        else []
    | .localApicAddressOverride => [⟨entry + 4, entry + 12⟩]
    | .other => []

/-- The number of bytes from the start of a record to the last one that is
read. -/
def readSize (m : ByteMemory) (entry : Nat) : Nat :=
  match entryType m entry with
  | .localApic => 8
  | .ioApic => 12
  | .interruptSourceOverride =>
    if bus m entry = 0 then if source m entry < PIN_COUNT then 8 else 4 else 3
  | .localApicAddressOverride => 12
  | .other => 2

variable {m : ByteMemory} {madt entry stop : Nat} {records : List Nat}

theorem entryReads_le_iff :
    (∀ range ∈ entryReads m entry, range.stop ≤ stop) ↔ entry + readSize m entry ≤ stop := by
  unfold entryReads readSize
  cases entryType m entry <;> dsimp only <;> (try split_ifs) <;>
    simp only [List.forall_mem_cons, List.not_mem_nil, false_implies, implies_true, and_true] <;>
    omega

/-! ## What the records say -/

/-- A processor that may be started. -/
def IsProcessor (m : ByteMemory) (entry : Nat) : Prop :=
  entryType m entry = .localApic ∧ flagsEnabled m entry = true ∧ apicId m entry ≠ INVALID_ID

/-- The I/O APIC of the legacy interrupt lines. -/
def IsLegacyIoApic (m : ByteMemory) (entry : Nat) : Prop :=
  entryType m entry = .ioApic ∧ globalSystemInterruptBase m entry ≤ 23

/-- The ISA interrupt line `i` is rewired. -/
def Rewires (m : ByteMemory) (i entry : Nat) : Prop :=
  entryType m entry = .interruptSourceOverride ∧ bus m entry = 0 ∧ source m entry = i

instance (m : ByteMemory) : DecidablePred (IsProcessor m) :=
  fun _ => inferInstanceAs (Decidable (_ ∧ _))

instance (m : ByteMemory) : DecidablePred (IsLegacyIoApic m) :=
  fun _ => inferInstanceAs (Decidable (_ ∧ _))

instance (m : ByteMemory) (i : Nat) : DecidablePred (Rewires m i) :=
  fun _ => inferInstanceAs (Decidable (_ ∧ _))

/-- The topology that a table with these records describes. -/
def described (m : ByteMemory) (madt : Nat) (records : List Nat) : Topology where
  baseAddress := ((records.filter (entryType m · = .localApicAddressOverride)).getLast?.map
    (overrideAddress m)).getD (localApicAddress m madt)
  ioApic := ((records.filter (IsLegacyIoApic m ·)).getLast?.map fun entry =>
    ⟨ioApicId m entry, ioApicAddress m entry, globalSystemInterruptBase m entry⟩).getD {}
  pinMap := Vector.ofFn fun i => ((records.filter (Rewires m i ·)).getLast?.map fun entry =>
    BitVec.ofNat 8 (globalSystemInterrupt m entry)).getD (BitVec.ofNat 8 i)
  localApicIds := ((records.filter (IsProcessor m ·)).map (apicId m)).take Config.MAX_CORES

theorem readEntry_baseAddress (m : ByteMemory) (t : Topology) (entry : Nat) :
    (readEntry m t entry).baseAddress =
      if entryType m entry = .localApicAddressOverride then overrideAddress m entry
      else t.baseAddress := by
  unfold readEntry
  cases entryType m entry <;> simp only [reduceCtorEq, if_false, if_true] <;> split_ifs <;> rfl

theorem readEntry_ioApic (m : ByteMemory) (t : Topology) (entry : Nat) :
    (readEntry m t entry).ioApic =
      if IsLegacyIoApic m entry then
        ⟨ioApicId m entry, ioApicAddress m entry, globalSystemInterruptBase m entry⟩
      else t.ioApic := by
  unfold readEntry IsLegacyIoApic
  obtain ⟨type, htype⟩ : ∃ type, entryType m entry = type := ⟨_, rfl⟩
  simp only [htype]
  cases type with
  | ioApic =>
    simp only [true_and]
    by_cases hbase : globalSystemInterruptBase m entry ≤ 23
    · rw [if_neg (by omega), if_pos hbase]
    · rw [if_pos (by omega), if_neg hbase]
  | _ => simp only [reduceCtorEq, false_and, if_false] <;> split_ifs <;> rfl

theorem readEntry_localApicIds (m : ByteMemory) (t : Topology) (entry : Nat) :
    (readEntry m t entry).localApicIds =
      if IsProcessor m entry ∧ t.localApicIds.length < Config.MAX_CORES then
        t.localApicIds ++ [apicId m entry]
      else t.localApicIds := by
  unfold readEntry IsProcessor
  obtain ⟨type, htype⟩ : ∃ type, entryType m entry = type := ⟨_, rfl⟩
  simp only [htype]
  cases type with
  | localApic =>
    simp only [true_and]
    by_cases hskip : flagsEnabled m entry = false ∨ apicId m entry = INVALID_ID
    · rw [if_pos hskip, if_neg]
      rintro ⟨⟨henabled, hid⟩, -⟩
      rcases hskip with hdisabled | hinvalid
      · exact absurd (henabled.symm.trans hdisabled) nofun
      · exact hid hinvalid
    · rw [not_or, Bool.not_eq_false] at hskip
      rw [if_neg (by rw [not_or, Bool.not_eq_false]; exact hskip)]
      by_cases hfull : t.localApicIds.length ≥ Config.MAX_CORES
      · rw [if_pos hfull, if_neg (fun hgo => Nat.not_lt_of_le hfull hgo.2)]
      · rw [if_neg hfull, if_pos ⟨hskip, Nat.lt_of_not_le hfull⟩]
  | _ => simp only [reduceCtorEq, false_and, if_false] <;> split_ifs <;> rfl

theorem readEntry_pinMap (m : ByteMemory) (i : Fin PIN_COUNT) (t : Topology) (entry : Nat) :
    (readEntry m t entry).pinMap.get i =
      if Rewires m i entry then BitVec.ofNat 8 (globalSystemInterrupt m entry)
      else t.pinMap.get i := by
  unfold readEntry Rewires
  obtain ⟨type, htype⟩ : ∃ type, entryType m entry = type := ⟨_, rfl⟩
  simp only [htype]
  cases type with
  | interruptSourceOverride =>
    simp only [true_and]
    by_cases hpin : bus m entry = 0 ∧ source m entry < PIN_COUNT
    · rw [dif_pos hpin]
      change (t.pinMap.set _ _ hpin.2)[i.val] = if _ then _ else t.pinMap[i.val]
      rw [Vector.getElem_set]
      simp only [hpin.1, true_and]
    · rw [dif_neg hpin, if_neg]
      rintro ⟨hbus, hsource⟩
      exact hpin ⟨hbus, hsource ▸ i.isLt⟩
  | _ => simp only [reduceCtorEq, false_and, if_false] <;> split_ifs <;> rfl

/-- The fold leaves what the records describe. -/
theorem foldl_readEntry (m : ByteMemory) (madt : Nat) (records : List Nat) :
    records.foldl (readEntry m) (initialTopology m madt) = described m madt records := by
  have hpins : ∀ i : Fin PIN_COUNT,
      (records.foldl (readEntry m) (initialTopology m madt)).pinMap.get i =
        ((records.filter (Rewires m i ·)).getLast?.map fun entry =>
          BitVec.ofNat 8 (globalSystemInterrupt m entry)).getD
            ((initialTopology m madt).pinMap.get i) :=
    fun i => foldl_last (fun t : Topology => t.pinMap.get i) (readEntry_pinMap m i) records _
  refine Topology.ext (foldl_last Topology.baseAddress (readEntry_baseAddress m) records _)
    (foldl_last Topology.ioApic (readEntry_ioApic m) records _) (Vector.ext fun i hi => ?_)
    (foldl_first Topology.localApicIds (readEntry_localApicIds m) records _)
  refine (hpins ⟨i, hi⟩).trans ?_
  have hidentity : (initialTopology m madt).pinMap.get ⟨i, hi⟩ = BitVec.ofNat 8 i :=
    Vector.getElem_ofFn hi
  rw [hidentity]
  unfold described
  rw [Vector.getElem_ofFn]

/-! ## The whole loop -/

/-- The records fill the table from `entry` to its end, and each has the size of
its type at least. -/
inductive Tiles (m : ByteMemory) (stop : Nat) : Nat → List Nat → Prop
  | done : Tiles m stop stop []
  | record {entry : Nat} {records : List Nat} : (entryType m entry).size ≤ entryLength m entry →
      Tiles m stop (next m entry) records → Tiles m stop entry (entry :: records)

theorem EntryType.size_pos (type : EntryType) : 0 < type.size := by
  cases type <;> decide

theorem Tiles.length_le (h : Tiles m stop entry records) : entry + records.length ≤ stop := by
  induction h with
  | done => exact Nat.le_refl _
  | @record entry records hsize _ ih =>
    have hpos := (entryType m entry).size_pos
    unfold next at ih
    rw [List.length_cons]
    omega

theorem Tiles.walks (h : Tiles m stop entry records) : Walks (· < stop) (next m) entry records := by
  induction h with
  | done => exact .done (Nat.lt_irrefl _)
  | record hsize hrest ih =>
    rename_i entry records
    have hlength := (Tiles.record hsize hrest).length_le
    rw [List.length_cons] at hlength
    exact .step (by omega) ih

/-- The loop ends with what the visited records describe, and a round for each
byte of the table is enough. -/
theorem initializeTopology_of_walks
    (h : Walks (· < tableEnd m madt) (next m) (madt + MADT_SIZE) records)
    (hlength : records.length ≤ tableLength m madt) :
    initializeTopology m madt =
      .ok (decide (0 < (described m madt records).localApicIds.length),
        described m madt records) := by
  have hloop : initializeLoop m madt (tableLength m madt + 1) = some (described m madt records) :=
    loop_eq_some_iff.2 ⟨records, h, Nat.lt_succ_of_le hlength, foldl_readEntry m madt records⟩
  rw [initializeTopology, hloop]

/-- The loop ends if and only if no record that it gets to has length zero. -/
theorem initializeLoop_terminates_iff (m : ByteMemory) (madt : Nat) :
    (∃ fuel t, initializeLoop m madt fuel = some t) ↔
      ∀ entry, Visited m madt entry → entryLength m entry ≠ 0 := by
  have hends : (∃ fuel t, initializeLoop m madt fuel = some t) ↔
      ∃ records, Walks (· < tableEnd m madt) (next m) (madt + MADT_SIZE) records := by
    constructor
    · rintro ⟨fuel, t, hloop⟩
      obtain ⟨records, hwalk, -⟩ := loop_eq_some_iff.1 hloop
      exact ⟨records, hwalk⟩
    · rintro ⟨records, hwalk⟩
      exact ⟨records.length + 1, _, loop_eq_some_iff.2 ⟨records, hwalk, Nat.lt_succ_self _, rfl⟩⟩
  have hmono : ∀ entry, Reaches (· < tableEnd m madt) (next m) (madt + MADT_SIZE) entry →
      entry ≤ next m entry := fun _ _ => Nat.le_add_right _ _
  rw [hends, exists_walks_iff (fun _ hlt => hlt) hmono]
  constructor
  · rintro hnext entry ⟨hreach, hlt⟩ hzero
    exact hnext entry hreach hlt (by rw [next, hzero, Nat.add_zero])
  · intro hlength entry hreach hlt hnext
    have hzero := hlength entry ⟨hreach, hlt⟩
    unfold next at hnext
    omega

theorem Visited.above (h : Visited m madt entry) : madt ≤ entry := by
  obtain ⟨hreach, -⟩ := h
  induction hreach with
  | refl => exact Nat.le_add_right _ _
  | step _ _ ih => exact Nat.le_trans ih (Nat.le_add_right _ _)

theorem entryReads_above (m : ByteMemory) (entry : Nat) :
    ∀ range ∈ entryReads m entry, entry ≤ range.start := by
  unfold entryReads
  cases entryType m entry <;> dsimp only <;> (try split_ifs) <;>
    simp only [List.forall_mem_cons, List.not_mem_nil, false_implies, implies_true, and_true] <;>
    omega

/-- The loop ends and reads only the table exactly when no record that it gets to
has length zero or ends, with the last field that is read of it, behind the
table.  For records that fill the table, it leaves what they describe. -/
theorem madt_walk (m : ByteMemory) (madt : Nat) :
    (((∃ fuel t, initializeLoop m madt fuel = some t) ∧
        ∀ entry, Visited m madt entry → ∀ range ∈ entryReads m entry,
          madt ≤ range.start ∧ range.stop ≤ tableEnd m madt) ↔
      ∀ entry, Visited m madt entry →
        entryLength m entry ≠ 0 ∧ entry + readSize m entry ≤ tableEnd m madt) ∧
    ∀ records, Tiles m (tableEnd m madt) (madt + MADT_SIZE) records →
      initializeTopology m madt =
        .ok (decide (0 < (described m madt records).localApicIds.length),
          described m madt records) := by
  constructor
  · rw [initializeLoop_terminates_iff, ← forall₂_and]
    refine forall₂_congr fun entry hvisited => and_congr_right' ?_
    rw [← entryReads_le_iff]
    refine forall₂_congr fun range hread => ?_
    exact and_iff_right (Nat.le_trans hvisited.above (entryReads_above m entry range hread))
  · intro records htiles
    have hlength := htiles.length_le
    unfold tableEnd at hlength
    exact initializeTopology_of_walks htiles.walks (by omega)

/-- A table whose only record is two zero bytes. -/
def stuckMadt : ByteMemory := fun a =>
  [0x41, 0x50, 0x49, 0x43, 46, 0, 0, 0, 1, 0xB4].getD (a - 0x1000) 0

/-- A table with one byte behind the header. -/
def shortMadt : ByteMemory := fun a =>
  if a = 0x102C then 4
  else [0x41, 0x50, 0x49, 0x43, 45, 0, 0, 0, 1, 0xB1].getD (a - 0x1000) 0

/-- Both tables have a valid checksum.  The loop never leaves the first record
of the first one, and it reads the length of a record behind the end of the
second one. -/
theorem madt_walk_fails :
    Acpi.isChecksumValid stuckMadt 0x1000 (tableLength stuckMadt 0x1000) = true ∧
      (∀ fuel, initializeLoop stuckMadt 0x1000 fuel = none) ∧
      Acpi.isChecksumValid shortMadt 0x1000 (tableLength shortMadt 0x1000) = true ∧
      Visited shortMadt 0x1000 0x102C ∧ ⟨0x102D, 0x102E⟩ ∈ entryReads shortMadt 0x102C ∧
      tableEnd shortMadt 0x1000 = 0x102D := by
  have hend : tableEnd stuckMadt 0x1000 = 0x102E := by decide +kernel
  have hend' : tableEnd shortMadt 0x1000 = 0x102D := by decide +kernel
  refine ⟨by decide +kernel, fun fuel => ?_, by decide +kernel, ⟨.refl, ?_⟩, by decide +kernel,
    hend'⟩
  · rw [Option.eq_none_iff_forall_ne_some]
    intro t hloop
    refine (initializeLoop_terminates_iff stuckMadt 0x1000).1 ⟨fuel, t, hloop⟩ 0x102C
      ⟨.refl, ?_⟩ (by decide +kernel)
    rw [hend]
    decide
  · rw [hend']
    decide

end X64HK.Apic
