import Mathlib.Order.Bounds.Basic
import X64HK.Boot.Multiboot
import X64HK.Debug.Panic
import X64HK.Lib.ByteMemory

/-!
# The search for the RSDP

A model of `Kernel/Arch/Acpi.cpp`.  The firmware leaves the root pointer of its tables
somewhere in an area of memory, at a multiple of 16 bytes, and `Scan` looks for
it.  A pointer is an address, and zero is the null pointer.

`RsdpIn` says what is searched, without the search: a complete structure with a
signature and a sum.  `scanReads` are the bytes that `Scan` looks at.

* `scan_spec`: `Scan` returns the first slot with an RSDP.
* `scan_exact_iff`: when that is the lowest RSDP in the area, found without
  reading outside of it.
* `initializeTables_spec`: `Initialize` ends with a valid RSDP or none.
* `get_spec`: what `Get` returns is one of the tables that the RSDP leads to.
-/

namespace X64HK.Acpi

open ByteMemory

/-- The eight characters of `RSDP_SIGNATURE` as a number. -/
def RSDP_SIGNATURE : Nat := 0x2052545020445352

/-- `sizeof(Rsdp)`. -/
def RSDP_SIZE : Nat := 36

/-! The fields of `Rsdp` that are read. -/

def revision (m : ByteMemory) (rsdp : Nat) : BitVec 8 := m (rsdp + 15)
def length (m : ByteMemory) (rsdp : Nat) : Nat := load m (rsdp + 20) 4

/-- The loop of `IsChecksumValid` over `n` bytes. -/
def sumBytes (m : ByteMemory) (a n : Nat) : BitVec 8 :=
  (List.range n).foldl (fun sum i => sum + m (a + i)) 0

def isChecksumValid (m : ByteMemory) (a n : Nat) : Bool := decide (sumBytes m a n = 0)

def isValidRsdp (m : ByteMemory) (rsdp : Nat) : Bool :=
  if revision m rsdp = 0 then isChecksumValid m rsdp 20
  else decide (20 < length m rsdp) && isChecksumValid m rsdp (length m rsdp)

def hasSignature (m : ByteMemory) (a : Nat) : Bool := decide (load m a 8 = RSDP_SIGNATURE)

/-- The loop of `Scan` from `offset` on. -/
def scanLoop (m : ByteMemory) (start size : Nat) : Nat → Nat → Outcome Nat
  | _, 0 => .error .outOfFuel
  | offset, fuel + 1 =>
    if wrap64 (offset + RSDP_SIZE) ≤ size then
      if hasSignature m (wrap64 (start + offset)) && isValidRsdp m (wrap64 (start + offset)) then
        .ok (wrap64 (start + offset))
      else scanLoop m start size (wrap64 (offset + 16)) fuel
    else .ok 0

/-- `Scan`.  It takes a round for each slot. -/
def scan (m : ByteMemory) (start size : Nat) : Outcome Nat :=
  scanLoop m start size 0 (size / 16 + 1)

/-- The bytes that are read for a candidate. -/
def candidateReads (m : ByteMemory) (a : Nat) : List Range :=
  ⟨a, a + 8⟩ ::
    if hasSignature m a then
      ⟨a + 15, a + 16⟩ ::
        if revision m a = 0 then [⟨a, a + 20⟩]
        else ⟨a + 20, a + 24⟩ :: if 20 < length m a then [⟨a, a + length m a⟩] else []
    else []

/-- What the loop of `Scan` reads from `offset` on. -/
def scanReadsLoop (m : ByteMemory) (start size : Nat) : Nat → Nat → List Range
  | _, 0 => []
  | offset, fuel + 1 =>
    if wrap64 (offset + RSDP_SIZE) ≤ size then
      candidateReads m (wrap64 (start + offset)) ++
        if hasSignature m (wrap64 (start + offset)) &&
            isValidRsdp m (wrap64 (start + offset)) then []
        else scanReadsLoop m start size (wrap64 (offset + 16)) fuel
    else []

def scanReads (m : ByteMemory) (start size : Nat) : List Range :=
  scanReadsLoop m start size 0 (size / 16 + 1)

/-! ## What is searched -/

/-- The bytes that the checksum of an RSDP covers. -/
def rsdpBytes (m : ByteMemory) (a : Nat) : Nat :=
  if revision m a = 0 then 20 else length m a

/-- A complete and valid RSDP at `a` in the area. -/
structure RsdpIn (m : ByteMemory) (start size a : Nat) : Prop where
  aligned : a % 16 = 0
  above : start ≤ a
  inside : a + rsdpBytes m a ≤ start + size
  signature : hasSignature m a = true
  long : revision m a = 0 ∨ 20 < length m a
  sum : isChecksumValid m a (rsdpBytes m a) = true

/-- `Scan` finds the lowest RSDP in the area if there is one, and reads nothing
but the area. -/
structure Exact (m : ByteMemory) (start size result : Nat) : Prop where
  lowest : result ≠ 0 → IsLeast {a | RsdpIn m start size a} result
  none_iff : result = 0 ↔ ∀ a, ¬RsdpIn m start size a
  inside : ∀ range ∈ scanReads m start size, start ≤ range.start ∧ range.stop ≤ start + size

variable {m : ByteMemory} {start size offset a result : Nat}

theorem isValidRsdp_iff :
    isValidRsdp m a = true ↔
      (revision m a = 0 ∨ 20 < length m a) ∧ isChecksumValid m a (rsdpBytes m a) = true := by
  unfold isValidRsdp rsdpBytes
  by_cases hrevision : revision m a = 0
  · simp only [hrevision, if_true, true_or, true_and]
  · simp only [hrevision, if_false, false_or, Bool.and_eq_true, decide_eq_true_eq]

/-- What `Scan` takes for an RSDP at `a`. -/
def Accepts (m : ByteMemory) (a : Nat) : Prop :=
  hasSignature m a = true ∧ isValidRsdp m a = true

instance (m : ByteMemory) (a : Nat) : Decidable (Accepts m a) := inferInstanceAs (Decidable (_ ∧ _))

theorem rsdpIn_iff : RsdpIn m start size a ↔
    Accepts m a ∧ a % 16 = 0 ∧ start ≤ a ∧ a + rsdpBytes m a ≤ start + size := by
  constructor
  · intro h
    exact ⟨⟨h.signature, isValidRsdp_iff.2 ⟨h.long, h.sum⟩⟩, h.aligned, h.above, h.inside⟩
  · rintro ⟨⟨hsignature, hvalid⟩, haligned, habove, hinside⟩
    obtain ⟨hlong, hsum⟩ := isValidRsdp_iff.1 hvalid
    exact ⟨haligned, habove, hinside, hsignature, hlong, hsum⟩

/-! ## The loop -/

/-- A slot is a multiple of 16 with room for a whole `Rsdp`. -/
def Slot (size offset : Nat) : Prop := offset % 16 = 0 ∧ offset + RSDP_SIZE ≤ size

/-- No slot before this one has an RSDP. -/
def Unfound (m : ByteMemory) (start size offset : Nat) : Prop :=
  ∀ earlier < offset, Slot size earlier → ¬Accepts m (start + earlier)

theorem Unfound.next (h : Unfound m start size offset) (haligned : offset % 16 = 0)
    (hnot : ¬Accepts m (start + offset)) : Unfound m start size (offset + 16) := by
  intro earlier hlt hslot
  rcases Nat.lt_trichotomy earlier offset with hbefore | rfl | hafter
  · exact h earlier hbefore hslot
  · exact hnot
  · have hmod := hslot.1
    omega

/-- `Scan` stops at the first slot with an RSDP, and it has then looked at that
slot and at all before. -/
structure Stops (m : ByteMemory) (start size result : Nat) (reads : List Range)
    (offset : Nat) : Prop where
  found : (∃ slot, Slot size slot ∧ Accepts m (start + slot) ∧ Unfound m start size slot ∧
      result = start + slot) ∨
    (∀ slot, Slot size slot → ¬Accepts m (start + slot)) ∧ result = 0
  reads_iff : ∀ range, range ∈ reads ↔ ∃ slot, offset ≤ slot ∧ Slot size slot ∧
    Unfound m start size slot ∧ range ∈ candidateReads m (start + slot)

/-- The offsets that the loop gets to.  None of its sums wraps around, because the
size of the area is a multiple of 16. -/
structure Steady (start size offset : Nat) : Prop where
  aligned : offset % 16 = 0
  bounded : offset = 0 ∨ offset + 32 ≤ size

theorem Steady.wrap_eq (h : Steady start size offset) (hsize : size % 16 = 0)
    (hlt : size < 2 ^ 64) : wrap64 (offset + RSDP_SIZE) = offset + RSDP_SIZE := by
  refine wrap64_of_lt ?_
  rw [show RSDP_SIZE = 36 from rfl]
  rcases h.bounded with hzero | hle
  · omega
  · omega

/-- Each round moves on by a slot. -/
theorem scanLoop_spec (hsize : size % 16 = 0) (harea : start + size ≤ 2 ^ 64)
    (hlt : size < 2 ^ 64) :
    ∀ {fuel offset : Nat}, Steady start size offset → size < offset + 16 * fuel →
      Unfound m start size offset →
      ∃ result, scanLoop m start size offset fuel = .ok result ∧
        Stops m start size result (scanReadsLoop m start size offset fuel) offset := by
  have hrsdp : RSDP_SIZE = 36 := rfl
  intro fuel
  induction fuel with
  | zero =>
    intro offset hsteady hfuel
    have hbounded := hsteady.bounded
    omega
  | succ fuel ih =>
    intro offset hsteady hfuel hunfound
    have haligned := hsteady.aligned
    rw [scanLoop, scanReadsLoop, hsteady.wrap_eq hsize hlt]
    by_cases hfits : offset + RSDP_SIZE ≤ size
    · have hslot : Slot size offset := ⟨haligned, hfits⟩
      rw [if_pos hfits, if_pos hfits, wrap64_of_lt (show start + offset < 2 ^ 64 by omega),
        wrap64_of_lt (show offset + 16 < 2 ^ 64 by omega)]
      by_cases haccepts : Accepts m (start + offset)
      · rw [if_pos (by rw [haccepts.1, haccepts.2]; rfl),
          if_pos (by rw [haccepts.1, haccepts.2]; rfl)]
        refine ⟨start + offset, rfl, Or.inl ⟨offset, hslot, haccepts, hunfound, rfl⟩,
          fun range => ?_⟩
        rw [List.append_nil]
        constructor
        · exact fun hread => ⟨offset, Nat.le_refl _, hslot, hunfound, hread⟩
        · rintro ⟨slot, hle, -, hfirst, hread⟩
          rcases Nat.eq_or_lt_of_le hle with rfl | hlater
          · exact hread
          · exact absurd haccepts (hfirst offset hlater hslot)
      · have hno : ¬(hasSignature m (start + offset) && isValidRsdp m (start + offset)) = true := by
          rw [Bool.and_eq_true]
          exact haccepts
        rw [if_neg hno, if_neg hno]
        obtain ⟨result, hloop, hfound, hreads⟩ := @ih (offset + 16)
          ⟨by omega, Or.inr (by omega)⟩ (by omega) (hunfound.next haligned haccepts)
        refine ⟨result, hloop, hfound, fun range => ?_⟩
        rw [List.mem_append, hreads]
        constructor
        · rintro (hread | ⟨slot, hle, hrest⟩)
          · exact ⟨offset, Nat.le_refl _, hslot, hunfound, hread⟩
          · exact ⟨slot, by omega, hrest⟩
        · rintro ⟨slot, hle, hslot', hfirst, hread⟩
          rcases Nat.eq_or_lt_of_le hle with rfl | hlater
          · exact Or.inl hread
          · have hmod := hslot'.1
            exact Or.inr ⟨slot, by omega, hslot', hfirst, hread⟩
    · rw [if_neg hfits, if_neg hfits]
      refine ⟨0, rfl, Or.inr ⟨fun slot hslot => ?_, rfl⟩, fun range => ?_⟩
      · have hin := hslot.2
        exact hunfound slot (by omega) hslot
      · refine iff_of_false List.not_mem_nil ?_
        rintro ⟨slot, hle, hslot, -⟩
        have hin := hslot.2
        omega

theorem scan_spec (m : ByteMemory) (hsize : size % 16 = 0) (harea : start + size ≤ 2 ^ 64)
    (hlt : size < 2 ^ 64) :
    ∃ result, scan m start size = .ok result ∧
      Stops m start size result (scanReads m start size) 0 :=
  scanLoop_spec hsize harea hlt ⟨rfl, Or.inl rfl⟩ (by omega)
    fun _ hbefore => absurd hbefore (Nat.not_lt_zero _)

/-! ## Exactness -/

/-- What an area must be like for `Scan` to be exact. -/
structure Findable (m : ByteMemory) (start size : Nat) : Prop where
  /-- A candidate that is looked at and tells its length itself is inside. -/
  fits : ∀ slot, Slot size slot → Unfound m start size slot →
    hasSignature m (start + slot) = true → revision m (start + slot) ≠ 0 →
    20 < length m (start + slot) → slot + length m (start + slot) ≤ size
  /-- No slot has an RSDP, and the last 35 bytes have none either. -/
  last : (∀ slot, Slot size slot → ¬Accepts m (start + slot)) →
    ∀ a, RsdpIn m start size a → a + RSDP_SIZE ≤ start + size
  /-- The RSDP is not at the null pointer. -/
  nonnull : Slot size 0 → Accepts m start → start ≠ 0

theorem Findable.rsdpIn (h : Findable m start size) (hstart : start % 16 = 0)
    {slot : Nat} (hslot : Slot size slot) (hfirst : Unfound m start size slot)
    (haccepts : Accepts m (start + slot)) : RsdpIn m start size (start + slot) := by
  obtain ⟨hmod, hin⟩ := hslot
  rw [show RSDP_SIZE = 36 from rfl] at hin
  refine rsdpIn_iff.2 ⟨haccepts, by omega, Nat.le_add_right _ _, ?_⟩
  obtain ⟨hlong, -⟩ := isValidRsdp_iff.1 haccepts.2
  unfold rsdpBytes
  split
  · omega
  · rename_i hrevision
    have hfits := h.fits slot ⟨hmod, hin⟩ hfirst haccepts.1 hrevision (hlong.resolve_left hrevision)
    omega

theorem Slot.of_rsdpIn (hstart : start % 16 = 0) (h : RsdpIn m start size a)
    (hin : a + RSDP_SIZE ≤ start + size) :
    ∃ slot, a = start + slot ∧ Slot size slot ∧ Accepts m (start + slot) := by
  obtain ⟨haccepts, haligned, habove, -⟩ := rsdpIn_iff.1 h
  obtain ⟨slot, rfl⟩ := Nat.exists_eq_add_of_le habove
  exact ⟨slot, rfl, ⟨by omega, by omega⟩, haccepts⟩

theorem Findable.reads_inside (h : Findable m start size) {slot : Nat} (hslot : Slot size slot)
    (hfirst : Unfound m start size slot) {range : Range}
    (hread : range ∈ candidateReads m (start + slot)) :
    start ≤ range.start ∧ range.stop ≤ start + size := by
  have hin := hslot.2
  rw [show RSDP_SIZE = 36 from rfl] at hin
  unfold candidateReads at hread
  rcases List.mem_cons.1 hread with rfl | hread
  · exact ⟨by simp only; omega, by simp only; omega⟩
  split at hread
  · rename_i hsignature
    rcases List.mem_cons.1 hread with rfl | hread
    · exact ⟨by simp only; omega, by simp only; omega⟩
    split at hread
    · rw [List.mem_singleton.1 hread]
      exact ⟨by simp only; omega, by simp only; omega⟩
    · rename_i hrevision
      rcases List.mem_cons.1 hread with rfl | hread
      · exact ⟨by simp only; omega, by simp only; omega⟩
      split at hread
      · rename_i hlong
        have hfits := h.fits slot hslot hfirst hsignature hrevision hlong
        rw [List.mem_singleton.1 hread]
        exact ⟨by simp only; omega, by simp only; omega⟩
      · exact absurd hread List.not_mem_nil
  · exact absurd hread List.not_mem_nil

theorem Stops.exact (h : Stops m start size result (scanReads m start size) 0)
    (hstart : start % 16 = 0) (hfind : Findable m start size) : Exact m start size result := by
  have hinside : ∀ range ∈ scanReads m start size,
      start ≤ range.start ∧ range.stop ≤ start + size := by
    intro range hread
    obtain ⟨slot, -, hslot, hfirst, hread⟩ := (h.reads_iff range).1 hread
    exact hfind.reads_inside hslot hfirst hread
  rcases h.found with ⟨slot, hslot, haccepts, hfirst, rfl⟩ | ⟨hnone, rfl⟩
  · have hrsdp := hfind.rsdpIn hstart hslot hfirst haccepts
    have hne : start + slot ≠ 0 := by
      intro hzero
      obtain ⟨rfl, rfl⟩ := Nat.add_eq_zero_iff.1 hzero
      exact hfind.nonnull hslot haccepts rfl
    refine ⟨fun _ => ⟨hrsdp, fun a ha => ?_⟩, iff_of_false hne fun hall => hall _ hrsdp, hinside⟩
    by_contra hlt
    have hin := hslot.2
    obtain ⟨earlier, rfl, hslot', haccepts'⟩ := Slot.of_rsdpIn hstart ha (by omega)
    exact hfirst earlier (by omega) hslot' haccepts'
  · refine ⟨fun hne => absurd rfl hne, iff_of_true rfl fun a ha => ?_, hinside⟩
    obtain ⟨slot, -, hslot, haccepts⟩ := Slot.of_rsdpIn hstart ha (hfind.last hnone a ha)
    exact hnone slot hslot haccepts

theorem Stops.findable (h : Stops m start size result (scanReads m start size) 0)
    (hexact : Exact m start size result) (hstart : start % 16 = 0) : Findable m start size := by
  have hfits : ∀ slot, Slot size slot → Unfound m start size slot →
      hasSignature m (start + slot) = true → revision m (start + slot) ≠ 0 →
      20 < length m (start + slot) → slot + length m (start + slot) ≤ size := by
    intro slot hslot hfirst hsignature hrevision hlong
    have hread : (⟨start + slot, start + slot + length m (start + slot)⟩ : Range) ∈
        candidateReads m (start + slot) := by
      unfold candidateReads
      rw [if_pos hsignature, if_neg hrevision, if_pos hlong]
      simp
    have hin := (hexact.inside _ ((h.reads_iff _).2 ⟨slot, Nat.zero_le _, hslot, hfirst, hread⟩)).2
    simp only at hin
    omega
  refine ⟨hfits, fun hnone a ha => ?_, ?_⟩
  · rcases h.found with ⟨slot, hslot, haccepts, -⟩ | ⟨-, hzero⟩
    · exact absurd haccepts (hnone slot hslot)
    · exact absurd ha (hexact.none_iff.1 hzero a)
  · rintro hslot haccepts rfl
    have hfirst : Unfound m 0 size 0 := fun _ hbefore => absurd hbefore (Nat.not_lt_zero _)
    -- the search stops at the first slot, whose address is the null pointer
    have hzero : result = 0 := by
      rcases h.found with ⟨slot, -, -, hunfound, rfl⟩ | ⟨-, hzero⟩
      · rcases Nat.eq_zero_or_pos slot with rfl | hpos
        · rfl
        · exact absurd haccepts (hunfound 0 hpos hslot)
      · exact hzero
    refine hexact.none_iff.1 hzero 0 (rsdpIn_iff.2 ⟨haccepts, rfl, Nat.le_refl _, ?_⟩)
    obtain ⟨hlong, -⟩ := isValidRsdp_iff.1 haccepts.2
    have hin := hslot.2
    rw [show RSDP_SIZE = 36 from rfl] at hin
    unfold rsdpBytes
    split
    · omega
    · rename_i hrevision
      have hle := hfits 0 hslot hfirst haccepts.1 hrevision (hlong.resolve_left hrevision)
      simp only [Nat.zero_add] at hle ⊢
      exact hle

/-- For every memory and every area, `Scan` ends, and it is exact exactly for the
areas that are `Findable`. -/
theorem scan_exact_iff (m : ByteMemory) (start size : BitVec 64) (hstart : start.toNat % 16 = 0)
    (hsize : size.toNat % 16 = 0) (harea : start.toNat + size.toNat ≤ 2 ^ 64) :
    ∃ result, scan m start.toNat size.toNat = .ok result ∧
      (Exact m start.toNat size.toNat result ↔ Findable m start.toNat size.toNat) := by
  obtain ⟨result, hscan, hstops⟩ := scan_spec m hsize harea size.isLt
  exact ⟨result, hscan, fun hexact => hstops.findable hexact hstart, hstops.exact hstart⟩

/-- The EBDA with a candidate of revision 2 whose sum is wrong, and an RSDP of revision 0
behind it. -/
def earlyRsdp : ByteMemory := fun a =>
  let signature : List (BitVec 8) := [0x52, 0x53, 0x44, 0x20, 0x50, 0x54, 0x52, 0x20]
  if a < 0x9FC00 then 0
  else (signature ++ [0, 0, 0, 0, 0, 0, 0, 2, 0, 0, 0, 0, 36] ++ List.replicate 27 0 ++
    signature ++ [0xE1]).getD (a - 0x9FC00) 0

theorem earlyRsdp_findable : Findable earlyRsdp 0x9FC00 1024 := by
  have haccepts : Accepts earlyRsdp (0x9FC00 + 48) := by decide +kernel
  have hslot : Slot 1024 48 := ⟨by decide, by decide⟩
  refine ⟨fun slot hmod hfirst hsignature hrevision hlong => ?_, fun hnone => ?_, fun _ _ => ?_⟩
  · -- the search does not get behind the RSDP
    have hle : slot ≤ 48 := by
      by_contra hlt
      exact hfirst 48 (by omega) hslot haccepts
    have hcases : slot = 0 ∨ slot = 16 ∨ slot = 32 ∨ slot = 48 := by
      have := hmod.1
      omega
    rcases hcases with rfl | rfl | rfl | rfl
    · decide +kernel
    · exact absurd hsignature (by decide +kernel)
    · exact absurd hsignature (by decide +kernel)
    · exact absurd (by decide +kernel) hrevision
  · exact absurd haccepts (hnone 48 hslot)
  · decide

theorem scan_exact_iff_early :
    scan earlyRsdp 0x9FC00 1024 = .ok 0x9FC30 ∧ Exact earlyRsdp 0x9FC00 1024 0x9FC30 := by
  have hscan : scan earlyRsdp 0x9FC00 1024 = .ok 0x9FC30 := by decide +kernel
  obtain ⟨result, hresult, hiff⟩ :=
    scan_exact_iff earlyRsdp 0x9FC00 1024 (by decide) (by decide) (by decide)
  obtain rfl := Except.ok.inj (hscan.symm.trans hresult)
  exact ⟨hscan, hiff.2 earlyRsdp_findable⟩

/-- An RSDP of revision 0 in the last 32 bytes of the EBDA. -/
def lateRsdp : ByteMemory := fun a =>
  if a < 0x9FFE0 then 0
  else [0x52, 0x53, 0x44, 0x20, 0x50, 0x54, 0x52, 0x20, 0xE1].getD (a - 0x9FFE0) 0

/-- A candidate in front of the end of the EBDA that tells a length of 80. -/
def longRsdp : ByteMemory := fun a =>
  if a < 0x9FFC0 then 0
  else [0x52, 0x53, 0x44, 0x20, 0x50, 0x54, 0x52, 0x20, 0x8F, 0, 0, 0, 0, 0, 0, 2, 0, 0, 0, 0,
    80].getD (a - 0x9FFC0) 0

/-- The first RSDP is complete and is not found.  The second one is returned
although it ends behind the area. -/
theorem scan_not_exact :
    scan lateRsdp 0x9FC00 1024 = .ok 0 ∧ RsdpIn lateRsdp 0x9FC00 1024 0x9FFE0 ∧
      scan longRsdp 0x9FC00 1024 = .ok 0x9FFC0 ∧ ¬RsdpIn longRsdp 0x9FC00 1024 0x9FFC0 ∧
      ⟨0x9FFC0, 0xA0010⟩ ∈ scanReads longRsdp 0x9FC00 1024 := by
  refine ⟨by decide +kernel, rsdpIn_iff.2 (by decide +kernel), by decide +kernel, ?_,
    by decide +kernel⟩
  rw [rsdpIn_iff]
  decide +kernel

/-! ## The tables -/

/-- `s_Rsdp`, `s_Rsdt` and `s_Xsdt`. -/
structure Tables where
  rsdp : Nat := 0
  rsdt : Nat := 0
  xsdt : Nat := 0

/-- The RSDP that `Initialize` takes: a valid hint, or the first one in the EBDA or in the BIOS
area. -/
def locate (m : ByteMemory) (hint : Nat) : Outcome Nat := do
  if hint ≠ 0 ∧ isValidRsdp m hint then return hint
  let rsdp ← scan m (load m 0x40E 2 <<< 4) 1024
  if rsdp ≠ 0 then return rsdp
  scan m 0xE0000 0x20000

/-- The XSDT is used if there is one. -/
def xsdtAddress (m : ByteMemory) (rsdp : Nat) : Nat :=
  if revision m rsdp ≠ 0 ∧ length m rsdp ≥ 36 then load m (rsdp + 24) 8 else 0

/-- `Initialize`, which is called once. -/
def initializeTables (m : ByteMemory) (hint : Nat) : Outcome (Bool × Tables) := do
  let rsdp ← locate m hint
  if rsdp = 0 then return (false, {})
  return (true, ⟨rsdp, load m (rsdp + 16) 4, xsdtAddress m rsdp⟩)

/-- `sizeof(TableHeader)`. -/
def HEADER_SIZE : Nat := 36

/-- The field `Length` of a `TableHeader`. -/
def tableLength (m : ByteMemory) (table : Nat) : Nat := load m (table + 4) 4

/-- `Count`.  The difference has 64 bits and the result 32. -/
def count (m : ByteMemory) (t : Tables) : Nat :=
  if t.xsdt ≠ 0 then sub64 (tableLength m t.xsdt) HEADER_SIZE / 8 % 2 ^ 32
  else if t.rsdt ≠ 0 then sub64 (tableLength m t.rsdt) HEADER_SIZE / 4 % 2 ^ 32
  else 0

/-- The entry that `Get` reads. -/
def entryAt (m : ByteMemory) (t : Tables) (index : Nat) : Nat :=
  if t.xsdt ≠ 0 then load m (t.xsdt + HEADER_SIZE + 8 * index) 8
  else if t.rsdt ≠ 0 then load m (t.rsdt + HEADER_SIZE + 4 * index) 4
  else 0

/-- `Get` with an index. -/
def getAt (m : ByteMemory) (t : Tables) (index : Nat) : Nat :=
  let entry := entryAt m t index
  if index < count m t ∧ entry ≠ 0 ∧ isChecksumValid m entry (tableLength m entry) then entry
  else 0

/-- `Get` with a signature: the first table that has it. -/
def get (m : ByteMemory) (t : Tables) (wanted : Nat) : Nat :=
  let tables := (List.range (count m t)).map (getAt m t)
  (tables.find? fun entry => entry ≠ 0 ∧ load m entry 4 = wanted).getD 0

/-- `Initialize` ends, and what it takes for the RSDP is valid. -/
theorem initializeTables_spec (m : ByteMemory) (hint : Nat) :
    ∃ t, initializeTables m hint = .ok (decide (t.rsdp ≠ 0), t) ∧
      (t.rsdp ≠ 0 → isValidRsdp m t.rsdp = true) := by
  have hscan : ∀ {start size : Nat}, size % 16 = 0 → start + size < 2 ^ 64 → ∃ rsdp,
      scan m start size = .ok rsdp ∧ (rsdp ≠ 0 → isValidRsdp m rsdp = true) := by
    intro start size hsize harea
    obtain ⟨rsdp, hscan, hstops⟩ := scan_spec m hsize (Nat.le_of_lt harea) (by omega)
    refine ⟨rsdp, hscan, fun hne => ?_⟩
    rcases hstops.found with ⟨slot, -, haccepts, -, rfl⟩ | ⟨-, hzero⟩
    · exact haccepts.2
    · exact absurd hzero hne
  have hlocate : ∃ rsdp, locate m hint = .ok rsdp ∧ (rsdp ≠ 0 → isValidRsdp m rsdp = true) := by
    have hebda : load m 0x40E 2 <<< 4 + 1024 < 2 ^ 64 := by
      have hlt := load_lt m 0x40E 2
      rw [Nat.shiftLeft_eq]
      omega
    obtain ⟨low, hlow, hvalid⟩ := hscan (by decide) hebda
    obtain ⟨high, hhigh, hvalid'⟩ := hscan (by decide) (show 0xE0000 + 0x20000 < 2 ^ 64 by decide)
    rw [locate, hlow, hhigh]
    by_cases hhint : hint ≠ 0 ∧ isValidRsdp m hint = true
    · exact ⟨hint, if_pos hhint, fun _ => hhint.2⟩
    · by_cases hne : low ≠ 0
      · exact ⟨low, (if_neg hhint).trans (if_pos hne), hvalid⟩
      · exact ⟨high, (if_neg hhint).trans (if_neg hne), hvalid'⟩
  obtain ⟨rsdp, hlocate, hvalid⟩ := hlocate
  rw [initializeTables, hlocate]
  by_cases hzero : rsdp = 0
  · exact ⟨{}, if_pos hzero, fun hne => absurd rfl hne⟩
  · refine ⟨⟨rsdp, load m (rsdp + 16) 4, xsdtAddress m rsdp⟩, (if_neg hzero).trans ?_, hvalid⟩
    rw [decide_eq_true (show rsdp ≠ 0 from hzero)]
    rfl

/-- A table that `Get` returns is in the list, and it has the signature and a valid sum. -/
theorem get_spec {t : Tables} {wanted : Nat} (hne : get m t wanted ≠ 0) :
    (∃ index < count m t, get m t wanted = entryAt m t index) ∧
      load m (get m t wanted) 4 = wanted ∧
      isChecksumValid m (get m t wanted) (tableLength m (get m t wanted)) = true := by
  obtain ⟨table, hfind⟩ : ∃ table, ((List.range (count m t)).map (getAt m t)).find?
      (fun entry => entry ≠ 0 ∧ load m entry 4 = wanted) = some table := by
    refine Option.ne_none_iff_exists'.1 fun hnone => hne ?_
    rw [get, hnone]
    rfl
  have hget : get m t wanted = table := by
    rw [get, hfind]
    rfl
  have hfound := List.find?_some hfind
  obtain ⟨hnonzero, hwanted⟩ := of_decide_eq_true hfound
  obtain ⟨index, hindex, rfl⟩ := List.mem_map.1 (List.mem_of_find?_eq_some hfind)
  rw [hget]
  unfold getAt at hnonzero hwanted ⊢
  dsimp only at hnonzero hwanted ⊢
  split at hnonzero
  · next hentry =>
    rw [if_pos hentry] at hwanted ⊢
    exact ⟨⟨index, hentry.1, rfl⟩, hwanted, hentry.2.2⟩
  · exact absurd rfl hnonzero

end X64HK.Acpi
