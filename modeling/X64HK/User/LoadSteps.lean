import X64HK.User.Task

/-!
# The steps of `Load`

What a call of `Load` did, as a relation.  `Loads` has one constructor for
each thing the loop over the program headers can do with the next one, and
`Ends` one for each way the call can end.  `loads_of_ok` and `ends_of_ok` turn
a call into them, so that a proof about `Load` goes by induction over what
happened and never looks at the functions again.
-/

namespace X64HK.User

/-- The loop over the `n` program headers from `index` on takes the kernel `k`
to `k'`, with the reason why `Load` gives up, if it does. -/
inductive Loads (image : ByteMemory) (size : Nat) :
    Kernel → Nat → Nat → Option LoadError → Kernel → Prop where
  | done (k : Kernel) (index : Nat) : Loads image size k index 0 none k
  | skip {k k' : Kernel} {index n : Nat} {failure : Option LoadError}
      (hskip : isLoaded (Elf.programHeader image index) = false)
      (hrest : Loads image size k (index + 1) n failure k') :
      Loads image size k index (n + 1) failure k'
  | refuse {k : Kernel} {index n : Nat} {reason : LoadError}
      (hloaded : isLoaded (Elf.programHeader image index) = true)
      (hcheck : checkSegment size (Elf.programHeader image index) = some reason) :
      Loads image size k index (n + 1) (some reason) k
  | starve {k k' : Kernel} {index n : Nat}
      (hloaded : isLoaded (Elf.programHeader image index) = true)
      (hcheck : checkSegment size (Elf.programHeader image index) = none)
      (hsegment : loadSegment image (Elf.programHeader image index) k = .ok (false, k')) :
      Loads image size k index (n + 1) (some .outOfMemory) k'
  | load {k k₁ k' : Kernel} {index n : Nat} {failure : Option LoadError}
      (hloaded : isLoaded (Elf.programHeader image index) = true)
      (hcheck : checkSegment size (Elf.programHeader image index) = none)
      (hsegment : loadSegment image (Elf.programHeader image index) k = .ok (true, k₁))
      (hrest : Loads image size k₁ (index + 1) n failure k') :
      Loads image size k index (n + 1) failure k'

variable {image : ByteMemory} {size : Nat}

theorem loads_of_ok :
    ∀ {n index : Nat} {k : Kernel} {failure : Option LoadError} {k' : Kernel},
      loadLoop image size k index n = .ok (failure, k') →
      Loads image size k index n failure k' := by
  intro n
  induction n with
  | zero =>
    intro index k failure k' hcall
    obtain ⟨rfl, rfl⟩ := Prod.mk.inj (Except.ok.inj hcall)
    exact .done k index
  | succ n ih =>
    intro index k failure k' hcall
    rw [loadLoop] at hcall
    cases hloaded : isLoaded (Elf.programHeader image index) with
    | false =>
      simp only [hloaded] at hcall
      exact .skip hloaded (ih hcall)
    | true =>
      simp only [hloaded, Bool.not_true, Bool.false_eq_true, if_false] at hcall
      cases hcheck : checkSegment size (Elf.programHeader image index) with
      | some reason =>
        simp only [hcheck] at hcall
        obtain ⟨rfl, rfl⟩ := Prod.mk.inj (Except.ok.inj hcall)
        exact .refuse hloaded hcheck
      | none =>
        simp only [hcheck] at hcall
        obtain ⟨⟨loaded, k₁⟩, hsegment, hrest⟩ := (bind_ok_iff _ _ _).1 hcall
        cases loaded with
        | true => exact .load hloaded hcheck hsegment (ih hrest)
        | false =>
          obtain ⟨rfl, rfl⟩ := Prod.mk.inj (Except.ok.inj hrest)
          exact .starve hloaded hcheck hsegment

variable {k k' : Kernel}

/-- What every segment keeps, the loop keeps. -/
theorem Loads.invariant {index n : Nat}
    {failure : Option LoadError} {P : Kernel → Prop}
    (hstep : ∀ {k k₁ : Kernel} {index : Nat} {loaded : Bool},
      checkSegment size (Elf.programHeader image index) = none →
      loadSegment image (Elf.programHeader image index) k = .ok (loaded, k₁) → P k → P k₁)
    (hloop : Loads image size k index n failure k') (h : P k) : P k' := by
  induction hloop with
  | done | refuse => exact h
  | skip _ _ ih => exact ih h
  | starve _ hcheck hsegment => exact hstep hcheck hsegment h
  | load _ hcheck hsegment _ ih => exact ih (hstep hcheck hsegment h)

theorem Loads.loadLoop_eq {index n : Nat} {failure : Option LoadError}
    (h : Loads image size k index n failure k') :
    loadLoop image size k index n = .ok (failure, k') := by
  induction h with
  | done => rfl
  | skip hskip _ ih =>
    rw [loadLoop]
    simpa only [hskip, Bool.not_false, if_true] using ih
  | refuse hloaded hcheck =>
    rw [loadLoop]
    simp only [hloaded, hcheck, Bool.not_true, Bool.false_eq_true, if_false]
  | starve hloaded hcheck hsegment =>
    rw [loadLoop]
    simp only [hloaded, hcheck, hsegment, Bool.not_true, Bool.false_eq_true, if_false]
    rfl
  | load hloaded hcheck hsegment _ ih =>
    rw [loadLoop]
    simp only [hloaded, hcheck, hsegment]
    exact ih

/-- The check of `Load` on the entry point. -/
def EntryAccepted (k : Kernel) (entry : Nat) : Prop :=
  inUserHalf entry 1 = true ∧ Paging.isExecutable k.paging (BitVec.ofNat 64 entry) = true

/-- How a call of `Load` ends. -/
inductive Ends (k : Kernel) (name : String) (image : ByteMemory) (size : Nat) :
    Except LoadError Task → Kernel → Prop where
  | unfit (hunfit : isRunnable (Elf.Header.read image) size = false) :
      Ends k name image size (.error .notExecutable) k
  | stopped {reason : LoadError} {k' : Kernel}
      (hrunnable : isRunnable (Elf.Header.read image) size = true)
      (hloop : Loads image size k 0 (Elf.Header.read image).programHeaderCount (some reason) k') :
      Ends k name image size (.error reason) k'
  | noEntry {k' : Kernel} (hrunnable : isRunnable (Elf.Header.read image) size = true)
      (hloop : Loads image size k 0 (Elf.Header.read image).programHeaderCount none k')
      (hentry : ¬EntryAccepted k' (Elf.Header.read image).entry) :
      Ends k name image size (.error .noEntryPoint) k'
  | noStack {k₁ k' : Kernel} (hrunnable : isRunnable (Elf.Header.read image) size = true)
      (hloop : Loads image size k 0 (Elf.Header.read image).programHeaderCount none k₁)
      (hentry : EntryAccepted k₁ (Elf.Header.read image).entry)
      (hstack : allocateStack k₁ = .ok (0, k')) :
      Ends k name image size (.error .noStack) k'
  | started {k₁ k' : Kernel} {top : Nat}
      (hrunnable : isRunnable (Elf.Header.read image) size = true)
      (hloop : Loads image size k 0 (Elf.Header.read image).programHeaderCount none k₁)
      (hentry : EntryAccepted k₁ (Elf.Header.read image).entry)
      (hstack : allocateStack k₁ = .ok (top, k')) (htop : top ≠ 0) :
      Ends k name image size (.ok ⟨name, (Elf.Header.read image).entry, top⟩) k'

variable {result : Except LoadError Task}

theorem ends_of_ok {name : String} (hcall : load k name image size = .ok (result, k')) :
    Ends k name image size result k' := by
  unfold load at hcall
  cases hrunnable : isRunnable (Elf.Header.read image) size with
  | false =>
    simp only [hrunnable] at hcall
    obtain ⟨rfl, rfl⟩ := Prod.mk.inj (Except.ok.inj hcall)
    exact .unfit hrunnable
  | true =>
    simp only [hrunnable, Bool.not_true, Bool.false_eq_true, if_false] at hcall
    obtain ⟨⟨failure, k₁⟩, hloop, hrest⟩ := (bind_ok_iff _ _ _).1 hcall
    cases failure with
    | some reason =>
      obtain ⟨rfl, rfl⟩ := Prod.mk.inj (Except.ok.inj hrest)
      exact .stopped hrunnable (loads_of_ok hloop)
    | none =>
      dsimp only at hrest
      split at hrest
      · rename_i hbad
        obtain ⟨rfl, rfl⟩ := Prod.mk.inj (Except.ok.inj hrest)
        refine .noEntry hrunnable (loads_of_ok hloop) fun hentry => ?_
        rw [hentry.1, hentry.2] at hbad
        exact absurd hbad (by decide)
      · rename_i hgood
        rw [not_or, Bool.not_eq_true, Bool.not_eq_true, Bool.not_eq_false', Bool.not_eq_false']
          at hgood
        obtain ⟨⟨top, k₂⟩, hstack, hret⟩ := (bind_ok_iff _ _ _).1 hrest
        dsimp only at hret
        split at hret
        · rename_i hzero
          obtain ⟨rfl, rfl⟩ := Prod.mk.inj (Except.ok.inj hret)
          exact .noStack hrunnable (loads_of_ok hloop) hgood (hzero ▸ hstack)
        · rename_i hnonzero
          obtain ⟨rfl, rfl⟩ := Prod.mk.inj (Except.ok.inj hret)
          exact .started hrunnable (loads_of_ok hloop) hgood hstack hnonzero

/-- What every segment and the stack keep, `Load` keeps. -/
theorem load_invariant {name : String}
    {P : Kernel → Prop}
    (hstep : ∀ {k k₁ : Kernel} {index : Nat} {loaded : Bool},
      checkSegment size (Elf.programHeader image index) = none →
      loadSegment image (Elf.programHeader image index) k = .ok (loaded, k₁) → P k → P k₁)
    (hstack : ∀ {k k₁ : Kernel} {top : Nat}, allocateStack k = .ok (top, k₁) → P k → P k₁)
    (hcall : load k name image size = .ok (result, k')) (h : P k) : P k' := by
  cases ends_of_ok hcall with
  | unfit => exact h
  | stopped _ hloop => exact hloop.invariant hstep h
  | noEntry _ hloop => exact hloop.invariant hstep h
  | noStack _ hloop _ hcall => exact hstack hcall (hloop.invariant hstep h)
  | started _ hloop _ hcall => exact hstack hcall (hloop.invariant hstep h)

end X64HK.User
