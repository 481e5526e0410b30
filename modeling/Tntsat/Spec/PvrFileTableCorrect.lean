import Tntsat.Native.PvrFileTable

/-!
# The lifetime of shared event indices

An event index is made by the write open of a file and shared by the read opens
of the same file.  `flag_shared` does not count them: the first close clears it,
whoever closes, and the next close frees the index, whoever still refers to it.
A read open that fails frees the index it was about to share.

## Key results

- `step_sound_iff`: a call keeps the table sound exactly when it meets `StepSafe`
- `sound_iff_always`: the same for runs
- `table_fails`: two readers and a writer; a failed read open
-/

namespace Tntsat.PvrFileTable

/-! ## The invariant -/

/-- What holds of every table, sound or not. -/
structure Table (s : State) : Prop where
  /-- a slot outside the table is never open -/
  inTable : ∀ i, (s.files i).bOpened = true → i < pvrFileMaxFile
  /-- a slot in write mode is open and has an event index -/
  writer : ∀ i, isWrite (s.files i).openMode = true →
    (s.files i).bOpened = true ∧ ∃ e, (s.files i).eventidx = some e
  /-- only indices that were made are referred to or freed -/
  made : ∀ i e, (s.files i).bOpened = true → (s.files i).eventidx = some e → e < s.made
  freed : ∀ e ∈ s.freed, e < s.made

theorem table_init : Table {} where
  inTable i h := nomatch h
  writer _ h := absurd h (by simp [isWrite, fopenModeDataWrite])
  made i e h := nomatch h
  freed e h := nomatch h

theorem sound_init : Sound {} :=
  ⟨fun _ _ h => (nomatch h), List.nodup_nil⟩

/-- The only call of `PVR_OPEN64` that goes wrong is a read open that finds the
    file's writer and then fails; a close goes wrong when it frees an index that
    another open slot refers to. -/
def StepSafe (s : State) : Call → Prop
  | .open64 filename mode env =>
    isWrite mode = false → (mode = fopenModeDataRead → env.fileTypeOk = true) →
      env.openOk = false → s.freeSlot = none ∨ s.writer filename = none
  | .close64 pvrFd =>
    (s.files pvrFd).bOpened = true → ∀ e ∈ (s.files pvrFd).eventidx, s.flagShared e = false →
      ∀ j < pvrFileMaxFile, j ≠ pvrFd →
        ¬ ((s.files j).bOpened = true ∧ (s.files j).eventidx = some e)

instance (s : State) : ∀ c, Decidable (StepSafe s c)
  | .open64 _ _ _ => inferInstanceAs (Decidable (_ → _ → _ → _))
  | .close64 _ => inferInstanceAs (Decidable (_ → _))

/-! ## What a call changes -/

/-- The slot `j` is open and refers to `e`. -/
def Refers (s : State) (j e : Nat) : Prop :=
  (s.files j).bOpened = true ∧ (s.files j).eventidx = some e

/-- A call that changes anything stores one slot `k` and frees at most one index.
    Both the new slot and the freed index get their index from this call's
    `malloc` or from a slot that was open. -/
structure Effect (s s' : State) (k : Nat) (f : PvrFile) (fr : Option Nat) : Prop where
  inTable : k < pvrFileMaxFile
  files : s'.files = Function.update s.files k f
  freed : s'.freed = fr.toList ++ s.freed
  made_le : s.made ≤ s'.made
  writer : isWrite f.openMode = true → f.bOpened = true ∧ ∃ e, f.eventidx = some e
  refers : f.bOpened = true → fr = none ∧ ∀ e, f.eventidx = some e →
    (e = s.made ∧ s.made < s'.made) ∨ ∃ j, Refers s j e
  frees : ∀ e, fr = some e → (e = s.made ∧ s.made < s'.made) ∨ ∃ j, Refers s j e

/-- No open slot but `k` refers to the freed index. -/
def LastReference (s : State) (k : Nat) (fr : Option Nat) : Prop :=
  ∀ e, fr = some e → ∀ j, j ≠ k → ¬ Refers s j e

theorem Effect.table {s s' : State} {k : Nat} {f : PvrFile} {fr : Option Nat}
    (h : Effect s s' k f fr) (hT : Table s) : Table s' := by
  obtain ⟨hk, hfiles, hfreed, hmade, hwriter, hrefers, hfrees⟩ := h
  -- an index from this call or from an open slot was made by now
  have hold : ∀ e, ((e = s.made ∧ s.made < s'.made) ∨ ∃ j, Refers s j e) → e < s'.made := by
    rintro e (⟨rfl, hlt⟩ | ⟨j, hj, he⟩)
    · exact hlt
    · exact Nat.lt_of_lt_of_le (hT.made j e hj he) hmade
  have hfile : ∀ i, i ≠ k → s'.files i = s.files i := fun i hi => by
    rw [hfiles, Function.update_of_ne hi]
  have hself : s'.files k = f := by rw [hfiles, Function.update_self]
  refine { inTable := fun i hi => ?_, writer := fun i hi => ?_, made := fun i e hi he => ?_,
           freed := fun e he => ?_ }
  · by_cases hik : i = k
    · rw [hik]; exact hk
    · exact hT.inTable i (hfile i hik ▸ hi)
  · by_cases hik : i = k
    · subst hik; rw [hself] at hi ⊢; exact hwriter hi
    · rw [hfile i hik] at hi ⊢; exact hT.writer i hi
  · by_cases hik : i = k
    · subst hik; rw [hself] at hi he
      exact hold e ((hrefers hi).2 e he)
    · rw [hfile i hik] at hi he
      exact Nat.lt_of_lt_of_le (hT.made i e hi he) hmade
  · rw [hfreed] at he
    rcases List.mem_append.mp he with he | he
    · exact hold e (hfrees e (Option.mem_toList.mp he))
    · exact Nat.lt_of_lt_of_le (hT.freed e he) hmade

/-- A sound table stays sound exactly when the last reference is freed. -/
theorem Effect.sound_iff {s s' : State} {k : Nat} {f : PvrFile} {fr : Option Nat}
    (h : Effect s s' k f fr) (hT : Table s) (hS : Sound s) :
    Sound s' ↔ LastReference s k fr := by
  obtain ⟨hk, hfiles, hfreed, hmade, hwriter, hrefers, hfrees⟩ := h
  -- what an open slot refers to, or this call has made, was not freed before
  have hnot : ∀ e, ((e = s.made ∧ s.made < s'.made) ∨ ∃ j, Refers s j e) → e ∉ s.freed := by
    rintro e (⟨rfl, -⟩ | ⟨j, hj, he⟩) hmem
    · exact Nat.lt_irrefl _ (hT.freed _ hmem)
    · exact hS.1 j e hj he hmem
  constructor
  · intro hS' e hfr j hj ⟨hopen, he⟩
    have hfile : s'.files j = s.files j := by rw [hfiles, Function.update_of_ne hj]
    refine hS'.1 j e (by rw [hfile]; exact hopen) (by rw [hfile]; exact he) ?_
    rw [hfreed, hfr]
    exact List.mem_cons_self
  · intro hlast
    refine ⟨fun i e hi he hmem => ?_, ?_⟩
    · rw [hfreed] at hmem
      by_cases hik : i = k
      · subst hik
        rw [hfiles, Function.update_self] at hi he
        obtain ⟨hnone, hfrom⟩ := hrefers hi
        rw [hnone] at hmem
        exact hnot e (hfrom e he) hmem
      · rw [hfiles, Function.update_of_ne hik] at hi he
        rcases List.mem_append.mp hmem with hmem | hmem
        · exact hlast e (Option.mem_toList.mp hmem) i hik ⟨hi, he⟩
        · exact hS.1 i e hi he hmem
    · rw [hfreed]
      cases hfr : fr with
      | none => exact hS.2
      | some e => exact List.nodup_cons.mpr ⟨hnot e (hfrees e hfr), hS.2⟩

/-! ## Opening -/

theorem freeSlot_some {s : State} {pvrFd : Nat} (h : s.freeSlot = some pvrFd) :
    pvrFd < pvrFileMaxFile ∧ (s.files pvrFd).bOpened = false := by
  unfold State.freeSlot at h
  have hmem := List.mem_of_find?_eq_some h
  have hopen := List.find?_some h
  exact ⟨List.mem_range.mp hmem, by simpa using hopen⟩

theorem writer_some {s : State} {filename : String} {i : Nat} (h : s.writer filename = some i) :
    isWrite (s.files i).openMode = true := by
  unfold State.writer at h
  have hwrite := List.find?_some h
  simp only [Bool.and_eq_true] at hwrite
  exact hwrite.2

/-- Taking a closed slot does not change which slot is the file's writer. -/
theorem writer_setFile {s : State} (hT : Table s) {k : Nat} (hk : (s.files k).bOpened = false)
    (filename : String) : (s.setFile k { bOpened := true }).writer filename = s.writer filename := by
  have hold : isWrite (s.files k).openMode = false := by
    by_contra hw
    have hopen := (hT.writer k (by simpa using hw)).1
    rw [hk] at hopen
    cases hopen
  have hnew : isWrite ({ bOpened := true } : PvrFile).openMode = false := by
    simp [isWrite, fopenModeDataWrite]
  unfold State.writer
  congr 1
  funext i
  by_cases hi : i = k
  · subst hi
    simp only [State.setFile, Function.update_self, hold, hnew, Bool.and_false]
  · simp only [State.setFile, Function.update_of_ne hi]

theorem isWrite_clearAppend (mode : Nat) :
    isWrite (mode &&& (0xffffffff ^^^ oAppend)) = isWrite mode := by
  have hmask : (0xffffffff ^^^ oAppend) &&& fopenModeDataWrite = fopenModeDataWrite := by decide
  simp only [isWrite, Nat.and_assoc, hmask]

/-- The end of an open, on a table that differs from `s` in the slot `k` it has
    taken, which refers to `idx`. -/
private theorem openFile_effect {s t : State} {k : Nat} (idx : Option Nat) (hk : k < pvrFileMaxFile)
    (hfiles : t.files = Function.update s.files k { bOpened := true, eventidx := idx })
    (hfreed : t.freed = s.freed) (hmade : s.made ≤ t.made)
    (hidx : ∀ e, idx = some e → (e = s.made ∧ s.made < t.made) ∨ ∃ j, Refers s j e)
    (filename : String) (mode : Nat) (env : OpenEnv)
    (hmode : isWrite mode = true → ∃ e, idx = some e) :
    ∃ f, Effect s (openFile t k filename mode env).1 k f (if env.openOk then none else idx) := by
  have hself : t.files k = { bOpened := true, eventidx := idx } := by
    rw [hfiles, Function.update_self]
  unfold openFile
  by_cases hok : env.openOk = true
  · simp only [if_pos hok, State.setFile, hself, hfiles, Function.update_idem]
    exact ⟨_, { inTable := hk, files := rfl, freed := hfreed, made_le := hmade
                writer := fun hw => ⟨rfl, hmode (isWrite_clearAppend mode ▸ hw)⟩
                refers := fun _ => ⟨rfl, hidx⟩, frees := fun e he => nomatch he }⟩
  -- a failed open frees the index the slot refers to
  · simp only [if_neg hok]
    have hwriter : isWrite 0 = true → False := by simp [isWrite, fopenModeDataWrite]
    cases hcase : idx with
    | none =>
      simp only [pvrFreeEventidx, hself, hcase, State.setFile, hfiles, Function.update_idem]
      exact ⟨_, { inTable := hk, files := rfl, freed := hfreed, made_le := hmade
                  writer := fun hw => (hwriter hw).elim, refers := fun h => nomatch h
                  frees := fun e he => nomatch he }⟩
    | some e =>
      simp only [pvrFreeEventidx, hself, hcase, State.setFile, hfiles, Function.update_idem,
        Function.update_self]
      exact ⟨_, { inTable := hk, files := rfl, freed := congrArg (e :: ·) hfreed, made_le := hmade
                  writer := fun hw => (hwriter hw).elim, refers := fun h => nomatch h
                  frees := fun e' he' => hidx e' (hcase ▸ he') }⟩

/-- `PVR_OPEN64` changes nothing, or has an effect that frees the last reference
    exactly when the call is safe. -/
theorem pvrOpen64_effect {s : State} (hT : Table s) (filename : String) (mode : Nat)
    (env : OpenEnv) :
    ((pvrOpen64 s filename mode env).1 = s ∧ StepSafe s (.open64 filename mode env)) ∨
    ∃ k f fr, Effect s (pvrOpen64 s filename mode env).1 k f fr ∧
      (StepSafe s (.open64 filename mode env) ↔ LastReference s k fr) := by
  unfold pvrOpen64
  by_cases htype : mode = fopenModeDataRead ∧ env.fileTypeOk = false
  · rw [if_pos htype]
    refine .inl ⟨rfl, fun _ hok _ => ?_⟩
    rw [hok htype.1] at htype
    exact absurd htype.2 (by decide)
  rw [if_neg htype]
  cases hslot : s.freeSlot with
  | none => exact .inl ⟨rfl, fun _ _ _ => .inl hslot⟩
  | some k =>
    obtain ⟨hk, hclosed⟩ := freeSlot_some hslot
    right
    simp only
    by_cases hmode : isWrite mode = true
    · -- a write open refers to an index nobody else knows
      have hsafe : StepSafe s (.open64 filename mode env) := fun hw => by
        rw [hmode] at hw; cases hw
      have hfresh : ∀ fr : Option Nat, (∀ e, fr = some e → e = s.made) →
          (StepSafe s (.open64 filename mode env) ↔ LastReference s k fr) := fun fr hfr =>
        ⟨fun _ e he j _ ⟨hj, hje⟩ => by
          have hlt := hT.made j e hj hje
          rw [hfr e he] at hlt
          exact Nat.lt_irrefl _ hlt, fun _ => hsafe⟩
      rw [if_pos hmode]
      have hfiles : (pvrInitEventidx (s.setFile k { bOpened := true }) k).files =
          Function.update s.files k { bOpened := true, eventidx := some s.made } := by
        simp only [pvrInitEventidx, State.setFile, Function.update_idem, Function.update_self]
      split
      · obtain ⟨f, hf⟩ := openFile_effect (some s.made) hk hfiles rfl (Nat.le_succ _)
          (fun e he => .inl ⟨(Option.some.inj he).symm, Nat.lt_succ_self _⟩) filename mode env
          (fun _ => ⟨_, rfl⟩)
        refine ⟨k, f, _, hf, hfresh _ fun e he => ?_⟩
        split at he
        · cases he
        · exact (Option.some.inj he).symm
      · -- the cells could not be allocated: the slot stays open, with the index
        refine ⟨k, _, none, { inTable := hk, files := hfiles, freed := rfl
                              made_le := Nat.le_succ _, writer := fun hw => ?_
                              refers := fun _ => ⟨rfl, fun e he => ?_⟩
                              frees := fun e he => nomatch he }, hfresh _ fun e he => nomatch he⟩
        · simp [isWrite, fopenModeDataWrite] at hw
        · exact .inl ⟨(Option.some.inj he).symm, Nat.lt_succ_self _⟩
    · rw [if_neg hmode, writer_setFile hT hclosed]
      have hmode' : isWrite mode = false := by simpa using hmode
      have htype' : mode = fopenModeDataRead → env.fileTypeOk = true := fun hm => by
        simpa using fun hf => htype ⟨hm, hf⟩
      cases hwriter : s.writer filename with
      | none =>
        obtain ⟨f, hf⟩ := openFile_effect (s := s) (t := s.setFile k { bOpened := true }) none hk
          rfl rfl (Nat.le_refl _) (fun e he => nomatch he) filename mode env
          (fun hw => absurd hw hmode)
        refine ⟨k, f, _, hf, fun _ e he => ?_, fun _ _ _ _ => .inr hwriter⟩
        split at he <;> cases he
      | some i =>
        obtain ⟨hopen, e, he⟩ := hT.writer i (writer_some hwriter)
        have hik : i ≠ k := by
          rintro rfl
          rw [hclosed] at hopen
          cases hopen
        have hidx : ((s.setFile k { bOpened := true }).files i).eventidx = some e := by
          simp only [State.setFile, Function.update_of_ne hik, he]
        have hshare : (shareEventidx (s.setFile k { bOpened := true }) k i).files =
              Function.update s.files k { bOpened := true, eventidx := some e } ∧
            (shareEventidx (s.setFile k { bOpened := true }) k i).freed = s.freed ∧
            (shareEventidx (s.setFile k { bOpened := true }) k i).made = s.made := by
          unfold shareEventidx
          rw [hidx]
          simp only [State.setFile, Function.update_idem, Function.update_self, and_self]
        obtain ⟨f, hf⟩ := openFile_effect (some e) hk hshare.1 hshare.2.1
          (Nat.le_of_eq hshare.2.2.symm)
          (fun e' he' => .inr ⟨i, hopen, (Option.some.inj he') ▸ he⟩) filename mode env
          (fun _ => ⟨_, rfl⟩)
        refine ⟨k, f, _, hf, fun hsafe e' he' => ?_, fun hlast _ _ hfail => ?_⟩
        · -- a safe open that found the writer has not failed
          split at he'
          · cases he'
          · rename_i hfail
            rcases hsafe hmode' htype' (by simpa using hfail) with hnone | hnone
            · rw [hslot] at hnone; cases hnone
            · rw [hwriter] at hnone; cases hnone
        · exact absurd ⟨hopen, he⟩ (hlast e (by rw [if_neg (by simp [hfail])]) i hik)

/-! ## Closing -/

/-- `PVR_CLOSE64` changes nothing, or has an effect that frees the last reference
    exactly when the call is safe. -/
theorem pvrClose64_effect {s : State} (hT : Table s) (k : Nat) :
    ((pvrClose64 s k).1 = s ∧ StepSafe s (.close64 k)) ∨
    ∃ f fr, Effect s (pvrClose64 s k).1 k f fr ∧
      (StepSafe s (.close64 k) ↔ LastReference s k fr) := by
  unfold pvrClose64
  have hwriter : isWrite 0 = true → False := by simp [isWrite, fopenModeDataWrite]
  by_cases hopen : k < pvrFileMaxFile ∧ (s.files k).bOpened = true
  · rw [if_pos hopen]
    right
    simp only
    cases hidx : (s.files k).eventidx with
    | none =>
      simp only [State.setFile, Function.update_idem, Function.update_self]
      refine ⟨_, none, { inTable := hopen.1, files := rfl, freed := rfl, made_le := Nat.le_refl _
                         writer := fun hw => (hwriter hw).elim, refers := fun h => nomatch h
                         frees := fun e he => nomatch he }, fun _ e he => (nomatch he), ?_⟩
      intro _ _ e he
      rw [hidx] at he
      cases he
    | some e =>
      have hrefers : Refers s k e := ⟨hopen.2, hidx⟩
      simp only
      by_cases hflag : s.flagShared e = true
      · -- somebody shared the index since the last close: it is kept
        simp only [State.setFile, hflag, if_true, Function.update_idem, Function.update_self]
        refine ⟨_, none, { inTable := hopen.1, files := rfl, freed := rfl, made_le := Nat.le_refl _
                           writer := fun hw => (hwriter hw).elim, refers := fun h => nomatch h
                           frees := fun e he => nomatch he }, fun _ e he => (nomatch he), ?_⟩
        intro _ _ e' he' hnot
        obtain rfl := Option.some.inj (hidx ▸ he')
        rw [hflag] at hnot
        cases hnot
      · simp only [State.setFile, hflag, Bool.false_eq_true, if_false, pvrFreeEventidx,
          Function.update_idem, Function.update_self]
        refine ⟨_, some e, { inTable := hopen.1, files := rfl, freed := rfl
                             made_le := Nat.le_refl _, writer := fun hw => (hwriter hw).elim
                             refers := fun h => (nomatch h), frees := fun e' he' => ?_ },
          fun hsafe e' he' j hj hje => ?_, fun hlast _ e' he' _ j _ hj => ?_⟩
        · exact .inr ⟨k, Option.some.inj he' ▸ hrefers⟩
        · obtain rfl := Option.some.inj he'
          exact hsafe hopen.2 e hidx (by simpa using hflag) j (hT.inTable j hje.1) hj hje
        · obtain rfl := Option.some.inj (hidx ▸ he')
          exact hlast e rfl j hj
  · rw [if_neg hopen]
    refine .inl ⟨rfl, fun hk => ?_⟩
    exact absurd ⟨hT.inTable k hk, hk⟩ hopen

/-! ## Runs -/

/-- One call on a sound table: it stays a table, and sound exactly when the call
    is safe. -/
theorem step_sound_iff {s : State} (hT : Table s) (hS : Sound s) (c : Call) :
    Table (machine.step s c).1 ∧ (Sound (machine.step s c).1 ↔ StepSafe s c) := by
  cases c with
  | open64 filename mode env =>
    rcases pvrOpen64_effect hT filename mode env with ⟨hsame, hsafe⟩ | ⟨k, f, fr, heff, hiff⟩
    · simp only [machine, hsame]
      exact ⟨hT, fun _ => hsafe, fun _ => hS⟩
    · exact ⟨heff.table hT, (heff.sound_iff hT hS).trans hiff.symm⟩
  | close64 k =>
    rcases pvrClose64_effect hT k with ⟨hsame, hsafe⟩ | ⟨f, fr, heff, hiff⟩
    · simp only [machine, hsame]
      exact ⟨hT, fun _ => hsafe, fun _ => hS⟩
    · exact ⟨heff.table hT, (heff.sound_iff hT hS).trans hiff.symm⟩

/-- A run passes through sound tables only, exactly when all its calls are safe. -/
theorem sound_iff_always (calls : List Call) :
    (∀ n, Sound (machine.final {} (calls.take n))) ↔ machine.Always StepSafe {} calls := by
  have hrun : ∀ (calls : List Call) (s : State), Table s → Sound s →
      ((∀ n, Sound (machine.final s (calls.take n))) ↔ machine.Always StepSafe s calls) := by
    intro calls
    induction calls with
    | nil => intro s _ hS; simp [hS]
    | cons c calls ih =>
      intro s hT hS
      obtain ⟨hT', hiff⟩ := step_sound_iff hT hS c
      rw [Machine.always_cons]
      constructor
      · intro hall
        have hS' : Sound (machine.step s c).1 := hall 1
        exact ⟨hiff.mp hS', (ih _ hT' hS').mp fun n => hall (n + 1)⟩
      · rintro ⟨hsafe, halways⟩ n
        have hS' := hiff.mpr hsafe
        cases n with
        | zero => exact hS
        | succ n => exact (ih _ hT' hS').mpr halways n
  exact hrun calls {} table_init sound_init

/-- A writer and two readers of one file. -/
def threeHandles : List Call :=
  [.open64 "a.ts" fopenModeDataWrite {}, .open64 "a.ts" fopenModeDataRead {},
    .open64 "a.ts" fopenModeDataRead {}]

/-- Two closed readers leave the writer with a freed index, and so does one read
    open that fails. -/
theorem table_fails :
    ¬ Sound (machine.final {} (threeHandles ++ [.close64 1, .close64 2])) ∧
      ¬ Sound (machine.final {} [.open64 "a.ts" fopenModeDataWrite {},
        .open64 "a.ts" fopenModeDataRead { openOk := false }]) := by
  constructor
  · rintro ⟨hopen, -⟩
    exact hopen 0 0 (by decide +kernel) (by decide +kernel) (by decide +kernel)
  · rintro ⟨hopen, -⟩
    exact hopen 0 0 (by decide +kernel) (by decide +kernel) (by decide +kernel)

end Tntsat.PvrFileTable
