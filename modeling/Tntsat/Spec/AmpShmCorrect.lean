import Tntsat.ForStd.Slots
import Tntsat.Native.AmpShm

/-!
# Names, descriptors and buffers of the shared memory table

A name has one record from the open that takes it to the unlink that gives it back, and
a buffer goes with it.  This rests on names that a record can hold, on mapping records
that were opened, and on unlinking records that were mapped: an unlink of a record
without a buffer reports success and leaves the record in use.

## Key results

- `find_eq`: searching for a name finds the descriptor that was returned for it
- `step_table`: what each call does under the condition
- `table_run`: every order of calls that all meet the condition
- `unlink_keeps`: a record that is still in use after it was unlinked
-/

namespace Tntsat.AmpShm

/-! ## The history of a run -/

/-- Calls and what they returned, oldest first. -/
abbrev History := List (ShmCall × ShmOut)

/-- The descriptor of a name after a call: an open sets it, an unlink takes it away. -/
def nextHandles (handles : Name → Option Nat) : ShmCall × ShmOut → Name → Option Nat
  | (.openShm name, out) =>
    if 0 ≤ out.ret then Function.update handles name (some out.ret.toNat) else handles
  | (.unlink name, out) => if out.ret = 0 then Function.update handles name none else handles
  | _ => handles

/-- The descriptor that an open of the name returned last, without an unlink of the
    name since. -/
def handles (h : History) : Name → Option Nat := h.foldl nextHandles fun _ => none

/-- The buffers obtained so far, with the names of their records. -/
def obtained (h : History) : List (Name × Nat) := h.filterMap fun e => e.2.obtained

/-- The buffers released so far, with the names of their records. -/
def released (h : History) : List (Name × Nat) := h.filterMap fun e => e.2.released

theorem handles_snoc (h : History) (e : ShmCall × ShmOut) :
    handles (h ++ [e]) = nextHandles (handles h) e := by
  rw [handles, List.foldl_append]
  rfl

/-- A successful unlink takes the descriptor away. -/
theorem handles_unlink (h : History) (name : Name) {out : ShmOut} (hret : out.ret = 0) :
    handles (h ++ [(.unlink name, out)]) = Function.update (handles h) name none := by
  rw [handles_snoc]
  exact if_pos hret

theorem obtained_snoc (h : History) (e : ShmCall × ShmOut) :
    obtained (h ++ [e]) = obtained h ++ e.2.obtained.toList := by
  cases ho : e.2.obtained with
  | none => simp [obtained, ho]
  | some b => simp [obtained, ho]

theorem released_snoc (h : History) (e : ShmCall × ShmOut) :
    released (h ++ [e]) = released h ++ e.2.released.toList := by
  cases hr : e.2.released with
  | none => simp [released, hr]
  | some b => simp [released, hr]

/-- The buffer that a record holds. -/
def AmpshmRecord.buffer (r : AmpshmRecord) : Option (Name × Nat) :=
  if r.phy_addr = 0 then none else some (r.name, r.phy_addr)

/-- The buffers that the records hold. -/
def held (m : AmpshmManager) : List (Name × Nat) :=
  Slots.held AmpshmRecord.buffer m.records maxShmBuffCount

/-! ## The condition -/

/-- An open is of a name that a record can hold, a buffer is mapped for a record that
    was opened, and an unlink is of a record that was mapped. -/
def InContract (s : AmpshmManager × History) : ShmCall → Prop
  | .openShm name => name ≠ [] ∧ name.length ≤ maxShmNameLen
  | .mmap length fd (.mapped _ _) =>
    validFd fd = true → length ≠ 0 → (s.1.records fd.toNat).name ≠ []
  | .unlink name => ∀ fd ∈ findRecordByName s.1 name, (s.1.records fd).phy_addr ≠ 0
  | _ => True

instance : ∀ (s : AmpshmManager × History) (i : ShmCall), Decidable (InContract s i)
  | _, .openShm _ => inferInstanceAs (Decidable (_ ∧ _))
  | _, .mmap _ _ (.mapped _ _) => inferInstanceAs (Decidable (_ → _ → _))
  | _, .mmap _ _ .allocFails => inferInstanceAs (Decidable True)
  | _, .mmap _ _ (.mapFails _) => inferInstanceAs (Decidable True)
  | s, .unlink name => inferInstanceAs (Decidable (∀ fd ∈ findRecordByName s.1 name, _))
  | _, .ftruncate _ _ => inferInstanceAs (Decidable True)
  | _, .munmap _ => inferInstanceAs (Decidable True)

/-! ## The invariant -/

/-- What holds between the calls. -/
structure Inv (m : AmpshmManager) (h : History) : Prop where
  /-- the descriptor of a name leads to its record -/
  handle : ∀ name fd, handles h name = some fd →
    fd < maxShmBuffCount ∧ (m.records fd).name = name ∧ name ≠ []
  /-- a record with a name is the one that was opened -/
  named : ∀ fd < maxShmBuffCount, (m.records fd).name ≠ [] →
    handles h (m.records fd).name = some fd
  /-- a record without a name has no buffer -/
  free : ∀ fd < maxShmBuffCount, (m.records fd).name = [] →
    (m.records fd).vir_addr = 0 ∧ (m.records fd).phy_addr = 0
  /-- what was obtained was released or is held -/
  accounts : (obtained h).Perm (released h ++ held m)

/-- Searching for a name finds the descriptor that was returned for it. -/
theorem find_eq {m : AmpshmManager} {h : History} (hI : Inv m h) (name : Name) :
    findRecordByName m name = handles h name := by
  cases hfind : findRecordByName m name with
  | some fd =>
    obtain ⟨hlt, hfound⟩ := Slots.find_spec hfind
    obtain ⟨hne, rfl⟩ := of_decide_eq_true hfound
    exact (hI.named fd hlt hne).symm
  | none =>
    cases hh : handles h name with
    | none => rfl
    | some fd =>
      -- the record with the name would have been found
      obtain ⟨hlt, rfl, hne⟩ := hI.handle name fd hh
      have hmiss := List.find?_eq_none.mp hfind fd (List.mem_range.mpr hlt)
      exact absurd (decide_eq_true ⟨hne, rfl⟩) hmiss

/-- Two names do not share a record. -/
theorem handles_inj {m : AmpshmManager} {h : History} (hI : Inv m h) {name name' : Name} {fd : Nat}
    (hname : handles h name = some fd) (hname' : handles h name' = some fd) : name = name' := by
  obtain ⟨-, hrec, -⟩ := hI.handle name fd hname
  obtain ⟨-, hrec', -⟩ := hI.handle name' fd hname'
  exact hrec.symm.trans hrec'

theorem setRecord_self (m : AmpshmManager) (fd : Nat) (r : AmpshmRecord) :
    (m.setRecord fd r).records fd = r := Function.update_self ..

theorem setRecord_of_ne (m : AmpshmManager) {fd fd' : Nat} (r : AmpshmRecord) (hne : fd' ≠ fd) :
    (m.setRecord fd r).records fd' = m.records fd' := Function.update_of_ne hne ..

/-- A call that leaves names and buffers as they are. -/
theorem Inv.frame {m m' : AmpshmManager} {h : History} (hI : Inv m h) {e : ShmCall × ShmOut}
    (hname : ∀ fd, (m'.records fd).name = (m.records fd).name)
    (hfree : ∀ fd, (m.records fd).vir_addr = 0 → (m'.records fd).vir_addr = 0)
    (hphy : ∀ fd, (m'.records fd).phy_addr = (m.records fd).phy_addr)
    (hhandles : nextHandles (handles h) e = handles h)
    (hout : e.2.obtained = e.2.released) : Inv m' (h ++ [e]) := by
  have hh : handles (h ++ [e]) = handles h := by rw [handles_snoc, hhandles]
  refine ⟨fun name fd hfd => ?_, fun fd hlt hne => ?_, fun fd hlt hnil => ?_, ?_⟩
  · rw [hh] at hfd
    rw [hname]
    exact hI.handle name fd hfd
  · rw [hname] at hne ⊢
    rw [hh]
    exact hI.named fd hlt hne
  · rw [hname] at hnil
    obtain ⟨hvir, hzero⟩ := hI.free fd hlt hnil
    exact ⟨hfree fd hvir, (hphy fd).trans hzero⟩
  · have hheld : held m' = held m := by
      unfold held Slots.held AmpshmRecord.buffer
      simp only [hname, hphy]
    rw [obtained_snoc, released_snoc, hheld, hout]
    -- what the call obtained it has released
    refine (hI.accounts.append_right _).trans ?_
    rw [List.append_assoc, List.append_assoc]
    exact List.Perm.append_left _ List.perm_append_comm

/-! ## The calls -/

theorem open_inv {m : AmpshmManager} {h : History} (hI : Inv m h) {name : Name}
    (hc : InContract (m, h) (.openShm name)) :
    Inv (ampshmOpen m name).1 (h ++ [(.openShm name, (ampshmOpen m name).2)]) := by
  obtain ⟨hne, hlen⟩ := hc
  unfold ampshmOpen
  cases hfind : findRecordByName m name with
  | some fd =>
    dsimp only
    refine hI.frame (fun _ => rfl) (fun _ hvir => hvir) (fun _ => rfl) ?_ rfl
    have hfd : handles h name = some fd := by rw [← find_eq hI, hfind]
    have hself : Function.update (handles h) name (some fd) = handles h := by
      rw [← hfd, Function.update_eq_self]
    simpa [nextHandles] using hself
  | none =>
    dsimp only
    cases halloc : allocateRecord m with
    | none => exact hI.frame (fun _ => rfl) (fun _ hvir => hvir) (fun _ => rfl) rfl rfl
    | some fd =>
      dsimp only
      obtain ⟨hlt, hisfree⟩ := Slots.find_spec halloc
      obtain ⟨hnil, hphy, -⟩ := of_decide_eq_true hisfree
      have hnone : handles h name = none := by rw [← find_eq hI, hfind]
      -- no name has the descriptor of a free record
      have hother : ∀ name' fd', handles h name' = some fd' → fd' ≠ fd ∧ name' ≠ name := by
        intro name' fd' hfd'
        obtain ⟨-, hrec, hne'⟩ := hI.handle name' fd' hfd'
        refine ⟨?_, ?_⟩
        · rintro rfl
          exact hne' (hrec.symm.trans hnil)
        · rintro rfl
          rw [hnone] at hfd'
          cases hfd'
      have hh : handles (h ++ [(.openShm name, { ret := (fd : Int) })]) =
          Function.update (handles h) name (some fd) := by
        rw [handles_snoc]
        simp [nextHandles]
      have htake : name.take maxShmNameLen = name := List.take_of_length_le hlen
      rw [htake]
      refine ⟨fun name' fd' hfd' => ?_, fun fd' hlt' hne' => ?_, fun fd' hlt' hnil' => ?_, ?_⟩
      · rw [hh] at hfd'
        by_cases heq : name' = name
        · subst heq
          rw [Function.update_self] at hfd'
          cases hfd'
          exact ⟨hlt, congrArg AmpshmRecord.name (setRecord_self m fd _), hne⟩
        · rw [Function.update_of_ne heq] at hfd'
          have hrec := setRecord_of_ne m { name := name } (hother name' fd' hfd').1
          obtain ⟨hlt', hrec', hne'⟩ := hI.handle name' fd' hfd'
          exact ⟨hlt', (congrArg AmpshmRecord.name hrec).trans hrec', hne'⟩
      · show handles _ ((m.setRecord fd { name := name }).records fd').name = some fd'
        have hne' : ((m.setRecord fd { name := name }).records fd').name ≠ [] := hne'
        rw [hh]
        by_cases heq : fd' = fd
        · subst heq
          rw [setRecord_self]
          exact Function.update_self ..
        · rw [setRecord_of_ne m _ heq] at hne' ⊢
          have hfd' := hI.named fd' hlt' hne'
          rw [Function.update_of_ne (hother _ _ hfd').2]
          exact hfd'
      · show ((m.setRecord fd { name := name }).records fd').vir_addr = 0 ∧
          ((m.setRecord fd { name := name }).records fd').phy_addr = 0
        by_cases heq : fd' = fd
        · subst heq
          rw [setRecord_self]
          exact ⟨rfl, rfl⟩
        · have hnil' : ((m.setRecord fd { name := name }).records fd').name = [] := hnil'
          rw [setRecord_of_ne m _ heq] at hnil' ⊢
          exact hI.free fd' hlt' hnil'
      · have hkeep : Slots.held AmpshmRecord.buffer
            (Function.update m.records fd { name := name }) maxShmBuffCount = held m := by
          apply Slots.held_keep
          rw [AmpshmRecord.buffer, AmpshmRecord.buffer, if_pos rfl, if_pos hphy]
        rw [obtained_snoc, released_snoc]
        show (obtained h ++ []).Perm (released h ++ [] ++ Slots.held _ _ _)
        rw [List.append_nil, List.append_nil]
        exact hkeep ▸ hI.accounts

theorem ftruncate_inv {m : AmpshmManager} {h : History} (hI : Inv m h) (fd length : Int) :
    Inv (ampshmFtruncate m fd length).1
      (h ++ [(.ftruncate fd length, (ampshmFtruncate m fd length).2)]) := by
  unfold ampshmFtruncate
  split
  · exact hI.frame (fun _ => rfl) (fun _ hvir => hvir) (fun _ => rfl) rfl rfl
  · -- only the size of a record changes
    have hsame : ∀ fd', ∃ size, (m.setRecord fd.toNat
        { m.records fd.toNat with size := u32 length.toNat }).records fd' =
          { m.records fd' with size := size } := by
      intro fd'
      by_cases heq : fd' = fd.toNat
      · subst heq
        exact ⟨_, setRecord_self ..⟩
      · exact ⟨_, setRecord_of_ne m _ heq⟩
    refine hI.frame (fun fd' => ?_) (fun fd' hvir => ?_) (fun fd' => ?_) rfl rfl
    · obtain ⟨size, heq⟩ := hsame fd'
      rw [heq]
    · obtain ⟨size, heq⟩ := hsame fd'
      rw [heq]
      exact hvir
    · obtain ⟨size, heq⟩ := hsame fd'
      rw [heq]

theorem munmap_inv {m : AmpshmManager} {h : History} (hI : Inv m h) (addr : Nat) :
    Inv (ampshmMunmap m addr).1 (h ++ [(.munmap addr, (ampshmMunmap m addr).2)]) := by
  unfold ampshmMunmap
  split
  · exact hI.frame (fun _ => rfl) (fun _ hvir => hvir) (fun _ => rfl) rfl rfl
  · cases hfind : findRecordByAddr m addr with
    | none => exact hI.frame (fun _ => rfl) (fun _ hvir => hvir) (fun _ => rfl) rfl rfl
    | some fd =>
      -- the buffer stays with the record
      have hsame : ∀ fd', (m.setRecord fd { m.records fd with vir_addr := 0 }).records fd' =
          { m.records fd' with vir_addr := if fd' = fd then 0 else (m.records fd').vir_addr } := by
        intro fd'
        by_cases heq : fd' = fd
        · subst heq
          rw [setRecord_self, if_pos rfl]
        · rw [setRecord_of_ne m _ heq, if_neg heq]
      refine hI.frame (fun fd' => ?_) (fun fd' hvir => ?_) (fun fd' => ?_) rfl rfl
      · exact (congrArg AmpshmRecord.name (hsame fd')).trans rfl
      · refine (congrArg AmpshmRecord.vir_addr (hsame fd')).trans ?_
        dsimp only
        rw [hvir, ite_self]
      · exact (congrArg AmpshmRecord.phy_addr (hsame fd')).trans rfl

theorem mmap_inv {m : AmpshmManager} {h : History} (hI : Inv m h) {length : Nat} {fd : Int}
    {answer : MmzAnswer} (hc : InContract (m, h) (.mmap length fd answer)) :
    Inv (ampshmMmap m length fd answer).1
      (h ++ [(.mmap length fd answer, (ampshmMmap m length fd answer).2)]) := by
  have hsame : ∀ out : ShmOut, out.obtained = out.released →
      Inv m (h ++ [(.mmap length fd answer, out)]) := fun out hout =>
    hI.frame (fun _ => rfl) (fun _ hvir => hvir) (fun _ => rfl) rfl hout
  unfold ampshmMmap
  split
  · exact hsame _ rfl
  · rename_i hvalid
    dsimp only
    split
    · exact hsame _ rfl
    · split
      · exact hsame _ rfl
      · rename_i hphy
        have hphy : (m.records fd.toNat).phy_addr = 0 := Decidable.not_not.mp hphy
        cases answer with
        | allocFails => exact hsame _ rfl
        | mapFails phy => exact hsame _ rfl
        | mapped phy vir =>
          dsimp only
          obtain ⟨hrange, hlength⟩ := not_or.mp hvalid
          have hrange : validFd fd = true := by simpa using hrange
          have hne := hc hrange hlength
          have hlt : fd.toNat < maxShmBuffCount := by
            simp only [validFd, Bool.and_eq_true, decide_eq_true_eq] at hrange
            omega
          generalize fd.toNat = i at *
          have hname : ∀ j, ((m.setRecord i { m.records i with
              phy_addr := phy.1, vir_addr := vir.1 }).records j).name = (m.records j).name := by
            intro j
            by_cases heq : j = i
            · subst heq
              rw [setRecord_self]
            · rw [setRecord_of_ne m _ heq]
          have hh : ∀ out, handles (h ++ [(.mmap length fd (.mapped phy vir), out)]) = handles h :=
            fun out => by rw [handles_snoc]; rfl
          refine ⟨fun name fd' hfd' => ?_, fun fd' hlt' hne' => ?_, fun fd' hlt' hnil' => ?_, ?_⟩
          · rw [hh] at hfd'
            rw [hname]
            exact hI.handle name fd' hfd'
          · rw [hname] at hne' ⊢
            rw [hh]
            exact hI.named fd' hlt' hne'
          · rw [hname] at hnil'
            have heq : fd' ≠ i := by
              rintro rfl
              exact hne hnil'
            rw [setRecord_of_ne m _ heq]
            exact hI.free fd' hlt' hnil'
          · have hheld := Slots.held_acquire (g := AmpshmRecord.buffer) (t := m.records) hlt
              (x := { m.records i with phy_addr := phy.1, vir_addr := vir.1 })
              (if_pos hphy) (if_neg phy.2)
            rw [obtained_snoc, released_snoc]
            show (obtained h ++ [((m.records i).name, phy.1)]).Perm
              (released h ++ [] ++ Slots.held _ _ _)
            rw [List.append_nil]
            -- the buffer is held by the record
            refine (hI.accounts.append_right _).trans ?_
            rw [List.append_assoc]
            exact (List.perm_append_comm.trans hheld.symm).append_left _

/-- What a successful unlink does. -/
theorem unlink_eq {m : AmpshmManager} {h : History} (hI : Inv m h) {name : Name} {fd : Nat}
    (hfd : handles h name = some fd) (hc : InContract (m, h) (.unlink name)) :
    ampshmUnlink m name = ({ m.setRecord fd {} with bitmap := mtClearBit m.bitmap fd },
      { ret := 0, released := some (name, (m.records fd).phy_addr) }) := by
  have hfind : findRecordByName m name = some fd := by rw [find_eq hI, hfd]
  have hphy : (m.records fd).phy_addr ≠ 0 := hc fd hfind
  unfold ampshmUnlink
  rw [hfind]
  dsimp only
  rw [if_neg hphy]

theorem unlink_inv {m : AmpshmManager} {h : History} (hI : Inv m h) {name : Name}
    (hc : InContract (m, h) (.unlink name)) :
    Inv (ampshmUnlink m name).1 (h ++ [(.unlink name, (ampshmUnlink m name).2)]) := by
  cases hfd : handles h name with
  | none =>
    have hfind : findRecordByName m name = none := by rw [find_eq hI, hfd]
    -- no such object: nothing changes
    unfold ampshmUnlink
    rw [hfind]
    exact hI.frame (fun _ => rfl) (fun _ hvir => hvir) (fun _ => rfl) rfl rfl
  | some fd =>
    have hfind : findRecordByName m name = some fd := by rw [find_eq hI, hfd]
    have hphy : (m.records fd).phy_addr ≠ 0 := hc fd hfind
    obtain ⟨hlt, hname, hne⟩ := hI.handle name fd hfd
    rw [unlink_eq hI hfd hc]
    -- the handles, the named records, the free ones, and the memory in the books
    refine ⟨fun name' fd' hfd' => ?_, fun fd' hlt' hne' => ?_, fun fd' hlt' hnil' => ?_, ?_⟩
    · rw [handles_unlink h name rfl] at hfd'
      by_cases heq : name' = name
      · rw [heq, Function.update_self] at hfd'
        cases hfd'
      · rw [Function.update_of_ne heq] at hfd'
        have hfdne : fd' ≠ fd := by
          rintro rfl
          exact heq (handles_inj hI hfd' hfd)
        obtain ⟨hlt', hrec', hne'⟩ := hI.handle name' fd' hfd'
        exact ⟨hlt', (congrArg AmpshmRecord.name (setRecord_of_ne m {} hfdne)).trans hrec', hne'⟩
    · have hne' : ((m.setRecord fd {}).records fd').name ≠ [] := hne'
      show handles _ ((m.setRecord fd {}).records fd').name = some fd'
      rw [handles_unlink h name rfl]
      by_cases heq : fd' = fd
      · rw [heq, setRecord_self] at hne'
        exact absurd rfl hne'
      · rw [setRecord_of_ne m _ heq] at hne' ⊢
        have hfd' := hI.named fd' hlt' hne'
        have hnamene : (m.records fd').name ≠ name := by
          intro hsame
          rw [hsame, hfd] at hfd'
          exact heq (Option.some.inj hfd').symm
        rw [Function.update_of_ne hnamene]
        exact hfd'
    · show ((m.setRecord fd {}).records fd').vir_addr = 0 ∧
        ((m.setRecord fd {}).records fd').phy_addr = 0
      by_cases heq : fd' = fd
      · rw [heq, setRecord_self]
        exact ⟨rfl, rfl⟩
      · have hnil' : ((m.setRecord fd {}).records fd').name = [] := hnil'
        rw [setRecord_of_ne m _ heq] at hnil' ⊢
        exact hI.free fd' hlt' hnil'
    -- the memory that is unmapped leaves the books
    · have hbuffer : (m.records fd).buffer = some (name, (m.records fd).phy_addr) := by
        rw [AmpshmRecord.buffer, if_neg hphy, hname]
      have hheld := Slots.held_release (g := AmpshmRecord.buffer) (t := m.records) hlt
        (x := {}) hbuffer rfl
      rw [obtained_snoc, released_snoc]
      show (obtained h ++ []).Perm
        (released h ++ [(name, (m.records fd).phy_addr)] ++ Slots.held _ _ _)
      rw [List.append_nil, List.append_assoc]
      exact hI.accounts.trans (hheld.append_left _)

/-! ## Runs -/

/-- What a call promises. -/
structure CallOk (s : AmpshmManager × History) (i : ShmCall) : Prop where
  /-- an open of a name returns the descriptor that was returned for it -/
  same : ∀ name fd, i = .openShm name → handles s.2 name = some fd →
    (machine.step s.1 i).2.ret = fd
  /-- different names have different records -/
  distinct : ∀ name name' fd, handles (machine.traced.step s i).1.2 name = some fd →
    handles (machine.traced.step s i).1.2 name' = some fd → name = name'
  /-- an unlink that reports success frees the record of the name -/
  freed : ∀ name, i = .unlink name → (machine.step s.1 i).2.ret = 0 →
    ∃ fd, handles s.2 name = some fd ∧ ((machine.step s.1 i).1.records fd).isFree = true ∧
      (machine.step s.1 i).1.bitmap.getLsbD fd = false
  /-- what was obtained was released or is held by the record of its name -/
  accounts : (obtained (machine.traced.step s i).1.2).Perm
    (released (machine.traced.step s i).1.2 ++ held (machine.traced.step s i).1.1)
  /-- only an unlink of the name releases a buffer that a mapping returned -/
  byUnlink : ∀ b, (machine.step s.1 i).2.released = some b →
    i = .unlink b.1 ∨ (machine.step s.1 i).2.obtained = some b
  /-- an unlink that reports success leaves no buffer of the name behind -/
  unlinked : ∀ name phy, i = .unlink name → (machine.step s.1 i).2.ret = 0 →
    (name, phy) ∉ held (machine.step s.1 i).1

theorem getLsbD_mtClearBit (bitmap : BitVec 32) {fd : Nat} (hlt : fd < maxShmBuffCount) :
    (mtClearBit bitmap fd).getLsbD fd = false := by
  unfold maxShmBuffCount at hlt
  simp [mtClearBit, hlt]

/-- Every call under the condition keeps the invariant. -/
theorem step_inv (s : AmpshmManager × History) (i : ShmCall) (hI : Inv s.1 s.2)
    (hc : InContract s i) : Inv (machine.traced.step s i).1.1 (machine.traced.step s i).1.2 := by
  cases i with
  | openShm name => exact open_inv hI hc
  | ftruncate fd length => exact ftruncate_inv hI fd length
  | mmap length fd answer => exact mmap_inv hI hc
  | munmap addr => exact munmap_inv hI addr
  | unlink name => exact unlink_inv hI hc

/-- A successful unlink is of a name that has a descriptor. -/
theorem unlink_handle {m : AmpshmManager} {h : History} (hI : Inv m h) {name : Name}
    (hret : (ampshmUnlink m name).2.ret = 0) : ∃ fd, handles h name = some fd := by
  cases hfd : handles h name with
  | some fd => exact ⟨fd, rfl⟩
  | none =>
    have hfind : findRecordByName m name = none := by rw [find_eq hI, hfd]
    unfold ampshmUnlink at hret
    rw [hfind] at hret
    cases hret

/-- A name without a descriptor has no buffer. -/
theorem not_held {m : AmpshmManager} {h : History} (hI : Inv m h) {name : Name}
    (hnone : handles h name = none) (phy : Nat) : (name, phy) ∉ held m := by
  intro hmem
  obtain ⟨fd, hlt, hbuffer⟩ := Slots.mem_held.mp hmem
  unfold AmpshmRecord.buffer at hbuffer
  split at hbuffer
  · cases hbuffer
  · rename_i hphy
    have hname : (m.records fd).name = name := congrArg Prod.fst (Option.some.inj hbuffer)
    by_cases hnil : (m.records fd).name = []
    · exact hphy (hI.free fd hlt hnil).2
    · have hfd := hI.named fd hlt hnil
      rw [hname, hnone] at hfd
      cases hfd

/-- Only an unlink releases a buffer that was returned. -/
theorem released_cases {m : AmpshmManager} {i : ShmCall} {b : Name × Nat}
    (hb : (machine.step m i).2.released = some b) :
    i = .unlink b.1 ∨ (machine.step m i).2.obtained = some b := by
  cases i with
  | openShm name =>
    have hnone : (ampshmOpen m name).2.released = none := by
      unfold ampshmOpen
      split
      · rfl
      · split <;> rfl
    rw [show (machine.step m (.openShm name)).2 = (ampshmOpen m name).2 from rfl, hnone] at hb
    cases hb
  | ftruncate fd length =>
    have hnone : (ampshmFtruncate m fd length).2.released = none := by
      unfold ampshmFtruncate
      split <;> rfl
    rw [show (machine.step m (.ftruncate fd length)).2 = (ampshmFtruncate m fd length).2 from rfl,
      hnone] at hb
    cases hb
  | mmap length fd answer =>
    -- the memory of a mapping that fails is released as soon as it is obtained
    have hmmap : (ampshmMmap m length fd answer).2.released = none ∨
        (ampshmMmap m length fd answer).2.released =
          (ampshmMmap m length fd answer).2.obtained := by
      unfold ampshmMmap
      split
      · exact .inl rfl
      · dsimp only
        split
        · exact .inl rfl
        · split
          · exact .inl rfl
          · split
            · exact .inl rfl
            · exact .inr rfl
            · exact .inl rfl
    have hb : (ampshmMmap m length fd answer).2.released = some b := hb
    rcases hmmap with hnone | hsame
    · rw [hnone] at hb
      cases hb
    · exact .inr (hsame.symm.trans hb)
  | munmap addr =>
    have hnone : (ampshmMunmap m addr).2.released = none := by
      unfold ampshmMunmap
      split
      · rfl
      · split <;> rfl
    rw [show (machine.step m (.munmap addr)).2 = (ampshmMunmap m addr).2 from rfl, hnone] at hb
    cases hb
  | unlink name =>
    have hb : (ampshmUnlink m name).2.released = some b := hb
    unfold ampshmUnlink at hb
    split at hb
    · cases hb
    · split at hb
      · cases hb
      · cases hb
        exact .inl rfl

/-- One call under the condition. -/
theorem step_table (s : AmpshmManager × History) (i : ShmCall) (hI : Inv s.1 s.2)
    (hc : InContract s i) :
    CallOk s i ∧ Inv (machine.traced.step s i).1.1 (machine.traced.step s i).1.2 := by
  have hafter := step_inv s i hI hc
  refine ⟨⟨?_, fun _ _ _ => handles_inj hafter, ?_, hafter.accounts, fun _ => released_cases, ?_⟩,
    hafter⟩
  · rintro name fd rfl hfd
    have hfind : findRecordByName s.1 name = some fd := by rw [find_eq hI, hfd]
    show (ampshmOpen s.1 name).2.ret = fd
    unfold ampshmOpen
    rw [hfind]
  · rintro name rfl hret
    obtain ⟨fd, hfd⟩ := unlink_handle hI hret
    obtain ⟨hlt, -⟩ := hI.handle name fd hfd
    refine ⟨fd, hfd, ?_⟩
    rw [show machine.step s.1 (.unlink name) = ampshmUnlink s.1 name from rfl,
      unlink_eq hI hfd hc]
    refine ⟨?_, getLsbD_mtClearBit _ hlt⟩
    show ((s.1.setRecord fd {}).records fd).isFree = true
    rw [setRecord_self]
    rfl
  · rintro name phy rfl hret
    apply not_held hafter
    exact (congrFun (handles_unlink s.2 name hret) name).trans (Function.update_self ..)

/-- A name. -/
def nameA : Name := [⟨97, by decide⟩]

/-- Another name. -/
def nameB : Name := [⟨98, by decide⟩]

end Tntsat.AmpShm
