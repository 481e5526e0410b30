import Tntsat.ForStd.Slots
import Tntsat.Native.PvrShm

/-!
# The buffers of the kernel index slots

The buffers that are out are those the occupied slots record, as long as each create
finds a free slot or gets no buffer.  A create that gets a buffer and then no slot
fails without giving the buffer back.

## Key results

- `createShm_accounts`, `destroyShm_accounts`: what each call does to the buffers
- `slots_account`: every order of calls in which no create gets a buffer and no slot
- `fifth_create_leaks`: the create behind four others
-/

namespace Tntsat.PvrShm

/-! ## What the slots record -/

/-- The addresses a buffer is known by. -/
def MmzBuffer.addresses (buf : MmzBuffer) : Nat × Nat := (buf.startPhyAddr, buf.startVirAddr)

/-- The addresses of the buffer in an occupied slot. -/
def IndexInst.addresses (inst : IndexInst) : Option (Nat × Nat) :=
  if inst.pu8KnlVirAddr = 0 then none else some (inst.u32PhyAddr, inst.pu8KnlVirAddr)

/-- The buffers that are out. -/
def out (t : ShmTable) : List (Nat × Nat) := t.live.map MmzBuffer.addresses

/-- The buffers that the occupied slots record. -/
def recorded (t : ShmTable) : List (Nat × Nat) :=
  Slots.held IndexInst.addresses t.pvr_idx_buffer_inst cfgPvrIdxInsCount

/-- The buffers that are out are the recorded ones, one each. -/
def Accounted (t : ShmTable) : Prop := (out t).Perm (recorded t)

instance (t : ShmTable) : Decidable (Accounted t) :=
  inferInstanceAs (Decidable ((out t).Perm (recorded t)))

theorem addresses_newInst (buf : MmzBuffer) (size : Nat) :
    (newInst buf size).addresses = some buf.addresses := by
  apply if_neg buf.mapped

theorem addresses_free {g : IndexInst} (hfree : g.pu8KnlVirAddr = 0) :
    g.addresses = none := by
  apply if_pos hfree

/-- The slot that is found is free. -/
theorem freeSlot_spec {t : ShmTable} {chn_num : Nat} (hf : freeSlot t = some chn_num) :
    chn_num < cfgPvrIdxInsCount ∧ (t.pvr_idx_buffer_inst chn_num).pu8KnlVirAddr = 0 := by
  obtain ⟨hlt, hfree⟩ := Slots.find_spec hf
  exact ⟨hlt, by simpa using hfree⟩

/-- Releasing takes out one buffer with the addresses of the slot. -/
theorem release_addresses (live : List MmzBuffer) (inst : IndexInst) :
    (release live inst).map MmzBuffer.addresses =
      (live.map MmzBuffer.addresses).erase (inst.u32PhyAddr, inst.pu8KnlVirAddr) := by
  induction live with
  | nil => rfl
  | cons buf rest ih =>
    have hsame : (buf.startPhyAddr == inst.u32PhyAddr && buf.startVirAddr == inst.pu8KnlVirAddr) =
        (buf.addresses == (inst.u32PhyAddr, inst.pu8KnlVirAddr)) := rfl
    rw [release, List.eraseP_cons, List.map_cons, List.erase_cons, hsame]
    cases buf.addresses == (inst.u32PhyAddr, inst.pu8KnlVirAddr) with
    | true => rfl
    | false => exact congrArg (buf.addresses :: ·) ih

/-! ## One call -/

/-- The condition on a call: a create gets a slot when it gets a buffer. -/
def FindsSlot (t : ShmTable) : ShmCall → Prop
  | .create size .idx alloc =>
    alloc (size / sizeofDmxRecIndex * sizeofDmxRecIndex) = none ∨ freeSlot t ≠ none
  | _ => True

instance : ∀ (t : ShmTable) (call : ShmCall), Decidable (FindsSlot t call)
  | _, .create _ .idx _ => inferInstanceAs (Decidable (_ ∨ _))
  | _, .create _ .other _ => inferInstanceAs (Decidable True)
  | _, .destroy _ _ => inferInstanceAs (Decidable True)

/-- What a call promises. -/
structure CallOk (t : ShmTable) (call : ShmCall) : Prop where
  accounted : Accounted (shmMachine.step t call).1
  /-- a create that fails changes neither the table nor the buffers -/
  failed : ∀ size type alloc, call = .create size type alloc →
    (shmMachine.step t call).2 = .slot none → (shmMachine.step t call).1 = t
  /-- a create that succeeds returns a slot that was free -/
  created : ∀ size type alloc chn_num, call = .create size type alloc →
    (shmMachine.step t call).2 = .slot (some chn_num) →
      chn_num < cfgPvrIdxInsCount ∧ (t.pvr_idx_buffer_inst chn_num).pu8KnlVirAddr = 0

/-- A create under the condition: it fails and changes nothing, or it puts a buffer
    that it got into a slot that was free. -/
theorem createShm_cases (t : ShmTable) (size : Nat) (type : ShmDataType)
    (alloc : Nat → Option MmzBuffer) (hc : FindsSlot t (.create size type alloc)) :
    createShm t size type alloc = (t, none) ∨
      ∃ buf size' chn_num, chn_num < cfgPvrIdxInsCount ∧
        (t.pvr_idx_buffer_inst chn_num).pu8KnlVirAddr = 0 ∧
        createShm t size type alloc =
          ({ pvr_idx_buffer_inst :=
              Function.update t.pvr_idx_buffer_inst chn_num (newInst buf size')
             live := buf :: t.live }, some chn_num) := by
  cases type with
  | other => exact .inl rfl
  | idx =>
    unfold createShm
    dsimp only
    cases halloc : alloc (size / sizeofDmxRecIndex * sizeofDmxRecIndex) with
    | none => exact .inl rfl
    | some buf =>
      have hslot : freeSlot t ≠ none := by
        apply hc.resolve_left
        rw [halloc]
        exact Option.some_ne_none buf
      obtain ⟨chn_num, hfound⟩ := Option.ne_none_iff_exists'.mp hslot
      obtain ⟨hlt, hfree⟩ := freeSlot_spec hfound
      -- the search does not look at the buffers
      have hfound' : freeSlot { t with live := buf :: t.live } = some chn_num := hfound
      refine .inr ⟨buf, size / sizeofDmxRecIndex * sizeofDmxRecIndex, chn_num, hlt, hfree, ?_⟩
      dsimp only
      rw [hfound']

theorem createShm_accounts {t : ShmTable} (hI : Accounted t) {size : Nat} {type : ShmDataType}
    {alloc : Nat → Option MmzBuffer} (hc : FindsSlot t (.create size type alloc)) :
    Accounted (createShm t size type alloc).1 := by
  rcases createShm_cases t size type alloc hc with heq | ⟨buf, size', chn_num, hlt, hfree, heq⟩
  · rw [heq]
    exact hI
  · rw [heq]
    have hrec := Slots.held_acquire hlt (addresses_free hfree) (addresses_newInst buf size')
    exact (List.Perm.cons buf.addresses hI).trans hrec.symm

theorem destroyShm_accounts {t : ShmTable} (hI : Accounted t) (chn_num : Nat) :
    Accounted (shmClearPvr t chn_num) := by
  unfold shmClearPvr
  split
  · exact hI
  · rename_i hlt
    dsimp only
    split
    · rename_i hne
      -- the slot gives up the buffer that is released
      have hheld : (t.pvr_idx_buffer_inst chn_num).addresses = some
          ((t.pvr_idx_buffer_inst chn_num).u32PhyAddr,
            (t.pvr_idx_buffer_inst chn_num).pu8KnlVirAddr) := by
        apply if_neg hne
      have hrec := Slots.held_release (Nat.lt_of_not_le hlt) hheld
        (addresses_free (g := { t.pvr_idx_buffer_inst chn_num with pu8KnlVirAddr := 0 }) rfl)
      have herase := (List.Perm.trans hI hrec).erase
        ((t.pvr_idx_buffer_inst chn_num).u32PhyAddr,
          (t.pvr_idx_buffer_inst chn_num).pu8KnlVirAddr)
      rw [List.erase_cons_head] at herase
      unfold Accounted
      rw [out, release_addresses]
      exact herase
    · exact hI

/-- One call under the condition. -/
theorem call_accounts (t : ShmTable) (call : ShmCall) (hI : Accounted t) (hc : FindsSlot t call) :
    CallOk t call ∧ Accounted (shmMachine.step t call).1 := by
  cases call with
  | create size type alloc =>
    have hacc := createShm_accounts hI hc
    refine ⟨⟨hacc, ?_, ?_⟩, hacc⟩
    -- a create that returns nothing changes nothing
    · rintro _ _ _ - hnone
      have hret : (createShm t size type alloc).2 = none := ShmRet.slot.inj hnone
      rcases createShm_cases t size type alloc hc with heq | ⟨_, _, _, _, _, heq⟩
      · show (createShm t size type alloc).1 = t
        rw [heq]
      · rw [heq] at hret
        cases hret
    -- one that returns a slot found it free
    · rintro _ _ _ chn_num - hsome
      have hret : (createShm t size type alloc).2 = some chn_num := ShmRet.slot.inj hsome
      rcases createShm_cases t size type alloc hc with heq | ⟨_, _, _, hlt, hfree, heq⟩
      · rw [heq] at hret
        cases hret
      · rw [heq] at hret
        cases hret
        exact ⟨hlt, hfree⟩
  | destroy chn_num type =>
    have hacc : Accounted (destroyShm t chn_num type).1 := by
      cases type with
      | other => exact hI
      | idx => exact destroyShm_accounts hI chn_num
    exact ⟨⟨hacc, nofun, nofun⟩, hacc⟩

/-! ## Runs -/

/-- Every order of calls on an empty table in which each create finds a free slot or
    gets no buffer. -/
theorem slots_account (calls : List ShmCall) (hc : shmMachine.Always FindsSlot {} calls) :
    shmMachine.Always CallOk {} calls :=
  (Machine.always_of_invariant call_accounts (by decide) hc).1

/-- A buffer that begins at an address. -/
def bufferAt (phy : Nat) (hphy : phy ≠ 0) (size : Nat) : MmzBuffer :=
  { startPhyAddr := phy, startVirAddr := phy, size := size, mapped := hphy }

/-- A create that gets a buffer at an address. -/
def createAt (phy : Nat) (hphy : phy ≠ 0) : ShmCall :=
  .create 4096 .idx fun size => some (bufferAt phy hphy size)

/-- Two creates and a destroy, a create without memory, and a slot that is used again. -/
theorem slots_account_reused :
    shmMachine.Always CallOk {}
      [createAt 0x1000 (by decide), createAt 0x2000 (by decide), .destroy 0 .idx,
        .create 48 .idx fun _ => none, createAt 0x3000 (by decide)] :=
  slots_account _ (by decide)

/-- Four creates take the four slots; the fifth fails and keeps a buffer. -/
theorem fifth_create_leaks :
    ¬ shmMachine.Always CallOk {}
      [createAt 0x1000 (by decide), createAt 0x2000 (by decide), createAt 0x3000 (by decide),
        createAt 0x4000 (by decide), createAt 0x5000 (by decide)] := by
  rintro ⟨-, -, -, -, hfifth, -⟩
  exact absurd hfifth.accounted (by decide)

end Tntsat.PvrShm
