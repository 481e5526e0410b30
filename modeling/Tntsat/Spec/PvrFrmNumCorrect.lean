import Tntsat.Spec.PvrFrmNumSearch
import Tntsat.Spec.PvrIndexCorrect

/-!
# Finding the frame of an entry

Calls that save frames at growing positions leave the ring in order, except where a cycle
ends after less than 26 frames: the next one starts at frame 25 all the same, and nothing is
stored there.

## Key results

- `LookupInv.step`: one call that succeeds
- `lookup_correct`: the lookup after every run of such calls
- `lookup_fails`: a cycle of two frames
-/

namespace Tntsat.PvrIndex

open PvrIdxCache (sizeofEntry)

/-! ## The file of entries -/

/-- The position in the stream of frame `p`. -/
def IdxFile.posOf (file : IdxFile) (p : Nat) : Option Nat :=
  (file (p * sizeofEntry)).map (·.u64GlobalOffset)

/-- Nothing is known of the entries but their positions in the stream. -/
def SamePos (file file' : IdxFile) : Prop :=
  ∀ a, (file' a).map (·.u64GlobalOffset) = (file a).map (·.u64GlobalOffset)

section File

variable {file file' : IdxFile}

theorem readsAt_posOf {p : Nat} (h : p * sizeofEntry < 4294967296) :
    ReadsAt file.read file.posOf p := by
  unfold ReadsAt IdxFile.read IdxFile.posOf
  rw [u32_of_lt h]
  cases file (p * sizeofEntry) with
  | none => rfl
  | some e => exact ⟨e, rfl, rfl⟩

theorem SamePos.posOf (h : SamePos file file') : file'.posOf = file.posOf :=
  funext fun p => h (p * sizeofEntry)

theorem SamePos.trans {file'' : IdxFile} (h : SamePos file file') (h' : SamePos file' file'') :
    SamePos file file'' := fun a => (h' a).trans (h a)

theorem write_self (file : IdxFile) (num : Nat) (e : IndexEntry) :
    file.write num e (u32 (num * sizeofEntry)) = some e := Function.update_self ..

theorem write_of_ne (file : IdxFile) {num a : Nat} (e : IndexEntry)
    (h : a ≠ u32 (num * sizeofEntry)) : file.write num e a = file a := Function.update_of_ne h ..

/-- A write stores the position of its entry. -/
theorem posOf_write {num : Nat} (h : num * sizeofEntry < 4294967296) (e : IndexEntry) :
    (file.write num e).posOf = Function.update file.posOf num (some e.u64GlobalOffset) := by
  funext p
  by_cases hp : p = num
  · have hself := write_self file num e
    rw [u32_of_lt h] at hself
    rw [hp, Function.update_self, IdxFile.posOf, hself]
    rfl
  · have hne : p * sizeofEntry ≠ u32 (num * sizeofEntry) := by
      rw [u32_of_lt h]
      exact fun heq => hp (Nat.eq_of_mul_eq_mul_right (by decide) heq)
    rw [Function.update_of_ne hp, IdxFile.posOf, write_of_ne file e hne, IdxFile.posOf]

/-- An entry is written back with the position it had. -/
theorem SamePos.write {num : Nat} {e e' : IndexEntry} (h : file (u32 (num * sizeofEntry)) = some e)
    (he : e'.u64GlobalOffset = e.u64GlobalOffset) : SamePos file (file.write num e') := by
  intro a
  by_cases ha : a = u32 (num * sizeofEntry)
  · rw [ha, write_self, h]
    exact congrArg some he
  · rw [write_of_ne file e' ha]

theorem writeIndexFunc_eq (file : IdxFile) (e : IndexEntry) (num : Nat) :
    entryFile.writeIndexFunc file e num = file.write num e := rfl

/-- Reading leaves the file as it is. -/
theorem getEntryByNum_file (file : IdxFile) (e : IndexEntry) (num : Nat) :
    (entryFile.getEntryByNum file e num).1 = file := by
  simp only [entryFile]
  split <;> rfl

/-- Reading a frame that is stored. -/
theorem getEntryByNum_stored {num : Nat} (e : IndexEntry) {e' : IndexEntry}
    (h : file (u32 (num * sizeofEntry)) = some e') :
    entryFile.getEntryByNum file e num = (file, e', true) := by
  simp only [entryFile, IdxFile.read, h]

/-- The loop that corrects entries after a cut changes no position while it stays among the
    frames of the cycle. -/
theorem correctEntries_samePos {maxCycSize fuel num : Nat} {e : IndexEntry}
    (hfuel : fuel ≤ num + 1) (hnum : num * sizeofEntry < 4294967296)
    (hstored : ∀ p, p ≤ num → ∃ x, file.posOf p = some x)
    (he : file (u32 (num * sizeofEntry)) = some e)
    (h : correctEntries entryFile maxCycSize fuel file e num = some file') :
    SamePos file file' := by
  induction fuel generalizing file e num with
  | zero =>
    unfold correctEntries at h
    split at h
    · cases h
    · obtain rfl := Option.some.inj h
      exact fun _ => rfl
  | succ fuel ih =>
    unfold correctEntries at h
    split at h
    -- the correction lowers an offset and keeps the position
    · have hwrite : SamePos file
          (file.write num { e with u64Offset := e.u64Offset - maxCycSize }) := .write he rfl
      dsimp only at h
      rw [writeIndexFunc_eq, getEntryByNum_file] at h
      generalize file.write num { e with u64Offset := e.u64Offset - maxCycSize } = file₁ at h hwrite
      cases fuel with
      | zero =>
        unfold correctEntries at h
        split at h
        · cases h
        · obtain rfl := Option.some.inj h
          exact hwrite
      | succ fuel =>
        -- the next one back is stored too, and read before its own correction
        rw [u32sub_one (by omega) (by unfold sizeofEntry at hnum; omega)] at h
        have hnum' : (num - 1) * sizeofEntry < 4294967296 := by unfold sizeofEntry at hnum ⊢; omega
        obtain ⟨x, hx⟩ := hstored (num - 1) (by omega)
        rw [← hwrite.posOf] at hx hstored
        obtain ⟨e', he', -⟩ := Option.map_eq_some_iff.mp hx
        rw [← u32_of_lt hnum'] at he'
        rw [getEntryByNum_stored _ he'] at h
        exact hwrite.trans (ih (by omega) hnum' (fun p hp => hstored p (by omega)) he' h)
    · obtain rfl := Option.some.inj h
      exact fun _ => rfl

/-- Finding the place of a frame changes no position; a call that starts a cycle does not
    correct more entries than the cycle has. -/
theorem place_samePos {s s₁ : Index IdxFile} {i : SaveCall} {offset : Nat} {rewinds : Bool}
    (hstored : ∀ p, p < s.stCycMgr.u32EndFrame → ∃ x, s.store.posOf p = some x)
    (hfits : s.stCycMgr.u32EndFrame * sizeofEntry < 4294967296)
    (hfuel : rewinds = true → 0 < s.stCycMgr.u32EndFrame ∧ i.env.fuel ≤ s.stCycMgr.u32EndFrame)
    (h : i.place entryFile s = some (s₁, offset, rewinds)) : SamePos s.store s₁.store := by
  have hprep : (i.prepared entryFile s).store = s.store := rfl
  have hend : (i.prepared entryFile s).stCycMgr.u32EndFrame = s.stCycMgr.u32EndFrame := rfl
  unfold SaveCall.place placeFrame at h
  generalize i.prepared entryFile s = t at h hprep hend
  split at h
  · split at h
    · unfold placeByTime at h
      dsimp only at h
      split at h
      · split at h
        · -- the entries behind the cut are corrected
          split at h
          · exact nomatch h
          · rename_i store hstore
            obtain ⟨rfl, hrest⟩ := Prod.mk.inj (Option.some.inj h)
            obtain ⟨hE, hle⟩ := hfuel (Prod.mk.inj hrest).2.symm
            have hnum : u32sub t.stCycMgr.u32EndFrame 1 = s.stCycMgr.u32EndFrame - 1 := by
              rw [hend]
              exact u32sub_one hE (by unfold sizeofEntry at hfits; omega)
            have hflush : entryFile.flushIdxWriteCache t.store = s.store := hprep
            have hfits' : (s.stCycMgr.u32EndFrame - 1) * sizeofEntry < 4294967296 := by
              unfold sizeofEntry at hfits ⊢
              omega
            obtain ⟨x, hx⟩ := hstored (s.stCycMgr.u32EndFrame - 1) (by omega)
            obtain ⟨e, he, -⟩ := Option.map_eq_some_iff.mp hx
            rw [← u32_of_lt hfits'] at he
            rw [hnum, hflush, getEntryByNum_stored _ he] at hstore
            exact correctEntries_samePos (by omega) hfits' (fun p hp => hstored p (by omega)) he
              hstore
        · obtain ⟨rfl, -⟩ := Prod.mk.inj (Option.some.inj h)
          exact fun _ => by rw [hprep]
      · obtain ⟨rfl, -⟩ := Prod.mk.inj (Option.some.inj h)
        exact fun _ => by rw [← hprep]
    · have hs : (placeBySize t i.frame).1 = s₁ := by rw [Option.some.inj h]
      rw [← hs, placeBySize, apply_ite Prod.fst, ite_self, hprep]
      exact fun _ => rfl
  · have hs : (placeStraight t i.frame).1 = s₁ := by rw [Option.some.inj h]
    rw [← hs]
    exact fun _ => by rw [← hprep]; rfl

theorem advanceStart_file (offset left : Nat) (file : IdxFile) (e : IndexEntry) (start : Nat) :
    (advanceStart entryFile offset left file e start).1 = file := by
  induction left generalizing e start with
  | zero =>
    unfold advanceStart
    split <;> rfl
  | succ left ih =>
    unfold advanceStart
    dsimp only
    rw [getEntryByNum_file]
    split
    · split
      · exact ih _ _
      · rfl
    · rfl

theorem adjustStartFrame_file (s : Index IdxFile) (e : IndexEntry) :
    (adjustStartFrame entryFile s e).store = s.store := by
  unfold adjustStartFrame
  dsimp only
  split
  · split
    · rfl
    · split
      · exact (advanceStart_file _ _ _ _ _).trans (getEntryByNum_file _ _ _)
      · exact getEntryByNum_file _ _ _
  · rfl

theorem recordCycInfo_file (s : Index IdxFile) (headerOk : Bool) (now : Nat) (force : Bool) :
    (recordCycInfo entryFile s headerOk now force).store = s.store := by
  unfold recordCycInfo
  dsimp only
  split
  · generalize (if s.u32FflushTime = 0 then now else s.u32FflushTime) = t
    split <;> rfl
  · rfl

/-- The end of a call leaves the file as it is. -/
theorem finishFrame_file (s : Index IdxFile) (e : IndexEntry) (env : SaveEnv) (record : Bool) :
    (finishFrame entryFile s e env record).store = s.store := by
  unfold finishFrame
  dsimp only
  split
  · exact (recordCycInfo_file _ _ _ _).trans (adjustStartFrame_file s e)
  · exact adjustStartFrame_file s e

/-- The start frame only moves in a wrapped ring. -/
theorem finishFrame_start {s : Index IdxFile} (e : IndexEntry) (env : SaveEnv) (record : Bool)
    (h : s.stCycMgr.u32StartFrame ≤ s.stCycMgr.u32EndFrame) :
    (finishFrame entryFile s e env record).stCycMgr.u32StartFrame = s.stCycMgr.u32StartFrame := by
  have hadjust : adjustStartFrame entryFile s e = s := by
    unfold adjustStartFrame
    dsimp only
    rw [if_neg (by omega)]
  unfold finishFrame
  dsimp only
  rw [hadjust]
  cases record with
  | false => rfl
  | true =>
    obtain ⟨store, header, t, hrec⟩ := recordCycInfo_eq entryFile s env.headerOk env.now.toNat false
    simp only [if_true, hrec]

end File

/-! ## A call that succeeds -/

/-- The state of an index that was filled by calls that succeeded. -/
structure LookupInv (s : Index IdxFile) : Prop where
  ordered : Ordered s.store.posOf s.stCycMgr.u32StartFrame s.stCycMgr.u32EndFrame
    s.stCycMgr.u32LastFrame
  write : s.u32WriteFrame = s.stCycMgr.u32EndFrame
  fits : s.stCycMgr.u32LastFrame * sizeofEntry < 4294967296
  straight : s.stCycMgr.bIsRewind = false → s.stCycMgr.u32LastFrame = s.stCycMgr.u32EndFrame

/-- Every entry lies before this position in the stream. -/
def Before (file : IdxFile) (pos : Nat) : Prop :=
  ∀ a e, file a = some e → e.u64GlobalOffset < pos

/-- The calls that keep the ring in order: one that starts a cycle ends one of at least 26
    frames, and corrects no more entries than this cycle has; in a recording that does not
    loop, the start frame that the event file hands out is one that was stored; and the
    entries end below 4 GiB. -/
def Findable (s : Index IdxFile) (i : SaveCall) : Prop :=
  accepts s i.frame = true →
    (startsCycle (i.prepared entryFile s) i.frame = true →
      26 ≤ s.stCycMgr.u32EndFrame ∧ i.env.fuel ≤ s.stCycMgr.u32EndFrame) ∧
    (s.stCycMgr.bIsRewind = false → i.env.startFrame.toNat ≤ s.stCycMgr.u32EndFrame) ∧
    (s.stCycMgr.u32EndFrame + 1) * sizeofEntry < 4294967296

instance (s : Index IdxFile) (i : SaveCall) : Decidable (Findable s i) :=
  inferInstanceAs (Decidable (_ → _ ∧ _ ∧ _))

/-- The end of a call keeps the ring in order. -/
theorem LookupInv.finish {s : Index IdxFile} (h : LookupInv s) (e : IndexEntry) (env : SaveEnv)
    (record : Bool) : LookupInv (finishFrame entryFile s e env record) := by
  have hfile := finishFrame_file s e env record
  have hkeep := finishFrame_start (s := s) e env record
  obtain ⟨store, start, count, header, t, heq, hle, hlast⟩ :=
    finishFrame_eq entryFile s e env record
  rw [heq] at hfile hkeep ⊢
  dsimp only at hfile hkeep
  obtain ⟨hempty, hnew, hstale, hold, hEL, hstart⟩ := h.ordered
  rw [← hfile] at hempty hnew hstale hold
  refine ⟨⟨hempty, hnew, hstale, hold, hEL, ?_⟩, h.write, h.fits, h.straight⟩
  dsimp only
  by_cases hSE : s.stCycMgr.u32StartFrame ≤ s.stCycMgr.u32EndFrame
  · rw [hkeep hSE]
    exact hstart
  · omega

/-- The ring moves once the entry of a call was written. -/
theorem lookupInv_advance {s : Index IdxFile} {o : Nat → Option Nat} {pos : Nat} {env : SaveEnv}
    {rewinds : Bool}
    (h : Ordered o s.stCycMgr.u32StartFrame s.stCycMgr.u32EndFrame s.stCycMgr.u32LastFrame)
    (hstraight : s.stCycMgr.bIsRewind = false → s.stCycMgr.u32LastFrame = s.stCycMgr.u32EndFrame)
    (hwrite : s.u32WriteFrame = if rewinds then 0 else s.stCycMgr.u32EndFrame)
    (hnew : ∀ p x, o p = some x → x < pos)
    (hstore : s.store.posOf = Function.update o s.u32WriteFrame (some pos))
    (hrewinds : rewinds = true → s.stCycMgr.bIsRewind = true ∧ 26 ≤ s.stCycMgr.u32EndFrame)
    (hstart : s.stCycMgr.bIsRewind = false → env.startFrame.toNat ≤ s.stCycMgr.u32EndFrame)
    (hfits : (s.stCycMgr.u32EndFrame + 1) * sizeofEntry < 4294967296)
    (hfits' : s.stCycMgr.u32LastFrame * sizeofEntry < 4294967296) :
    LookupInv (advance s env rewinds) := by
  have hEL := h.le
  have hS := h.start
  cases hrew : s.stCycMgr.bIsRewind with
  | false =>
    -- no rewinding: the new entry is the last, and the file grows
    have hno : rewinds = false := by
      cases rewinds with
      | false => rfl
      | true => exact nomatch hrew.symm.trans (hrewinds rfl).1
    subst hno
    have hL := hstraight hrew
    have hle := hstart hrew
    have hS' : (if env.startFrame.toNat > 0 then env.startFrame.toNat
        else s.stCycMgr.u32StartFrame) < s.stCycMgr.u32EndFrame + 1 := by
      split <;> omega
    have hpush := h.push hnew (.inl hS')
    rw [if_pos (show s.stCycMgr.u32LastFrame < s.stCycMgr.u32EndFrame + 1 by omega)] at hpush
    rw [if_neg (by decide)] at hwrite
    rw [advance_straight hrew]
    refine ⟨?_, ?_, ?_, fun _ => ?_⟩
    · show Ordered s.store.posOf _ (s.stCycMgr.u32EndFrame + 1) (s.stCycMgr.u32LastFrame + 1)
      rw [hstore, hwrite, hL]
      exact hpush
    · show s.u32WriteFrame + 1 = s.stCycMgr.u32EndFrame + 1
      rw [hwrite]
    · show (s.stCycMgr.u32LastFrame + 1) * sizeofEntry < 4294967296
      rw [hL]
      exact hfits
    · show s.stCycMgr.u32LastFrame + 1 = s.stCycMgr.u32EndFrame + 1
      rw [hL]
  | true =>
    cases rewinds with
    | false =>
      -- rewinding, within a cycle: the new entry overwrites the oldest ones
      rw [advance_move hrew]
      rw [if_neg (by decide)] at hwrite
      have hlast : (if s.stCycMgr.u32LastFrame < s.stCycMgr.u32EndFrame + 1
          then s.stCycMgr.u32LastFrame + 1 else s.stCycMgr.u32LastFrame) =
          if s.stCycMgr.u32LastFrame < s.stCycMgr.u32EndFrame + 1
          then s.stCycMgr.u32EndFrame + 1 else s.stCycMgr.u32LastFrame := by
        split <;> omega
      refine ⟨?_, ?_, ?_, fun hno => (nomatch hrew.symm.trans hno)⟩
      · unfold moveOn
        dsimp only
        rw [hlast, hstore, hwrite]
        refine h.push hnew ?_
        split <;> split <;> omega
      · show s.u32WriteFrame + 1 = s.stCycMgr.u32EndFrame + 1
        rw [hwrite]
      · unfold moveOn
        dsimp only
        rw [hlast]
        split
        · exact hfits
        · exact hfits'
    | true =>
      have hE := (hrewinds rfl).2
      -- a new cycle: the new entry is at the front, and the old end is the last
      rw [advance_start hrew]
      rw [if_pos rfl] at hwrite
      refine ⟨?_, rfl, ?_, fun hno => (nomatch hrew.symm.trans hno)⟩
      · have hgap : (if s.enIndexType = .audio then 25 else rewindFramesGap) = 25 := by
          split <;> rfl
        unfold startCycle
        dsimp only
        rw [hgap, hstore, hwrite]
        exact h.wrap hnew (by omega) (by omega)
      · show (s.stCycMgr.u32EndFrame - 1) * sizeofEntry < 4294967296
        unfold sizeofEntry at hfits ⊢
        omega

theorem advance_file (s : Index IdxFile) (env : SaveEnv) (rewinds : Bool) :
    (advance s env rewinds).store = s.store := by
  unfold advance
  dsimp only
  split
  · split <;> rfl
  · rfl

/-- A call that succeeds keeps the ring in order, and all that it stores is its frame. -/
theorem LookupInv.step {s : Index IdxFile} {i : SaveCall} {out : SaveOut} (h : LookupInv s)
    (hbefore : Before s.store i.frame.u64GlobalOffset.toNat)
    (hout : ((machine entryFile).step s i).2 = some out) (hret : out.ret = none)
    (hfind : Findable s i) :
    LookupInv ((machine entryFile).step s i).1 ∧
      ∀ pos, i.frame.u64GlobalOffset.toNat < pos →
        Before ((machine entryFile).step s i).1.store pos := by
  obtain ⟨hacc, -, store, lastI, hs'⟩ | ⟨hacc, s₁, offset, rewinds, record, hplace, -, -, hs'⟩ :=
    step_success entryFile hout hret
  -- a discarded frame leaves the table as it is
  · have hfile := discard_store entryFile hacc
    rw [hs'] at hfile ⊢
    dsimp only at hfile
    subst hfile
    exact ⟨⟨h.ordered, h.write, h.fits, h.straight⟩,
      fun pos hpos a e he => Nat.lt_trans (hbefore a e he) hpos⟩
  -- a stored frame: finding its place rewrites no position
  · obtain ⟨hcycle, hstart, hfits⟩ := hfind hacc
    have hp := placed entryFile hplace
    -- the place goes back to the front only in a recording that rewinds
    have hrewinds : rewinds = true → s.stCycMgr.bIsRewind = true ∧ 26 ≤ s.stCycMgr.u32EndFrame ∧
        i.env.fuel ≤ s.stCycMgr.u32EndFrame := by
      intro hr
      have hstarts := hp.starts.symm.trans hr
      refine ⟨?_, hcycle hstarts⟩
      unfold startsCycle at hstarts
      exact (Bool.and_eq_true _ _ ▸ hstarts).1
    have hE : s.stCycMgr.u32EndFrame * sizeofEntry < 4294967296 := by
      unfold sizeofEntry at hfits ⊢
      omega
    have hsame : SamePos s.store s₁.store := by
      refine place_samePos (fun p hlt => h.ordered.new.stored p (Nat.zero_le _) hlt) hE
        (fun hr => ?_) hplace
      obtain ⟨-, h26, hfuel⟩ := hrewinds hr
      exact ⟨by omega, hfuel⟩
    -- the new frame lies behind every stored one
    have hnew : ∀ p x, s.store.posOf p = some x → x < i.frame.u64GlobalOffset.toNat := by
      intro p x hx
      obtain ⟨e, he, rfl⟩ := Option.map_eq_some_iff.mp hx
      exact hbefore _ e he
    set e : IndexEntry := { i.entry s with u64Offset := offset } with he
    set t := afterWrite entryFile s₁ e rewinds i.u32DirectFlag with ht
    -- so the entry goes to the end of the cycle, or to the front
    have hwrite : t.u32WriteFrame = if rewinds then 0 else s.stCycMgr.u32EndFrame := by
      rw [← h.write, ← hp.write]
      rfl
    have hfile : t.store = s₁.store.write t.u32WriteFrame e := rfl
    have hnum : t.u32WriteFrame * sizeofEntry < 4294967296 := by
      rw [hwrite]
      split
      · decide
      · exact hE
    have hS : t.stCycMgr.u32StartFrame = s.stCycMgr.u32StartFrame := hp.start
    have hEnd : t.stCycMgr.u32EndFrame = s.stCycMgr.u32EndFrame := hp.end_
    have hL : t.stCycMgr.u32LastFrame = s.stCycMgr.u32LastFrame := hp.last
    have hrew : t.stCycMgr.bIsRewind = s.stCycMgr.bIsRewind := hp.isRewind
    rw [hs']
    constructor
    -- what `advance` needs, read off the state after the write
    · refine LookupInv.finish
        (lookupInv_advance (o := s.store.posOf) ?_ ?_ ?_ hnew ?_ ?_ ?_ ?_ ?_) ..
      · rw [hS, hEnd, hL]
        exact h.ordered
      · rw [hrew, hL, hEnd]
        exact h.straight
      · rw [hwrite, hEnd]
      · rw [hfile, posOf_write hnum, hsame.posOf]
        rfl
      · rw [hrew, hEnd]
        exact fun hr => ⟨(hrewinds hr).1, (hrewinds hr).2.1⟩
      · rw [hrew, hEnd]
        exact hstart
      · rw [hEnd]
        exact hfits
      · rw [hL]
        exact h.fits
    -- a stored entry is the new one or one of those before
    · intro pos hpos a e' ha
      rw [finishFrame_file, advance_file, hfile] at ha
      by_cases hkey : a = u32 (t.u32WriteFrame * sizeofEntry)
      · rw [hkey, write_self] at ha
        obtain rfl := Option.some.inj ha
        exact hpos
      · rw [write_of_ne _ _ hkey] at ha
        have hold := hsame a
        rw [ha, Option.map_some] at hold
        obtain ⟨e₀, he₀, heq⟩ := Option.map_eq_some_iff.mp hold.symm
        rw [← heq]
        exact Nat.lt_trans (hbefore a e₀ he₀) hpos

/-! ## Whole runs -/

/-- The call returns MT_SUCCESS. -/
def ReturnsSuccess (s : Index IdxFile) (i : SaveCall) : Prop :=
  ((machine entryFile).step s i).2.map (·.ret) = some none

instance (s : Index IdxFile) (i : SaveCall) : Decidable (ReturnsSuccess s i) :=
  inferInstanceAs (Decidable (_ = _))

/-- Positions in the stream that grow from call to call. -/
def Growing (calls : List SaveCall) : Prop :=
  calls.Pairwise fun i j => i.frame.u64GlobalOffset < j.frame.u64GlobalOffset

instance (calls : List SaveCall) : Decidable (Growing calls) :=
  inferInstanceAs (Decidable (List.Pairwise _ calls))

/-- A run of calls that succeed keeps the ring in order. -/
theorem LookupInv.run {s : Index IdxFile} {calls : List SaveCall} (h : LookupInv s)
    (hbefore : ∀ i ∈ calls, Before s.store i.frame.u64GlobalOffset.toNat) (hgrow : Growing calls)
    (hok : (machine entryFile).Always (fun s i => ReturnsSuccess s i ∧ Findable s i) s calls) :
    LookupInv ((machine entryFile).final s calls) := by
  induction calls generalizing s with
  | nil => exact h
  | cons i calls ih =>
    obtain ⟨⟨hret, hfind⟩, hok⟩ := hok
    obtain ⟨out, hout, hret⟩ := Option.map_eq_some_iff.mp hret
    obtain ⟨hlater, hgrow⟩ := List.pairwise_cons.mp hgrow
    obtain ⟨hinv, hafter⟩ := h.step (hbefore i List.mem_cons_self) hout hret hfind
    exact ih hinv (fun j hj => hafter _ (hlater j hj)) hgrow hok

/-- A new index: the file is empty. -/
def newIndex (s : Index IdxFile) : Index IdxFile :=
  { resetRecAttr s with store := fun _ => none }

theorem newIndex_inv (s : Index IdxFile) : LookupInv (newIndex s) where
  ordered :=
    { empty := fun _ _ => rfl
      new := ⟨fun p _ hp => absurd hp (Nat.not_lt_zero p),
        fun _ q _ _ _ _ hq => absurd hq (Nat.not_lt_zero q)⟩
      stale := fun _ _ _ h0 => absurd h0 (Nat.lt_irrefl 0)
      old := fun h => absurd h (Nat.lt_irrefl 0)
      le := Nat.le_refl _
      start := .inr (.inr ⟨rfl, rfl, rfl⟩) }
  write := rfl
  fits := show 0 * sizeofEntry < 4294967296 by decide
  straight := fun _ => rfl

/-- The lookup is right for every entry: it terminates, returns the frame that can be played
    and lies at the entry's position, and fails where there is none. -/
def LookupCorrect (s : Index IdxFile) : Prop :=
  ∀ (e : IndexEntry) (fuel : Nat), s.stCycMgr.u32LastFrame + 2 ≤ fuel →
    (∀ k e', s.stCycMgr.InRange k → s.store.read k = .entry e' →
      e'.u64GlobalOffset = e.u64GlobalOffset →
        s.getFrmNumByEntry e fuel = some (some (k : Int))) ∧
    ((∀ k e', s.stCycMgr.InRange k → s.store.read k = .entry e' →
      e'.u64GlobalOffset ≠ e.u64GlobalOffset) → s.getFrmNumByEntry e fuel = some none)

/-- A frame that can be played does not lie behind the last one. -/
theorem CycMgr.InRange.le {c : CycMgr} {k : Nat} (h : c.InRange k)
    (hle : c.u32EndFrame ≤ c.u32LastFrame) : k ≤ c.u32LastFrame := by
  obtain ⟨hvalid, -⟩ := h
  unfold CycMgr.isFrameValid at hvalid
  split at hvalid <;> (simp only [decide_eq_true_eq] at hvalid; omega)

theorem LookupInv.correct {s : Index IdxFile} (h : LookupInv s) : LookupCorrect s := by
  intro e fuel hfuel
  have hfits := h.fits
  have hL : s.stCycMgr.u32LastFrame < 2147483647 := by
    unfold sizeofEntry at hfits
    omega
  have hread : ∀ p, p ≤ s.stCycMgr.u32LastFrame → ReadsAt s.store.read s.store.posOf p :=
    fun p hp => readsAt_posOf (Nat.lt_of_le_of_lt (Nat.mul_le_mul_right _ hp) hfits)
  obtain ⟨hfound, hmissing⟩ := getFrmNumByEntry_finds e h.ordered hread hL hfuel
  constructor
  · intro k e' hk hstored heq
    refine hfound k hk ?_
    cases hpos : s.store.posOf k with
    | none => exact nomatch hstored.symm.trans ((hread k (hk.le h.ordered.le)).atEnd hpos)
    | some x =>
      obtain ⟨e'', he'', rfl⟩ := (hread k (hk.le h.ordered.le)).entry hpos
      obtain rfl := ReadRes.entry.inj (hstored.symm.trans he'')
      rw [heq]
  · intro hne
    refine hmissing fun k hk hpos => ?_
    obtain ⟨e', he', heq⟩ := (hread k (hk.le h.ordered.le)).entry hpos
    exact hne k e' hk he' heq

/-- In every run of calls that succeed and keep the ring in order, the lookup is right. -/
theorem lookup_correct (s : Index IdxFile) (calls : List SaveCall) (hgrow : Growing calls)
    (hok : (machine entryFile).Always (fun s i => ReturnsSuccess s i ∧ Findable s i) (newIndex s)
      calls) : LookupCorrect ((machine entryFile).final (newIndex s) calls) :=
  ((newIndex_inv s).run (fun _ _ _ _ he => nomatch he) hgrow hok).correct

/-- A recording that loops after so many bytes. -/
def loopAfter (u64MaxCycSize : Nat) : Index IdxFile where
  store := fun _ => none
  stCycMgr := { bIsRewind := true, enRewindType := .bySize, u64MaxCycSize := u64MaxCycSize }

/-- An I frame at a position of the stream. -/
def iFrameAt (pos : Nat) : SaveCall where
  frame := { u64GlobalOffset := .ofNat pos }

/-- Thirty frames of ten bytes and one of the next cycle. -/
theorem lookup_correct_wrapped :
    LookupCorrect ((machine entryFile).final (newIndex (loopAfter 299))
      ((List.range 31).map fun k => iFrameAt (10 * k))) :=
  lookup_correct _ _ (by decide +kernel) (by decide +kernel)

/-- A cycle that ends after two frames: the next one starts at frame 25, which was never
    stored, and its frame 0 is not found. -/
theorem lookup_fails :
    Growing [iFrameAt 0, iFrameAt 10, iFrameAt 21] ∧
      (machine entryFile).Always ReturnsSuccess (newIndex (loopAfter 20))
        [iFrameAt 0, iFrameAt 10, iFrameAt 21] ∧
      ¬ LookupCorrect ((machine entryFile).final (newIndex (loopAfter 20))
        [iFrameAt 0, iFrameAt 10, iFrameAt 21]) := by
  refine ⟨by decide +kernel, by decide +kernel, fun h => ?_⟩
  have hfound := (h { u64GlobalOffset := 21 } 3 (by decide +kernel)).1 0
    { u16FrameTypeAndGop := 16384, u64GlobalOffset := 21, u64Offset := 1
      u32PtsMs := invalidPtsMs, u16IndexType := 1 }
    ⟨by decide +kernel, by decide +kernel⟩ (by decide +kernel) rfl
  exact absurd hfound (by decide +kernel)

end Tntsat.PvrIndex
