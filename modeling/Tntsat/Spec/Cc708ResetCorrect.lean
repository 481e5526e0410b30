import Tntsat.Spec.Cc708PacketCorrect
import Tntsat.Spec.Cc708Stream

/-!
# Reset of the CEA-708 decoder

Data that has not been shown waits in the service queue, in the command buffer, in the caption
buffer, in a packet and in a service block.  A Reset command in a block flushes the queue,
`CC708_Reset` also empties the command buffer, the packet and the service block.  Neither
empties the caption buffer.

Isolation is about two runs: after a reset a run goes on like the one in which the data before
it is gone from all of these places.

## Key results

- `reset_isolates`: resets isolate as long as the places they leave alone are empty, and the
  Reset that is found in a block is its last one
- `reset_draws_caption`: a caption from before a Reset is drawn after it
-/

namespace Tntsat.Cc708

variable (t : Ksc5601)

/-! ## The last Reset -/

/-- The bytes behind the last Reset, of which there are fewer than `fuel`. -/
def behindResets : Nat → List UInt8 → Option (List UInt8)
  | 0, _ => none
  | fuel + 1, bytes =>
    (behindCmd C1_RST bytes).map fun rest => (behindResets fuel rest).getD rest

/-- The bytes behind the last Reset. -/
def behindLastReset (bytes : List UInt8) : Option (List UInt8) :=
  behindResets (bytes.length + 1) bytes

/-- The unfinished command of the stream behind events. -/
def unfinishedAfter (held : List UInt8) (es : List Event) : List UInt8 :=
  es.foldl
    (fun held e =>
      match e with
      | .put block => unfinished (held ++ block)
      | _ => held)
    held

/-! ## Runs -/

/-- A step of the decoder. -/
inductive Op
  | put (block : ServiceData)
  | process
  | delay (interval : UInt8)
  | expire
  | receive (call : Call)
  | start
  | stop
  | reset
  | config (param : ConfigParam)
deriving DecidableEq

/-- What a step does.  The delay timer only expires while it runs. -/
def Op.run (o : Obj) : Op → Obj × List Event
  | .put block => putServiceDataToFIFO block.bytes o
  | .process => processServicefifo t o
  | .delay interval => (delayCmd [C1_DLY, interval] o, [])
  | .expire => (if o.delayTimer.isSome then delayTimerCallback o else o, [])
  | .receive call => receiver.step o call
  | .start => (Cc708.start o, [])
  | .stop => (Cc708.stop o, [])
  | .reset => (Cc708.reset o, [])
  | .config param => (Cc708.config param o, [])

/-- The decoder as a machine. -/
def decoder : Machine Obj Op (List Event) where
  step o op := op.run t o

/-- `CC708_Reset` runs on a started decoder. -/
def Op.Resets (o : Obj) : Op → Prop
  | .reset => o.u8IsStart = true
  | .config param =>
    o.u8IsStart = true ∧ param.Valid ∧ o.u32ServiceType ≠ param.enCC708ServiceNum
  | _ => False

instance (o : Obj) : (op : Op) → Decidable (op.Resets o)
  | .reset => inferInstanceAs (Decidable (_ = _))
  | .config _ => inferInstanceAs (Decidable (_ ∧ _))
  | .put _ | .process | .delay _ | .expire | .receive _ | .start | .stop =>
    inferInstanceAs (Decidable False)

/-- The decoder, and the unfinished command at the end of the service stream put so far. -/
structure Player where
  obj : Obj
  held : List UInt8 := []

/-- The decoder with the service stream. -/
def player : Machine Player Op (List Event) where
  step s op :=
    let r := op.run t s.obj
    ({ obj := r.1
       held := if op.Resets s.obj then [] else unfinishedAfter s.held r.2 }, r.2)

/-! ## Isolation -/

/-- The service data put so far is gone, and no delay is running. -/
def Obj.forgetService (o : Obj) : Obj :=
  { o with
    u8IsDelay := false
    delayTimer := none
    stServiceQueue := o.stServiceQueue.flush
    stCMDBuffer := {}
    stCaptionBuf := [] }

/-- All data received so far is gone. -/
def Obj.forgetAll (o : Obj) : Obj :=
  { o with
    u8IsDelay := false
    stServiceQueue := o.stServiceQueue.flush
    stCMDBuffer := {}
    stCaptionBuf := []
    stPacket := {}
    stServiceBlock := {} }

/-- Whatever is done behind a block with a Reset shows what it does when only the bytes behind
    the Reset have ever been put, and whatever is done behind `CC708_Reset` what it does when
    nothing has been received. -/
def Isolates (s : Player) : Op → Prop
  | .put block =>
    ∀ rest, behindLastReset (s.held ++ block.bytes) = some rest → ∀ later,
      (decoder t).outputs (putServiceDataToFIFO block.bytes s.obj).1 later =
        (decoder t).outputs (putServiceDataToFIFO rest s.obj.forgetService).1 later
  | op =>
    op.Resets s.obj → ∀ later,
      (decoder t).outputs (op.run t s.obj).1 later =
        (decoder t).outputs (op.run t s.obj.forgetAll).1 later

/-- The Reset that is found in a block is the stream's last one, and the command buffer and the
    caption buffer are empty.  `CC708_Reset` runs with an empty caption buffer. -/
def Clean (s : Player) : Op → Prop
  | .put block =>
    ∀ rest ∈ behindLastReset (s.held ++ block.bytes),
      (detectRstDcCmd block.bytes).2 = C1_RST ∧
        block.bytes.drop ((detectRstDcCmd block.bytes).1 + 1) = rest ∧
        s.obj.stCMDBuffer = {} ∧ s.obj.stCaptionBuf = []
  | op => op.Resets s.obj → s.obj.stCaptionBuf = []

instance (s : Player) : (op : Op) → Decidable (Clean s op)
  | .put _ => inferInstanceAs (Decidable (∀ _ ∈ _, _))
  | .process | .delay _ | .expire | .receive _ | .start | .stop | .reset | .config _ =>
    inferInstanceAs (Decidable (_ → _))

/-! ## The search for a Reset -/

/-- Bytes without a Reset are not taken for such with one. -/
theorem detectRstDcCmd_ne {bytes : List UInt8} (h : behindCmd C1_RST bytes = none) :
    (detectRstDcCmd bytes).2 ≠ C1_RST := by
  intro hfound
  have hsome : (searchCmd (fun b => b = C1_DLC ∨ b = C1_RST) bytes.length bytes).2 =
      some C1_RST := by
    simp only [detectRstDcCmd] at hfound
    revert hfound
    cases (searchCmd (fun b => b = C1_DLC ∨ b = C1_RST) bytes.length bytes).2 with
    | none => simp [C0_NUL, C1_RST]
    | some c => simp
  have hreset : (searchCmd (fun b => b = C1_RST) bytes.length bytes).2.isSome :=
    searchCmd_isSome (by simp) _ _ hsome
  revert h hreset
  unfold behindCmd
  cases searchCmd (fun b => b = C1_RST) bytes.length bytes with
  | mk n found => cases found <;> simp

/-- Behind the last Reset there is none. -/
theorem behindCmd_of_behindResets (fuel : Nat) (bytes : List UInt8) (hfuel : bytes.length < fuel)
    {rest : List UInt8} (h : behindResets fuel bytes = some rest) :
    behindCmd C1_RST rest = none := by
  induction fuel generalizing bytes rest with
  | zero => simp at hfuel
  | succ fuel ih =>
    obtain ⟨next, hnext, rfl⟩ := Option.map_eq_some_iff.mp h
    have hne : bytes ≠ [] := by
      rintro rfl
      cases hnext
    have hlt := length_behindCmd hnext hne
    cases hlast : behindResets fuel next with
    | some rest => exact ih next (by omega) hlast
    | none =>
      cases fuel with
      | zero => omega
      | succ fuel => simpa [behindResets] using hlast

/-- A put of bytes with no Reset adds them to the queue that has been flushed. -/
theorem putServiceDataToFIFO_forget {rest : List UInt8} (h : behindCmd C1_RST rest = none)
    (o : Obj) :
    (putServiceDataToFIFO rest o.forgetService).1 = insertServiceData rest o.forgetService := by
  have hne := detectRstDcCmd_ne h
  simp only [putServiceDataToFIFO, if_neg hne]
  split <;> rfl

/-- A block with a Reset leaves the decoder as if the bytes behind it were all there is. -/
theorem putServiceDataToFIFO_reset {o : Obj} {block rest : List UInt8}
    (hfound : (detectRstDcCmd block).2 = C1_RST)
    (hrest : block.drop ((detectRstDcCmd block).1 + 1) = rest)
    (hnone : behindCmd C1_RST rest = none) (hbuf : o.stCMDBuffer = {}) (hcap : o.stCaptionBuf = []) :
    (putServiceDataToFIFO block o).1 = (putServiceDataToFIFO rest o.forgetService).1 := by
  have hflush : Obj.osdReset { o with u8IsDelay := false, delayTimer := none } =
      o.forgetService := by
    unfold Obj.osdReset Obj.forgetService
    rw [hbuf, hcap]
  rw [putServiceDataToFIFO_forget hnone]
  unfold putServiceDataToFIFO
  simp only [if_pos hfound, hflush, hrest]

/-- `CC708_Reset` leaves the decoder as if nothing had been received. -/
theorem run_resets {o : Obj} {op : Op} (hresets : op.Resets o) (hcap : o.stCaptionBuf = []) :
    op.run t o = op.run t o.forgetAll := by
  cases op with
  | reset =>
    have hstart : o.u8IsStart = true := hresets
    simp only [Op.run, Cc708.reset, Obj.forgetAll, hstart, if_true, Obj.decReset, Obj.osdReset,
      hcap, TriQueue.flush]
  | config param =>
    obtain ⟨hstart, hvalid, hne⟩ := hresets
    simp only [Op.run, Cc708.config, Cc708.reset, Obj.forgetAll, hstart, if_true, Obj.decReset,
      Obj.osdReset, hcap, TriQueue.flush, hvalid, hne, ne_eq, not_false_eq_true, and_self]
  | _ => exact hresets.elim

/-- Resets isolate in every run in which they are clean. -/
theorem reset_isolates (s : Player) (ops : List Op)
    (hclean : (player t).Always Clean s ops) : (player t).Always (Isolates t) s ops := by
  induction ops generalizing s with
  | nil => trivial
  | cons op ops ih =>
    obtain ⟨hop, hops⟩ := hclean
    refine ⟨?_, ih _ hops⟩
    cases op with
    | put block =>
      intro rest hrest later
      obtain ⟨hfound, hdrop, hbuf, hcap⟩ := hop rest hrest
      have hnone := behindCmd_of_behindResets _ _ (Nat.lt_succ_self _) hrest
      rw [putServiceDataToFIFO_reset hfound hdrop hnone hbuf hcap]
    | _ =>
      intro hresets later
      rw [run_resets t hresets (hop hresets)]

/-- A Reset in a block, and `CC708_Reset` while the packet of the next block is not complete. -/
theorem reset_isolates_two :
    (player ⟨fun _ => 0, fun _ => 0, fun _ => 0⟩).Always
      (Isolates ⟨fun _ => 0, fun _ => 0, fun _ => 0⟩) { obj := { u8IsStart := true } }
      [.put ⟨[0x41, 0x8d, 5], by decide, by decide⟩, .delay 9,
        .put ⟨[0x42, 0x8f, 0x43], by decide, by decide⟩, .process,
        .put ⟨[0x03], by decide, by decide⟩, .process,
        .receive ⟨[⟨0xff, 0x44, 0x22⟩], [], by decide, by decide⟩, .reset] :=
  reset_isolates _ _ _ (by decide +kernel)

/-- A caption character that has been parsed before a Reset is drawn after it. -/
theorem reset_draws_caption :
    ¬∀ (t : Ksc5601) (ops : List Op),
      (player t).Always (Isolates t) { obj := { u8IsStart := true } } ops := by
  intro h
  obtain ⟨-, -, hput, -⟩ := h ⟨fun _ => 0, fun _ => 0, fun _ => 0⟩
    [.put ⟨[0x41], by decide, by decide⟩, .process, .put ⟨[0x8f, 0x03], by decide, by decide⟩]
  have hdrawn := hput [0x03] (by decide +kernel) [.process]
  revert hdrawn
  decide +kernel

end Tntsat.Cc708
