import Tntsat.Spec.Cc708Stream
import Tntsat.Spec.Cc708Packets
import Tntsat.ForStd.Machine
import Mathlib.Algebra.Group.Nat.Defs
import Mathlib.Data.List.Induction

/-!
# The delay queue

A Delay command holds back the blocks in the service queue, until its timer expires or a block
with a Delay Cancel is put.  The delay is looked at between two blocks, and a block is the unit
of the search for a Delay Cancel.

## Key results

- `delay_queue_keeps`: every block is parsed once and in order and none while a delay runs, as
  long as the queue does not get full, a Delay is the last command of its block, and blocks
  behind a cut command have no byte that can be taken for a command of the queue
- `delay_passed_over`: the bytes behind a Delay in its block are parsed at once
-/

namespace Tntsat.Cc708

variable (t : Ksc5601)

/-! ## Runs -/

/-- The blocks that are parsed. -/
def parsedBlocks (es : List Event) : List (List UInt8) :=
  es.filterMap fun
    | .parse block => some block
    | _ => none

/-- A step of the service layer. -/
inductive DelayOp
  | put (block : ServiceData)
  | process
  | expire
deriving DecidableEq

/-- The service layer, the blocks that have been put and parsed, and whether the last Delay of
    the parsed stream is in force. -/
structure DelayRun where
  obj : Obj
  puts : List (List UInt8) := []
  parsed : List (List UInt8) := []
  delayed : Bool := false

/-- The queue has no room for a block. -/
def Obj.Full (o : Obj) : Prop :=
  (o.stServiceQueue.Head + 1) % o.stServiceQueue.Size = o.stServiceQueue.Tail

instance (o : Obj) : Decidable o.Full := inferInstanceAs (Decidable (_ = _))

/-- A put block cancels the delay. -/
def Cancels (s : DelayRun) (block : List UInt8) : Bool :=
  (behindCmd C1_DLC (unfinishedOf s.puts ++ block)).isSome || s.obj.Full

/-- A block of `new` has a Delay, behind the blocks `parsed`. -/
def delays : List (List UInt8) → List (List UInt8) → Bool
  | _, [] => false
  | parsed, block :: new =>
    (behindCmd C1_DLY (unfinishedOf parsed ++ block)).isSome || delays (parsed ++ [block]) new

/-- The service layer as a machine, with what is known of the stream. -/
def delayQueue : Machine DelayRun DelayOp (List Event) where
  step s
    | .put block =>
      let r := putServiceDataToFIFO block.bytes s.obj
      ({ s with
          obj := r.1
          puts := s.puts ++ [block.bytes]
          delayed := s.delayed && !Cancels s block.bytes }, r.2)
    | .process =>
      let r := processServicefifo t s.obj
      ({ s with
          obj := r.1
          parsed := s.parsed ++ parsedBlocks r.2
          delayed := s.delayed || delays s.parsed (parsedBlocks r.2) }, r.2)
    | .expire =>
      if s.obj.delayTimer.isSome then
        ({ s with obj := delayTimerCallback s.obj, delayed := false }, [])
      else (s, [])

/-! ## What is claimed of a run -/

/-- Nothing behind a Delay is parsed with it. -/
def StopsAtDelay : List (List UInt8) → List (List UInt8) → Prop
  | _, [] => True
  | parsed, block :: new =>
    (∀ rest ∈ behindCmd C1_DLY (unfinishedOf parsed ++ block), rest = [] ∧ new = []) ∧
      StopsAtDelay (parsed ++ [block]) new

instance decidableStopsAtDelay : (parsed new : List (List UInt8)) →
    Decidable (StopsAtDelay parsed new)
  | _, [] => inferInstanceAs (Decidable True)
  | parsed, block :: new =>
    have := decidableStopsAtDelay (parsed ++ [block]) new
    inferInstanceAs (Decidable (_ ∧ _))

/-- What is parsed are the next blocks of those put, in order, and all of them unless a delay is
    in force afterwards.  While one is in force its timer runs and nothing is parsed. -/
def Keeps (s : DelayRun) : DelayOp → Prop
  | .process =>
    let new := parsedBlocks (processServicefifo t s.obj).2
    (s.delayed → s.obj.delayTimer.isSome ∧ new = []) ∧
      s.parsed ++ new <+: s.puts ∧
      ((s.delayed || delays s.parsed new) = false → s.parsed ++ new = s.puts) ∧
      StopsAtDelay s.parsed new
  | _ => True

instance (s : DelayRun) : (op : DelayOp) → Decidable (Keeps t s op)
  | .process => inferInstanceAs (Decidable (_ ∧ _))
  | .put _ | .expire => inferInstanceAs (Decidable True)

/-- No Reset is put. -/
def NoReset (s : DelayRun) : DelayOp → Prop
  | .put block => behindCmd C1_RST (unfinishedOf s.puts ++ block.bytes) = none
  | _ => True

instance (s : DelayRun) : (op : DelayOp) → Decidable (NoReset s op)
  | .put _ => inferInstanceAs (Decidable (_ = _))
  | .process | .expire => inferInstanceAs (Decidable True)

/-- The table has neither Delay nor Reset under the byte, and it is no Delay Cancel. -/
def QuietByte (b : UInt8) : Prop :=
  (cmdMap b).pfnCmdDecoder ≠ some .delayCmd ∧ (cmdMap b).pfnCmdDecoder ≠ some .resetCmd ∧
    b ≠ C1_DLC

instance (b : UInt8) : Decidable (QuietByte b) := inferInstanceAs (Decidable (_ ∧ _))

/-- Up to this block no command is cut, and a Delay is the last command of the block; or no byte
    of the block can be taken for a Delay, a Delay Cancel or a Reset. -/
def GoodBlock (puts : List (List UInt8)) (block : List UInt8) : Prop :=
  (∀ b ∈ puts ++ [block], Whole b) ∧ (∀ rest ∈ behindCmd C1_DLY block, rest = []) ∨
    ∀ b ∈ block, QuietByte b

instance (puts : List (List UInt8)) (block : List UInt8) : Decidable (GoodBlock puts block) :=
  inferInstanceAs (Decidable (_ ∨ _))

/-- A good block is put into a queue that is not full. -/
def PutsGood (s : DelayRun) : DelayOp → Prop
  | .put block => ¬s.obj.Full ∧ GoodBlock s.puts block.bytes
  | _ => True

instance (s : DelayRun) : (op : DelayOp) → Decidable (PutsGood s op)
  | .put _ => inferInstanceAs (Decidable (_ ∧ _))
  | .process | .expire => inferInstanceAs (Decidable True)

/-! ## Parsing keeps the queue -/

/-- The queue, its buffers and the delay are the same. -/
structure Obj.SameQueue (o o' : Obj) : Prop where
  queue : o'.stServiceQueue = o.stServiceQueue
  data : o'.au8ServiceData = o.au8ServiceData
  delay : o'.u8IsDelay = o.u8IsDelay
  timer : o'.delayTimer = o.delayTimer

theorem Obj.SameQueue.trans {o₁ o₂ o₃ : Obj} (h : o₁.SameQueue o₂) (h' : o₂.SameQueue o₃) :
    o₁.SameQueue o₃ :=
  ⟨h'.queue.trans h.queue, h'.data.trans h.data, h'.delay.trans h.delay, h'.timer.trans h.timer⟩

theorem store_sameQueue (o : Obj) (c : UInt16) : o.SameQueue (o.store c) := ⟨rfl, rfl, rfl, rfl⟩

theorem cmdBuffer_sameQueue (o : Obj) (buf : CMDBuffer) :
    o.SameQueue { o with stCMDBuffer := buf } := ⟨rfl, rfl, rfl, rfl⟩

theorem drawCaption_sameQueue (b : UInt8) (o : Obj) : o.SameQueue (drawCaption b o).1 := by
  rw [drawCaption_frame]
  exact ⟨rfl, rfl, rfl, rfl⟩

/-- Decoders other than those of Delay and Reset keep the queue and the delay. -/
theorem callDecoder_sameQueue {pfn : Option Decoder} (hdelay : pfn ≠ some .delayCmd)
    (hreset : pfn ≠ some .resetCmd) (p : List UInt8) (o : Obj) :
    o.SameQueue (callDecoder t pfn p o).1 := by
  cases pfn with
  | none => exact ⟨rfl, rfl, rfl, rfl⟩
  | some d =>
    cases d with
    | ext1Cmd =>
      simp only [callDecoder, Decoder.run]
      rw [ext1Cmd_frame]
      exact ⟨rfl, rfl, rfl, rfl⟩
    | p16Cmd =>
      simp only [callDecoder, Decoder.run]
      rw [p16Cmd_frame]
      exact ⟨rfl, rfl, rfl, rfl⟩
    | delayCmd => exact absurd rfl hdelay
    | resetCmd => exact absurd rfl hreset
    | _ => exact ⟨rfl, rfl, rfl, rfl⟩

/-- Quiet bytes keep the queue and the delay, wherever commands are seen in them. -/
theorem parseCmds_quiet (fuel : Nat) (p : List UInt8) (left : Nat) (o : Obj)
    (hquiet : ∀ b ∈ p.take left, QuietByte b) : o.SameQueue (parseCmds t fuel p left o).1 := by
  induction fuel generalizing p left o with
  | zero => exact ⟨rfl, rfl, rfl, rfl⟩
  | succ fuel ih =>
    -- what lies behind a command is quiet as well
    have hdrop : ∀ k, ∀ b ∈ (p.drop k).take (left - k), QuietByte b := by
      intro k b hb
      rw [← List.drop_take] at hb
      exact hquiet b (List.mem_of_mem_drop hb)
    rw [parseCmds]
    by_cases hleft : left = 0
    · rw [if_pos hleft]
      exact ⟨rfl, rfl, rfl, rfl⟩
    · have hbyte : QuietByte (get8 p 0) := by
        cases p with
        | nil => exact (by decide : QuietByte 0)
        | cons b p =>
          obtain ⟨k, rfl⟩ := Nat.exists_eq_add_one_of_ne_zero hleft
          exact hquiet b List.mem_cons_self
      simp only [if_neg hleft]
      by_cases hcmd : IsCmd (get8 p 0)
      · simp only [if_pos hcmd]
        have hdraw := drawCaption_sameQueue (get8 p 0) o
        -- a command that is cut goes to the buffer
        by_cases hcut : left < cmdLen p left
        · rw [if_pos hcut]
          exact hdraw.trans (cmdBuffer_sameQueue _ _)
        · rw [if_neg hcut]
          exact (hdraw.trans (callDecoder_sameQueue t hbyte.1 hbyte.2.1 p _)).trans
            (ih _ _ _ (hdrop _))
      · simp only [if_neg hcmd]
        exact (store_sameQueue o _).trans (ih _ _ _ (hdrop 1))

/-- A quiet block keeps the queue and the delay, whatever waits in the command buffer. -/
theorem parseServiceBlock_quiet (p : List UInt8) (n : Nat) (o : Obj)
    (hquiet : ∀ b ∈ p.take n, QuietByte b) : o.SameQueue (parseServiceBlock t p n o).1 := by
  unfold parseServiceBlock
  by_cases hn : n = 0
  · rw [if_pos hn]
    exact ⟨rfl, rfl, rfl, rfl⟩
  · have hbyte : QuietByte (get8 p 0) := by
      cases p with
      | nil => exact (by decide : QuietByte 0)
      | cons b p =>
        obtain ⟨k, rfl⟩ := Nat.exists_eq_add_one_of_ne_zero hn
        exact hquiet b List.mem_cons_self
    simp only [if_neg hn]
    -- a command that was begun before is finished first
    by_cases hheld : o.stCMDBuffer.u8CurSize < o.stCMDBuffer.u8TotalSize
    · simp only [if_pos hheld]
      by_cases hrest : o.stCMDBuffer.u8TotalSize.toNat - o.stCMDBuffer.u8CurSize.toNat ≤ n
      · simp only [if_pos hrest]
        refine ((callDecoder_sameQueue t hbyte.1 hbyte.2.1 _ o).trans (cmdBuffer_sameQueue _ {})).trans
          (parseCmds_quiet t _ _ _ _ fun b hb => ?_)
        rw [← List.drop_take] at hb
        exact hquiet b (List.mem_of_mem_drop hb)
      · rw [if_neg hrest]
        exact cmdBuffer_sameQueue o _
    · simp only [if_neg hheld]
      exact (cmdBuffer_sameQueue o _).trans (parseCmds_quiet t _ _ _ _ hquiet)

/-! ## Events -/

theorem parsedBlocks_append (es es' : List Event) :
    parsedBlocks (es ++ es') = parsedBlocks es ++ parsedBlocks es' := List.filterMap_append

theorem parsedBlocks_drawCaption (b : UInt8) (o : Obj) :
    parsedBlocks (drawCaption b o).2 = [] := by
  unfold drawCaption
  split <;> rfl

theorem parsedBlocks_callDecoder (pfn : Option Decoder) (p : List UInt8) (o : Obj) :
    parsedBlocks (callDecoder t pfn p o).2 = [] := by
  cases pfn <;> rfl

theorem parsedBlocks_parseCmds (fuel : Nat) (p : List UInt8) (left : Nat) (o : Obj) :
    parsedBlocks (parseCmds t fuel p left o).2 = [] := by
  induction fuel generalizing p left o with
  | zero => rfl
  | succ fuel ih =>
    rw [parseCmds]
    split
    · rfl
    · simp only
      split
      · split
        · exact parsedBlocks_drawCaption _ o
        · simp only [parsedBlocks_append, parsedBlocks_drawCaption, parsedBlocks_callDecoder, ih,
            List.append_nil]
      · exact ih _ _ _

/-- What is called and drawn within a block is no block. -/
theorem parsedBlocks_parseServiceBlock (p : List UInt8) (n : Nat) (o : Obj) :
    parsedBlocks (parseServiceBlock t p n o).2 = [] := by
  unfold parseServiceBlock
  split
  · rfl
  · simp only
    split
    · split
      · simp only [parsedBlocks_append, parsedBlocks_callDecoder, parsedBlocks_parseCmds,
          List.append_nil]
      · rfl
    · exact parsedBlocks_parseCmds t _ _ _ _

/-! ## Items and the delay -/

/-- Only the code of Delay has the decoder of Delay, and only that of Reset the one of Reset. -/
theorem cmdMap_queue {b : UInt8} (hcmd : IsCmd b) :
    ((cmdMap b).pfnCmdDecoder = some .delayCmd ↔ b = C1_DLY) ∧
      ((cmdMap b).pfnCmdDecoder = some .resetCmd → b = C1_RST) := by
  have hall : ∀ n : Fin 256, IsCmd (UInt8.ofNat n) →
      ((cmdMap (UInt8.ofNat n)).pfnCmdDecoder = some .delayCmd ↔ UInt8.ofNat n = C1_DLY) ∧
        ((cmdMap (UInt8.ofNat n)).pfnCmdDecoder = some .resetCmd → UInt8.ofNat n = C1_RST) := by
    decide +kernel
  have hb := hall ⟨b.toNat, b.toNat_lt⟩
  rw [UInt8.ofNat_toNat] at hb
  exact hb hcmd

/-- What whole items do to the queue and to the delay. -/
structure Obj.Delayed (o o' : Obj) (delay : Bool) : Prop where
  queue : o'.stServiceQueue = o.stServiceQueue
  data : o'.au8ServiceData = o.au8ServiceData
  delay : o'.u8IsDelay = (o.u8IsDelay || delay)
  timer : (o.u8IsDelay → o.delayTimer.isSome) → o'.u8IsDelay → o'.delayTimer.isSome

theorem Obj.SameQueue.delayed {o o' : Obj} (h : o.SameQueue o') : o.Delayed o' false := by
  refine ⟨h.queue, h.data, ?_, ?_⟩
  · rw [h.delay, Bool.or_false]
  · rw [h.delay, h.timer]
    exact id

theorem Item.run_delayed (i : Item) (o : Obj) (hreset : i.Is C1_RST = false) :
    o.Delayed (i.run t o).1 (i.Is C1_DLY) := by
  cases i with
  | char b h => exact (store_sameQueue o _).delayed
  | cmd c =>
    have hisCmd : IsCmd c.code := c.isCmd
    obtain ⟨hdelay, hrst⟩ := cmdMap_queue hisCmd
    have hdraw := drawCaption_sameQueue c.code o
    by_cases hcode : c.code = C1_DLY
    · simp only [Item.run, Item.Is, hdelay.mpr hcode, decide_eq_true hcode]
      exact ⟨hdraw.queue, hdraw.data, (Bool.or_true _).symm, fun _ _ => rfl⟩
    · have hne : (cmdMap c.code).pfnCmdDecoder ≠ some .resetCmd := by
        intro h
        rw [Item.Is, hrst h] at hreset
        cases hreset
      have hcall := callDecoder_sameQueue t (fun h => hcode (hdelay.mp h)) hne c.bytes
        (drawCaption c.code o).1
      simp only [Item.run, Item.Is, decide_eq_false hcode]
      exact (hdraw.trans hcall).delayed

theorem Obj.Delayed.trans {o₁ o₂ o₃ : Obj} {d d' : Bool} (h : o₁.Delayed o₂ d)
    (h' : o₂.Delayed o₃ d') : o₁.Delayed o₃ (d || d') := by
  refine ⟨h'.queue.trans h.queue, h'.data.trans h.data, ?_, fun htimer => h'.timer (h.timer htimer)⟩
  rw [h'.delay, h.delay, Bool.or_assoc]

/-- Whole items without a Reset keep the queue and start a delay if one of them is a Delay. -/
theorem play_delayed (its : List Item) (o : Obj) (hreset : its.any (Item.Is C1_RST) = false) :
    o.Delayed (play t its o).1 (its.any (Item.Is C1_DLY)) := by
  induction its generalizing o with
  | nil => exact Obj.SameQueue.delayed ⟨rfl, rfl, rfl, rfl⟩
  | cons i its ih =>
    rw [List.any_cons, Bool.or_eq_false_iff] at hreset
    rw [List.any_cons]
    exact (i.run_delayed t o hreset.1).trans (ih _ hreset.2)

/-! ## Good blocks -/

/-- The blocks put so far were good when they were put, and have no Reset. -/
def AllGood (puts : List (List UInt8)) : Prop :=
  ∀ n (h : n < puts.length),
    GoodBlock (puts.take n) puts[n] ∧ behindCmd C1_RST (unfinishedOf (puts.take n) ++ puts[n]) = none

theorem AllGood.concat {puts : List (List UInt8)} {block : List UInt8} (h : AllGood puts)
    (hgood : GoodBlock puts block) (hreset : behindCmd C1_RST (unfinishedOf puts ++ block) = none) :
    AllGood (puts ++ [block]) := by
  intro n hn
  rw [List.length_append, List.length_singleton] at hn
  by_cases hlast : n = puts.length
  · subst hlast
    rw [List.getElem_concat_length rfl, List.take_left]
    exact ⟨hgood, hreset⟩
  · rw [List.getElem_append_left (by omega), List.take_append_of_le_length (by omega)]
    exact h n (by omega)

/-- A block was good behind the blocks before it. -/
theorem AllGood.split {parsed blocks : List (List UInt8)} {block : List UInt8}
    (h : AllGood (parsed ++ block :: blocks)) :
    GoodBlock parsed block ∧ behindCmd C1_RST (unfinishedOf parsed ++ block) = none := by
  have hn : parsed.length < (parsed ++ block :: blocks).length := by simp
  have hgood := h parsed.length hn
  simpa only [List.take_left, List.getElem_append_right (Nat.le_refl _), Nat.sub_self,
    List.getElem_cons_zero] using hgood

theorem AllGood.left {puts puts' : List (List UInt8)} (h : AllGood (puts ++ puts')) :
    AllGood puts := by
  intro n hn
  have hgood := h n (by rw [List.length_append]; omega)
  rwa [List.getElem_append_left hn, List.take_append_of_le_length (by omega)] at hgood

/-- A block that is not whole, or comes behind one that is not, has quiet bytes. -/
theorem GoodBlock.quiet {puts : List (List UInt8)} {block : List UInt8}
    (h : GoodBlock puts block) (hcut : ¬∀ b ∈ puts ++ [block], Whole b) :
    ∀ b ∈ block, QuietByte b :=
  h.resolve_left fun hwhole => hcut hwhole.1

/-- Only quiet bytes are left unfinished. -/
theorem unfinishedOf_quiet {puts : List (List UInt8)} (h : AllGood puts) :
    ∀ b ∈ unfinishedOf puts, QuietByte b := by
  induction puts using List.reverseRecOn with
  | nil => simp [unfinishedOf]
  | append_singleton puts block ih =>
    by_cases hwhole : ∀ b ∈ puts ++ [block], Whole b
    · simp [unfinishedOf_whole hwhole]
    · have hquiet := h.split.1.quiet hwhole
      intro b hb
      rw [unfinishedOf_concat, unfinished] at hb
      rcases List.mem_append.mp (List.mem_of_mem_drop hb) with hheld | hblock
      · exact ih h.left b hheld
      · exact hquiet b hblock

/-- No command of the queue is found among quiet bytes. -/
theorem behindCmd_quiet {code : UInt8} (hcode : ¬QuietByte code) {bytes : List UInt8}
    (h : ∀ b ∈ bytes, QuietByte b) : behindCmd code bytes = none :=
  behindCmd_of_notMem fun hmem => hcode (h code hmem)

theorem quiet_append {puts : List (List UInt8)} {block : List UInt8} (h : AllGood puts)
    (hquiet : ∀ b ∈ block, QuietByte b) : ∀ b ∈ unfinishedOf puts ++ block, QuietByte b := by
  intro b hb
  exact (List.mem_append.mp hb).elim (unfinishedOf_quiet h b) (hquiet b)

/-- The search of a put finds a Delay Cancel exactly when the stream has one in the block. -/
theorem detectRstDcCmd_good {puts : List (List UInt8)} {block : List UInt8} (hall : AllGood puts)
    (hgood : GoodBlock puts block)
    (hreset : behindCmd C1_RST (unfinishedOf puts ++ block) = none) :
    (detectRstDcCmd block).2 =
      if (behindCmd C1_DLC (unfinishedOf puts ++ block)).isSome then C1_DLC else C0_NUL := by
  by_cases hwhole : ∀ b ∈ puts ++ [block], Whole b
  · rw [unfinishedOf_whole fun b hb => hwhole b (List.mem_append_left _ hb),
      List.nil_append] at hreset ⊢
    obtain ⟨its, rfl⟩ := exists_items (hwhole block (by simp))
    exact detectRstDcCmd_items hreset
  · have hquiet := hgood.quiet hwhole
    rw [behindCmd_quiet (by decide) (quiet_append hall hquiet)]
    simp only [detectRstDcCmd]
    cases hsearch : (searchCmd (fun b => b = C1_DLC ∨ b = C1_RST) block.length block).2 with
    | none => rfl
    | some c =>
      -- What the search stops at is not quiet.
      obtain ⟨hmem, hstop⟩ := searchCmd_mem _ _ hsearch
      have hc := hquiet c hmem
      rcases of_decide_eq_true hstop with rfl | rfl
      · exact absurd rfl hc.2.2
      · exact absurd (by decide) hc.2.1

/-- Parsing the next block starts a delay exactly when the stream has a Delay in the block. -/
theorem parseServiceBlock_good {parsed : List (List UInt8)} {block p : List UInt8} {o : Obj}
    (hall : AllGood parsed) (hgood : GoodBlock parsed block)
    (hreset : behindCmd C1_RST (unfinishedOf parsed ++ block) = none)
    (hclear : (∀ b ∈ parsed, Whole b) → o.Clear) (hp : p.take block.length = block) :
    o.Delayed (parseServiceBlock t p block.length o).1
        (behindCmd C1_DLY (unfinishedOf parsed ++ block)).isSome ∧
      ((∀ b ∈ parsed ++ [block], Whole b) → (parseServiceBlock t p block.length o).1.Clear) := by
  -- blocks of whole commands are played; any other block has only quiet bytes
  by_cases hwhole : ∀ b ∈ parsed ++ [block], Whole b
  · have hparsed : ∀ b ∈ parsed, Whole b := fun b hb => hwhole b (List.mem_append_left _ hb)
    rw [unfinishedOf_whole hparsed, List.nil_append] at hreset ⊢
    obtain ⟨its, rfl⟩ := exists_items (hwhole block (by simp))
    have hsplit : streamBytes its ++ p.drop (streamBytes its).length = p := by
      have hdrop := List.take_append_drop (streamBytes its).length p
      rwa [hp] at hdrop
    have hplay := parseServiceBlock_items t its (p.drop (streamBytes its).length) o (hclear hparsed)
    rw [hsplit] at hplay
    rw [hplay, behindCmd_isSome]
    refine ⟨play_delayed t its o ?_, fun _ => ?_⟩
    · rw [← behindCmd_isSome, hreset]
      rfl
    · rw [Obj.Clear, play_stCMDBuffer]
      exact hclear hparsed
  · have hquiet := hgood.quiet hwhole
    rw [behindCmd_quiet (by decide) (quiet_append hall hquiet)]
    refine ⟨(parseServiceBlock_quiet t p _ o ?_).delayed, fun h => absurd h hwhole⟩
    rw [hp]
    exact hquiet

/-- Nothing is behind a Delay in a good block. -/
theorem GoodBlock.last {puts : List (List UInt8)} {block rest : List UInt8}
    (h : GoodBlock puts block) (hall : AllGood puts)
    (hrest : rest ∈ behindCmd C1_DLY (unfinishedOf puts ++ block)) : rest = [] := by
  rcases h with ⟨hwhole, hlast⟩ | hquiet
  · rw [unfinishedOf_whole fun b hb => hwhole b (List.mem_append_left _ hb),
      List.nil_append] at hrest
    exact hlast rest hrest
  · rw [behindCmd_quiet (by decide) (quiet_append hall hquiet)] at hrest
    cases hrest

/-! ## Processing -/

/-- What is known of the queue, of the command buffer and of the delay timer. -/
structure Waits (parsed blocks : List (List UInt8)) (o : Obj) : Prop where
  queued : o.Queued blocks
  clear : (∀ b ∈ parsed, Whole b) → o.Clear
  timer : o.u8IsDelay → o.delayTimer.isSome

/-- A call parses waiting blocks up to the first one with a Delay. -/
structure Processed (parsed blocks : List (List UInt8)) (o o' : Obj) (new : List (List UInt8)) :
    Prop where
  waits : ∃ rest, blocks = new ++ rest ∧ Waits (parsed ++ new) rest o' ∧
    (o'.u8IsDelay = false → rest = [])
  delay : o'.u8IsDelay = (o.u8IsDelay || delays parsed new)
  none : o.u8IsDelay → new = []
  stops : StopsAtDelay parsed new

theorem processLoop_good (parsed blocks : List (List UInt8)) {o : Obj}
    (hall : AllGood (parsed ++ blocks)) (hwaits : Waits parsed blocks o) :
    Processed parsed blocks o (processLoop t blocks.length o).1
      (parsedBlocks (processLoop t blocks.length o).2) := by
  induction blocks generalizing parsed o with
  | nil =>
    exact ⟨⟨[], rfl, by simpa [processLoop, parsedBlocks] using hwaits, fun _ => rfl⟩,
      by simp [processLoop, parsedBlocks, delays], fun _ => rfl, trivial⟩
  | cons block blocks ih =>
    rw [List.length_cons, processLoop]
    by_cases hdelay : o.u8IsDelay = true
    · rw [if_pos hdelay]
      refine ⟨⟨block :: blocks, rfl, by simpa [parsedBlocks] using hwaits, ?_⟩, ?_, fun _ => rfl,
        trivial⟩
      · simp [hdelay]
      · simp [hdelay]
    · obtain ⟨hget, hdata⟩ := hwaits.queued.get_cons
      obtain ⟨hgood, hreset⟩ := hall.split
      obtain ⟨hparse, hclear⟩ :=
        parseServiceBlock_good t hall.left hgood hreset hwaits.clear hdata
      have hevents := parsedBlocks_parseServiceBlock t
        (o.au8ServiceData o.stServiceQueue.Tail) block.length o
      simp only [if_neg hdelay, hget, hdata]
      generalize parseServiceBlock t (o.au8ServiceData o.stServiceQueue.Tail) block.length o = r at *
      have hwaits' : Waits (parsed ++ [block]) blocks
          { r.1 with stServiceQueue := r.1.stServiceQueue.remove } :=
        ⟨(hwaits.queued.congr hparse.queue hparse.data).remove, hclear, hparse.timer hwaits.timer⟩
      have hrun := ih (parsed ++ [block]) (by simpa using hall) hwaits'
      generalize processLoop t blocks.length
        { r.1 with stServiceQueue := r.1.stServiceQueue.remove } = run at *
      have hnew : parsedBlocks (Event.parse block :: r.2 ++ run.2) =
          block :: parsedBlocks run.2 := by
        rw [parsedBlocks_append, parsedBlocks, List.filterMap_cons]
        simp only
        rw [← parsedBlocks, hevents]
        rfl
      have hstart := hparse.delay
      rw [Bool.eq_false_iff.mpr hdelay, Bool.false_or] at hstart
      obtain ⟨rest, hrest, hwaits', hempty⟩ := hrun.waits
      rw [hnew]
      refine ⟨⟨rest, by rw [hrest, List.cons_append], by simpa using hwaits', hempty⟩, ?_,
        fun h => absurd h hdelay, ?_, hrun.stops⟩
      · rw [hrun.delay, hparse.delay, delays, Bool.or_assoc]
      · -- A block with a Delay starts the delay, and nothing is parsed after it.
        intro behind hbehind
        refine ⟨hgood.last hall.left hbehind, hrun.none ?_⟩
        rw [hstart, Option.isSome_iff_exists]
        exact ⟨behind, hbehind⟩

/-! ## Runs -/

/-- The blocks put are those parsed and those that wait, and a delay is in force exactly when
    the decoder holds the queue back. -/
structure DelayRun.Inv (s : DelayRun) : Prop where
  good : AllGood s.puts
  waits : ∃ blocks, s.puts = s.parsed ++ blocks ∧ Waits s.parsed blocks s.obj
  delay : s.delayed = s.obj.u8IsDelay

/-- A good block that is put waits behind the others. -/
theorem putServiceDataToFIFO_good {s : DelayRun} (hinv : s.Inv) (block : ServiceData)
    (hfull : ¬s.obj.Full) (hgood : GoodBlock s.puts block.bytes)
    (hreset : behindCmd C1_RST (unfinishedOf s.puts ++ block.bytes) = none) :
    ((delayQueue t).step s (.put block)).1.Inv := by
  obtain ⟨blocks, hputs, hwaits⟩ := hinv.waits
  have hroom : blocks.length + 1 < SERVICE_QUEUE_SIZE :=
    Nat.lt_of_le_of_ne hwaits.queued.room fun h => hfull (hwaits.queued.full_iff.mpr h)
  have hfound := detectRstDcCmd_good hinv.good hgood hreset
  have hbuf : (putServiceDataToFIFO block.bytes s.obj).1.stCMDBuffer = s.obj.stCMDBuffer := by
    rw [putServiceDataToFIFO_frame]
  have hcancels : Cancels s block.bytes =
      (behindCmd C1_DLC (unfinishedOf s.puts ++ block.bytes)).isSome := by
    simp [Cancels, hfull]
  -- the block goes to the queue, and a delay is cancelled exactly where the search finds that
  have hput : (putServiceDataToFIFO block.bytes s.obj).1.Queued (blocks ++ [block.bytes]) ∧
      (putServiceDataToFIFO block.bytes s.obj).1.u8IsDelay =
        (s.obj.u8IsDelay && !Cancels s block.bytes) ∧
      ((putServiceDataToFIFO block.bytes s.obj).1.u8IsDelay →
        (putServiceDataToFIFO block.bytes s.obj).1.delayTimer.isSome) := by
    rw [hcancels]
    unfold putServiceDataToFIFO
    -- whether the block cancels the delay
    cases hdlc : (behindCmd C1_DLC (unfinishedOf s.puts ++ block.bytes)).isSome with
    | false =>
      rw [hdlc] at hfound
      obtain ⟨hqueued, hdelay, htimer⟩ := hwaits.queued.insert hroom block.pos
      rw [if_neg Bool.false_ne_true] at hfound
      simp only [hfound, if_neg (show C0_NUL ≠ C1_RST by decide),
        if_neg (show C0_NUL ≠ C1_DLC by decide), hdelay, htimer]
      exact ⟨hqueued, by simp, hwaits.timer⟩
    | true =>
      rw [hdlc] at hfound
      have hqueue : Obj.Queued { s.obj with u8IsDelay := false, delayTimer := none } blocks :=
        hwaits.queued.congr rfl rfl
      obtain ⟨hqueued, hdelay, -⟩ := hqueue.insert hroom block.pos
      rw [if_pos rfl] at hfound
      simp only [hfound, if_neg (show C1_DLC ≠ C1_RST by decide), if_true, hdelay]
      exact ⟨hqueued, by simp, fun h => absurd h Bool.false_ne_true⟩
  obtain ⟨hqueued, hdelay, htimer⟩ := hput
  refine ⟨hinv.good.concat hgood hreset, ⟨blocks ++ [block.bytes], ?_, hqueued, ?_, htimer⟩, ?_⟩
  · simp [delayQueue, hputs]
  · intro hparsed
    exact hbuf.trans (hwaits.clear hparsed)
  · rw [← hinv.delay] at hdelay
    exact hdelay.symm

/-- A call parses the next blocks. -/
theorem processServicefifo_good {s : DelayRun} (hinv : s.Inv) :
    Keeps t s .process ∧ ((delayQueue t).step s .process).1.Inv := by
  obtain ⟨blocks, hputs, hwaits⟩ := hinv.waits
  have hrun := processLoop_good t s.parsed blocks (hputs ▸ hinv.good) hwaits
  obtain ⟨rest, hrest, hwaits', hempty⟩ := hrun.waits
  have hcall : processServicefifo t s.obj = processLoop t blocks.length s.obj := by
    rw [processServicefifo, hwaits.queued.getItemNum]
  have hdelay := hrun.delay
  rw [← hinv.delay] at hdelay
  have hsplit : s.parsed ++ parsedBlocks (processLoop t blocks.length s.obj).2 ++ rest =
      s.puts := by
    rw [hputs, List.append_assoc, ← hrest]
  constructor
  · simp only [Keeps, hcall]
    refine ⟨fun h => ?_, ⟨rest, hsplit⟩, fun h => ?_, hrun.stops⟩
    · rw [hinv.delay] at h
      exact ⟨hwaits.timer h, hrun.none h⟩
    · rw [← hdelay] at h
      rw [hempty h, List.append_nil] at hsplit
      exact hsplit
  · simp only [delayQueue, hcall]
    exact ⟨hinv.good, ⟨rest, hsplit.symm, hwaits'⟩, hdelay.symm⟩

/-- An expiry ends the delay. -/
theorem expire_good {s : DelayRun} (hinv : s.Inv) :
    ((delayQueue t).step s .expire).1.Inv := by
  obtain ⟨blocks, hputs, hwaits⟩ := hinv.waits
  simp only [delayQueue]
  split
  · refine ⟨hinv.good, ⟨blocks, hputs, ?_⟩, rfl⟩
    exact ⟨hwaits.queued.congr rfl rfl, hwaits.clear, fun h => absurd h Bool.false_ne_true⟩
  · exact hinv

/-- The service layer at the start: nothing waits and no delay runs. -/
structure DelayRun.Fresh (s : DelayRun) : Prop where
  queued : s.obj.Queued []
  clear : s.obj.Clear
  delay : s.obj.u8IsDelay = false
  puts : s.puts = []
  parsed : s.parsed = []
  delayed : s.delayed = false

/-- No block is lost, doubled or reordered and none is parsed while a delay runs, in every run
    of blocks without a Reset that are good and find room in the queue. -/
theorem delay_queue_keeps {s : DelayRun} (hfresh : s.Fresh) (ops : List DelayOp)
    (hreset : (delayQueue t).Always NoReset s ops)
    (hgood : (delayQueue t).Always PutsGood s ops) : (delayQueue t).Always (Keeps t) s ops := by
  have hinv : s.Inv := by
    refine ⟨?_, ⟨[], ?_, hfresh.queued, fun _ => hfresh.clear, fun h => ?_⟩, ?_⟩
    · rw [hfresh.puts]
      exact fun n hn => absurd hn (Nat.not_lt_zero n)
    · rw [hfresh.puts, hfresh.parsed]
      rfl
    · rw [hfresh.delay] at h
      cases h
    · rw [hfresh.delayed, hfresh.delay]
  have hstep : ∀ s op, s.Inv → NoReset s op ∧ PutsGood s op →
      Keeps t s op ∧ ((delayQueue t).step s op).1.Inv := by
    intro s op hinv hop
    cases op with
    | put block =>
      obtain ⟨hreset, hfull, hgood⟩ := hop
      exact ⟨trivial, putServiceDataToFIFO_good t hinv block hfull hgood hreset⟩
    | process => exact processServicefifo_good t hinv
    | expire => exact ⟨trivial, expire_good t hinv⟩
  exact (Machine.always_of_invariant hstep hinv (hreset.and _ hgood)).1

/-- A decoder that has been created and started is fresh. -/
theorem fresh_start : DelayRun.Fresh { obj := { u8IsStart := true } } :=
  ⟨⟨rfl, by decide, by decide, by decide, fun i hi => absurd hi (Nat.not_lt_zero i)⟩, rfl, rfl,
    rfl, rfl, rfl⟩

/-- A delay that expires, one that is cancelled, and a cut command behind them. -/
theorem delay_queue_keeps_two :
    (delayQueue ⟨fun _ => 0, fun _ => 0, fun _ => 0⟩).Always
      (Keeps ⟨fun _ => 0, fun _ => 0, fun _ => 0⟩) { obj := { u8IsStart := true } }
      [.put ⟨[0x41, 0x8d, 5], by decide, by decide⟩, .process,
        .put ⟨[0x42], by decide, by decide⟩, .process, .expire, .process,
        .put ⟨[0x8d, 2], by decide, by decide⟩, .process,
        .put ⟨[0x8e, 0x43], by decide, by decide⟩, .process,
        .put ⟨[0x97, 1], by decide, by decide⟩, .put ⟨[2, 3, 4], by decide, by decide⟩,
        .process] :=
  delay_queue_keeps _ fresh_start _ (by decide +kernel) (by decide +kernel)

/-- What stands behind a Delay in its block is parsed at once. -/
theorem delay_passed_over :
    ¬∀ (t : Ksc5601) (s : DelayRun), s.Fresh → ∀ ops : List DelayOp,
      (delayQueue t).Always NoReset s ops → (delayQueue t).Always (Keeps t) s ops := by
  intro h
  have hkeeps := h ⟨fun _ => 0, fun _ => 0, fun _ => 0⟩ _ fresh_start
    [.put ⟨[0x8d, 5, 0x41], by decide, by decide⟩, .process] (by decide +kernel)
  revert hkeeps
  decide +kernel

end Tntsat.Cc708
