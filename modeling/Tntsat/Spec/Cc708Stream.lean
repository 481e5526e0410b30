import Tntsat.ForStd.Ring
import Tntsat.Spec.Cc708Items

/-!
# The service stream and the service queue

The bytes of the service blocks, one block after another, are the service stream.  Commands are
found in it from its beginning on, where one ends the next item begins.

The elements of the queue from `Tail` up to `Head` are the blocks that wait to be parsed.  Element
`n` is kept in buffer `n`, and `_DtvCC_PutServiceDataToFIFO` writes the buffer at `Head`, so a put
leaves the waiting blocks alone.

## Key results

- `searchCmd_isSome`: what one search stops at, another that stops there does not miss
- `behindCmd_isSome`: a command is found in whole items exactly when it is one of them
- `Obj.Queued.insert`: a put adds a block, unless the queue is full
- `Obj.Queued.get_cons`, `Obj.Queued.remove`: blocks are taken in order
-/

namespace Tntsat.Cc708

/-- The data of a service block. -/
structure ServiceData where
  bytes : List UInt8
  pos : 0 < bytes.length := by decide
  le : bytes.length ≤ 31 := by decide
deriving DecidableEq

/-- The code at which the command table has `_DtvCC_DelayCmd`. -/
def C1_DLY : UInt8 := 0x8d

/-- The bytes behind the first complete command `code`. -/
def behindCmd (code : UInt8) (bytes : List UInt8) : Option (List UInt8) :=
  match searchCmd (fun b => b = code) bytes.length bytes with
  | (n, some _) => some (bytes.drop (n + (cmdMap code).u8CMDLen))
  | (_, none) => none

/-- The bytes of the command at the end that has not all of its bytes. -/
def unfinished (bytes : List UInt8) : List UInt8 :=
  bytes.drop (checkSvcBlockDataIntegrality bytes)

/-- The unfinished command of the stream behind blocks. -/
def unfinishedOf (blocks : List (List UInt8)) : List UInt8 :=
  blocks.foldl (fun held block => unfinished (held ++ block)) []

theorem unfinishedOf_concat (blocks : List (List UInt8)) (block : List UInt8) :
    unfinishedOf (blocks ++ [block]) = unfinished (unfinishedOf blocks ++ block) := by
  simp [unfinishedOf, List.foldl_append]

/-! ## Searches -/

/-- What one search stops at, another that stops there does not miss. -/
theorem searchCmd_isSome {stop stop' : UInt8 → Bool} {c : UInt8} (hc : stop' c = true)
    (fuel : Nat) (bytes : List UInt8) (h : (searchCmd stop fuel bytes).2 = some c) :
    (searchCmd stop' fuel bytes).2.isSome := by
  induction fuel generalizing bytes with
  | zero => simp [searchCmd] at h
  | succ fuel ih =>
    cases bytes with
    | nil => simp [searchCmd] at h
    | cons d rest =>
      rw [searchCmd] at h ⊢
      by_cases hcmd : IsCmd d
      · rw [if_pos hcmd] at h ⊢
        by_cases hcut : rest.length + 1 < cmdLen (d :: rest) (rest.length + 1)
        · simp [hcut] at h
        · by_cases hstop' : stop' d
          · simp [hcut, hstop']
          · -- The first search goes on: it would have stopped at `c` itself.
            have hstop : ¬stop d := by
              intro hstop
              simp only [hcut, hstop, if_true, if_false, Option.some.injEq] at h
              exact hstop' (h ▸ hc)
            simp only [hcut, hstop, hstop', if_false, Bool.false_eq_true] at h ⊢
            exact ih _ h
      · rw [if_neg hcmd] at h ⊢
        exact ih _ h

theorem length_behindCmd {code : UInt8} {bytes rest : List UInt8}
    (h : behindCmd code bytes = some rest) (hbytes : bytes ≠ []) : rest.length < bytes.length := by
  have hpos := List.length_pos_iff.mpr hbytes
  have hlen := cmdMap_len_pos code
  unfold behindCmd at h
  split at h
  · rw [← Option.some.inj h, List.length_drop]
    omega
  · cases h

/-- What a search stops at is one of the bytes. -/
theorem searchCmd_mem {stop : UInt8 → Bool} {c : UInt8} (fuel : Nat) (bytes : List UInt8)
    (h : (searchCmd stop fuel bytes).2 = some c) : c ∈ bytes ∧ stop c = true := by
  induction fuel generalizing bytes with
  | zero => simp [searchCmd] at h
  | succ fuel ih =>
    cases bytes with
    | nil => simp [searchCmd] at h
    | cons d rest =>
      rw [searchCmd] at h
      by_cases hcmd : IsCmd d
      · rw [if_pos hcmd] at h
        by_cases hcut : rest.length + 1 < cmdLen (d :: rest) (rest.length + 1)
        · simp [hcut] at h
        · by_cases hstop : stop d
          · simp only [hcut, hstop, if_true, if_false, Option.some.injEq] at h
            exact ⟨h ▸ List.mem_cons_self, h ▸ hstop⟩
          · simp only [hcut, hstop, if_false, Bool.false_eq_true] at h
            obtain ⟨hmem, hc⟩ := ih _ h
            exact ⟨List.mem_of_mem_drop hmem, hc⟩
      · rw [if_neg hcmd] at h
        obtain ⟨hmem, hc⟩ := ih _ h
        exact ⟨List.mem_cons_of_mem _ hmem, hc⟩

/-- A command is not found where its code is no byte. -/
theorem behindCmd_of_notMem {code : UInt8} {bytes : List UInt8} (h : code ∉ bytes) :
    behindCmd code bytes = none := by
  unfold behindCmd
  split
  · rename_i n c hsearch
    obtain ⟨hmem, hc⟩ := searchCmd_mem _ _ (congrArg Prod.snd hsearch)
    exact absurd (of_decide_eq_true hc ▸ hmem) h
  · rfl

/-- The item is the command `code`. -/
def Item.Is (code : UInt8) : Item → Bool
  | .char _ _ => false
  | .cmd c => c.code = code

theorem searchItems_any (stop : UInt8 → Bool) (its : List Item) :
    (searchItems stop its).2.isSome =
      its.any fun
        | .char _ _ => false
        | .cmd c => stop c.code := by
  induction its with
  | nil => rfl
  | cons i its ih =>
    cases i with
    | char b h => simp [searchItems, ih]
    | cmd c =>
      by_cases hstop : stop c.code
      · simp [searchItems, hstop]
      · simp [searchItems, hstop, ih]

/-- A command is found in whole items exactly when it is one of them. -/
theorem behindCmd_isSome (code : UInt8) (its : List Item) :
    (behindCmd code (streamBytes its)).isSome = its.any (Item.Is code) := by
  have hany := searchItems_any (fun b => b = code) its
  rw [← searchCmd_items (fun b => b = code) its _ (Nat.le_refl _)] at hany
  change _ = its.any (Item.Is code) at hany
  rw [← hany]
  unfold behindCmd
  cases searchCmd (fun b => b = code) (streamBytes its).length (streamBytes its) with
  | mk n found => cases found <;> rfl

/-- Among whole items without a Reset a Delay Cancel is found, if there is one. -/
theorem detectRstDcCmd_items {its : List Item}
    (hreset : behindCmd C1_RST (streamBytes its) = none) :
    (detectRstDcCmd (streamBytes its)).2 =
      if (behindCmd C1_DLC (streamBytes its)).isSome then C1_DLC else C0_NUL := by
  have hnone : its.any (Item.Is C1_RST) = false := by
    rw [← behindCmd_isSome, hreset]
    rfl
  rw [behindCmd_isSome]
  simp only [detectRstDcCmd, searchCmd_items _ its _ (Nat.le_refl _)]
  clear hreset
  induction its with
  | nil => rfl
  | cons i its ih =>
    rw [List.any_cons, Bool.or_eq_false_iff] at hnone
    cases i with
    | char b h => simpa [searchItems, Item.Is] using ih hnone.2
    | cmd c =>
      have hcode : c.code ≠ C1_RST := by simpa [Item.Is] using hnone.1
      by_cases hdlc : c.code = C1_DLC
      · simp [searchItems, Item.Is, hdlc]
      · simpa [searchItems, Item.Is, hdlc, hcode] using ih hnone.2

/-- Blocks of whole items leave no command unfinished. -/
theorem unfinishedOf_whole {blocks : List (List UInt8)} (h : ∀ block ∈ blocks, Whole block) :
    unfinishedOf blocks = [] := by
  induction blocks with
  | nil => rfl
  | cons block blocks ih =>
    have hwhole : Whole block := h block List.mem_cons_self
    have hstep : unfinished ([] ++ block) = [] := by
      rw [List.nil_append, unfinished, hwhole, List.drop_length]
    rw [unfinishedOf, List.foldl_cons, hstep]
    exact ih fun b hb => h b (List.mem_cons_of_mem _ hb)

/-! ## The queue -/

/-- Element `n` is a block, kept in buffer `n`. -/
def Obj.Slot (o : Obj) (n : Nat) (block : List UInt8) : Prop :=
  o.stServiceQueue.Element n = { pu8Buffer := n, u8ServiceLen := block.length } ∧
    (o.au8ServiceData n).take block.length = block

/-- The blocks that wait in the service queue, oldest first. -/
structure Obj.Queued (o : Obj) (blocks : List (List UInt8)) : Prop where
  size : o.stServiceQueue.Size = SERVICE_QUEUE_SIZE
  tail : o.stServiceQueue.Tail < SERVICE_QUEUE_SIZE
  room : blocks.length < SERVICE_QUEUE_SIZE
  head : o.stServiceQueue.Head = (o.stServiceQueue.Tail + blocks.length) % SERVICE_QUEUE_SIZE
  slot : ∀ i (h : i < blocks.length),
    o.Slot ((o.stServiceQueue.Tail + i) % SERVICE_QUEUE_SIZE) blocks[i]

namespace Obj.Queued

variable {o o' : Obj} {block : List UInt8} {blocks : List (List UInt8)}

/-- The queue and its buffers are all that matters. -/
theorem congr (h : o.Queued blocks) (hqueue : o'.stServiceQueue = o.stServiceQueue)
    (hdata : o'.au8ServiceData = o.au8ServiceData) : o'.Queued blocks := by
  refine ⟨hqueue ▸ h.size, hqueue ▸ h.tail, h.room, hqueue ▸ h.head, fun i hi => ?_⟩
  have hslot := h.slot i hi
  rw [Obj.Slot, hqueue, hdata]
  exact hslot

theorem head_eq (h : o.Queued blocks) :
    o.stServiceQueue.Head =
      if o.stServiceQueue.Tail + blocks.length < SERVICE_QUEUE_SIZE then
        o.stServiceQueue.Tail + blocks.length
      else o.stServiceQueue.Tail + blocks.length - SERVICE_QUEUE_SIZE := by
  have htail := h.tail
  have hroom := h.room
  rw [h.head, wrap_eq (by omega)]

theorem getItemNum (h : o.Queued blocks) : o.stServiceQueue.getItemNum = blocks.length := by
  have hhead := h.head_eq
  have htail := h.tail
  have hroom := h.room
  unfold TriQueue.getItemNum
  rw [h.size]
  split at hhead <;> split <;> omega

theorem tail_ne_head (h : o.Queued (block :: blocks)) :
    o.stServiceQueue.Tail ≠ o.stServiceQueue.Head := by
  have hhead := h.head_eq
  have htail := h.tail
  have hroom := h.room
  rw [List.length_cons] at hhead hroom
  split at hhead <;> omega

/-- The oldest block is taken first. -/
theorem get_cons (h : o.Queued (block :: blocks)) :
    o.stServiceQueue.get = some ⟨o.stServiceQueue.Tail, block.length⟩ ∧
      (o.au8ServiceData o.stServiceQueue.Tail).take block.length = block := by
  obtain ⟨helement, hdata⟩ := h.slot 0 (Nat.succ_pos _)
  rw [Nat.add_zero, Nat.mod_eq_of_lt h.tail] at helement hdata
  rw [TriQueue.get, if_neg h.tail_ne_head, helement]
  exact ⟨rfl, hdata⟩

theorem remove (h : o.Queued (block :: blocks)) :
    Obj.Queued { o with stServiceQueue := o.stServiceQueue.remove } blocks := by
  have hremove : o.stServiceQueue.remove =
      { o.stServiceQueue with
        Tail := (o.stServiceQueue.Tail + 1) % SERVICE_QUEUE_SIZE } := by
    simp only [TriQueue.remove, if_neg h.tail_ne_head, h.size]
  have hroom := h.room
  rw [List.length_cons] at hroom
  -- Counted from the next element on, every element comes one earlier.
  have hshift : ∀ i, ((o.stServiceQueue.Tail + 1) % SERVICE_QUEUE_SIZE + i) % SERVICE_QUEUE_SIZE =
      (o.stServiceQueue.Tail + (i + 1)) % SERVICE_QUEUE_SIZE := by
    intro i
    rw [Nat.mod_add_mod, Nat.add_assoc, Nat.add_comm 1 i]
  refine ⟨?_, ?_, by omega, ?_, fun i hi => ?_⟩
  · simpa only [hremove] using h.size
  · simp only [hremove]
    exact Nat.mod_lt _ (by decide)
  · simp only [hremove, hshift]
    exact h.head
  · have hslot := h.slot (i + 1) (Nat.succ_lt_succ hi)
    simp only [Obj.Slot, hremove, hshift]
    exact hslot

/-- A put adds a block to a queue that is not full, and leaves the delay alone. -/
theorem insert (h : o.Queued blocks) (hroom : blocks.length + 1 < SERVICE_QUEUE_SIZE)
    (hpos : 0 < block.length) :
    (insertServiceData block o).Queued (blocks ++ [block]) ∧
      (insertServiceData block o).u8IsDelay = o.u8IsDelay ∧
      (insertServiceData block o).delayTimer = o.delayTimer := by
  have hhead := h.head_eq
  have htail := h.tail
  have hsize := h.size
  have hnext : (o.stServiceQueue.Head + 1) % SERVICE_QUEUE_SIZE =
      (o.stServiceQueue.Tail + (blocks.length + 1)) % SERVICE_QUEUE_SIZE := by
    rw [h.head, Nat.mod_add_mod, Nat.add_assoc]
  have hfree : (o.stServiceQueue.Head + 1) % SERVICE_QUEUE_SIZE ≠ o.stServiceQueue.Tail := by
    rw [hnext, wrap_eq (by omega)]
    split <;> omega
  simp only [insertServiceData, if_pos hpos, TriQueue.insert, hsize, if_neg hfree]
  refine ⟨⟨rfl, htail, ?_, ?_, fun i hi => ?_⟩, trivial, trivial⟩
  · rw [List.length_append, List.length_singleton]
    exact hroom
  · simp only [List.length_append, List.length_singleton]
    exact hnext
  · rw [List.length_append, List.length_singleton] at hi
    simp only [Obj.Slot]
    by_cases hlast : i = blocks.length
    · subst hlast
      rw [← h.head, List.getElem_concat_length rfl]
      simp [memcpy]
    · -- The waiting blocks are not at `Head`.
      have hne : (o.stServiceQueue.Tail + i) % SERVICE_QUEUE_SIZE ≠ o.stServiceQueue.Head := by
        rw [h.head]
        exact wrap_ne (by omega) (by omega)
      rw [if_neg hne, if_neg hne, List.getElem_append_left (by omega)]
      exact h.slot i (by omega)

/-- A queue with a single free element is full. -/
theorem full_iff (h : o.Queued blocks) :
    (o.stServiceQueue.Head + 1) % o.stServiceQueue.Size = o.stServiceQueue.Tail ↔
      blocks.length + 1 = SERVICE_QUEUE_SIZE := by
  have htail := h.tail
  have hroom := h.room
  rw [h.size, h.head, Nat.mod_add_mod, Nat.add_assoc, wrap_eq (by omega)]
  split <;> omega

end Obj.Queued

end Tntsat.Cc708
