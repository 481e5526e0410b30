import Tntsat.Native.Cc708

/-!
# The items of a CEA-708 service stream

A service stream is made of caption characters and of commands.  `play` is what the items of
a stream do one after another, and `parseCmds_items` says that the loop of
`_DtvCC_ParseServiceBlock` does that on a block of whole items.

## Key results

- `exists_items`: a block that passes `_DtvCC_CheckSvcBlockDataIntegrality` has whole items
- `parseServiceBlock_items`: such a block is played
- `searchCmd_items`: the searches look at the codes of the items
-/

namespace Tntsat.Cc708

/-! ## Lengths of commands -/

theorem get8_of_take_eq {p q : List UInt8} {n i : Nat} (h : q.take n = p.take n) (hi : i < n) :
    get8 q i = get8 p i := by
  have hget : (q.take n)[i]? = (p.take n)[i]? := by rw [h]
  rw [List.getElem?_take_of_lt hi, List.getElem?_take_of_lt hi] at hget
  simp only [get8, List.getD_eq_getElem?_getD, hget]

theorem take_take_self (n : Nat) (p : List UInt8) : (p.take n).take n = p.take n := by
  rw [List.take_take, Nat.min_self]

theorem cmdMap_len_pos (b : UInt8) : 0 < (cmdMap b).u8CMDLen := by
  have hall : ∀ m ∈ dtvccCmdMap, 0 < m.u8CMDLen := by decide
  simp only [cmdMap, List.getD_eq_getElem?_getD]
  cases hget : dtvccCmdMap[((b &&& 0x80) >>> 2 ||| (b &&& 0x1f)).toNat]? with
  | none => exact Nat.one_pos
  | some m => exact hall m (List.mem_of_getElem? hget)

/-- The second byte of an extended command tells its length, or that the third byte does. -/
theorem getEXT1CmdLen_cases (b : UInt8) :
    (∃ k, 2 ≤ k ∧ ∀ p n, get8 p 1 = b → getEXT1CmdLen p n = k) ∨
      ∀ p n, get8 p 1 = b →
        getEXT1CmdLen p n = if 3 ≤ n then (get8 p 2 &&& 0x3f).toNat + 3 else n + 1 := by
  -- one case for each branch of the source
  by_cases h1 : b ≤ 0x07
  · exact .inl ⟨2, by decide, fun p n hb => by simp only [getEXT1CmdLen, hb, if_pos h1]⟩
  by_cases h2 : b ≤ 0x0f
  · exact .inl ⟨3, by decide, fun p n hb => by simp only [getEXT1CmdLen, hb, if_neg h1, if_pos h2]⟩
  by_cases h3 : b ≤ 0x17
  · exact .inl ⟨4, by decide, fun p n hb => by
      simp only [getEXT1CmdLen, hb, if_neg h1, if_neg h2, if_pos h3]⟩
  by_cases h4 : b ≤ 0x1f
  · exact .inl ⟨5, by decide, fun p n hb => by
      simp only [getEXT1CmdLen, hb, if_neg h1, if_neg h2, if_neg h3, if_pos h4]⟩
  by_cases h5 : 0x80 ≤ b ∧ b ≤ 0x87
  · exact .inl ⟨6, by decide, fun p n hb => by
      simp only [getEXT1CmdLen, hb, if_neg h1, if_neg h2, if_neg h3, if_neg h4, if_pos h5]⟩
  by_cases h6 : 0x88 ≤ b ∧ b ≤ 0x8f
  · exact .inl ⟨7, by decide, fun p n hb => by
      simp only [getEXT1CmdLen, hb, if_neg h1, if_neg h2, if_neg h3, if_neg h4, if_neg h5,
        if_pos h6]⟩
  by_cases h7 : b &&& 0xf0 = 0x90
  · exact .inr fun p n hb => by
      simp only [getEXT1CmdLen, hb, if_neg h1, if_neg h2, if_neg h3, if_neg h4, if_neg h5,
        if_neg h6, if_pos h7]
  · exact .inl ⟨2, by decide, fun p n hb => by
      simp only [getEXT1CmdLen, hb, if_neg h1, if_neg h2, if_neg h3, if_neg h4, if_neg h5,
        if_neg h6, if_neg h7]⟩

theorem two_le_getEXT1CmdLen (p : List UInt8) (n : Nat) (hn : 0 < n) : 2 ≤ getEXT1CmdLen p n := by
  cases getEXT1CmdLen_cases (get8 p 1) with
  | inl hfixed =>
    obtain ⟨k, hk, hlen⟩ := hfixed
    rwa [hlen p n rfl]
  | inr hlen =>
    rw [hlen p n rfl]
    split <;> omega

theorem cmdLen_pos (p : List UInt8) (n : Nat) (hn : 0 < n) : 0 < cmdLen p n := by
  unfold cmdLen
  split
  · have := two_le_getEXT1CmdLen p n hn
    omega
  · exact cmdMap_len_pos _

/-- The length of a complete command is found by its own bytes. -/
theorem getEXT1CmdLen_congr {p q : List UInt8} {m n : Nat} (hm : getEXT1CmdLen p m ≤ m)
    (hn : getEXT1CmdLen p m ≤ n)
    (h : q.take (getEXT1CmdLen p m) = p.take (getEXT1CmdLen p m)) (hpos : 0 < m) :
    getEXT1CmdLen q n = getEXT1CmdLen p m := by
  have htwo := two_le_getEXT1CmdLen p m hpos
  have hcode : get8 q 1 = get8 p 1 := get8_of_take_eq h (by omega)
  cases getEXT1CmdLen_cases (get8 p 1) with
  | inl hfixed =>
    obtain ⟨k, -, hlen⟩ := hfixed
    rw [hlen p m rfl, hlen q n hcode]
  | inr hlen =>
    -- a variable length stands in the third byte
    rw [hlen p m rfl] at hm hn h
    rw [hlen p m rfl, hlen q n hcode]
    have hthree : 3 ≤ m := by
      by_contra hlt
      rw [if_neg hlt] at hm
      omega
    rw [if_pos hthree] at hn h ⊢
    rw [if_pos (by omega), get8_of_take_eq h (by omega)]

theorem cmdLen_congr {p q : List UInt8} {m n : Nat} (hm : cmdLen p m ≤ m) (hn : cmdLen p m ≤ n)
    (h : q.take (cmdLen p m) = p.take (cmdLen p m)) (hpos : 0 < m) : cmdLen q n = cmdLen p m := by
  have hcode : get8 q 0 = get8 p 0 := get8_of_take_eq h (cmdLen_pos p m hpos)
  unfold cmdLen at hm hn h ⊢
  rw [hcode]
  by_cases hext : get8 p 0 = C0_EXT1
  · simp only [if_pos hext] at hm hn h ⊢
    exact getEXT1CmdLen_congr hm hn h hpos
  · simp only [if_neg hext]

/-! ## Items -/

/-- A command with all of its bytes. -/
structure Command where
  bytes : List UInt8
  isCmd : IsCmd (get8 bytes 0)
  complete : cmdLen bytes bytes.length = bytes.length

namespace Command

/-- The code of a command, its first byte. -/
def code (c : Command) : UInt8 := get8 c.bytes 0

theorem length_pos (c : Command) : 0 < c.bytes.length := by
  rw [List.length_pos_iff]
  intro hnil
  have hlen := c.complete
  rw [hnil] at hlen
  exact absurd hlen (by decide)

/-- The first byte of what starts with a command. -/
theorem get8_append (c : Command) (p : List UInt8) : get8 (c.bytes ++ p) 0 = c.code :=
  get8_of_take_eq (n := 1) (by simp [List.take_append_of_le_length c.length_pos]) Nat.one_pos

/-- The length of a command does not depend on what follows it. -/
theorem cmdLen_append (c : Command) (p : List UInt8) {n : Nat} (hn : c.bytes.length ≤ n) :
    cmdLen (c.bytes ++ p) n = c.bytes.length := by
  have hlen := cmdLen_congr (p := c.bytes) (q := c.bytes ++ p) (m := c.bytes.length) (n := n)
    (by simp [c.complete]) (by rwa [c.complete]) (by simp [c.complete]) c.length_pos
  rw [hlen, c.complete]

/-- A command that is complete among the `n` bytes at `p`. -/
def ofBytes (p : List UInt8) (n : Nat) (h : IsCmd (get8 p 0)) (hn : cmdLen p n ≤ n)
    (hp : n ≤ p.length) (hpos : 0 < n) : Command where
  bytes := p.take (cmdLen p n)
  isCmd := by
    rwa [get8_of_take_eq (p := p) (n := cmdLen p n) (take_take_self _ p) (cmdLen_pos p n hpos)]
  complete := by
    rw [List.length_take, Nat.min_eq_left (Nat.le_trans hn hp)]
    exact cmdLen_congr hn (Nat.le_refl _) (take_take_self _ p) hpos

end Command

/-- What a service stream is made of. -/
inductive Item
  | char (b : UInt8) (h : ¬IsCmd b)
  | cmd (c : Command)

/-- The bytes of an item. -/
def Item.bytes : Item → List UInt8
  | char b _ => [b]
  | cmd c => c.bytes

/-- The bytes of a stream. -/
def streamBytes (its : List Item) : List UInt8 := its.flatMap Item.bytes

@[simp] theorem streamBytes_nil : streamBytes [] = [] := rfl

@[simp] theorem streamBytes_char (b : UInt8) (h : ¬IsCmd b) (its : List Item) :
    streamBytes (.char b h :: its) = b :: streamBytes its := rfl

@[simp] theorem streamBytes_cmd (c : Command) (its : List Item) :
    streamBytes (.cmd c :: its) = c.bytes ++ streamBytes its := rfl

@[simp] theorem streamBytes_append (its jts : List Item) :
    streamBytes (its ++ jts) = streamBytes its ++ streamBytes jts := List.flatMap_append

/-! ## The searches -/

/-- `searchCmd` on whole items. -/
def searchItems (stop : UInt8 → Bool) : List Item → Nat × Option UInt8
  | [] => (0, none)
  | .char _ _ :: its => (1 + (searchItems stop its).1, (searchItems stop its).2)
  | .cmd c :: its =>
    if stop c.code then (0, some c.code)
    else (c.bytes.length + (searchItems stop its).1, (searchItems stop its).2)

theorem searchCmd_command (stop : UInt8 → Bool) (fuel : Nat) (c : Command) (p : List UInt8) :
    searchCmd stop (fuel + 1) (c.bytes ++ p) =
      if stop c.code then (0, some c.code)
      else (c.bytes.length + (searchCmd stop fuel p).1, (searchCmd stop fuel p).2) := by
  have hpos := c.length_pos
  obtain ⟨u8Data, rest, hrest⟩ := List.exists_cons_of_length_pos
    (show 0 < (c.bytes ++ p).length by rw [List.length_append]; omega)
  have hlen : rest.length + 1 = c.bytes.length + p.length := by
    have := congrArg List.length hrest
    simpa using this.symm
  have hcode : u8Data = c.code := by
    rw [← c.get8_append p, hrest]
    rfl
  have hcmd : cmdLen (u8Data :: rest) (rest.length + 1) = c.bytes.length := by
    rw [← hrest]
    exact c.cmdLen_append _ (by omega)
  have hisCmd : IsCmd u8Data := hcode ▸ c.isCmd
  rw [hrest]
  simp only [searchCmd, hcmd]
  rw [if_pos hisCmd, if_neg (by omega), ← hrest, List.drop_left, hcode]

/-- The search for a command looks at the codes of the items. -/
theorem searchCmd_items (stop : UInt8 → Bool) (its : List Item) (fuel : Nat)
    (hfuel : (streamBytes its).length ≤ fuel) :
    searchCmd stop fuel (streamBytes its) = searchItems stop its := by
  induction its generalizing fuel with
  | nil => cases fuel <;> rfl
  | cons i its ih =>
    cases i with
    | char b h =>
      rw [streamBytes_char, List.length_cons] at hfuel
      obtain ⟨fuel, rfl⟩ := Nat.exists_eq_add_one_of_ne_zero (show fuel ≠ 0 by omega)
      simp only [streamBytes_char, searchCmd, if_neg h, searchItems, ih fuel (by omega)]
    | cmd c =>
      have hpos := c.length_pos
      rw [streamBytes_cmd, List.length_append] at hfuel
      obtain ⟨fuel, rfl⟩ := Nat.exists_eq_add_one_of_ne_zero (show fuel ≠ 0 by omega)
      simp only [streamBytes_cmd, searchCmd_command, searchItems, ih fuel (by omega)]

/-- A block that passes `_DtvCC_CheckSvcBlockDataIntegrality` has whole items. -/
theorem exists_items_of_search (fuel : Nat) (b : List UInt8) (hfuel : b.length ≤ fuel)
    (h : (searchCmd (fun _ => false) fuel b).1 = b.length) : ∃ its, streamBytes its = b := by
  induction fuel generalizing b with
  | zero => exact ⟨[], (List.length_eq_zero_iff.mp (Nat.le_zero.mp hfuel)).symm⟩
  | succ fuel ih =>
    cases b with
    | nil => exact ⟨[], rfl⟩
    | cons u8Data rest =>
      simp only [List.length_cons] at hfuel h
      unfold searchCmd at h
      -- the search goes on behind a complete command, or behind a character
      by_cases hcmd : IsCmd u8Data
      · simp only [if_pos hcmd] at h
        split at h
        · simp at h
        · rename_i hlen
          simp only [Bool.false_eq_true, if_false] at h
          -- the rest is shorter, as a command has a byte
          have hpos := cmdLen_pos (u8Data :: rest) (rest.length + 1) (Nat.succ_pos _)
          have hdrop : ((u8Data :: rest).drop (cmdLen (u8Data :: rest) (rest.length + 1))).length =
              rest.length + 1 - cmdLen (u8Data :: rest) (rest.length + 1) := by simp
          obtain ⟨its, hits⟩ := ih ((u8Data :: rest).drop _) (by rw [hdrop]; omega)
            (by rw [hdrop]; omega)
          refine ⟨.cmd (Command.ofBytes (u8Data :: rest) (rest.length + 1) hcmd (by omega)
            (Nat.le_refl _) (Nat.succ_pos _)) :: its, ?_⟩
          rw [streamBytes_cmd, hits]
          exact List.take_append_drop _ _
      · simp only [if_neg hcmd] at h
        obtain ⟨its, hits⟩ := ih rest (by omega) (by omega)
        exact ⟨.char u8Data hcmd :: its, by rw [streamBytes_char, hits]⟩

/-- A block of whole commands and characters. -/
def Whole (block : List UInt8) : Prop := checkSvcBlockDataIntegrality block = block.length

instance (block : List UInt8) : Decidable (Whole block) := inferInstanceAs (Decidable (_ = _))

theorem exists_items {block : List UInt8} (h : Whole block) : ∃ its, streamBytes its = block :=
  exists_items_of_search _ block (Nat.le_refl _) h

/-! ## What the items do -/

variable (t : Ksc5601)

/-- What an item does. -/
def Item.run : Item → Obj → Obj × List Event
  | char b _, o => (o.store (if b = 0x7f then 0x266a else b.toUInt16), [])
  | cmd c, o =>
    let r := drawCaption c.code o
    let d := callDecoder t (cmdMap c.code).pfnCmdDecoder c.bytes r.1
    (d.1, r.2 ++ d.2)

/-- What the items of a stream do one after another. -/
def play : List Item → Obj → Obj × List Event
  | [], o => (o, [])
  | i :: its, o =>
    let r := i.run t o
    let rest := play its r.1
    (rest.1, r.2 ++ rest.2)

theorem play_append (its jts : List Item) (o : Obj) :
    play t (its ++ jts) o =
      ((play t jts (play t its o).1).1, (play t its o).2 ++ (play t jts (play t its o).1).2) := by
  induction its generalizing o with
  | nil => rfl
  | cons i its ih => simp [play, ih]

/-- A decoder reads the bytes of its command. -/
theorem cmdMap_size {b : UInt8} {d : Decoder} (h : (cmdMap b).pfnCmdDecoder = some d) :
    d.size = (cmdMap b).u8CMDLen := by
  have hall : ∀ m ∈ dtvccCmdMap, ∀ d, m.pfnCmdDecoder = some d → d.size = m.u8CMDLen := by
    simp [dtvccCmdMap, Decoder.size]
  simp only [cmdMap, List.getD_eq_getElem?_getD] at h ⊢
  cases hget : dtvccCmdMap[((b &&& 0x80) >>> 2 ||| (b &&& 0x1f)).toNat]? with
  | none => rw [hget] at h; simp at h
  | some m =>
    rw [hget] at h
    exact hall m (List.mem_of_getElem? hget) d h

theorem Decoder.run_congr {p q : List UInt8} (d : Decoder) (h : q.take d.size = p.take d.size)
    (o : Obj) : d.run t q o = d.run t p o := by
  cases d <;> try rfl
  case ext1Cmd =>
    have h1 : get8 q 1 = get8 p 1 := get8_of_take_eq h (by decide)
    simp only [Decoder.run, Cc708.ext1Cmd, h1]
  case p16Cmd =>
    have h1 : get8 q 1 = get8 p 1 := get8_of_take_eq h (by decide)
    have h2 : get8 q 2 = get8 p 2 := get8_of_take_eq h (by decide)
    simp only [Decoder.run, Cc708.p16Cmd, p16Unicode, h1, h2]
  case delayCmd =>
    have h1 : get8 q 1 = get8 p 1 := get8_of_take_eq h (by decide)
    simp only [Decoder.run, Cc708.delayCmd, h1]

theorem Command.cmdMap_len_le (c : Command) : (cmdMap c.code).u8CMDLen ≤ c.bytes.length := by
  have hlen := c.complete
  unfold cmdLen at hlen
  change (if c.code = C0_EXT1 then _ else (cmdMap c.code).u8CMDLen) = _ at hlen
  split at hlen
  · rename_i hext
    have htwo := two_le_getEXT1CmdLen c.bytes c.bytes.length c.length_pos
    have hmap : (cmdMap C0_EXT1).u8CMDLen = 2 := by decide
    rw [hext, hmap]
    omega
  · omega

/-- A decoder is called the same way whatever follows the command. -/
theorem Command.callDecoder_append (c : Command) (p : List UInt8) (o : Obj) :
    callDecoder t (cmdMap c.code).pfnCmdDecoder (c.bytes ++ p) o =
      callDecoder t (cmdMap c.code).pfnCmdDecoder c.bytes o := by
  cases hd : (cmdMap c.code).pfnCmdDecoder with
  | none => rfl
  | some d =>
    have hsize : d.size ≤ c.bytes.length := by
      rw [cmdMap_size hd]
      exact c.cmdMap_len_le
    have htake : (c.bytes ++ p).take d.size = c.bytes.take d.size :=
      List.take_append_of_le_length hsize
    simp only [callDecoder, d.run_congr t htake, htake]

/-- The loop of `_DtvCC_ParseServiceBlock` plays whole items, whatever lies behind them. -/
theorem parseCmds_items (its : List Item) (tail : List UInt8) (fuel : Nat) (o : Obj)
    (hfuel : (streamBytes its).length ≤ fuel) :
    parseCmds t fuel (streamBytes its ++ tail) (streamBytes its).length o = play t its o := by
  induction its generalizing fuel o with
  | nil => cases fuel <;> simp [parseCmds, play]
  | cons i its ih =>
    cases i with
    -- each item takes one round
    | char b h =>
      rw [streamBytes_char, List.length_cons] at hfuel ⊢
      obtain ⟨fuel, rfl⟩ := Nat.exists_eq_add_one_of_ne_zero (show fuel ≠ 0 by omega)
      have hget : get8 (b :: streamBytes its ++ tail) 0 = b := rfl
      simp only [parseCmds, hget, if_neg h, play, Item.run, Nat.succ_ne_zero, if_false]
      simp only [List.cons_append, List.drop_succ_cons, List.drop_zero, Nat.add_sub_cancel,
        List.nil_append, ih fuel _ (by omega)]
    | cmd c =>
      have hpos := c.length_pos
      rw [streamBytes_cmd, List.length_append] at hfuel ⊢
      obtain ⟨fuel, rfl⟩ := Nat.exists_eq_add_one_of_ne_zero (show fuel ≠ 0 by omega)
      have hget : get8 (c.bytes ++ streamBytes its ++ tail) 0 = c.code := by
        rw [List.append_assoc, c.get8_append]
      have hlen : cmdLen (c.bytes ++ streamBytes its ++ tail)
          (c.bytes.length + (streamBytes its).length) = c.bytes.length := by
        rw [List.append_assoc]
        exact c.cmdLen_append _ (by omega)
      have hisCmd : IsCmd c.code := c.isCmd
      simp only [parseCmds, hget, hlen, play, Item.run]
      rw [if_neg (by omega), if_pos hisCmd, if_neg (by omega), Nat.add_sub_cancel_left,
        List.append_assoc, c.callDecoder_append, List.drop_left, ih fuel _ (by omega)]

/-- Nothing of a command waits for the next block. -/
def Obj.Clear (o : Obj) : Prop := o.stCMDBuffer = {}

/-- With a clear command buffer a block is parsed from its first byte on. -/
theorem parseServiceBlock_clear {o : Obj} (hclear : o.Clear) (p : List UInt8) (n : Nat) :
    parseServiceBlock t p n o = parseCmds t n p n o := by
  unfold parseServiceBlock
  split
  · rename_i hn
    rw [hn]
    rfl
  · have hbuf : ¬o.stCMDBuffer.u8CurSize < o.stCMDBuffer.u8TotalSize := by
      rw [hclear]
      decide
    simp only [if_neg hbuf]
    congr 1
    rw [Obj.Clear] at hclear
    cases o
    simp only at hclear
    subst hclear
    rfl

/-- A block of whole items is played. -/
theorem parseServiceBlock_items (its : List Item) (tail : List UInt8) (o : Obj)
    (hclear : o.Clear) :
    parseServiceBlock t (streamBytes its ++ tail) (streamBytes its).length o = play t its o := by
  rw [parseServiceBlock_clear t hclear, parseCmds_items t its tail _ o (Nat.le_refl _)]

/-! ## What the items leave alone -/

theorem drawCaption_frame (b : UInt8) (o : Obj) :
    (drawCaption b o).1 = { o with stCaptionBuf := (drawCaption b o).1.stCaptionBuf } := by
  unfold drawCaption
  split <;> rfl

theorem ext1Cmd_frame (p : List UInt8) (o : Obj) :
    Cc708.ext1Cmd p o = { o with stCaptionBuf := (Cc708.ext1Cmd p o).stCaptionBuf } := by
  unfold Cc708.ext1Cmd
  simp only
  split_ifs <;> rfl

theorem p16Cmd_frame (p : List UInt8) (o : Obj) :
    Cc708.p16Cmd t p o = { o with stCaptionBuf := (Cc708.p16Cmd t p o).stCaptionBuf } := by
  unfold Cc708.p16Cmd
  split_ifs <;> rfl

/-- A command decoder works on the caption buffer, on the delay and on the service queue. -/
theorem callDecoder_frame (pfn : Option Decoder) (p : List UInt8) (o : Obj) :
    (callDecoder t pfn p o).1 =
      { o with
        stCaptionBuf := (callDecoder t pfn p o).1.stCaptionBuf
        u8IsDelay := (callDecoder t pfn p o).1.u8IsDelay
        delayTimer := (callDecoder t pfn p o).1.delayTimer
        stServiceQueue := (callDecoder t pfn p o).1.stServiceQueue } := by
  cases pfn with
  | none => rfl
  | some d =>
    cases d <;> try rfl
    case ext1Cmd =>
      simp only [callDecoder, Decoder.run]
      rw [ext1Cmd_frame]
    case p16Cmd =>
      simp only [callDecoder, Decoder.run]
      rw [p16Cmd_frame]

theorem Item.run_stCMDBuffer (i : Item) (o : Obj) : (i.run t o).1.stCMDBuffer = o.stCMDBuffer := by
  cases i with
  | char b h => rfl
  | cmd c => simp only [Item.run]; rw [callDecoder_frame, drawCaption_frame]

@[simp] theorem play_stCMDBuffer (its : List Item) (o : Obj) :
    (play t its o).1.stCMDBuffer = o.stCMDBuffer := by
  induction its generalizing o with
  | nil => rfl
  | cons i its ih => rw [play, ih, i.run_stCMDBuffer]

theorem Item.run_au8ServiceData (i : Item) (o : Obj) :
    (i.run t o).1.au8ServiceData = o.au8ServiceData := by
  cases i with
  | char b h => rfl
  | cmd c => simp only [Item.run]; rw [callDecoder_frame, drawCaption_frame]

@[simp] theorem play_au8ServiceData (its : List Item) (o : Obj) :
    (play t its o).1.au8ServiceData = o.au8ServiceData := by
  induction its generalizing o with
  | nil => rfl
  | cons i its ih => rw [play, ih, i.run_au8ServiceData]

end Tntsat.Cc708
