import Tntsat.Spec.Cc708Items

/-!
# Service blocks of a CEA-708 service stream

A service stream comes in blocks of at most 31 bytes, and a command may be cut between two of
them.  `_DtvCC_ParseServiceBlock` keeps the first part in its command buffer, but looks the
command up under the first byte of the second part, and skips the length it finds there.

## Key results

- `blocks_play`: blocks that end between two items do what the uncut stream does
- `cut_command`: what is called for a command that is cut
- `cut_p16`: a cut 16 bit character is lost
-/

namespace Tntsat.Cc708

variable (t : Ksc5601)

/-- A service block and what lies behind it in its buffer. -/
structure Block where
  data : List UInt8
  behind : List UInt8 := []

/-- Service blocks given to `_DtvCC_ParseServiceBlock` one after another. -/
def parseBlocks : List Block → Obj → Obj × List Event
  | [], o => (o, [])
  | b :: blocks, o =>
    let r := parseServiceBlock t (b.data ++ b.behind) b.data.length o
    let rest := parseBlocks blocks r.1
    (rest.1, r.2 ++ rest.2)

/-- The stream is cut into blocks of 1 to 31 bytes. -/
def Cut (stream : List UInt8) (blocks : List Block) : Prop :=
  blocks.flatMap Block.data = stream ∧
    ∀ b ∈ blocks, 1 ≤ b.data.length ∧ b.data.length ≤ 31

instance (stream : List UInt8) (blocks : List Block) : Decidable (Cut stream blocks) :=
  inferInstanceAs (Decidable (_ ∧ _))

/-- Blocks of whole items are played, whatever lies behind them. -/
theorem parseBlocks_items (blocks : List Block) (o : Obj) (hclear : o.Clear)
    (hwhole : ∀ b ∈ blocks, Whole b.data) :
    ∃ its, streamBytes its = blocks.flatMap Block.data ∧ parseBlocks t blocks o = play t its o := by
  induction blocks generalizing o with
  | nil => exact ⟨[], rfl, rfl⟩
  | cons b blocks ih =>
    obtain ⟨its, hits⟩ := exists_items (hwhole b List.mem_cons_self)
    have hparse := parseServiceBlock_items t its b.behind o hclear
    rw [hits] at hparse
    have hclear' : (play t its o).1.Clear := by
      rw [Obj.Clear, play_stCMDBuffer]
      exact hclear
    obtain ⟨jts, hjts, hrest⟩ := ih _ hclear' fun c hc => hwhole c (List.mem_cons_of_mem _ hc)
    refine ⟨its ++ jts, by simp [hits, hjts], ?_⟩
    simp only [parseBlocks, hparse, hrest, play_append]

/-- A stream of whole items calls the same decoders with the same parameters and draws the
    same captions in whatever blocks it comes, and does what its items do one after another,
    as long as every block ends between two items. -/
theorem blocks_play (its : List Item) (o : Obj) (blocks : List Block) (hclear : o.Clear)
    (hcut : Cut (streamBytes its) blocks) (hwhole : ∀ b ∈ blocks, Whole b.data) :
    (parseBlocks t blocks o).2 = (play t its o).2 ∧
      (parseServiceBlock t (streamBytes its) (streamBytes its).length o).2 =
        (play t its o).2 := by
  -- The items of the blocks need not be named: both lists have the same bytes.
  obtain ⟨jts, hjts, hblocks⟩ := parseBlocks_items t blocks o hclear hwhole
  have huncut := parseServiceBlock_items t its [] o hclear
  have huncut' := parseServiceBlock_items t jts [] o hclear
  rw [List.append_nil] at huncut huncut'
  rw [hjts, hcut.1, huncut] at huncut'
  exact ⟨by rw [hblocks, huncut'], by rw [huncut]⟩

/-- Tables of zeros, for streams without a character of KS C 5601. -/
def noKsc : Ksc5601 := ⟨fun _ => 0, fun _ => 0, fun _ => 0⟩

/-- A pen colour, two characters and the end of the text. -/
def penAndText : List Item :=
  [.cmd ⟨[0x91, 1, 2, 3], by decide, by decide⟩, .char 0x41 (by decide), .char 0x42 (by decide),
    .cmd ⟨[0x03], by decide, by decide⟩]

example : (play noKsc penAndText {}).2 =
    [.cmd .setPenColorCmd [0x91, 1, 2, 3], .draw [0x41, 0x42], .cmd .etxCmd [0x03]] := by
  decide +kernel

/-- `blocks_play` on three blocks. -/
theorem blocks_play_three :
    (parseBlocks noKsc [⟨[0x91, 1, 2, 3, 0x41], [0x20]⟩, ⟨[0x42], []⟩, ⟨[0x03], []⟩] {}).2 =
        (play noKsc penAndText {}).2 ∧
      (parseServiceBlock noKsc (streamBytes penAndText) (streamBytes penAndText).length {}).2 =
        (play noKsc penAndText {}).2 :=
  blocks_play noKsc penAndText {} [⟨[0x91, 1, 2, 3, 0x41], [0x20]⟩, ⟨[0x42], []⟩, ⟨[0x03], []⟩]
    rfl (by decide) (by decide)

/-- A 16 bit character that is cut behind its first byte is taken for the command NUL and a
    character of its own. -/
theorem cut_p16 :
    ¬ ∀ (t : Ksc5601) (its : List Item) (o : Obj) (blocks : List Block), o.Clear →
      Cut (streamBytes its) blocks → (parseBlocks t blocks o).2 = (play t its o).2 := by
  intro h
  have hp16 := h noKsc [.cmd ⟨[0x18, 0x00, 0x41], by decide, by decide⟩] {}
    [⟨[0x18], []⟩, ⟨[0x00, 0x41], []⟩] rfl (by decide)
  revert hp16
  decide +kernel

/-! ## A command that is cut -/

/-- Few bytes stay within `au8CMD`. -/
theorem CMDBuffer.memcpy_zero (u8TotalSize u8CurSize : UInt8) (src : List UInt8)
    (hsrc : src.length ≤ 8) :
    CMDBuffer.memcpy ⟨List.replicate 8 0, u8TotalSize, u8CurSize⟩ 0 src =
      ⟨src ++ List.replicate (8 - src.length) 0, u8TotalSize, u8CurSize⟩ := by
  have hmem : Cc708.memcpy (List.replicate 8 0 ++ [u8TotalSize, u8CurSize]) 0 src =
      src ++ List.replicate (8 - src.length) 0 ++ [u8TotalSize, u8CurSize] := by
    simp only [Cc708.memcpy, List.take_zero, List.nil_append, Nat.zero_add]
    rw [List.drop_append_of_le_length (by simpa using hsrc), List.drop_replicate,
      List.append_assoc]
  have hlen : (src ++ List.replicate (8 - src.length) 0).length = 8 := by
    rw [List.length_append, List.length_replicate]
    omega
  simp only [CMDBuffer.memcpy, hmem, get8, List.getD_eq_getElem?_getD]
  rw [List.take_left' hlen, List.getElem?_append_right (by omega),
    List.getElem?_append_right (by omega), hlen]
  rfl

theorem cmdMap_len_le_seven (b : UInt8) : (cmdMap b).u8CMDLen ≤ 7 := by
  have hall : ∀ m ∈ dtvccCmdMap, m.u8CMDLen ≤ 7 := by decide
  simp only [cmdMap, List.getD_eq_getElem?_getD]
  cases hget : dtvccCmdMap[((b &&& 0x80) >>> 2 ||| (b &&& 0x1f)).toNat]? with
  | none => exact show 1 ≤ 7 by decide
  | some m => exact hall m (List.mem_of_getElem? hget)

theorem Command.length_eq (c : Command) (hext : c.code ≠ C0_EXT1) :
    (cmdMap c.code).u8CMDLen = c.bytes.length := by
  have hcomplete := c.complete
  unfold cmdLen at hcomplete
  rwa [if_neg (show get8 c.bytes 0 ≠ C0_EXT1 from hext)] at hcomplete

/-- The end of a block keeps the first bytes of a command for the next block. -/
theorem parseServiceBlock_cut (c : Command) (hext : c.code ≠ C0_EXT1) {k : Nat} (hk : 0 < k)
    (hkc : k < c.bytes.length) (behind : List UInt8) (o : Obj) (hclear : o.Clear) :
    parseServiceBlock t (c.bytes.take k ++ behind) k o =
      ({ (drawCaption c.code o).1 with
          stCMDBuffer :=
            ⟨c.bytes.take k ++ List.replicate (8 - k) 0, .ofNat c.bytes.length, .ofNat k⟩ },
        (drawCaption c.code o).2) := by
  have hlen := c.length_eq hext
  have hseven := cmdMap_len_le_seven c.code
  have htake : (c.bytes.take k).length = k := by
    rw [List.length_take]
    omega
  have hget : get8 (c.bytes.take k ++ behind) 0 = c.code :=
    get8_of_take_eq (n := k) (by rw [List.take_left' htake]) hk
  -- the length is known from the first byte
  have hcmd : cmdLen (c.bytes.take k ++ behind) k = c.bytes.length := by
    unfold cmdLen
    rw [hget, if_neg hext, hlen]
  have hisCmd : IsCmd c.code := c.isCmd
  have hbuf : (drawCaption c.code o).1.stCMDBuffer = {} := by
    rw [drawCaption_frame]
    exact hclear
  obtain ⟨fuel, rfl⟩ := Nat.exists_eq_add_one_of_ne_zero (show k ≠ 0 by omega)
  -- so the command is found to be cut, and its bytes are kept
  rw [parseServiceBlock_clear t hclear]
  simp only [parseCmds, hget, hcmd]
  rw [if_neg (by omega), if_pos hisCmd, if_pos hkc, List.take_left' htake, hbuf,
    CMDBuffer.memcpy_zero _ _ _ (by omega), htake]

/-- The rest of a command is put behind its first bytes. -/
theorem CMDBuffer.memcpy_rest (bytes : List UInt8) (u8TotalSize u8CurSize : UInt8) {k : Nat}
    (hk : k ≤ bytes.length) (hlen : bytes.length ≤ 8) :
    (CMDBuffer.memcpy
        ⟨bytes.take k ++ List.replicate (8 - k) 0, u8TotalSize, u8CurSize⟩ k
        (bytes.drop k)).au8CMD =
      bytes ++ List.replicate (8 - bytes.length) 0 := by
  have htake : (bytes.take k).length = k := by
    rw [List.length_take]
    omega
  have hmem : Cc708.memcpy (bytes.take k ++ List.replicate (8 - k) 0 ++ [u8TotalSize, u8CurSize])
      k (bytes.drop k) =
      bytes ++ List.replicate (8 - bytes.length) 0 ++ [u8TotalSize, u8CurSize] := by
    have hzeros : 8 - k - (bytes.length - k) = 8 - bytes.length := by omega
    simp only [Cc708.memcpy, List.length_drop]
    rw [List.append_assoc (bytes.take k), List.take_left' htake, List.take_append_drop,
      Nat.add_sub_cancel' hk, List.drop_append, htake, List.drop_eq_nil_of_le (by omega),
      List.nil_append, List.drop_append_of_le_length (by rw [List.length_replicate]; omega),
      List.drop_replicate, hzeros, List.append_assoc]
  simp only [CMDBuffer.memcpy, hmem]
  rw [List.take_left']
  rw [List.length_append, List.length_replicate]
  omega

theorem callDecoder_events (pfn : Option Decoder) (p : List UInt8) (o o' : Obj) :
    (callDecoder t pfn p o).2 = (callDecoder t pfn p o').2 := by
  cases pfn <;> rfl

/-- A block that completes the command in the command buffer starts with its decoder. -/
theorem parseServiceBlock_resume (p : List UInt8) (n : Nat) (o : Obj) (hn : 0 < n)
    (hheld : o.stCMDBuffer.u8CurSize < o.stCMDBuffer.u8TotalSize)
    (hrest : o.stCMDBuffer.u8TotalSize.toNat - o.stCMDBuffer.u8CurSize.toNat ≤ n) :
    ∃ es,
      (parseServiceBlock t p n o).2 =
        (callDecoder t (cmdMap (get8 p 0)).pfnCmdDecoder
          (o.stCMDBuffer.memcpy o.stCMDBuffer.u8CurSize.toNat
            (p.take (o.stCMDBuffer.u8TotalSize.toNat - o.stCMDBuffer.u8CurSize.toNat))).au8CMD
          o).2 ++ es := by
  unfold parseServiceBlock
  rw [if_neg (by omega)]
  simp only [if_pos hheld, if_pos hrest]
  exact ⟨_, rfl⟩

/-- The next block has the command decoded as its own first byte says, whatever the command is. -/
theorem cut_command (c : Command) (hext : c.code ≠ C0_EXT1) {k : Nat} (hk : 0 < k)
    (hkc : k < c.bytes.length) (rest behind behind' : List UInt8) (o : Obj) (hclear : o.Clear) :
    ∃ es,
      (parseBlocks t [⟨c.bytes.take k, behind⟩, ⟨c.bytes.drop k ++ rest, behind'⟩] o).2 =
        (drawCaption c.code o).2 ++
          (callDecoder t (cmdMap (get8 c.bytes k)).pfnCmdDecoder
            (c.bytes ++ List.replicate (8 - c.bytes.length) 0) o).2 ++ es := by
  have hlen := c.length_eq hext
  have hseven := cmdMap_len_le_seven c.code
  have htake : (c.bytes.take k).length = k := by
    rw [List.length_take]
    omega
  have hdrop : (c.bytes.drop k).length = c.bytes.length - k := List.length_drop
  have hget : get8 (c.bytes.drop k ++ rest ++ behind') 0 = get8 c.bytes k := by
    rw [get8, get8, List.getD_eq_getElem?_getD, List.getD_eq_getElem?_getD, List.append_assoc,
      List.getElem?_append_left (by omega), List.getElem?_drop, Nat.add_zero]
  have htotal : (UInt8.ofNat c.bytes.length).toNat = c.bytes.length := by
    rw [UInt8.toNat_ofNat']
    omega
  have hcur : (UInt8.ofNat k).toNat = k := by
    rw [UInt8.toNat_ofNat']
    omega
  -- the decoder holds a part of a command
  have hheld : UInt8.ofNat k < UInt8.ofNat c.bytes.length := by
    rw [UInt8.lt_iff_toNat_lt, htotal, hcur]
    exact hkc
  have hfirst := parseServiceBlock_cut t c hext hk hkc behind o hclear
  -- so the next block goes on with it
  obtain ⟨es, hes⟩ := parseServiceBlock_resume t (c.bytes.drop k ++ rest ++ behind')
    (c.bytes.drop k ++ rest).length (parseServiceBlock t (c.bytes.take k ++ behind) k o).1
    (by rw [List.length_append]; omega) (by rw [hfirst]; exact hheld)
    (by rw [hfirst]; simp only [htotal, hcur, List.length_append]; omega)
  refine ⟨es, ?_⟩
  simp only [parseBlocks, htake, hes, List.append_nil]
  simp only [hfirst, htotal, hcur, hget]
  rw [List.append_assoc (c.bytes.drop k), List.take_left' hdrop,
    CMDBuffer.memcpy_rest _ _ _ (by omega) (by omega), callDecoder_events t _ _ _ o,
    List.append_assoc]

end Tntsat.Cc708
