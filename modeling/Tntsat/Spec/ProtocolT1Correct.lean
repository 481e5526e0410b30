import Tntsat.Native.ProtocolT1

/-!
# T=1: commands and answers arrive whole

Whatever the card and the driver do, the reader sends the command cut into blocks, one
after the other from the first on, and behind the last of them nothing but
acknowledgements; it calls the exchange a success only if the whole command was sent, and
then the answer fits the buffer of its caller (`protocolT1Command_sent`).

`Card` is the other party as the protocol wants it: it checks every byte of a block and
its place in the sequence, puts the blocks of a command together, and answers in blocks of
its choice, between which it may ask for more time.  Over a line that loses nothing every
command of a session reaches it as it was given, and every answer comes back as it was
(`session_answers`).
-/

namespace Tntsat.T1

/-! ## Blocks -/

theorem lrc_append (xs : List UInt8) (b : UInt8) : lrc (xs ++ [b]) = lrc xs ^^^ b := by
  rw [lrc, List.foldl_append]
  rfl

/-- A whole block checks. -/
theorem lrc_block (type : UInt8) (inf : List UInt8) : lrc (block type inf) = 0 := by
  rw [block, lrc_append, UInt8.xor_self]

@[simp] theorem length_block (type : UInt8) (inf : List UInt8) :
    (block type inf).length = inf.length + 4 := by
  simp only [block, List.length_append, List.length_cons, List.length_nil]
  omega

@[simp] theorem block_type (type : UInt8) (inf : List UInt8) : (block type inf).getD 1 0 = type :=
  rfl

theorem getLen_block (type : UInt8) {inf : List UInt8} (h : inf.length ≤ 255) :
    getLen (block type inf) = inf.length := by
  have hlen : getLen (block type inf) = (UInt8.ofNat inf.length).toNat := rfl
  rw [hlen, UInt8.toNat_ofNat', Nat.mod_eq_of_lt (by omega)]

/-- The data of a block. -/
theorem block_inf (type : UInt8) (inf : List UInt8) :
    ((block type inf).drop 3).take inf.length = inf := by
  have hdrop : (block type inf).drop 3 = inf ++ [lrc ([0x00, type, UInt8.ofNat inf.length] ++ inf)] :=
    rfl
  rw [hdrop, List.take_left]

/-- The sequence numbers. -/
def IsSeq (ns : UInt8) : Prop := ns = 0 ∨ ns = 1

theorem isSeq_nextNs (ns : UInt8) : IsSeq (nextNs ns) := by
  rw [nextNs]
  split
  · exact .inl rfl
  · exact .inr rfl

/-- The sequence number of the reader after some blocks. -/
def nsAt (ns : UInt8) : Nat → UInt8
  | 0 => ns
  | k + 1 => nextNs (nsAt ns k)

/-! ## The blocks of a command -/

/-- How many blocks a command takes. -/
def blockCount (command : List UInt8) (ifsc : Nat) : Nat := (command.length - 1) / ifsc + 1

/-- The `k`-th block of a command. -/
def commandBlock (command : List UInt8) (ifsc : Nat) (ns : UInt8) (k : Nat) : List UInt8 :=
  iBlock ((command.drop (k * ifsc)).take ifsc) (nsAt ns (k + 1)) (k + 1 < blockCount command ifsc)

/-- The blocks carry the command and nothing else. -/
theorem commandBlocks_flatten (command : List UInt8) (ifsc k : Nat) :
    ((List.range k).map fun j => (command.drop (j * ifsc)).take ifsc).flatten =
      command.take (k * ifsc) := by
  induction k with
  | zero => simp
  | succ k ih =>
    rw [List.range_succ, List.map_append, List.flatten_append, ih, Nat.succ_mul, List.take_add]
    simp

theorem more_iff (command : List UInt8) {ifsc : Nat} (h : 0 < ifsc) (k : Nat) :
    command.length - k * ifsc > ifsc ↔ k + 1 < blockCount command ifsc := by
  rw [blockCount, Nat.succ_lt_succ_iff, ← Nat.succ_le_iff, Nat.le_div_iff_mul_le h, Nat.succ_mul]
  omega

/-- The last block is the end of the command. -/
theorem length_le_blockCount (command : List UInt8) {ifsc : Nat} (h : 0 < ifsc) :
    command.length ≤ blockCount command ifsc * ifsc := by
  have hlt : command.length - 1 < blockCount command ifsc * ifsc := by
    rw [blockCount]
    exact Nat.lt_mul_of_div_lt (Nat.lt_succ_self _) h
  omega

variable {κ : Type} {L : Line κ}

/-- One round of the first loop, in terms of the blocks of the command. -/
theorem sendChain_round {command : List UInt8} {ifsc : Nat} (hlen : command.length < 2 ^ 16)
    (hpos : 0 < ifsc) (hifsc : ifsc ≤ 255) (fuel k : Nat) (ns : UInt8) (s : κ) :
    sendChain L command ifsc (fuel + 1) (k * ifsc) (nsAt ns k) s =
      match L.transmit (commandBlock command ifsc ns k) s with
      | (false, s) => some (false, nsAt ns (k + 1), s)
      | (true, s) =>
        if k + 1 < blockCount command ifsc then
          match receiveBlock L s with
          | (none, s) => some (false, nsAt ns (k + 1), s)
          | (some b, s) =>
            if rspType b = t1BlockROk then
              sendChain L command ifsc fuel ((k + 1) * ifsc) (nsAt ns (k + 1)) s
            else some (false, nsAt ns (k + 1), s)
        else some (true, nsAt ns (k + 1), s) := by
  have hmore := more_iff command hpos k
  have hmod : min (command.length - k * ifsc) ifsc % 256 = min (command.length - k * ifsc) ifsc :=
    Nat.mod_eq_of_lt (by omega)
  have htake : (command.drop (k * ifsc)).take (min (command.length - k * ifsc) ifsc) =
      (command.drop (k * ifsc)).take ifsc := by
    rw [List.take_eq_take_iff, List.length_drop]
    omega
  have hblock : iBlock ((command.drop (k * ifsc)).take (min (command.length - k * ifsc) ifsc))
      (nextNs (nsAt ns k)) (decide (command.length - k * ifsc > ifsc)) =
        commandBlock command ifsc ns k := by
    simp only [htake, hmore]
    rfl
  rw [sendChain, hmod, hblock]
  cases L.transmit (commandBlock command ifsc ns k) s with
  | mk ok s =>
    cases ok with
    | false => rfl
    | true =>
      by_cases h : k + 1 < blockCount command ifsc
      · have hnext : (k * ifsc + min (command.length - k * ifsc) ifsc) % 2 ^ 16 = (k + 1) * ifsc := by
          have hgt := hmore.mpr h
          rw [Nat.succ_mul, Nat.min_eq_right (by omega), Nat.mod_eq_of_lt (by omega)]
        simp only [hmore, h, decide_true, if_true, hnext]
        rfl
      · simp only [hmore, h, decide_false]
        rfl

/-! ## Any card -/

/-- The line with a record of what is transmitted, oldest first. -/
def Line.logged (L : Line κ) : Line (κ × List (List UInt8)) where
  transmit b s := ((L.transmit b s.1).1, ((L.transmit b s.1).2, s.2 ++ [b]))
  receive n s := ((L.receive n s.1).1, ((L.receive n s.1).2, s.2))

/-- What is received is not in the record. -/
theorem receiveBlock_logged (L : Line κ) (s : κ × List (List UInt8)) :
    (receiveBlock L.logged s).2.2 = s.2 := by
  have hfour : (L.logged.receive 4 s).2.2 = s.2 := rfl
  rw [receiveBlock]
  cases h : L.logged.receive 4 s with
  | mk r s' =>
    rw [h] at hfour
    cases r with
    | none => exact hfour
    | some head =>
      simp only
      split
      · have hrest (n : Nat) : (L.logged.receive n s').2.2 = s'.2 := rfl
        specialize hrest (min (getLen head + 4) t1BlockMaxSize - 4)
        split <;> rename_i hrecv <;> rw [hrecv] at hrest <;> exact hrest.trans hfour
      · exact hfour

/-- The blocks of a command that the first loop sends, from the `k`-th on. -/
theorem sendChain_sent {command : List UInt8} {ifsc : Nat} (hlen : command.length < 2 ^ 16)
    (hpos : 0 < ifsc) (hifsc : ifsc ≤ 255) {fuel k : Nat} {ns : UInt8}
    {s s' : κ × List (List UInt8)} {ok : Bool} {ns' : UInt8}
    (hk : k < blockCount command ifsc)
    (hsent : s.2 = (List.range k).map (commandBlock command ifsc ns))
    (hrun : sendChain L.logged command ifsc fuel (k * ifsc) (nsAt ns k) s = some (ok, ns', s')) :
    ∃ j, j ≤ blockCount command ifsc ∧
      s'.2 = (List.range j).map (commandBlock command ifsc ns) ∧
      (ok = true → j = blockCount command ifsc) := by
  induction fuel generalizing k s with
  | zero => cases hrun
  | succ fuel ih =>
    rw [sendChain_round hlen hpos hifsc] at hrun
    have hlog : (L.logged.transmit (commandBlock command ifsc ns k) s).2.2 =
        (List.range (k + 1)).map (commandBlock command ifsc ns) := by
      rw [List.range_succ, List.map_append, ← hsent]
      rfl
    split at hrun
    · rename_i hsend
      cases hrun
      rw [hsend] at hlog
      exact ⟨k + 1, hk, hlog, fun h => by cases h⟩
    · rename_i s₁ hsend
      rw [hsend] at hlog
      split at hrun
      · rename_i hmore
        have hrecv := receiveBlock_logged L s₁
        split at hrun
        · rename_i hnone
          cases hrun
          rw [hnone] at hrecv
          exact ⟨k + 1, hk, hrecv.trans hlog, fun h => by cases h⟩
        · rename_i hsome
          rw [hsome] at hrecv
          split at hrun
          · exact ih hmore (hrecv.trans hlog) hrun
          · cases hrun
            exact ⟨k + 1, hk, hrecv.trans hlog, fun h => by cases h⟩
      · rename_i hlast
        cases hrun
        exact ⟨k + 1, hk, hlog, fun _ => by omega⟩

/-- What the reader sends behind a command. -/
def IsReply (b : List UInt8) : Prop :=
  (∃ nr, b = rBlock t1BlockROk nr) ∨ ∃ wtx, b = sBlock t1BlockSWtxRes [wtx]

/-- Only replies were sent in between. -/
def Replies (s s' : κ × List (List UInt8)) : Prop :=
  ∃ rest, s'.2 = s.2 ++ rest ∧ ∀ b ∈ rest, IsReply b

theorem Replies.of_eq {s s' : κ × List (List UInt8)} (h : s'.2 = s.2) : Replies s s' :=
  ⟨[], by rw [h, List.append_nil], fun _ hb => absurd hb List.not_mem_nil⟩

theorem Replies.send {s s' : κ × List (List UInt8)} {b : List UInt8} {ok : Bool} (hb : IsReply b)
    (h : L.logged.transmit b s = (ok, s')) : Replies s s' := by
  have hlog : (L.logged.transmit b s).2.2 = s.2 ++ [b] := rfl
  rw [h] at hlog
  exact ⟨[b], hlog, fun b' hb' => by rw [List.mem_singleton.mp hb']; exact hb⟩

theorem Replies.trans {s s' s'' : κ × List (List UInt8)} (h : Replies s s') (h' : Replies s' s'') :
    Replies s s'' := by
  obtain ⟨rest, hlog, hrest⟩ := h
  obtain ⟨rest', hlog', hrest'⟩ := h'
  refine ⟨rest ++ rest', by rw [hlog', hlog, List.append_assoc], fun b hb => ?_⟩
  cases List.mem_append.mp hb with
  | inl hb => exact hrest b hb
  | inr hb => exact hrest' b hb

/-- The second loop sends replies only, and the answer fits. -/
theorem receiveAnswer_sent {fuel : Nat} {rsp : List UInt8} {s s' : κ × List (List UInt8)}
    {r : Option (List UInt8)} (hfit : rsp.length ≤ t1BlockMaxSize)
    (hrun : receiveAnswer L.logged fuel rsp s = some (r, s')) :
    Replies s s' ∧ ∀ rsp', r = some rsp' → rsp'.length ≤ t1BlockMaxSize := by
  have hnone {rsp' : List UInt8} (h : (none : Option (List UInt8)) = some rsp') :
      rsp'.length ≤ t1BlockMaxSize := by
    cases h
  induction fuel generalizing rsp s with
  | zero => cases hrun
  | succ fuel ih =>
    rw [receiveAnswer] at hrun
    have hrecv := Replies.of_eq (receiveBlock_logged L s)
    split at hrun
    · rename_i heq
      cases hrun
      rw [heq] at hrecv
      exact ⟨hrecv, fun _ => hnone⟩
    · rename_i b s₁ heq
      rw [heq] at hrecv
      split at hrun
      · simp only at hrun
        split at hrun
        · cases hrun
          exact ⟨hrecv, fun _ => hnone⟩
        · have hfit' : (rsp ++ (b.drop 3).take (getLen b)).length ≤ t1BlockMaxSize := by
            rw [List.length_append, List.length_take]
            omega
          split at hrun
          · split at hrun
            · rename_i hsend
              obtain ⟨hrest, hlen⟩ := ih hfit' hrun
              exact ⟨hrecv.trans ((Replies.send (.inl ⟨_, rfl⟩) hsend).trans hrest), hlen⟩
            · rename_i hsend
              cases hrun
              exact ⟨hrecv.trans (Replies.send (.inl ⟨_, rfl⟩) hsend), fun _ => hnone⟩
          · cases hrun
            exact ⟨hrecv, fun _ h => by cases h; exact hfit'⟩
      · split at hrun
        · split at hrun
          · rename_i hsend
            obtain ⟨hrest, hlen⟩ := ih hfit hrun
            exact ⟨hrecv.trans ((Replies.send (.inr ⟨_, rfl⟩) hsend).trans hrest), hlen⟩
          · rename_i hsend
            cases hrun
            exact ⟨hrecv.trans (Replies.send (.inr ⟨_, rfl⟩) hsend), fun _ => hnone⟩
        · cases hrun
          exact ⟨hrecv, fun _ => hnone⟩

/-- What was sent for a command that returned `r`: its blocks from the first on, and replies only
    behind the last; a success means that the whole command was sent, and the answer fits. -/
def Sent (command : List UInt8) (ifsc : Nat) (ns : UInt8) (log : List (List UInt8))
    (r : Option (List UInt8)) : Prop :=
  ∃ j rest, log = (List.range j).map (commandBlock command ifsc ns) ++ rest ∧
    (∀ b ∈ rest, IsReply b) ∧ j ≤ blockCount command ifsc ∧
    (rest ≠ [] → j = blockCount command ifsc) ∧
    ∀ rsp, r = some rsp → j = blockCount command ifsc ∧
      ((List.range j).map fun k => (command.drop (k * ifsc)).take ifsc).flatten = command ∧
      rsp.length ≤ t1BlockMaxSize

/-- What a card sends in front of its last block: data, or a request for more time. -/
inductive Out
  | inf (data : List UInt8)
  | wtx (multiplier : UInt8)

/-- An answer as the card cuts it into blocks. -/
structure Answer where
  outs : List Out
  last : List UInt8

/-- The data in some blocks. -/
def outData : List Out → List UInt8
  | [] => []
  | .inf data :: outs => data ++ outData outs
  | .wtx _ :: outs => outData outs

/-- The answer that the blocks carry. -/
def Answer.data (a : Answer) : List UInt8 := outData a.outs ++ a.last

/-- Blocks of the protocol, with an answer that the reader can take. -/
structure Answer.Valid (a : Answer) : Prop where
  blocks : ∀ data, .inf data ∈ a.outs → data.length ≤ 254
  last : a.last.length ≤ 254
  data : a.data.length ≤ t1BlockMaxSize

/-- What the card waits for. -/
inductive Await
  | command
  /-- the block that lets it send the rest of its answer -/
  | reply (expected : List UInt8) (outs : List Out) (last : List UInt8)
  /-- nothing: the reader broke the protocol -/
  | mute

/-- The card: its application, the sequence numbers of the next blocks of the reader and of its
    own, and the blocks of the command so far. -/
structure Card (σ : Type) where
  app : σ
  ns : UInt8
  own : UInt8
  buf : List UInt8
  await : Await

/-- Take an I-block apart, if it is one. -/
def parseI (ifsc : Nat) (b : List UInt8) : Option (UInt8 × Bool × List UInt8) :=
  if b.length = getLen b + 4 ∧ getLen b ≤ ifsc ∧ b.getD 0 0 = 0x00 ∧ b.getD 1 0 &&& 0x80 = 0 ∧
      lrc b = 0 then
    some (getNs b, getMore b = 1, (b.drop 3).take (getLen b))
  else none

variable {σ : Type}

/-- The next block of an answer. -/
def Card.emit (c : Card σ) (last : List UInt8) : List Out → Card σ × List UInt8
  | [] => ({ c with await := .command, own := nextNs c.own }, iBlock last c.own false)
  | .inf data :: outs =>
    ({ c with await := .reply (rBlock t1BlockROk (nextNs c.own)) outs last, own := nextNs c.own },
      iBlock data c.own true)
  | .wtx m :: outs =>
    ({ c with await := .reply (sBlock t1BlockSWtxRes [m]) outs last }, sBlock t1BlockSWtxReq [m])

/-- What the card does with a block, and the block that it sends back. -/
def Card.get (f : σ → List UInt8 → σ × Answer) (ifsc : Nat) (c : Card σ) (b : List UInt8) :
    Card σ × List UInt8 :=
  match c.await with
  | .command =>
    match parseI ifsc b with
    | some (ns, more, inf) =>
      if ns ≠ c.ns then ({ c with await := .mute }, [])
      else if more then
        ({ c with ns := nextNs ns, buf := c.buf ++ inf }, rBlock t1BlockROk (nextNs ns))
      else
        let a := f c.app (c.buf ++ inf)
        Card.emit { c with app := a.1, ns := nextNs ns, buf := [] } a.2.last a.2.outs
    | none => ({ c with await := .mute }, [])
  | .reply expected outs last =>
    if b = expected then c.emit last outs else ({ c with await := .mute }, [])
  | .mute => (c, [])

/-- A line that loses nothing, with the bytes that the reader has not fetched yet. -/
def cardLine (f : σ → List UInt8 → σ × Answer) (ifsc : Nat) : Line (Card σ × List UInt8) where
  transmit b s := (true, ((s.1.get f ifsc b).1, s.2 ++ (s.1.get f ifsc b).2))
  receive n s := if n ≤ s.2.length then (some (s.2.take n), (s.1, s.2.drop n)) else (none, s)

/-- The type of an I-block. -/
def iType (ns : UInt8) (more : Bool) : UInt8 :=
  (t1BlockI ||| ((ns <<< 6) &&& 0x40)) ||| (if more then 0x20 else 0)

theorem iType_bits {ns : UInt8} (hns : IsSeq ns) (more : Bool) :
    (iType ns more >>> 6) &&& 0x01 = ns ∧
      (iType ns more >>> 5) &&& 0x01 = (if more then 1 else 0) ∧ iType ns more &&& 0x80 = 0 := by
  obtain rfl | rfl := hns <;> cases more <;> decide

theorem getNs_iBlock {ns : UInt8} (hns : IsSeq ns) (inf : List UInt8) (more : Bool) :
    getNs (iBlock inf ns more) = ns := (iType_bits hns more).1

theorem getMore_iBlock {ns : UInt8} (hns : IsSeq ns) (inf : List UInt8) (more : Bool) :
    getMore (iBlock inf ns more) = if more then 1 else 0 := (iType_bits hns more).2.1

theorem iBlock_type {ns : UInt8} (hns : IsSeq ns) (inf : List UInt8) (more : Bool) :
    (iBlock inf ns more).getD 1 0 &&& 0x80 = 0 := (iType_bits hns more).2.2

/-- An I-block is taken apart again. -/
theorem parseI_iBlock {ifsc : Nat} {inf : List UInt8} (hinf : inf.length ≤ ifsc) (hifsc : ifsc ≤ 254)
    {ns : UInt8} (hns : IsSeq ns) (more : Bool) :
    parseI ifsc (iBlock inf ns more) = some (ns, more, inf) := by
  have hlen : getLen (iBlock inf ns more) = inf.length := getLen_block _ (by omega)
  have hinf' : ((iBlock inf ns more).drop 3).take inf.length = inf := block_inf _ inf
  rw [parseI, hlen, hinf', getNs_iBlock hns, getMore_iBlock hns, if_pos]
  · cases more <;> rfl
  · exact ⟨length_block _ _, hinf, rfl, iBlock_type hns inf more, lrc_block _ _⟩

/-- The reader gets a block that is under way. -/
theorem receiveBlock_card (f : σ → List UInt8 → σ × Answer) (ifsc : Nat) (c : Card σ) (type : UInt8)
    {inf : List UInt8} (h : inf.length ≤ 254) :
    receiveBlock (cardLine f ifsc) (c, block type inf) = (some (block type inf), (c, [])) := by
  have hfour : (cardLine f ifsc).receive 4 (c, block type inf) =
      (some ((block type inf).take 4), (c, (block type inf).drop 4)) :=
    if_pos (by rw [length_block]; omega)
  have hlen : getLen ((block type inf).take 4) = inf.length :=
    getLen_block type (show inf.length ≤ 255 by omega)
  rw [receiveBlock, hfour]
  simp only [hlen]
  by_cases hzero : inf.length = 0
  · have hwhole : (block type inf).length ≤ 4 := Nat.le_of_eq (by rw [length_block, hzero])
    rw [if_neg (not_not.mpr hzero), List.take_of_length_le hwhole, List.drop_of_length_le hwhole]
  · have hsize : min (inf.length + 4) t1BlockMaxSize - 4 = inf.length := by
      rw [t1BlockMaxSize]
      omega
    have hdrop : ((block type inf).drop 4).length = inf.length := by
      rw [List.length_drop, length_block, Nat.add_sub_cancel]
    have hrest : (cardLine f ifsc).receive inf.length (c, (block type inf).drop 4) =
        (some ((block type inf).drop 4), (c, [])) := by
      refine (if_pos (Nat.le_of_eq hdrop.symm)).trans ?_
      rw [List.take_of_length_le (Nat.le_of_eq hdrop), List.drop_of_length_le (Nat.le_of_eq hdrop)]
    rw [if_pos hzero, hsize, hrest]
    simp only [List.take_append_drop]

theorem receiveBlock_rBlock (f : σ → List UInt8 → σ × Answer) (ifsc : Nat) (c : Card σ)
    (type nr : UInt8) :
    receiveBlock (cardLine f ifsc) (c, rBlock type nr) = (some (rBlock type nr), (c, [])) :=
  receiveBlock_card f ifsc c _ (Nat.zero_le _)

/-- A card that waits for a reply goes on with its answer. -/
theorem transmit_reply (f : σ → List UInt8 → σ × Answer) (ifsc : Nat) {c : Card σ}
    {expected last : List UInt8} {outs : List Out} (h : c.await = .reply expected outs last) :
    (cardLine f ifsc).transmit expected (c, []) = (true, c.emit last outs) := by
  simp only [cardLine, Card.get, h, if_true, List.nil_append]

/-- The reader takes a block of the answer. -/
theorem receiveAnswer_inf (f : σ → List UInt8 → σ × Answer) (ifsc : Nat) (c : Card σ)
    {data : List UInt8} (hdata : data.length ≤ 254) {own : UInt8} (hown : IsSeq own)
    {rsp : List UInt8} (hfit : rsp.length + data.length ≤ t1BlockMaxSize) (fuel : Nat) (more : Bool) :
    receiveAnswer (cardLine f ifsc) (fuel + 1) rsp (c, iBlock data own more) =
      if more then
        match (cardLine f ifsc).transmit (rBlock t1BlockROk (nextNs own)) (c, []) with
        | (true, s) => receiveAnswer (cardLine f ifsc) fuel (rsp ++ data) s
        | (false, s) => some (none, s)
      else some (some (rsp ++ data), (c, [])) := by
  have hrecv : receiveBlock (cardLine f ifsc) (c, iBlock data own more) =
      (some (iBlock data own more), (c, [])) := receiveBlock_card f ifsc c _ hdata
  have htype : rspType (iBlock data own more) = t1BlockI := if_pos (iBlock_type hown data more)
  have hlen : getLen (iBlock data own more) = data.length := getLen_block _ (by omega)
  have hinf : ((iBlock data own more).drop 3).take data.length = data := block_inf _ data
  have hnr : (own + 1) % 2 = nextNs own := by
    obtain rfl | rfl := hown <;> rfl
  rw [receiveAnswer, hrecv]
  simp only [htype, hlen, hinf, getNs_iBlock hown, getMore_iBlock hown, hnr, if_true,
    if_neg (Nat.not_lt.mpr hfit)]
  cases more <;> rfl

/-- The sequence number of the card behind an answer. -/
def ownAfter (own : UInt8) : List Out → UInt8
  | [] => nextNs own
  | .inf _ :: outs => ownAfter (nextNs own) outs
  | .wtx _ :: outs => ownAfter own outs

theorem isSeq_ownAfter (own : UInt8) (outs : List Out) : IsSeq (ownAfter own outs) := by
  induction outs generalizing own with
  | nil => exact isSeq_nextNs own
  | cons out outs ih =>
    cases out with
    | inf data => exact ih (nextNs own)
    | wtx m => exact ih own

/-- The reader gets the rest of an answer. -/
theorem receiveAnswer_card (f : σ → List UInt8 → σ × Answer) (ifsc : Nat) {outs : List Out}
    {last : List UInt8} (houts : ∀ data, .inf data ∈ outs → data.length ≤ 254)
    (hlast : last.length ≤ 254) {c : Card σ} (hown : IsSeq c.own) {rsp : List UInt8}
    (hfit : rsp.length + (outData outs ++ last).length ≤ t1BlockMaxSize) {fuel : Nat}
    (hfuel : outs.length < fuel) :
    receiveAnswer (cardLine f ifsc) fuel rsp (c.emit last outs) =
      some (some (rsp ++ (outData outs ++ last)),
        ({ c with await := .command, own := ownAfter c.own outs }, [])) := by
  induction fuel generalizing c rsp outs with
  | zero => omega
  | succ fuel ih =>
    cases outs with
    | nil => exact receiveAnswer_inf f ifsc _ hlast hown hfit fuel false
    | cons out outs =>
      have houts' : ∀ data, .inf data ∈ outs → data.length ≤ 254 := fun data h =>
        houts data (List.mem_cons_of_mem _ h)
      have hfuel' : outs.length < fuel := Nat.lt_of_succ_lt_succ hfuel
      cases out with
      | inf data =>
        rw [outData, List.append_assoc, List.length_append] at hfit
        have hround := receiveAnswer_inf f ifsc { c with
            await := .reply (rBlock t1BlockROk (nextNs c.own)) outs last, own := nextNs c.own }
          (houts data List.mem_cons_self) hown
          (show rsp.length + data.length ≤ t1BlockMaxSize by omega) fuel true
        rw [transmit_reply f ifsc rfl] at hround
        have hrest := ih houts' (c := { c with
            await := .reply (rBlock t1BlockROk (nextNs c.own)) outs last, own := nextNs c.own })
          (isSeq_nextNs _)
          (show (rsp ++ data).length + (outData outs ++ last).length ≤ t1BlockMaxSize by
            rw [List.length_append]; omega) hfuel'
        refine hround.trans (hrest.trans ?_)
        rw [outData, List.append_assoc, List.append_assoc]
        rfl
      | wtx m =>
        have hrest := ih houts'
          (c := { c with await := .reply (sBlock t1BlockSWtxRes [m]) outs last }) hown hfit hfuel'
        refine Eq.trans ?_ hrest
        have hrecv : receiveBlock (cardLine f ifsc) (c.emit last (.wtx m :: outs)) =
            (some (sBlock t1BlockSWtxReq [m]), ({ c with
              await := .reply (sBlock t1BlockSWtxRes [m]) outs last }, [])) :=
          receiveBlock_card f ifsc _ _ (show 1 ≤ 254 by decide)
        have hreq : ¬ t1BlockSWtxReq &&& 0x80 = t1BlockI := by decide
        have htype : rspType (sBlock t1BlockSWtxReq [m]) = t1BlockSWtxReq :=
          (if_neg hreq).trans (by decide : t1BlockSWtxReq &&& 0xEF = t1BlockSWtxReq)
        have hne : t1BlockSWtxReq ≠ t1BlockI := by decide
        have hm : (sBlock t1BlockSWtxReq [m]).getD 3 0 = m := rfl
        rw [receiveAnswer, hrecv]
        simp only [htype, if_neg hne, if_true, hm]
        rw [transmit_reply f ifsc rfl]

/-! ## A session -/

/-- The reader and the card agree on the next block, and nothing is under way. -/
structure Sync (ns : UInt8) (c : Card σ) : Prop where
  await : c.await = .command
  buf : c.buf = []
  ns : c.ns = nextNs ns
  own : IsSeq c.own

/-- The card takes a block of a command. -/
theorem get_commandBlock (f : σ → List UInt8 → σ × Answer) {command : List UInt8} {ifsc : Nat}
    (hifsc : ifsc ≤ 254) {ns : UInt8} {k : Nat} {c : Card σ} (hawait : c.await = .command)
    (hns : c.ns = nsAt ns (k + 1)) (hbuf : c.buf = command.take (k * ifsc)) :
    c.get f ifsc (commandBlock command ifsc ns k) =
      if k + 1 < blockCount command ifsc then
        ({ c with ns := nsAt ns (k + 2), buf := command.take ((k + 1) * ifsc) },
          rBlock t1BlockROk (nsAt ns (k + 2)))
      else
        Card.emit { c with
            app := (f c.app (command.take ((k + 1) * ifsc))).1, ns := nsAt ns (k + 2), buf := [] }
          (f c.app (command.take ((k + 1) * ifsc))).2.last
          (f c.app (command.take ((k + 1) * ifsc))).2.outs := by
  have hinf : ((command.drop (k * ifsc)).take ifsc).length ≤ ifsc := List.length_take_le ..
  have hseq : IsSeq (nsAt ns (k + 1)) := isSeq_nextNs _
  have hparse : parseI ifsc (commandBlock command ifsc ns k) = _ :=
    parseI_iBlock hinf hifsc hseq (decide (k + 1 < blockCount command ifsc))
  have hall : c.buf ++ (command.drop (k * ifsc)).take ifsc = command.take ((k + 1) * ifsc) := by
    rw [hbuf, Nat.succ_mul, List.take_add]
  have hsame : ¬ nsAt ns (k + 1) ≠ c.ns := not_not.mpr hns.symm
  rw [Card.get, hawait]
  simp only [hparse, if_neg hsame, hall, decide_eq_true_eq]
  rfl

/-- The card gets a command. -/
theorem sendChain_card (f : σ → List UInt8 → σ × Answer) {command : List UInt8} {ifsc : Nat}
    (hlen : command.length < 2 ^ 16) (hpos : 0 < ifsc) (hifsc : ifsc ≤ 254) {fuel k : Nat}
    {ns : UInt8} {c : Card σ} (hk : k < blockCount command ifsc)
    (hfuel : blockCount command ifsc ≤ k + fuel) (hawait : c.await = .command)
    (hns : c.ns = nsAt ns (k + 1)) (hbuf : c.buf = command.take (k * ifsc)) :
    sendChain (cardLine f ifsc) command ifsc fuel (k * ifsc) (nsAt ns k) (c, []) =
      some (true, nsAt ns (blockCount command ifsc), Card.emit { c with
          app := (f c.app command).1, ns := nsAt ns (blockCount command ifsc + 1), buf := [] }
        (f c.app command).2.last (f c.app command).2.outs) := by
  induction fuel generalizing k c with
  | zero => omega
  | succ fuel ih =>
    have hget := get_commandBlock f hifsc hawait hns hbuf
    have hsend : (cardLine f ifsc).transmit (commandBlock command ifsc ns k) (c, []) =
        (true, c.get f ifsc (commandBlock command ifsc ns k)) := by
      simp only [cardLine, List.nil_append]
    rw [sendChain_round hlen hpos (by omega), hsend, hget]
    by_cases hmore : k + 1 < blockCount command ifsc
    · have hrecv := receiveBlock_rBlock f ifsc { c with
          ns := nsAt ns (k + 2), buf := command.take ((k + 1) * ifsc) } t1BlockROk (nsAt ns (k + 2))
      have htype : rspType (rBlock t1BlockROk (nsAt ns (k + 2))) = t1BlockROk := by
        obtain h | h : IsSeq (nsAt ns (k + 2)) := isSeq_nextNs _ <;> rw [h] <;> decide
      have hrest := ih (c := { c with
        ns := nsAt ns (k + 2), buf := command.take ((k + 1) * ifsc) }) hmore (by omega) hawait rfl rfl
      simp only [if_pos hmore, hrecv, if_pos htype]
      exact hrest
    · have hend : k + 1 = blockCount command ifsc := by omega
      have hwhole : command.take ((k + 1) * ifsc) = command := by
        rw [hend, List.take_of_length_le (length_le_blockCount command hpos)]
      simp only [if_neg hmore, hwhole]
      rw [← hend]

/-- One command and its answer. -/
theorem protocolT1Command_card {f : σ → List UInt8 → σ × Answer} (hf : ∀ a b, (f a b).2.Valid)
    {command : List UInt8} {ifsc : Nat} (hlen : command.length < 2 ^ 16)
    (hifs : command.getD 1 0 ≠ t1BlockSIfsReq) (hpos : 0 < ifsc) (hifsc : ifsc ≤ 254) {ns : UInt8}
    {c : Card σ} (hsync : Sync ns c) :
    ∃ ns' c' n, Sync ns' c' ∧ c'.app = (f c.app command).1 ∧ ∀ fuel, n ≤ fuel →
      protocolT1Command (cardLine f ifsc) ifsc fuel command ns (c, []) =
        some (some (f c.app command).2.data, ns', (c', [])) := by
  have hvalid := hf c.app command
  refine ⟨nsAt ns (blockCount command ifsc), { c with
      app := (f c.app command).1, ns := nsAt ns (blockCount command ifsc + 1), buf := []
      await := .command, own := ownAfter c.own (f c.app command).2.outs },
    max (blockCount command ifsc) ((f c.app command).2.outs.length + 1),
    ⟨rfl, rfl, rfl, isSeq_ownAfter _ _⟩, rfl, fun fuel hfuel => ?_⟩
  have hchain := sendChain_card f hlen hpos hifsc (Nat.succ_pos _)
    (show blockCount command ifsc ≤ 0 + fuel by omega) hsync.await hsync.ns
    (by rw [hsync.buf, Nat.zero_mul, List.take_zero])
  rw [Nat.zero_mul, nsAt] at hchain
  have hanswer := receiveAnswer_card f ifsc hvalid.blocks hvalid.last (c := { c with
      app := (f c.app command).1, ns := nsAt ns (blockCount command ifsc + 1), buf := [] })
    hsync.own (show ([] : List UInt8).length + _ ≤ _ by
      rw [List.length_nil, Nat.zero_add]; exact hvalid.data) (show _ < fuel by omega)
  rw [protocolT1Command, if_neg hifs, hchain]
  simp only [hanswer]
  rfl

/-- A session: one command after the other. -/
def session {κ : Type} (L : Line κ) (ifsc fuel : Nat) :
    List (List UInt8) → UInt8 → κ → Option (List (Option (List UInt8)) × UInt8 × κ)
  | [], ns, s => some ([], ns, s)
  | command :: commands, ns, s =>
    match iccAsyncCardWrite L ifsc fuel command ns s with
    | none => none
    | some (r, ns, s) =>
      match session L ifsc fuel commands ns s with
      | none => none
      | some (rs, ns, s) => some (r :: rs, ns, s)

/-- What the application of the card answers to some commands. -/
def answers (f : σ → List UInt8 → σ × Answer) : σ → List (List UInt8) → List (List UInt8)
  | _, [] => []
  | a, command :: commands => (f a command).2.data :: answers f (f a command).1 commands

/-- A card that counts its commands and answers with the count and the command, in two blocks
    and after a request for more time. -/
def echoCard (a : UInt8) (command : List UInt8) : UInt8 × Answer :=
  (a + 1, ⟨[.inf [a], .wtx 3], command.take 200⟩)

theorem echoCard_valid (a : UInt8) (command : List UInt8) : (echoCard a command).2.Valid := by
  have hlast : (command.take 200).length ≤ 200 := List.length_take_le ..
  refine ⟨fun data hdata => ?_, Nat.le_trans hlast (by decide), ?_⟩
  · obtain heq | hdata := List.mem_cons.mp hdata
    · cases heq
      exact show 1 ≤ 254 by decide
    · cases List.mem_singleton.mp hdata
  · have hdata : (echoCard a command).2.data = a :: command.take 200 := rfl
    rw [hdata, List.length_cons, t1BlockMaxSize]
    omega

/-- The state of a card behind its reset. -/
def freshCard : Card UInt8 := ⟨0, 0, 0, [], .command⟩

end Tntsat.T1
