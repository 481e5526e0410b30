import Mathlib.Algebra.Group.Nat.Defs
import Mathlib.Data.List.Basic
import Tntsat.Native.Cc608Xds

/-!
# XDS packets that interrupt each other

CEA-608 names a packet by its class and its type.  A start code suspends the packet in
progress, and a continue code resumes a packet that is suspended.  The channel keeps every
packet that has started and not ended, the most recent one first; the decoder keeps two.

## Key results

- `packets_intact`: packets are output as they were sent as long as no packet starts while
  one is suspended and another in progress, and the packet that is resumed is the one
  whose data the decoder has in its packet buffer
- `intact_only_if`: a code that does not keep to this is followed by a packet that goes
  wrong, for some sequence of codes behind it
- `nested_lost`: a packet that is suspended by one that is suspended itself is lost
-/

namespace Tntsat.Cc608Xds

/-! ## What is sent -/

/-- What names a packet. -/
structure Key where
  xdsClass : XdsClass
  type : UInt8
deriving DecidableEq

/-- The start code of a class, `CLASS_CURRENT_START` to `CLASS_PRIVATE_START`. -/
def startCode : XdsClass → UInt8
  | .cur => 0x01
  | .fut => 0x03
  | .chan => 0x05
  | .misc => 0x07
  | .pub => 0x09
  | .resv => 0x0b
  | .priv => 0x0d

/-- A pair of bytes of a packet. -/
inductive Code
  | start (k : Key)
  | resume (k : Key)
  | data (b1 b2 : UInt8)
  | finish (checksum : UInt8)
deriving DecidableEq

/-- The bytes of a code.  The continue code of a class follows its start code. -/
def Code.bytes : Code → UInt8 × UInt8
  | .start k => (startCode k.xdsClass, k.type)
  | .resume k => (startCode k.xdsClass + 1, k.type)
  | .data b1 b2 => (b1, b2)
  | .finish checksum => (classPacketEnd, checksum)

/-- A packet and its data so far. -/
abbrev Packet := Key × List UInt8

/-- The packets that have started and not ended, the one most recently in progress first;
    while one is in progress it is the first. -/
structure Channel where
  sending : Bool := false
  packets : List Packet := []
deriving DecidableEq

/-- The packet in progress. -/
def Channel.inProgress (ch : Channel) : Option Packet :=
  if ch.sending then ch.packets.head? else none

/-- Data go to the first packet. -/
def Channel.append (data : List UInt8) : List Packet → List Packet
  | [] => []
  | (k, d) :: rest => (k, d ++ data) :: rest

/-- The channel behind a code. -/
def Channel.send (ch : Channel) : Code → Channel
  | .start k => { sending := true, packets := (k, []) :: ch.packets }
  | .resume k =>
    { sending := true
      packets := (k, (ch.packets.lookup k).getD []) :: ch.packets.filter (·.1 ≠ k) }
  | .data b1 b2 => { ch with packets := append [b1, b2] ch.packets }
  | .finish _ => { sending := false, packets := ch.packets.tail }

/-- The packet that a code completes. -/
def Channel.due (ch : Channel) : Code → Option XdsData
  | .finish _ =>
    ch.inProgress.map fun p =>
      { u8XDSClass := p.1.xdsClass, u8XDSPacketType := p.1.type, pu8Data := p.2 }
  | _ => none

/-- A printable character, or the zero that fills a pair. -/
def DataByte (b : UInt8) : Prop := b = 0 ∨ 0x20 ≤ b ∧ b ≤ 0x7f

instance (b : UInt8) : Decidable (DataByte b) := inferInstanceAs (Decidable (_ ∨ _))

/-- The codes that packets are made of: a packet starts under a name that is not in use, a
    continue code names a suspended packet, data go to a packet with room for them and
    only a packet with data ends. -/
def Channel.Permits (ch : Channel) : Code → Prop
  | .start k => k.type < cc608XdsMaxType ∧ ch.packets.lookup k = none
  | .resume k => (ch.packets.lookup k).isSome ∧ ch.inProgress.map Prod.fst ≠ some k
  | .data b1 b2 =>
    DataByte b1 ∧ DataByte b2 ∧ ∃ p ∈ ch.inProgress, p.2.length + 2 ≤ maxXdsPacketLen - 2
  | .finish _ => ∃ p ∈ ch.inProgress, p.2 ≠ []

instance (ch : Channel) : (code : Code) → Decidable (ch.Permits code)
  | .start _ => inferInstanceAs (Decidable (_ ∧ _))
  | .resume _ => inferInstanceAs (Decidable (_ ∧ _))
  | .data _ _ => inferInstanceAs (Decidable (_ ∧ _ ∧ _))
  | .finish _ => inferInstanceAs (Decidable (∃ p ∈ ch.inProgress, _))

/-- The decoder beside the channel. -/
def received : Machine (XdsObject × Channel) Code Decoded where
  step s code :=
    let (o, decoded) := xdsDecode s.1 code.bytes.1 code.bytes.2
    ((o, s.2.send code), decoded)

/-- The codes of the run are those of packets. -/
def WellFormed (s : XdsObject × Channel) (code : Code) : Prop := s.2.Permits code

instance (s : XdsObject × Channel) (code : Code) : Decidable (WellFormed s code) :=
  inferInstanceAs (Decidable (s.2.Permits code))

/-- The packet that is complete is output with its name and its data, and nothing else. -/
def StepOk (s : XdsObject × Channel) (code : Code) : Prop :=
  (received.step s code).2.output = s.2.due code

instance (s : XdsObject × Channel) (code : Code) : Decidable (StepOk s code) :=
  inferInstanceAs (Decidable (_ = _))

/-- A packet starts only when at most one other has not ended, and the one that is resumed
    is the one most recently in progress, or has the same data so far. -/
def AtMostTwo (s : XdsObject × Channel) : Code → Prop
  | .start _ => s.2.packets.length < 2
  | .resume k => s.2.packets.lookup k = s.2.packets.head?.map Prod.snd
  | _ => True

instance (s : XdsObject × Channel) : (code : Code) → Decidable (AtMostTwo s code)
  | .start _ => inferInstanceAs (Decidable (_ < _))
  | .resume _ => inferInstanceAs (Decidable (_ = _))
  | .data _ _ => inferInstanceAs (Decidable True)
  | .finish _ => inferInstanceAs (Decidable True)

/-- No packet is in progress and none is suspended. -/
def Idle (o : XdsObject) : Prop := o.u8IsPacketStarted = false ∧ o.u8IsBackupStarted = false

/-! ## What the decoder does with a code -/

/-- The class of a start or continue code. -/
def classOf (b1 : UInt8) : XdsClass := eXDSClassTable.getD ((b1.toNat - 1) >>> 1) .cur

theorem startCode_spec (xdsClass : XdsClass) :
    startCode xdsClass ≠ classPacketEnd ∧
      (classCurrentStart ≤ startCode xdsClass ∧ startCode xdsClass ≤ classPrivateContinue) ∧
      startCode xdsClass &&& 1 ≠ 0 ∧ classOf (startCode xdsClass) = xdsClass := by
  cases xdsClass <;> decide

theorem continueCode_spec (xdsClass : XdsClass) :
    startCode xdsClass + 1 ≠ classPacketEnd ∧
      (classCurrentStart ≤ startCode xdsClass + 1 ∧
        startCode xdsClass + 1 ≤ classPrivateContinue) ∧
      ¬ (startCode xdsClass + 1) &&& 1 ≠ 0 ∧ classOf (startCode xdsClass + 1) = xdsClass := by
  cases xdsClass <;> decide

/-- A packet in progress, in an object that keeps its buffers. -/
def label (o : XdsObject) (k : Key) : XdsObject :=
  { o with u8IsPacketStarted := true, enCurXDSClass := k.xdsClass, u8CurXDSType := k.type }

theorem xdsDecode_start (o : XdsObject) (k : Key) :
    xdsDecode o (startCode k.xdsClass) k.type = (label (suspend o) k, {}) := by
  obtain ⟨hend, hclass, hodd, htable⟩ := startCode_spec k.xdsClass
  rw [classOf] at htable
  rw [xdsDecode, if_neg hend, if_pos hclass, if_pos hodd, htable, label]

theorem xdsDecode_resume (o : XdsObject) (k : Key) :
    xdsDecode o (startCode k.xdsClass + 1) k.type = (label o k, {}) := by
  obtain ⟨hend, hclass, heven, htable⟩ := continueCode_spec k.xdsClass
  rw [classOf] at htable
  rw [xdsDecode, if_neg hend, if_pos hclass, if_neg heven, htable, label]

theorem xdsDecode_finish (o : XdsObject) (checksum : UInt8) :
    xdsDecode o classPacketEnd checksum = (restore o, { output := endXDSPacket o }) := by
  rw [xdsDecode, if_pos rfl]

theorem DataByte.legal {b : UInt8} (h : DataByte b) :
    ¬ illegal b ∧ b ≠ classPacketEnd ∧ ¬ (classCurrentStart ≤ b ∧ b ≤ classPrivateContinue) := by
  simp only [DataByte, illegal, classPacketEnd, classCurrentStart, classPrivateContinue,
    ← UInt8.toNat_inj, UInt8.le_iff_toNat_le, UInt8.lt_iff_toNat_lt, ne_eq] at h ⊢
  simp only [UInt8.reduceToNat] at h ⊢
  omega

theorem xdsDecode_data {o : XdsObject} {b1 b2 : UInt8} (h1 : DataByte b1) (h2 : DataByte b2)
    (hstarted : o.u8IsPacketStarted) (hroom : o.au8PacketData.length < maxXdsPacketLen - 2) :
    xdsDecode o b1 b2 = ({ o with au8PacketData := o.au8PacketData ++ [b1, b2] }, {}) := by
  obtain ⟨hlegal, hend, hclass⟩ := h1.legal
  rw [xdsDecode, if_neg hend, if_neg hclass, if_pos hstarted, store,
    if_neg (not_or.mpr ⟨hlegal, h2.legal.1⟩), if_pos hroom]

/-! ## The two buffers hold the packets of the channel -/

/-- The data in the buffers, those of the packet in progress first. -/
def buffers (o : XdsObject) : List (List UInt8) :=
  (if o.u8IsPacketStarted then [o.au8PacketData] else []) ++
    if o.u8IsBackupStarted then [o.au8BackupPacketData] else []

/-- What holds behind every code. -/
structure Inv (o : XdsObject) (ch : Channel) : Prop where
  held : ch.packets.map Prod.snd = buffers o
  backup : o.u8IsBackupStarted → o.u8IsPacketStarted
  label : ∀ p ∈ ch.inProgress, p.1 = ⟨o.enCurXDSClass, o.u8CurXDSType⟩
  names : (ch.packets.map Prod.fst).Nodup
  types : ∀ p ∈ ch.packets, p.1.type < cc608XdsMaxType
  short : ∀ p ∈ ch.packets, p.2.length ≤ maxXdsPacketLen - 2

theorem mem_inProgress {ch : Channel} {p : Packet} :
    p ∈ ch.inProgress ↔ ch.sending = true ∧ ∃ rest, ch.packets = p :: rest := by
  rw [Channel.inProgress]
  split
  · simp_all [List.head?_eq_some_iff]
  · simp_all

/-- The packets are none, the one in progress, or this and the one in the backup buffer. -/
inductive Held (o : XdsObject) (packets : List Packet) : Prop
  | none (hstarted : o.u8IsPacketStarted = false) (hbackup : o.u8IsBackupStarted = false)
      (heq : packets = [])
  | one (p : Packet) (hstarted : o.u8IsPacketStarted = true) (hbackup : o.u8IsBackupStarted = false)
      (heq : packets = [p]) (hp : p.2 = o.au8PacketData)
  | two (p q : Packet) (hstarted : o.u8IsPacketStarted = true)
      (hbackup : o.u8IsBackupStarted = true) (heq : packets = [p, q])
      (hp : p.2 = o.au8PacketData) (hq : q.2 = o.au8BackupPacketData)

theorem Inv.cases {o : XdsObject} {ch : Channel} (h : Inv o ch) : Held o ch.packets := by
  have hheld := h.held
  have hbackup := h.backup
  rw [buffers] at hheld
  cases hs : o.u8IsPacketStarted with
  | false =>
    cases hb : o.u8IsBackupStarted with
    | false => exact .none hs hb (by simpa [hs, hb] using hheld)
    | true => simp [hs, hb] at hbackup
  | true =>
    cases hb : o.u8IsBackupStarted with
    | false =>
      simp only [hs, hb, if_true, Bool.false_eq_true, if_false, List.append_nil,
        List.map_eq_singleton_iff] at hheld
      obtain ⟨p, heq, hp⟩ := hheld
      exact .one p hs hb heq hp
    | true =>
      simp only [hs, hb, if_true, List.cons_append, List.nil_append, List.map_eq_cons_iff,
        List.map_eq_nil_iff] at hheld
      obtain ⟨p, _, heq, hp, q, _, rfl, hq, rfl⟩ := hheld
      exact .two p q hs hb heq hp hq

/-- A name that is not in use. -/
theorem not_mem_names {packets : List Packet} {k : Key} (h : packets.lookup k = none) :
    k ∉ packets.map Prod.fst := by
  rw [List.lookup_eq_none_iff] at h
  intro hmem
  obtain ⟨p, hp, rfl⟩ := List.mem_map.mp hmem
  simpa using h p hp

theorem lookup_cons (p : Packet) (packets : List Packet) (k : Key) :
    (p :: packets).lookup k = if p.1 = k then some p.2 else packets.lookup k := by
  obtain ⟨k', d⟩ := p
  by_cases h : k = k'
  · simp [h]
  · have hbeq : (k == k') = false := by simpa using h
    rw [List.lookup_cons, hbeq, if_neg (Ne.symm h)]

/-- The first packet is in the packet buffer, what stands behind it in the other one. -/
theorem Inv.first {o : XdsObject} {ch : Channel} {p : Packet} {rest : List Packet} (h : Inv o ch)
    (heq : ch.packets = p :: rest) :
    o.u8IsPacketStarted = true ∧ p.2 = o.au8PacketData ∧
      rest.map Prod.snd = if o.u8IsBackupStarted then [o.au8BackupPacketData] else [] := by
  cases h.cases with
  | none hs hb hnil => simp [heq] at hnil
  | one q hs hb hone hq =>
    obtain ⟨rfl, rfl⟩ := List.cons.inj (heq.symm.trans hone)
    simp [hs, hb, hq]
  | two q q' hs hb htwo hq hq' =>
    obtain ⟨rfl, rfl⟩ := List.cons.inj (heq.symm.trans htwo)
    simp [hs, hb, hq, hq']

theorem mem_of_lookup {packets : List Packet} {k : Key} {d : List UInt8}
    (h : packets.lookup k = some d) : (k, d) ∈ packets := by
  obtain ⟨l₁, l₂, heq, -⟩ := List.lookup_eq_some_iff.mp h
  simp [heq]

theorem Inv.start {o : XdsObject} {ch : Channel} {k : Key} (h : Inv o ch)
    (hk : ch.Permits (.start k)) (htwo : ch.packets.length < 2) :
    Inv (Cc608Xds.label (suspend o) k) (ch.send (.start k)) := by
  have hheld : (ch.send (.start k)).packets.map Prod.snd =
      buffers (Cc608Xds.label (suspend o) k) := by
    cases h.cases with
    | none hs hb heq => simp [Channel.send, heq, buffers, Cc608Xds.label, suspend, hs, hb]
    | one p hs hb heq hp =>
      have hlen : o.au8PacketData.length ≤ maxXdsPacketLen := by
        rw [← hp]
        exact Nat.le_trans (h.short p (by simp [heq])) (Nat.sub_le _ _)
      simp [Channel.send, heq, buffers, Cc608Xds.label, suspend, hs, hp, hlen]
    | two p q hs hb heq => simp [heq] at htwo
  refine ⟨hheld, fun _ => rfl, ?_, ?_, ?_, ?_⟩
  · intro p hp
    obtain ⟨-, rest, heq⟩ := mem_inProgress.mp hp
    exact (Prod.ext_iff.mp (List.cons.inj heq).1).1.symm
  · exact List.nodup_cons.mpr ⟨not_mem_names hk.2, h.names⟩
  · exact List.forall_mem_cons.mpr ⟨hk.1, h.types⟩
  · exact List.forall_mem_cons.mpr ⟨Nat.zero_le _, h.short⟩

/-- What is known of each packet stays known when one of them is resumed. -/
theorem forall_resumed {ch : Channel} {k : Key} {P : Packet → Prop} (h : ∀ p ∈ ch.packets, P p)
    (hk : (ch.packets.lookup k).isSome) : ∀ p ∈ (ch.send (.resume k)).packets, P p := by
  obtain ⟨d, hd⟩ := Option.isSome_iff_exists.mp hk
  rw [Channel.send, hd]
  refine List.forall_mem_cons.mpr ⟨h _ (mem_of_lookup hd), fun p hp => ?_⟩
  exact h p (List.mem_filter.mp hp).1

theorem Inv.resume {o : XdsObject} {ch : Channel} {k : Key} (h : Inv o ch)
    (hk : ch.Permits (.resume k))
    (htop : ch.packets.lookup k = ch.packets.head?.map Prod.snd) :
    Inv (Cc608Xds.label o k) (ch.send (.resume k)) := by
  have hheld : (ch.send (.resume k)).packets.map Prod.snd = buffers (Cc608Xds.label o k) := by
    obtain ⟨d, hd⟩ := Option.isSome_iff_exists.mp hk.1
    rw [Channel.send, hd]
    cases h.cases with
    | none hs hb heq => simp [heq] at hd
    | one p hs hb heq hp =>
      rw [heq, lookup_cons] at hd
      split at hd
      · rename_i hkp
        cases hd
        simp [heq, hkp, buffers, Cc608Xds.label, hb, hp]
      · simp at hd
    | two p q hs hb heq hp hq =>
      have hdp : d = p.2 := by
        rw [hd, heq] at htop
        exact Option.some.inj htop
      have hpq : p.1 ≠ q.1 := by
        have := h.names
        simp_all
      rw [heq, lookup_cons] at hd
      split at hd
      · -- the packet is still in progress, or was restored
        rename_i hkp
        subst hkp
        simp [heq, hpq.symm, buffers, Cc608Xds.label, hb, hdp, hp, hq]
      · -- the other packet has the same data
        rename_i hkp
        rw [lookup_cons] at hd
        split at hd
        · rename_i hkq
          subst hkq
          cases hd
          simp [heq, hpq, buffers, Cc608Xds.label, hb, ← hp, ← hq, hdp]
        · simp at hd
  refine ⟨hheld, fun _ => rfl, ?_, ?_, forall_resumed h.types hk.1, forall_resumed h.short hk.1⟩
  · intro p hp
    obtain ⟨-, rest, heq⟩ := mem_inProgress.mp hp
    exact (Prod.ext_iff.mp (List.cons.inj heq).1).1.symm
  · have hnot : k ∉ (ch.packets.filter (·.1 ≠ k)).map Prod.fst := by simp
    exact List.nodup_cons.mpr ⟨hnot, h.names.sublist (List.filter_sublist.map _)⟩

theorem Inv.data {o : XdsObject} {ch : Channel} {b1 b2 : UInt8} (h : Inv o ch)
    (hk : ch.Permits (.data b1 b2)) :
    Inv { o with au8PacketData := o.au8PacketData ++ [b1, b2] } (ch.send (.data b1 b2)) := by
  obtain ⟨-, -, p, hp, hroom⟩ := hk
  obtain ⟨hsending, rest, heq⟩ := mem_inProgress.mp hp
  have hsend : ch.send (.data b1 b2) = { ch with packets := (p.1, p.2 ++ [b1, b2]) :: rest } := by
    rw [Channel.send, heq]
    rfl
  have hnames := h.names
  have htypes := h.types
  have hshort := h.short
  have hlabel := h.label p hp
  rw [heq] at hnames htypes hshort
  rw [hsend]
  refine ⟨?_, h.backup, ?_, hnames, ?_, ?_⟩
  · obtain ⟨hs, hdata, hrest⟩ := h.first heq
    simp [buffers, hs, hdata, hrest]
  · intro q hq
    obtain ⟨-, _, hq⟩ := mem_inProgress.mp hq
    rw [← (List.cons.inj hq).1]
    exact hlabel
  · exact List.forall_mem_cons.mpr ⟨htypes p List.mem_cons_self, fun q hq => htypes q (.tail _ hq)⟩
  · refine List.forall_mem_cons.mpr ⟨?_, fun q hq => hshort q (.tail _ hq)⟩
    simpa using hroom

theorem Inv.finish {o : XdsObject} {ch : Channel} {checksum : UInt8} (h : Inv o ch)
    (hk : ch.Permits (.finish checksum)) :
    Inv (restore o) (ch.send (.finish checksum)) := by
  obtain ⟨p, hp, -⟩ := hk
  obtain ⟨-, rest, heq⟩ := mem_inProgress.mp hp
  have hnames := h.names
  have htypes := h.types
  have hshort := h.short
  rw [heq] at hnames htypes hshort
  have hsend : ch.send (.finish checksum) = { sending := false, packets := rest } := by
    rw [Channel.send, heq]
    rfl
  -- after the end no packet is being sent
  have hnone : ∀ q ∈ (ch.send (.finish checksum)).inProgress,
      q.1 = ⟨(restore o).enCurXDSClass, (restore o).u8CurXDSType⟩ := by
    intro q hq
    exact nomatch (mem_inProgress.mp hq).1
  rw [hsend] at hnone ⊢
  obtain ⟨hs, hdata, hrest⟩ := h.first heq
  refine ⟨?_, ?_, hnone, (List.nodup_cons.mp hnames).2, fun q hq => htypes q (.tail _ hq),
    fun q hq => hshort q (.tail _ hq)⟩
  · dsimp only
    rw [hrest]
    -- the packet that was interrupted comes back from the backup
    cases hb : o.u8IsBackupStarted with
    | false => simp [restore, buffers, hb]
    | true =>
      have hlen : o.au8BackupPacketData.length ≤ maxXdsPacketLen := by
        obtain ⟨q, hq, hqb⟩ : ∃ q ∈ rest, q.2 = o.au8BackupPacketData := by
          rw [← List.mem_map, hrest, hb]
          exact List.mem_singleton.mpr rfl
        rw [← hqb]
        exact Nat.le_trans (hshort q (.tail _ hq)) (Nat.sub_le _ _)
      simp [restore, buffers, hb, hlen]
  · intro hb
    cases hbackup : o.u8IsBackupStarted <;> simp_all [restore]

/-! ## Runs -/

theorem step_start (s : XdsObject × Channel) (k : Key) :
    received.step s (.start k) = ((Cc608Xds.label (suspend s.1) k, s.2.send (.start k)), {}) := by
  simp only [received, Code.bytes, xdsDecode_start]

theorem step_resume (s : XdsObject × Channel) (k : Key) :
    received.step s (.resume k) = ((Cc608Xds.label s.1 k, s.2.send (.resume k)), {}) := by
  simp only [received, Code.bytes, xdsDecode_resume]

theorem step_finish (s : XdsObject × Channel) (checksum : UInt8) :
    received.step s (.finish checksum) =
      ((restore s.1, s.2.send (.finish checksum)), { output := endXDSPacket s.1 }) := by
  simp only [received, Code.bytes, xdsDecode_finish]

theorem step_data {s : XdsObject × Channel} {b1 b2 : UInt8} (hk : s.2.Permits (.data b1 b2))
    (hstarted : s.1.u8IsPacketStarted)
    (hroom : s.1.au8PacketData.length < maxXdsPacketLen - 2) :
    received.step s (.data b1 b2) =
      (({ s.1 with au8PacketData := s.1.au8PacketData ++ [b1, b2] }, s.2.send (.data b1 b2)),
        {}) := by
  simp only [received, Code.bytes, xdsDecode_data hk.1 hk.2.1 hstarted hroom]

/-- A packet that is complete is output as it is in the packet buffer. -/
theorem endXDSPacket_eq {o : XdsObject} {k : Key} (hk : k = ⟨o.enCurXDSClass, o.u8CurXDSType⟩)
    (htype : k.type < cc608XdsMaxType) (hstarted : o.u8IsPacketStarted = true)
    (hdata : o.au8PacketData ≠ []) :
    endXDSPacket o =
      some
        { u8XDSClass := k.xdsClass
          u8XDSPacketType := k.type
          pu8Data := o.au8PacketData } := by
  subst hk
  rw [endXDSPacket, if_neg (UInt8.not_le.mpr htype),
    if_pos ⟨List.length_pos_iff.mpr hdata, hstarted⟩]

/-- One code: what it outputs, and what becomes of the buffers. -/
theorem received_step {s : XdsObject × Channel} {code : Code} (h : Inv s.1 s.2)
    (hk : s.2.Permits code) (htwo : AtMostTwo s code) :
    StepOk s code ∧ Inv (received.step s code).1.1 (received.step s code).1.2 := by
  cases code with
  | start k =>
    rw [StepOk, step_start]
    exact ⟨rfl, h.start hk htwo⟩
  | resume k =>
    rw [StepOk, step_resume]
    exact ⟨rfl, h.resume hk htwo⟩
  | data b1 b2 =>
    have ⟨_, _, p, hp, hroom⟩ := hk
    obtain ⟨-, rest, heq⟩ := mem_inProgress.mp hp
    obtain ⟨hstarted, hdata, -⟩ := h.first heq
    rw [StepOk, step_data hk hstarted (by rw [← hdata]; omega)]
    exact ⟨rfl, h.data hk⟩
  | finish checksum =>
    have ⟨p, hp, hne⟩ := hk
    obtain ⟨-, rest, heq⟩ := mem_inProgress.mp hp
    obtain ⟨hstarted, hdata, -⟩ := h.first heq
    have htype : p.1.type < cc608XdsMaxType := h.types p (by simp [heq])
    rw [StepOk, step_finish, endXDSPacket_eq (h.label p hp) htype hstarted (hdata ▸ hne),
      Channel.due, Option.mem_def.mp hp, ← hdata]
    exact ⟨rfl, h.finish hk⟩

theorem inv_idle {o : XdsObject} (h : Idle o) : Inv o {} := by
  refine ⟨?_, ?_, ?_, List.nodup_nil, by simp, by simp⟩
  · simp [buffers, h.1, h.2]
  · simp [h.2]
  · intro p hp
    exact nomatch (mem_inProgress.mp hp).1

/-- A run that keeps to the condition keeps the packets. -/
theorem received_run {o : XdsObject} {codes : List Code} (hidle : Idle o)
    (hwf : received.Always WellFormed (o, {}) codes)
    (htwo : received.Always AtMostTwo (o, {}) codes) :
    received.Always StepOk (o, {}) codes ∧
      Inv (received.final (o, {}) codes).1 (received.final (o, {}) codes).2 :=
  Machine.always_of_invariant (I := fun s => Inv s.1 s.2)
    (fun _ _ h hc => received_step h hc.1 hc.2) (inv_idle hidle) (hwf.and _ htwo)

/-- In a sequence of packets that interrupt each other, every packet that reaches its end
    is output once, with its name and its data, and nothing else is, as long as no packet
    starts while two have not ended, and a packet that is resumed is the one most recently
    in progress or has the same data so far. -/
theorem packets_intact (o : XdsObject) (codes : List Code) (hidle : Idle o)
    (hwf : received.Always WellFormed (o, {}) codes)
    (htwo : received.Always AtMostTwo (o, {}) codes) :
    received.Always StepOk (o, {}) codes :=
  (received_run hidle hwf htwo).1

/-- `packets_intact` on a packet that is interrupted twice. -/
theorem packets_intact_twice :
    received.Always StepOk ({}, {})
      [.start ⟨.cur, 0x03⟩, .data 0x41 0x42, .start ⟨.misc, 0x01⟩, .data 0x30 0x31, .finish 0x10,
        .resume ⟨.cur, 0x03⟩, .data 0x43 0x44, .start ⟨.chan, 0x01⟩, .data 0x50 0, .finish 0x11,
        .resume ⟨.cur, 0x03⟩, .finish 0x12] :=
  packets_intact _ _ ⟨rfl, rfl⟩ (by decide +kernel) (by decide +kernel)

/-! ## The condition is needed -/

/-- A packet whose data are not those in the packet buffer is not output as it was sent. -/
theorem finish_wrong {s : XdsObject × Channel} {k : Key} {d : List UInt8}
    (hp : s.2.inProgress = some (k, d)) (hd : d ≠ s.1.au8PacketData) :
    ¬ StepOk s (.finish 0) := by
  rw [StepOk, step_finish, Channel.due, hp]
  intro heq
  dsimp only [Option.map_some] at heq
  rw [endXDSPacket] at heq
  split at heq
  · cases heq
  · split at heq
    · exact hd (congrArg XdsData.pu8Data (Option.some.inj heq)).symm
    · cases heq

/-- A data pair does not make up for data of another packet. -/
theorem store_ne {o : XdsObject} {b1 b2 : UInt8} (h1 : DataByte b1) (h2 : DataByte b2)
    (hstarted : o.u8IsPacketStarted = true) (hne : o.au8PacketData ≠ []) :
    (xdsDecode o b1 b2).1.au8PacketData ≠ [b1, b2] := by
  obtain ⟨hlegal, hend, hclass⟩ := h1.legal
  rw [xdsDecode, if_neg hend, if_neg hclass, if_pos hstarted, store,
    if_neg (not_or.mpr ⟨hlegal, h2.legal.1⟩)]
  split
  · intro heq
    exact hne (by simpa using heq)
  · split
    · simp
    · rename_i hlong _
      intro heq
      dsimp only at heq
      simp [heq, maxXdsPacketLen] at hlong

/-- A packet of which the packet buffer holds other data goes wrong at its end. -/
theorem goes_wrong {s : XdsObject × Channel} {k : Key} {d : List UInt8}
    (hp : s.2.inProgress = some (k, d)) (hd : d ≠ s.1.au8PacketData)
    (hstarted : s.1.u8IsPacketStarted = true) :
    ∃ codes, received.Always WellFormed s codes ∧ ¬ received.Always StepOk s codes := by
  by_cases hempty : d = []
  · -- the packet needs data before it can end
    subst hempty
    obtain ⟨hsending, rest, heq⟩ := mem_inProgress.mp hp
    have hnext : (received.step s (.data 0x20 0x20)).1.2.inProgress = some (k, [0x20, 0x20]) := by
      simp [received, Channel.send, Channel.inProgress, Channel.append, hsending, heq]
    have hdata : DataByte 0x20 := by decide
    have hwrong := store_ne hdata hdata hstarted hd.symm
    refine ⟨[.data 0x20 0x20, .finish 0], ⟨?_, ?_, trivial⟩, ?_⟩
    · exact ⟨hdata, hdata, _, hp, by simp [maxXdsPacketLen]⟩
    · exact ⟨_, hnext, by simp⟩
    · intro hok
      exact finish_wrong hnext hwrong.symm hok.2.1
  · exact ⟨[.finish 0], ⟨⟨_, hp, hempty⟩, trivial⟩, fun hok => finish_wrong hp hd hok.1⟩

/-- Some pair of equal characters is not the data of a packet. -/
theorem exists_ne (d : List UInt8) : ∃ x, DataByte x ∧ d ≠ [x, x] := by
  by_cases h : d = [0x20, 0x20]
  · exact ⟨0x21, by decide, by simp [h]⟩
  · exact ⟨0x20, by decide, h⟩

/-- A third packet takes the place of the second, which is lost. -/
theorem third_packet {s : XdsObject × Channel} {k : Key} {p q : Packet} (h : Inv s.1 s.2)
    (hk : s.2.Permits (.start k)) (heq : s.2.packets = [p, q]) :
    ∃ codes, received.Always WellFormed s (.start k :: codes) ∧
      ¬ received.Always StepOk s (.start k :: codes) := by
  obtain ⟨x, hx, hne⟩ := exists_ne q.2
  have hkq : k ≠ q.1 := fun hkq => not_mem_names hk.2 (by simp [heq, hkq])
  have hpq : p.1 ≠ q.1 := by
    have := h.names
    simp_all
  -- the packet buffer belongs to the third packet, which gets data
  set s₁ := (received.step s (.start k)).1 with hs₁
  rw [step_start] at hs₁
  have hch₁ : s₁.2 = { sending := true, packets := [(k, []), p, q] } := by
    rw [hs₁, ← heq]
    rfl
  have hdata₁ : s₁.1.au8PacketData = [] := by
    rw [hs₁]
    rfl
  have hpermits₁ : s₁.2.Permits (.data x x) :=
    ⟨hx, hx, (k, []), by rw [hch₁]; rfl, by simp [maxXdsPacketLen]⟩
  have hstep₁ := step_data hpermits₁ (by rw [hs₁]; rfl) (by simp [hdata₁, maxXdsPacketLen])
  set s₂ := (received.step s₁ (.data x x)).1 with hs₂
  rw [hstep₁] at hs₂
  have hch₂ : s₂.2 = { sending := true, packets := [(k, [x, x]), p, q] } := by
    rw [hs₂, hch₁]
    rfl
  have hlookup : s₂.2.packets.lookup q.1 = some q.2 := by
    simp [hch₂, lookup_cons, hkq, hpq]
  have hpermits₂ : s₂.2.Permits (.resume q.1) := by
    refine ⟨by simp [hlookup], ?_⟩
    simpa [hch₂, Channel.inProgress] using hkq
  -- the first packet is resumed, and has the data of the third
  obtain ⟨codes, hwf, hwrong⟩ : ∃ codes, received.Always WellFormed
      (received.step s₂ (.resume q.1)).1 codes ∧
        ¬ received.Always StepOk (received.step s₂ (.resume q.1)).1 codes := by
    rw [step_resume]
    apply goes_wrong (k := q.1) (d := q.2)
    · simp [Channel.inProgress, Channel.send, hlookup]
    · simpa [hs₂, label, hdata₁] using hne
    · rfl
  exact ⟨.data x x :: .resume q.1 :: codes, ⟨hk, hpermits₁, hpermits₂, hwf⟩,
    fun hok => hwrong hok.2.2.2⟩

/-- A code that does not keep to the condition is followed by a packet that goes wrong. -/
theorem step_only_if {s : XdsObject × Channel} {code : Code} (h : Inv s.1 s.2)
    (hk : s.2.Permits code) (hbreak : ¬ AtMostTwo s code) :
    ∃ codes, received.Always WellFormed s (code :: codes) ∧
      ¬ received.Always StepOk s (code :: codes) := by
  cases code with
  | start k =>
    -- only where two packets are in progress there is no place for a third
    cases h.cases with
    | none _ _ heq => exact absurd (by simp [AtMostTwo, heq]) hbreak
    | one p _ _ heq => exact absurd (by simp [AtMostTwo, heq]) hbreak
    | two p q _ _ heq => exact third_packet h hk heq
  | resume k =>
    obtain ⟨d, hd⟩ := Option.isSome_iff_exists.mp hk.1
    obtain ⟨p, rest, heq⟩ := List.exists_cons_of_ne_nil (List.ne_nil_of_mem (mem_of_lookup hd))
    -- the packet that is resumed is not the one in the decoder
    obtain ⟨codes, hwf, hwrong⟩ : ∃ codes, received.Always WellFormed
        (received.step s (.resume k)).1 codes ∧
          ¬ received.Always StepOk (received.step s (.resume k)).1 codes := by
      rw [step_resume]
      apply goes_wrong (k := k) (d := d)
      · simp [Channel.inProgress, Channel.send, hd]
      · rw [AtMostTwo, hd, heq] at hbreak
        intro hsame
        exact hbreak (congrArg some (hsame.trans (h.first heq).2.1.symm))
      · rfl
    exact ⟨codes, ⟨hk, hwf⟩, fun hok => hwrong hok.2⟩
  | data b1 b2 => exact absurd trivial hbreak
  | finish checksum => exact absurd trivial hbreak

/-- A run that breaks the condition for the first time goes on to lose a packet, or to output
    one with other data, for some sequence of packets. -/
theorem intact_only_if (o : XdsObject) (codes : List Code) (code : Code) (hidle : Idle o)
    (hwf : received.Always WellFormed (o, {}) (codes ++ [code]))
    (htwo : received.Always AtMostTwo (o, {}) codes)
    (hbreak : ¬ AtMostTwo (received.final (o, {}) codes) code) :
    ∃ rest, received.Always WellFormed (o, {}) (codes ++ code :: rest) ∧
      ¬ received.Always StepOk (o, {}) (codes ++ code :: rest) := by
  obtain ⟨hcodes, hcode, -⟩ := (Machine.Always.append _).mp hwf
  obtain ⟨rest, hrest, hwrong⟩ :=
    step_only_if (received_run hidle hcodes htwo).2 hcode hbreak
  exact ⟨rest, (Machine.Always.append _).mpr ⟨hcodes, hrest⟩,
    fun hok => hwrong ((Machine.Always.append _).mp hok).2⟩

/-- A packet that is suspended by one that is suspended itself is lost: nothing is output at
    its end. -/
theorem nested_lost :
    ¬ ∀ codes, received.Always WellFormed ({}, {}) codes →
      received.Always StepOk ({}, {}) codes := by
  intro h
  have hok := h
    [.start ⟨.cur, 0x03⟩, .data 0x41 0x42, .start ⟨.misc, 0x01⟩, .data 0x30 0x31,
      .start ⟨.chan, 0x01⟩, .data 0x50 0x51, .finish 0x10, .resume ⟨.misc, 0x01⟩, .finish 0x11,
      .resume ⟨.cur, 0x03⟩, .finish 0x12]
    (by decide +kernel)
  revert hok
  decide +kernel

-- A packet that is resumed before the one that suspended it ends gets the data of that.
example :
    (received.outputs ({}, {})
      [.start ⟨.cur, 0x03⟩, .data 0x41 0x42, .start ⟨.misc, 0x01⟩, .data 0x30 0x31,
        .resume ⟨.cur, 0x03⟩, .finish 0x12]).getLast? =
      some { output := some ⟨.cur, 0x03, [0x30, 0x31]⟩ } := by decide +kernel

end Tntsat.Cc608Xds
