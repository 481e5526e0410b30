import Tntsat.Spec.MtosMsgCorrect

/-!
# Payloads in the external rings

`_msgq_ext_enter` copies a payload to the slot at `in` without looking at `out`.
Numbering the entries of a ring from its creation on, entry `t` uses slot
`t % depth`, and the messages in flight are a subsequence of the last `depth`
entries as long as no entry falls on the slot of the oldest of them.  Under that
condition, and when the length of a payload is the ring's atom size rather than
equal to it after the cast to `u16`, what is received is what was sent.

## Key results

- `Placed.enter`: the slot at `in` is free when the oldest message is not in it
- `payload_intact`, `payload_intact_fails`: payloads over whole runs
-/

namespace Tntsat.MtosMsg

/-! ## Entries of a ring -/

/-- The messages in flight through a ring entered it at the times `ts`, all among
    the last `depth` of the `n` entries so far. -/
structure Placed (b : ExtBufCtrl) (msgs : List OsMsg) (n : Nat) (ts : List Nat) : Prop where
  inIdx : b.inIdx = n % b.depth
  sorted : ts.Pairwise (· < ·)
  recent : ∀ t ∈ ts, t < n ∧ n ≤ t + b.depth
  slots : msgs.map OsMsg.para1 = ts.map fun t => b.slot (t % b.depth)

/-- The ring takes another entry: the slot at `in` is not the one of the oldest
    message in flight. -/
def HasRoom (b : ExtBufCtrl) (msgs : List OsMsg) : Prop :=
  ∀ m ∈ msgs.head?, m.para1 ≠ b.slot b.inIdx

instance (b : ExtBufCtrl) (msgs : List OsMsg) : Decidable (HasRoom b msgs) :=
  inferInstanceAs (Decidable (∀ m ∈ msgs.head?, _))

/-- Nothing in flight. -/
theorem Placed.nil {b : ExtBufCtrl} {n : Nat} (h : b.inIdx = n % b.depth) : Placed b [] n [] where
  inIdx := h
  sorted := .nil
  recent _ ht := nomatch ht
  slots := rfl

/-- With room, every message in flight entered less than a turn ago. -/
theorem Placed.recent_of_hasRoom {b : ExtBufCtrl} {msgs : List OsMsg} {n : Nat} {ts : List Nat}
    (h : Placed b msgs n ts) (hroom : HasRoom b msgs) : ∀ t ∈ ts, n < t + b.depth := by
  intro t ht
  have hrecent := (h.recent t ht).2
  by_cases heq : n = t + b.depth
  · -- entry `t` is a full turn ago: it is the oldest, and its slot is the one at `in`
    exfalso
    cases ts with
    | nil => exact nomatch ht
    | cons t' ts =>
      have hhead : t = t' := by
        cases ht with
        | head => rfl
        | tail _ htail =>
          have hlt := (List.pairwise_cons.mp h.sorted).1 t htail
          have hle := (h.recent t' List.mem_cons_self).2
          omega
      cases msgs with
      | nil => exact nomatch h.slots
      | cons m msgs =>
        have hslot : m.para1 = b.slot (t' % b.depth) := (List.cons.inj h.slots).1
        apply hroom m rfl
        rw [hslot, h.inIdx, heq, hhead, Nat.add_mod_right]
  · omega

/-- With room, no message in flight is in the slot at `in`. -/
theorem Placed.slot_ne {b : ExtBufCtrl} {msgs : List OsMsg} {n : Nat} {ts : List Nat}
    (h : Placed b msgs n ts) (hroom : HasRoom b msgs) {m : OsMsg} (hm : m ∈ msgs) :
    ∃ t, m.para1 = b.slot (t % b.depth) ∧ t % b.depth ≠ b.inIdx := by
  have hmem : m.para1 ∈ ts.map fun t => b.slot (t % b.depth) :=
    h.slots ▸ List.mem_map_of_mem hm
  obtain ⟨t, ht, hslot⟩ := List.mem_map.mp hmem
  refine ⟨t, hslot.symm, ?_⟩
  have hlt := (h.recent t ht).1
  have hturn := h.recent_of_hasRoom hroom t ht
  rw [h.inIdx]
  have hne : (0 + t) % b.depth ≠ (0 + n) % b.depth := wrap_ne hlt hturn
  rwa [Nat.zero_add, Nat.zero_add] at hne

/-- An entry, whose message is dropped or goes in flight. -/
theorem Placed.enter {b : ExtBufCtrl} {msgs : List OsMsg} {n : Nat} {ts : List Nat}
    (h : Placed b msgs n ts) (hpos : 0 < b.depth) (hroom : HasRoom b msgs) {b' : ExtBufCtrl}
    (hin : b'.inIdx = (b.inIdx + 1) % b.depth) (hdepth : b'.depth = b.depth)
    (hslot : b'.slot = b.slot) :
    Placed b' msgs (n + 1) ts ∧
    ∀ m : OsMsg, m.para1 = b.slot b.inIdx → Placed b' (msgs ++ [m]) (n + 1) (ts ++ [n]) := by
  have hinIdx : b'.inIdx = (n + 1) % b'.depth := by
    rw [hin, h.inIdx, hdepth, Nat.mod_add_mod]
  -- with room left, the slot of the oldest message is not taken
  have hrecent : ∀ t ∈ ts, t < n + 1 ∧ n + 1 ≤ t + b'.depth := by
    intro t ht
    have hlt := (h.recent t ht).1
    have hturn := h.recent_of_hasRoom hroom t ht
    rw [hdepth]
    omega
  refine ⟨⟨hinIdx, h.sorted, hrecent, by rw [hslot, hdepth]; exact h.slots⟩, fun m hm => ?_⟩
  refine ⟨hinIdx, ?_, ?_, ?_⟩
  · apply List.pairwise_append.mpr
    refine ⟨h.sorted, List.pairwise_singleton _ _, fun t ht t' ht' => ?_⟩
    rw [List.mem_singleton.mp ht']
    exact (h.recent t ht).1
  · intro t ht
    rcases List.mem_append.mp ht with ht | ht
    · exact hrecent t ht
    · rw [List.mem_singleton.mp ht, hdepth]
      omega
  · rw [List.map_append, List.map_append, hslot, hdepth, h.slots]
    simp only [List.map_cons, List.map_nil, hm, h.inIdx]

/-- The oldest message is no longer in flight. -/
theorem Placed.tail {b : ExtBufCtrl} {m : OsMsg} {msgs : List OsMsg} {n : Nat} {ts : List Nat}
    (h : Placed b (m :: msgs) n ts) : Placed b msgs n ts.tail := by
  cases ts with
  | nil => exact nomatch h.slots
  | cons t ts =>
    exact {
      inIdx := h.inIdx
      sorted := (List.pairwise_cons.mp h.sorted).2
      recent := fun t' ht' => h.recent t' (List.mem_cons_of_mem t ht')
      slots := (List.cons.inj h.slots).2 }

/-- `out` is not looked at. -/
theorem Placed.congr {b b' : ExtBufCtrl} {msgs : List OsMsg} {n : Nat} {ts : List Nat}
    (h : Placed b msgs n ts) (hin : b'.inIdx = b.inIdx) (hdepth : b'.depth = b.depth)
    (hslot : b'.slot = b.slot) : Placed b' msgs n ts where
  inIdx := by rw [hin, hdepth]; exact h.inIdx
  sorted := h.sorted
  recent := by rw [hdepth]; exact h.recent
  slots := by rw [hdepth, hslot]; exact h.slots

/-! ## Memory of the rings -/

/-- The rings in use occupy different memory. -/
def Disjoint (exts : Nat → ExtBufCtrl) : Prop :=
  ∀ i j, (exts i).used = true → (exts j).used = true → i ≠ j →
    (exts i).slot (exts i).depth ≤ (exts j).addr ∨ (exts j).slot (exts j).depth ≤ (exts i).addr

/-- Different slots of one ring do not overlap. -/
theorem ExtBufCtrl.slot_disjoint (b : ExtBufCtrl) {i j : Nat} (h : i ≠ j) :
    b.slot i + b.atomSize ≤ b.slot j ∨ b.slot j + b.atomSize ≤ b.slot i := by
  unfold ExtBufCtrl.slot
  rcases Nat.lt_or_gt_of_ne h with hlt | hlt
  · left
    have hle := Nat.mul_le_mul_right b.atomSize hlt
    rw [Nat.succ_mul] at hle
    omega
  · right
    have hle := Nat.mul_le_mul_right b.atomSize hlt
    rw [Nat.succ_mul] at hle
    omega

/-- A slot lies within its ring. -/
theorem ExtBufCtrl.slot_le (b : ExtBufCtrl) {i : Nat} (h : i < b.depth) :
    b.addr ≤ b.slot i ∧ b.slot i + b.atomSize ≤ b.slot b.depth := by
  unfold ExtBufCtrl.slot
  have hle := Nat.mul_le_mul_right b.atomSize h
  rw [Nat.succ_mul] at hle
  omega

/-- A queued message of a ring has the ring's size, and its payload is in
    memory. -/
def Stored (exts : Nat → ExtBufCtrl) (mem : Memory UInt8) (q : Queued) : Prop :=
  ∀ id, q.msg.ring exts = some id → q.msg.para2 = (exts id).atomSize ∧
    mem.read q.msg.para1 q.msg.para2 = q.payload

/-- Every payload in flight is in memory, at the slot its entry took. -/
structure Carries (s : State) : Prop where
  ringsOk : RingsOk s.extBuf
  disjoint : Disjoint s.extBuf
  stored : ∀ q ∈ s.queue, Stored s.extBuf s.mem q
  placed : ∀ id, (s.extBuf id).used = true →
    ∃ n ts, Placed (s.extBuf id) (inFlight s.extBuf s.msgs id) n ts

theorem Disjoint.same {exts exts' : Nat → ExtBufCtrl} (h : Disjoint exts)
    (hsame : SameRings exts exts') : Disjoint exts' := by
  intro i j hi hj hij
  have haddr : ∀ k, (exts' k).addr = (exts k).addr := fun k => congrArg (·.2.2.2) (hsame k)
  rw [hsame.used] at hi hj
  simp only [hsame.slot, hsame.depth, haddr]
  exact h i j hi hj hij

theorem Stored.same {exts exts' : Nat → ExtBufCtrl} {mem : Memory UInt8} {q : Queued}
    (h : Stored exts mem q) (hsame : SameRings exts exts') : Stored exts' mem q := by
  intro id hid
  rw [hsame.ring] at hid
  rw [hsame.atomSize]
  exact h id hid

/-- A queued message of ring `id` is in flight through it. -/
theorem mem_inFlight {s : State} {q : Queued} {id : Nat} (hq : q ∈ s.queue)
    (hring : q.msg.ring s.extBuf = some id) : q.msg ∈ inFlight s.extBuf s.msgs id :=
  List.mem_filter.mpr ⟨List.mem_map_of_mem hq, by rw [hring]; exact decide_eq_true rfl⟩

/-- Copying a payload to the slot at `in` of a ring with room keeps every payload
    in flight. -/
theorem Carries.write {s : State} (h : Carries s) {id : Nat} (hused : (s.extBuf id).used = true)
    (hroom : HasRoom (s.extBuf id) (inFlight s.extBuf s.msgs id)) {payload : List UInt8}
    (hlen : payload.length = (s.extBuf id).atomSize) {q : Queued} (hq : q ∈ s.queue) :
    Stored s.extBuf (s.mem.write ((s.extBuf id).slot (s.extBuf id).inIdx) payload) q := by
  intro id' hring
  obtain ⟨hsize, hread⟩ := h.stored q hq id' hring
  have hused' := (msgqExtFindId_some (OsMsg.ring_some hring).2).1
  have hpos := (h.ringsOk id' hused').depth_pos
  obtain ⟨n, ts, hplaced⟩ := h.placed id' hused'
  refine ⟨hsize, ?_⟩
  rw [← hread]
  apply Memory.read_write_disjoint
  rw [hsize, hlen]
  have hmem := mem_inFlight hq hring
  by_cases hid : id' = id
  · -- the same ring: another slot
    subst hid
    obtain ⟨t, hslot, hne⟩ := hplaced.slot_ne hroom hmem
    rw [hslot]
    exact (s.extBuf id').slot_disjoint hne
  · -- another ring: other memory
    have hslots : q.msg.para1 ∈ ts.map fun t => (s.extBuf id').slot (t % (s.extBuf id').depth) :=
      hplaced.slots ▸ List.mem_map_of_mem hmem
    obtain ⟨t, -, hslot⟩ := List.mem_map.mp hslots
    have hq' := (s.extBuf id').slot_le (Nat.mod_lt t hpos)
    have hin := (s.extBuf id).slot_le (h.ringsOk id hused).inIdx_lt
    rw [← hslot]
    rcases h.disjoint id' id hused' hused hid with hdisj | hdisj
    · left; omega
    · right; omega

/-! ## One call -/

/-- The condition on a call: the payload of a message that enters a ring has the
    ring's size before the cast, and the ring has room for it. -/
def SlotFree (s : State) : Call → Prop
  | .send m _ => ∀ id ∈ m.msg.ring s.extBuf, m.msg.para2 = (s.extBuf id).atomSize ∧
      HasRoom (s.extBuf id) (inFlight s.extBuf s.msgs id)
  | _ => True

instance (s : State) : ∀ c, Decidable (SlotFree s c)
  | .send _ _ => inferInstanceAs (Decidable (∀ _ ∈ _, _ ∧ _))
  | .receive => inferInstanceAs (Decidable True)
  | .clr => inferInstanceAs (Decidable True)

/-- A new table of rings that differs from the old one in `out` only keeps what
    the rings carry. -/
theorem Carries.same {s : State} (h : Carries s) {exts : Nat → ExtBufCtrl} (hok : RingsOk exts)
    (hsame : SameRings s.extBuf exts) (hin : ∀ i, (exts i).inIdx = (s.extBuf i).inIdx) :
    Carries { s with extBuf := exts } where
  ringsOk := hok
  disjoint := h.disjoint.same hsame
  stored q hq := (h.stored q hq).same hsame
  placed i hi := by
    rw [hsame.used] at hi
    obtain ⟨n, ts, hplaced⟩ := h.placed i hi
    refine ⟨n, ts, ?_⟩
    change Placed (exts i) (inFlight exts s.msgs i) n ts
    rw [inFlight_same hsame]
    exact hplaced.congr (hin i) (hsame.depth i) (hsame.slot i)

theorem leaveRing_inIdx (exts : Nat → ExtBufCtrl) (id i : Nat) :
    (leaveRing exts id i).inIdx = (exts i).inIdx := by
  unfold leaveRing
  by_cases hi : i = id
  · subst hi; rw [Function.update_self]
  · rw [Function.update_of_ne hi]

/-- Moving `out` keeps what the rings carry. -/
theorem Carries.leaveRing {s : State} (h : Carries s) (id : Nat) :
    Carries { s with extBuf := MtosMsg.leaveRing s.extBuf id } :=
  h.same (h.ringsOk.leaveRing id) (leaveRing_same s.extBuf id) (leaveRing_inIdx s.extBuf id)

/-- The oldest message is taken out of the queue. -/
theorem Carries.tail {s : State} (h : Carries s) {q : Queued} {queue : List Queued}
    (hq : s.queue = q :: queue) : Carries { s with queue } where
  ringsOk := h.ringsOk
  disjoint := h.disjoint
  stored q' hq' := h.stored q' (hq ▸ List.mem_cons_of_mem q hq')
  placed id hid := by
    obtain ⟨n, ts, hplaced⟩ := h.placed id hid
    rw [State.msgs, hq, List.map_cons, inFlight_cons] at hplaced
    by_cases hring : q.msg.ring s.extBuf = some id
    · rw [if_pos hring] at hplaced
      exact ⟨n, ts.tail, hplaced.tail⟩
    · rw [if_neg hring] at hplaced
      exact ⟨n, ts, hplaced⟩

/-- A message outside every ring joins the queue. -/
theorem Carries.concat {s : State} (h : Carries s) {m : OsMsg} (hring : m.ring s.extBuf = none)
    (payload : List UInt8) : Carries { s with queue := s.queue ++ [{ msg := m, payload }] } where
  ringsOk := h.ringsOk
  disjoint := h.disjoint
  stored q hq := by
    rcases List.mem_append.mp hq with hq | hq
    · exact h.stored q hq
    · intro id hid
      rw [List.mem_singleton.mp hq, hring] at hid
      cases hid
  placed id hid := by
    obtain ⟨n, ts, hplaced⟩ := h.placed id hid
    refine ⟨n, ts, ?_⟩
    simp only [State.msgs, List.map_append, List.map_cons, List.map_nil] at hplaced ⊢
    rwa [inFlight_concat, hring, if_neg (Option.some_ne_none id).symm, List.append_nil]

/-- A message enters ring `id`, which has room; it is then dropped or queued. -/
theorem Carries.enter {s : State} (h : Carries s) {m : OsMsg} {id : Nat}
    (hring : m.ring s.extBuf = some id) {payload : List UInt8} (hlen : payload.length = m.para2)
    (hsize : m.para2 = (s.extBuf id).atomSize)
    (hroom : HasRoom (s.extBuf id) (inFlight s.extBuf s.msgs id)) :
    let addr := (s.extBuf id).slot (s.extBuf id).inIdx
    let entered := { s with
      extBuf := enterRing s.extBuf id
      mem := s.mem.write addr payload }
    Carries entered ∧
    Carries { entered with
      queue := s.queue ++ [{ msg := { m with para1 := addr }, payload }] } := by
  intro addr entered
  have hused := (msgqExtFindId_some (OsMsg.ring_some hring).2).1
  have hsame := enterRing_same s.extBuf id
  have hok := h.ringsOk.enterRing id
  have hwrite := fun q (hq : q ∈ s.queue) =>
    (h.write hused hroom (hlen.trans hsize) hq).same hsame
  have hpos := (h.ringsOk id hused).depth_pos
  -- what the entry does to the ring it uses, and to the other rings
  have hself : (enterRing s.extBuf id id).inIdx =
      ((s.extBuf id).inIdx + 1) % (s.extBuf id).depth := by
    rw [enterRing, Function.update_self]
  have hother : ∀ i, i ≠ id → enterRing s.extBuf id i = s.extBuf i := fun i hi => by
    rw [enterRing, Function.update_of_ne hi]
  refine ⟨⟨hok, h.disjoint.same hsame, hwrite, fun i hi => ?_⟩,
    ⟨hok, h.disjoint.same hsame, fun q hq => ?_, fun i hi => ?_⟩⟩
  · rw [hsame.used] at hi
    obtain ⟨n, ts, hplaced⟩ := h.placed i hi
    change ∃ n ts, Placed (enterRing s.extBuf id i) (inFlight (enterRing s.extBuf id) s.msgs i) n ts
    rw [inFlight_same hsame]
    by_cases hid : i = id
    · subst hid
      exact ⟨n + 1, ts, (hplaced.enter hpos hroom hself (hsame.depth i) (hsame.slot i)).1⟩
    · rw [hother i hid]
      exact ⟨n, ts, hplaced⟩
  · rcases List.mem_append.mp hq with hq | hq
    · exact hwrite q hq
    · -- the new message: its payload was just written
      rw [List.mem_singleton.mp hq]
      intro id' hid'
      rw [hsame.ring] at hid'
      have hring' : OsMsg.ring s.extBuf { m with para1 := addr } = some id := hring
      obtain rfl : id = id' := Option.some.inj (hring'.symm.trans hid')
      rw [hsame.atomSize]
      refine ⟨hsize, ?_⟩
      change (s.mem.write addr payload).read addr m.para2 = payload
      rw [← hlen, Memory.read_write_self]
  · rw [hsame.used] at hi
    obtain ⟨n, ts, hplaced⟩ := h.placed i hi
    have hring' : OsMsg.ring s.extBuf { m with para1 := addr } = some id := hring
    simp only [State.msgs, List.map_append, List.map_cons, List.map_nil]
    change ∃ n ts, Placed (enterRing s.extBuf id i)
      (inFlight (enterRing s.extBuf id) (s.queue.map Queued.msg ++ [_]) i) n ts
    rw [inFlight_same hsame, inFlight_concat, hring']
    by_cases hid : i = id
    · subst hid
      rw [if_pos rfl]
      exact ⟨n + 1, ts ++ [n],
        (hplaced.enter hpos hroom hself (hsame.depth i) (hsame.slot i)).2 _ rfl⟩
    · rw [if_neg (fun hc => hid (Option.some.inj hc).symm), List.append_nil, hother i hid]
      exact ⟨n, ts, hplaced⟩

/-- One send. -/
private theorem send_carries {s : State} (h : Carries s) (m : Outgoing) (sysOk : Bool)
    (hfree : SlotFree s (.send m sysOk)) :
    Carries (mtosMessageqSend s m.msg m.payload sysOk).1 := by
  cases hring : m.msg.ring s.extBuf with
  | some id =>
    obtain ⟨hsize, hroom⟩ := hfree id hring
    obtain ⟨hdropped, hqueued⟩ := h.enter hring m.length_eq hsize hroom
    rw [mtosMessageqSend_entering h.ringsOk hring]
    by_cases hfails : sysMsgQSendFails s sysOk = true
    · rw [if_pos hfails]
      exact hdropped.leaveRing id
    · rw [if_neg hfails]
      exact hqueued
  | none =>
    rcases mtosMessageqSend_passing h.ringsOk hring m.payload sysOk with
      hs | hs | ⟨id, -, -, -, hs⟩
    · rw [hs]; exact h
    · rw [hs]; exact h.concat hring m.payload
    · rw [hs]; exact h.leaveRing id

/-- Taking the messages out one by one, as `mtos_messageq_clr` does. -/
private theorem clr_carries (queue : List Queued) {s : State} (h : Carries s) :
    Carries (queue.foldl (fun s q => if q.msg.isExt then (msgqExtExit s q.msg).1 else s) s) := by
  induction queue generalizing s with
  | nil => exact h
  | cons q queue ih =>
    rw [List.foldl_cons]
    apply ih
    by_cases hext : q.msg.isExt = true
    · rw [if_pos hext]
      cases hid : msgqExtFindId s.extBuf (u16 q.msg.para2) with
      | none => simp only [msgqExtExit, hid]; exact h
      | some id => rw [msgqExtExit_eq h.ringsOk hid]; exact h.leaveRing id
    · rw [if_neg hext]; exact h

/-- One receive hands out the payload that was sent. -/
private theorem receive_carries {s : State} (h : Carries s) :
    Event.Intact (.received (mtosMessageqReceive s).2) ∧ Carries (mtosMessageqReceive s).1 := by
  cases hq : s.queue with
  | nil =>
    have hs : mtosMessageqReceive s = (s, none) := by unfold mtosMessageqReceive; rw [hq]
    rw [hs]
    exact ⟨trivial, h⟩
  | cons q queue =>
    have htail := h.tail hq
    rcases mtosMessageqReceive_cons h.ringsOk hq with ⟨id, hring, hs⟩ | ⟨-, hs, hnone | ⟨hext, hr⟩⟩
    · rw [hs]
      refine ⟨fun _ _ => ?_, htail.leaveRing id⟩
      exact (h.stored q (hq ▸ List.mem_cons_self) id hring).2
    · rw [hs, hnone]
      exact ⟨trivial, htail⟩
    · rw [hs, hr]
      exact ⟨fun hisExt hsync => absurd ⟨hisExt, hsync⟩ hext, htail⟩

/-- One call keeps what the rings carry, and hands out payloads as they were
    sent. -/
theorem step_carries {s : State} (h : Carries s) (c : Call) (hfree : SlotFree s c) :
    (machine.step s c).2.Intact ∧ Carries (machine.step s c).1 := by
  cases c with
  | send m sysOk => exact ⟨trivial, send_carries h m sysOk hfree⟩
  | receive => exact receive_carries h
  | clr =>
    have hempty : Carries { s with queue := [] } := {
      ringsOk := h.ringsOk
      disjoint := h.disjoint
      stored := fun q hq => nomatch hq
      placed := fun id hid => by
        obtain ⟨n, ts, hplaced⟩ := h.placed id hid
        exact ⟨n, [], Placed.nil hplaced.inIdx⟩ }
    exact ⟨trivial, clr_carries s.queue hempty⟩

/-! ## Runs -/

theorem Fresh.carries {s : State} (h : Fresh s) (hdisj : Disjoint s.extBuf) : Carries s where
  ringsOk := h.ringsOk
  disjoint := hdisj
  stored q hq := by rw [h.queue] at hq; cases hq
  placed id hid := by
    have hmsgs : inFlight s.extBuf s.msgs id = [] := by rw [State.msgs, h.queue]; rfl
    rw [hmsgs]
    exact ⟨0, [], Placed.nil ((h.indices id).1.trans (Nat.zero_mod _).symm)⟩

/-- In every run whose sends all find a free slot, every payload received is the
    payload sent. -/
theorem payload_intact (s : State) (hfresh : Fresh s) (hdisj : Disjoint s.extBuf)
    (calls : List Call) (hfree : machine.Always SlotFree s calls) :
    ∀ e ∈ machine.outputs s calls, e.Intact := by
  have hinv := Machine.invariant_outputs (M := machine)
    (I := fun s events => Carries s ∧ ∀ e ∈ events, e.Intact) (P := SlotFree)
    (fun s events c hI hc => by
      obtain ⟨hintact, hcarries⟩ := step_carries hI.1 c hc
      refine ⟨hcarries, fun e he => ?_⟩
      rcases List.mem_append.mp he with he | he
      · exact hI.2 e he
      · rw [List.mem_singleton.mp he]; exact hintact)
    (l := []) ⟨hfresh.carries hdisj, fun _ he => nomatch he⟩ hfree
  rw [List.nil_append] at hinv
  exact hinv.2

/-- Attaching a buffer outside the memory of the rings in use. -/
theorem Disjoint.attach {s : State} (h : Disjoint s.extBuf) (pBuf atomSize depth : Nat)
    (hnew : ∀ i, (s.extBuf i).used = true →
      (s.extBuf i).slot (s.extBuf i).depth ≤ pBuf ∨
        pBuf + u16 depth * u16 atomSize ≤ (s.extBuf i).addr) :
    Disjoint (mtosMessageqAttach s pBuf atomSize depth).extBuf := by
  unfold mtosMessageqAttach
  split
  · exact h
  · simp only
    split
    · exact h
    · split
      · exact h
      · split
        · exact h
        · rename_i k _
          intro i j hi hj hij
          -- at most one of the two is the new ring
          by_cases hik : i = k
          · subst hik
            simp only [Function.update_self, Function.update_of_ne (Ne.symm hij)] at hi hj ⊢
            exact (hnew j hj).symm
          · by_cases hjk : j = k
            · subst hjk
              simp only [Function.update_self, Function.update_of_ne hij] at hi hj ⊢
              exact hnew i hi
            · simp only [Function.update_of_ne hik, Function.update_of_ne hjk] at hi hj ⊢
              exact h i j hi hj hij

theorem attached_disjoint (capacity atomSize depth : Nat) :
    Disjoint (attached capacity atomSize depth).extBuf := by
  have hcreate : Disjoint ({ capacity, mem := fun _ => 0 } : State).extBuf :=
    fun _ _ hi => nomatch hi
  exact hcreate.attach 0x1000 atomSize depth fun _ hi => nomatch hi

/-- Two messages through a ring of two slots, one after a failed send. -/
def intactRun : List Call :=
  [.send (extMsg false [1, 2]) true, .receive, .send (extMsg false [5, 6]) false,
    .send (extMsg false [3, 4]) true, .receive]

theorem payload_intact_intactRun :
    machine.Always SlotFree (attached 4 2 2) intactRun ∧
      ∀ e ∈ machine.outputs (attached 4 2 2) intactRun, e.Intact :=
  ⟨by decide +kernel,
    payload_intact (attached 4 2 2) (attached_fresh 4 2 2) (attached_disjoint 4 2 2) intactRun
      (by decide +kernel)⟩

/-- Three messages through a ring of two slots. -/
def overrun : List Call :=
  [.send (extMsg false [1, 2]) true, .send (extMsg false [3, 4]) true,
    .send (extMsg false [5, 6]) true, .receive]

/-- A queue for four messages takes the third one, whose payload lands on the
    first. -/
theorem payload_intact_fails :
    ¬ ∀ e ∈ machine.outputs (attached 4 2 2) overrun, e.Intact := by
  intro h
  have houtputs : .received (some ⟨{ isExt := true, para1 := 0x1000, para2 := 2 }, [5, 6], [1, 2]⟩) ∈
      machine.outputs (attached 4 2 2) overrun := by decide +kernel
  have heq : ([5, 6] : List UInt8) = [1, 2] := h _ houtputs rfl rfl
  exact absurd heq (by decide)

end Tntsat.MtosMsg
