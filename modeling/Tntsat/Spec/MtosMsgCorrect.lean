import Tntsat.ForStd.Ring
import Tntsat.Native.MtosMsg

/-!
# The external rings of a message queue

A message that enters a ring takes the slot at `in`, a message that leaves gives
up the slot at `out`.  The two stay together as long as messages leave in the
order they entered and nothing else moves the indices.  Two things do: a send
that fails in `SYS_MsgQSend` after its message has entered moves `out`, although
the oldest message is still in flight, and a sync message, which never entered,
moves `out` when its send fails and when it is cleared.

## Key results

- `msgqExtEnter_eq`, `msgqExtExit_eq`: the two ring operations
- `sendFails_noop_iff`: when a failed send is a no-op
- `ring_balanced`, `ring_balanced_fails`: the indices over whole runs
-/

namespace Tntsat.MtosMsg

/-! ## Rings -/

/-- A ring in use: sizes that `_msgq_ext_use` accepts, indices in range and no
    reference held. -/
structure RingOk (b : ExtBufCtrl) : Prop where
  atomSize_pos : 0 < b.atomSize
  depth_pos : 0 < b.depth
  depth_lt : b.depth < 65536
  inIdx_lt : b.inIdx < b.depth
  outIdx_lt : b.outIdx < b.depth
  pRef : ∀ i, b.pRef i = 0

/-- Every ring in use is in order. -/
def RingsOk (exts : Nat → ExtBufCtrl) : Prop := ∀ i, (exts i).used = true → RingOk (exts i)

/-- The parts of a ring that only `attach` and `detach` change. -/
def ExtBufCtrl.fixed (b : ExtBufCtrl) : Bool × Nat × Nat × Nat :=
  (b.used, b.atomSize, b.depth, b.addr)

/-- Two ring tables that differ in `in` and `out` only. -/
def SameRings (exts exts' : Nat → ExtBufCtrl) : Prop := ∀ i, (exts' i).fixed = (exts i).fixed

theorem SameRings.refl (exts : Nat → ExtBufCtrl) : SameRings exts exts := fun _ => rfl

theorem SameRings.trans {e₁ e₂ e₃ : Nat → ExtBufCtrl} (h : SameRings e₁ e₂)
    (h' : SameRings e₂ e₃) : SameRings e₁ e₃ := fun i => (h' i).trans (h i)

/-- Storing a ring with the same fixed parts. -/
theorem SameRings.update {exts : Nat → ExtBufCtrl} {id : Nat} {b : ExtBufCtrl}
    (h : b.fixed = (exts id).fixed) : SameRings exts (Function.update exts id b) := by
  intro i
  by_cases hi : i = id
  · subst hi; rw [Function.update_self]; exact h
  · rw [Function.update_of_ne hi]

theorem SameRings.used {exts exts' : Nat → ExtBufCtrl} (h : SameRings exts exts') (i : Nat) :
    (exts' i).used = (exts i).used := congrArg (·.1) (h i)

theorem SameRings.atomSize {exts exts' : Nat → ExtBufCtrl} (h : SameRings exts exts') (i : Nat) :
    (exts' i).atomSize = (exts i).atomSize := congrArg (·.2.1) (h i)

theorem SameRings.depth {exts exts' : Nat → ExtBufCtrl} (h : SameRings exts exts') (i : Nat) :
    (exts' i).depth = (exts i).depth := congrArg (·.2.2.1) (h i)

theorem SameRings.slot {exts exts' : Nat → ExtBufCtrl} (h : SameRings exts exts') (i : Nat) :
    (exts' i).slot = (exts i).slot := by
  funext j
  have haddr : (exts' i).addr = (exts i).addr := congrArg (·.2.2.2) (h i)
  simp only [ExtBufCtrl.slot, h.atomSize i, haddr]

/-- The ring for a size does not move. -/
theorem SameRings.findId {exts exts' : Nat → ExtBufCtrl} (h : SameRings exts exts') (n : Nat) :
    msgqExtFindId exts' n = msgqExtFindId exts n := by
  unfold msgqExtFindId
  split
  · rfl
  · congr 1
    funext i
    rw [h.atomSize i, h.used i]

theorem SameRings.ring {exts exts' : Nat → ExtBufCtrl} (h : SameRings exts exts') (m : OsMsg) :
    m.ring exts' = m.ring exts := by
  unfold OsMsg.ring
  rw [h.findId]

theorem msgqExtFindId_some {exts : Nat → ExtBufCtrl} {n id : Nat}
    (h : msgqExtFindId exts n = some id) : (exts id).used = true ∧ (exts id).atomSize = n := by
  unfold msgqExtFindId at h
  split at h
  · cases h
  · have hp := List.find?_some h
    simp only [Bool.and_eq_true, beq_iff_eq] at hp
    exact ⟨hp.2, hp.1.symm⟩

/-- The reference count of the slot at `in` is found and is 0. -/
theorem RingOk.findRef {b : ExtBufCtrl} (h : RingOk b) :
    msgqExtFindRef b (b.slot b.inIdx) = some 0 := by
  have hfind : ((List.range b.depth).find? fun i => b.slot i == b.slot b.inIdx) =
      some b.inIdx := by
    rw [List.find?_range_eq_some]
    refine ⟨beq_self_eq_true _, List.mem_range.mpr h.inIdx_lt, fun j hj => ?_⟩
    have hlt := Nat.mul_lt_mul_of_pos_right hj h.atomSize_pos
    simp only [ExtBufCtrl.slot, Bool.not_eq_true', beq_eq_false_iff_ne]
    omega
  unfold msgqExtFindRef
  rw [hfind, Option.map_some, h.pRef]

/-- Advancing an index by one, as both ring operations do it. -/
theorem RingOk.advance {b : ExtBufCtrl} (h : RingOk b) (i : Nat) :
    u16 ((i + 1) % b.depth) = (i + 1) % b.depth :=
  u16_of_lt (Nat.lt_trans (Nat.mod_lt _ h.depth_pos) h.depth_lt)

/-- Ring `id` with `in` advanced. -/
def enterRing (exts : Nat → ExtBufCtrl) (id : Nat) : Nat → ExtBufCtrl :=
  Function.update exts id { exts id with inIdx := ((exts id).inIdx + 1) % (exts id).depth }

/-- Ring `id` with `out` advanced. -/
def leaveRing (exts : Nat → ExtBufCtrl) (id : Nat) : Nat → ExtBufCtrl :=
  Function.update exts id { exts id with outIdx := ((exts id).outIdx + 1) % (exts id).depth }

theorem enterRing_same (exts : Nat → ExtBufCtrl) (id : Nat) : SameRings exts (enterRing exts id) :=
  SameRings.update rfl

theorem leaveRing_same (exts : Nat → ExtBufCtrl) (id : Nat) : SameRings exts (leaveRing exts id) :=
  SameRings.update rfl

theorem RingsOk.enterRing {exts : Nat → ExtBufCtrl} (h : RingsOk exts) (id : Nat) :
    RingsOk (enterRing exts id) := by
  intro i hi
  rw [(enterRing_same exts id).used] at hi
  have hok := h i hi
  by_cases hid : i = id
  · subst hid
    simp only [MtosMsg.enterRing, Function.update_self]
    exact { hok with inIdx_lt := Nat.mod_lt _ hok.depth_pos }
  · simp only [MtosMsg.enterRing, Function.update_of_ne hid]
    exact hok

theorem RingsOk.leaveRing {exts : Nat → ExtBufCtrl} (h : RingsOk exts) (id : Nat) :
    RingsOk (leaveRing exts id) := by
  intro i hi
  rw [(leaveRing_same exts id).used] at hi
  have hok := h i hi
  by_cases hid : i = id
  · subst hid
    simp only [MtosMsg.leaveRing, Function.update_self]
    exact { hok with outIdx_lt := Nat.mod_lt _ hok.depth_pos }
  · simp only [MtosMsg.leaveRing, Function.update_of_ne hid]
    exact hok

/-- The indices of a ring with one slot never move. -/
theorem RingsOk.enterRing_one {exts : Nat → ExtBufCtrl} (h : RingsOk exts) {id : Nat}
    (hused : (exts id).used = true) (hone : (exts id).depth = 1) :
    MtosMsg.enterRing exts id = exts := by
  have hin : (exts id).inIdx = 0 := by have := (h id hused).inIdx_lt; omega
  unfold MtosMsg.enterRing
  rw [hone, Nat.mod_one, Function.update_eq_self_iff]
  rw [← hin]

theorem RingsOk.leaveRing_one {exts : Nat → ExtBufCtrl} (h : RingsOk exts) {id : Nat}
    (hused : (exts id).used = true) (hone : (exts id).depth = 1) :
    MtosMsg.leaveRing exts id = exts := by
  have hout : (exts id).outIdx = 0 := by have := (h id hused).outIdx_lt; omega
  unfold MtosMsg.leaveRing
  rw [hone, Nat.mod_one, Function.update_eq_self_iff]
  rw [← hout]

theorem msgqExtEnter_eq {s : State} (h : RingsOk s.extBuf) {m : OsMsg} {id : Nat}
    (hid : msgqExtFindId s.extBuf (u16 m.para2) = some id) (payload : List UInt8) :
    msgqExtEnter s m payload = some
      ({ s with
          extBuf := enterRing s.extBuf id
          mem := s.mem.write ((s.extBuf id).slot (s.extBuf id).inIdx) payload },
        { m with para1 := (s.extBuf id).slot (s.extBuf id).inIdx }) := by
  have hok := h id (msgqExtFindId_some hid).1
  unfold msgqExtEnter
  simp only [hid, hok.findRef, hok.advance, enterRing, Int.lt_irrefl, gt_iff_lt, if_false]

theorem msgqExtExit_eq {s : State} (h : RingsOk s.extBuf) {m : OsMsg} {id : Nat}
    (hid : msgqExtFindId s.extBuf (u16 m.para2) = some id) :
    msgqExtExit s m = ({ s with extBuf := leaveRing s.extBuf id }, true) := by
  have hok := h id (msgqExtFindId_some hid).1
  unfold msgqExtExit
  simp only [hid, hok.advance, leaveRing]

/-! ## The three calls -/

theorem OsMsg.ring_some {exts : Nat → ExtBufCtrl} {m : OsMsg} {id : Nat}
    (h : m.ring exts = some id) :
    (m.isExt = true ∧ m.isSync = false) ∧ msgqExtFindId exts (u16 m.para2) = some id := by
  unfold OsMsg.ring at h
  split at h
  · exact ⟨‹_›, h⟩
  · cases h

/-- A send whose message enters ring `id`. -/
theorem mtosMessageqSend_entering {s : State} (h : RingsOk s.extBuf) {m : OsMsg} {id : Nat}
    (hring : m.ring s.extBuf = some id) (payload : List UInt8) (sysOk : Bool) :
    mtosMessageqSend s m payload sysOk =
      if sysMsgQSendFails s sysOk then
        ({ s with
            extBuf := leaveRing (enterRing s.extBuf id) id
            mem := s.mem.write ((s.extBuf id).slot (s.extBuf id).inIdx) payload }, false)
      else
        ({ s with
            extBuf := enterRing s.extBuf id
            mem := s.mem.write ((s.extBuf id).slot (s.extBuf id).inIdx) payload
            queue := s.queue ++ [{
              msg := { m with para1 := (s.extBuf id).slot (s.extBuf id).inIdx }
              payload }] }, true) := by
  obtain ⟨hext, hid⟩ := OsMsg.ring_some hring
  unfold mtosMessageqSend
  rw [if_pos hext, msgqExtEnter_eq h hid payload]
  simp only [sendEntered]
  change (if sysMsgQSendFails s sysOk = true then _ else _) = _
  by_cases hfails : sysMsgQSendFails s sysOk = true
  · -- the rollback moves `out`
    have hid' : msgqExtFindId (enterRing s.extBuf id) (u16 m.para2) = some id := by
      rw [(enterRing_same s.extBuf id).findId]
      exact hid
    rw [if_pos hfails, if_pos hfails, if_pos hext.1]
    rw [msgqExtExit_eq (h.enterRing id) hid']
  · rw [if_neg hfails, if_neg hfails]

/-- A send whose message enters no ring: it changes nothing, is queued, or moves
    `out` of a ring it never entered. -/
theorem mtosMessageqSend_passing {s : State} (h : RingsOk s.extBuf) {m : OsMsg}
    (hring : m.ring s.extBuf = none) (payload : List UInt8) (sysOk : Bool) :
    mtosMessageqSend s m payload sysOk = (s, false) ∨
    (mtosMessageqSend s m payload sysOk =
      ({ s with queue := s.queue ++ [{ msg := m, payload }] }, true)) ∨
    ∃ id, m.isExt = true ∧ sysMsgQSendFails s sysOk = true ∧
      msgqExtFindId s.extBuf (u16 m.para2) = some id ∧
      mtosMessageqSend s m payload sysOk =
        ({ s with extBuf := leaveRing s.extBuf id }, false) := by
  unfold mtosMessageqSend
  by_cases hext : m.isExt = true ∧ m.isSync = false
  · -- no ring of that size
    have hid : msgqExtFindId s.extBuf (u16 m.para2) = none := by
      unfold OsMsg.ring at hring
      rwa [if_pos hext] at hring
    left
    simp only [if_pos hext, msgqExtEnter, hid]
  · rw [if_neg hext]
    unfold sendEntered
    by_cases hfails : sysMsgQSendFails s sysOk = true
    · rw [if_pos hfails]
      by_cases hisExt : m.isExt = true
      · rw [if_pos hisExt]
        cases hid : msgqExtFindId s.extBuf (u16 m.para2) with
        | none => left; simp only [msgqExtExit, hid]
        | some id => exact .inr (.inr ⟨id, hisExt, hfails, rfl, by rw [msgqExtExit_eq h hid]⟩)
      · rw [if_neg hisExt]; exact .inl rfl
    · rw [if_neg hfails]; exact .inr (.inl rfl)

/-- What the receiver is handed for a queued message. -/
def Queued.received (q : Queued) (mem : Memory UInt8) : Received :=
  { msg := q.msg, data := mem.read q.msg.para1 q.msg.para2, sent := q.payload }

/-- A receive takes the oldest message; one in a ring leaves it. -/
theorem mtosMessageqReceive_cons {s : State} (h : RingsOk s.extBuf) {q : Queued}
    {queue : List Queued} (hq : s.queue = q :: queue) :
    (∃ id, q.msg.ring s.extBuf = some id ∧ mtosMessageqReceive s =
      ({ s with queue, extBuf := leaveRing s.extBuf id }, some (q.received s.mem))) ∨
    (q.msg.ring s.extBuf = none ∧ (mtosMessageqReceive s).1 = { s with queue } ∧
      ((mtosMessageqReceive s).2 = none ∨ ¬ (q.msg.isExt = true ∧ q.msg.isSync = false) ∧
        (mtosMessageqReceive s).2 = some (q.received s.mem))) := by
  unfold mtosMessageqReceive
  simp only [hq]
  by_cases hext : q.msg.isExt = true ∧ q.msg.isSync = false
  · rw [if_pos hext]
    cases hid : msgqExtFindId s.extBuf (u16 q.msg.para2) with
    | none =>
      right
      simp only [OsMsg.ring, if_pos hext, msgqExtExit, hid, true_and, true_or]
    | some id =>
      left
      refine ⟨id, by rw [OsMsg.ring, if_pos hext, hid], ?_⟩
      rw [msgqExtExit_eq (s := { s with queue }) h hid]
      rfl
  · rw [if_neg hext]
    right
    exact ⟨by rw [OsMsg.ring, if_neg hext], rfl, .inr ⟨hext, rfl⟩⟩

/-! ## Messages in flight and the indices -/

theorem inFlight_same {exts exts' : Nat → ExtBufCtrl} (h : SameRings exts exts')
    (msgs : List OsMsg) (id : Nat) : inFlight exts' msgs id = inFlight exts msgs id := by
  unfold inFlight
  congr 1
  funext m
  rw [h.ring]

theorem inFlight_cons (exts : Nat → ExtBufCtrl) (m : OsMsg) (msgs : List OsMsg) (id : Nat) :
    inFlight exts (m :: msgs) id =
      if m.ring exts = some id then m :: inFlight exts msgs id else inFlight exts msgs id := by
  simp only [inFlight, List.filter_cons, decide_eq_true_eq]

theorem inFlight_concat (exts : Nat → ExtBufCtrl) (msgs : List OsMsg) (m : OsMsg) (id : Nat) :
    inFlight exts (msgs ++ [m]) id = inFlight exts msgs id ++
      if m.ring exts = some id then [m] else [] := by
  simp only [inFlight, List.filter_append, List.filter_cons, List.filter_nil, decide_eq_true_eq]

/-- The `k` messages in flight through a ring are in the `k` slots from `out` on,
    in order, and `in` comes right behind them. -/
structure InOrder (b : ExtBufCtrl) (msgs : List OsMsg) : Prop where
  count : (b.outIdx + msgs.length) % b.depth = b.inIdx
  slots : msgs.map OsMsg.para1 =
    (List.range msgs.length).map fun j => b.slot ((b.outIdx + j) % b.depth)

/-- Every ring in use is in order with the queue. -/
structure Balanced (exts : Nat → ExtBufCtrl) (msgs : List OsMsg) : Prop where
  ringsOk : RingsOk exts
  inOrder : ∀ id, (exts id).used = true → InOrder (exts id) (inFlight exts msgs id)

/-- The oldest message in flight is in the slot at `out`. -/
theorem InOrder.head {b : ExtBufCtrl} {msgs : List OsMsg} (h : InOrder b msgs) (hok : RingOk b)
    {m : OsMsg} (hm : msgs.head? = some m) : m.para1 = b.slot b.outIdx := by
  cases msgs with
  | nil => cases hm
  | cons m' msgs =>
    obtain rfl := Option.some.inj hm
    have hslots := h.slots
    rw [List.length_cons, List.range_succ_eq_map, List.map_cons, List.map_cons] at hslots
    have hhead := (List.cons.inj hslots).1
    rwa [Nat.add_zero, Nat.mod_eq_of_lt hok.outIdx_lt] at hhead

/-- A message enters ring `id` and joins the queue. -/
theorem Balanced.enter {exts : Nat → ExtBufCtrl} {msgs : List OsMsg} (h : Balanced exts msgs)
    {m : OsMsg} {id : Nat} (hring : m.ring exts = some id) :
    Balanced (enterRing exts id)
      (msgs ++ [{ m with para1 := (exts id).slot (exts id).inIdx }]) := by
  refine ⟨h.ringsOk.enterRing id, fun i hi => ?_⟩
  have hsame := enterRing_same exts id
  rw [hsame.used] at hi
  obtain ⟨hcount, hslots⟩ := h.inOrder i hi
  have hring' : OsMsg.ring exts { m with para1 := (exts id).slot (exts id).inIdx } = some id := hring
  rw [inFlight_same hsame, inFlight_concat, hring']
  -- the ring that is entered has one more in flight, the others are as before
  by_cases hid : i = id
  · subst hid
    simp only [enterRing, Function.update_self, if_true]
    have hslot : ∀ j, ExtBufCtrl.slot { exts i with inIdx := ((exts i).inIdx + 1) % (exts i).depth }
        j = (exts i).slot j := fun _ => rfl
    refine { count := ?_, slots := ?_ }
    · rw [List.length_append, List.length_singleton]
      simp only
      rw [← Nat.add_assoc, ← hcount, Nat.mod_add_mod]
    · simp only [hslot]
      rw [List.length_append, List.length_singleton, List.range_succ, List.map_append,
        List.map_append, hslots, ← hcount]
      rfl
  · simp only [enterRing, Function.update_of_ne hid, Option.some.injEq, Ne.symm hid, if_false,
      List.append_nil]
    exact ⟨hcount, hslots⟩

/-- The oldest queued message leaves ring `id`. -/
theorem Balanced.leave {exts : Nat → ExtBufCtrl} {msgs : List OsMsg} {m : OsMsg}
    (h : Balanced exts (m :: msgs)) {id : Nat} (hring : m.ring exts = some id) :
    Balanced (leaveRing exts id) msgs := by
  refine ⟨h.ringsOk.leaveRing id, fun i hi => ?_⟩
  have hsame := leaveRing_same exts id
  rw [hsame.used] at hi
  obtain ⟨hcount, hslots⟩ := h.inOrder i hi
  rw [inFlight_cons, hring] at hcount hslots
  rw [inFlight_same hsame]
  -- the ring that is left loses its oldest, the others are as before
  by_cases hid : i = id
  · subst hid
    simp only [leaveRing, Function.update_self]
    simp only [if_true, List.length_cons] at hcount hslots
    rw [List.range_succ_eq_map, List.map_cons, List.map_cons, List.map_map] at hslots
    have hslot : ∀ j, ExtBufCtrl.slot
        { exts i with outIdx := ((exts i).outIdx + 1) % (exts i).depth } j = (exts i).slot j :=
      fun _ => rfl
    refine { count := ?_, slots := ?_ }
    · simp only
      rw [Nat.mod_add_mod, Nat.add_assoc, Nat.add_comm 1, hcount]
    · rw [(List.cons.inj hslots).2]
      apply List.map_congr_left
      intro j _
      simp only [hslot, Function.comp_apply, Nat.succ_eq_add_one]
      rw [Nat.mod_add_mod, Nat.add_assoc, Nat.add_comm 1]
  · simp only [Option.some.injEq, Ne.symm hid, if_false] at hcount hslots
    simp only [leaveRing, Function.update_of_ne hid]
    exact ⟨hcount, hslots⟩

/-- A message outside every ring leaves the queue. -/
theorem Balanced.tail {exts : Nat → ExtBufCtrl} {msgs : List OsMsg} {m : OsMsg}
    (h : Balanced exts (m :: msgs)) (hring : m.ring exts = none) : Balanced exts msgs := by
  refine ⟨h.ringsOk, fun i hi => ?_⟩
  have hin := h.inOrder i hi
  rwa [inFlight_cons, hring, if_neg (by simp)] at hin

/-- A message outside every ring joins the queue. -/
theorem Balanced.concat {exts : Nat → ExtBufCtrl} {msgs : List OsMsg} {m : OsMsg}
    (h : Balanced exts msgs) (hring : m.ring exts = none) : Balanced exts (msgs ++ [m]) := by
  refine ⟨h.ringsOk, fun i hi => ?_⟩
  have hin := h.inOrder i hi
  rwa [inFlight_concat, hring, if_neg (by simp), List.append_nil]

/-! ## Failed sends -/

/-- The indices of every ring. -/
def indices (exts : Nat → ExtBufCtrl) (id : Nat) : Nat × Nat := ((exts id).inIdx, (exts id).outIdx)

/-- Advancing an index within a ring changes it unless there is one slot only. -/
private theorem advance_eq_iff {i d : Nat} (hi : i < d) : (i + 1) % d = i ↔ d = 1 := by
  constructor
  · intro h
    rw [wrap_eq (by omega)] at h
    split at h <;> omega
  · rintro rfl
    rw [Nat.mod_one]; omega

/-- A failed send of an external message is a no-op on the rings exactly when
    its size has no ring or a ring with one slot. -/
theorem sendFails_noop_iff {s : State} (h : RingsOk s.extBuf) {m : OsMsg} (hext : m.isExt = true)
    (payload : List UInt8) {sysOk : Bool} (hfails : sysMsgQSendFails s sysOk = true) :
    indices (mtosMessageqSend s m payload sysOk).1.extBuf = indices s.extBuf ↔
      ∀ id, msgqExtFindId s.extBuf (u16 m.para2) = some id → (s.extBuf id).depth = 1 := by
  cases hid : msgqExtFindId s.extBuf (u16 m.para2) with
  | none =>
    have hring : m.ring s.extBuf = none := by rw [OsMsg.ring, hid, ite_self]
    rcases mtosMessageqSend_passing h hring payload sysOk with hs | hs | ⟨id, -, -, hid', -⟩
    · rw [hs]; simp
    · rw [hs]; simp
    · rw [hid] at hid'; cases hid'
  | some id =>
    have hused := (msgqExtFindId_some hid).1
    have hok := h id hused
    have hone : (∀ id', some id = some id' → (s.extBuf id').depth = 1) ↔ (s.extBuf id).depth = 1 :=
      ⟨fun hall => hall id rfl, fun h1 id' he => Option.some.inj he ▸ h1⟩
    rw [hone, ← advance_eq_iff hok.outIdx_lt]
    -- a message that waits entered the ring before; one that does not only leaves it
    by_cases hsync : m.isSync = false
    · have hring : m.ring s.extBuf = some id := by rw [OsMsg.ring, if_pos ⟨hext, hsync⟩, hid]
      rw [mtosMessageqSend_entering h hring, if_pos hfails]
      constructor
      · intro heq
        have hout := congrArg Prod.snd (congrFun heq id)
        simpa only [indices, leaveRing, enterRing, Function.update_self] using hout
      · intro hadv
        have hd := (advance_eq_iff hok.outIdx_lt).mp hadv
        simp only
        rw [h.enterRing_one hused hd, h.leaveRing_one hused hd]
    · have hring : m.ring s.extBuf = none := by
        rw [OsMsg.ring, if_neg (fun hc => hsync hc.2)]
      have hsend : mtosMessageqSend s m payload sysOk =
          ({ s with extBuf := leaveRing s.extBuf id }, false) := by
        unfold mtosMessageqSend
        rw [if_neg (fun hc => hsync hc.2), sendEntered, if_pos hfails, if_pos hext,
          msgqExtExit_eq h hid]
      rw [hsend]
      constructor
      · intro heq
        have hout := congrArg Prod.snd (congrFun heq id)
        simpa only [indices, leaveRing, Function.update_self] using hout
      · intro hadv
        have hd := (advance_eq_iff hok.outIdx_lt).mp hadv
        simp only
        rw [h.leaveRing_one hused hd]

/-! ## Runs -/

/-- A queue after `mtos_messageq_create` and any number of attaches. -/
structure Fresh (s : State) : Prop where
  ringsOk : RingsOk s.extBuf
  indices : ∀ id, (s.extBuf id).inIdx = 0 ∧ (s.extBuf id).outIdx = 0
  queue : s.queue = []

/-- `mtos_messageq_create`. -/
theorem fresh_create (capacity : Nat) (mem : Memory UInt8) : Fresh { capacity, mem } where
  ringsOk _ hi := nomatch hi
  indices _ := ⟨rfl, rfl⟩
  queue := rfl

/-- Attaching a buffer keeps the queue fresh, whether it is taken or not. -/
theorem Fresh.attach {s : State} (h : Fresh s) (pBuf atomSize depth : Nat) :
    Fresh (mtosMessageqAttach s pBuf atomSize depth) := by
  unfold mtosMessageqAttach
  split
  · exact h
  · simp only
    split
    · exact h
    · rename_i hpos
      split
      · exact h
      · split
        · exact h
        · rename_i i _
          have hlt : u16 depth < 65536 := Nat.mod_lt _ (by decide)
          -- the new ring is empty: both its indices are still 0
          refine { ringsOk := fun j hj => ?_, indices := fun j => ?_, queue := h.queue }
          · by_cases hji : j = i
            · subst hji
              simp only [Function.update_self]
              exact { atomSize_pos := by simp only; omega, depth_pos := by simp only; omega
                      depth_lt := hlt, inIdx_lt := by simp only [(h.indices j).1]; omega
                      outIdx_lt := by simp only [(h.indices j).2]; omega, pRef := fun _ => rfl }
            · simp only [Function.update_of_ne hji] at hj ⊢
              exact h.ringsOk j hj
          · by_cases hji : j = i
            · subst hji
              simp only [Function.update_self]
              exact h.indices j
            · simp only [Function.update_of_ne hji]
              exact h.indices j

theorem Fresh.balanced {s : State} (h : Fresh s) : Balanced s.extBuf s.msgs := by
  refine ⟨h.ringsOk, fun id hid => ?_⟩
  have hmsgs : inFlight s.extBuf s.msgs id = [] := by rw [State.msgs, h.queue]; rfl
  rw [hmsgs]
  refine { count := ?_, slots := rfl }
  rw [(h.indices id).1, (h.indices id).2]
  exact Nat.zero_mod _

/-- The condition on a call: no external message whose size has a ring of two or
    more slots fails in `SYS_MsgQSend`, and no such sync message is cleared. -/
def RingSafe (s : State) : Call → Prop
  | .send m sysOk => m.msg.isExt = true → sysMsgQSendFails s sysOk = true →
      ∀ id ∈ msgqExtFindId s.extBuf (u16 m.msg.para2), (s.extBuf id).depth = 1
  | .receive => True
  | .clr => ∀ q ∈ s.queue, q.msg.isExt = true → q.msg.isSync = true →
      ∀ id ∈ msgqExtFindId s.extBuf (u16 q.msg.para2), (s.extBuf id).depth = 1

instance (s : State) : ∀ c, Decidable (RingSafe s c)
  | .send _ _ => inferInstanceAs (Decidable (_ → _ → _))
  | .receive => inferInstanceAs (Decidable True)
  | .clr => inferInstanceAs (Decidable (∀ _ ∈ _, _ → _ → _))

/-- A failed send of an external message leaves every `in` and `out` as it was. -/
def FailedSendIsNoop (s : State) : Call → Prop
  | .send m sysOk => m.msg.isExt = true → sysMsgQSendFails s sysOk = true →
      indices (machine.step s (.send m sysOk)).1.extBuf = indices s.extBuf
  | _ => True

/-- One send. -/
private theorem send_balanced {s : State} (h : Balanced s.extBuf s.msgs) (m : Outgoing)
    (sysOk : Bool) (hsafe : RingSafe s (.send m sysOk)) :
    Balanced (machine.step s (.send m sysOk)).1.extBuf (machine.step s (.send m sysOk)).1.msgs := by
  change Balanced (mtosMessageqSend s m.msg m.payload sysOk).1.extBuf
    (mtosMessageqSend s m.msg m.payload sysOk).1.msgs
  cases hring : m.msg.ring s.extBuf with
  | some id =>
    obtain ⟨hext, hid⟩ := OsMsg.ring_some hring
    rw [mtosMessageqSend_entering h.ringsOk hring]
    by_cases hfails : sysMsgQSendFails s sysOk = true
    · -- the ring has one slot, so entering and leaving change nothing
      have hone := hsafe hext.1 hfails id hid
      have hused := (msgqExtFindId_some hid).1
      rw [if_pos hfails]
      simp only [State.msgs]
      rw [h.ringsOk.enterRing_one hused hone, h.ringsOk.leaveRing_one hused hone]
      exact h
    · rw [if_neg hfails]
      have henter := h.enter hring
      simpa only [State.msgs, List.map_append, List.map_cons, List.map_nil] using henter
  | none =>
    rcases mtosMessageqSend_passing h.ringsOk hring m.payload sysOk with
      hs | hs | ⟨id, hext, hfails, hid, hs⟩
    · rw [hs]; exact h
    · rw [hs]
      have hconcat := h.concat hring
      simpa only [State.msgs, List.map_append, List.map_cons, List.map_nil] using hconcat
    · rw [hs]
      simp only [State.msgs]
      rw [h.ringsOk.leaveRing_one (msgqExtFindId_some hid).1 (hsafe hext hfails id hid)]
      exact h

/-- Taking the messages out one by one, as `mtos_messageq_clr` does. -/
private theorem clr_balanced (queue : List Queued) (s : State)
    (h : Balanced s.extBuf (queue.map Queued.msg)) (hq : s.queue = [])
    (hsafe : ∀ q ∈ queue, q.msg.isExt = true → q.msg.isSync = true →
      ∀ id ∈ msgqExtFindId s.extBuf (u16 q.msg.para2), (s.extBuf id).depth = 1) :
    let s' := queue.foldl (fun s q => if q.msg.isExt then (msgqExtExit s q.msg).1 else s) s
    Balanced s'.extBuf s'.msgs := by
  induction queue generalizing s with
  | nil =>
    simp only [List.foldl_nil, State.msgs, hq]
    exact h
  | cons q queue ih =>
    simp only [List.foldl_cons]
    have hrest := fun q' hq' => hsafe q' (List.mem_cons_of_mem q hq')
    by_cases hext : q.msg.isExt = true
    · rw [if_pos hext]
      cases hid : msgqExtFindId s.extBuf (u16 q.msg.para2) with
      | none =>
        have hring : q.msg.ring s.extBuf = none := by rw [OsMsg.ring, hid, ite_self]
        simp only [msgqExtExit, hid]
        exact ih s (h.tail hring) hq hrest
      | some id =>
        rw [msgqExtExit_eq h.ringsOk hid]
        have hsame := leaveRing_same s.extBuf id
        refine ih _ ?_ hq ?_
        · by_cases hsync : q.msg.isSync = true
          · -- a sync message never entered: its ring must not notice
            have hone := hsafe q List.mem_cons_self hext hsync id hid
            have hring : q.msg.ring s.extBuf = none := by
              rw [OsMsg.ring, if_neg (fun hc => by rw [hsync] at hc; exact nomatch hc.2)]
            simp only
            rw [h.ringsOk.leaveRing_one (msgqExtFindId_some hid).1 hone]
            exact h.tail hring
          · have hring : q.msg.ring s.extBuf = some id := by
              rw [OsMsg.ring, if_pos ⟨hext, by simpa using hsync⟩, hid]
            exact h.leave hring
        · intro q' hq' hext' hsync' id' hid'
          rw [hsame.depth]
          rw [hsame.findId] at hid'
          exact hrest q' hq' hext' hsync' id' hid'
    · rw [if_neg hext]
      have hring : q.msg.ring s.extBuf = none := by
        rw [OsMsg.ring, if_neg (fun hc => hext hc.1)]
      exact ih s (h.tail hring) hq hrest

/-- One call keeps the rings in order with the queue. -/
theorem step_balanced {s : State} (h : Balanced s.extBuf s.msgs) (c : Call)
    (hsafe : RingSafe s c) :
    FailedSendIsNoop s c ∧ Balanced (machine.step s c).1.extBuf (machine.step s c).1.msgs := by
  cases c with
  | send m sysOk =>
    refine ⟨fun hext hfails => ?_, send_balanced h m sysOk hsafe⟩
    exact (sendFails_noop_iff h.ringsOk hext m.payload hfails).mpr (hsafe hext hfails)
  | receive =>
    refine ⟨trivial, ?_⟩
    change Balanced (mtosMessageqReceive s).1.extBuf (mtosMessageqReceive s).1.msgs
    cases hq : s.queue with
    | nil =>
      have hs : mtosMessageqReceive s = (s, none) := by unfold mtosMessageqReceive; rw [hq]
      rw [hs]; exact h
    | cons q queue =>
      have hcons : Balanced s.extBuf (q.msg :: queue.map Queued.msg) := by
        rw [State.msgs, hq] at h; exact h
      rcases mtosMessageqReceive_cons h.ringsOk hq with ⟨id, hring, hs⟩ | ⟨hring, hs, -⟩
      · rw [hs]; exact hcons.leave hring
      · rw [hs]; exact hcons.tail hring
  | clr =>
    exact ⟨trivial, clr_balanced s.queue { s with queue := [] } h rfl hsafe⟩

/-- In every run whose calls meet `RingSafe`, failed sends are no-ops on the
    rings, and in every state reached the messages in flight of each ring are
    counted by `in - out` and begin with the slot at `out`. -/
theorem ring_balanced (s : State) (hfresh : Fresh s) (calls : List Call)
    (hsafe : machine.Always RingSafe s calls) :
    machine.Always FailedSendIsNoop s calls ∧
    let t := machine.final s calls
    ∀ id, (t.extBuf id).used = true →
      ((t.extBuf id).outIdx + (inFlight t.extBuf t.msgs id).length) % (t.extBuf id).depth =
        (t.extBuf id).inIdx ∧
      ∀ m, (inFlight t.extBuf t.msgs id).head? = some m →
        m.para1 = (t.extBuf id).slot (t.extBuf id).outIdx := by
  obtain ⟨hnoop, hbal⟩ := Machine.always_of_invariant (M := machine)
    (I := fun s => Balanced s.extBuf s.msgs) (fun _ c h hc => step_balanced h c hc)
    hfresh.balanced hsafe
  refine ⟨hnoop, fun id hid => ⟨(hbal.inOrder id hid).count, fun m hm => ?_⟩⟩
  exact (hbal.inOrder id hid).head (hbal.ringsOk id hid) hm

/-- A queue for `capacity` messages with one ring at `0x1000`. -/
def attached (capacity atomSize depth : Nat) : State :=
  mtosMessageqAttach { capacity, mem := fun _ => 0 } 0x1000 atomSize depth

theorem attached_fresh (capacity atomSize depth : Nat) : Fresh (attached capacity atomSize depth) :=
  (fresh_create capacity _).attach 0x1000 atomSize depth

/-- An external message with the given payload. -/
def extMsg (isSync : Bool) (payload : List UInt8) : Outgoing where
  msg := { isExt := true, isSync, para1 := 0x8000, para2 := payload.length }
  payload := payload
  length_eq := rfl

/-- Two messages through a ring of three slots, and a sync message beside it. -/
def balancedRun : List Call :=
  [.send (extMsg false [1, 2]) true, .send (extMsg true [9, 9]) true,
    .send (extMsg false [3, 4]) true, .receive, .receive, .clr]

theorem ring_balanced_balancedRun :
    machine.Always FailedSendIsNoop (attached 4 2 3) balancedRun ∧
    let t := machine.final (attached 4 2 3) balancedRun
    ∀ id, (t.extBuf id).used = true →
      ((t.extBuf id).outIdx + (inFlight t.extBuf t.msgs id).length) % (t.extBuf id).depth =
        (t.extBuf id).inIdx ∧
      ∀ m, (inFlight t.extBuf t.msgs id).head? = some m →
        m.para1 = (t.extBuf id).slot (t.extBuf id).outIdx :=
  ring_balanced (attached 4 2 3) (attached_fresh 4 2 3) balancedRun (by decide +kernel)

/-- One message is in flight when a second one, and then a sync one, fails. -/
def failingRun (isSync : Bool) : List Call :=
  [.send (extMsg false [1, 2]) true, .send (extMsg isSync [3, 4]) true]

/-- What `failingRun` leaves of a queue for one message. -/
def failed (isSync : Bool) : State := machine.final (attached 1 2 3) (failingRun isSync)

/-- The second send of `failingRun` moves an index. -/
private theorem failingRun_moves (isSync : Bool) :
    ¬ machine.Always FailedSendIsNoop (attached 1 2 3) (failingRun isSync) := by
  intro halways
  have hnoop := halways.2.1 rfl (by cases isSync <;> decide +kernel)
  have hring := congrFun hnoop 0
  revert hring
  cases isSync <;> decide +kernel

/-- A failed send moves `out` away from the oldest message in flight; that of a
    sync message breaks the count too. -/
theorem ring_balanced_fails :
    (¬ machine.Always FailedSendIsNoop (attached 1 2 3) (failingRun false) ∧
      (inFlight (failed false).extBuf (failed false).msgs 0).head?.map OsMsg.para1 ≠
        some (((failed false).extBuf 0).slot ((failed false).extBuf 0).outIdx)) ∧
    ¬ machine.Always FailedSendIsNoop (attached 1 2 3) (failingRun true) ∧
      (((failed true).extBuf 0).outIdx +
        (inFlight (failed true).extBuf (failed true).msgs 0).length) %
          ((failed true).extBuf 0).depth ≠ ((failed true).extBuf 0).inIdx := by
  refine ⟨⟨failingRun_moves false, ?_⟩, failingRun_moves true, ?_⟩
  · decide +kernel
  · decide +kernel

end Tntsat.MtosMsg
