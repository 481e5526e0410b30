import Mathlib.Data.List.Infix
import Tntsat.Spec.MtosMsgPayloadCorrect

/-!
# References to payloads

A receiver that needs a payload for longer holds its slot with `mtos_message_increase_ref` and lets
it go with `mtos_message_decrease_ref`.  `_msgq_ext_enter` refuses a message whose slot is held.
The calls on the queue only turn `in` and `out` and write a payload to the slot at `in`, so a slot
that is held is not written, whatever is called in between, unless its buffer is detached, its count
goes beyond 127, or a payload is longer than the slots (`Apart`).

## Key results

- `Wrote.read_held`: one call on the queue leaves a slot that is held as it is
- `step_held`: so does any call of the module
- `held_payload_kept`: payloads and counts over whole runs
-/

namespace Tntsat.MtosMsg

/-! ## Rings -/

/-- A ring as `_msgq_ext_use` sets it up, with `in` inside. -/
structure RingFit (b : ExtBufCtrl) : Prop where
  addr_pos : 0 < b.addr
  atomSize_pos : 0 < b.atomSize
  depth_lt : b.depth < 65536
  inIdx_lt : b.inIdx < b.depth

/-- The rings of a queue: those in use have different sizes and different memory. -/
structure TableOk (exts : Nat → ExtBufCtrl) : Prop where
  id_lt : ∀ i, (exts i).used = true → i < mtosMsgqMaxBuf
  fit : ∀ i, (exts i).used = true → RingFit (exts i)
  idle : ∀ i, (exts i).used = false → (exts i).inIdx = 0
  sizes : ∀ i j, (exts i).used = true → (exts j).used = true →
    (exts i).atomSize = (exts j).atomSize → i = j
  disjoint : Disjoint exts

/-- What the calls on the queue do to the rings: they turn `in` and `out`. -/
structure Turned (exts exts' : Nat → ExtBufCtrl) : Prop where
  same : SameRings exts exts'
  pRef : ∀ i, (exts' i).pRef = (exts i).pRef
  inIdx : ∀ i, (exts' i).inIdx = (exts i).inIdx ∨
    (exts i).used = true ∧ (exts' i).inIdx < (exts i).depth

theorem Turned.refl (exts : Nat → ExtBufCtrl) : Turned exts exts :=
  ⟨SameRings.refl exts, fun _ => rfl, fun _ => .inl rfl⟩

theorem Turned.trans {e₁ e₂ e₃ : Nat → ExtBufCtrl} (h : Turned e₁ e₂) (h' : Turned e₂ e₃) :
    Turned e₁ e₃ where
  same := h.same.trans h'.same
  pRef i := (h'.pRef i).trans (h.pRef i)
  inIdx i := by
    rcases h'.inIdx i with heq | ⟨hused, hlt⟩
    · rw [heq]
      exact h.inIdx i
    · right
      rw [h.same.used] at hused
      rw [h.same.depth] at hlt
      exact ⟨hused, hlt⟩

/-- Storing a ring that differs in `in` and `out` only. -/
theorem Turned.update {exts : Nat → ExtBufCtrl} {id : Nat} {b : ExtBufCtrl}
    (hfixed : b.fixed = (exts id).fixed) (hpRef : b.pRef = (exts id).pRef)
    (hin : b.inIdx = (exts id).inIdx ∨ (exts id).used = true ∧ b.inIdx < (exts id).depth) :
    Turned exts (Function.update exts id b) := by
  refine ⟨SameRings.update hfixed, fun i => ?_, fun i => ?_⟩
  · by_cases hi : i = id
    · subst hi; rw [Function.update_self]; exact hpRef
    · rw [Function.update_of_ne hi]
  · by_cases hi : i = id
    · subst hi; rw [Function.update_self]; exact hin
    · rw [Function.update_of_ne hi]; exact .inl rfl

theorem TableOk.same {exts exts' : Nat → ExtBufCtrl} (h : TableOk exts)
    (hsame : SameRings exts exts') (hin : ∀ i, (exts' i).inIdx = (exts i).inIdx ∨
      (exts i).used = true ∧ (exts' i).inIdx < (exts i).depth) : TableOk exts' where
  id_lt i hi := h.id_lt i (hsame.used i ▸ hi)
  fit i hi := by
    have hfit := h.fit i (hsame.used i ▸ hi)
    have haddr : (exts' i).addr = (exts i).addr := congrArg (·.2.2.2) (hsame i)
    refine ⟨haddr ▸ hfit.addr_pos, hsame.atomSize i ▸ hfit.atomSize_pos,
      hsame.depth i ▸ hfit.depth_lt, ?_⟩
    rw [hsame.depth]
    rcases hin i with heq | ⟨-, hlt⟩
    · rw [heq]; exact hfit.inIdx_lt
    · exact hlt
  idle i hi := by
    rw [hsame.used] at hi
    rcases hin i with heq | ⟨hused, -⟩
    · rw [heq]; exact h.idle i hi
    · rw [hi] at hused; cases hused
  sizes i j hi hj hsize := by
    rw [hsame.atomSize, hsame.atomSize] at hsize
    exact h.sizes i j (hsame.used i ▸ hi) (hsame.used j ▸ hj) hsize
  disjoint := h.disjoint.same hsame

/-- The ring for a size in use is found. -/
theorem TableOk.findId {exts : Nat → ExtBufCtrl} (h : TableOk exts) {id : Nat}
    (hused : (exts id).used = true) : msgqExtFindId exts (exts id).atomSize = some id := by
  have hpos := (h.fit id hused).atomSize_pos
  unfold msgqExtFindId
  rw [if_neg (by omega), List.find?_range_eq_some]
  refine ⟨by simp [hused], List.mem_range.mpr (h.id_lt id hused), fun j hj => ?_⟩
  cases hj' : (exts j).used with
  | false => simp
  | true =>
    have hne : (exts id).atomSize ≠ (exts j).atomSize := by
      intro heq
      have hid := h.sizes id j hused hj' heq
      omega
    simp [hne]

/-- The count of slot `i` is found at the slot's address. -/
theorem msgqExtFindSlot_slot {b : ExtBufCtrl} (hpos : 0 < b.atomSize) {i : Nat}
    (hi : i < b.depth) : msgqExtFindSlot b (b.slot i) = some i := by
  unfold msgqExtFindSlot
  rw [List.find?_range_eq_some]
  refine ⟨beq_self_eq_true _, List.mem_range.mpr hi, fun j hj => ?_⟩
  have hlt := Nat.mul_lt_mul_of_pos_right hj hpos
  simp only [ExtBufCtrl.slot, Bool.not_eq_true', beq_eq_false_iff_ne]
  omega

theorem msgqExtFindSlot_some {b : ExtBufCtrl} {addr i : Nat} (h : msgqExtFindSlot b addr = some i) :
    i < b.depth ∧ b.slot i = addr := by
  unfold msgqExtFindSlot at h
  rw [List.find?_range_eq_some] at h
  exact ⟨List.mem_range.mp h.2.1, beq_iff_eq.mp h.1⟩

/-- A message leaves a ring. -/
theorem msgqExtExit_turned (s : State) (m : OsMsg) :
    Turned s.extBuf (msgqExtExit s m).1.extBuf ∧ (msgqExtExit s m).1.mem = s.mem := by
  unfold msgqExtExit
  split
  · exact ⟨Turned.refl _, rfl⟩
  · exact ⟨Turned.update rfl rfl (.inl rfl), rfl⟩

/-- A message enters a ring only where no reference is held. -/
theorem msgqExtEnter_turned {s s' : State} (h : TableOk s.extBuf) {m m' : OsMsg}
    {payload : List UInt8} (henter : msgqExtEnter s m payload = some (s', m')) :
    ∃ id, msgqExtFindId s.extBuf (u16 m.para2) = some id ∧
      (s.extBuf id).pRef (s.extBuf id).inIdx ≤ 0 ∧ Turned s.extBuf s'.extBuf ∧
      s'.mem = s.mem.write ((s.extBuf id).slot (s.extBuf id).inIdx) payload := by
  unfold msgqExtEnter at henter
  split at henter
  · cases henter
  · rename_i id hid
    have hused := (msgqExtFindId_some hid).1
    have hin := (h.fit id hused).inIdx_lt
    have hfind : msgqExtFindRef (s.extBuf id) ((s.extBuf id).slot (s.extBuf id).inIdx) =
        some ((s.extBuf id).pRef (s.extBuf id).inIdx) :=
      congrArg (Option.map (s.extBuf id).pRef)
        (msgqExtFindSlot_slot ((h.fit id hused).atomSize_pos) hin)
    simp only [hfind] at henter
    split at henter
    · cases henter
    · rename_i href
      cases henter
      refine ⟨id, hid, Int.not_lt.mp href, Turned.update rfl rfl (.inr ⟨hused, ?_⟩), rfl⟩
      have hlt := Nat.mod_lt ((s.extBuf id).inIdx + 1) (Nat.zero_lt_of_lt hin)
      rw [u16_of_lt (Nat.lt_trans hlt ((h.fit id hused).depth_lt))]
      exact hlt

/-- What one call on the queue does to the rings and their memory: at most a payload of the
    right size goes to a slot that nobody holds. -/
structure Wrote (s s' : State) : Prop where
  turned : Turned s.extBuf s'.extBuf
  mem : s'.mem = s.mem ∨ ∃ id payload, (s.extBuf id).used = true ∧
    (s.extBuf id).pRef (s.extBuf id).inIdx ≤ 0 ∧ payload.length = (s.extBuf id).atomSize ∧
    s'.mem = s.mem.write ((s.extBuf id).slot (s.extBuf id).inIdx) payload

theorem Wrote.refl (s : State) : Wrote s s := ⟨Turned.refl _, .inl rfl⟩

/-- Rings that turn afterwards. -/
theorem Wrote.turn {s s' s'' : State} (h : Wrote s s') (ht : Turned s'.extBuf s''.extBuf)
    (hmem : s''.mem = s'.mem) : Wrote s s'' := ⟨h.turned.trans ht, hmem ▸ h.mem⟩

theorem sendEntered_wrote {s s' : State} (h : Wrote s s') (m : OsMsg) (payload : List UInt8)
    (sysOk : Bool) : Wrote s (sendEntered s' m payload sysOk).1 := by
  unfold sendEntered
  split
  · split
    · have hexit := msgqExtExit_turned s' m
      exact h.turn hexit.1 hexit.2
    · exact h
  · exact h.turn (Turned.refl _) rfl

theorem mtosMessageqSend_wrote {s : State} (h : TableOk s.extBuf) (m : Outgoing) (sysOk : Bool)
    (hsmall : m.msg.isExt = true → m.msg.para2 < 65536) :
    Wrote s (mtosMessageqSend s m.msg m.payload sysOk).1 := by
  unfold mtosMessageqSend
  split
  · rename_i hext
    cases henter : msgqExtEnter s m.msg m.payload with
    | none => exact Wrote.refl s
    | some entered =>
      obtain ⟨id, hid, href, hturned, hmem⟩ := msgqExtEnter_turned h henter
      obtain ⟨hused, hsize⟩ := msgqExtFindId_some hid
      have hlength : m.payload.length = (s.extBuf id).atomSize := by
        rw [hsize, m.length_eq, u16_of_lt (hsmall hext.1)]
      exact sendEntered_wrote
        ⟨hturned, .inr ⟨id, m.payload, hused, href, hlength, hmem⟩⟩ entered.2 m.payload sysOk
  · exact sendEntered_wrote (Wrote.refl s) m.msg m.payload sysOk

theorem mtosMessageqReceive_wrote (s : State) : Wrote s (mtosMessageqReceive s).1 := by
  unfold mtosMessageqReceive
  split
  · exact Wrote.refl s
  · rename_i q queue hq
    have hexit := msgqExtExit_turned { s with queue } q.msg
    have hwrote : Wrote s (msgqExtExit { s with queue } q.msg).1 :=
      (Wrote.refl s).turn hexit.1 hexit.2
    simp only
    split
    · split <;> rename_i heq <;> rw [heq] at hwrote <;> exact hwrote
    · exact (Wrote.refl s).turn (Turned.refl _) rfl

theorem mtosMessageqClr_wrote (s : State) : Wrote s (mtosMessageqClr s) := by
  have hfold : ∀ (queue : List Queued) (s' : State), Wrote s s' →
      Wrote s (queue.foldl (fun s q => if q.msg.isExt then (msgqExtExit s q.msg).1 else s) s') := by
    intro queue
    induction queue with
    | nil => exact fun _ h => h
    | cons q queue ih =>
      intro s' h
      rw [List.foldl_cons]
      apply ih
      split
      · have hexit := msgqExtExit_turned s' q.msg
        exact h.turn hexit.1 hexit.2
      · exact h
  exact hfold s.queue _ ((Wrote.refl s).turn (Turned.refl _) rfl)

/-- A slot that is held is not written. -/
theorem Wrote.read_held {s s' : State} (hwrote : Wrote s s') (h : TableOk s.extBuf) {id i : Nat}
    (hused : (s.extBuf id).used = true) (hi : i < (s.extBuf id).depth)
    (hheld : 0 < (s.extBuf id).pRef i) :
    s'.mem.read ((s.extBuf id).slot i) (s.extBuf id).atomSize =
      s.mem.read ((s.extBuf id).slot i) (s.extBuf id).atomSize := by
  rcases hwrote.mem with hmem | ⟨id', payload, hused', href, hlength, hmem⟩
  · rw [hmem]
  · rw [hmem]
    apply Memory.read_write_disjoint
    rw [hlength]
    by_cases hid : id' = id
    · -- the same ring: the slot at `in` is another one
      subst hid
      apply ExtBufCtrl.slot_disjoint
      intro heq
      rw [heq] at hheld
      omega
    · have hslot := (s.extBuf id).slot_le hi
      have hin := (s.extBuf id').slot_le ((h.fit id' hused').inIdx_lt)
      rcases h.disjoint id' id hused' hused hid with hdisj | hdisj
      · right; omega
      · left; omega

/-! ## Holding a payload -/

/-- The calls leave the rings apart: a message that enters a ring fits into its slots, and a
    buffer is attached outside the memory of the others. -/
def Apart (s : State) : RefCall → Prop
  | .queue (.send m _) => m.msg.isExt = true → m.msg.para2 < 65536
  | .attach pBuf atomSize depth => ∀ i < mtosMsgqMaxBuf, (s.extBuf i).used = true →
      (s.extBuf i).slot (s.extBuf i).depth ≤ pBuf ∨
        pBuf + u16 depth * u16 atomSize ≤ (s.extBuf i).addr
  | _ => True

instance (s : State) : (c : RefCall) → Decidable (Apart s c)
  | .queue (.send m _) => inferInstanceAs (Decidable (m.msg.isExt = true → m.msg.para2 < 65536))
  | .queue .receive => inferInstanceAs (Decidable True)
  | .queue .clr => inferInstanceAs (Decidable True)
  | .increaseRef _ _ => inferInstanceAs (Decidable True)
  | .decreaseRef _ _ => inferInstanceAs (Decidable True)
  | .attach pBuf atomSize depth => inferInstanceAs (Decidable (∀ i < mtosMsgqMaxBuf,
      (s.extBuf i).used = true → (s.extBuf i).slot (s.extBuf i).depth ≤ pBuf ∨
        pBuf + u16 depth * u16 atomSize ≤ (s.extBuf i).addr))
  | .detach _ => inferInstanceAs (Decidable True)

/-- Whether a call detaches the ring for a size. -/
def RefCall.detaches (size : Nat) : RefCall → Bool
  | .detach atomSize => u16 atomSize = size
  | _ => false

/-- By how much a call changes the references to the slot of a size at an address. -/
def RefCall.change (addr size : Nat) : RefCall → Int
  | .increaseRef a atomSize => if a = addr ∧ u16 atomSize = size then 1 else 0
  | .decreaseRef a atomSize => if a = addr ∧ u16 atomSize = size then -1 else 0
  | _ => 0

/-- The references to slot `i` behind some calls. -/
def ExtBufCtrl.refsBehind (b : ExtBufCtrl) (i : Nat) (calls : List RefCall) : Int :=
  b.pRef i + calls.foldr (fun c n => c.change (b.slot i) b.atomSize + n) 0

/-- Slot `i` is held by at least one reference, and by no more than an `s8` counts, in front of
    each of some calls and behind them. -/
def ExtBufCtrl.HeldThrough (b : ExtBufCtrl) (i : Nat) (calls : List RefCall) : Prop :=
  ∀ done ∈ calls.inits, 0 < b.refsBehind i done ∧ b.refsBehind i done ≤ 127

instance (b : ExtBufCtrl) (i : Nat) (calls : List RefCall) : Decidable (b.HeldThrough i calls) :=
  inferInstanceAs (Decidable (∀ done ∈ calls.inits, _ ∧ _))

theorem ExtBufCtrl.same_of_fixed {b b' : ExtBufCtrl} (h : b'.fixed = b.fixed) (i : Nat) :
    b'.slot i = b.slot i ∧ b'.atomSize = b.atomSize ∧ b'.depth = b.depth ∧ b'.used = b.used := by
  simp only [fixed, Prod.mk.injEq] at h
  obtain ⟨hused, hsize, hdepth, haddr⟩ := h
  exact ⟨by rw [slot, slot, haddr, hsize], hsize, hdepth, hused⟩

theorem ExtBufCtrl.refsBehind_cons {b b' : ExtBufCtrl} {i : Nat} {c : RefCall}
    (hfixed : b'.fixed = b.fixed) (href : b'.pRef i = b.pRef i + c.change (b.slot i) b.atomSize)
    (calls : List RefCall) : b'.refsBehind i calls = b.refsBehind i (c :: calls) := by
  obtain ⟨hslot, hsize, -, -⟩ := same_of_fixed hfixed i
  rw [refsBehind, refsBehind, hslot, hsize, href, List.foldr_cons, Int.add_assoc]

theorem ExtBufCtrl.HeldThrough.head {b : ExtBufCtrl} {i : Nat} {c : RefCall}
    {calls : List RefCall} (h : b.HeldThrough i (c :: calls)) :
    0 < b.pRef i ∧ b.pRef i + c.change (b.slot i) b.atomSize ≤ 127 := by
  have hnow := h [] ((List.mem_inits _ _).mpr List.nil_prefix)
  have hnext := h [c] ((List.mem_inits _ _).mpr (List.cons_prefix_cons.mpr ⟨rfl, List.nil_prefix⟩))
  simp only [refsBehind, List.foldr_nil, List.foldr_cons, Int.add_zero] at hnow hnext
  exact ⟨hnow.1, hnext.2⟩

/-- What is held through some calls is held through the later ones once the first is done. -/
theorem ExtBufCtrl.HeldThrough.tail {b b' : ExtBufCtrl} {i : Nat} {c : RefCall}
    {calls : List RefCall} (h : b.HeldThrough i (c :: calls)) (hfixed : b'.fixed = b.fixed)
    (href : b'.pRef i = b.pRef i + c.change (b.slot i) b.atomSize) : b'.HeldThrough i calls := by
  intro done hdone
  rw [refsBehind_cons hfixed href]
  exact h (c :: done)
    ((List.mem_inits _ _).mpr (List.cons_prefix_cons.mpr ⟨rfl, (List.mem_inits _ _).mp hdone⟩))

theorem changeRef_same (s : State) (a n : Nat) (change : Int → Int) :
    SameRings s.extBuf (changeRef s a n change).extBuf ∧
      (∀ i, ((changeRef s a n change).extBuf i).inIdx = (s.extBuf i).inIdx) ∧
      (changeRef s a n change).mem = s.mem := by
  unfold changeRef
  split
  · exact ⟨SameRings.refl _, fun _ => rfl, rfl⟩
  · split
    · exact ⟨SameRings.refl _, fun _ => rfl, rfl⟩
    · rename_i id _
      simp only
      split
      · exact ⟨SameRings.refl _, fun _ => rfl, rfl⟩
      · refine ⟨SameRings.update rfl, fun i => ?_, rfl⟩
        by_cases hi : i = id
        · subst hi; simp only [Function.update_self]
        · simp only [Function.update_of_ne hi]

/-- The count of a slot changes with its address and size only. -/
theorem changeRef_pRef {s : State} (h : TableOk s.extBuf) {id i : Nat}
    (hused : (s.extBuf id).used = true) (hi : i < (s.extBuf id).depth) (a n : Nat)
    (change : Int → Int) :
    ((changeRef s a n change).extBuf id).pRef i =
      if a = (s.extBuf id).slot i ∧ u16 n = (s.extBuf id).atomSize then
        change ((s.extBuf id).pRef i)
      else (s.extBuf id).pRef i := by
  have hpos := (h.fit id hused).atomSize_pos
  have hfind := msgqExtFindSlot_slot hpos hi
  unfold changeRef
  by_cases hthis : a = (s.extBuf id).slot i ∧ u16 n = (s.extBuf id).atomSize
  · obtain ⟨rfl, hsize⟩ := hthis
    have haddr := ((s.extBuf id).slot_le hi).1
    have haddr' := (h.fit id hused).addr_pos
    have hn : n ≠ 0 := by
      rintro rfl
      exact absurd hsize (Nat.ne_of_lt hpos)
    rw [if_neg (by omega), hsize, h.findId hused, if_pos ⟨rfl, rfl⟩]
    simp only [hfind, Function.update_self]
  · rw [if_neg hthis]
    split
    · rfl
    · split
      · rfl
      · rename_i id' hid'
        simp only
        split
        · rfl
        · rename_i i' hi'
          obtain ⟨-, hslot⟩ := msgqExtFindSlot_some hi'
          by_cases hid : id = id'
          · -- another slot of the ring
            subst hid
            have hne : i ≠ i' := by
              rintro rfl
              exact hthis ⟨hslot.symm, ((msgqExtFindId_some hid').2).symm⟩
            simp only [Function.update_self, Function.update_of_ne hne]
          · simp only [Function.update_of_ne hid]

/-- Storing a new ring of another size. -/
theorem TableOk.store {exts : Nat → ExtBufCtrl} (h : TableOk exts) {k : Nat} {b : ExtBufCtrl}
    (hk : k < mtosMsgqMaxBuf) (hfit : RingFit b) (hused : b.used = true)
    (hsize : ∀ i, (exts i).used = true → (exts i).atomSize ≠ b.atomSize)
    (hdisj : Disjoint (Function.update exts k b)) : TableOk (Function.update exts k b) where
  id_lt i hi := by
    by_cases hik : i = k
    · exact hik ▸ hk
    · rw [Function.update_of_ne hik] at hi
      exact h.id_lt i hi
  fit i hi := by
    by_cases hik : i = k
    · subst hik
      rw [Function.update_self]
      exact hfit
    · rw [Function.update_of_ne hik] at hi ⊢
      exact h.fit i hi
  idle i hi := by
    by_cases hik : i = k
    · subst hik
      rw [Function.update_self, hused] at hi
      cases hi
    · rw [Function.update_of_ne hik] at hi ⊢
      exact h.idle i hi
  sizes i j hi hj hij := by
    by_cases hik : i = k
    · by_cases hjk : j = k
      · rw [hik, hjk]
      · subst hik
        rw [Function.update_of_ne hjk] at hj hij
        rw [Function.update_self] at hij
        exact absurd hij.symm (hsize j hj)
    · rw [Function.update_of_ne hik] at hi hij
      by_cases hjk : j = k
      · subst hjk
        rw [Function.update_self] at hij
        exact absurd hij (hsize i hi)
      · rw [Function.update_of_ne hjk] at hj hij
        exact h.sizes i j hi hj hij
  disjoint := hdisj

/-- Forgetting a ring. -/
theorem TableOk.drop {exts : Nat → ExtBufCtrl} (h : TableOk exts) (k : Nat) :
    TableOk (Function.update exts k {}) := by
  have hback : ∀ i, (Function.update exts k {} i).used = true →
      i ≠ k ∧ (exts i).used = true := by
    intro i hi
    by_cases hik : i = k
    · subst hik
      rw [Function.update_self] at hi
      cases hi
    · rw [Function.update_of_ne hik] at hi
      exact ⟨hik, hi⟩
  refine ⟨fun i hi => ?_, fun i hi => ?_, fun i hi => ?_, fun i j hi hj hij => ?_,
    fun i j hi hj hij => ?_⟩
  · exact h.id_lt i (hback i hi).2
  · rw [Function.update_of_ne (hback i hi).1]
    exact h.fit i (hback i hi).2
  · by_cases hik : i = k
    · subst hik
      rw [Function.update_self]
    · rw [Function.update_of_ne hik] at hi ⊢
      exact h.idle i hi
  · rw [Function.update_of_ne (hback i hi).1, Function.update_of_ne (hback j hj).1] at hij
    exact h.sizes i j (hback i hi).2 (hback j hj).2 hij
  · rw [Function.update_of_ne (hback i hi).1, Function.update_of_ne (hback j hj).1]
    exact h.disjoint i j (hback i hi).2 (hback j hj).2 hij

/-- A buffer that is attached leaves the rings in use as they are. -/
theorem mtosMessageqAttach_spec {s : State} (h : TableOk s.extBuf) {pBuf atomSize depth : Nat}
    (hapart : Apart s (.attach pBuf atomSize depth)) :
    TableOk (mtosMessageqAttach s pBuf atomSize depth).extBuf ∧
      (∀ i, (s.extBuf i).used = true →
        (mtosMessageqAttach s pBuf atomSize depth).extBuf i = s.extBuf i) ∧
      (mtosMessageqAttach s pBuf atomSize depth).mem = s.mem := by
  have hdisj := h.disjoint.attach pBuf atomSize depth fun i hi => hapart i (h.id_lt i hi) hi
  revert hdisj
  unfold mtosMessageqAttach
  split
  · exact fun _ => ⟨h, fun _ _ => rfl, rfl⟩
  · rename_i hargs
    simp only
    split
    · exact fun _ => ⟨h, fun _ _ => rfl, rfl⟩
    · rename_i hcast
      split
      · exact fun _ => ⟨h, fun _ _ => rfl, rfl⟩
      · rename_i hnew
        split
        · exact fun _ => ⟨h, fun _ _ => rfl, rfl⟩
        · rename_i k hk
          intro hdisj
          rw [List.find?_range_eq_some] at hk
          obtain ⟨hunused, hmem, -⟩ := hk
          have hidle : (s.extBuf k).used = false := by simpa using hunused
          refine ⟨h.store (List.mem_range.mp hmem) ?_ rfl ?_ hdisj, fun i hi => ?_, rfl⟩
          · -- `in` of a ring that is not in use is 0
            refine ⟨by simp only; omega, by simp only; omega, Nat.mod_lt depth (by decide), ?_⟩
            simp only [h.idle k hidle]
            omega
          · intro i hi heq
            have hfound := h.findId hi
            rw [heq] at hfound
            simp only [hfound, Option.isSome_some, not_true_eq_false] at hnew
          · refine Function.update_of_ne ?_ _ _
            rintro rfl
            rw [hidle] at hi
            cases hi

/-- A ring that is detached leaves the others as they are. -/
theorem mtosMessageqDetach_spec {s : State} (h : TableOk s.extBuf) (n : Nat) :
    TableOk (mtosMessageqDetach s n).extBuf ∧
      (∀ i, (s.extBuf i).atomSize ≠ u16 n → (mtosMessageqDetach s n).extBuf i = s.extBuf i) ∧
      (mtosMessageqDetach s n).mem = s.mem := by
  unfold mtosMessageqDetach
  split
  · exact ⟨h, fun _ _ => rfl, rfl⟩
  · rename_i k hk
    split
    · exact ⟨h, fun _ _ => rfl, rfl⟩
    · refine ⟨h.drop k, fun i hi => Function.update_of_ne ?_ _ _, rfl⟩
      rintro rfl
      exact hi (msgqExtFindId_some hk).2

/-! ## One call of the module -/

theorem queue_wrote {s : State} (h : TableOk s.extBuf) {c : Call} (hapart : Apart s (.queue c)) :
    Wrote s (machine.step s c).1 := by
  cases c with
  | send m sysOk => exact mtosMessageqSend_wrote h m sysOk hapart
  | receive => exact mtosMessageqReceive_wrote s
  | clr => exact mtosMessageqClr_wrote s

theorem step_tableOk {s : State} (h : TableOk s.extBuf) (c : RefCall) (hapart : Apart s c) :
    TableOk (refMachine.step s c).1.extBuf := by
  cases c with
  | queue c =>
    have hturned := (queue_wrote h hapart).turned
    exact h.same hturned.same hturned.inIdx
  | increaseRef a n =>
    obtain ⟨hsame, hin, -⟩ := changeRef_same s a n fun ref => s8 (ref + 1)
    exact h.same hsame fun i => .inl (hin i)
  | decreaseRef a n =>
    obtain ⟨hsame, hin, -⟩ := changeRef_same s a n fun ref => if ref = 0 then ref else s8 (ref - 1)
    exact h.same hsame fun i => .inl (hin i)
  | attach pBuf atomSize depth => exact (mtosMessageqAttach_spec h hapart).1
  | detach n => exact (mtosMessageqDetach_spec h n).1

theorem s8_of_range {n : Int} (hlo : -128 ≤ n) (hhi : n ≤ 127) : s8 n = n := by
  unfold s8
  rw [Int.bmod_eq_of_le] <;> omega

/-- What a call leaves of a slot that is held before it and behind it. -/
theorem step_held {s : State} (h : TableOk s.extBuf) {id i : Nat}
    (hused : (s.extBuf id).used = true) (hi : i < (s.extBuf id).depth) {c : RefCall}
    (hapart : Apart s c) (hkeep : c.detaches (s.extBuf id).atomSize = false)
    (hheld : 0 < (s.extBuf id).pRef i) (hle : (s.extBuf id).pRef i +
      c.change ((s.extBuf id).slot i) (s.extBuf id).atomSize ≤ 127) :
    ((refMachine.step s c).1.extBuf id).fixed = (s.extBuf id).fixed ∧
      ((refMachine.step s c).1.extBuf id).pRef i = (s.extBuf id).pRef i +
        c.change ((s.extBuf id).slot i) (s.extBuf id).atomSize ∧
      (refMachine.step s c).1.mem.read ((s.extBuf id).slot i) (s.extBuf id).atomSize =
        s.mem.read ((s.extBuf id).slot i) (s.extBuf id).atomSize := by
  cases c with
  | queue c =>
    have hwrote := queue_wrote h hapart
    refine ⟨hwrote.turned.same id, ?_, hwrote.read_held h hused hi hheld⟩
    simp only [RefCall.change, Int.add_zero]
    exact congrFun (hwrote.turned.pRef id) i
  | increaseRef a n =>
    obtain ⟨hsame, -, hmem⟩ := changeRef_same s a n fun ref => s8 (ref + 1)
    refine ⟨hsame id, ?_, congrArg (Memory.read · _ _) hmem⟩
    refine (changeRef_pRef h hused hi a n _).trans ?_
    simp only [RefCall.change] at hle ⊢
    split
    · rename_i hthis
      rw [if_pos hthis] at hle
      exact s8_of_range (by omega) hle
    · omega
  | decreaseRef a n =>
    obtain ⟨hsame, -, hmem⟩ :=
      changeRef_same s a n fun ref => if ref = 0 then ref else s8 (ref - 1)
    refine ⟨hsame id, ?_, congrArg (Memory.read · _ _) hmem⟩
    refine (changeRef_pRef h hused hi a n _).trans ?_
    simp only [RefCall.change] at hle ⊢
    split
    · rename_i hthis
      rw [if_pos hthis] at hle
      rw [if_neg (by omega)]
      exact s8_of_range (by omega) hle
    · omega
  | attach pBuf atomSize depth =>
    obtain ⟨-, hother, hmem⟩ := mtosMessageqAttach_spec h hapart
    have hring := hother id hused
    refine ⟨congrArg ExtBufCtrl.fixed hring, ?_, congrArg (Memory.read · _ _) hmem⟩
    simp only [RefCall.change, Int.add_zero]
    exact congrArg (ExtBufCtrl.pRef · i) hring
  | detach n =>
    obtain ⟨-, hother, hmem⟩ := mtosMessageqDetach_spec h n
    have hring := hother id (Ne.symm (of_decide_eq_false hkeep))
    refine ⟨congrArg ExtBufCtrl.fixed hring, ?_, congrArg (Memory.read · _ _) hmem⟩
    simp only [RefCall.change, Int.add_zero]
    exact congrArg (ExtBufCtrl.pRef · i) hring

/-! ## Runs of the module -/

theorem tableOk_create (capacity : Nat) (mem : Memory UInt8) :
    TableOk ({ capacity, mem } : State).extBuf where
  id_lt _ hi := by cases hi
  fit _ hi := by cases hi
  idle _ _ := rfl
  sizes _ _ hi := by cases hi
  disjoint _ _ hi := by cases hi

/-- A slot that is held all along. -/
theorem run_held {calls : List RefCall} {s : State} (h : TableOk s.extBuf) {id i : Nat}
    (hused : (s.extBuf id).used = true) (hi : i < (s.extBuf id).depth)
    (hapart : refMachine.Always Apart s calls)
    (hkeep : ∀ c ∈ calls, c.detaches (s.extBuf id).atomSize = false)
    (hheld : (s.extBuf id).HeldThrough i calls) :
    ((refMachine.final s calls).extBuf id).fixed = (s.extBuf id).fixed ∧
      ((refMachine.final s calls).extBuf id).pRef i = (s.extBuf id).refsBehind i calls ∧
      (refMachine.final s calls).mem.read ((s.extBuf id).slot i) (s.extBuf id).atomSize =
        s.mem.read ((s.extBuf id).slot i) (s.extBuf id).atomSize := by
  induction calls generalizing s with
  | nil => exact ⟨rfl, (Int.add_zero _).symm, rfl⟩
  | cons c calls ih =>
    obtain ⟨hfirst, hrest⟩ := hapart
    obtain ⟨hnow, hnext⟩ := hheld.head
    obtain ⟨hfixed, href, hmem⟩ := step_held h hused hi hfirst (hkeep c List.mem_cons_self) hnow
      hnext
    obtain ⟨hslot, hsize, hdepth, hused'⟩ := ExtBufCtrl.same_of_fixed hfixed i
    obtain ⟨hfixed', href', hmem'⟩ := ih (step_tableOk h c hfirst) (hused'.trans hused)
      (hdepth ▸ hi) hrest (fun d hd => hsize ▸ hkeep d (List.mem_cons_of_mem c hd))
      (hheld.tail hfixed href)
    rw [hslot, hsize] at hmem'
    exact ⟨hfixed'.trans hfixed, href'.trans (ExtBufCtrl.refsBehind_cons hfixed href calls),
      hmem'.trans hmem⟩

theorem final_tableOk (capacity : Nat) (mem : Memory UInt8) {calls : List RefCall}
    (hapart : refMachine.Always Apart { capacity, mem } calls) :
    TableOk (refMachine.final { capacity, mem } calls).extBuf :=
  Machine.invariant (I := fun s => TableOk s.extBuf) (fun _ c h hc => step_tableOk h c hc)
    (tableOk_create capacity mem) hapart

/-- A message is received and its slot held. -/
def holdingRun : List RefCall :=
  [.attach 0x1000 2 2, .queue (.send (extMsg false [1, 2]) true), .queue .receive,
    .increaseRef 0x1000 2]

/-- The second message of these would take the slot. -/
def heldRun : List RefCall :=
  [.queue (.send (extMsg false [3, 4]) true), .queue (.send (extMsg false [5, 6]) true),
    .increaseRef 0x1000 2, .decreaseRef 0x1000 2, .attach 0x2000 4 1, .queue .receive]

/-- What `holdingRun` leaves. -/
def holding : State := refMachine.final { capacity := 4, mem := fun _ => 0 } holdingRun

end Tntsat.MtosMsg
