import Mathlib.Algebra.Group.Nat.Defs
import Mathlib.Logic.Function.Basic
import Tntsat.ForStd.CInt
import Tntsat.ForStd.Machine
import Tntsat.ForStd.Memory

/-!
# Message queues with external buffers

`kware/mtos/mtos_msg.c`.  A message with `is_ext` set carries the address of a
payload; `mtos_messageq_send` copies the payload into the next slot of the ring
attached for its size and sends the slot's address instead, and the receiver
reads the payload from there.

`SYS_MsgQSend` and `SYS_MsgQWait` are a bounded queue of messages.  Every queued
message carries along the payload it was sent with, which no function reads: it
is what the receiver's view is compared with.  The semaphore on which the sender
of a sync message waits is not modelled, and addresses are not bounded.
-/

namespace Tntsat.MtosMsg

/-- `MTOS_MSGQ_MAX_BUF`. -/
def mtosMsgqMaxBuf : Nat := 32

/-- `os_msg_t`, the fields the queue reads or hands on. -/
structure OsMsg where
  isExt : Bool := false
  isSync : Bool := false
  content : Nat := 0
  para1 : Nat := 0
  para2 : Nat := 0
  extandData : Nat := 0
  context : Nat := 0
deriving DecidableEq

/-- `msgq_ext_buf_ctrl_t`; `inIdx` and `outIdx` are its `in` and `out`. -/
structure ExtBufCtrl where
  used : Bool := false
  pRef : Nat → Int := fun _ => 0
  atomSize : Nat := 0
  depth : Nat := 0
  inIdx : Nat := 0
  outIdx : Nat := 0
  addr : Nat := 0

/-- A queued message and the payload it was sent with. -/
structure Queued where
  msg : OsMsg
  payload : List UInt8

/-- `msgq_ctrl_t` with the system's queue behind it and the memory the rings lie
    in. -/
structure State where
  extBuf : Nat → ExtBufCtrl := fun _ => {}
  /-- `depth` of `mtos_messageq_create` -/
  capacity : Nat
  queue : List Queued := []
  mem : Memory UInt8

/-- The address of slot `i` of a ring. -/
def ExtBufCtrl.slot (b : ExtBufCtrl) (i : Nat) : Nat := b.addr + i * b.atomSize

/-- `_msgq_ext_find_id`; `none` for `MTOS_MSGQ_MAX_BUF`. -/
def msgqExtFindId (exts : Nat → ExtBufCtrl) (atomSize : Nat) : Option Nat :=
  if atomSize = 0 then none
  else (List.range mtosMsgqMaxBuf).find? fun i => atomSize == (exts i).atomSize && (exts i).used

/-- `_msgq_ext_find_ref_id`: the reference count of the slot at an address. -/
def msgqExtFindRef (b : ExtBufCtrl) (addr : Nat) : Option Int :=
  ((List.range b.depth).find? fun i => b.slot i == addr).map b.pRef

/-- `mtos_messageq_attach`, with the casts of `_msgq_ext_use`. -/
def mtosMessageqAttach (s : State) (pBuf atomSize depth : Nat) : State :=
  if pBuf = 0 ∨ atomSize = 0 ∨ depth = 0 then s
  else
    let atomSize := u16 atomSize
    let depth := u16 depth
    if atomSize = 0 ∨ depth = 0 then s
    else if (msgqExtFindId s.extBuf atomSize).isSome then s
    else
      match (List.range mtosMsgqMaxBuf).find? fun i => !(s.extBuf i).used with
      | none => s
      | some i =>
        let b := { s.extBuf i with
          used := true, addr := pBuf, atomSize, depth, pRef := fun _ => 0 }
        { s with extBuf := Function.update s.extBuf i b }

/-- `_msgq_ext_enter`: copy the payload to the slot at `in` and let the message
    point to it. -/
def msgqExtEnter (s : State) (m : OsMsg) (payload : List UInt8) : Option (State × OsMsg) :=
  match msgqExtFindId s.extBuf (u16 m.para2) with
  | none => none
  | some id =>
    let b := s.extBuf id
    let addr := b.slot b.inIdx
    match msgqExtFindRef b addr with
    | none => none
    | some ref =>
      if ref > 0 then none
      else some
        ({ s with
            extBuf := Function.update s.extBuf id { b with inIdx := u16 ((b.inIdx + 1) % b.depth) }
            mem := s.mem.write addr payload },
          { m with para1 := addr })

/-- `_msgq_ext_exit`: a message that does not point to the slot at `out` is only
    reported. -/
def msgqExtExit (s : State) (m : OsMsg) : State × Bool :=
  match msgqExtFindId s.extBuf (u16 m.para2) with
  | none => (s, false)
  | some id =>
    let b := s.extBuf id
    let b := { b with outIdx := u16 ((b.outIdx + 1) % b.depth) }
    ({ s with extBuf := Function.update s.extBuf id b }, true)

/-- Whether `SYS_MsgQSend` fails: the queue is full, or the system says so. -/
def sysMsgQSendFails (s : State) (sysOk : Bool) : Bool :=
  s.capacity ≤ s.queue.length ∨ sysOk = false

/-- The second half of `mtos_messageq_send`, from `SYS_MsgQSend` on. -/
def sendEntered (s : State) (m : OsMsg) (payload : List UInt8) (sysOk : Bool) : State × Bool :=
  if sysMsgQSendFails s sysOk then
    (if m.isExt then (msgqExtExit s m).1 else s, false)
  else ({ s with queue := s.queue ++ [{ msg := m, payload }] }, true)

/-- `mtos_messageq_send`; `payload` is what `para1` points to. -/
def mtosMessageqSend (s : State) (m : OsMsg) (payload : List UInt8) (sysOk : Bool) :
    State × Bool :=
  if m.isExt ∧ m.isSync = false then
    match msgqExtEnter s m payload with
    | none => (s, false)
    | some (s, m) => sendEntered s m payload sysOk
  else sendEntered s m payload sysOk

/-- What `mtos_messageq_receive` hands out: the message, the payload as memory
    has it, and the payload it was sent with. -/
structure Received where
  msg : OsMsg
  data : List UInt8
  sent : List UInt8
deriving DecidableEq

/-- `mtos_messageq_receive`; `none` when it returns `FALSE`. -/
def mtosMessageqReceive (s : State) : State × Option Received :=
  match s.queue with
  | [] => (s, none)
  | q :: queue =>
    let s := { s with queue }
    let r := { msg := q.msg, data := s.mem.read q.msg.para1 q.msg.para2, sent := q.payload }
    if q.msg.isExt ∧ q.msg.isSync = false then
      match msgqExtExit s q.msg with
      | (s, true) => (s, some r)
      | (s, false) => (s, none)
    else (s, some r)

/-- `mtos_messageq_clr`: take every queued message out.  Here sync messages leave
    the ring too. -/
def mtosMessageqClr (s : State) : State :=
  s.queue.foldl (fun s q => if q.msg.isExt then (msgqExtExit s q.msg).1 else s)
    { s with queue := [] }

/-! ## Runs -/

/-- A message handed to `mtos_messageq_send`, with the `para2` bytes at `para1`. -/
structure Outgoing where
  msg : OsMsg
  payload : List UInt8
  length_eq : payload.length = msg.para2

/-- A call on the queue. -/
inductive Call
  | send (m : Outgoing) (sysOk : Bool)
  | receive
  | clr

/-- What a call returned. -/
inductive Event
  | sent (ok : Bool)
  | received (r : Option Received)
  | cleared
deriving DecidableEq

/-- The queue as a machine over calls. -/
def machine : Machine State Call Event where
  step s
    | .send m sysOk =>
      let (s', ok) := mtosMessageqSend s m.msg m.payload sysOk
      (s', .sent ok)
    | .receive =>
      let (s', r) := mtosMessageqReceive s
      (s', .received r)
    | .clr => (mtosMessageqClr s, .cleared)

/-- The ring a message travels through, if any: only external messages that are
    not sync enter one. -/
def OsMsg.ring (exts : Nat → ExtBufCtrl) (m : OsMsg) : Option Nat :=
  if m.isExt ∧ m.isSync = false then msgqExtFindId exts (u16 m.para2) else none

/-- The messages in flight through ring `id`, the oldest first. -/
def inFlight (exts : Nat → ExtBufCtrl) (msgs : List OsMsg) (id : Nat) : List OsMsg :=
  msgs.filter fun m => m.ring exts = some id

/-- The queued messages, the oldest first. -/
def State.msgs (s : State) : List OsMsg := s.queue.map Queued.msg

/-- The receiver sees the payload that was sent. -/
def Event.Intact : Event → Prop
  | .received (some r) => r.msg.isExt = true → r.msg.isSync = false → r.data = r.sent
  | _ => True

/-! ## References -/

/-- The value of an `s8` after storing `n`. -/
def s8 (n : Int) : Int := Int.bmod n 256

/-- The slot whose count `_msgq_ext_find_ref_id` returns. -/
def msgqExtFindSlot (b : ExtBufCtrl) (addr : Nat) : Option Nat :=
  (List.range b.depth).find? fun i => b.slot i == addr

/-- What `mtos_message_increase_ref` and `mtos_message_decrease_ref` share: the search for the
    count of the slot at an address. -/
def changeRef (s : State) (addr atomSize : Nat) (change : Int → Int) : State :=
  if addr = 0 ∨ atomSize = 0 then s
  else
    match msgqExtFindId s.extBuf (u16 atomSize) with
    | none => s
    | some id =>
      let b := s.extBuf id
      match msgqExtFindSlot b addr with
      | none => s
      | some i =>
        let b := { b with pRef := Function.update b.pRef i (change (b.pRef i)) }
        { s with extBuf := Function.update s.extBuf id b }

/-- `mtos_message_increase_ref`. -/
def mtosMessageIncreaseRef (s : State) (addr atomSize : Nat) : State :=
  changeRef s addr atomSize fun ref => s8 (ref + 1)

/-- `mtos_message_decrease_ref`; a count of 0 is only reported. -/
def mtosMessageDecreaseRef (s : State) (addr atomSize : Nat) : State :=
  changeRef s addr atomSize fun ref => if ref = 0 then ref else s8 (ref - 1)

/-- `mtos_messageq_detach`: a ring with messages in flight stays. -/
def mtosMessageqDetach (s : State) (atomSize : Nat) : State :=
  match msgqExtFindId s.extBuf (u16 atomSize) with
  | none => s
  | some id =>
    if (s.extBuf id).inIdx ≠ (s.extBuf id).outIdx then s
    else { s with extBuf := Function.update s.extBuf id {} }

/-- Any call of the module. -/
inductive RefCall
  | queue (c : Call)
  | increaseRef (addr atomSize : Nat)
  | decreaseRef (addr atomSize : Nat)
  | attach (pBuf atomSize depth : Nat)
  | detach (atomSize : Nat)

/-- The queue with its attached buffers as a machine over calls. -/
def refMachine : Machine State RefCall (Option Event) where
  step s
    | .queue c => let (s, e) := machine.step s c; (s, some e)
    | .increaseRef addr atomSize => (mtosMessageIncreaseRef s addr atomSize, none)
    | .decreaseRef addr atomSize => (mtosMessageDecreaseRef s addr atomSize, none)
    | .attach pBuf atomSize depth => (mtosMessageqAttach s pBuf atomSize depth, none)
    | .detach atomSize => (mtosMessageqDetach s atomSize, none)

end Tntsat.MtosMsg
