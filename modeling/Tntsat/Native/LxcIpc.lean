import Mathlib.Algebra.Group.Nat.Defs
import Mathlib.Logic.Function.Basic
import Tntsat.ForStd.CInt

/-!
# The driver of the calls between containers

`lxc_ipc_ioctl` of `msp/drv/lxc_ipc/lxc_ipc.c`, for an arm64 kernel.  Each of its sections
under the mutex is a function of its own; `LXC_IPC_CALL`, `LXC_IPC_LISTEN` and
`LXC_IPC_ACCEPT` wait for a completion, which is a counter, between two of them.

The nodes of `list_name` have different names and are only searched by name, so the list is
a function.  What `mt_drv_mmz_alloc` answers is part of the call: it succeeds and sets the
size and the address.  Beside its result a call shows what it obtains from the media memory
and what it gives back.
-/

namespace Tntsat.LxcIpc

/-- A C string of at most `LXC_IPC_NAME_SIZE` characters. -/
abbrev Name := List UInt8

/-- `LXC_IPC_BUFFERS_PER_THREAD`. -/
def lxcIpcBuffersPerThread : Nat := 1024

/-- `LXC_IPC_BUFFER_RESIZE_MAX`. -/
def lxcIpcBufferResizeMax : Nat := 16

/-- `PAGE_SHIFT`. -/
def pageShift : Nat := 12

/-- `PAGE_SIZE`. -/
def pageSize : Nat := 4096

/-- `MMB_ADDR_INVALID`. -/
def mmbAddrInvalid : Nat := 2 ^ 64 - 1

/-- `mmz_buffer_s`; no call maps it. -/
structure MmzBuffer where
  startPhyAddr : Nat := 0
  size : Nat := 0
deriving DecidableEq

/-- `struct lxc_ipc_buffer`. -/
structure Buffer where
  in_sMBuf : MmzBuffer := {}
  out_sMBuf : MmzBuffer := {}
  buf_cnt : Int := 0
  done : Nat := 0
  call : Nat := 0
  do_what : Int := 0
  connected : Int := 0
  in_buf_need : Bool := false
  out_buf_need : Bool := false
  release_mem : List MmzBuffer := List.replicate lxcIpcBufferResizeMax {}
deriving DecidableEq

/-- `struct lxc_ipc_thread`. -/
structure Thread where
  buffers : Nat → Option Buffer := fun _ => none
  tid_cnt : Int := 0
  tid : Nat

/-- `struct lxc_ipc_name`. -/
structure NameNode where
  list_thread : List Thread := []
  name_cnt : Int := 0
  attach : Nat := 0

/-- `struct lxc_ipc_device`. -/
structure Device where
  list_name : Name → Option NameNode := fun _ => none

/-- `struct lxc_ipc_user`; a `buf_id` of -1 is none. -/
structure User where
  name : Name
  tid : Nat := 0
  buf_id : Option Nat := none
  do_what : Int := 0
  in_size : Nat := 0
  out_size : Nat := 0
  in_phys_addr : Nat := 0
  out_phys_addr : Nat := 0
deriving DecidableEq

/-- The errors of the calls. -/
inductive Errno
  | enodev | enomem | einval | eintr | etime
deriving DecidableEq

/-- What is done with the media memory. -/
inductive MmzEvent
  | alloc (phyAddr : Nat)
  | release (phyAddr : Nat)
deriving DecidableEq

/-- What a section returns. -/
structure Outcome where
  ret : Except Errno User
  mmz : List MmzEvent := []

/-! ## Buffers -/

/-- `mt_drv_mmz_release`. -/
def mmzRelease (m : MmzBuffer) : MmzBuffer × List MmzEvent :=
  if m.startPhyAddr ≠ mmbAddrInvalid ∧ m.startPhyAddr ≠ 0 then
    ({ startPhyAddr := mmbAddrInvalid, size := 0 }, [.release m.startPhyAddr])
  else (m, [])

/-- `lxc_ipc_lazy_release`: the descriptor takes the first free entry. -/
def lazyRelease : List MmzBuffer → MmzBuffer → Option (List MmzBuffer)
  | [], _ => none
  | m :: release_mem, p =>
    if m.size = 0 then some (p :: release_mem) else (lazyRelease release_mem p).map (m :: ·)

/-- The loop of `LXC_IPC_DONE`.  When no entry is free it reads behind the array; here it
    stops there. -/
def releaseAll : List MmzBuffer → List MmzBuffer × List MmzEvent
  | [] => ([], [])
  | m :: release_mem =>
    if m.size = 0 then (m :: release_mem, [])
    else
      let (m, freed) := mmzRelease m
      let rest := releaseAll release_mem
      (m :: rest.1, freed ++ rest.2)

/-- An `int` as a `size_t`. -/
def sizeOfInt (n : Nat) : Nat := (s32 n % 18446744073709551616).toNat

/-- The smallest power of two that has room for a number of pages. -/
def orderOf (pages : Nat) : Nat :=
  ((List.range 32).find? fun i => pages ≤ sizeOfInt (1 <<< i)).getD 31

/-- The size that is allocated for a request. -/
def roundSize (size : Nat) : Nat :=
  let pages := size / pageSize + if size % pageSize ≠ 0 then 1 else 0
  sizeOfInt (1 <<< orderOf pages <<< pageShift)

/-- One of the two buffers of `LXC_IPC_RESIZE`: the flag, the descriptor and `release_mem`
    after it, unless there is no free entry.  The address is the one that is allocated. -/
def resizeBuf (need : Bool) (m : MmzBuffer) (release_mem : List MmzBuffer) (size phyAddr : Nat) :
    Option (Bool × MmzBuffer × List MmzBuffer × List MmzEvent) :=
  if size = 0 then
    (if need then lazyRelease release_mem m else some release_mem).map (false, m, ·, [])
  else if m.size ≠ roundSize size then
    (if need then lazyRelease release_mem m else some release_mem).map
      (true, { startPhyAddr := phyAddr, size := roundSize size }, ·, [.alloc phyAddr])
  else some (true, m, release_mem, [])

/-- The sizes and addresses that `LXC_IPC_RESIZE` and `LXC_IPC_ACCEPT` return. -/
def sizes (buf : Buffer) (user : User) : User :=
  { user with
    in_size := if buf.in_buf_need then buf.in_sMBuf.size else 0
    in_phys_addr := if buf.in_buf_need then buf.in_sMBuf.startPhyAddr else 0
    out_size := if buf.out_buf_need then buf.out_sMBuf.size else 0
    out_phys_addr := if buf.out_buf_need then buf.out_sMBuf.startPhyAddr else 0 }

/-- `LXC_IPC_RESIZE` on the buffer that is found. -/
def resize (user : User) (inAddr outAddr : Nat) (buf : Buffer) : Buffer × Outcome :=
  match resizeBuf buf.in_buf_need buf.in_sMBuf buf.release_mem user.in_size inAddr with
  | none => (buf, { ret := .error .enomem })
  | some (in_buf_need, in_sMBuf, release_mem, mmz) =>
    let buf := { buf with in_buf_need, in_sMBuf, release_mem }
    match resizeBuf buf.out_buf_need buf.out_sMBuf buf.release_mem user.out_size outAddr with
    | none => (buf, { ret := .error .enomem, mmz })
    | some (out_buf_need, out_sMBuf, release_mem, mmz') =>
      let buf := { buf with out_buf_need, out_sMBuf, release_mem }
      (buf, { ret := .ok (sizes buf user), mmz := mmz ++ mmz' })

/-- `LXC_IPC_CALL` up to the wait for `done`. -/
def call (user : User) (buf : Buffer) : Buffer × Outcome :=
  ({ buf with do_what := user.do_what, call := buf.call + 1 }, { ret := .ok user })

/-- The wait of `LXC_IPC_CALL` finds a completion. -/
def callReturn (user : User) (buf : Buffer) : Buffer × Outcome :=
  ({ buf with done := buf.done - 1 }, { ret := .ok user })

/-- The wait of `LXC_IPC_ACCEPT` finds a completion. -/
def acceptWake (user : User) (buf : Buffer) : Buffer × Outcome :=
  ({ buf with call := buf.call - 1 }, { ret := .ok user })

/-- `LXC_IPC_ACCEPT` behind its wait. -/
def acceptReturn (user : User) (buf : Buffer) : Buffer × Outcome :=
  (buf, { ret := .ok { sizes buf user with do_what := buf.do_what } })

/-- `LXC_IPC_DONE` on the buffer that is found. -/
def done (user : User) (buf : Buffer) : Buffer × Outcome :=
  let (release_mem, mmz) := releaseAll buf.release_mem
  ({ buf with release_mem, done := buf.done + 1 }, { ret := .ok user, mmz })

/-- What the last `LXC_IPC_DETACH` of a buffer gives back. -/
def freeBuffer (buf : Buffer) : List MmzEvent :=
  (if buf.in_buf_need then (mmzRelease buf.in_sMBuf).2 else []) ++
    if buf.out_buf_need then (mmzRelease buf.out_sMBuf).2 else []

/-! ## Threads and names -/

/-- The thread of a `tid`. -/
def findThread (list_thread : List Thread) (tid : Nat) : Option Thread :=
  list_thread.find? (·.tid = tid)

/-- Another state of a thread of the list. -/
def setThread (thread : Thread) (list_thread : List Thread) : List Thread :=
  list_thread.map fun t => if t.tid = thread.tid then thread else t

/-- The list without a thread. -/
def delThread (tid : Nat) (list_thread : List Thread) : List Thread :=
  list_thread.filter (·.tid ≠ tid)

/-- Another state of a buffer of a thread. -/
def Thread.setBuffer (thread : Thread) (i : Nat) (buf : Option Buffer) : Thread :=
  { thread with buffers := Function.update thread.buffers i buf }

/-- Another state of a name. -/
def Device.setName (dev : Device) (name : Name) (node : Option NameNode) : Device :=
  { dev with list_name := Function.update dev.list_name name node }

/-- The thread that a name and a `tid` stand for. -/
def Device.thread? (dev : Device) (name : Name) (tid : Nat) : Option Thread :=
  (dev.list_name name).bind fun node => findThread node.list_thread tid

/-- The buffer that the user names. -/
def Device.buffer? (dev : Device) (name : Name) (tid : Nat) (buf_id : Option Nat) :
    Option Buffer :=
  (dev.thread? name tid).bind fun thread => buf_id.bind thread.buffers

/-- Another state of a buffer. -/
def Device.setBuffer (dev : Device) (name : Name) (tid i : Nat) (buf : Buffer) : Device :=
  dev.setName name ((dev.list_name name).map fun node =>
    { node with
      list_thread :=
        match findThread node.list_thread tid with
        | none => node.list_thread
        | some thread => setThread (thread.setBuffer i (some buf)) node.list_thread })

/-- A call that works on the buffer that the user names. -/
def onBuffer (f : Buffer → Buffer × Outcome) (dev : Device) (user : User) : Device × Outcome :=
  match user.buf_id, dev.buffer? user.name user.tid user.buf_id with
  | some i, some buf => (dev.setBuffer user.name user.tid i (f buf).1, (f buf).2)
  | _, _ => (dev, { ret := .error .enodev })

/-- The first slot of a thread that is free. -/
def freeSlot (thread : Thread) : Option Nat :=
  (List.range lxcIpcBuffersPerThread).find? fun i => (thread.buffers i).isNone

/-- The name that is attached, which exists or is made. -/
def attachedName (dev : Device) (name : Name) : NameNode :=
  let node := (dev.list_name name).getD {}
  { node with name_cnt := node.name_cnt + 1 }

/-- The list with one more reference to a thread, which exists or is made. -/
def attachedThread (list_thread : List Thread) (tid : Nat) : List Thread × Thread :=
  match findThread list_thread tid with
  | none =>
    let thread : Thread := { tid, tid_cnt := 1 }
    (list_thread ++ [thread], thread)
  | some thread =>
    let thread := { thread with tid_cnt := thread.tid_cnt + 1 }
    (setThread thread list_thread, thread)

/-- `LXC_IPC_ATTACH`; `pid` is `current->pid`. -/
def attach (dev : Device) (user : User) (pid : Nat) : Device × Outcome :=
  let node := attachedName dev user.name
  if user.tid = 1 then
    let (list_thread, thread) := attachedThread node.list_thread pid
    let node := { node with list_thread }
    match freeSlot thread with
    | none => (dev.setName user.name (some node), { ret := .error .enomem })
    | some i =>
      let thread := thread.setBuffer i (some { buf_cnt := 1 })
      let node :=
        { node with list_thread := setThread thread list_thread, attach := node.attach + 1 }
      (dev.setName user.name (some node), { ret := .ok { user with tid := pid, buf_id := some i } })
  else (dev.setName user.name (some node), { ret := .ok { user with buf_id := none } })

/-- A slot without one of the ends of its buffer; one that is empty has none. -/
def detachBuffer (buf : Option Buffer) : Option Buffer × List MmzEvent :=
  match buf with
  | none => (none, [])
  | some buf =>
    let buf := { buf with connected := -1, buf_cnt := buf.buf_cnt - 1 }
    if buf.buf_cnt ≤ 0 then (none, freeBuffer buf) else (some buf, [])

/-- A thread without one of the ends of its buffers. -/
def detachThread (list_thread : List Thread) (thread : Thread) (i : Nat) :
    List Thread × List MmzEvent :=
  let (buf, mmz) := detachBuffer (thread.buffers i)
  let thread := thread.setBuffer i buf
  let thread := { thread with tid_cnt := thread.tid_cnt - 1 }
  if thread.tid_cnt ≤ 0 then (delThread thread.tid list_thread, mmz)
  else (setThread thread list_thread, mmz)

/-- A name without one of its ends. -/
def detachName (dev : Device) (name : Name) (node : NameNode) : Device :=
  let node := { node with name_cnt := node.name_cnt - 1 }
  dev.setName name (if node.name_cnt ≤ 0 then none else some node)

/-- `LXC_IPC_DETACH`. -/
def detach (dev : Device) (user : User) : Device × Outcome :=
  match dev.list_name user.name with
  | none => (dev, { ret := .error .enodev })
  | some node =>
    match findThread node.list_thread user.tid, user.buf_id with
    | some thread, some i =>
      if user.tid ≠ 0 then
        let (list_thread, mmz) := detachThread node.list_thread thread i
        (detachName dev user.name { node with list_thread }, { ret := .ok user, mmz })
      else (detachName dev user.name node, { ret := .ok user })
    | some _, none => (detachName dev user.name node, { ret := .ok user })
    | none, _ =>
      if user.tid ≠ 0 then (dev, { ret := .error .enodev })
      else (detachName dev user.name node, { ret := .ok user })

/-- `LXC_IPC_LISTEN` up to its wait. -/
def listen (dev : Device) (user : User) : Device × Outcome :=
  if user.tid ≠ 0 then (dev, { ret := .error .einval })
  else
    match dev.list_name user.name with
    | none => (dev, { ret := .error .enodev })
    | some _ => (dev, { ret := .ok user })

/-- The wait of `LXC_IPC_LISTEN` finds a completion. -/
def listenWake (dev : Device) (user : User) : Device × Outcome :=
  (dev.setName user.name
    ((dev.list_name user.name).map fun node =>
      { node with attach := node.attach - 1 }),
    { ret := .ok user })

/-- The first slot of a thread whose buffer is not connected. -/
def unconnected (thread : Thread) : Option Nat :=
  (List.range lxcIpcBuffersPerThread).find? fun i =>
    (thread.buffers i).any (·.connected = 0)

/-- The first buffer of a name that is not connected. -/
def findUnconnected (list_thread : List Thread) : Option (Thread × Nat × Buffer) :=
  list_thread.findSome? fun thread =>
    (unconnected thread).bind fun i => (thread.buffers i).map fun buf => (thread, i, buf)

/-- `LXC_IPC_LISTEN` behind its wait. -/
def listenReturn (dev : Device) (user : User) : Device × Outcome :=
  match dev.list_name user.name with
  | none => (dev, { ret := .error .enodev })
  | some node =>
    match findUnconnected node.list_thread with
    | none => (dev, { ret := .error .enodev })
    | some (thread, i, buf) =>
      let buf := { buf with connected := 1, buf_cnt := buf.buf_cnt + 1 }
      let thread := thread.setBuffer i (some buf)
      let thread := { thread with tid_cnt := thread.tid_cnt + 1 }
      let node :=
        { node with
          list_thread := setThread thread node.list_thread
          name_cnt := node.name_cnt + 1 }
      (dev.setName user.name (some node),
        { ret := .ok { user with do_what := -1, tid := thread.tid, buf_id := some i } })

end Tntsat.LxcIpc
