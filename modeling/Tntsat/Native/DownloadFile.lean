import Tntsat.ForStd.Memory
import Tntsat.Native.SmartGenJobs

/-!
# Downloading one segment

`download_file` of `kware/libdownload/smart_http/download_group.c`.  One step of the
machine is one pass from the label `redo` to the receive loop or one round of that loop;
the answers of the HTTP client, of `get_write_buf` and of the two `expect_status` are its
input, and what happens to the write buffer is its output.  The time stamps,
`write_buf_full`, which only serves the statistics, and the priority of the task are left
out; the range header can always be built.

`w_start_addr` is a pointer to `unsigned long`, so `w_start_addr + write_pos` is that many
words further on, and not bytes.
-/

namespace Tntsat.SmartHttp

/-- The widths of the C types. -/
inductive Abi where
  | ilp32
  | lp64
deriving DecidableEq

/-- `sizeof(ulong)`. -/
def Abi.sizeofUlong : Abi → Nat
  | .ilp32 => 4
  | .lp64 => 8

/-- The `status` of `HttpDownloadResult`: 0, -1 and -2. -/
inductive RecvStatus where
  | ok
  | done
  | error
deriving DecidableEq

/-- `WRITE_POS_INFO`: a buffer of bytes, which is not empty. -/
structure WritePosInfo where
  w_start_addr : Nat
  max_w_byte : Nat
  pos : 0 < max_w_byte
deriving DecidableEq

/-- What the surroundings answer during one step. -/
structure Answer where
  /-- for each call of `Nw_Http_Download_Start`, whether there is a handle, and if not
      whether both `expect_status` still are `RUNNING` -/
  start : Nat → Bool × Bool
  /-- both `expect_status` are `RUNNING` -/
  running : Bool
  write_buf : Option WritePosInfo
  status : RecvStatus
  /-- the bytes that have arrived; no more are received than are asked for -/
  avail : Nat

/-- The fields of `DOWNLOAD_CONTEXT` and `DOWNLOAD_GROUP_CONTEXT` that the call reads. -/
structure DownloadContext where
  abi : Abi
  download_offset : Int
  request_size : Nat
  content_len : Int
  /-- `download_mode` is `DOWNLOAD_MODE_ERROR_REDO` -/
  redo : Bool
  /-- `p_url` is not NULL -/
  hasUrl : Bool
  /-- `g_is_live_broadcast` -/
  live : Bool

/-- Where the call is. -/
inductive Control where
  /-- at the label `redo` -/
  | start
  /-- in the receive loop, with the connection and its next byte -/
  | loop (pDownHandle : Handle) (next : Int)
  | returned (ret : Bool)
deriving DecidableEq

/-- The variables of the call. -/
structure DownloadState where
  control : Control := .start
  total_read_len : Nat := 0
  buf_len : Nat := 0
  write_pos : Nat := 0
  buf_full : Bool := true
  w_start_addr : Nat := 0
  /-- the connection that the job came with, and the byte it starts at -/
  p_download_handle : Option (Handle × Int)
  /-- the number of the next connection -/
  nextHandle : Handle := 1
deriving DecidableEq

/-- What happens to the write buffer. -/
inductive BufferAction where
  /-- `Nw_Http_Download_Recv` stores so many bytes at `addr`: those of the resource from
      `next` on, or whatever it has if it fails -/
  | recv (handle : Handle) (next : Int) (addr len : Nat) (good : Bool)
  /-- `write_buf_update` reports the bytes from `addr` on -/
  | update (addr len : Nat)
deriving DecidableEq

/-- How the attempts to open a connection end. -/
inductive StartOutcome where
  | opened
  | stopped
  | failed
deriving DecidableEq

/-- The attempts to open a connection, at most `n`, the next of them number `i`. -/
def tryStart (start : Nat → Bool × Bool) (i : Nat) : Nat → StartOutcome
  | 0 => .failed
  | n + 1 =>
    if (start i).1 then .opened
    else if !(start i).2 then .stopped
    else tryStart start (i + 1) n

namespace DownloadState

/-- From the label `redo` to the receive loop. -/
def redoStart (ctx : DownloadContext) (s : DownloadState) (a : Answer) : DownloadState :=
  let header := rangeOf (s32 (ctx.download_offset + s.total_read_len))
    (ctx.request_size - s.total_read_len)
  match s.p_download_handle with
  | some (handle, next) => { s with control := .loop handle next }
  | none =>
    if !ctx.hasUrl then { s with control := .returned false }
    else
      match tryStart a.start 0 3 with
      | .opened =>
        { s with control := .loop s.nextHandle header.first, nextHandle := s.nextHandle + 1 }
      | .stopped => { s with control := .returned false }
      | .failed => if ctx.redo then s else { s with control := .returned false }

/-- The state with a buffer to write to, if there is one. -/
def getWriteBuf (ctx : DownloadContext) (s : DownloadState) (a : Answer) : Option DownloadState :=
  if s.buf_full then
    a.write_buf.map fun info =>
      let rest := ctx.request_size - s.total_read_len
      { s with
        w_start_addr := info.w_start_addr
        buf_len := if ctx.request_size ≠ 0 ∧ info.max_w_byte > rest then rest else info.max_w_byte
        write_pos := 0
        buf_full := false }
  else some s

/-- `readLen` of `Nw_Http_Download_Recv`. -/
def readLen (s : DownloadState) (a : Answer) : Nat := min a.avail s.buf_len

/-- The rest of a round, from the call of `Nw_Http_Download_Recv` on. -/
def receive (ctx : DownloadContext) (s : DownloadState) (handle : Handle) (next : Int)
    (a : Answer) : DownloadState × List BufferAction :=
  let readLen := s.readLen a
  let addr := s.w_start_addr + ctx.abi.sizeofUlong * s.write_pos
  match a.status with
  | .error =>
    ({ s with
        control := if ctx.redo then .start else .returned false
        p_download_handle := none },
      [.recv handle next addr readLen false])
  | status =>
    let total_read_len := s.total_read_len + readLen
    let finished := status = .done ∨ ctx.request_size ≠ 0 ∧ total_read_len ≥ ctx.request_size
    let reconnect := ctx.download_offset = 0 ∧ ctx.request_size = 0 ∧ ctx.content_len ≤ 0 ∧ ctx.live
    ({ s with
        control :=
          if finished then (if reconnect then .start else .returned true)
          else .loop handle (next + readLen)
        p_download_handle := if finished then none else s.p_download_handle
        total_read_len := total_read_len
        buf_len := s.buf_len - readLen
        write_pos := s.write_pos + readLen
        buf_full := s.buf_len - readLen = 0 },
      [.recv handle next addr readLen true, .update (s.w_start_addr + s.write_pos) readLen])

/-- One round of the receive loop. -/
def round (ctx : DownloadContext) (s : DownloadState) (handle : Handle) (next : Int)
    (a : Answer) : DownloadState × List BufferAction :=
  if !a.running then ({ s with control := .returned false, p_download_handle := none }, [])
  else
    match s.getWriteBuf ctx a with
    | none => (s, [])
    | some s => s.receive ctx handle next a

end DownloadState

/-- `download_file`. -/
def downloadFile (ctx : DownloadContext) : Machine DownloadState Answer (List BufferAction) where
  step s a :=
    match s.control with
    | .start => (s.redoStart ctx a, [])
    | .loop handle next => s.round ctx handle next a
    | .returned _ => (s, [])

/-! ## The write buffer -/

/-- The resource, and what a connection stores when it fails. -/
structure Server where
  content : Int → UInt8
  garbage : Handle → Nat → UInt8

/-- The memory, and the bytes that were reported so far. -/
structure BufferView where
  mem : Memory UInt8
  reported : List UInt8 := []

/-- What an action does. -/
def BufferView.exec (server : Server) (v : BufferView) : BufferAction → BufferView
  | .recv handle next addr len good =>
    { v with mem := v.mem.write addr ((List.range len).map fun (k : Nat) =>
        if good then server.content (next + k) else server.garbage handle k) }
  | .update addr len => { v with reported := v.reported ++ v.mem.read addr len }

/-- What a list of actions does. -/
def BufferView.execAll (server : Server) (v : BufferView) (actions : List BufferAction) :
    BufferView :=
  actions.foldl (BufferView.exec server) v

end Tntsat.SmartHttp
