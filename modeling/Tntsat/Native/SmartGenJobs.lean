import Tntsat.ForStd.CInt
import Tntsat.Native.SmartJobs

/-!
# Splitting a download into jobs

`Gen_Jobs` of `kware/libdownload/smart_http/jobs.c` with `get_jobs_content_length`,
`is_partcial_get_valid` and `add_http_header_for_range_dl`, which
`download_group.c` repeats as `add_http_header_for_range`.

What the server answers and which allocations succeed are arguments (`GenEnv`).  The
connections are numbered in the order of the probes, so that two of them differ, and
the result lists which of them were opened, from which byte on, and which were stopped.
`USE_SMART_HTTP_WHEN_NO_RANGE` is defined.  The copies of the texts and the priority
of the task are left out.
-/

namespace Tntsat.SmartHttp

/-- The bytes that a `Range` header asks for. -/
structure ByteRange where
  first : Int
  last : Option Int
deriving DecidableEq

/-- The line of the header. -/
def ByteRange.line (r : ByteRange) : String :=
  match r.last with
  | none => "Range: bytes=" ++ toString r.first ++ "-\r\n"
  | some last => "Range: bytes=" ++ toString r.first ++ "-" ++ toString last ++ "\r\n"

/-- The range that the code asks for; an end that is not positive is left open. -/
def rangeOf (offset seg_size : Int) : ByteRange :=
  let range_end := s32 (s32 (offset + seg_size) - 1)
  if range_end ≤ 0 then { first := offset, last := none }
  else { first := offset, last := some range_end }

/-- The text both functions build; `malloc` tells whether there is memory for it. -/
def httpHeaderForRange (malloc : Bool) (header : Option String) (offset seg_size : Int) :
    Option String :=
  if malloc then some (header.getD "" ++ (rangeOf offset seg_size).line) else none

/-- `add_http_header_for_range` of `download_group.c`. -/
def addHttpHeaderForRange := httpHeaderForRange

/-- `add_http_header_for_range_dl` of `jobs.c`. -/
def addHttpHeaderForRangeDl := httpHeaderForRange

/-- What one call of `Nw_Http_Download_Start` returns: whether there is a handle, and the
    header of the response. -/
structure StartResult where
  opened : Bool
  resp_code : Int
  content_length : Int
  accept_range : Bool
deriving DecidableEq

/-- The attempts to open a connection, at most `n`, the next of them number `i`. -/
def startLoop (attempt : Nat → StartResult) (i : Nat) : Nat → Option StartResult
  | 0 => none
  | n + 1 =>
    let r := attempt i
    if r.opened then some r
    else if r.resp_code = 404 ∨ r.resp_code = 403 then none
    else startLoop attempt (i + 1) n

/-- What the server and the allocator answer. -/
structure GenEnv where
  /-- the attempts of `get_jobs_content_length` -/
  first : Nat → StartResult
  /-- the attempts of `is_partcial_get_valid` -/
  second : Nat → StartResult
  mallocDesc : Bool
  /-- the range header of each probe -/
  mallocHeader : Nat → Bool
  mallocArray : Bool
  mallocJob : Nat → Bool

/-- A connection that was opened, and what it was asked for. -/
structure Probe where
  handle : Handle
  range : ByteRange
deriving DecidableEq

/-- What `Gen_Jobs` returns, and what became of the connections. -/
structure GenResult where
  jobs : Option JobsDescription
  opened : List Probe
  stopped : List Handle
deriving DecidableEq

/-- What the probes leave behind for the rest of the call. -/
structure Split where
  jobs : Int
  last_piece_size : Int
  single_job_mode : Bool
  content_length : Int
  /-- `pDownHandle_tmp` -/
  handles : List Handle
  opened : List Probe
  stopped : List Handle
deriving DecidableEq

/-- Job number `i` of a split. -/
def Split.job (s : Split) (piece_buf_size : Int) (i : Nat) : DlTsSegJob where
  job_id := i
  job_index := i
  offset := if s.single_job_mode then 0 else s32 (i * piece_buf_size)
  seg_size :=
    if s.last_piece_size ≠ 0 ∧ (i : Int) = s.jobs - 1 then s.last_piece_size
    else if s.single_job_mode then 0 else piece_buf_size
  pDownloadHandle := if i < 2 then s.handles[i]? else none

/-- The end of `Gen_Jobs`: allocate the jobs and set their values. -/
def Split.finish (s : Split) (env : GenEnv) (piece_buf_size : Int) (reconnect : Bool) :
    GenResult :=
  if !env.mallocArray then
    { jobs := none, opened := s.opened, stopped := s.stopped ++ s.handles[0]?.toList }
  else
    match (List.range s.jobs.toNat).find? fun i => !env.mallocJob i with
    | some i =>
      { jobs := none, opened := s.opened
        stopped := s.stopped ++ if i < 3 then s.handles[i]?.toList else [] }
    | none =>
      { jobs := some {
          job_array := (List.range s.jobs.toNat).map (s.job piece_buf_size)
          content_length := s.content_length
          single_job_mode := s.single_job_mode
          reconnect := reconnect }
        opened := s.opened, stopped := s.stopped }

/-- How many pieces a content has, and the size of the last if that is a smaller one. -/
def pieces (length piece_buf_size : Int) : Int × Int :=
  let jobs := length / piece_buf_size
  let last_piece_size := s32 (length - s32 (jobs * piece_buf_size))
  (if last_piece_size ≠ 0 then jobs + 1 else jobs, last_piece_size)

/-- The size that the second probe asks for. -/
def probeSize (p : Int × Int) (piece_buf_size : Int) : Int :=
  if p.1 = 2 ∧ p.2 ≠ 0 then p.2 else piece_buf_size

/-- `Gen_Jobs` once the first connection is open. -/
def genJobsFrom (env : GenEnv) (header : Option String) (piece_buf_size : Int)
    (reconnect : Bool) (resp : StartResult) : GenResult :=
  let length := if resp.content_length ≤ 0 then -1 else resp.content_length
  let first : Probe := { handle := 0, range := rangeOf 0 0 }
  if !resp.accept_range || length ≤ 0 then
    Split.finish { jobs := 1, last_piece_size := 0, single_job_mode := true
                   content_length := length, handles := [0], opened := [first], stopped := [] }
      env piece_buf_size reconnect
  else
    let p := pieces length piece_buf_size
    if p.1 > 1 then
      let ssize := probeSize p piece_buf_size
      match addHttpHeaderForRangeDl (env.mallocHeader 1) header piece_buf_size ssize with
      | none => { jobs := none, opened := [first], stopped := [] }
      | some _ =>
        let second : Probe := { handle := 1, range := rangeOf piece_buf_size ssize }
        match startLoop env.second 0 3 with
        | some r =>
          if r.resp_code = 206 then
            Split.finish { jobs := p.1, last_piece_size := p.2, single_job_mode := false
                           content_length := length, handles := [0, 1]
                           opened := [first, second], stopped := [] }
              env piece_buf_size reconnect
          else
            Split.finish { jobs := 1, last_piece_size := 0, single_job_mode := true
                           content_length := length, handles := [0, 1]
                           opened := [first, second], stopped := [1] }
              env piece_buf_size reconnect
        | none =>
          Split.finish { jobs := 1, last_piece_size := 0, single_job_mode := true
                         content_length := length, handles := [0]
                         opened := [first], stopped := [] }
            env piece_buf_size reconnect
    else
      Split.finish { jobs := p.1, last_piece_size := p.2, single_job_mode := false
                     content_length := length, handles := [0], opened := [first], stopped := [] }
        env piece_buf_size reconnect

/-- `Gen_Jobs`. -/
def genJobs (env : GenEnv) (url header : Option String) (piece_buf_size : Int)
    (reconnect : Bool) : GenResult :=
  let failed : GenResult := { jobs := none, opened := [], stopped := [] }
  match url with
  | none => failed
  | some _ =>
    if !env.mallocDesc then failed
    else
      match addHttpHeaderForRangeDl (env.mallocHeader 0) header 0 0 with
      | none => failed
      | some _ =>
        match startLoop env.first 0 3 with
        | none => failed
        | some resp => genJobsFrom env header piece_buf_size reconnect resp

end Tntsat.SmartHttp
