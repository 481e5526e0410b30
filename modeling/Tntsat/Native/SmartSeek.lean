import Tntsat.Native.SmartSchedule

/-!
# Seeking

A seek in `kware/libdownload/smart_http`, in range mode.  `Smart_Http_Download_Seek` asks
for an offset and waits in `mutiQueue_start_seek`; `seek` of `smart_http_download.c`, which
the scheduler calls at the top of its loop, decides by the job ids of the queues in use
which segments stay; and the next `mutiQueue_read` moves to the offset.

The reader does nothing else while a seek is pending, and the tasks that step during
`seek` might as well have stepped before it, so `seek` is one step, together with the
assignment of `schedule_task_status` behind it.  Every queue has `MULTI_QUEUE_BUF_LEN` bytes.
-/

namespace Tntsat.SmartHttp

/-- `MULTI_QUEUE_BUF_LEN`. -/
def multiQueueBufLen : Nat := 384 * 1024

/-- `MAX_DL_TASK_NUM`. -/
def maxDlTaskNum : Nat := 4

/-! ## The policy -/

/-- `SEEK_POLICY_T`. -/
structure SeekPolicy where
  kill_jobs : List Int := []
  new_jobs : List Int := []
  save_jobs : List Int := []
  reset : Bool := false
deriving DecidableEq

/-- `sort_job_id_in_array`: the lowest and the highest id. -/
def sortJobIdInArray (ids : List Int) : Option (Int × Int) :=
  if ids = [] then none else some (ids.foldl min 65536, ids.foldl max 0)

/-- `gen_seek_policy`. -/
def genSeekPolicy (dst_job_id : Int) (ids : List Int) : SeekPolicy :=
  match sortJobIdInArray ids with
  | none => { reset := true }
  | some (min_job_id, max_job_id) =>
    if min_job_id ≤ dst_job_id ∧ dst_job_id ≤ max_job_id then {}
    else if dst_job_id > max_job_id then { reset := true }
    else if dst_job_id < min_job_id ∧ dst_job_id ≥ min_job_id - (maxDlTaskNum - 1) then
      let new_total := (min_job_id - dst_job_id).toNat
      let save_total := min (maxDlTaskNum - new_total) ids.length
      { new_jobs := (List.range new_total).map fun (i : Nat) => dst_job_id + i
        save_jobs := (List.range save_total).map fun (i : Nat) => min_job_id + i
        kill_jobs := (List.range (ids.length - save_total)).map fun (i : Nat) =>
          min_job_id + save_total + i }
    else { reset := true }

/-! ## The queues -/

/-- `queue_reset`. -/
def queueReset (queue : DataSegmentQueue) : DataSegmentQueue where
  mem := queue.mem

namespace MultiQueueHandle

/-- `mutiQueue_clear_queues`. -/
def clearQueues (m : MultiQueueHandle) : MultiQueueHandle :=
  { m with seg_queue := fun q => queueReset (m.seg_queue q), cur_queue := none }

/-- `mutiQueue_get_queue_exist_jobs`. -/
def getQueueExistJobs (m : MultiQueueHandle) : List Int :=
  ((List.range m.total).filter fun q => (m.seg_queue q).used_flag).map fun q =>
    (m.seg_queue q).job_id

/-- `mutiQueue_get_one_queue`. -/
def getOneQueue (m : MultiQueueHandle) (job_id : Int) : Option Nat :=
  (List.range m.total).find? fun q => (m.seg_queue q).job_id = job_id

/-- `mutiQueue_reset_one_queue`. -/
def resetOneQueue (m : MultiQueueHandle) (q : Nat) : MultiQueueHandle :=
  m.setQueue q (queueReset (m.seg_queue q))

/-- `mutiQueue_reuse_one_queue`. -/
def reuseOneQueue (m : MultiQueueHandle) (q : Nat) : MultiQueueHandle :=
  m.setQueue q { m.seg_queue q with read_pos := 0, used_flag := true }

end MultiQueueHandle

namespace JobsDescription

/-- `Get_Job_From_Id`. -/
def getJobFromId (d : JobsDescription) (job_id : Int) : Option DlTsSegJob :=
  d.job_array.find? fun job => job.job_id = job_id

end JobsDescription

namespace SmartHttpState

/-! ## Stopping tasks -/

/-- `download_done`, with which a task ends. -/
def downloadDone (s : SmartHttpState) (t : Nat) (success : Bool) (now : Nat) : SmartHttpState :=
  let task := s.task t
  let queue := s.mq.seg_queue task.queue
  let s := (s.setQueue task.queue { queue with complete_job_flag := true }).setTask t
    { task with pc := .idle }
  match s.jobs.getJobFromId queue.job_id with
  | none => s
  | some job => { s with jobs := (s.jobs.completeJob job.job_index success now).1 }

/-- A task that is expected to be idle comes to its end: bytes it has received are counted,
    and at the top of the loop of `download_file` it gives up. -/
def stopDownloadTask (abi : Abi) (content : Int → UInt8) (s : SmartHttpState) (t now : Nat) :
    SmartHttpState :=
  let s := match (s.task t).pc with
    | .update _ => s.taskStep abi content t 0 now
    | _ => s
  match (s.task t).pc with
  | .query | .recv => s.downloadDone t false now
  | .notify => s.downloadDone t true now
  | .complete _ => (s.taskStep abi content t 0 now).taskStep abi content t 0 now
  | .release => s.taskStep abi content t 0 now
  | .idle | .update _ => s

/-- `Reset_Download_Group`. -/
def resetDownloadGroup (abi : Abi) (content : Int → UInt8) (s : SmartHttpState) (now : Nat) :
    SmartHttpState :=
  (List.range s.task_num).foldl (fun s t => s.stopDownloadTask abi content t now) s

/-- `Find_Idle_Download_Task`. -/
def findIdleDownloadTask (s : SmartHttpState) : Option Nat :=
  (List.range s.task_num).find? fun i => (s.task i).pc = .idle

/-- `look_for_task_in_schedule`: a task has a queue until it is idle. -/
def lookForTaskInSchedule (s : SmartHttpState) (job_id : Int) : Option Nat :=
  (List.range (min maxDlTaskNum s.task_num)).find? fun i =>
    (s.task i).pc ≠ .idle ∧ (s.mq.seg_queue (s.task i).queue).job_id = job_id

/-! ## The policy is carried out -/

/-- The job that `Get_Next_Job` returns, or the last one. -/
def currValidJobIndex (d : JobsDescription) : Int :=
  match d.getNextJob with
  | some job => job.job_index
  | none => d.jobTotal - 1

/-- What becomes of the jobs when everything starts again at job `dst_job_index`. -/
def resetJobs (d : JobsDescription) (dst_job_index now : Nat) : JobsDescription :=
  let curr := currValidJobIndex d
  if dst_job_index < curr then
    (d.reactiveJobs dst_job_index (if d.getNextJob.isSome then curr - 1 else curr)).1
  else if dst_job_index > curr then
    let d := (List.range' curr.toNat (dst_job_index - curr.toNat)).foldl
      (fun d i => (d.completeJob i false now).1) d
    (d.reactiveJob dst_job_index).1
  else (d.reactiveJob dst_job_index).1

/-- One round of the loop over the jobs that are killed. -/
def killJob (abi : Abi) (content : Int → UInt8) (now : Nat) (s : SmartHttpState) (job_id : Int) :
    SmartHttpState :=
  let job := s.jobs.getJobFromId job_id
  let s := match s.lookForTaskInSchedule job_id with
    | none => s
    | some t => s.stopDownloadTask abi content t now
  let s := match s.mq.getOneQueue job_id with
    | none => s
    | some q => { s with mq := s.mq.resetOneQueue q }
  match job with
  | none => s
  | some job => { s with jobs := (s.jobs.reactiveJob job.job_index).1 }

/-- One round of the loop over the jobs that are saved. -/
def saveJob (s : SmartHttpState) (job_id : Int) : SmartHttpState :=
  match s.mq.getOneQueue job_id with
  | none => s
  | some q => { s with mq := s.mq.reuseOneQueue q }

/-- All the assignments to a queue that is taken. -/
def storeSteps : List AssignStep :=
  [.writePos, .readPos, .completeFlag, .noRangeEnd, .noRangeStart, .jobId, .rangeStart, .rangeEnd]

/-- One round of the loop over the new jobs. -/
def newJob (s : SmartHttpState) (job_id : Int) : SmartHttpState :=
  match s.jobs.getJobFromId job_id with
  | none => s
  | some job =>
    let s := { s with jobs := (s.jobs.reactiveJob job.job_index).1 }
    match s.findIdleDownloadTask with
    | none => s
    | some t =>
      match s.mq.firstUnused with
      | none => s
      | some q =>
        let queue := storeSteps.foldl (storeQueue job) { s.mq.seg_queue q with used_flag := true }
        let s := s.setQueue q queue
        { s with jobs := (s.jobs.assignJob job.job_index).1 }.setTask t (assignDownloadTask q job)

/-- `excute_seek_policy`. -/
def excuteSeekPolicy (abi : Abi) (content : Int → UInt8) (now : Nat) (s : SmartHttpState)
    (dst_job_index : Nat) (policy : SeekPolicy) : SmartHttpState :=
  if policy.reset then
    let s := s.resetDownloadGroup abi content now
    { s with mq := s.mq.clearQueues, jobs := resetJobs s.jobs dst_job_index now }
  else
    let s := policy.kill_jobs.foldl (killJob abi content now) s
    let s := policy.save_jobs.foldl saveJob s
    policy.new_jobs.foldl newJob s

/-- `seek`, for which the scheduler gives up the job it has. -/
def seek (abi : Abi) (content : Int → UInt8) (now : Nat) (s : SmartHttpState) (off : Nat) :
    SmartHttpState :=
  let s := match s.p_job_desc with
    | none => s
    | some job =>
      { s with jobs := (s.jobs.assignJobReset job.job_index).1, p_job_desc := none }
  let job_index := off / multiQueueBufLen
  match s.jobs.job_array[job_index]? with
  | none => s
  | some job =>
    let s := s.excuteSeekPolicy abi content now job_index
      (genSeekPolicy job.job_id s.mq.getQueueExistJobs)
    -- `mutiQueue_end_seek`
    { s with mq := { s.mq with seek_pending := false } }

/-! ## The reader -/

/-- A step of the reader.  While an offset is sought, `queue_read` moves in its queue if the
    offset is there, and passes over what the queue holds if it is not. -/
def seekReaderStep (abi : Abi) (s : SmartHttpState) (size : Nat) : SmartHttpState :=
  match s.reader, s.mq.cur_queue with
  | .loop size redo_cnt, some q =>
    let queue := s.mq.seg_queue q
    let skipped := .check size redo_cnt 0
    if s.mq.seek_pos ≠ invalidSeekPos ∧ size > 0 then
      if s.mq.seek_pos ≥ queue.cur_range.start_pos ∧ s.mq.seek_pos ≤ queue.cur_range.end_pos then
        let tmp_read_pos := s.mq.seek_pos - queue.cur_range.start_pos
        if tmp_read_pos ≥ 0 ∧ tmp_read_pos < queue.write_pos then
          let mq := s.mq.setQueue q { queue with read_pos := tmp_read_pos.toNat }
          { s with
            mq := { mq with seek_pos := invalidSeekPos }
            reader := .copy size redo_cnt (min size (queue.write_pos - tmp_read_pos.toNat)) }
        else { s with reader := skipped }
      else
        let read_pos := queue.read_pos + (queue.write_pos - queue.read_pos)
        { s.setQueue q { queue with read_pos := read_pos } with reader := skipped }
    else s.readerStep abi size
  | _, _ => s.readerStep abi size

end SmartHttpState

/-! ## The machine -/

/-- The threads and the fields of `SmartHTTPGlobalContext` that a seek works with.  `out` is
    what the reader has been given since the last seek. -/
structure SmartSeekState extends SmartHttpState where
  filesize : Int
  seek_off : Nat := 0

/-- The thread that steps next; the reader may also seek. -/
inductive SeekStep where
  | scheduler (now : Nat)
  | task (task_index avail now : Nat)
  | reader (size : Nat)
  | startSeek (off : Nat)
deriving DecidableEq

namespace SmartSeekState

/-- The reader's side of a seek: `mutiQueue_start_seek`, up to its wait. -/
def startSeek (s : SmartSeekState) (off : Nat) : SmartSeekState :=
  if s.reader = .outside ∧ s.mq.seek_pending = false ∧ off < s.filesize then
    { s with
      seek_off := off
      mq := { s.mq with seek_pending := true, seek_pos := off }
      out := [] }
  else s

/-- A step of one thread. -/
def step (abi : Abi) (content : Int → UInt8) (s : SmartSeekState) : SeekStep → SmartSeekState
  | .scheduler now =>
    if s.sched = .findTask ∧ s.mq.seek_pending then
      { s with toSmartHttpState := s.toSmartHttpState.seek abi content now s.seek_off }
    else { s with toSmartHttpState := s.schedStep }
  | .task t avail now =>
    { s with toSmartHttpState := s.threadStep abi content (.task t avail now) }
  | .reader size => { s with toSmartHttpState := s.toSmartHttpState.seekReaderStep abi size }
  | .startSeek off => s.startSeek off

end SmartSeekState

/-- The threads in any order, and seeks. -/
def smartSeek (abi : Abi) (content : Int → UInt8) : Machine SmartSeekState SeekStep Unit where
  step s i := (s.step abi content i, ())

/-- The state once `Smart_Http_Download_Open` has made the list of jobs. -/
def smartSeekOpen (jobs : JobsDescription) (queues tasks : Nat) (mem : Nat → Memory UInt8) :
    SmartSeekState where
  toSmartHttpState := smartHttpOpen jobs queues tasks multiQueueBufLen mem
  filesize := if jobs.content_length > 0 then jobs.content_length else -1

end Tntsat.SmartHttp
