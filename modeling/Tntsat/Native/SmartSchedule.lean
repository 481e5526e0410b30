import Tntsat.Native.MultiQueue

/-!
# The scheduler, the download tasks and the reader

The threads of `kware/libdownload/smart_http` while there is no seek:
`download_job_queue_schedule` and `assign_job_and_download` of `smart_http_download.c`,
which hand the jobs and the queues to the tasks of `download_group.c`, and one reader in
`mutiQueue_read` of `multiqueue.c`.  Nothing is locked.  A step of a thread ends with its
next assignment to something that another thread reads; which thread steps next is the
input of the machine.

`Assign_Job` and `Assign_Download_Task` are one step each: nobody reads what they assign
before the last assignment of the latter, `task_status`.  So is `Complete_Job`.  Every
download succeeds, `eos` is never set and `is_file_seq_exit` is FALSE.
-/

namespace Tntsat.SmartHttp

/-! ## The scheduler -/

/-- The assignments that follow `used_flag = TRUE`, in their order: those of
    `mutiQueue_take_one_queue` and those of `assign_job_and_download`. -/
inductive AssignStep where
  | writePos
  | readPos
  | completeFlag
  | noRangeEnd
  | noRangeStart
  | jobId
  | rangeStart
  | rangeEnd
  | assignJob
  | assignTask
deriving DecidableEq

/-- The assignment that comes next. -/
def AssignStep.next : AssignStep → Option AssignStep
  | .writePos => some .readPos
  | .readPos => some .completeFlag
  | .completeFlag => some .noRangeEnd
  | .noRangeEnd => some .noRangeStart
  | .noRangeStart => some .jobId
  | .jobId => some .rangeStart
  | .rangeStart => some .rangeEnd
  | .rangeEnd => some .assignJob
  | .assignJob => some .assignTask
  | .assignTask => none

/-- The queue does not have its new job id yet. -/
def AssignStep.beforeId : AssignStep → Bool
  | .writePos | .readPos | .completeFlag | .noRangeEnd | .noRangeStart | .jobId => true
  | _ => false

/-- Where the scheduler is. -/
inductive SchedPc where
  /-- at the top of its loop -/
  | findTask
  /-- an idle task was found -/
  | nextJob (task_index : Nat)
  /-- and there is a job for it -/
  | takeQueue (task_index : Nat)
  /-- and queue `q`, which was marked as used -/
  | assigning (task_index q : Nat) (step : AssignStep)
deriving DecidableEq

/-! ## A download task -/

/-- Where a download task is. -/
inductive TaskPc where
  /-- `task_status` is `IDLE` -/
  | idle
  /-- at `get_write_buf` -/
  | query
  /-- at `Nw_Http_Download_Recv` -/
  | recv
  /-- at `write_buf_update`, with so many bytes received -/
  | update (readLen : Nat)
  /-- at `notify_queue_downloaderStatus` -/
  | notify
  /-- at `Complete_Job` -/
  | complete (job_id : Int)
  /-- at the end of the round -/
  | release
deriving DecidableEq

/-- What a download task works with: the fields of `DOWNLOAD_CONTEXT` and the variables of
    `download_file`; `w_start_pos` is the position that `w_start_addr` stands for. -/
structure DownloadTask where
  pc : TaskPc := .idle
  queue : Nat := 0
  download_offset : Int := 0
  request_size : Nat := 0
  total_read_len : Nat := 0
  w_start_pos : Nat := 0
  write_pos : Nat := 0
  buf_len : Nat := 0
deriving DecidableEq

/-! ## The reader -/

/-- Where the reader is. -/
inductive ReaderPc where
  | outside
  /-- at the top of the loop of `mutiQueue_read`, with `redo_cnt` -/
  | loop (size redo_cnt : Nat)
  /-- in `queue_read`, with the number of bytes to copy -/
  | copy (size redo_cnt read_size : Nat)
  /-- behind `queue_read` -/
  | check (size redo_cnt read_size : Nat)
  /-- the queue was released -/
  | clear (size redo_cnt read_size : Nat)
deriving DecidableEq

/-! ## The machine -/

/-- The state that the threads share, and where each of them is. -/
structure SmartHttpState where
  mq : MultiQueueHandle
  jobs : JobsDescription
  sched : SchedPc := .findTask
  /-- the scheduler's `p_job_desc` -/
  p_job_desc : Option DlTsSegJob := none
  task_num : Nat
  task : Nat → DownloadTask := fun _ => {}
  reader : ReaderPc := .outside
  /-- what the reader has been given so far -/
  out : List UInt8 := []

/-- The thread that steps next: a task with the number of bytes that have arrived and the
    time, the reader with the size of its next call. -/
inductive ThreadStep where
  | scheduler
  | task (task_index avail now : Nat)
  | reader (size : Nat)
deriving DecidableEq

namespace SmartHttpState

/-- Store a task back. -/
def setTask (s : SmartHttpState) (t : Nat) (task : DownloadTask) : SmartHttpState :=
  { s with task := Function.update s.task t task }

/-- Store a queue back. -/
def setQueue (s : SmartHttpState) (q : Nat) (queue : DataSegmentQueue) : SmartHttpState :=
  { s with mq := s.mq.setQueue q queue }

/-- One of the assignments to the queue that was taken. -/
def storeQueue (job : DlTsSegJob) (queue : DataSegmentQueue) : AssignStep → DataSegmentQueue
  | .writePos => { queue with write_pos := 0 }
  | .readPos => { queue with read_pos := 0 }
  | .completeFlag => { queue with complete_job_flag := false }
  | .noRangeEnd => { queue with cur_range := { queue.cur_range with end_pos := invalidSeekPos } }
  | .noRangeStart =>
    { queue with cur_range := { queue.cur_range with start_pos := invalidSeekPos } }
  | .jobId => { queue with job_id := job.job_id }
  | .rangeStart => { queue with cur_range := { queue.cur_range with start_pos := job.offset } }
  | .rangeEnd =>
    { queue with cur_range := { queue.cur_range with end_pos := job.offset + job.seg_size - 1 } }
  | .assignJob | .assignTask => queue

/-- `Assign_Download_Task`. -/
def assignDownloadTask (q : Nat) (job : DlTsSegJob) : DownloadTask where
  pc := .query
  queue := q
  download_offset := job.offset
  request_size := job.seg_size.toNat

/-- A step of the scheduler. -/
def schedStep (s : SmartHttpState) : SmartHttpState :=
  match s.sched with
  | .findTask =>
    match (List.range s.task_num).find? fun i => (s.task i).pc = .idle with
    | none => s
    | some i => { s with sched := .nextJob i }
  | .nextJob i =>
    match s.p_job_desc with
    | some _ => { s with sched := .takeQueue i }
    | none =>
      match s.jobs.getNextJob with
      | none => { s with sched := .findTask }
      | some job => { s with sched := .takeQueue i, p_job_desc := some job }
  | .takeQueue i =>
    match s.mq.firstUnused with
    | none => { s with sched := .findTask }
    | some q =>
      { s.setQueue q { s.mq.seg_queue q with used_flag := true } with
        sched := .assigning i q .writePos }
  | .assigning i q step =>
    match s.p_job_desc with
    | none => s
    | some job =>
      let s := s.setQueue q (storeQueue job (s.mq.seg_queue q) step)
      match step.next with
      | none =>
        { s.setTask i (assignDownloadTask q job) with sched := .findTask, p_job_desc := none }
      | some next =>
        { s with
          sched := .assigning i q next
          jobs := if step = .assignJob then (s.jobs.assignJob job.job_index).1 else s.jobs }

/-- The bytes that a connection delivers. -/
def bytesFrom (content : Int → UInt8) (first : Int) (n : Nat) : List UInt8 :=
  (List.range n).map fun (k : Nat) => content (first + k)

/-- A step of download task `t` when `avail` bytes have arrived. -/
def taskStep (abi : Abi) (content : Int → UInt8) (s : SmartHttpState) (t avail now : Nat) :
    SmartHttpState :=
  let task := s.task t
  let queue := s.mq.seg_queue task.queue
  match task.pc with
  | .idle => s
  | .query =>
    -- `queue_query_wp`
    if queue.write_pos < s.mq.len then
      s.setTask t { task with
        pc := .recv
        w_start_pos := queue.write_pos
        write_pos := 0
        buf_len := min (s.mq.len - queue.write_pos) (task.request_size - task.total_read_len) }
    else s
  | .recv =>
    let readLen := min avail task.buf_len
    let addr := abi.sizeofUlong * (task.w_start_pos + task.write_pos)
    (s.setQueue task.queue { queue with
      mem := queue.mem.write addr
        (bytesFrom content (task.download_offset + task.total_read_len) readLen) }).setTask t
      { task with pc := .update readLen }
  | .update readLen =>
    -- `update_queue_writePosition`, and the rest of the round
    let s := if queue.write_pos + readLen ≤ s.mq.len then
        s.setQueue task.queue { queue with write_pos := queue.write_pos + readLen }
      else s
    let total_read_len := task.total_read_len + readLen
    s.setTask t { task with
      pc :=
        if total_read_len ≥ task.request_size then .notify
        else if task.buf_len - readLen = 0 then .query
        else .recv
      total_read_len := total_read_len
      write_pos := task.write_pos + readLen
      buf_len := task.buf_len - readLen }
  | .notify =>
    (s.setQueue task.queue { queue with complete_job_flag := true }).setTask t
      { task with pc := .complete queue.job_id }
  | .complete job_id =>
    -- `Get_Job_From_Id` and `Complete_Job`
    let s' := s.setTask t { task with pc := .release }
    match s.jobs.job_array.find? fun job => job.job_id = job_id with
    | none => s'
    | some job => { s' with jobs := (s.jobs.completeJob job.job_index true now).1 }
  | .release => s.setTask t { task with pc := .idle }

/-- `MAX_REDO_CNT`. -/
def maxRedoCnt : Nat := 3

/-- A step of the reader, which asks for `size` bytes when it calls. -/
def readerStep (abi : Abi) (s : SmartHttpState) (size : Nat) : SmartHttpState :=
  match s.reader with
  | .outside => if s.mq.seek_pending then s else { s with reader := .loop size 0 }
  | .loop size redo_cnt =>
    match s.mq.cur_queue with
    | some q =>
      -- `queue_read`, up to its copy
      let queue := s.mq.seg_queue q
      { s with reader := .copy size redo_cnt (min size (queue.write_pos - queue.read_pos)) }
    | none =>
      match s.mq.findDataready with
      | some q => { s with mq := { s.mq with cur_queue := some q } }
      | none =>
        { s with reader := if redo_cnt ≥ maxRedoCnt then .outside else .loop size (redo_cnt + 1) }
  | .copy size redo_cnt n =>
    match s.mq.cur_queue with
    | none => s
    | some q =>
      let queue := s.mq.seg_queue q
      { s.setQueue q { queue with read_pos := queue.read_pos + n } with
        reader := .check size redo_cnt n
        out := s.out ++ queue.mem.read (abi.sizeofUlong * queue.read_pos) n }
  | .check size redo_cnt n =>
    match s.mq.cur_queue with
    | none => s
    | some q =>
      let queue := s.mq.seg_queue q
      if queue.complete_job_flag ∧ queue.read_pos = queue.write_pos ∧ s.mq.len ≠ 0 then
        { s.setQueue q { queue with used_flag := false } with reader := .clear size redo_cnt n }
      else { s with reader := if n = 0 then .loop size redo_cnt else .outside }
  | .clear size redo_cnt n =>
    { s with
      mq := { s.mq with cur_queue := none }
      reader := if n = 0 then .loop size redo_cnt else .outside }

/-- A step of one thread. -/
def threadStep (abi : Abi) (content : Int → UInt8) (s : SmartHttpState) :
    ThreadStep → SmartHttpState
  | .scheduler => s.schedStep
  | .task t avail now => if t < s.task_num then s.taskStep abi content t avail now else s
  | .reader size => s.readerStep abi size

end SmartHttpState

/-- The threads in any order. -/
def smartHttp (abi : Abi) (content : Int → UInt8) : Machine SmartHttpState ThreadStep Unit where
  step s i := (s.threadStep abi content i, ())

/-- The state once `Smart_Http_Download_Open` has made the list of jobs. -/
def smartHttpOpen (jobs : JobsDescription) (queues tasks len : Nat) (mem : Nat → Memory UInt8) :
    SmartHttpState where
  mq := { len := len, total := queues, seg_queue := fun q => { mem := mem q } }
  jobs := jobs
  task_num := tasks

end Tntsat.SmartHttp
