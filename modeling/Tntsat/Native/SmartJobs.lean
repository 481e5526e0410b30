import Tntsat.ForStd.Machine

/-!
# The jobs of a download

`kware/libdownload/smart_http/jobs.c`: the list of jobs, one for each segment of the
file, and the calls that keep its books while the scheduler hands the jobs out, the
download tasks complete them and a seek takes them back.

The list and its jobs exist (the NULL checks are left out), the clock is an argument,
and `job_total` is the length of the array, as `Gen_Jobs` allocates it.
-/

namespace Tntsat.SmartHttp

/-- A connection of the HTTP client. -/
abbrev Handle := Nat

/-- `DL_TS_SEG_JOB`. -/
structure DlTsSegJob where
  seg_size : Int
  offset : Int
  is_assigned : Bool := false
  complete_flag : Bool := false
  success_flag : Bool := false
  begin_time : Nat := 0
  end_time : Nat := 0
  job_index : Nat
  job_id : Nat
  pDownloadHandle : Option Handle := none
deriving DecidableEq

/-- `JOBS_DESCRIPTION`; the texts of the request are not used here. -/
structure JobsDescription where
  job_array : List DlTsSegJob
  assigned_job_num : Int := 0
  complete_job_num : Int := 0
  finish_flag : Bool := false
  content_length : Int
  single_job_mode : Bool := false
  reconnect : Bool := false
deriving DecidableEq

namespace JobsDescription

/-- `job_total`. -/
def jobTotal (d : JobsDescription) : Nat := d.job_array.length

/-- Store a job back into the array. -/
def setJob (d : JobsDescription) (i : Nat) (job : DlTsSegJob) : JobsDescription :=
  { d with job_array := d.job_array.set i job }

/-- `Get_Next_Job`. -/
def getNextJob (d : JobsDescription) : Option DlTsSegJob :=
  if d.jobTotal = 0 ∨ d.jobTotal = d.assigned_job_num ∨ d.jobTotal = d.complete_job_num ∨
      d.finish_flag then
    none
  else d.job_array.find? fun job => !job.is_assigned && !job.complete_flag

/-- `Assign_Job_Reset`. -/
def assignJobReset (d : JobsDescription) (job_index : Nat) : JobsDescription × Bool :=
  match d.job_array[job_index]? with
  | none => (d, false)
  | some job =>
    let d' := if job.is_assigned then { d with assigned_job_num := d.assigned_job_num - 1 } else d
    (d'.setJob job_index { job with
      is_assigned := false, complete_flag := false, success_flag := false
      begin_time := 0, end_time := 0 }, true)

/-- `Assign_Job`. -/
def assignJob (d : JobsDescription) (job_index : Nat) : JobsDescription × Bool :=
  match d.job_array[job_index]? with
  | none => (d, false)
  | some job =>
    ({ d with assigned_job_num := d.assigned_job_num + 1 }.setJob job_index
      { job with is_assigned := true, complete_flag := false, success_flag := false }, true)

/-- `Complete_Job` at the time `now`. -/
def completeJob (d : JobsDescription) (job_index : Nat) (result : Bool) (now : Nat) :
    JobsDescription × Bool :=
  match d.job_array[job_index]? with
  | none => (d, false)
  | some job =>
    if job.complete_flag then (d, true)
    else
      let num := d.complete_job_num + 1
      ({ d with
          complete_job_num := num
          finish_flag := if num = d.jobTotal then true else d.finish_flag }.setJob job_index
        { job with
          complete_flag := true, success_flag := result, pDownloadHandle := none
          end_time := now }, true)

/-- The two counters without a job that is reactivated. -/
def uncount (d : JobsDescription) (job : DlTsSegJob) : JobsDescription :=
  { d with
    complete_job_num := if job.complete_flag then d.complete_job_num - 1 else d.complete_job_num
    assigned_job_num := if job.is_assigned then d.assigned_job_num - 1 else d.assigned_job_num }

/-- `Reactive_Job`. -/
def reactiveJob (d : JobsDescription) (job_index : Int) : JobsDescription × Bool :=
  if job_index < 0 then (d, false)
  else
    match d.job_array[job_index.toNat]? with
    | none => (d, false)
    | some job =>
      ({ d.uncount job with finish_flag := false }.setJob job_index.toNat
        { job with
          complete_flag := false, is_assigned := false, success_flag := false
          begin_time := 0, end_time := 0 }, true)

/-- One round of the loop of `Reactive_Jobs`. -/
def reactiveRound (d : JobsDescription) (i : Nat) : JobsDescription :=
  match d.job_array[i]? with
  | none => d
  | some job =>
    if job.complete_flag || job.is_assigned then
      (d.uncount job).setJob i
        { job with
          complete_flag := false, is_assigned := false, success_flag := false
          begin_time := 0, end_time := 0, pDownloadHandle := none }
    else d

/-- The loop of `Reactive_Jobs` from job `i` on, `n` rounds. -/
def reactiveLoop (d : JobsDescription) (i : Nat) : Nat → JobsDescription
  | 0 => d
  | n + 1 => reactiveLoop (d.reactiveRound i) (i + 1) n

/-- The last job `Reactive_Jobs` works on: an end that is not in the array, and so is
    0, stands for the end of the array. -/
def reactiveEnd (d : JobsDescription) (job_index_end : Int) : Int :=
  if job_index_end ≥ d.jobTotal ∨ job_index_end ≤ 0 then d.jobTotal - 1 else job_index_end

/-- `Reactive_Jobs`. -/
def reactiveJobs (d : JobsDescription) (job_index_start : Nat) (job_index_end : Int) :
    JobsDescription × Bool :=
  if job_index_start ≥ d.jobTotal then (d, false)
  else
    let d' := d.reactiveLoop job_index_start
      (d.reactiveEnd job_index_end + 1 - job_index_start).toNat
    ({ d' with finish_flag := false }, true)

end JobsDescription

/-- A call on the list of jobs. -/
inductive JobsCall where
  /-- `Get_Next_Job` and `Assign_Job` on what it returns -/
  | assignNext
  | assignReset (job_index : Nat)
  | complete (job_index : Nat) (result : Bool) (now : Nat)
  | reactive (job_index : Int)
  | reactives (job_index_start : Nat) (job_index_end : Int)
deriving DecidableEq

/-- What a call does to the list of jobs, and whether it succeeds. -/
def JobsDescription.call (d : JobsDescription) : JobsCall → JobsDescription × Bool
  | .assignNext =>
    match d.getNextJob with
    | none => (d, false)
    | some job => d.assignJob job.job_index
  | .assignReset i => d.assignJobReset i
  | .complete i result now => d.completeJob i result now
  | .reactive i => d.reactiveJob i
  | .reactives i j => d.reactiveJobs i j

/-- The list of jobs under any sequence of calls. -/
def jobsMachine : Machine JobsDescription JobsCall Bool where
  step := JobsDescription.call

end Tntsat.SmartHttp
