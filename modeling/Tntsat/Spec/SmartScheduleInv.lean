import Tntsat.Native.SmartSchedule
import Tntsat.Spec.SmartGenJobsCorrect

/-!
# The jobs and the queues between the scheduler and the reader

In range mode the list cuts the content into segments, and the scheduler hands them out in
their order.  The reader takes them up by the ids of the queues.

The jobs pass through the queues in their order: those before `c` have been read, those
from `c` up to `a` are in one queue each, and `r` bytes of job `c` have been read.  `Inv`
says so of a state, and what each thread may rely on where it is.

## Key results

- `findDataready_spec`: the reader finds the queue with the lowest job id.
- `genJobs_cut`: the list of jobs that `Gen_Jobs` makes in range mode.
-/

namespace Tntsat.SmartHttp

/-! ## The segments -/

/-- The first byte of segment `k`. -/
def segStart (P L k : Nat) : Nat := min (k * P) L

/-- The size of segment `k`. -/
def segSize (P L k : Nat) : Nat := min ((k + 1) * P) L - k * P

theorem segStart_of_lt {P L k : Nat} (h : k * P < L) : segStart P L k = k * P :=
  Nat.min_eq_left (Nat.le_of_lt h)

/-- A segment ends where the next one begins. -/
theorem segStart_succ {P L k : Nat} (h : k * P < L) :
    segStart P L (k + 1) = segStart P L k + segSize P L k := by
  have : (k + 1) * P = k * P + P := Nat.succ_mul k P
  unfold segStart segSize
  omega

theorem segStart_le (P L k : Nat) : segStart P L k ≤ L := Nat.min_le_right _ _

theorem segSize_le (P L k : Nat) : segSize P L k ≤ P := by
  have : (k + 1) * P = k * P + P := Nat.succ_mul k P
  unfold segSize
  omega

attribute [ext] FileRange

/-- The range of segment `k`. -/
def segRange (P L k : Nat) : FileRange where
  start_pos := ((k * P : Nat) : Int)
  end_pos := ((k * P : Nat) : Int) + (segSize P L k : Nat) - 1

/-- A job with the interval of segment `k`. -/
structure DlTsSegJob.At (job : DlTsSegJob) (P L k : Nat) : Prop where
  id : job.job_id = k
  index : job.job_index = k
  offset : job.offset = ((k * P : Nat) : Int)
  size : job.seg_size = ((segSize P L k : Nat) : Int)

/-- A list of jobs that cuts a content of `L` bytes into segments of `P`. -/
structure JobsDescription.Cut (d : JobsDescription) (P L : Nat) : Prop where
  lt_length_iff : ∀ k, k < d.job_array.length ↔ k * P < L
  at_ : ∀ (k : Nat) (job : DlTsSegJob), d.job_array[k]? = some job → job.At P L k

/-- The jobs that the end of `Gen_Jobs` returns. -/
theorem finish_jobs {s : Split} {env : GenEnv} {P : Int} {reconnect : Bool} {d : JobsDescription}
    (hd : (s.finish env P reconnect).jobs = some d) :
    d.job_array = (List.range s.jobs.toNat).map (s.job P) ∧
      d.single_job_mode = s.single_job_mode ∧ d.content_length = s.content_length := by
  unfold Split.finish at hd
  split at hd
  · exact nomatch hd
  · split at hd
    · exact nomatch hd
    · obtain rfl := Option.some.inj hd
      exact ⟨rfl, rfl, rfl⟩

/-- The jobs of a split in range mode cut the content. -/
theorem finish_cut {s : Split} {env : GenEnv} {P L n : Nat} {reconnect : Bool} (hP : 0 < P)
    (hL : 0 < L) (hL' : L < 2147483648)
    (hn : (L % P = 0 → L = n * P) ∧ (L % P ≠ 0 → L + P = n * P + L % P))
    (hs : s.jobs = n ∧ s.last_piece_size = ((L % P : Nat) : Int) ∧ s.single_job_mode = false ∧
      s.content_length = L) {d : JobsDescription}
    (hd : (s.finish env P reconnect).jobs = some d) : d.Cut P d.content_length.toNat := by
  obtain ⟨harray, -, hlength⟩ := finish_jobs hd
  rw [hs.1, Int.toNat_natCast] at harray
  rw [hlength, hs.2.2.2, Int.toNat_natCast]
  constructor
  · intro k
    rw [harray, List.length_map, List.length_range]
    exact lt_pieces_iff hP hL hL' hn k
  · intro k job hk
    rw [harray, List.getElem?_map, Option.map_eq_some_iff] at hk
    obtain ⟨i, hi, rfl⟩ := hk
    obtain ⟨hlt, hik⟩ := List.getElem?_eq_some_iff.mp hi
    rw [List.getElem_range] at hik
    subst hik
    obtain ⟨hoffset, hsize⟩ := job_range hP hL hL' hn hs (by simpa using hlt)
    exact ⟨rfl, rfl, hoffset, hsize⟩

/-- In range mode `Gen_Jobs` cuts the content. -/
theorem genJobsFrom_cut {env : GenEnv} {header : Option String} {P : Nat} {reconnect : Bool}
    {resp : StartResult} (hP : 0 < P) (hlen : resp.content_length < 2147483648)
    {d : JobsDescription} (hd : (genJobsFrom env header P reconnect resp).jobs = some d)
    (hrange : d.single_job_mode = false) : d.Cut P d.content_length.toNat := by
  -- a single job covers the whole file, and is not what was asked about
  have hsingle : ∀ s : Split, s.single_job_mode = true →
      (s.finish env P reconnect).jobs ≠ some d := by
    intro s hs h
    rw [(finish_jobs h).2.1, hs] at hrange
    exact nomatch hrange
  unfold genJobsFrom at hd
  dsimp only at hd
  generalize hl : (if resp.content_length ≤ 0 then -1 else resp.content_length) = length at hd
  split at hd
  -- without ranges or a length there is one job
  · exact absurd hd (hsingle _ rfl)
  · rename_i hpos
    have hpos : 0 < length := by
      by_contra h
      simp [show length ≤ 0 by omega] at hpos
    have hlt : length < 2147483648 := by
      rw [← hl]
      split <;> omega
    obtain ⟨L, rfl⟩ := Int.eq_ofNat_of_zero_le (Int.le_of_lt hpos)
    obtain ⟨n, hpieces, -, hn⟩ := pieces_spec (P := P) (L := L) (by omega) (by omega)
    rw [hpieces] at hd
    -- any other list of jobs cuts the length into pieces
    have hcut : ∀ s : Split, s.jobs = n ∧ s.last_piece_size = ((L % P : Nat) : Int) ∧
        s.single_job_mode = false ∧ s.content_length = L →
          (s.finish env P reconnect).jobs = some d → d.Cut P d.content_length.toNat :=
      fun s hs h => finish_cut hP (by omega) (by omega) hn hs h
    split at hd
    · split at hd
      · exact nomatch hd
      · split at hd
        · split at hd
          · exact hcut _ ⟨rfl, rfl, rfl, rfl⟩ hd
          · exact absurd hd (hsingle _ rfl)
        · exact absurd hd (hsingle _ rfl)
    · exact hcut _ ⟨rfl, rfl, rfl, rfl⟩ hd

/-- In range mode `Gen_Jobs` cuts the content. -/
theorem genJobs_cut {env : GenEnv} {url header : Option String} {P : Nat} {reconnect : Bool}
    (hP : 0 < P) (hlen : ∀ i, (env.first i).content_length < 2147483648) {d : JobsDescription}
    (hd : (genJobs env url header P reconnect).jobs = some d)
    (hrange : d.single_job_mode = false) : d.Cut P d.content_length.toNat := by
  unfold genJobs at hd
  split at hd
  · exact nomatch hd
  · split at hd
    · exact nomatch hd
    · split at hd
      · exact nomatch hd
      · split at hd
        · exact nomatch hd
        · rename_i resp hstart
          obtain ⟨i, rfl⟩ := startLoop_some hstart
          exact genJobsFrom_cut hP (hlen i) hd hrange

/-! ## The list of jobs -/

namespace JobsDescription

/-- The books of a list whose jobs from `b` on may be handed out, and no others. -/
structure HandedOut (d : JobsDescription) (P L b : Nat) : Prop where
  inv : d.Inv
  cut : d.Cut P L
  idle_iff : ∀ (k : Nat) (job : DlTsSegJob), d.job_array[k]? = some job → (job.Idle ↔ b ≤ k)

variable {d d' : JobsDescription} {P L b k : Nat}

theorem Cut.set (h : d.Cut P L) {job' : DlTsSegJob}
    (harray : d'.job_array = d.job_array.set k job') (hjob : job'.At P L k) : d'.Cut P L where
  lt_length_iff := by
    rw [harray, List.length_set]
    exact h.lt_length_iff
  at_ := by
    intro j job'' hj
    rw [harray, List.getElem?_set] at hj
    split at hj
    · rename_i hkj
      subst hkj
      split at hj
      · exact Option.some.inj hj ▸ hjob
      · exact nomatch hj
    · exact h.at_ j job'' hj

/-- A fresh list has been handed out up to 0. -/
theorem Fresh.handedOut (h : d.Fresh) (hcut : d.Cut P L) : d.HandedOut P L 0 where
  inv := h.inv
  cut := hcut
  idle_iff := fun _ job hk =>
    iff_of_true (h.idle job (List.mem_of_getElem? hk)) (Nat.zero_le _)

/-- A call that stores job `k` back hands it out or leaves it handed out. -/
theorem HandedOut.set (h : d.HandedOut P L b) {b' : Nat} {job job' : DlTsSegJob}
    (hinv : d'.Inv) (hjob : d.job_array[k]? = some job)
    (harray : d'.job_array = d.job_array.set k job') (hat : job'.At P L k)
    (hk : job'.Idle ↔ b' ≤ k) (hother : ∀ j, j ≠ k → (b ≤ j ↔ b' ≤ j)) : d'.HandedOut P L b' where
  inv := hinv
  cut := h.cut.set harray hat
  idle_iff := by
    intro j job'' hj
    obtain ⟨hlt, -⟩ := List.getElem?_eq_some_iff.mp hjob
    rw [harray, List.getElem?_set, if_pos hlt] at hj
    split at hj
    · rename_i hkj
      subst hkj
      exact Option.some.inj hj ▸ hk
    · rename_i hkj
      rw [h.idle_iff j job'' hj, hother j (Ne.symm hkj)]

/-- `Get_Next_Job` returns the job behind those that were handed out. -/
theorem HandedOut.next (h : d.HandedOut P L b) {job : DlTsSegJob} (hjob : d.getNextJob = some job) :
    job.At P L b ∧ d.job_array[b]? = some job := by
  obtain ⟨hj, hidle⟩ := getNextJob_some h.inv.indexed hjob
  obtain ⟨hlt, -⟩ := List.getElem?_eq_some_iff.mp hj
  have hge := (h.idle_iff _ job hj).mp hidle
  obtain ⟨job', hb⟩ : ∃ job', d.job_array[b]? = some job' :=
    ⟨_, List.getElem?_eq_getElem (by omega)⟩
  have hnext := h.inv.nextJobCorrect b job' hb ((h.idle_iff b job' hb).mpr (Nat.le_refl b))
    fun j job'' hj hj' hidle'' => by
      have := (h.idle_iff j job'' hj').mp hidle''
      omega
  rw [hjob] at hnext
  obtain rfl := Option.some.inj hnext
  exact ⟨h.cut.at_ b job hb, hb⟩

/-- `Assign_Job` hands out one more job. -/
theorem HandedOut.assign (h : d.HandedOut P L b) (hb : b * P < L) :
    (d.assignJob b).1.HandedOut P L (b + 1) := by
  obtain ⟨job, hjob⟩ : ∃ job, d.job_array[b]? = some job :=
    ⟨_, List.getElem?_eq_getElem ((h.cut.lt_length_iff b).mpr hb)⟩
  have hidle : ∀ job : DlTsSegJob, d.job_array[b]? = some job → job.Idle :=
    fun job hjob => (h.idle_iff b job hjob).mpr (Nat.le_refl b)
  have hat := h.cut.at_ b job hjob
  have harray : (d.assignJob b).1.job_array = d.job_array.set b { job with
      is_assigned := true, complete_flag := false, success_flag := false } := by
    simp only [assignJob, hjob]
    rfl
  refine h.set (h.inv.assignJob hidle) hjob harray ⟨hat.id, hat.index, hat.offset, hat.size⟩ ?_
    fun j hj => by omega
  exact iff_of_false (fun h => Bool.noConfusion h.1) (by omega)

/-- `Complete_Job` completes a job that was handed out, or passes over the next one. -/
theorem HandedOut.completeJob (h : d.HandedOut P L b) {b' : Nat} (hk : k < b')
    (hother : ∀ j, j ≠ k → (b ≤ j ↔ b' ≤ j)) (result : Bool) (now : Nat) :
    (d.completeJob k result now).1.HandedOut P L b' := by
  have hinv := h.inv.completeJob k result now
  cases hjob : d.job_array[k]? with
  | none =>
    simp only [JobsDescription.completeJob, hjob]
    refine ⟨h.inv, h.cut, fun j job' hj => ?_⟩
    rw [h.idle_iff j job' hj, hother j (by rintro rfl; cases hj.symm.trans hjob)]
  | some job =>
    have hat := h.cut.at_ k job hjob
    simp only [JobsDescription.completeJob, hjob] at hinv ⊢
    split
    · rename_i hcomplete
      -- it was complete already, so it is not one that may be handed out
      refine ⟨h.inv, h.cut, fun j job' hj => ?_⟩
      rw [h.idle_iff j job' hj]
      by_cases hjk : j = k
      · subst hjk
        obtain rfl := Option.some.inj (hjob.symm.trans hj)
        have hbusy : ¬ b ≤ j := fun hb =>
          Bool.noConfusion (((h.idle_iff j job hjob).mpr hb).2.symm.trans hcomplete)
        omega
      · exact hother j hjk
    · rename_i hopen
      rw [if_neg hopen] at hinv
      exact h.set hinv hjob rfl ⟨hat.id, hat.index, hat.offset, hat.size⟩
        (iff_of_false (fun h => Bool.noConfusion h.2) (by omega)) hother

/-- The job with an id is in the place of that id. -/
theorem Cut.find_id (h : d.Cut P L) {job : DlTsSegJob}
    (hjob : d.job_array.find? (fun job => job.job_id = (k : Int)) = some job) :
    job.job_index = k := by
  obtain ⟨i, hi⟩ := List.mem_iff_getElem?.mp (List.mem_of_find?_eq_some hjob)
  have hid := List.find?_some hjob
  have hat := h.at_ i job hi
  have : job.job_id = k := by exact_mod_cast of_decide_eq_true hid
  rw [hat.index, ← hat.id, this]

end JobsDescription

/-! ## Looking for a queue -/

namespace MultiQueueHandle

/-- The reader finds the lowest job id among the queues in use. -/
theorem findDataready_spec {m : MultiQueueHandle} {q : Nat} (h : m.findDataready = some q) :
    q < m.total ∧ (m.seg_queue q).used_flag = true ∧ (m.seg_queue q).job_id ≠ invalidJobId ∧
      ∀ j < m.total, (m.seg_queue j).used_flag = true → (m.seg_queue j).job_id ≠ invalidJobId →
        (m.seg_queue q).job_id ≤ (m.seg_queue j).job_id := by
  have hfold : ∀ n, ∀ acc, acc = (List.range n).foldl m.findRound
      ((m.seg_queue 0).job_id + maxJobTotal, none) →
      (∀ j < n, (m.seg_queue j).used_flag = true → (m.seg_queue j).job_id ≠ invalidJobId →
        acc.1 ≤ (m.seg_queue j).job_id) ∧
      ∀ q, acc.2 = some q → q < n ∧ (m.seg_queue q).used_flag = true ∧
        (m.seg_queue q).job_id ≠ invalidJobId ∧ acc.1 = (m.seg_queue q).job_id := by
    intro n
    induction n with
    | zero =>
      rintro acc rfl
      exact ⟨fun j hj => absurd hj (Nat.not_lt_zero j), fun q hq => nomatch hq⟩
    | succ n ih =>
      rintro acc rfl
      obtain ⟨hmin, hbest⟩ := ih _ rfl
      rw [List.range_succ, List.foldl_append, List.foldl_cons, List.foldl_nil]
      generalize (List.range n).foldl m.findRound _ = acc at hmin hbest
      unfold findRound
      dsimp only
      split
      · -- queue `n` is better than those before
        rename_i hbetter
        obtain ⟨hused, hid, hlt⟩ := hbetter
        constructor
        · intro j hj hu hi
          rcases Nat.lt_or_eq_of_le (Nat.le_of_lt_succ hj) with hj | rfl
          · exact Int.le_trans (Int.le_of_lt hlt) (hmin j hj hu hi)
          · exact Int.le_refl _
        · intro q hq
          obtain rfl := Option.some.inj hq
          exact ⟨Nat.lt_succ_self _, hused, hid, rfl⟩
      · rename_i hworse
        constructor
        · intro j hj hu hi
          rcases Nat.lt_or_eq_of_le (Nat.le_of_lt_succ hj) with hj | rfl
          · exact hmin j hj hu hi
          · by_contra hlt
            exact hworse ⟨hu, hi, by omega⟩
        · intro q hq
          obtain ⟨hq, hrest⟩ := hbest q hq
          exact ⟨by omega, hrest⟩
  obtain ⟨hmin, hbest⟩ := hfold m.total _ rfl
  obtain ⟨hq, hused, hid, heq⟩ := hbest q h
  exact ⟨hq, hused, hid, fun j hj hu hi => heq ▸ hmin j hj hu hi⟩

/-- The queue that is taken was not in use. -/
theorem firstUnused_some {m : MultiQueueHandle} {q : Nat} (h : m.firstUnused = some q) :
    q < m.total ∧ (m.seg_queue q).used_flag = false := by
  have hq := List.mem_range.mp (List.mem_of_find?_eq_some h)
  have hused := List.find?_some h
  exact ⟨hq, by simpa using hused⟩

end MultiQueueHandle

/-! ## Progress -/

/-- What a queue is to the run. -/
inductive Role where
  /-- its job was read, or it never had one -/
  | free
  /-- the scheduler has taken it but not given it a job id -/
  | taking
  /-- it is the queue of job `k` -/
  | owned (k : Nat)
deriving DecidableEq

/-- How far a run has come: the jobs before `c` and `r` bytes of job `c` have been read,
    the jobs before `a` have been given to queues, and those before `b` are marked as
    assigned in the list. -/
structure Progress where
  c : Nat
  r : Nat
  a : Nat
  b : Nat
  role : Nat → Role

/-- The position in the content up to which a run has read. -/
def Progress.pos (P L : Nat) (g : Progress) : Nat := segStart P L g.c + g.r

section Invariant

variable (content : Int → UInt8) (P L : Nat) (g : Progress)

/-! ## The queues -/

/-- What the queue of job `k` holds. -/
structure Owned (queue : DataSegmentQueue) (k : Nat) : Prop where
  used : queue.used_flag = true
  id : queue.job_id = k
  ge : g.c ≤ k
  lt : k < g.a
  read : queue.read_pos = if k = g.c then g.r else 0
  read_le : queue.read_pos ≤ queue.write_pos
  write_le : queue.write_pos ≤ segSize P L k
  data : ∀ i, i < queue.write_pos → queue.mem i = content ((k * P + i : Nat) : Int)
  whole : queue.complete_job_flag = true → queue.write_pos = segSize P L k
  range : 0 < queue.write_pos → queue.cur_range = segRange P L k

/-- What a queue holds. -/
def QueueOk (queue : DataSegmentQueue) : Role → Prop
  | .free => queue.used_flag = false
  | .taking => queue.used_flag = true
  | .owned k => Owned content P L g queue k

/-- Every job that was given to a queue and not read has a queue of its own. -/
structure QueuesOk (mq : MultiQueueHandle) : Prop where
  each : ∀ q, q < mq.total → QueueOk content P L g (mq.seg_queue q) (g.role q)
  unique : ∀ q q' k, q < mq.total → q' < mq.total → g.role q = .owned k → g.role q' = .owned k →
    q = q'
  exist : ∀ k, g.c ≤ k → k < g.a → ∃ q, q < mq.total ∧ g.role q = .owned k

/-! ## The tasks -/

/-- The task writes to its queue. -/
def TaskPc.writes : TaskPc → Bool
  | .query | .recv | .update _ | .notify => true
  | _ => false

/-- A task that writes job `k` to its queue. -/
structure Writing (mq : MultiQueueHandle) (task : DownloadTask) (k : Nat) : Prop where
  lt_total : task.queue < mq.total
  role : g.role task.queue = .owned k
  assigned : k < g.b
  offset : task.download_offset = ((k * P : Nat) : Int)
  size : task.request_size = segSize P L k
  total : task.total_read_len = (mq.seg_queue task.queue).write_pos
  total_le : task.total_read_len ≤ task.request_size
  buf : task.pc = .recv ∨ (∃ n, task.pc = .update n) →
    task.w_start_pos + task.write_pos = task.total_read_len ∧
      task.buf_len = task.request_size - task.total_read_len
  received : ∀ n, task.pc = .update n → n ≤ task.buf_len ∧ (0 < n → task.total_read_len = 0) ∧
    ∀ i, i < n → (mq.seg_queue task.queue).mem i = content ((k * P + i : Nat) : Int)
  done : task.pc = .notify → task.total_read_len = task.request_size
  incomplete : (mq.seg_queue task.queue).complete_job_flag = false
  range : (mq.seg_queue task.queue).cur_range = segRange P L k

/-- What a task may rely on. -/
structure TaskOk (mq : MultiQueueHandle) (task : DownloadTask) : Prop where
  writing : task.pc.writes = true → ∃ k, Writing content P L g mq task k
  complete : ∀ id, task.pc = .complete id → ∃ k, k < g.b ∧ id = ((k : Nat) : Int)

/-- No two tasks write to one queue. -/
structure TasksOk (s : SmartHttpState) : Prop where
  each : ∀ t, t < s.task_num → TaskOk content P L g s.mq (s.task t)
  distinct : ∀ t t', t < s.task_num → t' < s.task_num → (s.task t).pc.writes = true →
    (s.task t').pc.writes = true → (s.task t).queue = (s.task t').queue → t = t'

/-! ## The scheduler -/

/-- The scheduler's job is the next one. -/
def NextJob (s : SmartHttpState) : Prop :=
  ∀ job, s.p_job_desc = some job → job.At P L g.b ∧ g.b * P < L

/-- The queue that was taken has been cleared up to this assignment. -/
structure Cleared (queue : DataSegmentQueue) (step : AssignStep) : Prop where
  writePos : step ≠ .writePos → queue.write_pos = 0
  readPos : step ≠ .writePos → step ≠ .readPos → queue.read_pos = 0
  completeFlag : step ≠ .writePos → step ≠ .readPos → step ≠ .completeFlag →
    queue.complete_job_flag = false

/-- The scheduler has taken a queue for the next job. -/
structure Taking (s : SmartHttpState) (q : Nat) (step : AssignStep) : Prop where
  role : g.role q = .taking
  eq : g.a = g.b
  next : NextJob P L g s
  cleared : Cleared (s.mq.seg_queue q) step

/-- The queue of job `k` has been given its range up to this assignment. -/
structure Ranged (queue : DataSegmentQueue) (k : Nat) (step : AssignStep) : Prop where
  start_pos : step ≠ .rangeStart → queue.cur_range.start_pos = (segRange P L k).start_pos
  end_pos : step ≠ .rangeStart → step ≠ .rangeEnd →
    queue.cur_range.end_pos = (segRange P L k).end_pos

/-- The scheduler has given the next job to a queue. -/
structure Given (s : SmartHttpState) (q : Nat) (step : AssignStep) : Prop where
  role : ∃ k, g.role q = .owned k ∧ k + 1 = g.a ∧ k * P < L ∧
    (g.b = if step = .assignTask then k + 1 else k) ∧ Ranged P L (s.mq.seg_queue q) k step ∧
    ∀ job, s.p_job_desc = some job → job.At P L k
  empty : (s.mq.seg_queue q).write_pos = 0
  incomplete : (s.mq.seg_queue q).complete_job_flag = false
  alone : ∀ t, t < s.task_num → (s.task t).pc.writes = true → (s.task t).queue ≠ q

/-- What the scheduler may rely on. -/
def SchedOk (s : SmartHttpState) : Prop :=
  match s.sched with
  | .findTask => g.a = g.b ∧ NextJob P L g s
  | .nextJob t => g.a = g.b ∧ NextJob P L g s ∧ t < s.task_num ∧ (s.task t).pc = .idle
  | .takeQueue t => g.a = g.b ∧ NextJob P L g s ∧ t < s.task_num ∧ (s.task t).pc = .idle ∧
      s.p_job_desc ≠ none
  | .assigning t q step => t < s.task_num ∧ (s.task t).pc = .idle ∧ s.p_job_desc ≠ none ∧
      q < s.mq.total ∧ if step.beforeId then Taking P L g s q step else Given P L g s q step

/-- A queue without its job id is in the scheduler's hands. -/
def TakenOk (s : SmartHttpState) : Prop :=
  ∀ q, q < s.mq.total → g.role q = .taking →
    ∃ t step, s.sched = .assigning t q step ∧ step.beforeId = true

/-! ## The reader -/

/-- What the reader may rely on. -/
structure ReaderOk (mq : MultiQueueHandle) (reader : ReaderPc) : Prop where
  rest : g.c = g.a → g.r = 0
  cur : (∀ size redo n, reader ≠ .clear size redo n) → ∀ q, mq.cur_queue = some q →
    q < mq.total ∧ g.role q = .owned g.c
  copy : ∀ size redo n, reader = .copy size redo n → ∃ q, mq.cur_queue = some q ∧
    (mq.seg_queue q).read_pos + n ≤ (mq.seg_queue q).write_pos

/-- What holds of every state of a run that has come so far. -/
structure Inv (s : SmartHttpState) : Prop where
  len : s.mq.len = P
  jobs : s.jobs.HandedOut P L g.b
  le : g.c ≤ g.a
  given : ∀ k, k < g.a → k * P < L
  queues : QueuesOk content P L g s.mq
  tasks : TasksOk content P L g s
  sched : SchedOk P L g s
  taken : TakenOk g s
  reader : ReaderOk g s.mq s.reader

end Invariant

/-! ## What a change leaves alone -/

section Frames

variable {content : Int → UInt8} {P L : Nat} {g g' : Progress} {s s' : SmartHttpState}
  {mq mq' : MultiQueueHandle}

open MultiQueueHandle

@[simp] theorem setQueue_self (mq : MultiQueueHandle) (q : Nat) (queue : DataSegmentQueue) :
    (mq.setQueue q queue).seg_queue q = queue := Function.update_self ..

theorem setQueue_of_ne (mq : MultiQueueHandle) {q j : Nat} (queue : DataSegmentQueue)
    (h : j ≠ q) : (mq.setQueue q queue).seg_queue j = mq.seg_queue j := Function.update_of_ne h ..

theorem QueuesOk.owned (h : QueuesOk content P L g mq) {q k : Nat} (hq : q < mq.total)
    (hrole : g.role q = .owned k) : Owned content P L g (mq.seg_queue q) k := by
  have hok := h.each q hq
  rw [hrole] at hok
  exact hok

theorem QueuesOk.ne_of_ne (h : QueuesOk content P L g mq) {q j k k' : Nat} (hq : q < mq.total)
    (hj : j < mq.total) (hrole : g.role q = .owned k) (hrole' : g.role j = .owned k')
    (hjq : j ≠ q) : k' ≠ k := by
  rintro rfl
  exact hjq (h.unique j q _ hj hq hrole' hrole)

/-- A queue is replaced by one that is to the run what it was. -/
theorem QueuesOk.setQueue (h : QueuesOk content P L g mq) {q : Nat} {queue : DataSegmentQueue}
    (hqueue : QueueOk content P L g queue (g.role q)) :
    QueuesOk content P L g (mq.setQueue q queue) where
  each := by
    intro j hj
    by_cases hjq : j = q
    · subst hjq
      rw [setQueue_self]
      exact hqueue
    · rw [setQueue_of_ne _ _ hjq]
      exact h.each j hj
  unique := h.unique
  exist := h.exist

/-- Queue `q` becomes something else to the run. -/
def Progress.setRole (g : Progress) (q : Nat) (role : Role) : Progress :=
  { g with role := Function.update g.role q role }

@[simp] theorem setRole_self (g : Progress) (q : Nat) (role : Role) :
    (g.setRole q role).role q = role := Function.update_self ..

theorem setRole_of_ne (g : Progress) {q j : Nat} (role : Role) (h : j ≠ q) :
    (g.setRole q role).role j = g.role j := Function.update_of_ne h ..

/-- A queue stays what it is when the run comes further. -/
theorem QueueOk.mono {queue : DataSegmentQueue} {role : Role}
    (h : QueueOk content P L g queue role) (ha : g.a ≤ g'.a)
    (howned : ∀ k, role = .owned k →
      g'.c ≤ k ∧ queue.read_pos = if k = g'.c then g'.r else 0) :
    QueueOk content P L g' queue role := by
  cases role with
  | free => exact h
  | taking => exact h
  | owned k =>
    obtain ⟨hge, hread⟩ := howned k rfl
    exact ⟨h.used, h.id, hge, Nat.lt_of_lt_of_le h.lt ha, hread, h.read_le, h.write_le, h.data,
      h.whole, h.range⟩

/-- A queue is replaced and becomes something else to the run. -/
theorem QueuesOk.setRole (h : QueuesOk content P L g mq) {q : Nat} {queue : DataSegmentQueue}
    {role : Role} (hrole : g'.role = Function.update g.role q role)
    (hqueue : QueueOk content P L g' queue role)
    (hother : ∀ j, j < mq.total → j ≠ q → QueueOk content P L g' (mq.seg_queue j) (g.role j))
    (hunique : ∀ k j, role = .owned k → j < mq.total → j ≠ q → g.role j ≠ .owned k)
    (hexist : ∀ k, g'.c ≤ k → k < g'.a →
      (q < mq.total ∧ role = .owned k) ∨ ∃ j, j < mq.total ∧ j ≠ q ∧ g.role j = .owned k) :
    QueuesOk content P L g' (mq.setQueue q queue) where
  each := by
    intro j hj
    rw [hrole]
    by_cases hjq : j = q
    · subst hjq
      rw [setQueue_self, Function.update_self]
      exact hqueue
    · rw [setQueue_of_ne _ _ hjq, Function.update_of_ne hjq]
      exact hother j hj hjq
  unique := by
    intro j j' k hj hj' hk hk'
    rw [hrole] at hk hk'
    -- two owners of one job: both are `q`, one of them is, or neither is
    by_cases hjq : j = q <;> by_cases hjq' : j' = q
    · rw [hjq, hjq']
    · subst hjq
      rw [Function.update_self] at hk
      rw [Function.update_of_ne hjq'] at hk'
      exact absurd hk' (hunique k j' hk hj' hjq')
    · subst hjq'
      rw [Function.update_self] at hk'
      rw [Function.update_of_ne hjq] at hk
      exact absurd hk (hunique k j hk' hj hjq)
    · rw [Function.update_of_ne hjq] at hk
      rw [Function.update_of_ne hjq'] at hk'
      exact h.unique j j' k hj hj' hk hk'
  exist := by
    intro k hc ha
    rw [hrole]
    rcases hexist k hc ha with ⟨hq, rfl⟩ | ⟨j, hj, hjq, hk⟩
    · exact ⟨q, hq, Function.update_self ..⟩
    · exact ⟨j, hj, by rw [Function.update_of_ne hjq]; exact hk⟩

/-- A queue that a task writes to is as the task left it. -/
structure SameFill (queue queue' : DataSegmentQueue) : Prop where
  write_pos : queue'.write_pos = queue.write_pos
  complete : queue'.complete_job_flag = queue.complete_job_flag
  mem : queue'.mem = queue.mem
  range : queue'.cur_range = queue.cur_range

theorem SameFill.refl (queue : DataSegmentQueue) : SameFill queue queue := ⟨rfl, rfl, rfl, rfl⟩

theorem TaskOk.frame {task : DownloadTask} (h : TaskOk content P L g mq task)
    (htotal : mq'.total = mq.total) (hb : g.b ≤ g'.b)
    (hqueue : task.pc.writes = true → ∀ k, g.role task.queue = .owned k →
      g'.role task.queue = .owned k ∧
        SameFill (mq.seg_queue task.queue) (mq'.seg_queue task.queue)) :
    TaskOk content P L g' mq' task where
  writing := by
    intro hw
    obtain ⟨k, hk⟩ := h.writing hw
    obtain ⟨hrole, hfill⟩ := hqueue hw k hk.role
    exact ⟨k, by rw [htotal]; exact hk.lt_total, hrole, Nat.lt_of_lt_of_le hk.assigned hb,
      hk.offset, hk.size, by rw [hfill.write_pos]; exact hk.total, hk.total_le, hk.buf,
      by rw [hfill.mem]; exact hk.received, hk.done, by rw [hfill.complete]; exact hk.incomplete,
      by rw [hfill.range]; exact hk.range⟩
  complete := by
    intro id hid
    obtain ⟨k, hk, rfl⟩ := h.complete id hid
    exact ⟨k, Nat.lt_of_lt_of_le hk hb, rfl⟩

/-- The tasks when none of them steps. -/
theorem TasksOk.frame (h : TasksOk content P L g s) (hnum : s'.task_num = s.task_num)
    (htask : s'.task = s.task) (htotal : s'.mq.total = s.mq.total) (hb : g.b ≤ g'.b)
    (hqueue : ∀ t k, t < s.task_num → (s.task t).pc.writes = true →
      g.role (s.task t).queue = .owned k → g'.role (s.task t).queue = .owned k ∧
        SameFill (s.mq.seg_queue (s.task t).queue) (s'.mq.seg_queue (s.task t).queue)) :
    TasksOk content P L g' s' where
  each := by
    intro t ht
    rw [hnum] at ht
    rw [htask]
    exact (h.each t ht).frame htotal hb fun hw k hk => hqueue t k ht hw hk
  distinct := by
    rw [hnum, htask]
    exact h.distinct

/-- The tasks when task `t` steps. -/
theorem TasksOk.setTask (h : TasksOk content P L g s) {t : Nat} {task : DownloadTask}
    (hnum : s'.task_num = s.task_num) (htask : s'.task = Function.update s.task t task)
    (htotal : s'.mq.total = s.mq.total) (hb : g.b ≤ g'.b)
    (hok : TaskOk content P L g' s'.mq task)
    (hqueue : ∀ t' k, t' < s.task_num → t' ≠ t → (s.task t').pc.writes = true →
      g.role (s.task t').queue = .owned k → g'.role (s.task t').queue = .owned k ∧
        SameFill (s.mq.seg_queue (s.task t').queue) (s'.mq.seg_queue (s.task t').queue))
    (hdistinct : task.pc.writes = true → ∀ t', t' < s.task_num → t' ≠ t →
      (s.task t').pc.writes = true → (s.task t').queue ≠ task.queue) :
    TasksOk content P L g' s' where
  each := by
    intro t' ht'
    rw [hnum] at ht'
    rw [htask]
    by_cases htt : t' = t
    · rw [htt, Function.update_self]
      exact hok
    · rw [Function.update_of_ne htt]
      exact (h.each t' ht').frame htotal hb fun hw k hk => hqueue t' k ht' htt hw hk
  distinct := by
    rw [hnum, htask]
    intro t₁ t₂ h₁ h₂ hw₁ hw₂ hq
    -- two writers of one queue: both are `t`, one of them is, or neither is
    by_cases ht₁ : t₁ = t <;> by_cases ht₂ : t₂ = t
    · rw [ht₁, ht₂]
    · subst ht₁
      rw [Function.update_self] at hw₁ hq
      rw [Function.update_of_ne ht₂] at hw₂ hq
      exact absurd hq.symm (hdistinct hw₁ t₂ h₂ ht₂ hw₂)
    · subst ht₂
      rw [Function.update_self] at hw₂ hq
      rw [Function.update_of_ne ht₁] at hw₁ hq
      exact absurd hq (hdistinct hw₂ t₁ h₁ ht₁ hw₁)
    · rw [Function.update_of_ne ht₁] at hw₁ hq
      rw [Function.update_of_ne ht₂] at hw₂ hq
      exact h.distinct t₁ t₂ h₁ h₂ hw₁ hw₂ hq

theorem NextJob.frame (h : NextJob P L g s) (hjob : s'.p_job_desc = s.p_job_desc)
    (hb : g'.b = g.b) : NextJob P L g' s' := by
  unfold NextJob
  rw [hjob, hb]
  exact h

/-- The scheduler when it does not step. -/
theorem SchedOk.frame (h : SchedOk P L g s) (hsched : s'.sched = s.sched)
    (hjob : s'.p_job_desc = s.p_job_desc) (hnum : s'.task_num = s.task_num)
    (htotal : s'.mq.total = s.mq.total) (ha : g'.a = g.a) (hb : g'.b = g.b)
    (hidle : ∀ t, (s.task t).pc = .idle → (s'.task t).pc = .idle)
    (halone : ∀ t, t < s.task_num → (s'.task t).pc.writes = true →
      (s.task t).pc.writes = true ∧ (s'.task t).queue = (s.task t).queue)
    (hqueue : ∀ t q step, s.sched = .assigning t q step → g'.role q = g.role q ∧
      (s'.mq.seg_queue q).write_pos = (s.mq.seg_queue q).write_pos ∧
      (s'.mq.seg_queue q).complete_job_flag = (s.mq.seg_queue q).complete_job_flag ∧
      (s'.mq.seg_queue q).cur_range = (s.mq.seg_queue q).cur_range ∧
      (g.role q = .taking → (s'.mq.seg_queue q).read_pos = (s.mq.seg_queue q).read_pos)) :
    SchedOk P L g' s' := by
  unfold SchedOk at h ⊢
  rw [hsched]
  cases hpc : s.sched with
  | findTask =>
    rw [hpc] at h
    exact ⟨by rw [ha, hb]; exact h.1, h.2.frame hjob hb⟩
  | nextJob t =>
    rw [hpc] at h
    exact ⟨by rw [ha, hb]; exact h.1, h.2.1.frame hjob hb, by rw [hnum]; exact h.2.2.1,
      hidle t h.2.2.2⟩
  | takeQueue t =>
    rw [hpc] at h
    exact ⟨by rw [ha, hb]; exact h.1, h.2.1.frame hjob hb, by rw [hnum]; exact h.2.2.1,
      hidle t h.2.2.2.1, by rw [hjob]; exact h.2.2.2.2⟩
  | assigning t q step =>
    rw [hpc] at h
    obtain ⟨ht, hpc', hsome, hq, hstep⟩ := h
    obtain ⟨hrole, hwp, hcomplete, hrange, hrp⟩ := hqueue t q step hpc
    refine ⟨by rw [hnum]; exact ht, hidle t hpc', by rw [hjob]; exact hsome,
      by rw [htotal]; exact hq, ?_⟩
    -- before the queue has its job it is in the scheduler's hands, afterwards the job's
    split at hstep
    · rw [if_pos (by assumption)]
      exact ⟨by rw [hrole]; exact hstep.role, by rw [ha, hb]; exact hstep.eq,
        hstep.next.frame hjob hb, fun h => by rw [hwp]; exact hstep.cleared.writePos h,
        fun h1 h2 => by rw [hrp hstep.role]; exact hstep.cleared.readPos h1 h2,
        fun h1 h2 h3 => by rw [hcomplete]; exact hstep.cleared.completeFlag h1 h2 h3⟩
    · rw [if_neg (by assumption)]
      obtain ⟨k, hk, hka, hkL, hkb, hranged, hat⟩ := hstep.role
      refine ⟨⟨k, by rw [hrole, hk], by rw [ha, hka], hkL, by rw [hb, hkb],
        ⟨fun h1 => by rw [hrange]; exact hranged.start_pos h1,
          fun h1 h2 => by rw [hrange]; exact hranged.end_pos h1 h2⟩, by rw [hjob]; exact hat⟩,
        by rw [hwp]; exact hstep.empty, by rw [hcomplete]; exact hstep.incomplete, ?_⟩
      -- still no task writes to it
      intro t' ht' hw
      rw [hnum] at ht'
      obtain ⟨hw', hq'⟩ := halone t' ht' hw
      rw [hq']
      exact hstep.alone t' ht' hw'

theorem TakenOk.frame (h : TakenOk g s) (hsched : s'.sched = s.sched)
    (htotal : s'.mq.total = s.mq.total)
    (hrole : ∀ q, g'.role q = .taking → g.role q = .taking) : TakenOk g' s' := by
  intro q hq hr
  rw [htotal] at hq
  rw [hsched]
  exact h q hq (hrole q hr)

/-- The reader when it does not step. -/
theorem ReaderOk.frame {reader : ReaderPc} (h : ReaderOk g mq reader) (hc : g'.c = g.c) (hr : g'.r = g.r)
    (ha : g.a ≤ g'.a) (hle : g.c ≤ g.a) (htotal : mq'.total = mq.total)
    (hcur : mq'.cur_queue = mq.cur_queue)
    (hqueue : ∀ q, q < mq.total → g.role q = .owned g.c → g'.role q = .owned g.c ∧
      (mq'.seg_queue q).read_pos = (mq.seg_queue q).read_pos ∧
      (mq.seg_queue q).write_pos ≤ (mq'.seg_queue q).write_pos) :
    ReaderOk g' mq' reader where
  rest := by
    rw [hc, hr]
    intro hca
    exact h.rest (by omega)
  cur := by
    rw [hc, hcur, htotal]
    intro hclear q hq
    obtain ⟨hlt, hrole⟩ := h.cur hclear q hq
    exact ⟨hlt, (hqueue q hlt hrole).1⟩
  copy := by
    rw [hcur]
    intro size redo n hpc
    obtain ⟨q, hq, hle'⟩ := h.copy size redo n hpc
    obtain ⟨hlt, hrole⟩ := h.cur (by rw [hpc]; intro _ _ _ h; exact nomatch h) q hq
    obtain ⟨-, hread, hwrite⟩ := hqueue q hlt hrole
    exact ⟨q, hq, by omega⟩

end Frames

end Tntsat.SmartHttp
