import Mathlib.Algebra.Group.Nat.Defs
import Mathlib.Data.List.Basic
import Tntsat.Native.SmartJobs

/-!
# The books of the job list

Two counters and a flag summarise the list: how many jobs are assigned, how many are
complete and whether all are.  They are exact after any sequence of calls, so the
short cuts of `Get_Next_Job` never hide a job.  `Reactive_Jobs` reads an end of 0 as
the end of the list, so that a seek that takes back job 0 alone takes back all.

## Key results

- `bookkept_of_run`: the books are exact in every state.
- `runCorrect_iff`: a run also leaves alone what it should exactly if no call takes
  back the jobs up to 0 while a later one is assigned or complete.
-/

namespace Tntsat.SmartHttp

/-- A job that may be handed out. -/
def DlTsSegJob.Idle (job : DlTsSegJob) : Prop :=
  job.is_assigned = false ∧ job.complete_flag = false

namespace JobsDescription

/-! ## What the books say -/

/-- The counters are exact. -/
structure Counted (d : JobsDescription) : Prop where
  assigned : d.assigned_job_num = d.job_array.countP (·.is_assigned)
  complete : d.complete_job_num = d.job_array.countP (·.complete_flag)

/-- `Get_Next_Job` returns the first job that may be handed out. -/
def NextJobCorrect (d : JobsDescription) : Prop :=
  ∀ (i : Nat) (job : DlTsSegJob), d.job_array[i]? = some job → job.Idle →
    (∀ (j : Nat) (job' : DlTsSegJob), j < i → d.job_array[j]? = some job' → ¬ job'.Idle) →
      d.getNextJob = some job

/-- The books are exact and `Get_Next_Job` finds the next job. -/
structure Bookkept (d : JobsDescription) : Prop extends Counted d where
  finish : d.finish_flag = true ↔ ∀ job ∈ d.job_array, job.complete_flag = true
  next : d.NextJobCorrect

/-- No job outside `[lo, hi]` differs. -/
def Outside (d d' : JobsDescription) (lo hi : Int) : Prop :=
  ∀ i : Nat, (i : Int) < lo ∨ hi < i → d'.job_array[i]? = d.job_array[i]?

/-- The calls that take jobs back leave the jobs outside their range alone. -/
def KeepsOthers (d : JobsDescription) : JobsCall → Prop
  | .reactive i => d.Outside (d.reactiveJob i).1 i i
  | .reactives i j => d.Outside (d.reactiveJobs i j).1 i j
  | _ => True

/-- Every job knows its place. -/
def Indexed (d : JobsDescription) : Prop :=
  ∀ (i : Nat) (job : DlTsSegJob), d.job_array[i]? = some job → job.job_index = i

/-- A list of jobs nobody has worked on, as `Gen_Jobs` returns it. -/
structure Fresh (d : JobsDescription) : Prop where
  nonempty : d.job_array ≠ []
  indexed : d.Indexed
  idle : ∀ job ∈ d.job_array, job.Idle
  assigned : d.assigned_job_num = 0
  complete : d.complete_job_num = 0
  finish : d.finish_flag = false

/-- The calls that are made: a job is given back only while it is not complete, and the
    jobs that are taken back are in the list. -/
def Allowed (d : JobsDescription) : JobsCall → Prop
  | .assignReset i => ∀ job : DlTsSegJob, d.job_array[i]? = some job → job.complete_flag = false
  | .reactive i => 0 ≤ i ∧ i < d.jobTotal
  | .reactives i j => (i : Int) ≤ j ∧ j < d.jobTotal
  | _ => True

/-- The jobs are not taken back up to 0 while a later one is assigned or complete. -/
def EndMeansEnd (d : JobsDescription) : JobsCall → Prop
  | .reactives _ j => j = 0 →
    ∀ (i : Nat) (job : DlTsSegJob), 0 < i → d.job_array[i]? = some job → job.Idle
  | _ => True

/-! ## Storing one job -/

/-- What storing a job does to a count. -/
theorem countP_set_int {p : DlTsSegJob → Bool} {l : List DlTsSegJob} {i : Nat}
    {job : DlTsSegJob} (job' : DlTsSegJob) (h : l[i]? = some job) :
    ((l.set i job').countP p : Int) =
      l.countP p - (if p job then 1 else 0) + (if p job' then 1 else 0) := by
  obtain ⟨hi, rfl⟩ := List.getElem?_eq_some_iff.mp h
  rw [List.countP_set hi]
  split
  · rename_i hp
    have hpos : 0 < l.countP p := List.countP_pos_iff.mpr ⟨l[i], List.getElem_mem hi, hp⟩
    split <;> omega
  · split <;> omega

/-- The counters stay exact when they follow the job that is stored. -/
theorem Counted.set {d d' : JobsDescription} (h : d.Counted) {i : Nat} {job job' : DlTsSegJob}
    (hi : d.job_array[i]? = some job) (harray : d'.job_array = d.job_array.set i job')
    (ha : d'.assigned_job_num = d.assigned_job_num - (if job.is_assigned then 1 else 0) +
      (if job'.is_assigned then 1 else 0))
    (hc : d'.complete_job_num = d.complete_job_num - (if job.complete_flag then 1 else 0) +
      (if job'.complete_flag then 1 else 0)) : d'.Counted where
  assigned := by rw [ha, h.assigned, harray, countP_set_int job' hi]
  complete := by rw [hc, h.complete, harray, countP_set_int job' hi]

theorem Indexed.set {d d' : JobsDescription} (h : d.Indexed) {i : Nat} {job job' : DlTsSegJob}
    (hi : d.job_array[i]? = some job) (harray : d'.job_array = d.job_array.set i job')
    (hindex : job'.job_index = job.job_index) : d'.Indexed := by
  intro j job'' hj
  rw [harray, List.getElem?_set] at hj
  split at hj
  · rename_i hij
    split at hj
    · obtain rfl := Option.some.inj hj
      rw [hindex, h i job hi, hij]
    · exact nomatch hj
  · exact h j job'' hj

/-- All jobs have a flag exactly if the counter says so. -/
theorem forall_of_countP_eq {p : DlTsSegJob → Bool} {l : List DlTsSegJob} {n : Int}
    (hn : n = l.countP p) : n = l.length ↔ ∀ job ∈ l, p job = true := by
  rw [hn, ← List.countP_eq_length]
  exact Int.ofNat_inj

/-- What every call keeps. -/
structure Inv (d : JobsDescription) : Prop extends Counted d where
  nonempty : d.job_array ≠ []
  indexed : d.Indexed
  finish : d.finish_flag = true ↔ d.complete_job_num = d.job_array.length

theorem Fresh.inv {d : JobsDescription} (h : d.Fresh) : d.Inv where
  assigned := by
    rw [h.assigned, List.countP_eq_zero.mpr fun job hjob => by simp [(h.idle job hjob).1]]
    rfl
  complete := by
    rw [h.complete, List.countP_eq_zero.mpr fun job hjob => by simp [(h.idle job hjob).2]]
    rfl
  nonempty := h.nonempty
  indexed := h.indexed
  finish := by
    have := List.length_pos_iff.mpr h.nonempty
    rw [h.finish, h.complete]
    constructor
    · simp
    · intro hlen
      omega

/-- A list in which a job is not complete is not finished. -/
theorem Counted.complete_ne {d : JobsDescription} (h : d.Counted) {i : Nat} {job : DlTsSegJob}
    (hi : d.job_array[i]? = some job) (hjob : job.complete_flag = false) :
    d.complete_job_num ≠ d.job_array.length := by
  intro heq
  have := (forall_of_countP_eq h.complete).mp heq job (List.mem_of_getElem? hi)
  simp [hjob] at this

/-! ## The next job -/

/-- The short cuts of `Get_Next_Job` are taken only when no job may be handed out. -/
theorem Inv.nextJobCorrect {d : JobsDescription} (h : d.Inv) : d.NextJobCorrect := by
  intro i job hi hidle hfirst
  have hmem : job ∈ d.job_array := List.mem_of_getElem? hi
  have hcomplete := h.toCounted.complete_ne hi hidle.2
  have hshort : ¬ (d.jobTotal = 0 ∨ (d.jobTotal : Int) = d.assigned_job_num ∨
      (d.jobTotal : Int) = d.complete_job_num ∨ d.finish_flag = true) := by
    rintro (h0 | ha | hc | hf)
    · exact h.nonempty (List.length_eq_zero_iff.mp h0)
    · have := (forall_of_countP_eq h.assigned).mp ha.symm job hmem
      simp [hidle.1] at this
    · exact hcomplete hc.symm
    · exact hcomplete (h.finish.mp hf)
  rw [getNextJob, if_neg hshort, List.find?_eq_some_iff_getElem]
  obtain ⟨hlt, rfl⟩ := List.getElem?_eq_some_iff.mp hi
  have hp : (!d.job_array[i].is_assigned && !d.job_array[i].complete_flag) = true := by
    simp [hidle.1, hidle.2]
  refine ⟨hp, i, hlt, rfl, fun j hj => ?_⟩
  have hbusy := hfirst j _ hj (List.getElem?_eq_getElem (by omega))
  cases ha : d.job_array[j].is_assigned
  · cases hc : d.job_array[j].complete_flag
    · exact absurd ⟨ha, hc⟩ hbusy
    · rfl
  · rfl

theorem Inv.bookkept {d : JobsDescription} (h : d.Inv) : d.Bookkept where
  toCounted := h.toCounted
  finish := h.finish.trans (forall_of_countP_eq h.complete)
  next := h.nextJobCorrect

/-- The job `Get_Next_Job` returns is idle and in its place. -/
theorem getNextJob_some {d : JobsDescription} (h : d.Indexed) {job : DlTsSegJob}
    (hjob : d.getNextJob = some job) : d.job_array[job.job_index]? = some job ∧ job.Idle := by
  unfold getNextJob at hjob
  split at hjob
  · exact nomatch hjob
  · have hp := List.find?_some hjob
    obtain ⟨i, hi⟩ := List.mem_iff_getElem?.mp (List.mem_of_find?_eq_some hjob)
    rw [h i job hi]
    exact ⟨hi, by simpa [DlTsSegJob.Idle] using hp⟩

/-! ## The calls on one job -/

/-- A call that stores one job keeps the invariant when it follows that job in the books. -/
theorem Inv.set {d d' : JobsDescription} (h : d.Inv) {i : Nat} {job job' : DlTsSegJob}
    (hi : d.job_array[i]? = some job) (harray : d'.job_array = d.job_array.set i job')
    (hindex : job'.job_index = job.job_index)
    (ha : d'.assigned_job_num = d.assigned_job_num - (if job.is_assigned then 1 else 0) +
      (if job'.is_assigned then 1 else 0))
    (hc : d'.complete_job_num = d.complete_job_num - (if job.complete_flag then 1 else 0) +
      (if job'.complete_flag then 1 else 0))
    (hf : d'.finish_flag = true ↔ d'.complete_job_num = d.job_array.length) : d'.Inv where
  toCounted := h.toCounted.set hi harray ha hc
  nonempty := by
    rw [harray]
    exact fun hnil => h.nonempty (by simpa using hnil)
  indexed := h.indexed.set hi harray hindex
  finish := by rw [hf, harray, List.length_set]

theorem Inv.assignJob {d : JobsDescription} (h : d.Inv) {i : Nat}
    (hidle : ∀ job : DlTsSegJob, d.job_array[i]? = some job → job.Idle) :
    (d.assignJob i).1.Inv := by
  cases hi : d.job_array[i]? with
  | none => simpa [JobsDescription.assignJob, hi] using h
  | some job =>
    obtain ⟨ha, hc⟩ := hidle job hi
    simp only [JobsDescription.assignJob, hi]
    exact h.set hi rfl rfl (by simp [setJob, ha]) (by simp [setJob, hc]) h.finish

theorem Inv.assignJobReset {d : JobsDescription} (h : d.Inv) {i : Nat}
    (hopen : ∀ job : DlTsSegJob, d.job_array[i]? = some job → job.complete_flag = false) :
    (d.assignJobReset i).1.Inv := by
  cases hi : d.job_array[i]? with
  | none => simpa [JobsDescription.assignJobReset, hi] using h
  | some job =>
    have hc := hopen job hi
    simp only [JobsDescription.assignJobReset, hi]
    split
    · rename_i ha
      exact h.set hi rfl rfl (by simp [setJob, ha]) (by simp [setJob, hc]) h.finish
    · rename_i ha
      exact h.set hi rfl rfl (by simp [setJob, ha]) (by simp [setJob, hc]) h.finish

theorem Inv.completeJob {d : JobsDescription} (h : d.Inv) (i : Nat) (result : Bool) (now : Nat) :
    (d.completeJob i result now).1.Inv := by
  cases hi : d.job_array[i]? with
  | none => simpa [JobsDescription.completeJob, hi] using h
  | some job =>
    simp only [JobsDescription.completeJob, hi]
    split
    · exact h
    · rename_i hc
      refine h.set hi rfl rfl (by simp [setJob]) (by simp [setJob, hc]) ?_
      -- the flag was not set before, since this job was open
      have hopen := h.toCounted.complete_ne hi (by simpa using hc)
      have hflag : d.finish_flag = false := by
        simpa using mt h.finish.mp hopen
      simp only [setJob, jobTotal, hflag]
      split <;> simp_all

theorem Inv.reactiveJob {d : JobsDescription} (h : d.Inv) (i : Int) :
    (d.reactiveJob i).1.Inv := by
  unfold JobsDescription.reactiveJob
  split
  · exact h
  · cases hi : d.job_array[i.toNat]? with
    | none => exact h
    | some job =>
      have hcount : ({ d.uncount job with finish_flag := false }.setJob i.toNat { job with
          complete_flag := false, is_assigned := false, success_flag := false
          begin_time := 0, end_time := 0 }).Counted :=
        h.toCounted.set hi rfl (by simp [setJob, uncount]; split <;> simp)
          (by simp [setJob, uncount]; split <;> simp)
      obtain ⟨hlt, -⟩ := List.getElem?_eq_some_iff.mp hi
      have hopen := hcount.complete_ne (i := i.toNat) (List.getElem?_set_self hlt) rfl
      refine h.set hi rfl rfl (by simp [setJob, uncount]; split <;> simp)
        (by simp [setJob, uncount]; split <;> simp) ?_
      simpa [setJob, uncount] using hopen

/-! ## Taking several jobs back -/

/-- What `Reactive_Jobs` makes of a job. -/
def reactivated (job : DlTsSegJob) : DlTsSegJob :=
  if job.complete_flag || job.is_assigned then
    { job with
      complete_flag := false, is_assigned := false, success_flag := false
      begin_time := 0, end_time := 0, pDownloadHandle := none }
  else job

theorem reactivated_idle (job : DlTsSegJob) : (reactivated job).Idle := by
  unfold reactivated DlTsSegJob.Idle
  split
  · simp
  · rename_i h
    simpa [and_comm] using h

@[simp] theorem reactivated_job_index (job : DlTsSegJob) :
    (reactivated job).job_index = job.job_index := by
  unfold reactivated
  split <;> rfl

/-- A job that stays as it is was idle. -/
theorem reactivated_eq_iff (job : DlTsSegJob) : reactivated job = job ↔ job.Idle := by
  constructor
  · intro h
    rw [← h]
    exact reactivated_idle job
  · intro h
    simp [reactivated, h.1, h.2]

/-- One round takes one job back and keeps the counters exact. -/
theorem reactiveRound_spec {d : JobsDescription} (h : d.Counted) {i : Nat} {job : DlTsSegJob}
    (hi : d.job_array[i]? = some job) :
    (d.reactiveRound i).Counted ∧
      (d.reactiveRound i).job_array = d.job_array.set i (reactivated job) := by
  unfold reactiveRound
  simp only [hi]
  split
  · rename_i hbusy
    have harray : ((d.uncount job).setJob i { job with
        complete_flag := false, is_assigned := false, success_flag := false
        begin_time := 0, end_time := 0, pDownloadHandle := none }).job_array =
          d.job_array.set i (reactivated job) := by
      rw [reactivated, if_pos hbusy]
      rfl
    exact ⟨h.set hi rfl (by simp [setJob, uncount]; split <;> simp)
      (by simp [setJob, uncount]; split <;> simp), harray⟩
  · rename_i hidle
    rw [reactivated, if_neg hidle]
    obtain ⟨hlt, rfl⟩ := List.getElem?_eq_some_iff.mp hi
    exact ⟨h, (List.set_getElem_self hlt).symm⟩

/-- The loop takes back the jobs it passes and no others, and keeps the counters exact. -/
theorem reactiveLoop_spec {d : JobsDescription} (h : d.Counted) {i n : Nat}
    (hn : i + n ≤ d.job_array.length) :
    (d.reactiveLoop i n).Counted ∧ ∀ j : Nat, (d.reactiveLoop i n).job_array[j]? =
      if i ≤ j ∧ j < i + n then d.job_array[j]?.map reactivated else d.job_array[j]? := by
  induction n generalizing d i with
  | zero => exact ⟨h, fun j => (if_neg (by omega)).symm⟩
  | succ n ih =>
    have hi : d.job_array[i]? = some d.job_array[i] := List.getElem?_eq_getElem (by omega)
    obtain ⟨hcount, harray⟩ := reactiveRound_spec h hi
    obtain ⟨hcount', hjobs⟩ := ih hcount (i := i + 1) (by rw [harray, List.length_set]; omega)
    refine ⟨hcount', fun j => ?_⟩
    rw [reactiveLoop, hjobs, harray, List.getElem?_set]
    split
    · rw [if_neg (by omega), if_pos (by omega)]
    · split
      · rename_i hij
        subst hij
        rw [if_pos (by omega), if_pos (by omega), hi]
        rfl
      · rw [if_neg (by omega)]

/-- `Reactive_Jobs` takes back the jobs up to the end that it works with. -/
theorem reactiveJobs_spec {d : JobsDescription} (h : d.Counted) {start : Nat} {stop : Int}
    (hle : start ≤ stop) (hlt : stop < d.jobTotal) :
    (d.reactiveJobs start stop).1.Counted ∧
      ∀ j : Nat, (d.reactiveJobs start stop).1.job_array[j]? =
        if start ≤ j ∧ (j : Int) ≤ d.reactiveEnd stop then d.job_array[j]?.map reactivated
        else d.job_array[j]? := by
  have hend : start ≤ d.reactiveEnd stop ∧ d.reactiveEnd stop < d.jobTotal := by
    unfold reactiveEnd
    split <;> omega
  have hn : start + (d.reactiveEnd stop + 1 - start).toNat ≤ d.job_array.length := by
    unfold jobTotal at hend
    omega
  obtain ⟨hcount, hjobs⟩ := reactiveLoop_spec h hn
  rw [reactiveJobs, if_neg (by omega)]
  refine ⟨⟨hcount.assigned, hcount.complete⟩, fun j => ?_⟩
  rw [hjobs]
  congr 1
  exact propext (by omega)

theorem Inv.reactiveJobs {d : JobsDescription} (h : d.Inv) {start : Nat} {stop : Int}
    (hle : start ≤ stop) (hlt : stop < d.jobTotal) : (d.reactiveJobs start stop).1.Inv := by
  obtain ⟨hcount, hjobs⟩ := reactiveJobs_spec h.toCounted hle hlt
  have hend : start ≤ d.reactiveEnd stop := by
    unfold reactiveEnd
    split <;> omega
  obtain ⟨job, hjob⟩ : ∃ job, d.job_array[start]? = some job :=
    ⟨_, List.getElem?_eq_getElem (show start < d.job_array.length by unfold jobTotal at hlt; omega)⟩
  have hstart : (d.reactiveJobs start stop).1.job_array[start]? = some (reactivated job) := by
    rw [hjobs, if_pos ⟨Nat.le_refl _, hend⟩, hjob]
    rfl
  have hflag : (d.reactiveJobs start stop).1.finish_flag = false := by
    rw [JobsDescription.reactiveJobs, if_neg (by omega)]
  refine ⟨hcount, ?_, ?_, ?_⟩
  · intro hnil
    simp [hnil] at hstart
  · intro j job' hj
    rw [hjobs] at hj
    split at hj
    · obtain ⟨job'', hj'', rfl⟩ := Option.map_eq_some_iff.mp hj
      rw [reactivated_job_index, h.indexed j job'' hj'']
    · exact h.indexed j job' hj
  · -- the first job of the range is open now
    rw [hflag]
    have := hcount.complete_ne hstart (reactivated_idle job).2
    simpa using this

/-- `Reactive_Job` leaves the other jobs alone. -/
theorem reactiveJob_outside (d : JobsDescription) {i : Int} (h0 : 0 ≤ i) :
    d.Outside (d.reactiveJob i).1 i i := by
  intro j hj
  rw [reactiveJob, if_neg (by omega)]
  cases hi : d.job_array[i.toNat]? with
  | none => rfl
  | some job => exact List.getElem?_set_ne (by omega)

/-- `Reactive_Jobs` leaves the other jobs alone unless the end 0 stands for the end of the
    list and there is something to take back behind job 0. -/
theorem reactiveJobs_outside_iff {d : JobsDescription} (h : d.Counted) {start : Nat} {stop : Int}
    (hle : start ≤ stop) (hlt : stop < d.jobTotal) :
    d.Outside (d.reactiveJobs start stop).1 start stop ↔
      d.EndMeansEnd (.reactives start stop) := by
  obtain ⟨-, hjobs⟩ := reactiveJobs_spec h hle hlt
  constructor
  · intro hout h0 i job hi hjob
    -- an end of 0 stands for the last job
    have hend : d.reactiveEnd stop = d.jobTotal - 1 := if_pos (.inr (by omega))
    obtain ⟨hlen, -⟩ := List.getElem?_eq_some_iff.mp hjob
    have hkept := hout i (by omega)
    rw [hjobs, if_pos ⟨by omega, by unfold jobTotal at hend; omega⟩, hjob] at hkept
    exact (reactivated_eq_iff job).mp (Option.some.inj hkept)
  · intro hend j hj
    rw [hjobs]
    split
    · rename_i hin
      -- a job outside is touched only then
      have h0 : stop = 0 := by
        have h1 : d.reactiveEnd stop ≠ stop := by omega
        by_contra hne
        exact h1 (if_neg (by omega))
      cases hjob : d.job_array[j]? with
      | none => rfl
      | some job =>
        have hidle := hend h0 j job (by omega) hjob
        rw [Option.map_some, (reactivated_eq_iff job).mpr hidle]
    · rfl

/-! ## Every call, and every run -/

/-- Every call that is made keeps the invariant. -/
theorem Inv.call {d : JobsDescription} (h : d.Inv) {c : JobsCall} (hc : d.Allowed c) :
    (d.call c).1.Inv := by
  cases c with
  | assignNext =>
    unfold JobsDescription.call
    cases hnext : d.getNextJob with
    | none => exact h
    | some job =>
      obtain ⟨hjob, hidle⟩ := getNextJob_some h.indexed hnext
      exact h.assignJob fun job' hjob' => Option.some.inj (hjob.symm.trans hjob') ▸ hidle
  | assignReset i => exact h.assignJobReset hc
  | complete i result now => exact h.completeJob i result now
  | reactive i => exact h.reactiveJob i
  | reactives start stop => exact h.reactiveJobs hc.1 hc.2

/-- A call leaves the jobs it has nothing to do with alone exactly if it does not read
    its end as the end of the list. -/
theorem keepsOthers_iff {d : JobsDescription} (h : d.Counted) {c : JobsCall} (hc : d.Allowed c) :
    d.KeepsOthers c ↔ d.EndMeansEnd c := by
  cases c with
  | reactive i => exact iff_of_true (reactiveJob_outside d hc.1) trivial
  | reactives start stop => exact reactiveJobs_outside_iff h hc.1 hc.2
  | _ => exact Iff.rfl

/-- The books are exact in every state that a run reaches. -/
theorem bookkept_of_run {d : JobsDescription} (h : d.Fresh) {calls : List JobsCall}
    (hc : jobsMachine.Always Allowed d calls) :
    jobsMachine.Always (fun d _ => d.Bookkept) d calls ∧ (jobsMachine.final d calls).Bookkept := by
  obtain ⟨hall, hfinal⟩ := Machine.always_of_invariant (M := jobsMachine) (I := Inv)
    (Q := fun d _ => d.Bookkept) (fun d c h hc => ⟨h.bookkept, h.call hc⟩) h.inv hc
  exact ⟨hall, hfinal.bookkept⟩

/-- The books are exact in every state of a run and every call leaves the jobs outside its
    range alone. -/
def RunCorrect (d : JobsDescription) (calls : List JobsCall) : Prop :=
  jobsMachine.Always (fun d c => d.Bookkept ∧ d.KeepsOthers c) d calls ∧
    (jobsMachine.final d calls).Bookkept

/-- A run is correct exactly if no call in it takes back the jobs up to 0 while a later
    job is assigned or complete. -/
theorem runCorrect_iff {d : JobsDescription} (h : d.Fresh) {calls : List JobsCall}
    (hc : jobsMachine.Always Allowed d calls) :
    d.RunCorrect calls ↔ jobsMachine.Always EndMeansEnd d calls := by
  have hinv := h.inv
  clear h
  induction calls generalizing d with
  | nil => exact iff_of_true ⟨trivial, hinv.bookkept⟩ trivial
  | cons c calls ih =>
    obtain ⟨hc, hcs⟩ := hc
    have hkeeps := keepsOthers_iff hinv.toCounted hc
    have hrest := ih hcs (hinv.call hc)
    constructor
    · rintro ⟨⟨hfirst, hall⟩, hfinal⟩
      exact ⟨hkeeps.mp hfirst.2, hrest.mp ⟨hall, hfinal⟩⟩
    · rintro ⟨hend, hends⟩
      obtain ⟨hall, hfinal⟩ := hrest.mpr hends
      exact ⟨⟨⟨hinv.bookkept, hkeeps.mpr hend⟩, hall⟩, hfinal⟩

/-- A file of two jobs. -/
def twoJobs : JobsDescription where
  job_array := [{ seg_size := 8, offset := 0, job_index := 0, job_id := 0 },
    { seg_size := 5, offset := 8, job_index := 1, job_id := 1 }]
  content_length := 13

theorem twoJobs_fresh : twoJobs.Fresh where
  nonempty := by decide
  indexed
    | 0, _, h => by cases h; rfl
    | 1, _, h => by cases h; rfl
  idle := by
    unfold DlTsSegJob.Idle
    decide
  assigned := rfl
  complete := rfl
  finish := rfl

/-- A run of the scheduler and of a seek that takes both jobs back. -/
theorem runCorrect_twoJobs :
    twoJobs.RunCorrect [.assignNext, .complete 0 true 7, .assignNext, .reactives 0 1] := by
  have hc : jobsMachine.Always Allowed twoJobs
      [.assignNext, .complete 0 true 7, .assignNext, .reactives 0 1] :=
    ⟨trivial, trivial, trivial, ⟨by decide, by decide⟩, trivial⟩
  exact (runCorrect_iff twoJobs_fresh hc).mpr
    ⟨trivial, trivial, trivial, fun h => absurd h (by decide), trivial⟩

/-- Taking back job 0 alone takes back job 1 as well. -/
theorem reactives_zero_takes_all :
    twoJobs.Fresh ∧ jobsMachine.Always Allowed twoJobs [.assignNext, .assignNext, .reactives 0 0] ∧
      ¬ twoJobs.RunCorrect [.assignNext, .assignNext, .reactives 0 0] := by
  refine ⟨twoJobs_fresh, ⟨trivial, trivial, ⟨by decide, by decide⟩, trivial⟩, fun h => ?_⟩
  have hkept := h.1.2.2.1.2 1 (.inr (by decide))
  exact absurd hkept (by decide)

end JobsDescription

end Tntsat.SmartHttp
