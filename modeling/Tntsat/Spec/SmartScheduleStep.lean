import Tntsat.Spec.SmartScheduleInv

/-!
# The steps of the scheduler and of the tasks

Every step of the scheduler keeps `Inv`, and so does every step of a task that does not
store bytes behind the front of its queue.

## Key results

- `Inv.schedStep`, `Inv.taskStep`.
-/

namespace Tntsat.SmartHttp

open SmartHttpState MultiQueueHandle

variable {content : Int → UInt8} {P L : Nat} {g : Progress} {s : SmartHttpState}

@[simp] theorem setQueue_eq_self (mq : MultiQueueHandle) (q : Nat) :
    mq.setQueue q (mq.seg_queue q) = mq := by
  simp [MultiQueueHandle.setQueue, Function.update_eq_self]

/-! ## The scheduler -/

/-- The scheduler goes somewhere and changes nothing that is shared. -/
theorem Inv.setSched (h : Inv content P L g s) {pc : SchedPc} (job : Option DlTsSegJob)
    (hsched : SchedOk P L g { s with sched := pc, p_job_desc := job })
    (htaken : TakenOk g { s with sched := pc, p_job_desc := job }) :
    Inv content P L g { s with sched := pc, p_job_desc := job } where
  len := h.len
  jobs := h.jobs
  le := h.le
  given := h.given
  queues := h.queues
  tasks := h.tasks.frame rfl rfl rfl (Nat.le_refl _) fun _ _ _ _ hk => ⟨hk, .refl _⟩
  sched := hsched
  taken := htaken
  reader := h.reader

/-- No queue is in the scheduler's hands. -/
theorem TakenOk.no_taking (h : TakenOk g s)
    (hpc : ∀ t q step, s.sched = .assigning t q step → step.beforeId = false) (q : Nat)
    (hq : q < s.mq.total) : g.role q ≠ .taking := by
  intro hrole
  obtain ⟨t, step, hstep, hbefore⟩ := h q hq hrole
  exact Bool.noConfusion ((hpc t q step hstep).symm.trans hbefore)

theorem Inv.findTask (h : Inv content P L g s) (hpc : s.sched = .findTask) :
    Inv content P L g s.schedStep := by
  have hsched := h.sched
  unfold SchedOk at hsched
  rw [hpc] at hsched
  have hno := h.taken.no_taking fun t q step he => by rw [hpc] at he; exact nomatch he
  unfold SmartHttpState.schedStep
  rw [hpc]
  dsimp only
  split
  · exact h
  · rename_i i hi
    have hlt := List.mem_range.mp (List.mem_of_find?_eq_some hi)
    have hidle := List.find?_some hi
    exact h.setSched s.p_job_desc ⟨hsched.1, hsched.2, hlt, of_decide_eq_true hidle⟩
      fun q hq hr => absurd hr (hno q hq)

theorem Inv.nextJob (h : Inv content P L g s) {i : Nat} (hpc : s.sched = .nextJob i) :
    Inv content P L g s.schedStep := by
  have hsched := h.sched
  unfold SchedOk at hsched
  rw [hpc] at hsched
  obtain ⟨hab, hnext, hi, hidle⟩ := hsched
  have hno := h.taken.no_taking fun t q step he => by rw [hpc] at he; exact nomatch he
  unfold SmartHttpState.schedStep
  rw [hpc]
  dsimp only
  split
  · rename_i job hjob
    exact h.setSched s.p_job_desc ⟨hab, hnext, hi, hidle, by rw [hjob]; exact nofun⟩
      fun q hq hr => absurd hr (hno q hq)
  · split
    · exact h.setSched s.p_job_desc ⟨hab, hnext⟩ fun q hq hr => absurd hr (hno q hq)
    · rename_i job hjob
      obtain ⟨hat, hb⟩ := h.jobs.next hjob
      obtain ⟨hlt, -⟩ := List.getElem?_eq_some_iff.mp hb
      refine h.setSched (some job) ⟨hab, ?_, hi, hidle, nofun⟩
        fun q hq hr => absurd hr (hno q hq)
      intro job' hjob'
      obtain rfl := Option.some.inj hjob'
      exact ⟨hat, (h.jobs.cut.lt_length_iff g.b).mp hlt⟩

/-- `mutiQueue_take_one_queue` marks a queue as used. -/
theorem Inv.takeQueue (h : Inv content P L g s) {i : Nat} (hpc : s.sched = .takeQueue i) :
    ∃ g', g'.c = g.c ∧ g'.r = g.r ∧ Inv content P L g' s.schedStep := by
  have hsched := h.sched
  unfold SchedOk at hsched
  rw [hpc] at hsched
  obtain ⟨hab, hnext, hi, hidle, hjob⟩ := hsched
  have hno := h.taken.no_taking fun t q step he => by rw [hpc] at he; exact nomatch he
  unfold SmartHttpState.schedStep
  rw [hpc]
  dsimp only
  split
  -- every queue is used, and the scheduler gives up for this round
  · exact ⟨g, rfl, rfl,
      h.setSched s.p_job_desc ⟨hab, hnext⟩ fun q hq hr => absurd hr (hno q hq)⟩
  · rename_i q hq
    -- the queue found is nobody's: an owned one carries the mark, and none is being taken
    obtain ⟨hlt, hunused⟩ := firstUnused_some hq
    have hfree : g.role q = .free := by
      have hok := h.queues.each q hlt
      cases hrole : g.role q with
      | free => rfl
      | taking => exact absurd hrole (hno q hlt)
      | owned k =>
        rw [hrole] at hok
        exact Bool.noConfusion (hunused.symm.trans hok.used)
    have hne : ∀ j k, g.role j = .owned k → j ≠ q := by
      rintro j k hk rfl
      exact nomatch hfree.symm.trans hk
    -- from here on the queue is in the scheduler's hands
    refine ⟨g.setRole q .taking, rfl, rfl, h.len, h.jobs, h.le, h.given, ?_, ?_, ?_, ?_, ?_⟩
    · refine h.queues.setRole rfl rfl (fun j hj _ => (h.queues.each j hj).mono
        (Nat.le_refl _) fun k hk => ?_) (fun k j hk => nomatch hk) fun k hc ha => ?_
      · have hok := h.queues.owned hj hk
        exact ⟨hok.ge, hok.read⟩
      · obtain ⟨j, hj, hk⟩ := h.queues.exist k hc ha
        exact .inr ⟨j, hj, hne j k hk, hk⟩
    · refine h.tasks.frame rfl rfl rfl (Nat.le_refl _) fun t k _ _ hk => ?_
      have := hne _ k hk
      exact ⟨by rw [setRole_of_ne _ _ this]; exact hk,
        by show SameFill _ ((s.mq.setQueue q _).seg_queue _)
           rw [setQueue_of_ne _ _ this]; exact .refl _⟩
    -- nothing of the old contents is cleared yet
    · exact ⟨hi, hidle, hjob, hlt, setRole_self .., hab, hnext, fun h => absurd rfl h,
        fun h => absurd rfl h, fun h => absurd rfl h⟩
    · intro j hj hr
      by_cases hjq : j = q
      · subst hjq
        exact ⟨i, .writePos, rfl, rfl⟩
      · rw [setRole_of_ne _ _ hjq] at hr
        exact absurd hr (hno j hj)
    -- the reader's queue is owned, so it is another one
    · refine h.reader.frame rfl rfl (Nat.le_refl _) h.le rfl rfl fun j _ hk => ?_
      have := hne j _ hk
      rw [setRole_of_ne _ _ this]
      show _ ∧ ((s.mq.setQueue q _).seg_queue j).read_pos = _ ∧
        _ ≤ ((s.mq.setQueue q _).seg_queue j).write_pos
      rw [setQueue_of_ne _ _ this]
      exact ⟨hk, rfl, Nat.le_refl _⟩

/-- An assignment to the queue that was taken, but for the last two. -/
theorem schedStep_assigning {i q : Nat} {step next : AssignStep} {job : DlTsSegJob}
    (hpc : s.sched = .assigning i q step) (hjob : s.p_job_desc = some job)
    (hnext : step.next = some next) (hne : step ≠ .assignJob) :
    s.schedStep = { s.setQueue q (storeQueue job (s.mq.seg_queue q) step) with
      sched := .assigning i q next } := by
  unfold SmartHttpState.schedStep
  rw [hpc, hjob]
  dsimp only
  rw [hnext]
  dsimp only
  rw [if_neg hne]

/-- Each assignment clears what it is to clear. -/
theorem Cleared.next {queue : DataSegmentQueue} {step : AssignStep} (h : Cleared queue step)
    (hbefore : step.beforeId = true) (hid : step ≠ .jobId) (job : DlTsSegJob) :
    ∃ next, step.next = some next ∧ next.beforeId = true ∧
      Cleared (storeQueue job queue step) next := by
  cases step with
  | writePos => exact ⟨_, rfl, rfl, fun _ => rfl, fun _ h => absurd rfl h, fun _ h => absurd rfl h⟩
  | readPos =>
    exact ⟨_, rfl, rfl, fun _ => h.writePos nofun, fun _ _ => rfl, fun _ _ h => absurd rfl h⟩
  | completeFlag =>
    exact ⟨_, rfl, rfl, fun _ => h.writePos nofun, fun _ _ => h.readPos nofun nofun,
      fun _ _ _ => rfl⟩
  | noRangeEnd =>
    exact ⟨_, rfl, rfl, fun _ => h.writePos nofun, fun _ _ => h.readPos nofun nofun,
      fun _ _ _ => h.completeFlag nofun nofun nofun⟩
  | noRangeStart =>
    exact ⟨_, rfl, rfl, fun _ => h.writePos nofun, fun _ _ => h.readPos nofun nofun,
      fun _ _ _ => h.completeFlag nofun nofun nofun⟩
  | jobId => exact absurd rfl hid
  | rangeStart | rangeEnd | assignJob | assignTask => exact nomatch hbefore

/-- The assignments leave the mark alone. -/
theorem storeQueue_used (job : DlTsSegJob) (queue : DataSegmentQueue) (step : AssignStep) :
    (storeQueue job queue step).used_flag = queue.used_flag := by
  cases step <;> rfl

/-- The rest of `mutiQueue_take_one_queue` clears the queue. -/
theorem Inv.clearQueue (h : Inv content P L g s) {i q : Nat} {step : AssignStep}
    (hpc : s.sched = .assigning i q step) (hbefore : step.beforeId = true)
    (hid : step ≠ .jobId) : Inv content P L g s.schedStep := by
  have hsched := h.sched
  unfold SchedOk at hsched
  rw [hpc] at hsched
  obtain ⟨hi, hidle, hsome, hq, hstep⟩ := hsched
  rw [if_pos hbefore] at hstep
  obtain ⟨job, hjob⟩ := Option.ne_none_iff_exists'.mp hsome
  obtain ⟨next, hnext, hbefore', hcleared⟩ := hstep.cleared.next hbefore hid job
  have hused := storeQueue_used job (s.mq.seg_queue q) step
  rw [schedStep_assigning hpc hjob hnext (by rintro rfl; exact nomatch hbefore)]
  generalize storeQueue job (s.mq.seg_queue q) step = queue at hcleared hused
  -- the queue being cleared is nobody's
  have hne : ∀ j k, g.role j = .owned k → j ≠ q := by
    rintro j k hk rfl
    exact nomatch hstep.role.symm.trans hk
  have hother : ∀ j k, g.role j = .owned k →
      (s.mq.setQueue q queue).seg_queue j = s.mq.seg_queue j :=
    fun j k hk => setQueue_of_ne _ _ (hne j k hk)
  refine ⟨h.len, h.jobs, h.le, h.given, h.queues.setQueue ?_, ?_, ?_, ?_, ?_⟩
  · have hok := h.queues.each q hq
    rw [hstep.role] at hok ⊢
    exact hused.trans hok
  · exact h.tasks.frame rfl rfl rfl (Nat.le_refl _) fun t k _ _ hk =>
      ⟨hk, by
        show SameFill _ ((s.mq.setQueue q queue).seg_queue _)
        rw [hother _ k hk]
        exact .refl _⟩
  · refine ⟨hi, hidle, hsome, hq, ?_⟩
    rw [if_pos hbefore']
    refine ⟨hstep.role, hstep.eq, hstep.next, ?_⟩
    show Cleared ((s.mq.setQueue q queue).seg_queue q) next
    rw [setQueue_self]
    exact hcleared
  -- the same queue is still in the scheduler's hands
  · intro j hj hr
    obtain ⟨t, step', hstep', -⟩ := h.taken j hj hr
    rw [hpc] at hstep'
    injection hstep' with _ hqj _
    exact ⟨i, next, by rw [hqj], hbefore'⟩
  · refine h.reader.frame rfl rfl (Nat.le_refl _) h.le rfl rfl fun j _ hk => ?_
    show _ ∧ ((s.mq.setQueue q queue).seg_queue j).read_pos = _ ∧
      _ ≤ ((s.mq.setQueue q queue).seg_queue j).write_pos
    rw [hother j _ hk]
    exact ⟨hk, rfl, Nat.le_refl _⟩

/-- `set_queue_job_id` gives the next job to the queue that was taken. -/
theorem Inv.giveJob (h : Inv content P L g s) {i q : Nat}
    (hpc : s.sched = .assigning i q .jobId) :
    ∃ g', g'.c = g.c ∧ g'.r = g.r ∧ Inv content P L g' s.schedStep := by
  have hsched := h.sched
  unfold SchedOk at hsched
  rw [hpc] at hsched
  obtain ⟨hi, hidle, hsome, hq, hstep⟩ := hsched
  replace hstep : Taking P L g s q .jobId := hstep
  obtain ⟨job, hjob⟩ := Option.ne_none_iff_exists'.mp hsome
  obtain ⟨hat, hb⟩ := hstep.next job hjob
  rw [schedStep_assigning hpc hjob rfl nofun]
  -- the queue that was taken belongs to no job yet, so every owned queue is another one
  have hne : ∀ j k, g.role j = .owned k → j ≠ q := by
    rintro j k hk rfl
    exact nomatch hstep.role.symm.trans hk
  set queue : DataSegmentQueue := storeQueue job (s.mq.seg_queue q) .jobId with hqueue
  have hother : ∀ j k, g.role j = .owned k →
      (s.mq.setQueue q queue).seg_queue j = s.mq.seg_queue j :=
    fun j k hk => setQueue_of_ne _ _ (hne j k hk)
  -- the assignments before this one have cleared the queue
  have hwrite : queue.write_pos = 0 := hstep.cleared.writePos nofun
  have hread : queue.read_pos = 0 := hstep.cleared.readPos nofun nofun
  have hcomplete : queue.complete_job_flag = false := hstep.cleared.completeFlag nofun nofun nofun
  have hused : (s.mq.seg_queue q).used_flag = true := by
    have hok := h.queues.each q hq
    rw [hstep.role] at hok
    exact hok
  -- the reader is at byte 0 of the job: before it was given out it cannot have been read
  have hrest : (if g.a = g.c then g.r else 0) = 0 := by
    split
    · exact h.reader.rest (by omega)
    · rfl
  -- job `g.a` becomes the queue's, and the next job to give is the one after it
  refine ⟨{ g.setRole q (.owned g.a) with a := g.a + 1 }, rfl, rfl, h.len, h.jobs,
    Nat.le_succ_of_le h.le, ?_, ?_, ?_, ?_, ?_, ?_⟩
  -- the jobs given so far are those below `g.a + 1`
  · intro k hk
    rcases Nat.lt_or_eq_of_le (Nat.le_of_lt_succ hk) with hk | rfl
    · exact h.given k hk
    · rw [hstep.eq]
      exact hb
  -- the queues: the new owner is empty, and no other queue has its job
  · refine h.queues.setRole rfl ?_ (fun j hj _ => (h.queues.each j hj).mono
      (Nat.le_succ _) fun k hk => ?_) (fun k j hk hj _ hk' => ?_) fun k hc ha => ?_
    · exact
        { used := hused
          id := by rw [hstep.eq, ← hat.id]; rfl
          ge := h.le
          lt := Nat.lt_succ_self _
          read := hread.trans hrest.symm
          read_le := by rw [hread]; exact Nat.zero_le _
          write_le := by rw [hwrite]; exact Nat.zero_le _
          data := by rw [hwrite]; exact fun i hi => absurd hi (Nat.not_lt_zero i)
          whole := by rw [hcomplete]; exact nofun
          range := by rw [hwrite]; exact fun h => absurd h (Nat.lt_irrefl 0) }
    · have hok := h.queues.owned hj hk
      exact ⟨hok.ge, hok.read⟩
    · injection hk with hk
      have := (h.queues.owned hj hk').lt
      omega
    · rcases Nat.lt_or_eq_of_le (Nat.le_of_lt_succ ha) with ha | rfl
      · obtain ⟨j, hj, hk⟩ := h.queues.exist k hc ha
        exact .inr ⟨j, hj, hne j k hk, hk⟩
      · exact .inl ⟨hq, rfl⟩
  -- no task writes to this queue
  · refine h.tasks.frame rfl rfl rfl (Nat.le_refl _) fun t k _ _ hk => ?_
    have := hne _ k hk
    exact ⟨(setRole_of_ne g _ this).trans hk,
      by show SameFill _ ((s.mq.setQueue q queue).seg_queue _); rw [hother _ k hk]; exact .refl _⟩
  -- the scheduler goes on to the range
  · refine ⟨hi, hidle, hsome, hq, ?_⟩
    show Given P L _ _ q .rangeStart
    refine ⟨⟨g.a, setRole_self .., rfl, ?_, ?_, ⟨fun h => absurd rfl h, fun h => absurd rfl h⟩, ?_⟩,
      ?_, ?_, ?_⟩
    · rw [hstep.eq]
      exact hb
    · exact hstep.eq.symm
    · intro job' hjob'
      rw [hstep.eq]
      exact (hstep.next job' hjob').1
    · show ((s.mq.setQueue q queue).seg_queue q).write_pos = 0
      rw [setQueue_self, hwrite]
    · show ((s.mq.setQueue q queue).seg_queue q).complete_job_flag = false
      rw [setQueue_self, hcomplete]
    · intro t ht hw
      obtain ⟨k, hk⟩ := (h.tasks.each t ht).writing hw
      exact hne _ k hk.role
  -- no queue is in the scheduler's hands any more
  · intro j hj hr
    by_cases hjq : j = q
    · subst hjq
      exact nomatch (setRole_self g j _).symm.trans hr
    · obtain ⟨t, step', hstep', -⟩ := h.taken j hj ((setRole_of_ne g _ hjq).symm.trans hr)
      rw [hpc] at hstep'
      injection hstep' with _ hqj _
      exact absurd hqj.symm hjq
  -- the reader's queue is another one
  · refine h.reader.frame rfl rfl (Nat.le_succ _) h.le rfl rfl fun j _ hk => ?_
    show _ ∧ ((s.mq.setQueue q queue).seg_queue j).read_pos = _ ∧
      _ ≤ ((s.mq.setQueue q queue).seg_queue j).write_pos
    rw [hother j _ hk]
    exact ⟨(setRole_of_ne g _ (hne j _ hk)).trans hk, rfl, Nat.le_refl _⟩

/-- Each assignment of a range gives the queue what it is to have. -/
theorem Ranged.next {queue : DataSegmentQueue} {k : Nat} {step next : AssignStep}
    {job : DlTsSegJob} (h : Ranged P L queue k step) (hat : job.At P L k)
    (hrange : step = .rangeStart ∨ step = .rangeEnd) (hnext : step.next = some next) :
    Ranged P L (storeQueue job queue step) k next := by
  obtain rfl | rfl := hrange
  · obtain rfl := Option.some.inj hnext
    exact ⟨fun _ => hat.offset, fun _ hne => absurd rfl hne⟩
  · obtain rfl := Option.some.inj hnext
    refine ⟨fun _ => h.start_pos nofun, fun _ _ => ?_⟩
    show job.offset + job.seg_size - 1 = _
    rw [hat.offset, hat.size]
    rfl

/-- `set_queue_range`. -/
theorem Inv.setRange (h : Inv content P L g s) {i q : Nat} {step : AssignStep}
    (hpc : s.sched = .assigning i q step) (hrange : step = .rangeStart ∨ step = .rangeEnd) :
    Inv content P L g s.schedStep := by
  have hsched := h.sched
  unfold SchedOk at hsched
  rw [hpc] at hsched
  obtain ⟨hi, hidle, hsome, hq, hstep⟩ := hsched
  replace hstep : Given P L g s q step := by rcases hrange with rfl | rfl <;> exact hstep
  obtain ⟨job, hjob⟩ := Option.ne_none_iff_exists'.mp hsome
  obtain ⟨next, hnext, hafter, hlast⟩ : ∃ next, step.next = some next ∧ next.beforeId = false ∧
      next ≠ .assignTask := by
    rcases hrange with rfl | rfl <;> exact ⟨_, rfl, rfl, nofun⟩
  -- the queue already has its job; only its range changes
  obtain ⟨k, hrole, hka, hkL, hkb, hranged, hat⟩ := hstep.role
  have hranged' := hranged.next (hat job hjob) hrange hnext
  obtain ⟨range, hqueue⟩ : ∃ range, storeQueue job (s.mq.seg_queue q) step =
      { s.mq.seg_queue q with cur_range := range } := by
    rcases hrange with rfl | rfl <;> exact ⟨_, rfl⟩
  rw [schedStep_assigning hpc hjob hnext (by rcases hrange with rfl | rfl <;> nofun), hqueue]
  rw [hqueue] at hranged'
  set queue := { s.mq.seg_queue q with cur_range := range } with hqueue'
  -- every queue keeps all but its range
  have hsame : ∀ j, ∃ range', (s.mq.setQueue q queue).seg_queue j =
      { s.mq.seg_queue j with cur_range := range' } := by
    intro j
    by_cases hjq : j = q
    · subst hjq
      exact ⟨range, setQueue_self ..⟩
    · exact ⟨(s.mq.seg_queue j).cur_range, setQueue_of_ne _ _ hjq⟩
  refine ⟨h.len, h.jobs, h.le, h.given, h.queues.setQueue ?_, ?_, ?_, ?_, ?_⟩
  -- the range matters to the queue only once it holds bytes
  · have hok := h.queues.owned hq hrole
    rw [hrole]
    exact ⟨hok.used, hok.id, hok.ge, hok.lt, hok.read, hok.read_le, hok.write_le, hok.data,
      hok.whole, fun hpos => absurd hstep.empty (Nat.ne_of_gt hpos)⟩
  -- no task writes to a queue that is still being given its job
  · refine h.tasks.frame rfl rfl rfl (Nat.le_refl _) fun t k ht hw hk => ⟨hk, ?_⟩
    show SameFill _ ((s.mq.setQueue q queue).seg_queue _)
    rw [setQueue_of_ne _ _ (hstep.alone t ht hw)]
    exact .refl _
  -- the scheduler's own progress
  · refine ⟨hi, hidle, hsome, hq, ?_⟩
    rw [if_neg (by rw [hafter]; nofun)]
    refine ⟨⟨k, hrole, hka, hkL, ?_, ?_, hat⟩, ?_, ?_, hstep.alone⟩
    · rw [if_neg hlast, hkb, if_neg (by rcases hrange with rfl | rfl <;> nofun)]
    · show Ranged P L ((s.mq.setQueue q queue).seg_queue q) k next
      rw [setQueue_self]
      exact hranged'
    · show ((s.mq.setQueue q queue).seg_queue q).write_pos = 0
      rw [setQueue_self]
      exact hstep.empty
    · show ((s.mq.setQueue q queue).seg_queue q).complete_job_flag = false
      rw [setQueue_self]
      exact hstep.incomplete
  -- a queue is in the scheduler's hands only before it has its job
  · intro j hj hr
    obtain ⟨t, step', hstep', hbefore⟩ := h.taken j hj hr
    rw [hpc] at hstep'
    injection hstep' with _ _ hs
    subst hs
    rcases hrange with rfl | rfl <;> exact nomatch hbefore
  · refine h.reader.frame rfl rfl (Nat.le_refl _) h.le rfl rfl fun j _ hk => ⟨hk, ?_⟩
    obtain ⟨range', hj⟩ := hsame j
    show ((s.mq.setQueue q queue).seg_queue j).read_pos = _ ∧
      _ ≤ ((s.mq.setQueue q queue).seg_queue j).write_pos
    rw [hj]
    exact ⟨rfl, Nat.le_refl _⟩

/-- `Assign_Job`. -/
theorem Inv.assignJob (h : Inv content P L g s) {i q : Nat}
    (hpc : s.sched = .assigning i q .assignJob) :
    ∃ g', g'.c = g.c ∧ g'.r = g.r ∧ Inv content P L g' s.schedStep := by
  have hsched := h.sched
  unfold SchedOk at hsched
  rw [hpc] at hsched
  obtain ⟨hi, hidle, hsome, hq, hstep⟩ := hsched
  replace hstep : Given P L g s q .assignJob := hstep
  obtain ⟨job, hjob⟩ := Option.ne_none_iff_exists'.mp hsome
  obtain ⟨k, hrole, hka, hkL, hkb, hranged, hat⟩ := hstep.role
  rw [if_neg nofun] at hkb
  subst hkb
  -- the job of the queue is the next one to assign, so `b` moves behind it
  have hs : s.schedStep = { s with
      sched := .assigning i q .assignTask
      jobs := (s.jobs.assignJob g.b).1 } := by
    unfold SmartHttpState.schedStep
    rw [hpc, hjob]
    simp [AssignStep.next, storeQueue, SmartHttpState.setQueue, hjob,
      (hat job hjob).index]
  rw [hs]
  refine ⟨{ g with b := g.b + 1 }, rfl, rfl, h.len, h.jobs.assign hkL, h.le, h.given, ⟨fun j hj =>
    (h.queues.each j hj).mono (Nat.le_refl _) fun k hk => ?_, h.queues.unique, h.queues.exist⟩,
    ?_, ?_, ?_, ?_⟩
  -- no queue is touched
  · have hok := h.queues.owned hj hk
    exact ⟨hok.ge, hok.read⟩
  · exact h.tasks.frame rfl rfl rfl (Nat.le_succ _) fun _ _ _ _ hk => ⟨hk, .refl _⟩
  · refine ⟨hi, hidle, hsome, hq, ?_⟩
    show Given P L _ _ q .assignTask
    exact ⟨⟨g.b, hrole, hka, hkL, by rw [if_pos rfl],
      ⟨fun _ => hranged.start_pos nofun, fun _ _ => hranged.end_pos nofun nofun⟩, hat⟩,
      hstep.empty, hstep.incomplete, hstep.alone⟩
  · intro j hj hr
    obtain ⟨t, step', hstep', hbefore⟩ := h.taken j hj hr
    rw [hpc] at hstep'
    injection hstep' with _ _ hs
    subst hs
    exact nomatch hbefore
  · exact h.reader.frame rfl rfl (Nat.le_refl _) h.le rfl rfl fun j _ hk =>
      ⟨hk, rfl, Nat.le_refl _⟩

/-- `Assign_Download_Task`. -/
theorem Inv.assignTask (h : Inv content P L g s) {i q : Nat}
    (hpc : s.sched = .assigning i q .assignTask) : Inv content P L g s.schedStep := by
  have hsched := h.sched
  unfold SchedOk at hsched
  rw [hpc] at hsched
  obtain ⟨hi, hidle, hsome, hq, hstep⟩ := hsched
  replace hstep : Given P L g s q .assignTask := hstep
  obtain ⟨job, hjob⟩ := Option.ne_none_iff_exists'.mp hsome
  obtain ⟨k, hrole, hka, hkL, hkb, hranged, hat⟩ := hstep.role
  rw [if_pos rfl] at hkb
  -- the task is pointed at the queue and the job at hand forgotten
  have hs : s.schedStep = { s.setTask i (assignDownloadTask q job) with
      sched := .findTask
      p_job_desc := none } := by
    unfold SmartHttpState.schedStep
    rw [hpc, hjob]
    simp [AssignStep.next, storeQueue, SmartHttpState.setQueue]
  -- the queue has its job, so none is in the scheduler's hands
  have hno : ∀ j, j < s.mq.total → g.role j ≠ .taking := h.taken.no_taking fun t j step he => by
    rw [hpc] at he
    injection he with _ _ hs
    rw [← hs]
    rfl
  rw [hs]
  refine ⟨h.len, h.jobs, h.le, h.given, h.queues, ?_, ?_, fun j hj hr => absurd hr (hno j hj),
    h.reader⟩
  · refine h.tasks.setTask rfl rfl rfl (Nat.le_refl _) ⟨fun _ => ⟨k, ?_⟩, nofun⟩
      (fun t _ _ _ _ hk => ⟨hk, .refl _⟩) fun _ t ht _ hw => hstep.alone t ht hw
    -- the task starts at the front of its job, with nothing read
    have hjob' := hat job hjob
    exact
      { lt_total := hq
        role := hrole
        assigned := by omega
        offset := hjob'.offset
        size := by
          show job.seg_size.toNat = _
          rw [hjob'.size, Int.toNat_natCast]
        total := hstep.empty.symm
        total_le := Nat.zero_le _
        buf := by rintro (hpc | ⟨n, hpc⟩) <;> exact nomatch hpc
        received := nofun
        done := nofun
        incomplete := hstep.incomplete
        range := FileRange.ext (hranged.start_pos nofun) (hranged.end_pos nofun nofun) }
  · exact ⟨by omega, nofun⟩

/-- Every step of the scheduler keeps the invariant. -/
theorem Inv.schedStep (h : Inv content P L g s) :
    ∃ g', g'.c = g.c ∧ g'.r = g.r ∧ Inv content P L g' s.schedStep := by
  cases hpc : s.sched with
  | findTask => exact ⟨g, rfl, rfl, h.findTask hpc⟩
  | nextJob i => exact ⟨g, rfl, rfl, h.nextJob hpc⟩
  | takeQueue i => exact h.takeQueue hpc
  | assigning i q step =>
    cases step with
    | jobId => exact h.giveJob hpc
    | rangeStart => exact ⟨g, rfl, rfl, h.setRange hpc (.inl rfl)⟩
    | rangeEnd => exact ⟨g, rfl, rfl, h.setRange hpc (.inr rfl)⟩
    | assignJob => exact h.assignJob hpc
    | assignTask => exact ⟨g, rfl, rfl, h.assignTask hpc⟩
    | _ => exact ⟨g, rfl, rfl, h.clearQueue hpc rfl nofun⟩

/-! ## The tasks -/

/-- A task that writes job `k` steps, and fills its queue further. -/
theorem Inv.fillQueue (h : Inv content P L g s) {t k : Nat} {queue : DataSegmentQueue}
    (task : DownloadTask) (ht : t < s.task_num) (hw : (s.task t).pc.writes = true)
    (hrole : g.role (s.task t).queue = .owned k) (hqueue : Owned content P L g queue k)
    (hread : queue.read_pos = (s.mq.seg_queue (s.task t).queue).read_pos)
    (hwrite : (s.mq.seg_queue (s.task t).queue).write_pos ≤ queue.write_pos)
    (htask : TaskOk content P L g (s.mq.setQueue (s.task t).queue queue) task)
    (hsame : task.queue = (s.task t).queue) :
    Inv content P L g ((s.setQueue (s.task t).queue queue).setTask t task) := by
  have hidle : ∀ j, (s.task j).pc = .idle → j ≠ t := by
    rintro j hj rfl
    rw [hj] at hw
    exact nomatch hw
  have hlt : (s.task t).queue < s.mq.total := by
    obtain ⟨k, hk⟩ := (h.tasks.each t ht).writing hw
    exact hk.lt_total
  refine ⟨h.len, h.jobs, h.le, h.given, h.queues.setQueue (by rw [hrole]; exact hqueue), ?_, ?_,
    h.taken, ?_⟩
  · refine h.tasks.setTask rfl rfl rfl (Nat.le_refl _) htask (fun j k' hj hjt hwj hk => ⟨hk, ?_⟩)
      fun _ j hj hjt hwj hq => hjt (h.tasks.distinct j t hj ht hwj hw (hq.trans hsame))
    have hne : (s.task j).queue ≠ (s.task t).queue :=
      fun hq => hjt (h.tasks.distinct j t hj ht hwj hw hq)
    show SameFill _ ((s.mq.setQueue _ queue).seg_queue _)
    rw [setQueue_of_ne _ _ hne]
    exact .refl _
  · refine h.sched.frame rfl rfl rfl rfl rfl rfl (fun j hj => ?_) (fun j hj hwj => ?_)
      fun i q step hpc => ?_
    · show (Function.update s.task t task j).pc = .idle
      rw [Function.update_of_ne (hidle j hj)]
      exact hj
    · by_cases hjt : j = t
      · subst hjt
        refine ⟨hw, ?_⟩
        show (Function.update s.task j task j).queue = _
        rw [Function.update_self, hsame]
      · have heq : ((s.setQueue (s.task t).queue queue).setTask t task).task j = s.task j :=
          Function.update_of_ne hjt ..
        rw [heq] at hwj ⊢
        exact ⟨hwj, rfl⟩
    · -- the scheduler does not hold the queue of a task
      have hne : q ≠ (s.task t).queue := by
        rintro rfl
        have hsched := h.sched
        unfold SchedOk at hsched
        rw [hpc] at hsched
        obtain ⟨-, -, -, -, hstep⟩ := hsched
        split at hstep
        · exact nomatch hstep.role.symm.trans hrole
        · exact hstep.alone t ht hw rfl
      show _ ∧ ((s.mq.setQueue _ queue).seg_queue q).write_pos = _ ∧
        ((s.mq.setQueue _ queue).seg_queue q).complete_job_flag = _ ∧
        ((s.mq.setQueue _ queue).seg_queue q).cur_range = _ ∧
        (_ → ((s.mq.setQueue _ queue).seg_queue q).read_pos = _)
      rw [setQueue_of_ne _ _ hne]
      exact ⟨rfl, rfl, rfl, rfl, fun _ => rfl⟩
  · refine h.reader.frame rfl rfl (Nat.le_refl _) h.le rfl rfl fun j _ hk => ⟨hk, ?_⟩
    show ((s.mq.setQueue _ queue).seg_queue j).read_pos = _ ∧
      _ ≤ ((s.mq.setQueue _ queue).seg_queue j).write_pos
    by_cases hj : j = (s.task t).queue
    · rw [hj, setQueue_self]
      exact ⟨hread, hwrite⟩
    · rw [setQueue_of_ne _ _ hj]
      exact ⟨rfl, Nat.le_refl _⟩

/-- A task that does not write steps. -/
theorem Inv.endTask (h : Inv content P L g s) {t : Nat} {task : DownloadTask}
    (jobs : JobsDescription) (ht : (s.task t).pc ≠ .idle) (hw : task.pc.writes = false)
    (htask : TaskOk content P L g s.mq task) (hjobs : jobs.HandedOut P L g.b) :
    Inv content P L g { s.setTask t task with jobs := jobs } := by
  refine ⟨h.len, hjobs, h.le, h.given, h.queues, ?_, ?_, h.taken, h.reader⟩
  · exact h.tasks.setTask rfl rfl rfl (Nat.le_refl _) htask (fun _ _ _ _ _ hk => ⟨hk, .refl _⟩)
      fun hw' => Bool.noConfusion (hw.symm.trans hw')
  · have hother : ∀ j, j ≠ t → (s.setTask t task).task j = s.task j :=
      fun j hj => Function.update_of_ne hj ..
    refine h.sched.frame rfl rfl rfl rfl rfl rfl (fun j hj => ?_) (fun j hj hwj => ?_)
      fun _ _ _ _ => ⟨rfl, rfl, rfl, rfl, fun _ => rfl⟩
    · show ((s.setTask t task).task j).pc = .idle
      rw [hother j (by rintro rfl; exact ht hj)]
      exact hj
    · replace hwj : ((s.setTask t task).task j).pc.writes = true := hwj
      by_cases hjt : j = t
      · subst hjt
        have : (s.setTask j task).task j = task := Function.update_self ..
        rw [this, hw] at hwj
        exact nomatch hwj
      · show _ ∧ ((s.setTask t task).task j).queue = _
        rw [hother j hjt] at hwj ⊢
        exact ⟨hwj, rfl⟩

section Task

variable {abi : Abi} {t avail now : Nat}

theorem length_bytesFrom (first : Int) (n : Nat) : (bytesFrom content first n).length = n := by
  simp [bytesFrom]

theorem getElem_bytesFrom {first : Int} {n i : Nat} (h : i < (bytesFrom content first n).length) :
    (bytesFrom content first n)[i] = content (first + i) := by
  simp [bytesFrom]

/-- `get_write_buf`. -/
theorem Inv.query (h : Inv content P L g s) (ht : t < s.task_num)
    (hpc : (s.task t).pc = .query) :
    Inv content P L g (s.taskStep abi content t avail now) := by
  have hw : (s.task t).pc.writes = true := by rw [hpc]; rfl
  obtain ⟨k, hk⟩ := (h.tasks.each t ht).writing hw
  have hown := h.queues.owned hk.lt_total hk.role
  simp only [SmartHttpState.taskStep, hpc]
  split
  -- the queue is only asked for its room
  · have hfill := fun task htask hsame =>
      h.fillQueue task ht hw hk.role hown rfl (Nat.le_refl _) htask hsame
    simp only [SmartHttpState.setQueue, setQueue_eq_self] at hfill
    refine hfill _ ⟨fun _ => ⟨k, ?_⟩, nofun⟩ rfl
    have hsize := segSize_le P L k
    have htotal := hk.total
    have hreq := hk.size
    have hlen := h.len
    exact
      { lt_total := hk.lt_total
        role := hk.role
        assigned := hk.assigned
        offset := hk.offset
        size := hk.size
        total := hk.total
        total_le := hk.total_le
        buf := fun _ => ⟨htotal.symm, by
          show min _ _ = (s.task t).request_size - (s.task t).total_read_len
          omega⟩
        received := nofun
        done := nofun
        incomplete := hk.incomplete
        range := hk.range }
  · exact h

/-- `Nw_Http_Download_Recv` at the front of the queue. -/
theorem Inv.recv (h : Inv content P L g s) (ht : t < s.task_num) (hpc : (s.task t).pc = .recv)
    (hfront : 0 < min avail (s.task t).buf_len →
      (s.task t).w_start_pos + (s.task t).write_pos = 0) :
    Inv content P L g (s.taskStep abi content t avail now) := by
  have hw : (s.task t).pc.writes = true := by rw [hpc]; rfl
  obtain ⟨k, hk⟩ := (h.tasks.each t ht).writing hw
  have hown := h.queues.owned hk.lt_total hk.role
  obtain ⟨hpos, hbuf⟩ := hk.buf (.inl hpc)
  simp only [SmartHttpState.taskStep, hpc]
  generalize hn : min avail (s.task t).buf_len = n at hfront
  -- bytes stored at the front are the first of the job
  have hempty : 0 < n → (s.task t).total_read_len = 0 :=
    fun hpos' => hpos.symm.trans (hfront hpos')
  set mem := (s.mq.seg_queue (s.task t).queue).mem.write _ _ with hmem
  -- an empty answer stores nothing
  have hold : n = 0 → mem = (s.mq.seg_queue (s.task t).queue).mem := by
    rintro rfl
    rw [hmem]
    exact Memory.write_nil ..
  -- the bytes stored are those of the content from the start of the job
  have hnew : ∀ i, i < n → mem i = content ((k * P + i : Nat) : Int) := by
    intro i hi
    have hlt : i < (bytesFrom content ((s.task t).download_offset +
        (s.task t).total_read_len) n).length := by rwa [length_bytesFrom]
    have hat := Memory.write_apply_add (s.mq.seg_queue (s.task t).queue).mem 0 _ hlt
    rw [getElem_bytesFrom, Nat.zero_add] at hat
    rw [hmem, hfront (by omega), Nat.mul_zero, hat, hk.offset, hempty (by omega)]
    congr 1
  refine h.fillQueue _ ht hw hk.role ?_ rfl (Nat.le_refl _) ⟨fun _ => ⟨k, ?_⟩, nofun⟩ rfl
  -- what the queue already held is untouched: with bytes to store it held none
  · refine ⟨hown.used, hown.id, hown.ge, hown.lt, hown.read, hown.read_le, hown.write_le, ?_,
      hown.whole, hown.range⟩
    intro i hi
    rcases Nat.eq_zero_or_pos n with h0 | hpos'
    · show mem i = _
      rw [hold h0]
      exact hown.data i hi
    · have hi : i < (s.mq.seg_queue (s.task t).queue).write_pos := hi
      rw [← hk.total, hempty hpos'] at hi
      exact absurd hi (Nat.not_lt_zero i)
  · exact
      { lt_total := hk.lt_total
        role := hk.role
        assigned := hk.assigned
        offset := hk.offset
        size := hk.size
        total := by rw [setQueue_self]; exact hk.total
        total_le := hk.total_le
        buf := fun _ => ⟨hpos, hbuf⟩
        received := by
          intro n' hn'
          obtain rfl : n = n' := TaskPc.update.inj hn'
          rw [setQueue_self]
          exact ⟨by rw [← hn]; exact Nat.min_le_right _ _, hempty, hnew⟩
        done := nofun
        incomplete := by rw [setQueue_self]; exact hk.incomplete
        range := by rw [setQueue_self]; exact hk.range }

/-- `write_buf_update`. -/
theorem Inv.update (h : Inv content P L g s) (ht : t < s.task_num) {n : Nat}
    (hpc : (s.task t).pc = .update n) :
    Inv content P L g (s.taskStep abi content t avail now) := by
  have hw : (s.task t).pc.writes = true := by rw [hpc]; rfl
  obtain ⟨k, hk⟩ := (h.tasks.each t ht).writing hw
  have hown := h.queues.owned hk.lt_total hk.role
  obtain ⟨hpos, hbuf⟩ := hk.buf (.inr ⟨n, hpc⟩)
  obtain ⟨hle, hempty, hnew⟩ := hk.received n hpc
  have hsize := segSize_le P L k
  have htotal := hk.total
  have htotal_le := hk.total_le
  have hreq := hk.size
  have hlen := h.len
  -- what was asked for fits behind what is there
  have hroom : (s.mq.seg_queue (s.task t).queue).write_pos + n ≤ s.mq.len := by omega
  simp only [SmartHttpState.taskStep, hpc, if_pos hroom]
  -- the `n` bytes received now count as the queue's
  refine h.fillQueue _ ht hw hk.role ?_ rfl (Nat.le_add_right _ _) ⟨fun _ => ⟨k, ?_⟩, ?_⟩ rfl
  · refine ⟨hown.used, hown.id, hown.ge, hown.lt, hown.read, ?_, ?_, ?_, ?_, fun _ => hk.range⟩
    · exact Nat.le_trans hown.read_le (Nat.le_add_right _ _)
    · show _ + n ≤ _
      omega
    -- the bytes below the new `write_pos` are the ones just received
    · intro i hi
      replace hi : i < (s.mq.seg_queue (s.task t).queue).write_pos + n := hi
      rcases Nat.eq_zero_or_pos n with rfl | hpos'
      · exact hown.data i hi
      · have := hempty hpos'
        exact hnew i (by omega)
    -- the task has not completed the job
    · intro hc
      exact nomatch hk.incomplete.symm.trans hc
  · refine
      { lt_total := hk.lt_total
        role := hk.role
        assigned := hk.assigned
        offset := hk.offset
        size := hk.size
        total := ?_
        total_le := ?_
        buf := fun _ => ⟨?_, ?_⟩
        received := ?_
        done := ?_
        incomplete := ?_
        range := ?_ }
    · rw [setQueue_self]
      show _ + n = _ + n
      rw [htotal]
    · show (s.task t).total_read_len + n ≤ (s.task t).request_size
      omega
    · show (s.task t).w_start_pos + ((s.task t).write_pos + n) = (s.task t).total_read_len + n
      omega
    · show (s.task t).buf_len - n = (s.task t).request_size - ((s.task t).total_read_len + n)
      omega
    -- after an update comes another query or the end of the job
    · intro n' hn'
      dsimp only at hn'
      split at hn'
      · exact nomatch hn'
      · split at hn' <;> exact nomatch hn'
    -- the end of the job is taken only when all that was asked for has come
    · intro hdone
      dsimp only at hdone ⊢
      split at hdone
      · omega
      · split at hdone <;> exact nomatch hdone
    · rw [setQueue_self]
      exact hk.incomplete
    · rw [setQueue_self]
      exact hk.range
  · intro id hid
    dsimp only at hid
    split at hid
    · exact nomatch hid
    · split at hid <;> exact nomatch hid

/-- `notify_queue_downloaderStatus`. -/
theorem Inv.notify (h : Inv content P L g s) (ht : t < s.task_num)
    (hpc : (s.task t).pc = .notify) :
    Inv content P L g (s.taskStep abi content t avail now) := by
  have hw : (s.task t).pc.writes = true := by rw [hpc]; rfl
  obtain ⟨k, hk⟩ := (h.tasks.each t ht).writing hw
  have hown := h.queues.owned hk.lt_total hk.role
  simp only [SmartHttpState.taskStep, hpc]
  refine h.fillQueue _ ht hw hk.role ?_ rfl (Nat.le_refl _) ⟨nofun, ?_⟩ rfl
  · refine ⟨hown.used, hown.id, hown.ge, hown.lt, hown.read, hown.read_le, hown.write_le,
      hown.data, fun _ => ?_, hown.range⟩
    show (s.mq.seg_queue (s.task t).queue).write_pos = _
    rw [← hk.total, hk.done hpc, hk.size]
  · intro id hid
    exact ⟨k, hk.assigned, (TaskPc.complete.inj hid).symm.trans hown.id⟩

/-- `Complete_Job`. -/
theorem Inv.complete (h : Inv content P L g s) (ht : t < s.task_num) {id : Int}
    (hpc : (s.task t).pc = .complete id) :
    Inv content P L g (s.taskStep abi content t avail now) := by
  obtain ⟨k, hk, rfl⟩ := (h.tasks.each t ht).complete id hpc
  have hne : (s.task t).pc ≠ .idle := by rw [hpc]; nofun
  simp only [SmartHttpState.taskStep, hpc]
  split
  · exact h.endTask s.jobs hne rfl ⟨nofun, nofun⟩ h.jobs
  · rename_i job hjob
    refine h.endTask _ hne rfl ⟨nofun, nofun⟩
      (h.jobs.completeJob ?_ (fun _ _ => Iff.rfl) true now)
    rw [h.jobs.cut.find_id hjob]
    exact hk

/-- The end of the round. -/
theorem Inv.release (h : Inv content P L g s) (hpc : (s.task t).pc = .release) :
    Inv content P L g (s.taskStep abi content t avail now) := by
  have hne : (s.task t).pc ≠ .idle := by rw [hpc]; nofun
  simp only [SmartHttpState.taskStep, hpc]
  exact h.endTask s.jobs hne rfl ⟨nofun, nofun⟩ h.jobs

/-- A step of a task keeps the invariant if it stores its bytes at the front of the queue. -/
theorem Inv.taskStep (h : Inv content P L g s) (ht : t < s.task_num)
    (hfront : (s.task t).pc = .recv → 0 < min avail (s.task t).buf_len →
      (s.task t).w_start_pos + (s.task t).write_pos = 0) :
    Inv content P L g (s.taskStep abi content t avail now) := by
  cases hpc : (s.task t).pc with
  | idle =>
    simp only [SmartHttpState.taskStep, hpc]
    exact h
  | query => exact h.query ht hpc
  | recv => exact h.recv ht hpc (hfront hpc)
  | update n => exact h.update ht hpc
  | notify => exact h.notify ht hpc
  | complete id => exact h.complete ht hpc
  | release => exact h.release hpc

end Task

end Tntsat.SmartHttp
