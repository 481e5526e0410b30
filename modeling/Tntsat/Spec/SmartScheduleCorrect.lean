import Tntsat.Spec.SmartScheduleStep

/-!
# The bytes the reader is given

Whatever the order in which the scheduler, the download tasks and the reader step, the
reader should be given a prefix of the content.  Two things must not happen.  The position
of a queue is added to a pointer to words, so bytes that are stored or copied at any
position but 0 are not where they belong.  And a queue is marked as used before it has its
new job id, so a reader that looks for the lowest id at that moment takes the queue of a
job it has read for the one it needs next.

## Key results

- `out_isPrefix`: in every run without these two the reader has been given a prefix.
- `out_not_prefix`: a run in which the second happens and a segment is skipped.
-/

namespace Tntsat.SmartHttp

open SmartHttpState MultiQueueHandle

variable {abi : Abi} {content : Int → UInt8} {P L : Nat} {g : Progress} {s : SmartHttpState}

/-- The queue that the scheduler has taken but not given a job id has none from before. -/
def NoOldId (mq : MultiQueueHandle) : SchedPc → Prop
  | .assigning _ q step => step.beforeId = true → (mq.seg_queue q).job_id = invalidJobId
  | _ => True

/-- The reader copies from the front of its queue, and does not look for a queue while one
    that is marked as used still has an old job id. -/
def CalmRead (mq : MultiQueueHandle) (sched : SchedPc) : ReaderPc → Option Nat → Prop
  | .copy _ _ n, some q => 0 < n → (mq.seg_queue q).read_pos = 0
  | .loop _ _, none => NoOldId mq sched
  | _, _ => True

/-- A step of the reader as above, or one of a task that stores no bytes behind the front of
    its queue, or one of the scheduler. -/
def Calm (s : SmartHttpState) : ThreadStep → Prop
  | .scheduler => True
  | .task t avail _ => (s.task t).pc = .recv → 0 < min avail (s.task t).buf_len →
      (s.task t).w_start_pos + (s.task t).write_pos = 0
  | .reader _ => CalmRead s.mq s.sched s.reader s.mq.cur_queue

instance decidableNoOldId (mq : MultiQueueHandle) : ∀ sched, Decidable (NoOldId mq sched)
  | .assigning _ _ _ => inferInstanceAs (Decidable (_ → _))
  | .findTask | .nextJob _ | .takeQueue _ => inferInstanceAs (Decidable True)

instance decidableCalmRead (mq : MultiQueueHandle) (sched : SchedPc) :
    ∀ reader cur, Decidable (CalmRead mq sched reader cur)
  | .copy _ _ _, some _ => inferInstanceAs (Decidable (_ → _))
  | .loop _ _, none => decidableNoOldId mq sched
  | .copy _ _ _, none | .loop _ _, some _ => inferInstanceAs (Decidable True)
  | .outside, _ | .check _ _ _, _ | .clear _ _ _, _ => inferInstanceAs (Decidable True)

instance decidableCalm (s : SmartHttpState) : ∀ i, Decidable (Calm s i)
  | .scheduler => inferInstanceAs (Decidable True)
  | .task _ _ _ => inferInstanceAs (Decidable (_ → _ → _))
  | .reader _ => decidableCalmRead s.mq s.sched s.reader s.mq.cur_queue

/-! ## The reader -/

/-- The reader goes somewhere and changes nothing that another thread relies on. -/
theorem Inv.setReader (h : Inv content P L g s) {pc : ReaderPc} {cur : Option Nat}
    {pending : Bool} {pos : Int} {out : List UInt8}
    (hreader : ReaderOk g { s.mq with cur_queue := cur } pc) :
    Inv content P L g { s with
      reader := pc
      mq := { s.mq with cur_queue := cur, seek_pending := pending, seek_pos := pos }
      out := out } where
  len := h.len
  jobs := h.jobs
  le := h.le
  given := h.given
  queues := ⟨h.queues.each, h.queues.unique, h.queues.exist⟩
  tasks := h.tasks.frame rfl rfl rfl (Nat.le_refl _) fun _ _ _ _ hk => ⟨hk, .refl _⟩
  sched := h.sched.frame rfl rfl rfl rfl rfl rfl (fun _ h => h) (fun _ _ h => ⟨h, rfl⟩)
    fun _ _ _ _ => ⟨rfl, rfl, rfl, rfl, fun _ => rfl⟩
  taken := h.taken
  reader := ⟨hreader.rest, hreader.cur, hreader.copy⟩

/-- The queue that the reader finds is the one of the job it needs next. -/
theorem Inv.findDataready (h : Inv content P L g s) (hcalm : NoOldId s.mq s.sched) {q : Nat}
    (hq : s.mq.findDataready = some q) : q < s.mq.total ∧ g.role q = .owned g.c := by
  obtain ⟨hlt, hused, hid, hmin⟩ := findDataready_spec hq
  refine ⟨hlt, ?_⟩
  have hok := h.queues.each q hlt
  cases hrole : g.role q with
  | free =>
    rw [hrole] at hok
    exact Bool.noConfusion (Eq.symm hok |>.trans hused)
  | taking =>
    obtain ⟨t, step, hpc, hbefore⟩ := h.taken q hlt hrole
    unfold NoOldId at hcalm
    rw [hpc] at hcalm
    exact absurd (hcalm hbefore) hid
  | owned k =>
    have hown := h.queues.owned hlt hrole
    obtain ⟨q', hlt', hrole'⟩ := h.queues.exist g.c (Nat.le_refl _)
      (Nat.lt_of_le_of_lt hown.ge hown.lt)
    have hown' := h.queues.owned hlt' hrole'
    have hle := hmin q' hlt' hown'.used (by rw [hown'.id]; unfold invalidJobId; omega)
    rw [hown.id, hown'.id] at hle
    have hge := hown.ge
    rw [show k = g.c by omega]

/-- What is read from `first` on up to where the run has come. -/
structure Reads (content : Int → UInt8) (P L : Nat) (first : Nat) (g : Progress)
    (out : List UInt8) : Prop where
  le : first ≤ g.pos P L
  out_eq : out = bytesFrom content first (g.pos P L - first)

/-- From one state to another the reader is given what lies between their positions. -/
structure Delivers (content : Int → UInt8) (P L : Nat) (g g' : Progress)
    (out out' : List UInt8) : Prop where
  le : g.pos P L ≤ g'.pos P L
  out_eq : out' = out ++ bytesFrom content (g.pos P L) (g'.pos P L - g.pos P L)

/-- The bytes of a connection in two parts. -/
theorem bytesFrom_add (content : Int → UInt8) (first : Int) (n m : Nat) :
    bytesFrom content first (n + m) =
      bytesFrom content first n ++ bytesFrom content (first + n) m := by
  simp [bytesFrom, List.range_add, Int.add_assoc]

theorem Delivers.of_eq {g' : Progress} {out out' : List UInt8} (hpos : g'.pos P L = g.pos P L)
    (hout : out' = out) : Delivers content P L g g' out out' where
  le := Nat.le_of_eq hpos.symm
  out_eq := by rw [hpos, Nat.sub_self, hout]; exact (List.append_nil _).symm

/-- What is given goes on where the reading was. -/
theorem Reads.append {first : Nat} {g' : Progress} {out out' : List UInt8}
    (h : Reads content P L first g out) (hgives : Delivers content P L g g' out out') :
    Reads content P L first g' out' where
  le := Nat.le_trans h.le hgives.le
  out_eq := by
    have hle := h.le
    have hle' := hgives.le
    have hbytes := bytesFrom_add content first (g.pos P L - first) (g'.pos P L - g.pos P L)
    rw [show g.pos P L - first + (g'.pos P L - g.pos P L) = g'.pos P L - first by omega,
      show (first : Int) + ((g.pos P L - first : Nat) : Int) = (g.pos P L : Nat) by omega] at hbytes
    rw [hgives.out_eq, h.out_eq, hbytes]

/-- Bytes that are copied from the front of the queue are those that come next. -/
theorem Owned.read_eq {queue : DataSegmentQueue} {n : Nat}
    (h : Owned content P L g queue g.c) (hgiven : g.c * P < L)
    (hle : queue.read_pos + n ≤ queue.write_pos) (hfront : 0 < n → queue.read_pos = 0) :
    queue.mem.read (abi.sizeofUlong * queue.read_pos) n =
      bytesFrom content (g.pos P L) n := by
  have hread := h.read
  rw [if_pos rfl] at hread
  unfold Progress.pos
  apply List.ext_getElem?
  intro i
  rw [Memory.getElem?_read]
  split
  · have hr := hfront (by omega)
    rw [List.getElem?_eq_getElem (by rwa [length_bytesFrom]), getElem_bytesFrom, hr, Nat.mul_zero,
      Nat.zero_add, h.data i (by omega), segStart_of_lt hgiven, ← hread, hr]
    rfl
  · rw [List.getElem?_eq_none (by rw [length_bytesFrom]; omega)]

/-- The reader moves in the queue of the job that is read. -/
theorem Inv.setRead (h : Inv content P L g s) {q n : Nat} {pc : ReaderPc}
    (hcur : s.mq.cur_queue = some q) (hlt : q < s.mq.total) (hrole : g.role q = .owned g.c)
    (hle : n ≤ (s.mq.seg_queue q).write_pos)
    (hpc : ∀ size redo m, pc = .copy size redo m → n + m ≤ (s.mq.seg_queue q).write_pos) :
    Inv content P L { g with r := n }
      { s.setQueue q { s.mq.seg_queue q with read_pos := n } with reader := pc } := by
  have hown := h.queues.owned hlt hrole
  set queue := { s.mq.seg_queue q with read_pos := n } with hqueue
  -- only the reading position of `q` changes
  have hother : ∀ j,
      ((s.mq.setQueue q queue).seg_queue j).write_pos = (s.mq.seg_queue j).write_pos ∧
      ((s.mq.setQueue q queue).seg_queue j).complete_job_flag =
        (s.mq.seg_queue j).complete_job_flag ∧
      ((s.mq.setQueue q queue).seg_queue j).mem = (s.mq.seg_queue j).mem ∧
      ((s.mq.setQueue q queue).seg_queue j).cur_range = (s.mq.seg_queue j).cur_range ∧
      (j ≠ q → ((s.mq.setQueue q queue).seg_queue j).read_pos = (s.mq.seg_queue j).read_pos) := by
    intro j
    by_cases hjq : j = q
    · rw [hjq, setQueue_self]
      exact ⟨rfl, rfl, rfl, rfl, fun h => absurd rfl h⟩
    · rw [setQueue_of_ne _ _ hjq]
      exact ⟨rfl, rfl, rfl, rfl, fun _ => rfl⟩
  -- no queue changes hands
  refine ⟨h.len, h.jobs, h.le, h.given, ?_, ?_, ?_, h.taken, ?_⟩
  · have hsame : g.role = Function.update g.role q (.owned g.c) :=
      (Function.update_eq_self_iff.mpr hrole.symm).symm
    refine h.queues.setRole hsame ?_ (fun j hj hjq => ?_) (fun k j hk hj hjq hk' => ?_)
      fun k hc ha => ?_
    · exact ⟨hown.used, hown.id, hown.ge, hown.lt, (if_pos rfl).symm, hle, hown.write_le,
        hown.data, hown.whole, hown.range⟩
    · refine (h.queues.each j hj).mono (Nat.le_refl _) fun k hk => ?_
      have hok := h.queues.owned hj hk
      have hne := h.queues.ne_of_ne hlt hj hrole hk hjq
      exact ⟨hok.ge, by rw [hok.read, if_neg hne, if_neg hne]⟩
    · exact h.queues.ne_of_ne hlt hj hrole hk' hjq (Role.owned.inj hk).symm
    · by_cases hkc : k = g.c
      · exact .inl ⟨hlt, by rw [hkc]⟩
      · obtain ⟨j, hj, hk⟩ := h.queues.exist k hc ha
        refine .inr ⟨j, hj, ?_, hk⟩
        rintro rfl
        exact hkc (Role.owned.inj (hk.symm.trans hrole))
  · refine h.tasks.frame rfl rfl rfl (Nat.le_refl _) fun t k _ _ hk => ⟨hk, ?_⟩
    obtain ⟨hwrite, hcomplete, hmem, hrange, -⟩ := hother (s.task t).queue
    exact ⟨hwrite, hcomplete, hmem, hrange⟩
  · refine h.sched.frame rfl rfl rfl rfl rfl rfl (fun _ h => h) (fun _ _ h => ⟨h, rfl⟩)
      fun _ j _ _ => ?_
    obtain ⟨hwrite, hcomplete, -, hrange, hread'⟩ := hother j
    refine ⟨rfl, hwrite, hcomplete, hrange, fun hr => hread' ?_⟩
    rintro rfl
    exact nomatch hr.symm.trans hrole
  -- the reader: its job has been given out, and what it will copy has been written
  · refine ⟨fun hca => ?_, fun _ j hj => ?_, fun size redo m hm => ⟨q, hcur, ?_⟩⟩
    · have := hown.lt
      have : g.c = g.a := hca
      omega
    · obtain rfl : q = j := Option.some.inj (hcur.symm.trans hj)
      exact ⟨hlt, hrole⟩
    · show ((s.mq.setQueue q queue).seg_queue q).read_pos + m ≤
        ((s.mq.setQueue q queue).seg_queue q).write_pos
      rw [setQueue_self]
      exact hpc size redo m hm

/-- `queue_read` copies from the front of the queue of the job that is read. -/
theorem Inv.copy (abi : Abi) (h : Inv content P L g s) {size redo n q : Nat}
    (hpc : s.reader = .copy size redo n) (hcur : s.mq.cur_queue = some q)
    (hfront : 0 < n → (s.mq.seg_queue q).read_pos = 0) :
    ∃ g', g'.c = g.c ∧ Inv content P L g' (s.readerStep abi size) ∧
      Delivers content P L g g' s.out (s.readerStep abi size).out := by
  obtain ⟨hlt, hrole⟩ := h.reader.cur (by rw [hpc]; nofun) q hcur
  have hown := h.queues.owned hlt hrole
  obtain ⟨q', hq', hle⟩ := h.reader.copy size redo n hpc
  obtain rfl : q = q' := Option.some.inj (hcur.symm.trans hq')
  have hread := hown.read
  rw [if_pos rfl] at hread
  simp only [SmartHttpState.readerStep, hpc, hcur]
  have hpos : Progress.pos P L { g with r := (s.mq.seg_queue q).read_pos + n } =
      g.pos P L + n := by
    rw [hread]
    exact (Nat.add_assoc ..).symm
  have hmove := @Inv.setRead content P L g s h q _ (.check size redo n) hcur hlt hrole hle nofun
  refine ⟨{ g with r := (s.mq.seg_queue q).read_pos + n }, rfl, hmove.setReader hmove.reader,
    by omega, ?_⟩
  show s.out ++ _ = _
  rw [hown.read_eq (h.given g.c hown.lt) hle hfront, hpos, Nat.add_sub_cancel_left]

/-- The reader releases the queue of a job it has read to the end. -/
theorem Inv.releaseQueue (h : Inv content P L g s) {size redo n q : Nat}
    (hpc : s.reader = .check size redo n) (hcur : s.mq.cur_queue = some q)
    (hcomplete : (s.mq.seg_queue q).complete_job_flag = true)
    (hend : (s.mq.seg_queue q).read_pos = (s.mq.seg_queue q).write_pos) :
    ∃ g', g'.pos P L = g.pos P L ∧
      Inv content P L g' { s.setQueue q { s.mq.seg_queue q with used_flag := false } with
        reader := .clear size redo n } := by
  obtain ⟨hlt, hrole⟩ := h.reader.cur (by rw [hpc]; nofun) q hcur
  have hown := h.queues.owned hlt hrole
  have hgiven := h.given g.c hown.lt
  -- a complete queue read to its end holds the whole job
  have hread := hown.read
  rw [if_pos rfl, hend, hown.whole hcomplete] at hread
  set queue := { s.mq.seg_queue q with used_flag := false } with hqueue
  -- the reader moves to the front of the next job
  refine ⟨{ g.setRole q .free with c := g.c + 1, r := 0 }, ?_, h.len, h.jobs, hown.lt, h.given,
    ?_, ?_, ?_, ?_, ?_⟩
  -- which is where it was in the content
  · show segStart P L (g.c + 1) + 0 = segStart P L g.c + g.r
    rw [segStart_succ hgiven, hread, Nat.add_zero]
  -- the queues of the later jobs
  · refine h.queues.setRole rfl rfl (fun j hj hjq => ?_) (fun k j hk => nomatch hk)
      fun k hc ha => ?_
    · refine (h.queues.each j hj).mono (Nat.le_refl _) fun k hk => ?_
      have hok := h.queues.owned hj hk
      have hne := h.queues.ne_of_ne hlt hj hrole hk hjq
      refine ⟨Nat.lt_of_le_of_ne hok.ge hne.symm, ?_⟩
      rw [hok.read, if_neg hne]
      split <;> rfl
    · obtain ⟨j, hj, hk⟩ := h.queues.exist k (Nat.le_of_succ_le hc) ha
      refine .inr ⟨j, hj, ?_, hk⟩
      rintro rfl
      have := Role.owned.inj (hk.symm.trans hrole)
      exact absurd hc (by rw [this]; exact Nat.not_succ_le_self _)
  -- a task writes only to queues that are not complete
  · refine h.tasks.frame rfl rfl rfl (Nat.le_refl _) fun t k ht hw hk => ?_
    obtain ⟨k', hk'⟩ := (h.tasks.each t ht).writing hw
    have hne : (s.task t).queue ≠ q := by
      rintro rfl
      exact nomatch hk'.incomplete.symm.trans hcomplete
    refine ⟨(setRole_of_ne g _ hne).trans hk, ?_⟩
    show SameFill _ ((s.mq.setQueue q queue).seg_queue _)
    rw [setQueue_of_ne _ _ hne]
    exact .refl _
  -- nor does the scheduler hold a complete one
  · refine h.sched.frame rfl rfl rfl rfl rfl rfl (fun _ h => h) (fun _ _ h => ⟨h, rfl⟩)
      fun t j step hstep => ?_
    have hne : j ≠ q := by
      rintro rfl
      have hsched := h.sched
      unfold SchedOk at hsched
      rw [hstep] at hsched
      obtain ⟨-, -, -, -, hstep⟩ := hsched
      split at hstep
      · exact nomatch hstep.role.symm.trans hrole
      · exact nomatch hstep.incomplete.symm.trans hcomplete
    show _ ∧ ((s.mq.setQueue q queue).seg_queue j).write_pos = _ ∧
      ((s.mq.setQueue q queue).seg_queue j).complete_job_flag = _ ∧
      ((s.mq.setQueue q queue).seg_queue j).cur_range = _ ∧
      (_ → ((s.mq.setQueue q queue).seg_queue j).read_pos = _)
    rw [setQueue_of_ne _ _ hne]
    exact ⟨setRole_of_ne g _ hne, rfl, rfl, rfl, fun _ => rfl⟩
  · refine h.taken.frame rfl rfl fun j hj => ?_
    by_cases hjq : j = q
    · subst hjq
      exact nomatch (setRole_self g j _).symm.trans hj
    · exact (setRole_of_ne g _ hjq).symm.trans hj
  · exact ⟨fun _ => rfl, fun hclear => absurd rfl (hclear size redo n), nofun⟩

/-- A step of the reader keeps the invariant if it copies from the front of a queue and looks
    for one when none has an old id. -/
theorem Inv.readerStep (h : Inv content P L g s) {size : Nat} (hcalm : Calm s (.reader size)) :
    ∃ g', (g'.c = g.c ∨ ∃ size redo n, s.reader = .check size redo n) ∧
      Inv content P L g' (s.readerStep abi size) ∧
      Delivers content P L g g' s.out (s.readerStep abi size).out := by
  unfold Calm at hcalm
  dsimp only at hcalm
  -- a step that hands out nothing and releases nothing
  have stay : ∀ s' : SmartHttpState, Inv content P L g s' → s'.out = s.out →
      ∃ g', (g'.c = g.c ∨ ∃ size redo n, s.reader = .check size redo n) ∧
        Inv content P L g' s' ∧ Delivers content P L g g' s.out s'.out :=
    fun _ hs hout => ⟨g, .inl rfl, hs, .of_eq rfl hout⟩
  cases hpc : s.reader with
  | outside =>
    rw [hpc] at stay
    simp only [SmartHttpState.readerStep, hpc]
    split
    · exact stay _ h rfl
    · exact stay _ (h.setReader ⟨h.reader.rest,
        fun _ => h.reader.cur (by rw [hpc]; nofun), nofun⟩) rfl
  | loop size' redo =>
    have hkeep : (∀ size redo n, s.reader ≠ .clear size redo n) := by rw [hpc]; nofun
    rw [hpc] at stay
    simp only [SmartHttpState.readerStep, hpc]
    split
    -- a current queue: what is copied lies below its `write_pos`
    · rename_i q hcur
      -- no more is copied than the queue holds
      obtain ⟨hlt, hrole⟩ := h.reader.cur hkeep q hcur
      have hle := (h.queues.owned hlt hrole).read_le
      refine stay _ (h.setReader ⟨h.reader.rest, fun _ => h.reader.cur hkeep, ?_⟩) rfl
      intro size redo n hn
      obtain ⟨-, -, rfl⟩ := ReaderPc.copy.inj hn
      refine ⟨q, hcur, ?_⟩
      show (s.mq.seg_queue q).read_pos +
        min size' ((s.mq.seg_queue q).write_pos - (s.mq.seg_queue q).read_pos) ≤
          (s.mq.seg_queue q).write_pos
      omega
    -- no current queue: the first one that is ready holds the job to be read next
    · rename_i hcur
      rw [hpc, hcur] at hcalm
      split
      · rename_i q hq
        have hfound := h.findDataready hcalm hq
        have hreader : ReaderOk g { s.mq with cur_queue := some q } s.reader := by
          refine ⟨h.reader.rest, ?_, by rw [hpc]; nofun⟩
          rintro - j hj
          obtain rfl := Option.some.inj hj
          exact hfound
        have hfind : Inv content P L g { s with mq := { s.mq with cur_queue := some q } } :=
          h.setReader hreader
        have := stay _ hfind rfl
        rwa [hpc] at this
      · refine stay _ (h.setReader ⟨h.reader.rest, fun _ => h.reader.cur hkeep, ?_⟩) rfl
        intro size redo n hn
        split at hn <;> exact nomatch hn
  | copy size' redo n =>
    obtain ⟨q, hcur, -⟩ := h.reader.copy size' redo n hpc
    rw [hpc, hcur] at hcalm
    obtain ⟨g', hc, hg', hgives⟩ := h.copy abi hpc hcur hcalm
    simp only [SmartHttpState.readerStep, hpc, hcur] at hg' hgives ⊢
    exact ⟨g', .inl hc, hg', hgives⟩
  | check size' redo n =>
    have hkeep : (∀ size redo n, s.reader ≠ .clear size redo n) := by rw [hpc]; nofun
    rw [hpc] at stay
    simp only [SmartHttpState.readerStep, hpc]
    split
    · exact stay _ h rfl
    · rename_i q hcur
      split
      -- the job is complete and read to its end
      · rename_i hdone
        obtain ⟨g', hpos, hg'⟩ := h.releaseQueue hpc hcur hdone.1 hdone.2.1
        exact ⟨g', .inr ⟨_, _, _, rfl⟩, hg', .of_eq hpos rfl⟩
      · refine stay _ (h.setReader ⟨h.reader.rest, fun _ => h.reader.cur hkeep, ?_⟩) rfl
        intro size redo n hn
        split at hn <;> exact nomatch hn
  | clear size' redo n =>
    rw [hpc] at stay
    simp only [SmartHttpState.readerStep, hpc]
    refine stay _ (h.setReader ⟨h.reader.rest, fun _ => nofun, ?_⟩) rfl
    intro size redo n hn
    split at hn <;> exact nomatch hn

/-! ## Whole runs -/

theorem schedStep_out (s : SmartHttpState) : s.schedStep.out = s.out := by
  unfold SmartHttpState.schedStep
  split
  · split <;> rfl
  · split
    · rfl
    · split <;> rfl
  · split <;> rfl
  · split
    · rfl
    · dsimp only
      split <;> rfl

theorem taskStep_out (s : SmartHttpState) (t avail now : Nat) :
    (s.taskStep abi content t avail now).out = s.out := by
  unfold SmartHttpState.taskStep
  dsimp only
  split
  · rfl
  · split <;> rfl
  · rfl
  · split <;> rfl
  · rfl
  · split <;> rfl
  · rfl

/-- A calm step of any thread keeps the invariant, and gives the reader what comes next. -/
theorem Inv.step (h : Inv content P L g s) {i : ThreadStep} (hcalm : Calm s i) :
    ∃ g', Inv content P L g' (s.threadStep abi content i) ∧
      Delivers content P L g g' s.out (s.threadStep abi content i).out := by
  cases i with
  | scheduler =>
    obtain ⟨g', hc, hr, hg'⟩ := h.schedStep
    exact ⟨g', hg', .of_eq (by rw [Progress.pos, hc, hr]; rfl) (schedStep_out s)⟩
  | task t avail now =>
    unfold SmartHttpState.threadStep
    dsimp only
    split
    · rename_i ht
      exact ⟨g, h.taskStep ht hcalm, .of_eq rfl (taskStep_out s t avail now)⟩
    · exact ⟨g, h, .of_eq rfl rfl⟩
  | reader size =>
    obtain ⟨g', -, hg', hgives⟩ := @Inv.readerStep abi content P L g s h size hcalm
    exact ⟨g', hg', hgives⟩

/-- Nothing has been handed out. -/
def Progress.start : Progress where
  c := 0
  r := 0
  a := 0
  b := 0
  role := fun _ => .free

/-- The invariant holds once the list of jobs was made. -/
theorem inv_open {d : JobsDescription} (hfresh : d.Fresh) (hcut : d.Cut P L)
    (queues tasks : Nat) (mem : Nat → Memory UInt8) :
    Inv content P L .start (smartHttpOpen d queues tasks P mem) where
  len := rfl
  jobs := hfresh.handedOut hcut
  le := Nat.le_refl _
  given := fun _ hk => absurd hk (Nat.not_lt_zero _)
  queues := ⟨fun _ _ => rfl, fun _ _ _ _ _ hk => (nomatch hk),
    fun _ _ hk => absurd hk (Nat.not_lt_zero _)⟩
  tasks := ⟨fun _ _ => ⟨nofun, nofun⟩, fun _ _ _ _ hw => nomatch hw⟩
  sched := ⟨rfl, nofun⟩
  taken := nofun
  reader := ⟨fun _ => rfl, nofun, nofun⟩

/-- A run never reads beyond the content. -/
theorem Inv.pos_le (h : Inv content P L g s) : g.pos P L ≤ L := by
  unfold Progress.pos
  rcases Nat.lt_or_eq_of_le h.le with hlt | heq
  · obtain ⟨q, hq, hrole⟩ := h.queues.exist g.c (Nat.le_refl _) hlt
    have hown := h.queues.owned hq hrole
    have hread := hown.read
    rw [if_pos rfl] at hread
    calc segStart P L g.c + g.r
        ≤ segStart P L g.c + segSize P L g.c :=
          Nat.add_le_add_left (hread ▸ Nat.le_trans hown.read_le hown.write_le) _
      _ = segStart P L (g.c + 1) := (segStart_succ (h.given g.c hlt)).symm
      _ ≤ L := segStart_le ..
  · rw [h.reader.rest heq]
    exact segStart_le ..

/-- What is read from `first` on is a prefix of the content from there. -/
theorem Reads.isPrefix {first : Nat} {out : List UInt8} (h : Reads content P L first g out)
    (hle : g.pos P L ≤ L) : out <+: bytesFrom content first (L - first) := by
  have hfirst := h.le
  have hbytes := bytesFrom_add content first (g.pos P L - first) (L - g.pos P L)
  rw [show g.pos P L - first + (L - g.pos P L) = L - first by omega] at hbytes
  rw [h.out_eq, hbytes]
  exact List.prefix_append ..

/-- The threads step in any order, none of them with bytes behind the front of a queue and
    the reader never looking for a queue while one still has an old job id: the reader has
    been given a prefix of the content. -/
theorem out_isPrefix {env : GenEnv} {url header : Option String} {reconnect : Bool} (hP : 0 < P)
    (hlen : ∀ i, (env.first i).content_length < 2147483648) {d : JobsDescription}
    (hd : (genJobs env url header P reconnect).jobs = some d) (hrange : d.single_job_mode = false)
    (queues tasks : Nat) (mem : Nat → Memory UInt8) (steps : List ThreadStep)
    (hcalm : (smartHttp abi content).Always Calm (smartHttpOpen d queues tasks P mem) steps) :
    ((smartHttp abi content).final (smartHttpOpen d queues tasks P mem) steps).out <+:
      bytesFrom content 0 d.content_length.toNat := by
  have hinv := (smartHttp abi content).invariant
    (I := fun s => ∃ g, Inv content P d.content_length.toNat g s ∧
      Reads content P d.content_length.toNat 0 g s.out)
    (fun _ _ ⟨_, h, hout⟩ hc => by
      obtain ⟨g', hg', hgives⟩ := h.step hc
      exact ⟨g', hg', hout.append hgives⟩)
    ⟨.start, inv_open (genJobs_fresh (by exact_mod_cast hP) hlen hd)
      (genJobs_cut hP hlen hd hrange) queues tasks mem, Nat.zero_le _,
      by simp [smartHttpOpen, Progress.pos, Progress.start, segStart, bytesFrom]⟩ hcalm
  obtain ⟨g, h, hout⟩ := hinv
  exact hout.isPrefix h.pos_le

/-- A content that counts up. -/
def countUp (k : Int) : UInt8 := UInt8.ofNat k.toNat

/-- The scheduler hands out a job: it finds a task, the job and a queue, and makes the ten
    assignments. -/
def handOut : List ThreadStep := List.replicate 13 .scheduler

/-- Six bytes in three jobs. -/
def threeJobs : JobsDescription :=
  (genJobs (plainServer 6) (some "http://h/f") none (2 : Nat) true).jobs.get (by decide +kernel)

/-- Two queues of two bytes and two tasks for them. -/
def openThreeJobs : SmartHttpState := smartHttpOpen threeJobs 2 2 2 fun _ _ => 0

/-- The first of three jobs is handed out, downloaded and read. -/
theorem out_isPrefix_firstJob :
    ((smartHttp .ilp32 countUp).final openThreeJobs
      (handOut ++ List.replicate 6 (.task 0 2 0) ++ List.replicate 6 (.reader 2))).out <+:
        bytesFrom countUp 0 threeJobs.content_length.toNat :=
  out_isPrefix (by decide) (fun _ => show (6 : Int) < 2147483648 by decide)
    (Option.some_get _).symm (by decide +kernel) 2 2 (fun _ _ => 0) _ (by decide +kernel)

/-- The first two of three jobs are downloaded and the first is read.  Its queue is taken
    again, and when the reader looks for the next one this queue still has the lowest id; it
    then holds the third job, so the second is skipped.  And one job whose bytes arrive one
    by one: the second byte is not behind the first. -/
theorem out_not_prefix :
    (genJobs (plainServer 6) (some "http://h/f") none (2 : Nat) true).jobs = some threeJobs ∧
      threeJobs.single_job_mode = false ∧
      bytesFrom countUp 0 threeJobs.content_length.toNat = [0, 1, 2, 3, 4, 5] ∧
      ((smartHttp .ilp32 countUp).final openThreeJobs
        (handOut ++ List.replicate 6 (.task 0 2 0) ++ handOut ++ List.replicate 6 (.task 0 2 0) ++
          List.replicate 6 (.reader 2) ++ List.replicate 3 .scheduler ++
          List.replicate 2 (.reader 2) ++ List.replicate 10 .scheduler ++
          List.replicate 3 (.task 0 2 0) ++ List.replicate 4 (.reader 2))).out = [0, 1, 4, 5] ∧
      ((smartHttp .ilp32 countUp).final openThreeJobs
        (handOut ++ List.replicate 7 (.task 0 1 0) ++ List.replicate 6 (.reader 2))).out = [0, 0] :=
  ⟨(Option.some_get _).symm, by decide +kernel, by decide +kernel, by decide +kernel,
    by decide +kernel⟩

end Tntsat.SmartHttp
