import Tntsat.Spec.PvrIdxRingCorrect

/-!
# The record times in the kernel index ring

A frame that comes late is not given the time it is stored at but that of the
frame before and 60 ms.  When the time alone was inserted in between, that is
earlier than the record before it.  Only a jump of the stream's time stamps, or a
frame that is not late, brings the times back in order.

## Key results

- `step_timed`: what each step does to the times
- `times_ordered`: every run without a late frame behind an inserted time
- `times_disordered`: a late frame behind an inserted time
-/

namespace Tntsat.PvrIdxRing

open PvrShm (IndexInst VcodecType MmzBuffer)

/-! ## The clock -/

/-- The readings of the clock in a step, the last of them. -/
def readings : RingInput → List Nat
  | .process env => [env.stampTime]
  | _ => []

/-- The last reading of the clock in a history. -/
def lastReading (h : History) : Nat := ((h.flatMap fun e => readings e.1).getLast?).getD 0

theorem lastReading_process (h : History) (env : StepEnv) (out : RingOut) :
    lastReading (h ++ [(.process env, out)]) = env.stampTime := by
  simp [lastReading, readings]

theorem lastReading_other (h : History) {i : RingInput} (out : RingOut) (hi : readings i = []) :
    lastReading (h ++ [(i, out)]) = lastReading h := by
  simp [lastReading, hi]

/-- The clock does not go back, and stays below 2^31. -/
def Ticks (s : Chn × History) : RingInput → Prop
  | .process env => lastReading s.2 ≤ env.initTime ∧ env.initTime ≤ env.ktime ∧
      env.ktime ≤ env.stampTime ∧ env.stampTime < 2147483648
  | _ => True

instance : ∀ (s : Chn × History) (i : RingInput), Decidable (Ticks s i)
  | _, .process _ => inferInstanceAs (Decidable (_ ∧ _ ∧ _ ∧ _))
  | _, .readData => inferInstanceAs (Decidable True)
  | _, .readDataEx _ => inferInstanceAs (Decidable True)
  | _, .readLastIndex => inferInstanceAs (Decidable True)

/-! ## The condition -/

/-- The frame is late: it gets the time of the frame before and 60 ms. -/
def isLate (c : Chn) (r : DmxRecIndex) (env : StepEnv) : Bool :=
  u32sub env.ktime c.last_get ≥ maxFrameInertvalTime && c.g_pvr_index.enFrameType ≠ .unknown &&
    !lostSignal c r env.ktime

/-- No time has been inserted since the frame before one that is late. -/
def NoStaleTime (s : Chn × History) : RingInput → Prop
  | .process env => ∀ r, env.acquired = some r →
      let c := begun s.1 env
      isLate c (patchFrameType c.inst.video_type c.g_rec_parseiframe r).1 env = true →
        c.last_update = c.last_get
  | _ => True

instance : ∀ (s : Chn × History) (i : RingInput), Decidable (NoStaleTime s i)
  | s, .process env =>
    match h : env.acquired with
    | none => .isTrue fun r hr => by rw [h] at hr; cases hr
    | some r => decidable_of_iff
        (isLate (begun s.1 env) (patchFrameType (begun s.1 env).inst.video_type
          (begun s.1 env).g_rec_parseiframe r).1 env = true →
            (begun s.1 env).last_update = (begun s.1 env).last_get)
        ⟨fun hc r' hr' => by rw [h] at hr'; cases hr'; exact hc, fun hc => hc r h⟩
  | _, .readData => inferInstanceAs (Decidable True)
  | _, .readDataEx _ => inferInstanceAs (Decidable True)
  | _, .readLastIndex => inferInstanceAs (Decidable True)

/-! ## The times of a record -/

/-- What the times of the channel are bounded by. -/
structure Clocked (c : Chn) (rs : List DmxRecIndex) (now : Nat) : Prop where
  get : c.last_get ≤ now
  update : c.last_update ≤ now
  /-- nothing is stored with a later time -/
  upto : ∀ r ∈ rs, r.u32PrivatePara ≤ c.last_update
  /-- the last frame has the time that the next one is measured from -/
  frame : c.g_pvr_index.enFrameType ≠ .unknown → c.g_pvr_index.u32PrivatePara = c.last_get

/-- The time of a frame: the clock, or the time of the frame before and 60 ms. -/
theorem recordTime_cases {c : Chn} {rs : List DmxRecIndex} {env : StepEnv} {r : DmxRecIndex}
    (hC : Clocked c rs env.ktime) (hk : env.ktime ≤ env.stampTime)
    (hlt : env.stampTime < 2147483648)
    (hstale : isLate c r env = true → c.last_update = c.last_get) :
    (recordTime c r env).2 = (recordTime c r env).1 ∧
      c.last_update ≤ (recordTime c r env).1 ∧ (recordTime c r env).1 ≤ env.stampTime := by
  have hget := hC.get
  have hupdate := hC.update
  unfold recordTime
  split
  · rename_i hlong
    obtain ⟨hgap, hframe⟩ := hlong
    rw [u32sub_of_le hget (by omega), maxFrameInertvalTime] at hgap
    split
    · exact ⟨rfl, by simp only; omega, Nat.le_refl _⟩
    · rename_i hlost
      -- the frame is late
      have hlate : isLate c r env = true := by
        rw [isLate, u32sub_of_le hget (by omega), maxFrameInertvalTime]
        simp [hgap, hframe, hlost]
      have hsame := hstale hlate
      rw [hC.frame hframe, maxFrameInertvalTime, u32_of_lt (by omega)]
      exact ⟨rfl, by simp only; omega, by simp only; omega⟩
  · exact ⟨rfl, by simp only; omega, Nat.le_refl _⟩

/-! ## The invariant -/

/-- The times of the records stored so far. -/
def times (h : History) : List Nat := (stored h).map (·.u32PrivatePara)

/-- The times are in order, and once the thread runs the clock has passed them. -/
structure Timed (c : Chn) (h : History) : Prop where
  sorted : (times h).Pairwise (· ≤ ·)
  mapped : c.inst.pu8KnlVirAddr ≠ 0
  clocked : (c.inst.status = 1 ∧ stored h = []) ∨
    (c.inst.status ≠ 1 ∧ Clocked c (stored h) (lastReading h))

/-- The channel when it looks for a frame. -/
theorem Timed.begun {c : Chn} {h : History} (hI : Timed c h) {env : StepEnv}
    (ht : Ticks (c, h) (.process env)) :
    (begun c env).inst.status ≠ 1 ∧ Clocked (begun c env) (stored h) env.ktime := by
  obtain ⟨hlast, hinit, hk, hlt⟩ := ht
  simp only at hlast
  unfold PvrIdxRing.begun
  rcases hI.clocked with ⟨hone, hnil⟩ | ⟨hone, hC⟩
  · rw [if_pos hone]
    refine ⟨(by decide : (2 : Nat) ≠ 1), ?_⟩
    exact
      { get := hinit
        update := Nat.zero_le _
        upto := by rw [hnil]; nofun
        frame := fun hne => absurd rfl hne }
  · rw [if_neg hone]
    have hget := hC.get
    have hupdate := hC.update
    exact ⟨hone, ⟨by omega, by omega, hC.upto, hC.frame⟩⟩

/-- A record with a time that is not earlier than the last one. -/
theorem sorted_snoc {h : History} {c : Chn} {now : Nat} (hs : (times h).Pairwise (· ≤ ·))
    (hC : Clocked c (stored h) now) {r : DmxRecIndex} (hle : c.last_update ≤ r.u32PrivatePara)
    {i : RingInput} {out : StepOut} (hout : out.stored = some r) :
    (times (h ++ [(i, .processed out)])).Pairwise (· ≤ ·) := by
  have htimes : times (h ++ [(i, .processed out)]) = times h ++ [r.u32PrivatePara] := by
    simp [times, storedBy, hout]
  rw [htimes, List.pairwise_append]
  refine ⟨hs, List.pairwise_singleton _ _, fun t ht t' ht' => ?_⟩
  obtain ⟨r', hr', rfl⟩ := List.mem_map.mp ht
  rw [List.mem_singleton.mp ht']
  exact Nat.le_trans (hC.upto r' hr') hle

/-! ## One step -/

/-- What a step promises about the times. -/
structure TimesOk (s : Chn × History) (i : RingInput) : Prop where
  sorted : (times (machine.traced.step s i).1.2).Pairwise (· ≤ ·)
  /-- no time is later than the clock -/
  past : ∀ env r, i = .process env → (processIndexData s.1 env).2.stored = some r →
    r.u32PrivatePara ≤ env.stampTime

/-- The clock has moved on. -/
theorem Clocked.later {c : Chn} {rs : List DmxRecIndex} {now now' : Nat} (hC : Clocked c rs now)
    (hle : now ≤ now') : Clocked c rs now' :=
  ⟨Nat.le_trans hC.get hle, Nat.le_trans hC.update hle, hC.upto, hC.frame⟩

/-- A frame that is stored, with its time. -/
theorem storeFrame_eq {c : Chn} {r : DmxRecIndex} {env : StepEnv} {p : DmxRecIndex × Bool}
    {time : Nat × Nat} (hp : patchFrameType c.inst.video_type c.g_rec_parseiframe r = p)
    (htime : recordTime c p.1 env = time) :
    storeFrame c r env =
      ({ putRecord c { p.1 with u32PrivatePara := time.1 } with
          last_get := time.2
          last_update := time.2
          g_pvr_index := { p.1 with u32PrivatePara := time.1 }
          g_rec_waddr := env.rec_waddr
          g_rec_parseiframe := p.2 },
        { asked := true, stored := some { p.1 with u32PrivatePara := time.1 } }) := by
  subst hp htime
  rfl

/-- A step of the thread. -/
theorem process_timed {c : Chn} {h : History} (hI : Timed c h) {env : StepEnv}
    (ht : Ticks (c, h) (.process env)) (hc : NoStaleTime (c, h) (.process env)) :
    Timed (processIndexData c env).1
        (h ++ [(.process env, .processed (processIndexData c env).2)]) ∧
      ∀ r, (processIndexData c env).2.stored = some r → r.u32PrivatePara ≤ env.stampTime := by
  obtain ⟨hrun, hC⟩ := hI.begun ht
  obtain ⟨hlast, hinit, hk, hlt⟩ := ht
  simp only at hlast
  rcases process_cases c env with ⟨hout, hcase⟩ | ⟨hready, hroom, r, hacq, heq⟩ |
    ⟨hready, hroom, hacq, heq⟩
  · -- nothing is stored
    have hnone : (processIndexData c env).2.stored = none := by rw [hout]
    refine ⟨?_, fun r hr => by rw [hnone] at hr; cases hr⟩
    have hstored : stored (h ++ [(.process env, .processed (processIndexData c env).2)]) =
        stored h := by simp [storedBy, hnone]
    have hsorted : (times (h ++ [(.process env,
        .processed (processIndexData c env).2)])).Pairwise (· ≤ ·) := by
      rw [times, hstored]; exact hI.sorted
    rcases hcase with heq | ⟨hnull, -⟩ | ⟨hready, heq⟩
    · refine ⟨hsorted, by rw [heq]; exact hI.mapped, ?_⟩
      rw [hstored, heq, lastReading_process]
      exact hI.clocked.imp_right fun hp => ⟨hp.1, hp.2.later (by omega)⟩
    · exact absurd hnull hI.mapped
    · obtain ⟨status, hinst, -⟩ := begun_eq c env hready
      refine ⟨hsorted, by rw [heq, hinst]; exact hI.mapped, .inr ?_⟩
      rw [hstored, heq, lastReading_process]
      exact ⟨hrun, hC.later hk⟩
  · -- a frame is stored
    obtain ⟨status, hinst, -⟩ := begun_eq c env hready
    obtain ⟨hsame, hle, hpast⟩ := recordTime_cases hC hk hlt (hc r hacq)
    obtain ⟨p, hp⟩ : ∃ p, patchFrameType (begun c env).inst.video_type
        (begun c env).g_rec_parseiframe r = p := ⟨_, rfl⟩
    rw [hp] at hsame hle hpast
    obtain ⟨time, htime⟩ : ∃ t, recordTime (begun c env) p.1 env = (t, t) :=
      ⟨_, Prod.ext rfl hsame⟩
    rw [htime] at hle hpast
    rw [heq, storeFrame_eq hp htime]
    refine ⟨⟨sorted_snoc hI.sorted hC hle rfl, ?_, .inr ⟨hrun, ?_⟩⟩, ?_⟩
    · show (begun c env).inst.pu8KnlVirAddr ≠ 0
      rw [hinst]
      exact hI.mapped
    · rw [lastReading_process]
      refine ⟨hpast, hpast, fun r₁ hr₁ => ?_, fun _ => rfl⟩
      simp only [stored_snoc, List.mem_append] at hr₁
      rcases hr₁ with hr₁ | hr₁
      · exact Nat.le_trans (hC.upto r₁ hr₁) hle
      · exact Nat.le_of_eq (congrArg (fun r => r.u32PrivatePara) (List.mem_singleton.mp hr₁))
    · intro r₁ hr₁
      rw [← Option.some.inj hr₁]
      exact hpast
  · obtain ⟨status, hinst, -⟩ := begun_eq c env hready
    have hupdate := hC.update
    rw [heq, insertTime]
    simp only
    split
    · -- the time alone is stored
      refine ⟨⟨sorted_snoc hI.sorted hC (Nat.le_trans hupdate hk) rfl, ?_, .inr ⟨hrun, ?_⟩⟩, ?_⟩
      · show (begun c env).inst.pu8KnlVirAddr ≠ 0
        rw [hinst]
        exact hI.mapped
      · rw [lastReading_process]
        refine ⟨Nat.le_trans hC.get hk, Nat.le_refl _, fun r' hr' => ?_, hC.frame⟩
        simp only [stored_snoc, List.mem_append] at hr'
        rcases hr' with hr' | hr'
        · exact Nat.le_trans (hC.upto r' hr') (Nat.le_trans hupdate hk)
        · exact Nat.le_of_eq (congrArg (fun r => r.u32PrivatePara) (List.mem_singleton.mp hr'))
      · intro r' hr'
        exact Nat.le_of_eq (congrArg (fun r => r.u32PrivatePara) (Option.some.inj hr').symm)
    · have hstored : ∀ out : StepOut, out.stored = none →
          stored (h ++ [(.process env, .processed out)]) = stored h := by
        intro out hout
        simp [storedBy, hout]
      refine ⟨⟨?_, ?_, .inr ⟨hrun, ?_⟩⟩, fun r hr => by cases hr⟩
      · rw [times, hstored _ rfl]
        exact hI.sorted
      · rw [hinst]
        exact hI.mapped
      · rw [hstored _ rfl, lastReading_process]
        exact hC.later hk

/-- A read leaves the times alone. -/
theorem Timed.read {c c' : Chn} {h : History} (hI : Timed c h) {i : RingInput} {out : RingOut}
    (hinst : c'.inst.pu8KnlVirAddr = c.inst.pu8KnlVirAddr ∧ c'.inst.status = c.inst.status)
    (htimes : c'.last_get = c.last_get ∧ c'.last_update = c.last_update ∧
      c'.g_pvr_index = c.g_pvr_index)
    (hi : readings i = []) (hstored : storedBy (i, out) = []) : Timed c' (h ++ [(i, out)]) := by
  have hsame : stored (h ++ [(i, out)]) = stored h := by rw [stored_snoc, hstored, List.append_nil]
  refine ⟨by rw [times, hsame]; exact hI.sorted, by rw [hinst.1]; exact hI.mapped, ?_⟩
  rw [hsame, lastReading_other h out hi, hinst.2]
  refine hI.clocked.imp_right fun hp => ⟨hp.1, ?_⟩
  obtain ⟨hget, hupdate, hframe⟩ := htimes
  exact
    { get := Nat.le_trans (Nat.le_of_eq hget) hp.2.get
      update := Nat.le_trans (Nat.le_of_eq hupdate) hp.2.update
      upto := by rw [hupdate]; exact hp.2.upto
      frame := by rw [hget, hframe]; exact hp.2.frame }

/-- One step under the clock and the condition. -/
theorem step_timed (s : Chn × History) (i : RingInput) (hI : Timed s.1 s.2)
    (hc : Ticks s i ∧ NoStaleTime s i) :
    TimesOk s i ∧ Timed (machine.traced.step s i).1.1 (machine.traced.step s i).1.2 := by
  obtain ⟨c, h⟩ := s
  cases i with
  | process env =>
    -- only this step stores indices
    obtain ⟨htimed, hpast⟩ := process_timed hI hc.1 hc.2
    refine ⟨⟨htimed.sorted, ?_⟩, htimed⟩
    rintro env' r henv hr
    cases henv
    exact hpast r hr
  | readData =>
    -- a reader moves the reading position alone
    have htimed : Timed (readData c).1 (h ++ [(.readData, .data (readData c).2)]) := by
      apply hI.read _ _ rfl rfl
      · unfold readData
        split
        · split <;> exact ⟨rfl, rfl⟩
        · exact ⟨rfl, rfl⟩
      · unfold readData
        split
        · split <;> exact ⟨rfl, rfl, rfl⟩
        · exact ⟨rfl, rfl, rfl⟩
    exact ⟨⟨htimed.sorted, nofun⟩, htimed⟩
  | readDataEx maxnum =>
    have htimed : Timed (readDataEx c maxnum).1
        (h ++ [(.readDataEx maxnum, .dataEx (readDataEx c maxnum).2)]) := by
      apply hI.read _ _ rfl
      · unfold storedBy
        rfl
      · unfold readDataEx
        split
        · simp only
          split <;> exact ⟨rfl, rfl⟩
        · exact ⟨rfl, rfl⟩
      · unfold readDataEx
        split
        · simp only
          split <;> exact ⟨rfl, rfl, rfl⟩
        · exact ⟨rfl, rfl, rfl⟩
    exact ⟨⟨htimed.sorted, nofun⟩, htimed⟩
  | readLastIndex =>
    have htimed : Timed (readLastIndex c).1
        (h ++ [(.readLastIndex, .last (readLastIndex c).2)]) := by
      apply hI.read _ _ rfl rfl
      · rw [readLast_inst]
        exact ⟨rfl, rfl⟩
      · unfold readLastIndex
        split <;> exact ⟨rfl, rfl, rfl⟩
    exact ⟨⟨htimed.sorted, nofun⟩, htimed⟩

/-! ## Runs -/

/-- Every run on a new channel with a clock that does not go back, in which no time is
    inserted before a late frame. -/
theorem times_ordered (buf : MmzBuffer) (size dmxid : Nat) (vdectype : VcodecType) (old : Chn)
    (inputs : List RingInput)
    (ht : machine.traced.Always Ticks (started buf size dmxid vdectype old, []) inputs)
    (hc : machine.traced.Always NoStaleTime (started buf size dmxid vdectype old, []) inputs) :
    machine.traced.Always TimesOk (started buf size dmxid vdectype old, []) inputs := by
  have hinst : (started buf size dmxid vdectype old).inst =
      { PvrShm.newInst buf size with rec_dmxid := dmxid, video_type := vdectype, status := 1 } :=
    if_neg buf.mapped
  have hI : Timed (started buf size dmxid vdectype old) [] :=
    { sorted := List.Pairwise.nil
      mapped := by rw [hinst]; exact buf.mapped
      clocked := .inl ⟨by rw [hinst], rfl⟩ }
  exact (Machine.always_of_invariant (I := fun s => Timed s.1 s.2) step_timed hI (ht.and _ hc)).1

/-- A frame, an inserted time, and a frame that is not late. -/
theorem times_ordered_three :
    machine.traced.Always TimesOk (mpegChn, [])
      [.process firstFrame, .process noFrame,
        .process { lateFrame with acquired := some { enFrameType := .p, u32PtsMs := 1400 },
                                  ktime := 2100, stampTime := 2100 }] :=
  times_ordered pageBuf 4080 0 .mpeg2 { inst := {} } _ (by decide +kernel) (by decide +kernel)

/-- The late frame behind an inserted time: 1000, 1210, 1060. -/
theorem times_disordered :
    machine.traced.Always Ticks (mpegChn, [])
        [.process firstFrame, .process noFrame, .process lateFrame] ∧
      ¬ machine.traced.Always TimesOk (mpegChn, [])
        [.process firstFrame, .process noFrame, .process lateFrame] := by
  refine ⟨by decide +kernel, ?_⟩
  rintro ⟨-, -, hlate, -⟩
  exact absurd hlate.sorted (by decide +kernel)

end Tntsat.PvrIdxRing
