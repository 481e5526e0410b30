import Tntsat.Native.MtosTimer

/-!
# Which callbacks the timers call

Between giving the semaphore for a timer and the start of its callback, the handler
still reads the slot.  As long as no delete of that slot and no create that takes it
comes in between, the callback is that of the timer that expired, a one-shot timer is
called once, and a deleted slot is silent.

## Key results

- `scan_spec`: what one pass over the slots does
- `step_timers`: one step that does not disturb the slot of a pending callback
- `timers_run`: every order of steps and calls without such a disturbance
- `create_in_between`: a create that takes the slot of a pending callback
-/

namespace Tntsat.MtosTimer

/-! ## The history of a run -/

/-- Steps and what was seen of them, oldest first. -/
abbrev History := List (TimerStep × TimerOut)

/-- The timers that the semaphore was given for. -/
def releasedBy : TimerStep × TimerOut → Option (Nat × TimerInfo)
  | (_, .released r) => r
  | _ => none

/-- The timer that the semaphore was last given for, as it was then. -/
def lastReleased (h : History) : Option (Nat × TimerInfo) := (h.filterMap releasedBy).getLast?

theorem lastReleased_snoc (h : History) (e : TimerStep × TimerOut) :
    lastReleased (h ++ [e]) = (releasedBy e).or (lastReleased h) := by
  cases hr : releasedBy e with
  | none => simp [lastReleased, hr]
  | some r => simp [lastReleased, hr]

/-- What the history says of the timers.  The timers of a slot are numbered by the
    creates that returned it. -/
structure Account where
  /-- the number of the slot's timer -/
  gen : Nat → Nat := fun _ => 0
  /-- the timer was created as a one-shot timer -/
  oneShot : Nat → Nat → Bool := fun _ _ => false
  /-- the timer whose procedure was read last -/
  read : Nat := 0
  /-- how often the procedure of the timer was called -/
  calls : Nat → Nat → Nat := fun _ _ => 0
  /-- a delete has returned, and no create has returned the slot since -/
  deleted : Nat → Bool := fun _ => false

/-- The account after one more step. -/
def Account.next (a : Account) : TimerStep × TimerOut → Account
  | (.create _ _ _ bcyclean, .created (some i)) =>
    { a with
      gen := Function.update a.gen i (a.gen i + 1)
      oneShot := Function.update a.oneShot i
        (Function.update (a.oneShot i) (a.gen i + 1) !bcyclean)
      deleted := Function.update a.deleted i false }
  | (_, .read (some i)) => { a with read := a.gen i }
  | (_, .called (some (i, _, _))) =>
    { a with
      calls := Function.update a.calls i
        (Function.update (a.calls i) a.read (a.calls i a.read + 1)) }
  | (.delete ntimerid, _) =>
    if validTimer ntimerid then { a with deleted := Function.update a.deleted ntimerid.toNat true }
    else a
  | _ => a

/-- The account of a history. -/
def account (h : History) : Account := h.foldl Account.next {}

theorem account_snoc (h : History) (e : TimerStep × TimerOut) :
    account (h ++ [e]) = (account h).next e := by
  rw [account, List.foldl_append]
  rfl

/-! ## The condition -/

/-- The slot whose callback has not begun. -/
def Handler.slot : Handler → Option Nat
  | .released i _ _ => some i
  | _ => none

/-- The slot that the handler still has to read. -/
def Handler.unread : Handler → Option Nat
  | .released _ (some _) (some _) => none
  | .released i _ _ => some i
  | _ => none

/-- No delete of the slot of a pending callback, and no create that takes the slot
    before the handler has read it. -/
def Undisturbed (s : TimerCtrl × History) : TimerStep → Prop
  | .delete ntimerid => ∀ i ∈ s.1.handler.slot, ntimerid ≠ (i : Int)
  | .create ntimerval timerproc _ _ => timerproc ≠ 0 → 0 < s32 ntimerval →
      ∀ i ∈ s.1.handler.unread, freeTimer s.1.timer ≠ some i
  | _ => True

instance : ∀ (s : TimerCtrl × History) (i : TimerStep), Decidable (Undisturbed s i)
  | s, .delete _ => inferInstanceAs (Decidable (∀ i ∈ s.1.handler.slot, _))
  | s, .create _ _ _ _ => inferInstanceAs (Decidable (_ → _ → ∀ i ∈ s.1.handler.unread, _))
  | _, .tick => inferInstanceAs (Decidable True)
  | _, .readProc => inferInstanceAs (Decidable True)
  | _, .readContext => inferInstanceAs (Decidable True)
  | _, .callProc => inferInstanceAs (Decidable True)
  | _, .callReturn => inferInstanceAs (Decidable True)
  | _, .start _ => inferInstanceAs (Decidable True)
  | _, .stop _ => inferInstanceAs (Decidable True)
  | _, .reset _ _ => inferInstanceAs (Decidable True)
  | _, .suspend => inferInstanceAs (Decidable True)
  | _, .resume => inferInstanceAs (Decidable True)

/-! ## One pass over the slots -/

/-- The timer is the same, but for the time it has run. -/
def Ticked (tm tm' : TimerInfo) : Prop := ∃ e, tm' = { tm with elapse := e }

theorem Ticked.refl (tm : TimerInfo) : Ticked tm tm := ⟨tm.elapse, rfl⟩

theorem Ticked.trans {tm tm' tm'' : TimerInfo} (h : Ticked tm tm') (h' : Ticked tm' tm'') :
    Ticked tm tm'' := by
  obtain ⟨e, rfl⟩ := h
  obtain ⟨e', rfl⟩ := h'
  exact ⟨e', rfl⟩

/-- The timer has expired: it is in use, not paused, and has reached its interval. -/
structure Expired (tm : TimerInfo) : Prop where
  used : tm.is_used = true
  unpaused : tm.is_paused = false
  reached : tm.interval ≤ tm.elapse

/-- What a pass does to the table. -/
structure Scanned (timer timer' : Nat → TimerInfo) (found : Option (Nat × TimerInfo)) : Prop where
  others : ∀ j, (∀ tm, found ≠ some (j, tm)) → Ticked (timer j) (timer' j)
  expired : ∀ i tm, found = some (i, tm) →
    Expired tm ∧ Ticked (timer i) tm ∧ timer' i = tm.expired

/-- One pass over any slots. -/
theorem scan_spec (timer : Nat → TimerInfo) (slots : List Nat) :
    Scanned timer (scan timer slots).1 (scan timer slots).2 := by
  induction slots generalizing timer with
  | nil => exact ⟨fun j _ => Ticked.refl _, nofun⟩
  | cons i slots ih =>
    rw [scan]
    split
    · exact ih timer
    · rename_i hrun
      obtain ⟨hused, hpaused⟩ := not_or.mp hrun
      dsimp only
      split
      · -- the timer expires
        rename_i hreached
        refine ⟨fun j hj => ?_, ?_⟩
        · have hne : j ≠ i := fun heq => hj _ (by rw [heq])
          dsimp only
          rw [Function.update_of_ne hne]
          exact Ticked.refl _
        · rintro _ _ ⟨⟩
          refine ⟨⟨?_, ?_, hreached⟩, ⟨_, rfl⟩, Function.update_self ..⟩
          · simpa using hused
          · simpa using hpaused
      · -- the timer goes on, and the pass with it
        have hticked : ∀ j, Ticked (timer j) (Function.update timer i
            { timer i with elapse := s32 ((timer i).elapse + timerPerMsec) } j) := by
          intro j
          by_cases hj : j = i
          · subst hj
            rw [Function.update_self]
            exact ⟨_, rfl⟩
          · rw [Function.update_of_ne hj]
            exact Ticked.refl _
        have hrest := ih (Function.update timer i
          { timer i with elapse := s32 ((timer i).elapse + timerPerMsec) })
        refine ⟨fun j hj => (hticked j).trans (hrest.others j hj), fun k tm hfound => ?_⟩
        obtain ⟨hexp, htick, hleft⟩ := hrest.expired k tm hfound
        exact ⟨hexp, (hticked k).trans htick, hleft⟩

/-! ## The invariant -/

/-- A callback is pending: what has been read, and what there is still to read, is
    that of the timer that expired. -/
structure Pending (c : TimerCtrl) (h : History) (i : Nat) (timer_proc context : Option Nat)
    (tm : TimerInfo) : Prop where
  last : lastReleased h = some (i, tm)
  expired : Expired tm
  procRead : ∀ v, timer_proc = some v → v = tm.timer_proc
  contextRead : ∀ v, context = some v → v = tm.context
  unread : timer_proc = none ∨ context = none →
    (c.timer i).timer_proc = tm.timer_proc ∧ (c.timer i).context = tm.context
  /-- the slot has not been deleted -/
  known : (account h).deleted i = false
  /-- the procedure was read of a timer that the slot has had -/
  gen : timer_proc ≠ none → (account h).read ≤ (account h).gen i

/-- The timer whose callback is pending in a slot. -/
def pendingGen (handler : Handler) (a : Account) (j : Nat) : Option Nat :=
  match handler with
  | .released i timer_proc _ =>
    if i = j then some (if timer_proc = none then a.gen i else a.read) else none
  | _ => none

/-- The calls that a timer may still get: the pending one, and another if it is the
    one in the slot. -/
def owed (c : TimerCtrl) (a : Account) (j g : Nat) : Nat :=
  (if pendingGen c.handler a j = some g then 1 else 0) +
    if (c.timer j).is_used = true ∧ a.gen j = g then 1 else 0

/-- What holds between the steps. -/
structure Inv (c : TimerCtrl) (h : History) : Prop where
  pending : ∀ i timer_proc context, c.handler = .released i timer_proc context →
    ∃ tm, Pending c h i timer_proc context tm
  silent : ∀ j, (account h).deleted j = true → (c.timer j).is_used = false
  cycle : ∀ j, (c.timer j).is_used = true →
    (account h).oneShot j ((account h).gen j) = !(c.timer j).is_cycle
  fresh : ∀ j g, (account h).gen j < g →
    (account h).calls j g = 0 ∧ (account h).oneShot j g = false
  once : ∀ j g, (account h).oneShot j g = true →
    (account h).calls j g + owed c (account h) j g ≤ 1

/-- The timer in a slot is the same one. -/
structure Kept (tm tm' : TimerInfo) : Prop where
  used : tm'.is_used = tm.is_used
  proc : tm'.timer_proc = tm.timer_proc
  context : tm'.context = tm.context
  cycle : tm'.is_cycle = tm.is_cycle

theorem Kept.refl (tm : TimerInfo) : Kept tm tm := ⟨rfl, rfl, rfl, rfl⟩

theorem Ticked.kept {tm tm' : TimerInfo} (h : Ticked tm tm') : Kept tm tm' := by
  obtain ⟨e, rfl⟩ := h
  exact ⟨rfl, rfl, rfl, rfl⟩

/-- Setting a timer that is the same one. -/
theorem kept_setTimer (c : TimerCtrl) {i : Nat} {tm : TimerInfo} (h : Kept (c.timer i) tm)
    (j : Nat) : Kept (c.timer j) ((c.setTimer i tm).timer j) := by
  unfold TimerCtrl.setTimer
  dsimp only
  by_cases hj : j = i
  · subst hj
    rw [Function.update_self]
    exact h
  · rw [Function.update_of_ne hj]
    exact Kept.refl _

/-- A step that leaves the handler and the timers as they are. -/
theorem Inv.frame {c c' : TimerCtrl} {h : History} (hI : Inv c h) {e : TimerStep × TimerOut}
    (hkept : ∀ j, Kept (c.timer j) (c'.timer j)) (hhandler : c'.handler = c.handler)
    (haccount : (account h).next e = account h) (hreleased : releasedBy e = none) :
    Inv c' (h ++ [e]) := by
  have ha : account (h ++ [e]) = account h := by rw [account_snoc, haccount]
  refine ⟨fun i p x hp => ?_, fun j hj => ?_, fun j hj => ?_, fun j g hg => ?_, fun j g hg => ?_⟩
  -- what the invariant says of a timer is about fields that are kept
  · rw [hhandler] at hp
    obtain ⟨tm, hpend⟩ := hI.pending i p x hp
    refine ⟨tm, ⟨?_, hpend.expired, hpend.procRead, hpend.contextRead, fun hun => ?_, ?_, ?_⟩⟩
    · rw [lastReleased_snoc, hreleased]
      exact hpend.last
    · rw [(hkept i).proc, (hkept i).context]
      exact hpend.unread hun
    · rw [ha]
      exact hpend.known
    · rw [ha]
      exact hpend.gen
  · rw [ha] at hj
    rw [(hkept j).used]
    exact hI.silent j hj
  · rw [(hkept j).used] at hj
    rw [ha, (hkept j).cycle]
    exact hI.cycle j hj
  · rw [ha] at hg ⊢
    exact hI.fresh j g hg
  · rw [ha] at hg ⊢
    rw [owed, hhandler, (hkept j).used]
    exact hI.once j g hg

/-! ## The steps of the handler -/

/-- A pass starts when no callback is pending. -/
theorem Inv.scan {c : TimerCtrl} {h : History} (hI : Inv c h) (hslot : c.handler.slot = none)
    {i : Nat} {st : TimerStep} (hst : ∀ a b cc d, st ≠ .create a b cc d)
    (hdel : ∀ a, st ≠ .delete a) :
    Inv (scanFrom c i).1 (h ++ [(st, .released (scanFrom c i).2)]) := by
  have ha : account (h ++ [(st, .released (scanFrom c i).2)]) = account h := by
    rw [account_snoc]
    cases st with
    | create a b cc d => exact absurd rfl (hst a b cc d)
    | delete a => exact absurd rfl (hdel a)
    | _ => rfl
  obtain ⟨hothers, hexpired⟩ := scan_spec c.timer (List.range' i (timerMaxNum - i))
  have hnone : ∀ j g, (if pendingGen c.handler (account h) j = some g then 1 else 0) = 0 := by
    intro j g
    cases hh : c.handler with
    | released k p x => rw [hh] at hslot; cases hslot
    | idle => rfl
    | calling k => rfl
  unfold scanFrom at ha ⊢
  dsimp only at ha ⊢
  generalize hfound : (MtosTimer.scan c.timer (List.range' i (timerMaxNum - i))).2 = found at *
  generalize (MtosTimer.scan c.timer (List.range' i (timerMaxNum - i))).1 = timer' at *
  cases found with
  | none =>
    -- the handler is done
    have hkept : ∀ j, Kept (c.timer j) (timer' j) := fun j => (hothers j nofun).kept
    refine ⟨nofun, fun j hj => ?_, fun j hj => ?_, fun j g hg => ?_, fun j g hg => ?_⟩
    · rw [ha] at hj
      exact (hkept j).used.trans (hI.silent j hj)
    · rw [(hkept j).used] at hj
      rw [ha, (hkept j).cycle]
      exact hI.cycle j hj
    · rw [ha] at hg ⊢
      exact hI.fresh j g hg
    · rw [ha] at hg ⊢
      have honce := hI.once j g hg
      rw [owed, hnone] at honce
      rw [owed, (hkept j).used]
      exact honce
  | some r =>
    obtain ⟨k, tm⟩ := r
    obtain ⟨hexp, hticked, hleft⟩ := hexpired k tm rfl
    have hkept : ∀ j, j ≠ k → Kept (c.timer j) (timer' j) := by
      intro j hj
      exact (hothers j fun tm' heq => hj (congrArg Prod.fst (Option.some.inj heq)).symm).kept
    have hslotk := hticked.kept
    have hused : (c.timer k).is_used = true := hslotk.used.symm.trans hexp.used
    have hleftk : (timer' k).timer_proc = tm.timer_proc ∧ (timer' k).context = tm.context ∧
        (timer' k).is_used = tm.is_cycle ∧ (timer' k).is_cycle = tm.is_cycle := by
      rw [hleft]
      unfold TimerInfo.expired
      split
      · rename_i hcyc
        exact ⟨rfl, rfl, hcyc.symm, rfl⟩
      · rename_i hcyc
        exact ⟨rfl, rfl, hexp.used.trans (by simpa using hcyc), rfl⟩
    have hcycle := hI.cycle k hused
    refine ⟨?_, fun j hj => ?_, fun j hj => ?_, fun j g hg => ?_, fun j g hg => ?_⟩
    · rintro _ _ _ ⟨⟩
      refine ⟨tm, ⟨?_, hexp, nofun, nofun, fun _ => ⟨hleftk.1, hleftk.2.1⟩, ?_, nofun⟩⟩
      · rw [lastReleased_snoc]
        rfl
      · -- a slot in use has not been deleted
        rw [ha]
        cases hdeleted : (account h).deleted k with
        | false => rfl
        | true => rw [hI.silent k hdeleted] at hused; cases hused
    · rw [ha] at hj
      have hunused := hI.silent j hj
      have hne : j ≠ k := fun heq => by rw [heq, hused] at hunused; cases hunused
      exact (hkept j hne).used.trans hunused
    · rw [ha]
      by_cases hjk : j = k
      · subst hjk
        rw [hleftk.2.2.2, hslotk.cycle]
        exact hcycle
      · rw [(hkept j hjk).used] at hj
        rw [(hkept j hjk).cycle]
        exact hI.cycle j hj
    · rw [ha] at hg ⊢
      exact hI.fresh j g hg
    · rw [ha] at hg ⊢
      have honce := hI.once j g hg
      rw [owed, hnone] at honce
      by_cases hjk : j = k
      · subst hjk
        -- a one-shot timer leaves its slot with the pending call
        simp only [owed, pendingGen, if_pos, hleftk.2.2.1, hslotk.cycle]
        rw [hused] at honce
        by_cases hgen : (account h).gen j = g
        · subst hgen
          rw [hg] at hcycle
          have hshot : (c.timer j).is_cycle = false := by simpa using hcycle.symm
          simpa [hshot] using honce
        · simp [hgen]
          omega
      · have hne : pendingGen (.released k none none) (account h) j = none :=
          if_neg fun heq => hjk heq.symm
        rw [owed]
        dsimp only
        rw [hne, (hkept j hjk).used]
        simpa using honce

/-- The handler has read the procedure or the context of the slot, and the timers are
    as they were. -/
theorem Inv.reread {c : TimerCtrl} {h : History} (hI : Inv c h) {e : TimerStep × TimerOut} {i : Nat}
    {p p' x x' : Option Nat} {tm : TimerInfo} {a : Account}
    (hh : c.handler = .released i p x) (hpend : Pending c h i p x tm)
    (hunread : p = none ∨ x = none) (hreleased : releasedBy e = none)
    (haccount : (account h).next e = a)
    (hsame : a.gen = (account h).gen ∧ a.oneShot = (account h).oneShot ∧
      a.calls = (account h).calls ∧ a.deleted = (account h).deleted)
    (hp : ∀ v, p' = some v → v = (c.timer i).timer_proc ∨ p = some v)
    (hx : ∀ v, x' = some v → v = (c.timer i).context ∨ x = some v)
    (hunread' : p' = none ∨ x' = none → p = none ∨ x = none)
    (hread : p' ≠ none → a.read ≤ a.gen i)
    (hgen : (if p' = none then a.gen i else a.read) =
      if p = none then (account h).gen i else (account h).read) :
    Inv { c with handler := .released i p' x' } (h ++ [e]) := by
  -- nothing is called or deleted, so the account differs in what has been read alone
  have ha : account (h ++ [e]) = a := by rw [account_snoc, haccount]
  obtain ⟨hgens, hshots, hcalls, hdeleted⟩ := hsame
  obtain ⟨hproc, hcontext⟩ := hpend.unread hunread
  refine ⟨?_, fun j hj => ?_, fun j hj => ?_, fun j g hg => ?_, fun j g hg => ?_⟩
  -- what the handler has read is what the timer held, now or at its release
  · rintro _ _ _ ⟨⟩
    refine ⟨tm, ⟨?_, hpend.expired, fun v hv => ?_, fun v hv => ?_, fun hun => ?_, ?_, ?_⟩⟩
    · rw [lastReleased_snoc, hreleased]
      exact hpend.last
    · rcases hp v hv with hnow | hbefore
      · rw [hnow, hproc]
      · exact hpend.procRead v hbefore
    · rcases hx v hv with hnow | hbefore
      · rw [hnow, hcontext]
      · exact hpend.contextRead v hbefore
    · exact hpend.unread (hunread' hun)
    · rw [ha, hdeleted]
      exact hpend.known
    · rw [ha]
      exact hread
  · rw [ha, hdeleted] at hj
    exact hI.silent j hj
  · rw [ha, hshots, hgens]
    exact hI.cycle j hj
  · rw [ha, hgens] at hg
    rw [ha, hcalls, hshots]
    exact hI.fresh j g hg
  -- the pending call still belongs to the same life of the timer
  · rw [ha, hshots] at hg
    have honce := hI.once j g hg
    have hsamegen : pendingGen (.released i p' x') a j = pendingGen c.handler (account h) j := by
      rw [hh]
      unfold pendingGen
      dsimp only
      rw [hgen]
    rw [owed] at honce ⊢
    dsimp only
    rw [ha, hcalls, hgens, hsamegen]
    exact honce

theorem Inv.readProc {c : TimerCtrl} {h : History} (hI : Inv c h) :
    Inv (readProc c).1 (h ++ [(.readProc, .read (readProc c).2)]) := by
  unfold MtosTimer.readProc
  split
  · rename_i i x hh
    obtain ⟨tm, hpend⟩ := hI.pending i none x hh
    refine hI.reread hh hpend (.inl rfl) rfl rfl ⟨rfl, rfl, rfl, rfl⟩ ?_ (fun v hv => .inr hv)
      (fun _ => .inl rfl) (fun _ => Nat.le_refl _) rfl
    rintro _ ⟨⟩
    exact .inl rfl
  · exact hI.frame (fun j => Kept.refl _) rfl rfl rfl

theorem Inv.readContext {c : TimerCtrl} {h : History} (hI : Inv c h) :
    Inv (readContext c) (h ++ [(.readContext, .none)]) := by
  unfold MtosTimer.readContext
  split
  · rename_i i p hh
    obtain ⟨tm, hpend⟩ := hI.pending i p none hh
    refine hI.reread hh hpend (.inr rfl) rfl rfl ⟨rfl, rfl, rfl, rfl⟩ (fun v hv => .inr hv) ?_
      (fun _ => .inr rfl) hpend.gen rfl
    rintro _ ⟨⟩
    exact .inl rfl
  · exact hI.frame (fun j => Kept.refl _) rfl rfl rfl

theorem Inv.callProc {c : TimerCtrl} {h : History} (hI : Inv c h) :
    Inv (callProc c).1 (h ++ [(.callProc, .called (callProc c).2)]) := by
  unfold MtosTimer.callProc
  split
  · rename_i i proc context hh
    obtain ⟨tm, hpend⟩ := hI.pending i _ _ hh
    have hread := hpend.gen nofun
    have hcalls : ∀ j g, (account (h ++ [(.callProc,
        .called (some (i, proc, context)))])).calls j g =
        (account h).calls j g + if j = i ∧ g = (account h).read then 1 else 0 := by
      intro j g
      rw [account_snoc]
      show Function.update (account h).calls i _ j g = _
      by_cases hj : j = i
      · subst hj
        rw [Function.update_self]
        by_cases hg : g = (account h).read
        · subst hg
          simp
        · simp [hg]
      · simp [hj]
    refine ⟨nofun, fun j hj => ?_, fun j hj => ?_, fun j g hg => ?_, fun j g hg => ?_⟩
    · rw [account_snoc] at hj
      exact hI.silent j hj
    · rw [account_snoc]
      exact hI.cycle j hj
    · rw [account_snoc] at hg
      have hfresh := hI.fresh j g hg
      refine ⟨?_, by rw [account_snoc]; exact hfresh.2⟩
      rw [hcalls, hfresh.1, if_neg]
      -- the timer that was read is not a later one
      rintro ⟨rfl, rfl⟩
      exact absurd hread (Nat.not_le.mpr hg)
    · have hshot : (account h).oneShot j g = true := by
        rw [account_snoc] at hg
        exact hg
      have honce := hI.once j g hshot
      rw [owed, hh] at honce
      rw [hcalls, owed, account_snoc]
      by_cases hj : j = i ∧ g = (account h).read
      · obtain ⟨rfl, rfl⟩ := hj
        simp only [pendingGen, if_pos, reduceCtorEq, if_false] at honce
        simp only [pendingGen, and_self, if_true, reduceCtorEq, if_false]
        exact Nat.le_trans (Nat.le_of_eq (by rw [Nat.zero_add, Nat.add_assoc]; rfl)) honce
      · rw [if_neg hj]
        exact Nat.le_trans (Nat.add_le_add_left (Nat.add_le_add_right (Nat.zero_le _) _) _) honce
  · exact hI.frame (fun j => Kept.refl _) rfl rfl rfl

/-! ## The calls of the other tasks -/

/-- A new timer in a slot that was free. -/
theorem Inv.create {c : TimerCtrl} {h : History} (hI : Inv c h) {i : Nat}
    (hfree : (c.timer i).is_used = false) (hun : ∀ k ∈ c.handler.unread, k ≠ i)
    (tm : TimerInfo) {n timerproc context : Nat} :
    Inv (c.setTimer i tm)
      (h ++ [(.create n timerproc context tm.is_cycle, .created (some i))]) := by
  obtain ⟨a, ha, hgen, hshot, hread, hcalls, hdeleted⟩ : ∃ a,
      account (h ++ [(.create n timerproc context tm.is_cycle, .created (some i))]) = a ∧
      a.gen = Function.update (account h).gen i ((account h).gen i + 1) ∧
      a.oneShot = Function.update (account h).oneShot i
        (Function.update ((account h).oneShot i) ((account h).gen i + 1) !tm.is_cycle) ∧
      a.read = (account h).read ∧ a.calls = (account h).calls ∧
      a.deleted = Function.update (account h).deleted i false := by
    rw [account_snoc]
    exact ⟨_, rfl, rfl, rfl, rfl, rfl, rfl⟩
  have htimer : ∀ j, j ≠ i → (c.setTimer i tm).timer j = c.timer j :=
    fun j hj => Function.update_of_ne hj ..
  have hself : (c.setTimer i tm).timer i = tm := Function.update_self ..
  have hgeni : a.gen i = (account h).gen i + 1 := by rw [hgen, Function.update_self]
  have hgenj : ∀ j, j ≠ i → a.gen j = (account h).gen j := by
    intro j hj
    rw [hgen, Function.update_of_ne hj]
  -- the handler has read a pending callback of the slot
  have hpast : ∀ p x, c.handler = .released i p x →
      p ≠ none ∧ x ≠ none ∧ (account h).read ≤ (account h).gen i := by
    intro p x hh
    obtain ⟨tm', hpend⟩ := hI.pending i p x hh
    cases p with
    | none => exact absurd rfl (hun i (by rw [hh]; rfl))
    | some v =>
      cases x with
      | none => exact absurd rfl (hun i (by rw [hh]; rfl))
      | some w => exact ⟨nofun, nofun, hpend.gen nofun⟩
  have hsame : ∀ j, pendingGen c.handler a j = pendingGen c.handler (account h) j := by
    intro j
    cases hh : c.handler with
    | idle => rfl
    | calling k => rfl
    | released k p x =>
      unfold pendingGen
      dsimp only
      rw [hread]
      by_cases hk : k = i
      · subst hk
        rw [if_neg (hpast p x hh).1, if_neg (hpast p x hh).1]
      · rw [hgenj k hk]
  have hle : ∀ g, pendingGen c.handler (account h) i = some g → g ≤ (account h).gen i := by
    intro g hg
    cases hh : c.handler with
    | idle => rw [hh] at hg; cases hg
    | calling k => rw [hh] at hg; cases hg
    | released k p x =>
      rw [hh] at hg
      unfold pendingGen at hg
      dsimp only at hg
      split at hg
      · rename_i hk
        subst hk
        obtain ⟨hp, -, hpast⟩ := hpast p x hh
        rw [if_neg hp] at hg
        exact Option.some.inj hg ▸ hpast
      · cases hg
  refine ⟨fun j p x hh => ?_, fun j hj => ?_, fun j hj => ?_, fun j g hg => ?_,
    fun j g hg => ?_⟩
  · have hh : c.handler = .released j p x := hh
    obtain ⟨tm', hpend⟩ := hI.pending j p x hh
    refine ⟨tm', ⟨?_, hpend.expired, hpend.procRead, hpend.contextRead, fun hnone => ?_, ?_,
      fun hne => ?_⟩⟩
    · rw [lastReleased_snoc]
      exact hpend.last
    · have hj : j ≠ i := by
        rintro rfl
        obtain ⟨hp, hx, -⟩ := hpast p x hh
        exact hnone.elim hp hx
      rw [htimer j hj]
      exact hpend.unread hnone
    · rw [ha, hdeleted]
      by_cases hj : j = i
      · rw [hj, Function.update_self]
      · rw [Function.update_of_ne hj]
        exact hpend.known
    · have hbefore := hpend.gen hne
      rw [ha, hread]
      by_cases hj : j = i
      · subst hj
        rw [hgeni]
        exact Nat.le_succ_of_le hbefore
      · rw [hgenj j hj]
        exact hbefore
  · rw [ha, hdeleted] at hj
    by_cases hji : j = i
    · rw [hji, Function.update_self] at hj
      cases hj
    · rw [Function.update_of_ne hji] at hj
      rw [htimer j hji]
      exact hI.silent j hj
  · rw [ha, hshot]
    by_cases hji : j = i
    · subst hji
      rw [hself, hgeni, Function.update_self, Function.update_self]
    · rw [htimer j hji] at hj ⊢
      rw [hgenj j hji, Function.update_of_ne hji]
      exact hI.cycle j hj
  · rw [ha] at hg ⊢
    rw [hcalls, hshot]
    by_cases hji : j = i
    · subst hji
      rw [hgeni] at hg
      rw [Function.update_self, Function.update_of_ne (by omega)]
      exact hI.fresh j g (by omega)
    · rw [hgenj j hji] at hg
      rw [Function.update_of_ne hji]
      exact hI.fresh j g hg
  · have hhandler : (c.setTimer i tm).handler = c.handler := rfl
    rw [ha, hshot] at hg
    rw [ha, hcalls, owed, hhandler, hsame]
    by_cases hji : j = i
    · subst hji
      rw [Function.update_self] at hg
      rw [hself, hgeni]
      by_cases hnew : g = (account h).gen j + 1
      · -- the new timer has not been called, and is not pending
        have hzero := (hI.fresh j g (by omega)).1
        have hnone : pendingGen c.handler (account h) j ≠ some g :=
          fun hp => absurd (hle g hp) (by omega)
        rw [hzero, if_neg hnone]
        split <;> omega
      · -- the timer before it is no longer in the slot
        rw [Function.update_of_ne hnew] at hg
        have honce := hI.once j g hg
        have hgone : ¬ (tm.is_used = true ∧ (account h).gen j + 1 = g) := fun hp => hnew hp.2.symm
        rw [owed] at honce
        rw [if_neg hgone]
        omega
    · rw [Function.update_of_ne hji] at hg
      rw [htimer j hji, hgenj j hji]
      exact hI.once j g hg

theorem Inv.mtosTimerCreate {c : TimerCtrl} {h : History} (hI : Inv c h)
    {n timerproc context : Nat} {bcyclean : Bool}
    (hc : Undisturbed (c, h) (.create n timerproc context bcyclean)) :
    Inv (mtosTimerCreate c n timerproc context bcyclean).1
      (h ++ [(.create n timerproc context bcyclean,
        .created (mtosTimerCreate c n timerproc context bcyclean).2)]) := by
  unfold MtosTimer.mtosTimerCreate setATimer
  split
  · exact hI.frame (fun j => Kept.refl _) rfl rfl rfl
  · rename_i hparam
    obtain ⟨hproc, hinterval⟩ := not_or.mp hparam
    have hfreeNe := hc hproc (Int.not_le.mp hinterval)
    split
    · exact hI.frame (fun j => Kept.refl _) rfl rfl rfl
    · rename_i i hfree
      have hunused : (c.timer i).is_used = false := by
        unfold freeTimer at hfree
        simpa using List.find?_some hfree
      exact hI.create hunused (fun k hk heq => hfreeNe k hk (by rw [heq]; exact hfree))
        { timer_proc := timerproc, context := context, interval := s32 n, is_cycle := bcyclean,
          is_used := true }

/-- A deleted slot is silent from then on. -/
theorem Inv.mtosTimerDelete {c : TimerCtrl} {h : History} (hI : Inv c h) {ntimerid : Int}
    (hc : Undisturbed (c, h) (.delete ntimerid)) :
    Inv (mtosTimerDelete c ntimerid) (h ++ [(.delete ntimerid, .none)]) := by
  unfold MtosTimer.mtosTimerDelete
  split
  · rename_i hvalid
    obtain ⟨i, rfl⟩ : ∃ i : Nat, ntimerid = i := by
      have hnonneg : 0 ≤ ntimerid := by
        simp only [validTimer, Bool.and_eq_true, decide_eq_true_eq] at hvalid
        exact hvalid.1
      exact Int.eq_ofNat_of_zero_le hnonneg
    rw [Int.toNat_natCast]
    -- the account changes only in that the timer is deleted
    obtain ⟨a, ha, hgen, hshot, hread, hcalls, hdeleted⟩ : ∃ a,
        account (h ++ [(.delete (i : Int), .none)]) = a ∧ a.gen = (account h).gen ∧
        a.oneShot = (account h).oneShot ∧ a.read = (account h).read ∧
        a.calls = (account h).calls ∧
        a.deleted = Function.update (account h).deleted i true := by
      rw [account_snoc]
      exact ⟨_, if_pos hvalid, rfl, rfl, rfl, rfl, by rw [Int.toNat_natCast]⟩
    have htimer : ∀ j, j ≠ i → (c.setTimer i {}).timer j = c.timer j :=
      fun j hj => Function.update_of_ne hj ..
    have hself : (c.setTimer i {}).timer i = {} := Function.update_self ..
    -- the timer whose handler is pending is another one
    have hother : ∀ j p x, c.handler = .released j p x → j ≠ i := by
      rintro j p x hh rfl
      exact hc j (by rw [hh]; rfl) rfl
    refine ⟨fun j p x hh => ?_, fun j hj => ?_, fun j hj => ?_, fun j g hg => ?_,
      fun j g hg => ?_⟩
    -- the pending handler keeps what it has read
    · have hji := hother j p x hh
      obtain ⟨tm, hpend⟩ := hI.pending j p x hh
      refine ⟨tm, ⟨?_, hpend.expired, hpend.procRead, hpend.contextRead, fun hun => ?_, ?_, ?_⟩⟩
      · rw [lastReleased_snoc]
        exact hpend.last
      · rw [htimer j hji]
        exact hpend.unread hun
      · rw [ha, hdeleted, Function.update_of_ne hji]
        exact hpend.known
      · rw [ha, hread, hgen]
        exact hpend.gen
    -- the deleted timer is silent, and the others are as before
    · by_cases hji : j = i
      · rw [hji, hself]
      · rw [ha, hdeleted, Function.update_of_ne hji] at hj
        rw [htimer j hji]
        exact hI.silent j hj
    -- a cyclic timer that still runs is another one
    · by_cases hji : j = i
      · rw [hji, hself] at hj
        cases hj
      · rw [htimer j hji] at hj ⊢
        rw [ha, hshot, hgen]
        exact hI.cycle j hj
    · rw [ha, hgen] at hg
      rw [ha, hcalls, hshot]
      exact hI.fresh j g hg
    -- a one-shot timer is owed at most one call; deleting it takes away what it was owed
    · rw [ha, hshot] at hg
      have honce := hI.once j g hg
      have hpend : pendingGen c.handler a j = pendingGen c.handler (account h) j := by
        unfold pendingGen
        rw [hgen, hread]
      have hhandler : (c.setTimer i {}).handler = c.handler := rfl
      rw [ha, hcalls, owed, hhandler, hpend, hgen]
      rw [owed] at honce
      by_cases hji : j = i
      · subst hji
        have hgone : ¬ (((c.setTimer j {}).timer j).is_used = true ∧ (account h).gen j = g) := by
          rw [hself]
          exact fun hp => absurd hp.1 Bool.false_ne_true
        rw [if_neg hgone]
        omega
      · rw [htimer j hji]
        exact honce
  · rename_i hinvalid
    -- an id out of range changes nothing
    exact hI.frame (fun j => Kept.refl _) rfl (if_neg hinvalid) rfl

/-! ## Runs -/

/-- What a step promises. -/
structure StepOk (s : TimerCtrl × History) (i : TimerStep) : Prop where
  /-- a callback is the one of the timer that the semaphore was given for, which had
      expired -/
  called : ∀ j timer_proc context,
    (machine.step s.1 i).2 = .called (some (j, timer_proc, context)) →
      ∃ tm, lastReleased s.2 = some (j, tm) ∧ Expired tm ∧ timer_proc = tm.timer_proc ∧
        context = tm.context
  /-- a one-shot timer is called at most once -/
  once : ∀ j g, (account (machine.traced.step s i).1.2).oneShot j g = true →
    (account (machine.traced.step s i).1.2).calls j g ≤ 1
  /-- no callback of a deleted slot starts -/
  silent : ∀ j timer_proc context,
    (machine.step s.1 i).2 = .called (some (j, timer_proc, context)) →
      (account s.2).deleted j = false

/-- Every step and call that does not disturb a pending callback. -/
theorem step_inv (s : TimerCtrl × History) (i : TimerStep) (hI : Inv s.1 s.2)
    (hc : Undisturbed s i) :
    Inv (machine.traced.step s i).1.1 (machine.traced.step s i).1.2 := by
  obtain ⟨c, h⟩ := s
  -- starting and stopping a timer touch only its pause flag
  have hpaused : ∀ ntimerid b st, (∀ a b cc d, st ≠ .create a b cc d) → (∀ a, st ≠ .delete a) →
      Inv (setPaused c ntimerid b) (h ++ [(st, .none)]) := by
    intro ntimerid b st hst hdel
    have ha : (account h).next (st, .none) = account h := by
      cases st with
      | create a b cc d => exact absurd rfl (hst a b cc d)
      | delete a => exact absurd rfl (hdel a)
      | _ => rfl
    unfold setPaused
    split
    · exact hI.frame (kept_setTimer c ⟨rfl, rfl, rfl, rfl⟩) rfl ha rfl
    · exact hI.frame (fun j => Kept.refl _) rfl ha rfl
  cases i with
  | tick =>
    show Inv (tick c).1 (h ++ [(.tick, .released (tick c).2)])
    unfold tick
    split
    -- a tick scans the timers only while no handler is pending
    · rename_i hh
      split
      · exact hI.frame (fun j => Kept.refl _) rfl rfl rfl
      · exact hI.scan (by rw [hh]; rfl) nofun nofun
    · exact hI.frame (fun j => Kept.refl _) rfl rfl rfl
  | readProc => exact hI.readProc
  | readContext => exact hI.readContext
  | callProc => exact hI.callProc
  | callReturn =>
    show Inv (callReturn c).1 (h ++ [(.callReturn, .released (callReturn c).2)])
    unfold callReturn
    split
    -- the scan goes on behind the timer whose handler has returned
    · rename_i hh
      exact hI.scan (by rw [hh]; rfl) nofun nofun
    · exact hI.frame (fun j => Kept.refl _) rfl rfl rfl
  | create n timerproc context bcyclean => exact hI.mtosTimerCreate hc
  | delete ntimerid => exact hI.mtosTimerDelete hc
  | start ntimerid => exact hpaused ntimerid false _ nofun nofun
  | stop ntimerid => exact hpaused ntimerid true _ nofun nofun
  | reset ntimerid ntimerval =>
    show Inv (mtosTimerReset c ntimerid ntimerval) _
    unfold mtosTimerReset
    split
    · exact hI.frame (kept_setTimer c ⟨rfl, rfl, rfl, rfl⟩) rfl rfl rfl
    · exact hI.frame (fun j => Kept.refl _) rfl rfl rfl
  | suspend => exact hI.frame (fun j => Kept.refl _) rfl rfl rfl
  | resume =>
    refine hI.frame (fun j => ?_) rfl rfl rfl
    show Kept (c.timer j) (if _ then _ else _)
    split
    · exact Kept.refl _
    · exact ⟨rfl, rfl, rfl, rfl⟩

/-- The callback that a step starts was pending. -/
theorem called_pending {c : TimerCtrl} {i : TimerStep} {j timer_proc context : Nat}
    (hout : (machine.step c i).2 = .called (some (j, timer_proc, context))) :
    c.handler = .released j (some timer_proc) (some context) := by
  cases i with
  | callProc =>
    have hcalled : (callProc c).2 = some (j, timer_proc, context) := TimerOut.called.inj hout
    unfold callProc at hcalled
    split at hcalled
    · rename_i hh
      cases hcalled
      exact hh
    · cases hcalled
  | _ => cases hout

/-- One step that does not disturb a pending callback. -/
theorem step_timers (s : TimerCtrl × History) (i : TimerStep) (hI : Inv s.1 s.2)
    (hc : Undisturbed s i) :
    StepOk s i ∧ Inv (machine.traced.step s i).1.1 (machine.traced.step s i).1.2 := by
  have hafter := step_inv s i hI hc
  refine ⟨⟨fun j p x hout => ?_, fun j g hg => ?_, fun j p x hout => ?_⟩, hafter⟩
  · obtain ⟨tm, hpend⟩ := hI.pending j _ _ (called_pending hout)
    exact ⟨tm, hpend.last, hpend.expired, hpend.procRead p rfl, hpend.contextRead x rfl⟩
  · exact Nat.le_trans (Nat.le_add_right _ _) (hafter.once j g hg)
  · obtain ⟨tm, hpend⟩ := hI.pending j _ _ (called_pending hout)
    exact hpend.known

/-- Every order of the handler's steps and the tasks' calls in which no pending
    callback is disturbed. -/
theorem timers_run (steps : List TimerStep)
    (hc : machine.traced.Always Undisturbed ({}, []) steps) :
    machine.traced.Always StepOk ({}, []) steps := by
  have hI : Inv {} [] :=
    { pending := nofun
      silent := nofun
      cycle := nofun
      fresh := fun _ _ _ => ⟨rfl, rfl⟩
      once := nofun }
  exact (Machine.always_of_invariant (I := fun s => Inv s.1 s.2) step_timers hI hc).1

/-- A one-shot timer and a periodic one; the one-shot timer's slot is taken by a new
    timer during its callback, and the periodic timer is deleted. -/
theorem timers_run_two :
    machine.traced.Always StepOk ({}, [])
      [.create 20 1 10 false, .create 40 2 20 true, .tick, .readProc, .readContext, .callProc,
        .create 20 3 30 false, .callReturn, .tick, .readContext, .readProc, .callProc,
        .callReturn, .readProc, .readContext, .callProc, .delete 1, .callReturn] :=
  timers_run _ (by decide)

/-- The slot of a one-shot timer is taken before the handler reads it: the callback is
    that of the new timer, which has not run. -/
theorem create_in_between :
    ¬ machine.traced.Always StepOk ({}, [])
      [.create 20 1 10 false, .tick, .create 1000 2 20 false, .readProc, .readContext,
        .callProc] := by
  rintro ⟨-, -, -, -, -, hcall, -⟩
  obtain ⟨tm, hlast, -, hproc, -⟩ := hcall.called 0 2 20 (by decide)
  have heq : lastReleased (machine.traced.final ({}, [])
      [.create 20 1 10 false, .tick, .create 1000 2 20 false, .readProc, .readContext]).2 =
      some (0, { is_used := true, interval := 20, elapse := 20, timer_proc := 1,
                 context := 10 }) := by decide
  have htm := Option.some.inj (hlast.symm.trans heq)
  cases htm
  cases hproc

end Tntsat.MtosTimer
