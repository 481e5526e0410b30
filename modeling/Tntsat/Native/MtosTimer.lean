import Mathlib.Algebra.Group.Nat.Defs
import Mathlib.Logic.Function.Basic
import Tntsat.ForStd.CInt
import Tntsat.ForStd.Machine

/-!
# The software timers of the mtos layer

`kware/mtos/mtos_timer.c`: the table of timers, the calls of the other tasks, and
`sig_handler`, which the tick's signal starts.  Whatever is done between taking and
giving the semaphore is one step.  Around a callback the handler does not hold the
semaphore; it reads the procedure and the context of the slot there, each in a step
of its own.

A handler that does not get the semaphore in 10 ms returns, which is no step.  The
signal is blocked while the handler runs.
-/

namespace Tntsat.MtosTimer

/-- `TIMER_MAX_NUM`. -/
def timerMaxNum : Nat := 10

/-- `TIMER_PER_MSEC`. -/
def timerPerMsec : Int := 20

/-- `timer_info_t`; a null procedure is 0. -/
structure TimerInfo where
  is_used : Bool := false
  interval : Int := 0
  elapse : Int := 0
  timer_proc : Nat := 0
  context : Nat := 0
  is_cycle : Bool := false
  is_paused : Bool := false
deriving DecidableEq

/-- Where the signal handler stands. -/
inductive Handler
  | idle
  /-- the semaphore was given for the slot, whose callback has not begun; what has
      been read of the slot -/
  | released (i : Nat) (timer_proc context : Option Nat)
  /-- the callback of the slot runs -/
  | calling (i : Nat)
deriving DecidableEq

/-- `timer_ctrl`, and the handler. -/
structure TimerCtrl where
  timer : Nat → TimerInfo := fun _ => {}
  is_suspend : Bool := false
  handler : Handler := .idle

/-- A handle is in range. -/
def validTimer (ntimerid : Int) : Bool := 0 ≤ ntimerid && ntimerid < timerMaxNum

/-- Change one timer. -/
def TimerCtrl.setTimer (c : TimerCtrl) (i : Nat) (tm : TimerInfo) : TimerCtrl :=
  { c with timer := Function.update c.timer i tm }

/-! ## The signal handler -/

/-- A timer that reached its interval, as it is left in its slot. -/
def TimerInfo.expired (tm : TimerInfo) : TimerInfo :=
  if tm.is_cycle = false then { tm with elapse := 0, is_used := false }
  else { tm with elapse := 0 }

/-- The loop of `sig_handler` over the given slots up to the first timer that reaches
    its interval: the table, and that timer as it was then. -/
def scan (timer : Nat → TimerInfo) : List Nat → (Nat → TimerInfo) × Option (Nat × TimerInfo)
  | [] => (timer, none)
  | i :: slots =>
    if (timer i).is_used = false ∨ (timer i).is_paused then scan timer slots
    else
      let tm := { timer i with elapse := s32 ((timer i).elapse + timerPerMsec) }
      if tm.elapse ≥ tm.interval then (Function.update timer i tm.expired, some (i, tm))
      else scan (Function.update timer i tm) slots

/-- The handler goes on with the slots from `i`: it gives the semaphore for the timer
    it finds, or at the end. -/
def scanFrom (c : TimerCtrl) (i : Nat) : TimerCtrl × Option (Nat × TimerInfo) :=
  let r := scan c.timer (List.range' i (timerMaxNum - i))
  ({ c with
      timer := r.1
      handler := match r.2 with
        | some found => .released found.1 none none
        | none => .idle }, r.2)

/-- The tick's signal: `sig_handler` up to the first time it gives the semaphore. -/
def tick (c : TimerCtrl) : TimerCtrl × Option (Nat × TimerInfo) :=
  match c.handler with
  | .idle => if c.is_suspend then (c, none) else scanFrom c 0
  | _ => (c, none)

/-- The handler reads the procedure; the slot it read. -/
def readProc (c : TimerCtrl) : TimerCtrl × Option Nat :=
  match c.handler with
  | .released i none context =>
    ({ c with handler := .released i (some (c.timer i).timer_proc) context }, some i)
  | _ => (c, none)

/-- The handler reads the context. -/
def readContext (c : TimerCtrl) : TimerCtrl :=
  match c.handler with
  | .released i timer_proc none =>
    { c with handler := .released i timer_proc (some (c.timer i).context) }
  | _ => c

/-- The handler calls what it has read: the slot, the procedure and the context. -/
def callProc (c : TimerCtrl) : TimerCtrl × Option (Nat × Nat × Nat) :=
  match c.handler with
  | .released i (some timer_proc) (some context) =>
    ({ c with handler := .calling i }, some (i, timer_proc, context))
  | _ => (c, none)

/-- The callback returns, and the handler takes the semaphore and goes on. -/
def callReturn (c : TimerCtrl) : TimerCtrl × Option (Nat × TimerInfo) :=
  match c.handler with
  | .calling i => scanFrom c (i + 1)
  | _ => (c, none)

/-! ## The calls of the other tasks -/

/-- The first slot that is not in use. -/
def freeTimer (timer : Nat → TimerInfo) : Option Nat :=
  (List.range timerMaxNum).find? fun i => !(timer i).is_used

/-- `set_a_timer`; `none` is -1. -/
def setATimer (c : TimerCtrl) (interval : Int) (timer_proc context : Nat) (is_cyc : Bool) :
    TimerCtrl × Option Nat :=
  if timer_proc = 0 ∨ interval ≤ 0 then (c, none)
  else
    match freeTimer c.timer with
    | none => (c, none)
    | some i =>
      (c.setTimer i
        { timer_proc := timer_proc, context := context, interval := interval,
          is_cycle := is_cyc, is_used := true }, some i)

/-- `mtos_timer_create`. -/
def mtosTimerCreate (c : TimerCtrl) (ntimerval timerproc context : Nat) (bcyclean : Bool) :
    TimerCtrl × Option Nat :=
  setATimer c (s32 ntimerval) timerproc context bcyclean

/-- `mtos_timer_delete`, with `del_a_timer`. -/
def mtosTimerDelete (c : TimerCtrl) (ntimerid : Int) : TimerCtrl :=
  if validTimer ntimerid then c.setTimer ntimerid.toNat {} else c

/-- `mtos_timer_start` and `mtos_timer_stop`. -/
def setPaused (c : TimerCtrl) (ntimerid : Int) (is_paused : Bool) : TimerCtrl :=
  if validTimer ntimerid then
    c.setTimer ntimerid.toNat { c.timer ntimerid.toNat with is_paused := is_paused }
  else c

/-- `mtos_timer_start`. -/
def mtosTimerStart (c : TimerCtrl) (ntimerid : Int) : TimerCtrl := setPaused c ntimerid false

/-- `mtos_timer_stop`. -/
def mtosTimerStop (c : TimerCtrl) (ntimerid : Int) : TimerCtrl := setPaused c ntimerid true

/-- `mtos_timer_reset`. -/
def mtosTimerReset (c : TimerCtrl) (ntimerid : Int) (ntimerval : Nat) : TimerCtrl :=
  if validTimer ntimerid then
    c.setTimer ntimerid.toNat
      { c.timer ntimerid.toNat with elapse := 0, interval := s32 ntimerval }
  else c

/-- `mtos_timer_suspend`. -/
def mtosTimerSuspend (c : TimerCtrl) : TimerCtrl := { c with is_suspend := true }

/-- `mtos_timer_resume`. -/
def mtosTimerResume (c : TimerCtrl) : TimerCtrl :=
  { c with
    timer := fun i =>
      if timerMaxNum ≤ i ∨ (c.timer i).is_used = false ∨ (c.timer i).is_paused then c.timer i
      else { c.timer i with elapse := 0 }
    is_suspend := false }

/-! ## Runs -/

/-- A step of the handler or a call of another task. -/
inductive TimerStep
  | tick
  | readProc
  | readContext
  | callProc
  | callReturn
  | create (ntimerval timerproc context : Nat) (bcyclean : Bool)
  | delete (ntimerid : Int)
  | start (ntimerid : Int)
  | stop (ntimerid : Int)
  | reset (ntimerid : Int) (ntimerval : Nat)
  | suspend
  | resume
deriving DecidableEq

/-- What is seen of a step. -/
inductive TimerOut
  | none
  /-- the semaphore was given, for a timer or at the end -/
  | released (r : Option (Nat × TimerInfo))
  /-- the procedure of a slot was read -/
  | read (i : Option Nat)
  /-- a slot's callback begins: the procedure and the context -/
  | called (r : Option (Nat × Nat × Nat))
  | created (handle : Option Nat)
deriving DecidableEq

/-- The steps of the handler and of the tasks in any order. -/
def machine : Machine TimerCtrl TimerStep TimerOut where
  step c
    | .tick => ((tick c).1, .released (tick c).2)
    | .readProc => ((readProc c).1, .read (readProc c).2)
    | .readContext => (readContext c, .none)
    | .callProc => ((callProc c).1, .called (callProc c).2)
    | .callReturn => ((callReturn c).1, .released (callReturn c).2)
    | .create ntimerval timerproc context bcyclean =>
      ((mtosTimerCreate c ntimerval timerproc context bcyclean).1,
        .created (mtosTimerCreate c ntimerval timerproc context bcyclean).2)
    | .delete ntimerid => (mtosTimerDelete c ntimerid, .none)
    | .start ntimerid => (mtosTimerStart c ntimerid, .none)
    | .stop ntimerid => (mtosTimerStop c ntimerid, .none)
    | .reset ntimerid ntimerval => (mtosTimerReset c ntimerid ntimerval, .none)
    | .suspend => (mtosTimerSuspend c, .none)
    | .resume => (mtosTimerResume c, .none)

end Tntsat.MtosTimer
