import Tntsat.Spec.LxcIpcRefs

/-!
# Calls and replies of the IPC driver

A client calls and a server answers, on one buffer.  `call` and `done` count completions, and
a call that times out or is interrupted takes neither of its two back, while `do_what` only
holds the last call.

## Key results

- `calls_answered`: a call that succeeds has been accepted and answered itself, and no call
  is accepted twice, as long as no call follows one that failed
- `late_answer`: the answer to a call that timed out is taken for that of the next one
-/

namespace Tntsat.LxcIpc

/-- A step of the client or of the server. -/
inductive Turn
  | call (do_what : Int)
  | callReturn
  | callFails (e : Errno)
  | acceptWake
  | acceptReturn
  | done
deriving DecidableEq

/-- Where the server is: before the wait of `LXC_IPC_ACCEPT`, behind it, or between
    `LXC_IPC_ACCEPT` and `LXC_IPC_DONE` with the number of calls that were stored when it
    read `do_what`. -/
inductive Server
  | idle
  | woken
  | accepted (n : Nat)
deriving DecidableEq

/-- The server is between `LXC_IPC_ACCEPT` and `LXC_IPC_DONE`. -/
def Server.busy : Server → Bool
  | .accepted _ => true
  | _ => false

/-- What is known of a conversation.  A call is named by its number, from 1. -/
structure Talk where
  waiting : Bool := false
  failed : Bool := false
  server : Server := .idle
  calls : List Int := []
  accepts : List Nat := []
  dones : List Nat := []
deriving DecidableEq

/-- What is known behind a step. -/
def Talk.next (t : Talk) : Turn → Talk
  | .call do_what => { t with waiting := true, calls := t.calls ++ [do_what] }
  | .callReturn => { t with waiting := false }
  | .callFails _ => { t with waiting := false, failed := true }
  | .acceptWake => { t with server := .woken }
  | .acceptReturn =>
    { t with server := .accepted t.calls.length, accepts := t.calls.length :: t.accepts }
  | .done =>
    { t with
      server := .idle
      dones := match t.server with
        | .accepted n => n :: t.dones
        | _ => t.dones }

/-- What the driver does with the buffer.  A wait that fails leaves it as it is. -/
def Turn.run (k : Key) (buf : Buffer) : Turn → Buffer × Outcome
  | .call do_what => (BufferCall.call do_what).run k buf
  | .callReturn => BufferCall.callReturn.run k buf
  | .callFails e => (buf, { ret := .error e })
  | .acceptWake => BufferCall.acceptWake.run k buf
  | .acceptReturn => BufferCall.acceptReturn.run k buf
  | .done => BufferCall.done.run k buf

/-- The buffer of a slot beside what is known of the conversation. -/
def talking (k : Key) : Machine (Buffer × Talk) Turn Outcome where
  step s i := (((i.run k s.1).1, s.2.next i), (i.run k s.1).2)

/-- The client makes one call at a time, the server accepts and is done in turn, and a wait
    that succeeds finds a completion. -/
def InTurn (s : Buffer × Talk) : Turn → Prop
  | .call _ => s.2.waiting = false
  | .callReturn => s.2.waiting = true ∧ 0 < s.1.done
  | .callFails _ => s.2.waiting = true
  | .acceptWake => s.2.server = .idle ∧ 0 < s.1.call
  | .acceptReturn => s.2.server = .woken
  | .done => s.2.server.busy = true

instance (s : Buffer × Talk) : (i : Turn) → Decidable (InTurn s i)
  | .call _ => inferInstanceAs (Decidable (_ = _))
  | .callReturn => inferInstanceAs (Decidable (_ ∧ _))
  | .callFails _ => inferInstanceAs (Decidable (_ = _))
  | .acceptWake => inferInstanceAs (Decidable (_ ∧ _))
  | .acceptReturn => inferInstanceAs (Decidable (_ = _))
  | .done => inferInstanceAs (Decidable (_ = _))

/-- The `do_what` that a step returns. -/
def Outcome.do_what? (out : Outcome) : Option Int :=
  match out.ret with
  | .ok user => some user.do_what
  | .error _ => none

/-- A call returns success behind the `LXC_IPC_DONE` of an `LXC_IPC_ACCEPT` that came after
    the call was stored, and `LXC_IPC_ACCEPT` returns a call that it has not returned. -/
def AnswerOk (k : Key) (s : Buffer × Talk) : Turn → Prop
  | .callReturn => s.2.calls.length ∈ s.2.dones
  | .acceptReturn =>
    ∃ n < s.2.calls.length, n + 1 ∉ s.2.accepts ∧
      ((talking k).step s .acceptReturn).2.do_what? = s.2.calls[n]?
  | _ => True

instance (k : Key) (s : Buffer × Talk) : (i : Turn) → Decidable (AnswerOk k s i)
  | .call _ => inferInstanceAs (Decidable True)
  | .callReturn => inferInstanceAs (Decidable (_ ∈ _))
  | .callFails _ => inferInstanceAs (Decidable True)
  | .acceptWake => inferInstanceAs (Decidable True)
  | .acceptReturn => inferInstanceAs (Decidable (∃ n < s.2.calls.length, _))
  | .done => inferInstanceAs (Decidable True)

/-- No call follows one that failed. -/
def NoRetry (s : Buffer × Talk) : Turn → Prop
  | .call _ => s.2.failed = false
  | _ => True

instance (s : Buffer × Talk) : (i : Turn) → Decidable (NoRetry s i)
  | .call _ => inferInstanceAs (Decidable (_ = _))
  | .callReturn => inferInstanceAs (Decidable True)
  | .callFails _ => inferInstanceAs (Decidable True)
  | .acceptWake => inferInstanceAs (Decidable True)
  | .acceptReturn => inferInstanceAs (Decidable True)
  | .done => inferInstanceAs (Decidable True)

/-! ## The one completion -/

/-- Where the last call is.  As long as it has not returned success there is one completion
    for it, in `call`, in the server's hands or in `done`. -/
inductive Phase (buf : Buffer) (t : Talk) : Prop
  | quiet (hwaiting : t.waiting = false) (hfailed : t.failed = false) (hcall : buf.call = 0)
      (hdone : buf.done = 0) (hserver : t.server = .idle)
  | asked (hopen : t.failed = !t.waiting) (hnew : t.calls.length ∉ t.accepts)
      (hlast : t.calls.getLast? = some buf.do_what) (hcall : buf.call = 1) (hdone : buf.done = 0)
      (hserver : t.server = .idle)
  | woken (hopen : t.failed = !t.waiting) (hnew : t.calls.length ∉ t.accepts)
      (hlast : t.calls.getLast? = some buf.do_what) (hcall : buf.call = 0) (hdone : buf.done = 0)
      (hserver : t.server = .woken)
  | accepted (hopen : t.failed = !t.waiting) (hcall : buf.call = 0) (hdone : buf.done = 0)
      (hserver : t.server = .accepted t.calls.length)
  | answered (hopen : t.failed = !t.waiting) (hcall : buf.call = 0) (hdone : buf.done = 1)
      (hserver : t.server = .idle) (hmem : t.calls.length ∈ t.dones)

/-- What holds in a run without a call behind one that failed. -/
structure Answers (buf : Buffer) (t : Talk) : Prop where
  phase : Phase buf t
  accepts : ∀ n ∈ t.accepts, n ≤ t.calls.length

theorem Answers.call {buf : Buffer} {t : Talk} {do_what : Int} (h : Answers buf t)
    (hwaiting : t.waiting = false) (hfailed : t.failed = false) :
    Answers { buf with do_what, call := buf.call + 1 } (t.next (.call do_what)) := by
  refine ⟨?_, fun n hn => Nat.le_trans (h.accepts n hn) (by simp [Talk.next])⟩
  have hnew : (t.calls ++ [do_what]).length ∉ t.accepts := fun hmem => by
    have hle := h.accepts _ hmem
    rw [List.length_append] at hle
    exact absurd hle (by simp)
  cases h.phase with
  | quiet _ _ hcall hdone hserver =>
    exact .asked hfailed hnew (by simp [Talk.next]) (by rw [hcall]) hdone hserver
  | asked hopen => simp [hwaiting, hfailed] at hopen
  | woken hopen => simp [hwaiting, hfailed] at hopen
  | accepted hopen => simp [hwaiting, hfailed] at hopen
  | answered hopen => simp [hwaiting, hfailed] at hopen

/-- A wait that finds a completion of `done` finds that of the last call. -/
theorem Answers.callReturn {buf : Buffer} {t : Talk} (h : Answers buf t)
    (hwaiting : t.waiting = true) (hpos : 0 < buf.done) :
    t.calls.length ∈ t.dones ∧ Answers { buf with done := buf.done - 1 } (t.next .callReturn) := by
  cases h.phase with
  | quiet hnot => simp [hwaiting] at hnot
  | asked _ _ _ _ hdone => simp [hdone] at hpos
  | woken _ _ _ _ hdone => simp [hdone] at hpos
  | accepted _ _ hdone => simp [hdone] at hpos
  | answered hopen hcall hdone hserver hmem =>
    have hfailed : t.failed = false := by simpa [hwaiting] using hopen
    exact ⟨hmem, .quiet rfl hfailed hcall (by rw [hdone]) hserver, h.accepts⟩

theorem Answers.callFails {buf : Buffer} {t : Talk} (e : Errno) (h : Answers buf t)
    (hwaiting : t.waiting = true) : Answers buf (t.next (.callFails e)) := by
  refine ⟨?_, h.accepts⟩
  cases h.phase with
  | quiet hnot => simp [hwaiting] at hnot
  | asked _ hnew hlast hcall hdone hserver => exact .asked rfl hnew hlast hcall hdone hserver
  | woken _ hnew hlast hcall hdone hserver => exact .woken rfl hnew hlast hcall hdone hserver
  | accepted _ hcall hdone hserver => exact .accepted rfl hcall hdone hserver
  | answered _ hcall hdone hserver hmem => exact .answered rfl hcall hdone hserver hmem

theorem Answers.acceptWake {buf : Buffer} {t : Talk} (h : Answers buf t) (hpos : 0 < buf.call) :
    Answers { buf with call := buf.call - 1 } (t.next .acceptWake) := by
  refine ⟨?_, h.accepts⟩
  cases h.phase with
  | quiet _ _ hcall => simp [hcall] at hpos
  | asked hopen hnew hlast hcall hdone => exact .woken hopen hnew hlast (by rw [hcall]) hdone rfl
  | woken _ _ _ hcall => simp [hcall] at hpos
  | accepted _ hcall => simp [hcall] at hpos
  | answered _ hcall => simp [hcall] at hpos

/-- The server gets the call that it was woken for. -/
theorem Answers.acceptReturn {buf : Buffer} {t : Talk} (h : Answers buf t)
    (hwoken : t.server = .woken) :
    (∃ n < t.calls.length, n + 1 ∉ t.accepts ∧ some buf.do_what = t.calls[n]?) ∧
      Answers buf (t.next .acceptReturn) := by
  cases h.phase with
  | quiet _ _ _ _ hserver => simp [hwoken] at hserver
  | asked _ _ _ _ _ hserver => simp [hwoken] at hserver
  | woken hopen hnew hlast hcall hdone =>
    have hpos : 0 < t.calls.length := by
      rw [List.length_pos_iff]
      rintro hnil
      simp [hnil] at hlast
    refine ⟨⟨t.calls.length - 1, by omega, ?_, ?_⟩, .accepted hopen hcall hdone rfl, ?_⟩
    · rwa [Nat.sub_add_cancel hpos]
    · rw [← hlast, List.getLast?_eq_getElem?]
    · exact List.forall_mem_cons.mpr ⟨Nat.le_refl _, h.accepts⟩
  | accepted _ _ _ hserver => simp [hwoken] at hserver
  | answered _ _ _ hserver => simp [hwoken] at hserver

theorem Answers.done {buf : Buffer} {t : Talk} {release_mem : List MmzBuffer}
    (h : Answers buf t) (hbusy : t.server.busy = true) :
    Answers { buf with release_mem, done := buf.done + 1 } (t.next .done) := by
  refine ⟨?_, h.accepts⟩
  cases h.phase with
  | quiet _ _ _ _ hserver => simp [hserver, Server.busy] at hbusy
  | asked _ _ _ _ _ hserver => simp [hserver, Server.busy] at hbusy
  | woken _ _ _ _ _ hserver => simp [hserver, Server.busy] at hbusy
  | accepted hopen hcall hdone hserver =>
    exact .answered hopen hcall (by rw [hdone]) rfl (by simp [Talk.next, hserver])
  | answered _ _ _ hserver => simp [hserver, Server.busy] at hbusy

/-- One step: what is expected of it, and what holds behind it. -/
theorem answers_step {k : Key} {s : Buffer × Talk} {i : Turn} (h : Answers s.1 s.2)
    (hi : InTurn s i) (hc : NoRetry s i) :
    AnswerOk k s i ∧ Answers ((talking k).step s i).1.1 ((talking k).step s i).1.2 := by
  cases i with
  | call do_what => exact ⟨trivial, h.call hi hc⟩
  | callReturn => exact h.callReturn hi.1 hi.2
  | callFails e => exact ⟨trivial, h.callFails e hi⟩
  | acceptWake => exact ⟨trivial, h.acceptWake hi.2⟩
  | acceptReturn => exact h.acceptReturn hi
  | done => exact ⟨trivial, h.done hi⟩

/-- A buffer without a call. -/
def Unused (buf : Buffer) : Prop := buf.call = 0 ∧ buf.done = 0

/-- In any order of the steps of a client and a server, a call that returns success has been
    accepted and answered itself, and a call that is accepted has not been accepted before,
    as long as no call follows one that timed out or was interrupted. -/
theorem calls_answered (k : Key) (buf : Buffer) (turns : List Turn) (hbuf : Unused buf)
    (hturn : (talking k).Always InTurn (buf, {}) turns)
    (hc : (talking k).Always NoRetry (buf, {}) turns) :
    (talking k).Always (AnswerOk k) (buf, {}) turns :=
  (Machine.always_of_invariant (I := fun s => Answers s.1 s.2)
    (fun _ _ h hi => answers_step h hi.1 hi.2)
    ⟨.quiet rfl rfl hbuf.1 hbuf.2 rfl, fun _ hn => absurd hn List.not_mem_nil⟩ (hturn.and _ hc)).1

/-- `calls_answered` on two calls. -/
theorem calls_answered_two :
    (talking ⟨[1], 7, 0⟩).Always (AnswerOk ⟨[1], 7, 0⟩) ({ buf_cnt := 2, connected := 1 }, {})
      [.call 3, .acceptWake, .acceptReturn, .done, .callReturn, .call 4, .acceptWake,
        .acceptReturn, .callFails .etime, .done] :=
  calls_answered _ _ _ ⟨rfl, rfl⟩ (by decide +kernel) (by decide +kernel)

/-- The answer to a call that timed out is taken for that of the next call, before the server
    has accepted that. -/
theorem late_answer :
    ¬ ∀ turns, (talking ⟨[1], 7, 0⟩).Always InTurn ({ buf_cnt := 2, connected := 1 }, {}) turns →
      (talking ⟨[1], 7, 0⟩).Always (AnswerOk ⟨[1], 7, 0⟩)
        ({ buf_cnt := 2, connected := 1 }, {}) turns := by
  intro h
  have hok := h
    [.call 3, .acceptWake, .acceptReturn, .callFails .etime, .call 4, .done, .callReturn]
    (by decide +kernel)
  revert hok
  decide +kernel

-- The server accepts the second call twice when the first was interrupted before its turn.
example :
    ((talking ⟨[1], 7, 0⟩).outputs ({ buf_cnt := 2, connected := 1 }, {})
      [.call 3, .callFails .eintr, .call 4, .acceptWake, .acceptReturn, .done, .acceptWake,
        .acceptReturn]).map Outcome.do_what? =
      [some 3, none, some 4, some 0, some 4, some 0, some 0, some 4] := by decide +kernel

end Tntsat.LxcIpc
