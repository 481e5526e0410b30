import Mathlib.Algebra.Group.Nat.Defs
import Mathlib.Data.List.Basic
import Tntsat.Native.DownloadFile
import Tntsat.Spec.SmartGenJobsCorrect

/-!
# The bytes of a segment

A call that returns TRUE should have reported the bytes of its segment, in order, whatever
the buffers, the connections and their ends.  Reconnecting resumes both the range and the
buffer at the right byte.  But the end of a transfer counts as success before the segment
is complete, and bytes received into a buffer behind others are stored too far on, since
the byte count is added to a pointer to words.

## Key results

- `delivers_iff`: a script of answers delivers the segment, whatever the content, exactly
  if no transfer ends early and each buffer is filled by one receive.
-/

namespace Tntsat.SmartHttp

namespace DownloadContext

variable (ctx : DownloadContext)

/-- The start of a call; `preopened` tells whether the job comes with a connection, which
    starts at its first byte. -/
def init (preopened : Bool) : DownloadState where
  p_download_handle := if preopened then some (0, ctx.download_offset) else none

/-- The state a call is in after these answers. -/
def after (preopened : Bool) (answers : List Answer) : DownloadState :=
  (downloadFile ctx).final (ctx.init preopened) answers

/-- What a call has done to the write buffer after these answers. -/
def buffer (preopened : Bool) (answers : List Answer) (server : Server) (mem : Memory UInt8) :
    BufferView :=
  BufferView.execAll server { mem := mem }
    ((downloadFile ctx).outputs (ctx.init preopened) answers).flatten

/-- The bytes of the segment. -/
def segment (server : Server) : List UInt8 :=
  (List.range ctx.request_size).map fun (k : Nat) => server.content (ctx.download_offset + k)

/-- If the call returns TRUE after these answers it has reported the bytes of the segment,
    whatever the content of the resource and of the memory. -/
def Delivers (preopened : Bool) (answers : List Answer) : Prop :=
  (ctx.after preopened answers).control = .returned true →
    ∀ server mem, (ctx.buffer preopened answers server mem).reported = ctx.segment server

/-- Bytes are received to the start of a buffer only, and a transfer does not end before
    the segment is complete. -/
def CleanRound (s : DownloadState) (a : Answer) : Prop :=
  ∀ handle next g, s.control = .loop handle next → a.running = true →
    s.getWriteBuf ctx a = some g → a.status ≠ .error →
      (0 < g.readLen a → g.write_pos = 0) ∧
        (a.status = .done → ctx.request_size ≤ g.total_read_len + g.readLen a)

/-! ## What every step keeps -/

/-- What holds of the state in every call: where the connection is and how much is missing. -/
structure Inv (s : DownloadState) : Prop where
  next : ∀ handle next, s.control = .loop handle next →
    next = ctx.download_offset + s.total_read_len ∧ s.total_read_len < ctx.request_size
  preopened : ∀ handle next, s.p_download_handle = some (handle, next) → s.control = .start →
    next = ctx.download_offset + s.total_read_len
  start : s.control = .start → s.total_read_len < ctx.request_size
  total : s.total_read_len ≤ ctx.request_size
  buf : s.buf_full = false → s.buf_len ≤ ctx.request_size - s.total_read_len

/-- What a step does to the buffer and to the number of bytes received. -/
inductive StepEffect (s : DownloadState) (a : Answer) (s' : DownloadState) :
    List BufferAction → Prop where
  | silent (htotal : s'.total_read_len = s.total_read_len)
      (hret : s'.control = .returned true → s.control = .returned true) : StepEffect s a s' []
  | failed (handle : Handle) (next : Int) (addr len : Nat)
      (htotal : s'.total_read_len = s.total_read_len) (hret : s'.control ≠ .returned true) :
      StepEffect s a s' [.recv handle next addr len false]
  | received {handle : Handle} {next : Int} {g : DownloadState}
      (hcontrol : s.control = .loop handle next) (hrunning : a.running = true)
      (hbuf : s.getWriteBuf ctx a = some g) (hstatus : a.status ≠ .error)
      (htotal : s'.total_read_len = s.total_read_len + g.readLen a)
      (hret : s'.control = .returned true ↔
        a.status = .done ∨ ctx.request_size ≤ s.total_read_len + g.readLen a) :
      StepEffect s a s'
        [.recv handle next (g.w_start_addr + ctx.abi.sizeofUlong * g.write_pos) (g.readLen a) true,
          .update (g.w_start_addr + g.write_pos) (g.readLen a)]

section Steps

variable {ctx} (hpos : 0 < ctx.request_size) (h0 : 0 ≤ ctx.download_offset)
  (hfit : ctx.download_offset + ctx.request_size ≤ 2147483647)

include h0 hfit in
/-- A connection that is opened starts at the first byte that is missing. -/
theorem rangeOf_first_missing {s : DownloadState} (h : ctx.Inv s) :
    (rangeOf (s32 (ctx.download_offset + s.total_read_len))
      (ctx.request_size - s.total_read_len)).first = ctx.download_offset + s.total_read_len := by
  have := h.total
  rw [rangeOf_first, s32_of_range (by omega) (by omega)]

include hpos in
theorem init_inv (preopened : Bool) : ctx.Inv (ctx.init preopened) where
  next := fun _ _ hc => nomatch hc
  preopened := by
    intro handle next hp _
    cases preopened with
    | false => exact nomatch hp
    | true =>
      cases hp
      exact (Int.add_zero _).symm
  start := fun _ => hpos
  total := Nat.zero_le _
  buf := fun h => nomatch h

include h0 hfit in
/-- From the label `redo` to the loop. -/
theorem redoStart_spec {s : DownloadState} (h : ctx.Inv s) (hc : s.control = .start)
    (a : Answer) : ctx.Inv (s.redoStart ctx a) ∧ ctx.StepEffect s a (s.redoStart ctx a) [] := by
  have hlt := h.start hc
  have hfirst := rangeOf_first_missing h0 hfit h
  unfold DownloadState.redoStart
  dsimp only
  rw [hfirst]
  split
  · -- the connection the job came with
    rename_i handle next hp
    refine ⟨⟨?_, fun _ _ _ hc => (nomatch hc), fun hc => (nomatch hc), h.total, h.buf⟩,
      .silent rfl fun hc => nomatch hc⟩
    intro _ _ hc'
    cases hc'
    exact ⟨h.preopened handle next hp hc, hlt⟩
  · have hstop : ctx.Inv { s with control := .returned false } ∧
        ctx.StepEffect s a { s with control := .returned false } [] :=
      ⟨⟨fun _ _ hc => (nomatch hc), fun _ _ _ hc => (nomatch hc), fun hc => (nomatch hc), h.total,
        h.buf⟩, .silent rfl fun hc => nomatch hc⟩
    split
    · exact hstop
    · split
      · refine ⟨⟨?_, fun _ _ _ hc => (nomatch hc), fun hc => (nomatch hc), h.total, h.buf⟩,
          .silent rfl fun hc => nomatch hc⟩
        intro _ _ hc'
        cases hc'
        exact ⟨rfl, hlt⟩
      · exact hstop
      · split
        · exact ⟨h, .silent rfl id⟩
        · exact hstop

/-- The state with a buffer differs from the one before in nothing but the buffer. -/
theorem getWriteBuf_spec {s g : DownloadState} (h : ctx.Inv s) {a : Answer}
    (hg : s.getWriteBuf ctx a = some g) :
    g.total_read_len = s.total_read_len ∧ g.control = s.control ∧
      g.p_download_handle = s.p_download_handle ∧
      (0 < ctx.request_size → g.buf_len ≤ ctx.request_size - s.total_read_len) := by
  unfold DownloadState.getWriteBuf at hg
  split at hg
  · obtain ⟨info, -, rfl⟩ := Option.map_eq_some_iff.mp hg
    refine ⟨rfl, rfl, rfl, fun hpos => ?_⟩
    dsimp only
    split <;> omega
  · rename_i hfull
    obtain rfl := Option.some.inj hg
    exact ⟨rfl, rfl, rfl, fun _ => h.buf (by simpa using hfull)⟩

include hpos in
/-- A round that receives something. -/
theorem receive_eq {s g : DownloadState} (htotal : g.total_read_len = s.total_read_len)
    (hhandle : g.p_download_handle = s.p_download_handle) {handle : Handle} {next : Int}
    {a : Answer} (hstatus : a.status ≠ .error) :
    g.receive ctx handle next a =
      ({ g with
          control :=
            if a.status = .done ∨ ctx.request_size ≤ s.total_read_len + g.readLen a
            then .returned true else .loop handle (next + g.readLen a)
          p_download_handle :=
            if a.status = .done ∨ ctx.request_size ≤ s.total_read_len + g.readLen a
            then none else s.p_download_handle
          total_read_len := s.total_read_len + g.readLen a
          buf_len := g.buf_len - g.readLen a
          write_pos := g.write_pos + g.readLen a
          buf_full := g.buf_len - g.readLen a = 0 },
        [.recv handle next (g.w_start_addr + ctx.abi.sizeofUlong * g.write_pos) (g.readLen a) true,
          .update (g.w_start_addr + g.write_pos) (g.readLen a)]) := by
  have hnolive : ¬ (ctx.download_offset = 0 ∧ ctx.request_size = 0 ∧ ctx.content_len ≤ 0 ∧
      ctx.live = true) := by omega
  unfold DownloadState.receive
  cases h : a.status with
  | error => exact absurd h hstatus
  | ok => simp [htotal, hhandle, Nat.ne_of_gt hpos]
  | done => simp [htotal, hnolive]

include hpos in
/-- What follows the call of `get_write_buf`. -/
theorem receive_spec {s g : DownloadState} (h : ctx.Inv s) {handle : Handle} {next : Int}
    (hc : s.control = .loop handle next) {a : Answer} (hrunning : a.running = true)
    (hg : s.getWriteBuf ctx a = some g) :
    ctx.Inv (g.receive ctx handle next a).1 ∧
      ctx.StepEffect s a (g.receive ctx handle next a).1 (g.receive ctx handle next a).2 := by
  obtain ⟨htotal, hcontrol, hhandle, hbuf⟩ := getWriteBuf_spec h hg
  obtain ⟨hnext, hlt⟩ := h.next handle next hc
  have hbuf := hbuf hpos
  have hread : g.readLen a ≤ g.buf_len := Nat.min_le_right _ _
  -- an error ends the request; anything else brings bytes and the next round
  by_cases herror : a.status = .error
  case pos =>
    unfold DownloadState.receive
    simp only [herror]
    refine ⟨⟨?_, fun _ _ hp => (nomatch hp), ?_, by rw [htotal]; exact h.total, ?_⟩,
      .failed handle next _ _ htotal ?_⟩
    · intro _ _ hc'
      dsimp only at hc'
      split at hc' <;> cases hc'
    · exact fun _ => htotal ▸ hlt
    · exact fun _ => htotal ▸ hbuf
    · dsimp only
      split <;> simp
  case neg =>
    rw [receive_eq hpos htotal hhandle herror]
    refine ⟨⟨?_, ?_, ?_, ?_, ?_⟩, .received hc hrunning hg herror rfl ?_⟩
    · intro _ _ hc'
      dsimp only at hc'
      split at hc'
      · cases hc'
      · cases hc'
        dsimp only
        omega
    · intro _ _ _ hc'
      dsimp only at hc'
      split at hc' <;> cases hc'
    · intro hc'
      dsimp only at hc'
      split at hc' <;> cases hc'
    · dsimp only
      omega
    · intro _
      dsimp only
      omega
    · dsimp only
      split <;> simp_all

include hpos h0 hfit in
/-- What one step does. -/
theorem step_spec {s : DownloadState} (h : ctx.Inv s) (a : Answer) :
    ctx.Inv ((downloadFile ctx).step s a).1 ∧
      ctx.StepEffect s a ((downloadFile ctx).step s a).1 ((downloadFile ctx).step s a).2 := by
  unfold downloadFile
  dsimp only
  cases hc : s.control with
  | start => exact redoStart_spec h0 hfit h hc a
  | returned ret => exact ⟨h, .silent rfl id⟩
  | loop handle next =>
    dsimp only
    unfold DownloadState.round
    split
    · exact ⟨⟨fun _ _ hc => (nomatch hc), fun _ _ hp => (nomatch hp), fun hc => (nomatch hc), h.total,
        h.buf⟩, .silent rfl fun hc => nomatch hc⟩
    · rename_i hrunning
      cases hg : s.getWriteBuf ctx a with
      | none => exact ⟨h, .silent rfl id⟩
      | some g => exact receive_spec hpos h hc (by simpa using hrunning) hg

include hpos in
/-- The step of a round that receives something. -/
theorem step_received {s g : DownloadState} (h : ctx.Inv s) {handle : Handle} {next : Int}
    (hc : s.control = .loop handle next) {a : Answer} (hrunning : a.running = true)
    (hg : s.getWriteBuf ctx a = some g) (hstatus : a.status ≠ .error) :
    ((downloadFile ctx).step s a).1.total_read_len = s.total_read_len + g.readLen a ∧
      (((downloadFile ctx).step s a).1.control = .returned true ↔
        a.status = .done ∨ ctx.request_size ≤ s.total_read_len + g.readLen a) ∧
      ((downloadFile ctx).step s a).2 =
        [.recv handle next (g.w_start_addr + ctx.abi.sizeofUlong * g.write_pos) (g.readLen a) true,
          .update (g.w_start_addr + g.write_pos) (g.readLen a)] := by
  obtain ⟨htotal, -, hhandle, -⟩ := getWriteBuf_spec h hg
  have hstep : (downloadFile ctx).step s a = g.receive ctx handle next a := by
    unfold downloadFile DownloadState.round
    simp only [hc, hrunning, hg, Bool.not_true, Bool.false_eq_true, if_false]
  rw [hstep, receive_eq hpos htotal hhandle hstatus]
  refine ⟨rfl, ?_, rfl⟩
  dsimp only
  split <;> simp_all

end Steps

/-! ## A clean run -/

theorem execAll_append (server : Server) (v : BufferView) (l l' : List BufferAction) :
    v.execAll server (l ++ l') = (v.execAll server l).execAll server l' :=
  List.foldl_append

/-- The bytes of the resource that have been received. -/
def received (server : Server) (s : DownloadState) : List UInt8 :=
  (List.range s.total_read_len).map fun (k : Nat) => server.content (ctx.download_offset + k)

section Runs

variable {ctx} (hpos : 0 < ctx.request_size) (h0 : 0 ≤ ctx.download_offset)
  (hfit : ctx.download_offset + ctx.request_size ≤ 2147483647)

/-- Bytes that are received at the start of a buffer, or none at all, are the bytes that
    are reported. -/
theorem reported_received {abi : Abi} {server : Server} {v : BufferView} {handle : Handle}
    {next : Int} {start pos len : Nat} (hclean : 0 < len → pos = 0) :
    (v.execAll server [.recv handle next (start + abi.sizeofUlong * pos) len true,
      .update (start + pos) len]).reported =
        v.reported ++ (List.range len).map fun (k : Nat) => server.content (next + k) := by
  simp only [BufferView.execAll, BufferView.exec, List.foldl_cons, List.foldl_nil, if_true]
  rcases Nat.eq_zero_or_pos len with rfl | hlen
  · rw [Memory.read_zero]
    rfl
  · rw [hclean hlen, Nat.mul_zero, Nat.add_zero]
    congr 1
    have hself := Memory.read_write_self v.mem start
      ((List.range len).map fun (k : Nat) => server.content (next + k))
    rwa [List.length_map, List.length_range] at hself

include hpos h0 hfit

/-- What holds along a run all of whose rounds are clean. -/
theorem reported_of_clean {preopened : Bool} {answers : List Answer} (server : Server)
    (mem : Memory UInt8)
    (hclean : (downloadFile ctx).Always ctx.CleanRound (ctx.init preopened) answers) :
    (ctx.after preopened answers).total_read_len ≤ ctx.request_size ∧
      ((ctx.after preopened answers).control = .returned true →
        ctx.request_size ≤ (ctx.after preopened answers).total_read_len) ∧
      (ctx.buffer preopened answers server mem).reported =
        ctx.received server (ctx.after preopened answers) := by
  -- carried through the run: what is reported is what the server has sent so far
  have hrun := Machine.invariant_outputs (M := downloadFile ctx) (P := ctx.CleanRound) (l := [])
    (I := fun s os => ctx.Inv s ∧
      (s.control = .returned true → ctx.request_size ≤ s.total_read_len) ∧
      (BufferView.execAll server { mem := mem } os.flatten).reported = ctx.received server s)
    (fun s os a ⟨h, hret, hrep⟩ hclean => ?_) ⟨init_inv hpos preopened, fun hc => (nomatch hc), rfl⟩
    hclean
  · rw [List.nil_append] at hrun
    exact ⟨hrun.1.total, hrun.2.1, hrun.2.2⟩
  · obtain ⟨hinv, heffect⟩ := step_spec hpos h0 hfit h a
    refine ⟨hinv, ?_⟩
    rw [List.flatten_append, execAll_append]
    generalize hs' : ((downloadFile ctx).step s a).1 = s' at *
    generalize hacts : ((downloadFile ctx).step s a).2 = acts at *
    -- only a step that receives changes it
    cases heffect with
    | silent htotal hret' =>
      unfold received at *
      rw [htotal]
      exact ⟨fun hc => hret (hret' hc), hrep⟩
    | failed handle next addr len htotal hret' =>
      unfold received at *
      rw [htotal]
      exact ⟨fun hc => absurd hc hret', hrep⟩
    | @received handle next g hc hrunning hbuf hstatus htotal hret' =>
      obtain ⟨hstart, hdone⟩ := hclean handle next g hc hrunning hbuf hstatus
      have hg := (getWriteBuf_spec h hbuf).1
      have hnext := (h.next handle next hc).1
      constructor
      · intro hc'
        rcases hret'.mp hc' with hdone' | hall
        · have := hdone hdone'
          omega
        · omega
      · rw [List.flatten_singleton, reported_received hstart, hrep, received, received, htotal,
          List.range_add, List.map_append, List.map_map]
        congr 1
        refine List.map_congr_left fun k _ => ?_
        simp only [Function.comp_apply, hnext]
        congr 1
        omega

/-- As many bytes are reported as are counted. -/
theorem length_reported (preopened : Bool) (answers : List Answer) (server : Server)
    (mem : Memory UInt8) :
    ctx.Inv (ctx.after preopened answers) ∧
      (ctx.buffer preopened answers server mem).reported.length =
        (ctx.after preopened answers).total_read_len := by
  have hrun := Machine.invariant_outputs (M := downloadFile ctx) (P := fun _ _ => True) (l := [])
    (I := fun s os => ctx.Inv s ∧
      (BufferView.execAll server { mem := mem } os.flatten).reported.length = s.total_read_len)
    (fun s os a ⟨h, hlen⟩ _ => ?_) ⟨init_inv hpos preopened, rfl⟩
    ((downloadFile ctx).always_true (ctx.init preopened) answers)
  · rwa [List.nil_append] at hrun
  · obtain ⟨hinv, heffect⟩ := step_spec hpos h0 hfit h a
    refine ⟨hinv, ?_⟩
    rw [List.flatten_append, execAll_append, List.flatten_singleton]
    generalize hs' : ((downloadFile ctx).step s a).1 = s' at *
    generalize hacts : ((downloadFile ctx).step s a).2 = acts at *
    cases heffect with
    | silent htotal => rw [htotal]; exact hlen
    | failed handle next addr len htotal => rw [htotal]; exact hlen
    | received _ _ _ _ htotal =>
      rw [htotal, ← hlen]
      simp [BufferView.execAll, BufferView.exec]

/-- A byte that no other byte looks like. -/
def markAt (next : Int) : Server where
  content k := if k = next then 1 else 0
  garbage _ _ := 0

/-- A memory of zeros. -/
def zeroMem : Memory UInt8 := fun _ => 0

/-- As long as a byte has not been received the memory does not hold it. -/
theorem mem_of_markAt (preopened : Bool) (answers : List Answer) {next : Int}
    (hnext : ctx.download_offset + (ctx.after preopened answers).total_read_len ≤ next) :
    (ctx.buffer preopened answers (markAt next) zeroMem).mem = zeroMem := by
  have hrun := Machine.invariant_outputs (M := downloadFile ctx) (P := fun _ _ => True) (l := [])
    (I := fun s os => ctx.Inv s ∧ (ctx.download_offset + s.total_read_len ≤ next →
      (BufferView.execAll (markAt next) { mem := zeroMem } os.flatten).mem = zeroMem))
    (fun s os a ⟨h, hmem⟩ _ => ?_) ⟨init_inv hpos preopened, fun _ => rfl⟩
    ((downloadFile ctx).always_true (ctx.init preopened) answers)
  · rw [List.nil_append] at hrun
    exact hrun.2 hnext
  · obtain ⟨hinv, heffect⟩ := step_spec hpos h0 hfit h a
    refine ⟨hinv, ?_⟩
    rw [List.flatten_append, execAll_append, List.flatten_singleton]
    generalize hs' : ((downloadFile ctx).step s a).1 = s' at *
    generalize hacts : ((downloadFile ctx).step s a).2 = acts at *
    -- what is stored are zeros
    have hwrite : ∀ (addr : Nat) (f : Nat → UInt8) (n : Nat), (∀ k < n, f k = 0) →
        zeroMem.write addr ((List.range n).map f) = zeroMem := by
      intro addr f n hf
      funext i
      rw [List.map_congr_left (g := fun _ => 0) fun k hk => hf k (List.mem_range.mp hk)]
      simp only [Memory.write, List.map_const', zeroMem]
      split
      · rw [List.getElem?_replicate]
        split <;> rfl
      · rfl
    cases heffect with
    | silent htotal =>
      rw [htotal]
      exact hmem
    | failed handle next' addr len htotal =>
      rw [htotal]
      intro hle
      simp only [BufferView.execAll, BufferView.exec, List.foldl_cons, List.foldl_nil] at hmem ⊢
      rw [hmem hle]
      exact hwrite _ _ _ fun k _ => rfl
    | received hc _ hbuf _ htotal =>
      rw [htotal]
      intro hle
      have hn := (h.next _ _ hc).1
      simp only [BufferView.execAll, BufferView.exec, List.foldl_cons, List.foldl_nil] at hmem ⊢
      rw [hmem (by omega)]
      refine hwrite _ _ _ fun k hk => ?_
      simp only [if_true, markAt]
      rw [if_neg (by omega)]

omit hpos h0 hfit in
/-- Later actions leave what has been reported alone. -/
theorem reported_prefix (server : Server) (v : BufferView) (l : List BufferAction) :
    ∃ t, (v.execAll server l).reported = v.reported ++ t := by
  induction l generalizing v with
  | nil => exact ⟨[], (List.append_nil _).symm⟩
  | cons action l ih =>
    obtain ⟨t, ht⟩ := ih (v.exec server action)
    cases action with
    | recv handle next addr len good => exact ⟨t, ht⟩
    | update addr len =>
      refine ⟨v.mem.read addr len ++ t, ?_⟩
      rw [← List.append_assoc]
      exact ht

omit hpos h0 hfit in
/-- A call that has returned does nothing more. -/
theorem final_of_returned {s : DownloadState} {ret : Bool} (hs : s.control = .returned ret)
    (answers : List Answer) : (downloadFile ctx).final s answers = s := by
  induction answers with
  | nil => rfl
  | cons a answers ih =>
    have hstep : ((downloadFile ctx).step s a).1 = s := by
      simp only [downloadFile, hs]
    rw [Machine.final_cons, hstep, ih]

omit hpos h0 hfit in
/-- A run, split at one of its steps. -/
theorem buffer_split (preopened : Bool) (pre post : List Answer) (a : Answer) (server : Server)
    (mem : Memory UInt8) :
    ctx.buffer preopened (pre ++ a :: post) server mem =
      ((ctx.buffer preopened pre server mem).execAll server
        ((downloadFile ctx).step (ctx.after preopened pre) a).2).execAll server
        ((downloadFile ctx).outputs
          ((downloadFile ctx).step (ctx.after preopened pre) a).1 post).flatten := by
  unfold buffer after
  rw [Machine.outputs_append, List.flatten_append, execAll_append, Machine.outputs_cons,
    List.flatten_cons, execAll_append]

/-- Bytes received into a buffer behind others are not the bytes that are reported. -/
theorem start_of_delivers {preopened : Bool} {pre post : List Answer} {a : Answer}
    (hret : (ctx.after preopened (pre ++ a :: post)).control = .returned true)
    (h : ctx.Delivers preopened (pre ++ a :: post)) {handle : Handle} {next : Int}
    {g : DownloadState} (hc : (ctx.after preopened pre).control = .loop handle next)
    (hrunning : a.running = true) (hg : (ctx.after preopened pre).getWriteBuf ctx a = some g)
    (hstatus : a.status ≠ .error) (hread : 0 < g.readLen a) : g.write_pos = 0 := by
  obtain ⟨hinv, hlen⟩ :=
    length_reported hpos h0 hfit preopened pre (markAt next) zeroMem
  obtain ⟨hnext, hlt⟩ := hinv.next handle next hc
  have hmem := mem_of_markAt hpos h0 hfit preopened pre (Int.le_of_eq hnext.symm)
  obtain ⟨-, -, hacts⟩ := step_received hpos hinv hc hrunning hg hstatus
  have hall := h hret (markAt next) zeroMem
  rw [buffer_split, hacts] at hall
  obtain ⟨t, ht⟩ := reported_prefix (markAt next)
    ((ctx.buffer preopened pre (markAt next) zeroMem).execAll (markAt next)
      [.recv handle next (g.w_start_addr + ctx.abi.sizeofUlong * g.write_pos) (g.readLen a) true,
        .update (g.w_start_addr + g.write_pos) (g.readLen a)])
    ((downloadFile ctx).outputs ((downloadFile ctx).step (ctx.after preopened pre) a).1 post).flatten
  rw [hall] at ht
  simp only [BufferView.execAll, BufferView.exec, List.foldl_cons, List.foldl_nil, if_true,
    hmem] at ht
  by_contra hne
  -- the byte behind those reported so far is the one at `next`, but its place is empty
  have hword : 2 ≤ ctx.abi.sizeofUlong := by
    unfold Abi.sizeofUlong
    split <;> omega
  have hfar : g.w_start_addr + g.write_pos < g.w_start_addr + ctx.abi.sizeofUlong * g.write_pos := by
    have := Nat.mul_le_mul_right g.write_pos hword
    omega
  have hbyte := congrArg (fun l => l[(ctx.after preopened pre).total_read_len]?) ht
  rw [List.append_assoc, List.getElem?_append_right (by omega), hlen, Nat.sub_self,
    List.getElem?_append_left (by rw [Memory.length_read]; exact hread), Memory.getElem?_read,
    if_pos hread, Nat.add_zero, Memory.write_apply_lt _ _ hfar, segment, List.getElem?_map,
    List.getElem?_range hlt, Option.map_some, ← hnext] at hbyte
  simp [markAt, zeroMem] at hbyte

/-- A transfer that ends ends with the segment. -/
theorem done_of_delivers {preopened : Bool} {pre post : List Answer} {a : Answer}
    (hret : (ctx.after preopened (pre ++ a :: post)).control = .returned true)
    (h : ctx.Delivers preopened (pre ++ a :: post)) {handle : Handle} {next : Int}
    {g : DownloadState} (hc : (ctx.after preopened pre).control = .loop handle next)
    (hrunning : a.running = true) (hg : (ctx.after preopened pre).getWriteBuf ctx a = some g)
    (hstatus : a.status = .done) : ctx.request_size ≤ g.total_read_len + g.readLen a := by
  obtain ⟨hinv, -⟩ :=
    length_reported hpos h0 hfit preopened pre (markAt next) zeroMem
  obtain ⟨htotal, hreturned, -⟩ := step_received hpos hinv hc hrunning hg (by simp [hstatus])
  have hfinal : ctx.after preopened (pre ++ a :: post) =
      ((downloadFile ctx).step (ctx.after preopened pre) a).1 := by
    unfold after
    rw [Machine.final_append, Machine.final_cons]
    exact final_of_returned (hreturned.mpr (.inl hstatus)) post
  obtain ⟨-, hlen⟩ := length_reported hpos h0 hfit preopened (pre ++ a :: post)
    (markAt next) zeroMem
  rw [h hret, hfinal, htotal, segment, List.length_map, List.length_range] at hlen
  rw [(getWriteBuf_spec hinv hg).1]
  omega

/-- Answers on which a call returns TRUE make it deliver the segment exactly if every round
    receives to the start of its buffer and no transfer ends early. -/
theorem delivers_iff (preopened : Bool) (answers : List Answer) :
    ctx.Delivers preopened answers ↔
      ((ctx.after preopened answers).control = .returned true →
        (downloadFile ctx).Always ctx.CleanRound (ctx.init preopened) answers) := by
  constructor
  · intro h hret
    rw [Machine.always_iff_forall_step]
    rintro pre a post rfl handle next g hc hrunning hg hstatus
    exact ⟨start_of_delivers hpos h0 hfit hret h hc hrunning hg hstatus,
      done_of_delivers hpos h0 hfit hret h hc hrunning hg⟩
  · intro h hret server mem
    obtain ⟨hle, hge, hrep⟩ := reported_of_clean hpos h0 hfit server mem (h hret)
    rw [hrep, received, segment, Nat.le_antisymm hle (hge hret)]

end Runs

/-- A segment of eight bytes of which the first are at byte 4. -/
def eightBytes : DownloadContext where
  abi := .ilp32
  download_offset := 4
  request_size := 8
  content_len := 100
  redo := true
  hasUrl := true
  live := false

/-- A round that opens a connection or receives bytes into a buffer of sixteen. -/
def answer (status : RecvStatus) (avail : Nat) : Answer where
  start _ := (true, true)
  running := true
  write_buf := some { w_start_addr := 0, max_w_byte := 16, pos := by decide }
  status := status
  avail := avail

/-- A connection fails, and the next one delivers the segment at once. -/
theorem delivers_eightBytes :
    eightBytes.Delivers true [answer .ok 0, answer .error 5, answer .ok 0, answer .ok 9] := by
  refine (delivers_iff (by decide) (by decide) (by decide) true _).mpr fun _ => ?_
  refine ⟨?_, ?_, ?_, ?_, trivial⟩
  · intro handle next g hc
    exact nomatch hc
  · intro handle next g _ _ _ hstatus
    exact absurd rfl hstatus
  · intro handle next g hc
    exact nomatch hc
  · intro handle next g _ _ hg _
    obtain rfl := Option.some.inj hg
    exact ⟨fun _ => rfl, fun hdone => nomatch hdone⟩

/-- A transfer that ends after three bytes, and two receives into one buffer. -/
theorem not_delivers :
    (eightBytes.after true [answer .ok 0, answer .done 3]).control = .returned true ∧
      ¬ eightBytes.Delivers true [answer .ok 0, answer .done 3] ∧
      (eightBytes.after true [answer .ok 0, answer .ok 3, answer .ok 9]).control =
        .returned true ∧
      ¬ eightBytes.Delivers true [answer .ok 0, answer .ok 3, answer .ok 9] := by
  refine ⟨by decide, fun h => ?_, by decide, fun h => ?_⟩
  · have := h (by decide) (markAt 7) zeroMem
    exact absurd this (by decide)
  · have := h (by decide) (markAt 7) zeroMem
    exact absurd this (by decide)

end DownloadContext

end Tntsat.SmartHttp
