import Mathlib.Algebra.Group.Nat.Defs
import Mathlib.Data.List.Nodup
import Tntsat.Spec.LxcIpcRefs

/-!
# The references of the IPC driver

What each call does to the slot that it names, and that it keeps the counts.

## Key results

- `serve_attachClient`, `serve_onBuffer`, `serve_listenReturn`, `serve_detach`: the slot of
  a call behind it, and that nothing changes elsewhere
- `counted_step`: every call keeps the counts
-/

namespace Tntsat.LxcIpc

/-! ## Attaching -/

/-- The clients that a name's `attach` still counts. -/
def Device.attachOf (dev : Device) (name : Name) : Nat :=
  (dev.list_name name).elim 0 NameNode.attach

/-- A client gets a slot. -/
structure Attached (dev dev' : Device) (w : Watch) (k : Key) : Prop where
  slot : k.buf_id < lxcIpcBuffersPerThread
  free : dev.at k = none
  buffer : dev'.at k = some { buf_cnt := 1 }
  elsewhere : Elsewhere dev dev' k
  name_cnt : (dev'.list_name k.name).map NameNode.name_cnt = refs (w.nameRefs k.name + 1)
  tid_cnt : (dev'.thread? k.name k.tid).map Thread.tid_cnt = refs (w.threadRefs k.name k.tid + 1)
  attach : dev'.attachOf k.name = dev.attachOf k.name + 1

/-- A client gets none, and the references to its name and its thread stay. -/
structure NotAttached (dev dev' : Device) (w : Watch) (name : Name) (pid : Nat) : Prop where
  full : ∀ i < lxcIpcBuffersPerThread, dev.at ⟨name, pid, i⟩ ≠ none
  same : ∀ i, dev'.at ⟨name, pid, i⟩ = dev.at ⟨name, pid, i⟩
  elsewhere : Elsewhere dev dev' ⟨name, pid, 0⟩
  name_cnt : (dev'.list_name name).map NameNode.name_cnt = refs (w.nameRefs name + 1)
  tid_cnt : (dev'.thread? name pid).map Thread.tid_cnt = refs (w.threadRefs name pid + 1)
  attach : dev'.attachOf name = dev.attachOf name

theorem list_name_setName_self (dev : Device) (name : Name) (node : Option NameNode) :
    (dev.setName name node).list_name name = node := by
  rw [list_name_setName, if_pos rfl]

theorem serve_attachClient {dev : Device} {w : Watch} (h : Counted dev w) (name : Name)
    (pid : Nat) :
    (∃ k : Key, k.name = name ∧ k.tid = pid ∧
        (serve dev (.attachClient name pid)).2.key? = some k ∧
        Attached dev (serve dev (.attachClient name pid)).1 w k) ∨
      (serve dev (.attachClient name pid)).2.key? = none ∧
        NotAttached dev (serve dev (.attachClient name pid)).1 w name pid := by
  obtain ⟨hthreads, hcnt, hattach⟩ := attachedName_spec dev name
  obtain ⟨hnew, htid, hfind⟩ := attachedThread_spec (dev.threads name) pid
  have hnodup := nodup_attachedThread pid (h.nodup name)
  have hold := h.threads name pid
  rw [thread?_eq] at hold
  -- the thread has one reference more and the buffers it had
  have htid_cnt : (attachedThread (dev.threads name) pid).2.tid_cnt = w.threadRefs name pid + 1 := by
    rw [hnew]
    exact congrArg (· + 1) (getD_refs { tid := pid } hold rfl)
  have hbuffers : ∀ i, (attachedThread (dev.threads name) pid).2.buffers i =
      dev.at ⟨name, pid, i⟩ := by
    intro i
    rw [hnew, at_eq]
    cases findThread (dev.threads name) pid <;> rfl
  have hname_cnt : (attachedName dev name).name_cnt = w.nameRefs name + 1 := by
    rw [hcnt, getD_refs {} (h.names name) rfl]
  simp only [serve, attach, if_true, hthreads]
  generalize hpair : attachedThread (dev.threads name) pid = r at *
  obtain ⟨l, thread⟩ := r
  dsimp only at *
  cases hslot : freeSlot thread with
  | none =>
    right
    have hat : ∀ i, (dev.setName name (some { attachedName dev name with list_thread := l })).at
        ⟨name, pid, i⟩ = dev.at ⟨name, pid, i⟩ := by
      intro i
      rw [at_eq, threads_setName, if_pos rfl]
      simp only [Option.elim_some, hfind, if_true, Option.bind_some, hbuffers]
    refine ⟨rfl, ?_, hat, ?_, ?_, ?_, ?_⟩
    · intro i hi
      rw [freeSlot, List.find?_eq_none] at hslot
      simpa [hbuffers] using hslot i (List.mem_range.mpr hi)
    · refine elsewhere_setName (k := ⟨name, pid, 0⟩) ?_ ?_ hnodup
      · intro tid hne
        rw [hfind, if_neg hne]
      · intro i _
        rw [hfind, if_pos rfl, Option.bind_some, hbuffers, at_eq]
    · rw [list_name_setName_self, Option.map_some, refs_succ, hname_cnt]
    · rw [thread?_eq, threads_setName, if_pos rfl, Option.elim_some, hfind, if_pos rfl,
        Option.map_some, htid_cnt, refs_succ]
    · rw [Device.attachOf, list_name_setName_self, Option.elim_some, hattach, Device.attachOf]
  | some i =>
    left
    have hfree := List.find?_some hslot
    rw [hbuffers, Option.isNone_iff_eq_none] at hfree
    have hrange := List.mem_range.mp (List.mem_of_find?_eq_some hslot)
    -- the slot that is filled, in the thread that is attached
    have hfind' : ∀ tid, findThread
        (setThread (thread.setBuffer i (some { buf_cnt := 1 })) l) tid =
          if tid = pid then some (thread.setBuffer i (some { buf_cnt := 1 }))
          else findThread (dev.threads name) tid := by
      intro tid
      have hset : (thread.setBuffer i (some { buf_cnt := 1 })).tid = pid := htid
      rw [findThread_set (by rw [hfind, if_pos rfl]) hset, hfind]
      split <;> rfl
    refine ⟨⟨name, pid, i⟩, rfl, rfl, rfl, hrange, hfree, ?_, ?_, ?_, ?_, ?_⟩
    · rw [at_eq, threads_setName, if_pos rfl]
      simp only [Option.elim_some, hfind', if_true, Option.bind_some, setBuffer_self]
    · refine elsewhere_setName (k := ⟨name, pid, i⟩) ?_ ?_ (nodup_setThread _ hnodup)
      · intro tid hne
        rw [hfind', if_neg hne]
      · intro j hj
        rw [hfind', if_pos rfl, Option.bind_some, setBuffer_of_ne _ _ hj, hbuffers, at_eq]
    · rw [list_name_setName_self, Option.map_some, refs_succ, hname_cnt]
    · rw [thread?_eq, threads_setName, if_pos rfl, Option.elim_some, hfind', if_pos rfl,
        Option.map_some, refs_succ, setBuffer_tid_cnt, htid_cnt]
    · rw [Device.attachOf, list_name_setName_self, Option.elim_some, hattach, Device.attachOf]

/-- A client's attach keeps the counts. -/
theorem Counted.attachClient {dev dev' : Device} {w w' : Watch} {k : Key} (h : Counted dev w)
    (hd : Attached dev dev' w k) (hw : Joins w w' (.client k)) (htid : k.tid ≠ 0) :
    Counted dev' w' := by
  refine h.of_elsewhere hd.elsewhere (hw.refsElsewhere rfl htid h.tids) ?_ ?_ ?_ fun _ => hd.slot
  · rw [hd.name_cnt, hw.nameRefs, End.name, if_pos rfl]
  · rw [hd.tid_cnt, hw.threadRefs]
    simp [End.key?]
  · have hnone := h.buffers k
    rw [hd.free, Option.map_none] at hnone
    have hzero : w.bufferRefs k = 0 := by
      by_contra hne
      simp [refs, hne] at hnone
    rw [hd.buffer, hw.bufferRefs, End.key?, if_pos rfl, hzero]
    rfl

/-- An attach that fails keeps its references. -/
theorem Counted.notAttached {dev dev' : Device} {w w' : Watch} {name : Name} {pid : Nat}
    (h : Counted dev w) (hd : NotAttached dev dev' w name pid) (hends : w'.ends = w.ends)
    (hfailed : w'.failed = (name, pid) :: w.failed) : Counted dev' w' := by
  have hbuf : ∀ k, w'.bufferRefs k = w.bufferRefs k := by
    intro k
    rw [Watch.bufferRefs, Watch.bufferRefs, hends]
  have helse : RefsElsewhere w w' ⟨name, pid, 0⟩ := by
    refine ⟨fun name' hne => ?_, fun name' tid hne => ?_, fun k _ => hbuf k, ?_⟩
    · simp [Watch.nameRefs, hends, hfailed, Ne.symm hne]
    · have hne' : (name, pid) ≠ (name', tid) := fun heq => hne (Prod.mk.injEq .. ▸ heq)
      simp [Watch.threadRefs, hends, hfailed, hne']
    · rw [hends]
      exact h.tids
  refine h.of_elsewhere hd.elsewhere helse ?_ ?_ ?_ fun _ => Nat.zero_lt_succ 1023
  · rw [hd.name_cnt]
    simp [Watch.nameRefs, hends, hfailed, Nat.add_assoc]
  · rw [hd.tid_cnt]
    simp [Watch.threadRefs, hends, hfailed, Nat.add_assoc]
  · rw [hd.same, hbuf]
    exact h.buffers _

/-! ## Calls on a buffer -/

/-- An end has a buffer, a thread and a name. -/
theorem Counted.of_mem {dev : Device} {w : Watch} {e : End} {k : Key} (h : Counted dev w)
    (he : e ∈ w.ends) (hk : e.key? = some k) :
    ∃ node thread buf, dev.list_name k.name = some node ∧
      findThread node.list_thread k.tid = some thread ∧ thread.buffers k.buf_id = some buf ∧
      dev.at k = some buf ∧ node.name_cnt = w.nameRefs k.name ∧
      thread.tid_cnt = w.threadRefs k.name k.tid ∧ buf.buf_cnt = w.bufferRefs k := by
  have hpos : 0 < w.bufferRefs k := List.countP_pos_iff.mpr ⟨e, he, by simp [hk]⟩
  have hthread := w.bufferRefs_le k
  have hname := w.threadRefs_le k.name k.tid
  obtain ⟨node, hnode, hname_cnt⟩ := refs_pos (h.names k.name) (by omega)
  obtain ⟨thread, hthread, htid_cnt⟩ := refs_pos (h.threads k.name k.tid) (by omega)
  obtain ⟨buf, hbuf, hbuf_cnt⟩ := refs_pos (h.buffers k) hpos
  rw [Device.thread?, hnode, Option.bind_some] at hthread
  have hat := hbuf
  rw [at_eq, Device.threads, hnode, Option.elim_some, hthread, Option.bind_some] at hat
  exact ⟨node, thread, buf, hnode, hthread, hat, hbuf, hname_cnt, htid_cnt, hbuf_cnt⟩

/-- A buffer that is there has an end. -/
theorem Counted.exists_end {dev : Device} {w : Watch} {k : Key} {buf : Buffer}
    (h : Counted dev w) (hat : dev.at k = some buf) : ∃ e ∈ w.ends, e.key? = some k := by
  have hrefs := h.buffers k
  rw [hat, Option.map_some] at hrefs
  by_contra hnone
  have hzero : w.bufferRefs k = 0 := by
    rw [Watch.bufferRefs, List.countP_eq_zero]
    intro e he hk
    exact hnone ⟨e, he, by simpa using hk⟩
  rw [hzero] at hrefs
  cases hrefs

/-- A call that changes one buffer and no count. -/
structure Changed (dev dev' : Device) (k : Key) (buf buf' : Buffer) : Prop where
  before : dev.at k = some buf
  after : dev'.at k = some buf'
  elsewhere : Elsewhere dev dev' k
  name_cnt : (dev'.list_name k.name).map NameNode.name_cnt =
    (dev.list_name k.name).map NameNode.name_cnt
  tid_cnt : (dev'.thread? k.name k.tid).map Thread.tid_cnt =
    (dev.thread? k.name k.tid).map Thread.tid_cnt
  attach : dev'.attachOf k.name = dev.attachOf k.name

theorem serve_onBuffer {dev : Device} {w : Watch} {e : End} {k : Key} (h : Counted dev w)
    (he : e ∈ w.ends) (hk : e.key? = some k) (c : BufferCall) :
    ∃ buf, Changed dev (serve dev (.onBuffer k c)).1 k buf (c.run k buf).1 ∧
      (serve dev (.onBuffer k c)).2 = (c.run k buf).2 := by
  obtain ⟨node, thread, buf, hnode, hthread, hbuf, hat, -⟩ := h.of_mem he hk
  have htid := findThread_tid hthread
  -- the call changes one slot of one thread
  have hserve : serve dev (.onBuffer k c) =
      (dev.setBuffer k.name k.tid k.buf_id (c.run k buf).1, (c.run k buf).2) := by
    have hat' : dev.buffer? k.name k.tid (some k.buf_id) = some buf := hat
    simp only [serve, onBuffer, Key.user, hat']
  have hset : dev.setBuffer k.name k.tid k.buf_id (c.run k buf).1 =
      dev.setName k.name (some { node with
        list_thread :=
          setThread (thread.setBuffer k.buf_id (some (c.run k buf).1)) node.list_thread }) := by
    simp only [Device.setBuffer, hnode, Option.map_some, hthread]
  have hold : dev.threads k.name = node.list_thread := by
    rw [Device.threads, hnode, Option.elim_some]
  have hfind : ∀ tid, findThread
      (setThread (thread.setBuffer k.buf_id (some (c.run k buf).1)) node.list_thread) tid =
        if tid = k.tid then some (thread.setBuffer k.buf_id (some (c.run k buf).1))
        else findThread node.list_thread tid := by
    exact findThread_set hthread htid
  refine ⟨buf, ?_, by rw [hserve]⟩
  rw [hserve, hset]
  refine ⟨hat, ?_, elsewhere_setName ?_ ?_ ?_, ?_, ?_, ?_⟩
  · rw [at_eq, threads_setName, if_pos rfl, Option.elim_some, hfind, if_pos rfl,
      Option.bind_some, setBuffer_self]
  · intro tid hne
    rw [hfind, if_neg hne, hold]
  · intro i hne
    rw [hfind, if_pos rfl, hold, hthread, Option.bind_some, Option.bind_some,
      setBuffer_of_ne _ _ hne]
  · exact nodup_setThread _ (hold ▸ h.nodup k.name)
  · rw [list_name_setName_self, hnode]
    rfl
  · rw [thread?_eq, thread?_eq, threads_setName, if_pos rfl, Option.elim_some, hfind, if_pos rfl,
      hold, hthread]
    rfl
  · rw [Device.attachOf, Device.attachOf, list_name_setName_self, hnode]
    rfl

/-- Calls on a buffer do not count. -/
theorem run_buf_cnt (k : Key) (c : BufferCall) (buf : Buffer) :
    (c.run k buf).1.buf_cnt = buf.buf_cnt ∧ (c.run k buf).1.connected = buf.connected := by
  cases c with
  | resize in_size out_size inAddr outAddr =>
    simp only [BufferCall.run, resize]
    split
    · exact ⟨rfl, rfl⟩
    · split <;> exact ⟨rfl, rfl⟩
  | _ => exact ⟨rfl, rfl⟩

/-- Calls on a buffer keep the counts. -/
theorem Counted.onBuffer {dev dev' : Device} {w : Watch} {k : Key} {buf buf' : Buffer}
    (h : Counted dev w) (hd : Changed dev dev' k buf buf') (hcnt : buf'.buf_cnt = buf.buf_cnt) :
    Counted dev' w := by
  have helse : RefsElsewhere w w k := ⟨fun _ _ => rfl, fun _ _ _ => rfl, fun _ _ => rfl, h.tids⟩
  refine h.of_elsewhere hd.elsewhere helse ?_ ?_ ?_ fun _ => h.slots k buf hd.before
  · rw [hd.name_cnt]
    exact h.names k.name
  · rw [hd.tid_cnt]
    exact h.threads k.name k.tid
  · rw [hd.after, ← h.buffers k, hd.before, Option.map_some, Option.map_some, hcnt]

/-! ## Accepting -/

/-- A server gets an end of a buffer. -/
structure Accepted (dev dev' : Device) (w : Watch) (k : Key) (buf : Buffer) : Prop where
  before : dev.at k = some buf
  waiting : buf.connected = 0
  after : dev'.at k = some { buf with connected := 1, buf_cnt := buf.buf_cnt + 1 }
  elsewhere : Elsewhere dev dev' k
  name_cnt : (dev'.list_name k.name).map NameNode.name_cnt = refs (w.nameRefs k.name + 1)
  tid_cnt : (dev'.thread? k.name k.tid).map Thread.tid_cnt = refs (w.threadRefs k.name k.tid + 1)
  attach : dev'.attachOf k.name = dev.attachOf k.name

theorem mem_of_findThread {l : List Thread} {tid : Nat} {thread : Thread}
    (h : findThread l tid = some thread) : thread ∈ l := List.mem_of_find?_eq_some h

/-- A thread of the list is the one of its `tid`. -/
theorem findThread_of_mem {l : List Thread} {thread : Thread} (hl : (l.map Thread.tid).Nodup)
    (h : thread ∈ l) : findThread l thread.tid = some thread := by
  induction l with
  | nil => exact nomatch h
  | cons t l ih =>
    rw [List.map_cons, List.nodup_cons] at hl
    cases h with
    | head => simp [findThread]
    | tail _ h =>
      have hne : t.tid ≠ thread.tid := fun heq => hl.1 (List.mem_map.mpr ⟨thread, h, heq.symm⟩)
      have hrest := ih hl.2 h
      rw [findThread] at hrest ⊢
      rw [List.find?_cons_of_neg (by simpa using hne), hrest]

theorem unconnected_spec {thread : Thread} {i : Nat} (h : unconnected thread = some i) :
    ∃ buf, thread.buffers i = some buf ∧ buf.connected = 0 := by
  have hany := List.find?_some h
  rw [Option.any_eq_true] at hany
  simpa using hany

theorem findUnconnected_some {l : List Thread} {thread : Thread} {i : Nat} {buf : Buffer}
    (h : findUnconnected l = some (thread, i, buf)) :
    thread ∈ l ∧ thread.buffers i = some buf ∧ buf.connected = 0 := by
  obtain ⟨t, ht, hfound⟩ := List.exists_of_findSome?_eq_some h
  obtain ⟨j, hj, hbuf⟩ := Option.bind_eq_some_iff.mp hfound
  obtain ⟨buf', hbuf', hzero⟩ := unconnected_spec hj
  rw [hbuf', Option.map_some] at hbuf
  cases hbuf
  exact ⟨ht, hbuf', hzero⟩

theorem findUnconnected_none {l : List Thread} {thread : Thread} {i : Nat} {buf : Buffer}
    (h : findUnconnected l = none) (hthread : thread ∈ l) (hbuf : thread.buffers i = some buf)
    (hi : i < lxcIpcBuffersPerThread) : buf.connected ≠ 0 := by
  intro hzero
  have hnone := List.findSome?_eq_none_iff.mp h thread hthread
  cases hslot : unconnected thread with
  | none =>
    rw [unconnected, List.find?_eq_none] at hslot
    exact hslot i (List.mem_range.mpr hi) (by simp [hbuf, hzero])
  | some j =>
    obtain ⟨buf', hbuf', -⟩ := unconnected_spec hslot
    simp [hslot, hbuf'] at hnone

/-- The thread of a buffer that a server accepts. -/
def accept (thread : Thread) (i : Nat) (buf : Buffer) : Thread :=
  { thread.setBuffer i (some { buf with connected := 1, buf_cnt := buf.buf_cnt + 1 }) with
    tid_cnt := thread.tid_cnt + 1 }

/-- A server gets the end of a buffer that is not connected, if there is one. -/
theorem serve_listenReturn {dev : Device} {w : Watch} (h : Counted dev w) (name : Name) :
    (∃ k : Key, ∃ buf, k.name = name ∧
        (serve dev (.listenReturn name)).2.key? = some k ∧
        Accepted dev (serve dev (.listenReturn name)).1 w k buf) ∨
      (serve dev (.listenReturn name)).2.key? = none ∧
        (serve dev (.listenReturn name)).1 = dev ∧
        ∀ k buf, k.name = name → dev.at k = some buf → buf.connected ≠ 0 := by
  cases hnode : dev.list_name name with
  | none =>
    right
    have hserve : serve dev (.listenReturn name) = (dev, { ret := .error .enodev }) := by
      simp only [serve, listenReturn, hnode]
    rw [hserve]
    refine ⟨rfl, rfl, fun k buf hk hat => ?_⟩
    rw [at_eq, hk, Device.threads, hnode] at hat
    cases hat
  | some node =>
    have hold : dev.threads name = node.list_thread := by
      rw [Device.threads, hnode, Option.elim_some]
    -- the first slot that is not connected, if a thread has one
    cases hfound : findUnconnected node.list_thread with
    | none =>
      right
      have hserve : serve dev (.listenReturn name) = (dev, { ret := .error .enodev }) := by
        simp only [serve, listenReturn, hnode, hfound]
      rw [hserve]
      refine ⟨rfl, rfl, fun k buf hk hat => ?_⟩
      have hslot := h.slots k buf hat
      rw [at_eq, hk, hold] at hat
      obtain ⟨thread, hthread, hbuf⟩ := Option.bind_eq_some_iff.mp hat
      exact findUnconnected_none hfound (mem_of_findThread hthread) hbuf hslot
    | some r =>
      left
      obtain ⟨thread, i, buf⟩ := r
      obtain ⟨hmem, hbuf, hzero⟩ := findUnconnected_some hfound
      have hnodup : (node.list_thread.map Thread.tid).Nodup := hold ▸ h.nodup name
      have hthread := findThread_of_mem hnodup hmem
      have hname_cnt := h.names name
      have htid_cnt := h.threads name thread.tid
      rw [hnode] at hname_cnt
      rw [thread?_eq, hold, hthread] at htid_cnt
      have hserve : serve dev (.listenReturn name) =
          (dev.setName name (some { node with
            list_thread := setThread (accept thread i buf) node.list_thread
            name_cnt := node.name_cnt + 1 }),
            { ret := .ok { name, do_what := -1, tid := thread.tid, buf_id := some i } }) := by
        simp only [serve, listenReturn, hnode, hfound]
        rfl
      have hfind := findThread_set hthread (rfl : (accept thread i buf).tid = thread.tid)
      rw [hserve]
      refine ⟨⟨name, thread.tid, i⟩, buf, rfl, rfl, ?_, hzero, ?_, ?_, ?_, ?_, ?_⟩
      · rw [at_eq, hold, hthread, Option.bind_some, hbuf]
      · rw [at_eq, threads_setName, if_pos rfl, Option.elim_some, hfind, if_pos rfl,
          Option.bind_some]
        exact setBuffer_self (i := i) ..
      · refine elsewhere_setName (k := ⟨name, thread.tid, i⟩) ?_ ?_ (nodup_setThread _ hnodup)
        · intro tid hne
          rw [hfind, if_neg hne, hold]
        · intro j hne
          rw [hfind, if_pos rfl, hold, hthread, Option.bind_some, Option.bind_some]
          exact setBuffer_of_ne _ _ hne
      · rw [list_name_setName_self, Option.map_some, refs_succ, eq_of_refs hname_cnt]
      · rw [thread?_eq, threads_setName, if_pos rfl, Option.elim_some, hfind, if_pos rfl,
          Option.map_some, refs_succ, ← eq_of_refs htid_cnt]
        rfl
      · rw [Device.attachOf, Device.attachOf, list_name_setName_self, hnode]
        rfl

/-- An end that is accepted keeps the counts. -/
theorem Counted.accepted {dev dev' : Device} {w w' : Watch} {k : Key} {buf : Buffer}
    (h : Counted dev w) (hd : Accepted dev dev' w k buf) (hw : Joins w w' (.accepted k))
    (htid : k.tid ≠ 0) : Counted dev' w' := by
  have hslot := h.slots k buf hd.before
  refine h.of_elsewhere hd.elsewhere (hw.refsElsewhere rfl htid h.tids) ?_ ?_ ?_ fun _ => hslot
  · rw [hd.name_cnt, hw.nameRefs, End.name, if_pos rfl]
  · rw [hd.tid_cnt, hw.threadRefs]
    simp [End.key?]
  · have hbuf := h.buffers k
    rw [hd.before, Option.map_some] at hbuf
    rw [hd.after, hw.bufferRefs, End.key?, if_pos rfl, refs_succ, Option.map_some,
      eq_of_refs hbuf]

/-! ## Detaching -/

/-- An end gives back its references. -/
structure Detached (dev dev' : Device) (w' : Watch) (k : Key) (buf : Buffer) : Prop where
  before : dev.at k = some buf
  after : dev'.at k = (detachBuffer (some buf)).1
  elsewhere : Elsewhere dev dev' k
  name_cnt : (dev'.list_name k.name).map NameNode.name_cnt = refs (w'.nameRefs k.name)
  tid_cnt : (dev'.thread? k.name k.tid).map Thread.tid_cnt = refs (w'.threadRefs k.name k.tid)
  attach : dev'.attachOf k.name = dev.attachOf k.name ∨ w'.nameRefs k.name = 0

/-- The count behind a reference that is given back. -/
theorem refs_pred {cnt : Int} {c : Nat} (h : cnt = (c : Int) + 1) :
    (if cnt - 1 ≤ 0 then none else some (cnt - 1)) = refs c := by
  subst h
  cases c with
  | zero => rfl
  | succ c =>
    rw [refs_succ, if_neg (by omega)]
    congr 1
    omega

/-- The thread that a detach leaves. -/
def detached (thread : Thread) (i : Nat) : Thread :=
  { thread.setBuffer i (detachBuffer (thread.buffers i)).1 with tid_cnt := thread.tid_cnt - 1 }

theorem detachThread_eq (l : List Thread) (thread : Thread) (i : Nat) :
    detachThread l thread i =
      if thread.tid_cnt - 1 ≤ 0 then
        (delThread thread.tid l, (detachBuffer (thread.buffers i)).2)
      else (setThread (detached thread i) l, (detachBuffer (thread.buffers i)).2) := rfl

theorem findThread_detachThread {l : List Thread} {thread : Thread} {tid : Nat} (i : Nat)
    (h : findThread l tid = some thread) (tid' : Nat) :
    findThread (detachThread l thread i).1 tid' =
      if tid' = tid then if thread.tid_cnt - 1 ≤ 0 then none else some (detached thread i)
      else findThread l tid' := by
  have htid := findThread_tid h
  rw [detachThread_eq]
  by_cases hlast : thread.tid_cnt - 1 ≤ 0
  · rw [if_pos hlast, if_pos hlast, findThread_delThread, htid]
  · rw [if_neg hlast, if_neg hlast]
    have hsame : (detached thread i).tid = tid := htid
    exact findThread_set h hsame tid'

theorem detachThread_mmz (l : List Thread) (thread : Thread) (i : Nat) :
    (detachThread l thread i).2 = (detachBuffer (thread.buffers i)).2 := by
  rw [detachThread_eq]
  split <;> rfl

/-- A buffer is there as long as it has ends. -/
theorem detachBuffer_fst (buf : Buffer) :
    (detachBuffer (some buf)).1 =
      if buf.buf_cnt - 1 ≤ 0 then none
      else some { buf with connected := -1, buf_cnt := buf.buf_cnt - 1 } := by
  simp only [detachBuffer]
  split <;> rfl

theorem nodup_detachThread {l : List Thread} (thread : Thread) (i : Nat)
    (h : (l.map Thread.tid).Nodup) :
    ((detachThread l thread i).1.map Thread.tid).Nodup := by
  rw [detachThread_eq]
  split
  · exact nodup_delThread _ h
  · exact nodup_setThread _ h

theorem serve_detach {dev : Device} {w w' : Watch} {e : End} {k : Key} (h : Counted dev w)
    (he : e ∈ w.ends) (hk : e.key? = some k) (hw : Joins w' w e) :
    ∃ buf, Detached dev (serve dev (.detach e)).1 w' k buf ∧
      (serve dev (.detach e)).2.mmz = (detachBuffer (some buf)).2 := by
  obtain ⟨node, thread, buf, hnode, hthread, hbuf, hat, hname_cnt, htid_cnt, hbuf_cnt⟩ :=
    h.of_mem he hk
  have hnz := h.tids e he k hk
  have helse := hw.refsElsewhere' hk h.tids
  have hold : dev.threads k.name = node.list_thread := by
    rw [Device.threads, hnode, Option.elim_some]
  have huser : e.user = k.user := by cases e <;> simp_all [End.key?, End.user]
  -- one reference less to the name and to the thread
  have hname : node.name_cnt = (w'.nameRefs k.name : Int) + 1 := by
    have hend : e.name = k.name := by cases e <;> simp_all [End.key?, End.name]
    rw [hname_cnt, hw.nameRefs, if_pos hend]
    rfl
  have htid : thread.tid_cnt = (w'.threadRefs k.name k.tid : Int) + 1 := by
    rw [htid_cnt, hw.threadRefs, hk]
    simp
  have hserve : serve dev (.detach e) =
      (detachName dev k.name
        { node with list_thread := (detachThread node.list_thread thread k.buf_id).1 },
        { ret := .ok k.user, mmz := (detachBuffer (some buf)).2 }) := by
    simp only [serve, huser, detach, Key.user, hnode, hthread]
    rw [if_pos hnz, detachThread_mmz, hbuf]
  have hfind := findThread_detachThread k.buf_id hthread
  refine ⟨buf, ?_, by rw [hserve]⟩
  rw [hserve, detachName]
  dsimp only
  -- what has no references is not there
  have hnothread : ∀ tid ≠ k.tid, w'.nameRefs k.name = 0 → dev.thread? k.name tid = none := by
    intro tid hne hzero
    have hle := w'.threadRefs_le k.name tid
    have hrefs := h.threads k.name tid
    rw [← helse.threads k.name tid fun hsame => hne hsame.2.symm,
      show w'.threadRefs k.name tid = 0 by omega] at hrefs
    exact refs_none hrefs
  have hnobuffer : ∀ i ≠ k.buf_id, w'.threadRefs k.name k.tid = 0 →
      dev.at { k with buf_id := i } = none := by
    intro i hne hzero
    have hle : w'.bufferRefs { k with buf_id := i } ≤ w'.threadRefs k.name k.tid :=
      w'.bufferRefs_le { k with buf_id := i }
    have hrefs := h.buffers { k with buf_id := i }
    rw [← helse.buffers _ fun hsame => hne (congrArg Key.buf_id hsame),
      show w'.bufferRefs { k with buf_id := i } = 0 by omega] at hrefs
    exact refs_none hrefs
  have hnoslot : w'.threadRefs k.name k.tid = 0 → (detachBuffer (some buf)).1 = none := by
    intro hzero
    have hle := w'.bufferRefs_le k
    have hrefs := hw.bufferRefs k
    rw [hk, if_pos rfl] at hrefs
    rw [detachBuffer_fst, if_pos (by omega)]
  have hle := w'.threadRefs_le k.name k.tid
  by_cases hlast : node.name_cnt - 1 ≤ 0
  · -- the last end of the name
    rw [if_pos hlast]
    have hzero : w'.nameRefs k.name = 0 := by omega
    have hthreads : (dev.setName k.name none).threads k.name = [] := by
      rw [threads_setName, if_pos rfl]
      rfl
    refine ⟨hat, ?_, ⟨?_, ?_, ?_, ?_⟩, ?_, ?_, .inr hzero⟩
    · rw [at_eq, hthreads, hnoslot (by omega)]
      rfl
    · intro name hne
      rw [list_name_setName, if_neg hne]
    · intro tid hne
      rw [thread?_eq, hthreads, hnothread tid hne hzero]
      rfl
    · intro i hne
      rw [at_eq, hthreads, hnobuffer i hne (by omega)]
      rfl
    · rw [hthreads]
      exact List.nodup_nil
    · rw [list_name_setName_self, hzero]
      rfl
    · rw [thread?_eq, hthreads, show w'.threadRefs k.name k.tid = 0 by omega]
      rfl
  · rw [if_neg hlast]
    refine ⟨hat, ?_, elsewhere_setName ?_ ?_ ?_, ?_, ?_, .inl ?_⟩
    · rw [at_eq, threads_setName, if_pos rfl, Option.elim_some, hfind, if_pos rfl]
      split
      · rw [hnoslot (by omega)]
        rfl
      · rw [Option.bind_some, detached, ← hbuf]
        exact setBuffer_self ..
    · intro tid hne
      rw [hfind, if_neg hne, hold]
    · intro i hne
      rw [hfind, if_pos rfl]
      split
      · rw [← at_eq dev { k with buf_id := i }, hnobuffer i hne (by omega)]
        rfl
      · rw [hold, hthread, Option.bind_some, Option.bind_some]
        exact setBuffer_of_ne _ _ hne
    · exact nodup_detachThread thread k.buf_id (hold ▸ h.nodup k.name)
    · rw [list_name_setName_self, ← refs_pred hname, if_neg hlast]
      rfl
    · rw [thread?_eq, threads_setName, if_pos rfl, Option.elim_some, hfind, if_pos rfl,
        ← refs_pred htid]
      split <;> rfl
    · rw [Device.attachOf, Device.attachOf, list_name_setName_self, hnode]
      rfl

/-- An end that detaches keeps the counts. -/
theorem Counted.detached {dev dev' : Device} {w w' : Watch} {e : End} {k : Key} {buf : Buffer}
    (h : Counted dev w) (hd : Detached dev dev' w' k buf) (hk : e.key? = some k)
    (hw : Joins w' w e) : Counted dev' w' := by
  have hslot := h.slots k buf hd.before
  refine h.of_elsewhere hd.elsewhere (hw.refsElsewhere' hk h.tids) hd.name_cnt hd.tid_cnt ?_
    fun _ => hslot
  have hbuf := h.buffers k
  rw [hd.before, Option.map_some, hw.bufferRefs, hk, if_pos rfl] at hbuf
  rw [hd.after, detachBuffer_fst, ← refs_pred (eq_of_refs hbuf)]
  split <;> rfl

/-! ## Servers -/

/-- A call that only changes what is kept for one name. -/
structure Quiet (dev dev' : Device) (name : Name) : Prop where
  names : ∀ name' ≠ name, dev'.list_name name' = dev.list_name name'
  threads : ∀ name' tid, dev'.thread? name' tid = dev.thread? name' tid
  nodup : ∀ name', ((dev'.threads name').map Thread.tid).Nodup

theorem Quiet.at_eq {dev dev' : Device} {name : Name} (h : Quiet dev dev' name) (k : Key) :
    dev'.at k = dev.at k := by
  rw [Device.at, Device.at, Device.buffer?, Device.buffer?, h.threads]

theorem Counted.of_quiet {dev dev' : Device} {w w' : Watch} {name : Name} (h : Counted dev w)
    (hd : Quiet dev dev' name)
    (hname : (dev'.list_name name).map NameNode.name_cnt = refs (w'.nameRefs name))
    (hnames : ∀ name' ≠ name, w'.nameRefs name' = w.nameRefs name')
    (hthreads : ∀ name' tid, w'.threadRefs name' tid = w.threadRefs name' tid)
    (hbuffers : ∀ k, w'.bufferRefs k = w.bufferRefs k)
    (htids : ∀ e ∈ w'.ends, ∀ k ∈ e.key?, k.tid ≠ 0) : Counted dev' w' := by
  constructor
  -- only the count of this name may have changed
  · intro name'
    by_cases hne : name' = name
    · rw [hne]
      exact hname
    · rw [hd.names name' hne, hnames name' hne]
      exact h.names name'
  · intro name' tid
    rw [hd.threads, hthreads]
    exact h.threads name' tid
  · intro k
    rw [hd.at_eq, hbuffers]
    exact h.buffers k
  · intro k buf hbuf
    rw [hd.at_eq] at hbuf
    exact h.slots k buf hbuf
  · exact hd.nodup
  · exact htids

/-- Another state of a name that keeps its threads. -/
theorem quiet_setName {dev : Device} {w : Watch} {name : Name} {node : NameNode}
    (h : Counted dev w) (hthreads : node.list_thread = dev.threads name) :
    Quiet dev (dev.setName name (some node)) name := by
  have hsame : ∀ name', (dev.setName name (some node)).threads name' = dev.threads name' := by
    intro name'
    rw [threads_setName]
    split
    · rename_i heq
      rw [heq]
      exact hthreads
    · rfl
  refine ⟨fun name' hne => ?_, fun name' tid => ?_, fun name' => ?_⟩
  · rw [list_name_setName, if_neg hne]
  · rw [thread?_eq, thread?_eq, hsame]
  · rw [hsame]
    exact h.nodup name'

theorem serve_attachServer {dev : Device} {w : Watch} (h : Counted dev w) (name : Name) :
    Quiet dev (serve dev (.attachServer name)).1 name ∧
      ((serve dev (.attachServer name)).1.list_name name).map NameNode.name_cnt =
        refs (w.nameRefs name + 1) ∧
      (serve dev (.attachServer name)).1.attachOf name = dev.attachOf name := by
  obtain ⟨hthreads, hcnt, hattach⟩ := attachedName_spec dev name
  have hserve : serve dev (.attachServer name) =
      (dev.setName name (some (attachedName dev name)), { ret := .ok { name } }) := rfl
  rw [hserve]
  refine ⟨quiet_setName h hthreads, ?_, ?_⟩
  · rw [list_name_setName_self, Option.map_some, refs_succ, hcnt, getD_refs {} (h.names name) rfl]
  · rw [Device.attachOf, list_name_setName_self, Option.elim_some, hattach, Device.attachOf]

theorem serve_detachServer {dev : Device} {w w' : Watch} {name : Name} (h : Counted dev w)
    (hw : Joins w' w (.server name)) :
    Quiet dev (serve dev (.detach (.server name))).1 name ∧
      ((serve dev (.detach (.server name))).1.list_name name).map NameNode.name_cnt =
        refs (w'.nameRefs name) ∧
      ((serve dev (.detach (.server name))).1.attachOf name = dev.attachOf name ∨
        w'.nameRefs name = 0) ∧
      (serve dev (.detach (.server name))).2.mmz = [] := by
  have hrefs := hw.nameRefs name
  rw [End.name, if_pos rfl] at hrefs
  obtain ⟨node, hnode, hcnt⟩ := refs_pos (h.names name) (by omega)
  rw [hrefs] at hcnt
  have hserve : serve dev (.detach (.server name)) =
      (detachName dev name node, { ret := .ok { name } }) := by
    simp only [serve, End.user, detach, hnode]
    cases findThread node.list_thread 0 <;> rfl
  rw [hserve, detachName]
  dsimp only
  by_cases hlast : node.name_cnt - 1 ≤ 0
  · -- the last end of the name
    rw [if_pos hlast]
    have hzero : w'.nameRefs name = 0 := by omega
    have hsame : ∀ name' tid,
        (dev.setName name none).thread? name' tid = dev.thread? name' tid := by
      intro name' tid
      rw [thread?_eq, threads_setName]
      split
      · rename_i heq
        have hle := w'.threadRefs_le name tid
        have hthread := h.threads name tid
        rw [hw.threadRefs, show w'.threadRefs name tid = 0 by omega] at hthread
        rw [heq, refs_none hthread]
        rfl
      · rw [thread?_eq]
    refine ⟨⟨?_, hsame, ?_⟩, ?_, .inr hzero, rfl⟩
    · intro name' hne
      rw [list_name_setName, if_neg hne]
    · intro name'
      rw [threads_setName]
      split
      · exact List.nodup_nil
      · exact h.nodup name'
    · rw [list_name_setName_self, hzero]
      rfl
  · rw [if_neg hlast]
    have hthreads : node.list_thread = dev.threads name := by
      rw [Device.threads, hnode, Option.elim_some]
    refine ⟨quiet_setName h hthreads, ?_, .inl ?_, rfl⟩
    · rw [list_name_setName_self, ← refs_pred hcnt, if_neg hlast]
      rfl
    · rw [Device.attachOf, Device.attachOf, list_name_setName_self, hnode]
      rfl

theorem serve_listenWake {dev : Device} {w : Watch} {name : Name} (h : Counted dev w)
    (hattach : 0 < dev.attachOf name) :
    Quiet dev (serve dev (.listenWake name)).1 name ∧
      ((serve dev (.listenWake name)).1.list_name name).map NameNode.name_cnt =
        (dev.list_name name).map NameNode.name_cnt ∧
      (serve dev (.listenWake name)).1.attachOf name + 1 = dev.attachOf name := by
  cases hnode : dev.list_name name with
  | none => simp [Device.attachOf, hnode] at hattach
  | some node =>
    have hserve : serve dev (.listenWake name) =
        (dev.setName name (some { node with attach := node.attach - 1 }),
          { ret := .ok { name } }) := by
      simp only [serve, listenWake, hnode, Option.map_some]
    have hthreads : node.list_thread = dev.threads name := by
      rw [Device.threads, hnode, Option.elim_some]
    rw [hserve]
    refine ⟨quiet_setName h hthreads, ?_, ?_⟩
    · rw [list_name_setName_self]
      rfl
    · rw [Device.attachOf, hnode, Option.elim_some] at hattach
      rw [Device.attachOf, Device.attachOf, list_name_setName_self, hnode]
      exact Nat.sub_add_cancel hattach

theorem serve_listen (dev : Device) (name : Name) : (serve dev (.listen name)).1 = dev ∧
    (serve dev (.listen name)).2.mmz = [] := by
  simp only [serve, listen]
  cases dev.list_name name <;> exact ⟨rfl, rfl⟩

/-! ## Runs -/

/-- An end that is attached leaves the rest. -/
theorem joins_erase {w w' : Watch} {e : End} (he : e ∈ w.ends) (hends : w'.ends = w.ends.erase e)
    (hfailed : w'.failed = w.failed) : Joins w' w e :=
  ⟨by rw [hends]; exact List.perm_cons_erase he, hfailed.symm⟩

/-- A call of an attached end, with what is known behind it. -/
theorem next_attachClient {w : Watch} {name : Name} {pid : Nat} {out : Outcome} {k : Key}
    (h : out.key? = some k) :
    w.next (.attachClient name pid) out =
      { w with ends := .client k :: w.ends, returned := w.returned.filter (· ≠ k) } := by
  simp only [Watch.next, h]

theorem next_notAttached {w : Watch} {name : Name} {pid : Nat} {out : Outcome}
    (h : out.key? = none) :
    w.next (.attachClient name pid) out = { w with failed := (name, pid) :: w.failed } := by
  simp only [Watch.next, h]

theorem next_accepted {w : Watch} {name : Name} {out : Outcome} {k : Key}
    (h : out.key? = some k) :
    w.next (.listenReturn name) out =
      { w with
        ends := .accepted k :: w.ends
        woken := w.woken.erase name
        returned := k :: w.returned } := by
  simp only [Watch.next, h]

theorem next_notAccepted {w : Watch} {name : Name} {out : Outcome} (h : out.key? = none) :
    w.next (.listenReturn name) out = { w with woken := w.woken.erase name } := by
  simp only [Watch.next, h]

/-- What is known of the ends is all that the counts depend on. -/
theorem Counted.congr {dev : Device} {w w' : Watch} (h : Counted dev w) (hends : w'.ends = w.ends)
    (hfailed : w'.failed = w.failed) : Counted dev w' := by
  constructor
  · intro name
    rw [Watch.nameRefs, hends, hfailed]
    exact h.names name
  · intro name tid
    rw [Watch.threadRefs, hends, hfailed]
    exact h.threads name tid
  · intro k
    rw [Watch.bufferRefs, hends]
    exact h.buffers k
  · exact h.slots
  · exact h.nodup
  · rw [hends]
    exact h.tids

/-- An end that waits in `LXC_IPC_LISTEN` is attached. -/
theorem end_key {e : End} {k : Key} (h : e.key? = some k) : e = .client k ∨ e = .accepted k := by
  cases e <;> simp_all [End.key?]

/-- Every call keeps the counts. -/
theorem counted_step {s : Device × Watch} {i : Input} (h : Counted s.1 s.2)
    (hi : WellFormed s i) : Counted (served.step s i).1.1 (served.step s i).1.2 := by
  obtain ⟨dev, w⟩ := s
  change Counted (serve dev i).1 (w.next i (serve dev i).2)
  -- each request changes the counts as it changes the ends
  cases i with
  | attachServer name =>
    obtain ⟨hquiet, hcnt, -⟩ := serve_attachServer h name
    have hw : Joins w (w.next (.attachServer name) (serve dev (.attachServer name)).2)
        (.server name) := ⟨.refl _, rfl⟩
    refine h.of_quiet hquiet ?_ ?_ ?_ ?_ ?_
    · rw [hcnt, hw.nameRefs, End.name, if_pos rfl]
    · intro name' hne
      rw [hw.nameRefs, End.name, if_neg (Ne.symm hne)]
      rfl
    · intro name' tid
      rw [hw.threadRefs]
      rfl
    · intro k
      rw [hw.bufferRefs]
      rfl
    · exact List.forall_mem_cons.mpr ⟨by simp [End.key?], h.tids⟩
  | attachClient name pid =>
    rcases serve_attachClient h name pid with ⟨k, rfl, rfl, hkey, hd⟩ | ⟨hkey, hd⟩
    · rw [next_attachClient hkey]
      exact h.attachClient hd ⟨.refl _, rfl⟩ hi
    · rw [next_notAttached hkey]
      exact h.notAttached hd rfl rfl
  | detach e =>
    cases hkey : e.key? with
    | none =>
      cases e with
      | server name =>
        have he : End.server name ∈ w.ends := List.count_pos_iff.mp (Nat.zero_lt_of_lt hi)
        have hw : Joins (w.next (.detach (.server name)) (serve dev (.detach (.server name))).2) w
            (.server name) := joins_erase he rfl rfl
        obtain ⟨hquiet, hcnt, -⟩ := serve_detachServer h hw
        refine h.of_quiet hquiet hcnt ?_ ?_ ?_ fun e he => h.tids e (List.mem_of_mem_erase he)
        · intro name' hne
          rw [hw.nameRefs, End.name, if_neg (Ne.symm hne)]
          rfl
        · intro name' tid
          rw [hw.threadRefs]
          rfl
        · intro k
          rw [hw.bufferRefs]
          rfl
      | client k => cases hkey
      | accepted k => cases hkey
    | some k =>
      have he : e ∈ w.ends := by
        rcases end_key hkey with rfl | rfl <;> exact hi
      have hw : Joins (w.next (.detach e) (serve dev (.detach e)).2) w e := joins_erase he rfl rfl
      obtain ⟨buf, hd, -⟩ := serve_detach h he hkey hw
      exact h.detached hd hkey hw
  | onBuffer k c =>
    obtain ⟨e, he, hkey⟩ := hi
    obtain ⟨buf, hd, -⟩ := serve_onBuffer h he hkey c
    exact h.onBuffer hd (run_buf_cnt k c buf).1
  | listen name =>
    rw [(serve_listen dev name).1]
    exact h.congr rfl rfl
  | listenWake name =>
    obtain ⟨hquiet, hcnt, -⟩ := serve_listenWake h hi.2
    refine h.of_quiet hquiet ?_ (fun _ _ => rfl) (fun _ _ => rfl) (fun _ => rfl) h.tids
    rw [hcnt]
    exact h.names name
  | listenReturn name =>
    rcases serve_listenReturn h name with ⟨k, buf, rfl, hkey, hd⟩ | ⟨hkey, hsame, -⟩
    · rw [next_accepted hkey]
      have htid : k.tid ≠ 0 := by
        obtain ⟨e, he, hk⟩ := h.exists_end hd.before
        exact h.tids e he k hk
      exact h.accepted hd ⟨.refl _, rfl⟩ htid
    · rw [next_notAccepted hkey, hsame]
      exact h.congr rfl rfl

theorem counted_init : Counted {} {} := by
  refine ⟨fun _ => rfl, fun _ _ => rfl, fun _ => rfl, fun k buf hat => ?_, fun _ => List.nodup_nil,
    by simp⟩
  exact nomatch hat

end Tntsat.LxcIpc
