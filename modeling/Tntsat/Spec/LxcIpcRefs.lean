import Mathlib.Algebra.Group.Nat.Defs
import Mathlib.Data.List.Nodup
import Tntsat.ForStd.Machine
import Tntsat.Native.LxcIpc

/-!
# The ends of the IPC driver

A server attaches to a name, a client to a slot of a thread of a name, and a server that
accepts a client gets an end of the client's buffer.  The machine `served` keeps the ends
beside the driver; every end detaches once.

## Key results

- `findThread_set` and its siblings: the threads of a name behind a change of one of them
- `Counted`: the driver counts the ends of a buffer, of a thread and of a name.  An attach
  that finds no free slot leaves its references to the name and to the thread behind
- `Counted.of_elsewhere`: a call on one slot has to be looked at there only
-/

namespace Tntsat.LxcIpc

/-! ## The ends -/

/-- The slot of a buffer. -/
structure Key where
  name : Name
  tid : Nat
  buf_id : Nat
deriving DecidableEq

/-- What an end names in its calls. -/
def Key.user (k : Key) : User := { name := k.name, tid := k.tid, buf_id := some k.buf_id }

/-- The buffer of a slot. -/
def Device.at (dev : Device) (k : Key) : Option Buffer :=
  dev.buffer? k.name k.tid (some k.buf_id)

/-- What is attached. -/
inductive End
  | server (name : Name)
  | client (k : Key)
  | accepted (k : Key)
deriving DecidableEq

/-- The name of an end. -/
def End.name : End → Name
  | .server name => name
  | .client k => k.name
  | .accepted k => k.name

/-- The slot of an end that has a buffer. -/
def End.key? : End → Option Key
  | .server _ => none
  | .client k => some k
  | .accepted k => some k

/-- What an end gives to `LXC_IPC_DETACH`. -/
def End.user : End → User
  | .server name => { name }
  | .client k => k.user
  | .accepted k => k.user

/-- A call on a buffer. -/
inductive BufferCall
  | resize (in_size out_size inAddr outAddr : Nat)
  | call (do_what : Int)
  | callReturn
  | accept
  | acceptWake
  | acceptReturn
  | done
deriving DecidableEq

/-- What a call does with the buffer of a slot. -/
def BufferCall.run (k : Key) : BufferCall → Buffer → Buffer × Outcome
  | .resize in_size out_size inAddr outAddr =>
    LxcIpc.resize { k.user with in_size, out_size } inAddr outAddr
  | .call do_what => LxcIpc.call { k.user with do_what }
  | .callReturn => LxcIpc.callReturn k.user
  | .accept => fun buf => (buf, { ret := .ok k.user })
  | .acceptWake => LxcIpc.acceptWake k.user
  | .acceptReturn => LxcIpc.acceptReturn k.user
  | .done => LxcIpc.done k.user

/-- A section of a call. -/
inductive Input
  | attachServer (name : Name)
  | attachClient (name : Name) (pid : Nat)
  | detach (e : End)
  | onBuffer (k : Key) (c : BufferCall)
  | listen (name : Name)
  | listenWake (name : Name)
  | listenReturn (name : Name)
deriving DecidableEq

/-- What the driver does. -/
def serve (dev : Device) : Input → Device × Outcome
  | .attachServer name => attach dev { name } 0
  | .attachClient name pid => attach dev { name, tid := 1 } pid
  | .detach e => detach dev e.user
  | .onBuffer k c => onBuffer (c.run k) dev k.user
  | .listen name => listen dev { name }
  | .listenWake name => listenWake dev { name }
  | .listenReturn name => listenReturn dev { name }

/-- What is known of a run: the ends, the attaches that failed, the servers that wait in
    `LXC_IPC_LISTEN` or are behind its wait, and the slots whose buffer a `LXC_IPC_LISTEN`
    has returned since it was attached. -/
structure Watch where
  ends : List End := []
  failed : List (Name × Nat) := []
  listening : List Name := []
  woken : List Name := []
  returned : List Key := []
deriving DecidableEq

/-- The slot that a call returns. -/
def Outcome.key? (out : Outcome) : Option Key :=
  match out.ret with
  | .ok user => user.buf_id.map fun buf_id => { name := user.name, tid := user.tid, buf_id }
  | .error _ => none

/-- What is known behind a call. -/
def Watch.next (w : Watch) (i : Input) (out : Outcome) : Watch :=
  match i, out.key? with
  | .attachServer name, _ => { w with ends := .server name :: w.ends }
  | .attachClient _ _, some k =>
    { w with ends := .client k :: w.ends, returned := w.returned.filter (· ≠ k) }
  | .attachClient name pid, none => { w with failed := (name, pid) :: w.failed }
  | .detach e, _ => { w with ends := w.ends.erase e }
  | .onBuffer _ _, _ => w
  | .listen name, _ => { w with listening := name :: w.listening }
  | .listenWake name, _ =>
    { w with listening := w.listening.erase name, woken := name :: w.woken }
  | .listenReturn name, some k =>
    { w with
      ends := .accepted k :: w.ends
      woken := w.woken.erase name
      returned := k :: w.returned }
  | .listenReturn name, none => { w with woken := w.woken.erase name }

/-- The driver beside what is known of the run. -/
def served : Machine (Device × Watch) Input Outcome where
  step s i := (((serve s.1 i).1, s.2.next i (serve s.1 i).2), (serve s.1 i).2)

/-- The servers of a name that are in `LXC_IPC_LISTEN`. -/
def Watch.busy (w : Watch) (name : Name) : Nat := w.listening.count name + w.woken.count name

/-- Every call is made by an end that is attached, a server is in one `LXC_IPC_LISTEN` at a
    time and does not detach in it, and a wait ends when there is a completion. -/
def WellFormed (s : Device × Watch) : Input → Prop
  | .attachServer _ => True
  | .attachClient _ pid => pid ≠ 0
  | .detach (.server name) => s.2.busy name < s.2.ends.count (.server name)
  | .detach e => e ∈ s.2.ends
  | .onBuffer k _ => ∃ e ∈ s.2.ends, e.key? = some k
  | .listen name => s.2.busy name < s.2.ends.count (.server name)
  | .listenWake name => name ∈ s.2.listening ∧ 0 < (s.1.list_name name).elim 0 NameNode.attach
  | .listenReturn name => name ∈ s.2.woken

instance (s : Device × Watch) : (i : Input) → Decidable (WellFormed s i)
  | .attachServer _ => inferInstanceAs (Decidable True)
  | .attachClient _ _ => inferInstanceAs (Decidable (_ ≠ _))
  | .detach (.server _) => inferInstanceAs (Decidable (_ < _))
  | .detach (.client _) => inferInstanceAs (Decidable (_ ∈ _))
  | .detach (.accepted _) => inferInstanceAs (Decidable (_ ∈ _))
  | .onBuffer _ _ => inferInstanceAs (Decidable (∃ e ∈ s.2.ends, _))
  | .listen _ => inferInstanceAs (Decidable (_ < _))
  | .listenWake _ => inferInstanceAs (Decidable (_ ∧ _))
  | .listenReturn _ => inferInstanceAs (Decidable (_ ∈ _))

/-! ## The threads of a name -/

/-- The threads of a name, of which there are none when the name is not there. -/
def Device.threads (dev : Device) (name : Name) : List Thread :=
  (dev.list_name name).elim [] NameNode.list_thread

theorem thread?_eq (dev : Device) (name : Name) (tid : Nat) :
    dev.thread? name tid = findThread (dev.threads name) tid := by
  rw [Device.thread?, Device.threads]
  cases dev.list_name name <;> rfl

theorem at_eq (dev : Device) (k : Key) :
    dev.at k = (findThread (dev.threads k.name) k.tid).bind (·.buffers k.buf_id) := by
  rw [Device.at, Device.buffer?, thread?_eq]
  rfl

theorem findThread_tid {l : List Thread} {tid : Nat} {thread : Thread}
    (h : findThread l tid = some thread) : thread.tid = tid := by
  simpa using List.find?_some h

theorem findThread_setThread (l : List Thread) (thread : Thread) (tid : Nat) :
    findThread (setThread thread l) tid =
      if tid = thread.tid then (findThread l tid).map fun _ => thread else findThread l tid := by
  induction l with
  | nil => simp [findThread, setThread]
  | cons t l ih =>
    simp only [findThread, setThread, List.map_cons, List.find?_cons] at ih ⊢
    by_cases ht : t.tid = thread.tid
    · by_cases htid : tid = thread.tid
      · simp [ht, htid]
      · simp [ht, htid, Ne.symm htid, ih]
    · by_cases hfound : t.tid = tid
      · simp [ht, ← hfound]
      · simp [ht, hfound, ih]

/-- Another state of a thread that is in the list. -/
theorem findThread_set {l : List Thread} {thread thread' : Thread} {tid : Nat}
    (h : findThread l tid = some thread) (htid : thread'.tid = tid) (tid' : Nat) :
    findThread (setThread thread' l) tid' =
      if tid' = tid then some thread' else findThread l tid' := by
  rw [findThread_setThread, htid]
  split
  · rename_i heq
    rw [heq, h, Option.map_some]
  · rfl

theorem findThread_delThread (l : List Thread) (tid tid' : Nat) :
    findThread (delThread tid l) tid' = if tid' = tid then none else findThread l tid' := by
  induction l with
  | nil => simp [findThread, delThread]
  | cons t l ih =>
    simp only [findThread, delThread, List.filter_cons, List.find?_cons] at ih ⊢
    by_cases ht : t.tid = tid
    · by_cases htid : tid' = tid
      · simp [ht, htid]
      · simpa [ht, htid, Ne.symm htid] using ih
    · by_cases hfound : t.tid = tid'
      · simp [← hfound, ht]
      · simpa [ht, hfound] using ih

theorem findThread_concat (l : List Thread) (thread : Thread) (tid : Nat) :
    findThread (l ++ [thread]) tid =
      (findThread l tid).or (if thread.tid = tid then some thread else none) := by
  simp only [findThread, List.find?_append, List.find?_cons, List.find?_nil]
  by_cases h : thread.tid = tid <;> simp [h]

@[simp] theorem setBuffer_self (thread : Thread) (i : Nat) (buf : Option Buffer) :
    (thread.setBuffer i buf).buffers i = buf := Function.update_self ..

theorem setBuffer_of_ne (thread : Thread) {i j : Nat} (buf : Option Buffer) (h : j ≠ i) :
    (thread.setBuffer i buf).buffers j = thread.buffers j := Function.update_of_ne h ..

@[simp] theorem setBuffer_tid (thread : Thread) (i : Nat) (buf : Option Buffer) :
    (thread.setBuffer i buf).tid = thread.tid := rfl

@[simp] theorem setBuffer_tid_cnt (thread : Thread) (i : Nat) (buf : Option Buffer) :
    (thread.setBuffer i buf).tid_cnt = thread.tid_cnt := rfl

theorem threads_setName (dev : Device) (name name' : Name) (node : Option NameNode) :
    (dev.setName name node).threads name' =
      if name' = name then node.elim [] NameNode.list_thread else dev.threads name' := by
  simp only [Device.threads, Device.setName, Function.update_apply]
  split <;> rfl

theorem list_name_setName (dev : Device) (name name' : Name) (node : Option NameNode) :
    (dev.setName name node).list_name name' =
      if name' = name then node else dev.list_name name' := by
  simp only [Device.setName, Function.update_apply]

/-! ## References -/

/-- What a count of references stands at; without references there is nothing to count. -/
def refs (c : Nat) : Option Int := if c = 0 then none else some c

theorem refs_succ (c : Nat) : refs (c + 1) = some ((c : Int) + 1) := by
  rw [refs, if_neg (Nat.succ_ne_zero c)]
  rfl

/-- The count of what is there, or of what is made. -/
theorem getD_refs {α : Type*} {cnt : α → Int} {o : Option α} {c : Nat} (fresh : α)
    (h : o.map cnt = refs c) (hfresh : cnt fresh = 0) : cnt (o.getD fresh) = c := by
  cases o with
  | none =>
    rw [Option.map_none] at h
    by_cases hc : c = 0
    · simp [hc, hfresh]
    · simp [refs, hc] at h
  | some a =>
    by_cases hc : c = 0
    · simp [refs, hc] at h
    · simpa [refs, hc] using h

theorem eq_of_refs {x : Int} {c : Nat} (h : some x = refs c) : x = c := by
  by_cases hc : c = 0
  · simp [refs, hc] at h
  · simpa [refs, hc] using h

/-- A count that stands above zero. -/
theorem refs_pos {α : Type*} {cnt : α → Int} {o : Option α} {c : Nat} (h : o.map cnt = refs c)
    (hpos : 0 < c) : ∃ a, o = some a ∧ cnt a = c := by
  rw [refs, if_neg (by omega)] at h
  simpa using h

/-- Nothing is there without references. -/
theorem refs_none {α : Type*} {cnt : α → Int} {o : Option α} (h : o.map cnt = refs 0) :
    o = none := by
  simpa [refs] using h

namespace Watch

/-- The ends of a name, and the attaches that left a reference to it. -/
def nameRefs (w : Watch) (name : Name) : Nat :=
  w.ends.countP (·.name = name) + w.failed.countP (·.1 = name)

/-- The ends of a thread, and the attaches that left a reference to it. -/
def threadRefs (w : Watch) (name : Name) (tid : Nat) : Nat :=
  w.ends.countP (·.key?.any fun k => k.name = name ∧ k.tid = tid) + w.failed.count (name, tid)

/-- The ends of a buffer. -/
def bufferRefs (w : Watch) (k : Key) : Nat := w.ends.countP (·.key? = some k)

theorem threadRefs_le (w : Watch) (name : Name) (tid : Nat) :
    w.threadRefs name tid ≤ w.nameRefs name := by
  refine Nat.add_le_add (List.countP_mono_left fun e _ he => ?_)
    (List.countP_mono_left fun p _ hp => ?_)
  · cases e <;> simp_all [End.key?, End.name]
  · simp_all

theorem bufferRefs_le (w : Watch) (k : Key) : w.bufferRefs k ≤ w.threadRefs k.name k.tid := by
  refine Nat.le_add_right_of_le (List.countP_mono_left fun e _ he => ?_)
  simp_all

end Watch

/-- The counts are those of the ends, the slots in use are in the array and the threads of a
    name have different `tid`. -/
structure Counted (dev : Device) (w : Watch) : Prop where
  names : ∀ name, (dev.list_name name).map NameNode.name_cnt = refs (w.nameRefs name)
  threads : ∀ name tid, (dev.thread? name tid).map Thread.tid_cnt = refs (w.threadRefs name tid)
  buffers : ∀ k, (dev.at k).map Buffer.buf_cnt = refs (w.bufferRefs k)
  slots : ∀ k buf, dev.at k = some buf → k.buf_id < lxcIpcBuffersPerThread
  nodup : ∀ name, ((dev.threads name).map Thread.tid).Nodup
  tids : ∀ e ∈ w.ends, ∀ k ∈ e.key?, k.tid ≠ 0

/-! ## One reference more -/

/-- The thread that is attached is in the list, with one more reference. -/
theorem attachedThread_spec (l : List Thread) (tid : Nat) :
    let old := (findThread l tid).getD { tid }
    let new := (attachedThread l tid).2
    (new = { old with tid_cnt := old.tid_cnt + 1 }) ∧ new.tid = tid ∧
      ∀ tid', findThread (attachedThread l tid).1 tid' =
        if tid' = tid then some new else findThread l tid' := by
  rw [attachedThread]
  cases h : findThread l tid with
  | none =>
    refine ⟨rfl, rfl, fun tid' => ?_⟩
    rw [findThread_concat]
    by_cases htid : tid' = tid
    · simp [htid, h]
    · simp [htid, Ne.symm htid]
  | some thread =>
    have htid := findThread_tid h
    refine ⟨rfl, htid, fun tid' => ?_⟩
    rw [findThread_setThread]
    by_cases htid' : tid' = tid
    · simp [htid', htid, h]
    · simp [htid', htid]

theorem nodup_setThread {l : List Thread} (thread : Thread) (h : (l.map Thread.tid).Nodup) :
    ((setThread thread l).map Thread.tid).Nodup := by
  have hmap : (setThread thread l).map Thread.tid = l.map Thread.tid := by
    rw [setThread, List.map_map]
    refine List.map_congr_left fun t _ => ?_
    by_cases ht : t.tid = thread.tid <;> simp [ht]
  rw [hmap]
  exact h

theorem nodup_delThread {l : List Thread} (tid : Nat) (h : (l.map Thread.tid).Nodup) :
    ((delThread tid l).map Thread.tid).Nodup :=
  h.sublist (List.filter_sublist.map _)

theorem nodup_attachedThread {l : List Thread} (tid : Nat) (h : (l.map Thread.tid).Nodup) :
    ((attachedThread l tid).1.map Thread.tid).Nodup := by
  rw [attachedThread]
  cases hfind : findThread l tid with
  | none =>
    rw [findThread, List.find?_eq_none] at hfind
    simp only [List.map_append, List.map_cons, List.map_nil]
    refine h.append (List.nodup_singleton _) ?_
    intro t ht htid
    obtain ⟨thread, hthread, rfl⟩ := List.mem_map.mp ht
    exact hfind thread hthread (by simpa using htid)
  | some thread => exact nodup_setThread _ h

/-- One more end, and what it refers to. -/
structure Joins (w w' : Watch) (e : End) : Prop where
  ends : w'.ends.Perm (e :: w.ends)
  failed : w'.failed = w.failed

namespace Joins

variable {w w' : Watch} {e : End}

theorem nameRefs (h : Joins w w' e) (name : Name) :
    w'.nameRefs name = w.nameRefs name + if e.name = name then 1 else 0 := by
  simp only [Watch.nameRefs, h.ends.countP_eq, h.failed, List.countP_cons, decide_eq_true_eq]
  omega

theorem threadRefs (h : Joins w w' e) (name : Name) (tid : Nat) :
    w'.threadRefs name tid = w.threadRefs name tid +
      if e.key?.any fun k => k.name = name ∧ k.tid = tid then 1 else 0 := by
  simp only [Watch.threadRefs, h.ends.countP_eq, h.failed, List.countP_cons]
  omega

theorem bufferRefs (h : Joins w w' e) (k : Key) :
    w'.bufferRefs k = w.bufferRefs k + if e.key? = some k then 1 else 0 := by
  simp only [Watch.bufferRefs, h.ends.countP_eq, List.countP_cons, decide_eq_true_eq]

end Joins

theorem attachedName_spec (dev : Device) (name : Name) :
    (attachedName dev name).list_thread = dev.threads name ∧
      (attachedName dev name).name_cnt = ((dev.list_name name).getD {}).name_cnt + 1 ∧
      (attachedName dev name).attach = (dev.list_name name).elim 0 NameNode.attach := by
  rw [attachedName, Device.threads]
  cases dev.list_name name <;> exact ⟨rfl, rfl, rfl⟩

/-! ## Calls on one slot -/

/-- Nothing changes for the other slots, the other threads and the other names. -/
structure Elsewhere (dev dev' : Device) (k : Key) : Prop where
  names : ∀ name ≠ k.name, dev'.list_name name = dev.list_name name
  threads : ∀ tid ≠ k.tid, dev'.thread? k.name tid = dev.thread? k.name tid
  buffers : ∀ buf_id ≠ k.buf_id, dev'.at { k with buf_id } = dev.at { k with buf_id }
  nodup : ((dev'.threads k.name).map Thread.tid).Nodup

theorem Elsewhere.at_ne {dev dev' : Device} {k k' : Key} (h : Elsewhere dev dev' k)
    (hne : k' ≠ k) : dev'.at k' = dev.at k' := by
  obtain ⟨name, tid, buf_id⟩ := k'
  by_cases hname : name = k.name
  · subst hname
    by_cases htid : tid = k.tid
    · subst htid
      refine h.buffers buf_id fun hid => hne ?_
      rw [hid]
    · rw [Device.at, Device.buffer?, h.threads tid htid]
      rfl
  · rw [at_eq, at_eq, Device.threads, h.names name hname]
    rfl

/-- No references are gained or lost for the other slots, threads and names. -/
structure RefsElsewhere (w w' : Watch) (k : Key) : Prop where
  names : ∀ name ≠ k.name, w'.nameRefs name = w.nameRefs name
  threads : ∀ name tid, ¬ (k.name = name ∧ k.tid = tid) →
    w'.threadRefs name tid = w.threadRefs name tid
  buffers : ∀ k' ≠ k, w'.bufferRefs k' = w.bufferRefs k'
  tids : ∀ e ∈ w'.ends, ∀ k ∈ e.key?, k.tid ≠ 0

/-- The counts stay right when they are right for the slot of the call. -/
theorem Counted.of_elsewhere {dev dev' : Device} {w w' : Watch} {k : Key} (h : Counted dev w)
    (hdev : Elsewhere dev dev' k) (hw : RefsElsewhere w w' k)
    (hname : (dev'.list_name k.name).map NameNode.name_cnt = refs (w'.nameRefs k.name))
    (hthread : (dev'.thread? k.name k.tid).map Thread.tid_cnt = refs (w'.threadRefs k.name k.tid))
    (hbuffer : (dev'.at k).map Buffer.buf_cnt = refs (w'.bufferRefs k))
    (hslot : dev'.at k ≠ none → k.buf_id < lxcIpcBuffersPerThread) : Counted dev' w' := by
  constructor
  · intro name
    by_cases hne : name = k.name
    · rw [hne]
      exact hname
    · rw [hdev.names name hne, hw.names name hne]
      exact h.names name
  -- the thread of the key, another one of its name, or one of another name
  · intro name tid
    by_cases hsame : k.name = name ∧ k.tid = tid
    · obtain ⟨rfl, rfl⟩ := hsame
      exact hthread
    · rw [hw.threads name tid hsame, ← h.threads name tid]
      by_cases hne : name = k.name
      · rw [hne, hdev.threads tid fun htid => hsame ⟨hne.symm, htid.symm⟩]
      · rw [Device.thread?, hdev.names name hne]
        rfl
  · intro k'
    by_cases hne : k' = k
    · rw [hne]
      exact hbuffer
    · rw [hdev.at_ne hne, hw.buffers k' hne]
      exact h.buffers k'
  · intro k' buf hbuf
    by_cases hne : k' = k
    · rw [hne] at hbuf ⊢
      exact hslot (by simp [hbuf])
    · rw [hdev.at_ne hne] at hbuf
      exact h.slots k' buf hbuf
  · intro name
    by_cases hne : name = k.name
    · rw [hne]
      exact hdev.nodup
    · rw [Device.threads, hdev.names name hne]
      exact h.nodup name
  · exact hw.tids

/-- Another state of the name of a slot, in which only its thread and its buffer differ. -/
theorem elsewhere_setName {dev : Device} {k : Key} {node : NameNode}
    (hthreads : ∀ tid ≠ k.tid,
      findThread node.list_thread tid = findThread (dev.threads k.name) tid)
    (hbuffers : ∀ i ≠ k.buf_id, (findThread node.list_thread k.tid).bind (·.buffers i) =
      (findThread (dev.threads k.name) k.tid).bind (·.buffers i))
    (hnodup : (node.list_thread.map Thread.tid).Nodup) :
    Elsewhere dev (dev.setName k.name (some node)) k where
  names name hne := by rw [list_name_setName, if_neg hne]
  threads tid hne := by
    rw [thread?_eq, thread?_eq, threads_setName, if_pos rfl]
    exact hthreads tid hne
  buffers i hne := by
    rw [at_eq, at_eq, threads_setName, if_pos rfl]
    exact hbuffers i hne
  nodup := by
    rw [threads_setName, if_pos rfl]
    exact hnodup

/-- An end joins its slot. -/
theorem Joins.refsElsewhere {w w' : Watch} {e : End} {k : Key} (h : Joins w w' e)
    (hk : e.key? = some k) (htid : k.tid ≠ 0) (hw : ∀ e ∈ w.ends, ∀ k ∈ e.key?, k.tid ≠ 0) :
    RefsElsewhere w w' k where
  names name hne := by
    have hname : e.name = k.name := by cases e <;> simp_all [End.key?, End.name]
    rw [h.nameRefs, hname, if_neg (Ne.symm hne)]
    rfl
  threads name tid hne := by
    rw [h.threadRefs, hk, Option.any_some, if_neg (by simpa using hne)]
    rfl
  buffers k' hne := by
    rw [h.bufferRefs, hk, if_neg (by simpa using Ne.symm hne)]
    rfl
  tids := by
    intro e' he' k' hk'
    cases h.ends.subset he' with
    | head =>
      rw [hk] at hk'
      cases hk'
      exact htid
    | tail _ he' => exact hw e' he' k' hk'

/-- An end leaves its slot. -/
theorem Joins.refsElsewhere' {w w' : Watch} {e : End} {k : Key} (h : Joins w' w e)
    (hk : e.key? = some k) (hw : ∀ e ∈ w.ends, ∀ k ∈ e.key?, k.tid ≠ 0) :
    RefsElsewhere w w' k := by
  have hleft : ∀ e' ∈ w'.ends, ∀ k ∈ e'.key?, k.tid ≠ 0 := fun e' he' =>
    hw e' (h.ends.symm.subset (List.mem_cons_of_mem _ he'))
  have htid := hw e (h.ends.symm.subset List.mem_cons_self) k hk
  have hjoin := h.refsElsewhere hk htid hleft
  exact
    { names := fun name hne => (hjoin.names name hne).symm
      threads := fun name tid hne => (hjoin.threads name tid hne).symm
      buffers := fun k' hne => (hjoin.buffers k' hne).symm
      tids := hleft }

end Tntsat.LxcIpc
