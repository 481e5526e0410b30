import Mathlib.Algebra.Group.Nat.Defs
import Mathlib.Data.List.Nodup
import Tntsat.Spec.LxcIpcCounts

/-!
# Servers and clients find each other

`attach` of a name is meant to count its clients that no `LXC_IPC_LISTEN` has returned.
A client that detaches before that takes its buffer with it and leaves its count behind.

## Key results

- `connections_kept`: the counts are those of the ends and a server that wakes up gets a
  client that waits, as long as every client finds a slot and is accepted before it detaches
- `attach_full`: an attach that finds no slot fails and counts
- `client_gone`: a server that wakes up for a client that is gone
-/

namespace Tntsat.LxcIpc

/-- A client of a name that no server has accepted. -/
def End.waits (returned : List Key) (name : Name) : End → Bool
  | .client k => k.name = name ∧ k ∉ returned
  | _ => false

/-- The clients of a name that no server has accepted. -/
def Watch.waiting (w : Watch) (name : Name) : Nat := w.ends.countP (End.waits w.returned name)

/-- The counts are those of the ends. -/
def CountsOk (dev : Device) (ends : List End) : Prop :=
  (∀ name, (dev.list_name name).map NameNode.name_cnt = refs (ends.countP (·.name = name))) ∧
    (∀ name tid, (dev.thread? name tid).map Thread.tid_cnt =
      refs (ends.countP (·.key?.any fun k => k.name = name ∧ k.tid = tid))) ∧
    ∀ k, (dev.at k).map Buffer.buf_cnt = refs (ends.countP (·.key? = some k))

/-- What is expected of a call: the counts are those of the ends behind it, an attach that
    fails changes nothing, and `LXC_IPC_LISTEN` returns a client that is attached and that
    it has not returned before. -/
structure ConnectOk (s : Device × Watch) (i : Input) : Prop where
  counts : CountsOk (served.step s i).1.1 (served.step s i).1.2.ends
  attach : ∀ name pid, i = .attachClient name pid → (served.step s i).2.key? = none →
    (served.step s i).1.1 = s.1
  listen : ∀ name, i = .listenReturn name →
    ∃ k, (served.step s i).2.key? = some k ∧ k.name = name ∧ .client k ∈ s.2.ends ∧
      k ∉ s.2.returned

/-- A client finds a free slot, and it is accepted before it detaches. -/
def Accepts (s : Device × Watch) : Input → Prop
  | .attachClient name pid => ∃ i < lxcIpcBuffersPerThread, s.1.at ⟨name, pid, i⟩ = none
  | .detach (.client k) => k ∈ s.2.returned
  | _ => True

instance (s : Device × Watch) : (i : Input) → Decidable (Accepts s i)
  | .attachServer _ => inferInstanceAs (Decidable True)
  | .attachClient _ _ => inferInstanceAs (Decidable (∃ i < lxcIpcBuffersPerThread, _))
  | .detach (.server _) => inferInstanceAs (Decidable True)
  | .detach (.client _) => inferInstanceAs (Decidable (_ ∈ _))
  | .detach (.accepted _) => inferInstanceAs (Decidable True)
  | .onBuffer _ _ => inferInstanceAs (Decidable True)
  | .listen _ => inferInstanceAs (Decidable True)
  | .listenWake _ => inferInstanceAs (Decidable True)
  | .listenReturn _ => inferInstanceAs (Decidable True)

/-! ## The invariant -/

/-- What holds in a run in which every client is accepted. -/
structure Connected (dev : Device) (w : Watch) : Prop where
  counted : Counted dev w
  failed : w.failed = []
  connected : ∀ k buf, dev.at k = some buf → (buf.connected = 0 ↔ k ∉ w.returned)
  accepted : ∀ k, .accepted k ∈ w.ends → k ∈ w.returned
  clients : ∀ k, w.ends.count (.client k) ≤ 1
  attach : ∀ name, dev.attachOf name + w.woken.count name = w.waiting name
  busy : ∀ name, w.busy name ≤ w.ends.count (.server name)

theorem Connected.countsOk {dev : Device} {w : Watch} (h : Connected dev w) :
    CountsOk dev w.ends := by
  refine ⟨fun name => ?_, fun name tid => ?_, h.counted.buffers⟩
  · rw [h.counted.names name, Watch.nameRefs, h.failed]
    rfl
  · rw [h.counted.threads name tid, Watch.threadRefs, h.failed]
    rfl

theorem waiting_le (w : Watch) (name : Name) : w.waiting name ≤ w.nameRefs name := by
  refine Nat.le_add_right_of_le (List.countP_mono_left fun e _ he => ?_)
  cases e <;> simp_all [End.waits, End.name]

/-- A client that waits has the end of a buffer that is not connected. -/
theorem Connected.of_waiting {dev : Device} {w : Watch} {name : Name} (h : Connected dev w)
    (hw : 0 < w.waiting name) :
    ∃ k buf, k.name = name ∧ dev.at k = some buf ∧ buf.connected = 0 := by
  obtain ⟨e, he, hwaits⟩ := List.countP_pos_iff.mp hw
  cases e with
  | client k =>
    rw [End.waits, decide_eq_true_eq] at hwaits
    obtain ⟨_, _, buf, -, -, -, hat, -⟩ := h.counted.of_mem he rfl
    exact ⟨k, buf, hwaits.1, hat, (h.connected k buf hat).mpr hwaits.2⟩
  | server name => exact nomatch hwaits
  | accepted k => exact nomatch hwaits

/-- A buffer that no server has accepted has its client's end only. -/
theorem Connected.client_of_waiting {dev : Device} {w : Watch} {k : Key} {buf : Buffer}
    (h : Connected dev w) (hat : dev.at k = some buf) (hk : k ∉ w.returned) :
    .client k ∈ w.ends := by
  obtain ⟨e, he, hkey⟩ := h.counted.exists_end hat
  rcases end_key hkey with rfl | rfl
  · exact he
  · exact absurd (h.accepted k he) hk

/-- A client that is accepted waits no longer. -/
theorem countP_accepted {returned : List Key} {k : Key} (hk : k ∉ returned) (name : Name)
    (ends : List End) :
    ends.countP (End.waits (k :: returned) name) +
        (if k.name = name then ends.count (.client k) else 0) =
      ends.countP (End.waits returned name) := by
  induction ends with
  | nil => simp
  | cons e ends ih =>
    rw [List.countP_cons, List.countP_cons, List.count_cons, ← ih]
    by_cases he : e = .client k
    · subst he
      by_cases hname : k.name = name
      · simp [End.waits, hname, hk, Nat.add_assoc]
      · simp [End.waits, hname]
    · have hsame : End.waits (k :: returned) name e = End.waits returned name e := by
        cases e with
        | client k' =>
          have hne : k' ≠ k := fun heq => he (congrArg End.client heq)
          simp [End.waits, hne]
        | server name => rfl
        | accepted k' => rfl
      simp only [hsame, beq_iff_eq, he, if_false, Nat.add_zero]
      omega

/-- A slot that is free has no ends, so its clients can be forgotten. -/
theorem countP_forgotten {returned : List Key} {k : Key} {ends : List End}
    (hk : ∀ e ∈ ends, e.key? ≠ some k) (name : Name) :
    ends.countP (End.waits (returned.filter (· ≠ k)) name) =
      ends.countP (End.waits returned name) := by
  refine List.countP_congr fun e he => ?_
  cases e with
  | client k' =>
    have hne : k' ≠ k := fun heq => hk _ he (congrArg some heq)
    simp [End.waits, hne]
  | server _ => rfl
  | accepted _ => rfl

/-! ## Steps -/

theorem attachOf_congr {dev dev' : Device} {name : Name}
    (h : dev'.list_name name = dev.list_name name) : dev'.attachOf name = dev.attachOf name := by
  rw [Device.attachOf, Device.attachOf, h]

/-- A buffer that is free has no ends. -/
theorem Counted.no_end {dev : Device} {w : Watch} {k : Key} (h : Counted dev w)
    (hat : dev.at k = none) : ∀ e ∈ w.ends, e.key? ≠ some k := by
  intro e he hk
  obtain ⟨_, _, buf, -, -, -, hbuf, -⟩ := h.of_mem he hk
  rw [hat] at hbuf
  exact nomatch hbuf

theorem Connected.attachClient {dev dev' : Device} {w w' : Watch} {k : Key} (h : Connected dev w)
    (hd : Attached dev dev' w k) (hcounted : Counted dev' w')
    (hw : w' = { w with ends := .client k :: w.ends, returned := w.returned.filter (· ≠ k) }) :
    Connected dev' w' := by
  have hnoend := h.counted.no_end hd.free
  -- the slot was free, so no end has its key yet
  have hzero : w.ends.count (.client k) = 0 :=
    List.count_eq_zero.mpr fun he => hnoend _ he rfl
  subst hw
  refine ⟨hcounted, h.failed, ?_, ?_, ?_, ?_, ?_⟩
  · intro k' buf hat
    by_cases hk : k' = k
    · subst hk
      rw [hd.buffer] at hat
      cases hat
      simp
    · rw [hd.elsewhere.at_ne hk] at hat
      rw [h.connected k' buf hat]
      simp [hk]
  · intro k' he
    have he' : .accepted k' ∈ w.ends := by simpa using he
    have hk : k' ≠ k := fun heq => hnoend _ he' (congrArg some heq)
    simpa [hk] using h.accepted k' he'
  · intro k'
    rw [List.count_cons]
    by_cases hk : k = k'
    · subst hk
      simp [hzero]
    · simpa [hk] using h.clients k'
  · intro name
    have hwaiting := h.attach name
    rw [Watch.waiting] at hwaiting ⊢
    dsimp only
    rw [List.countP_cons, countP_forgotten hnoend, ← hwaiting]
    by_cases hname : name = k.name
    · subst hname
      rw [hd.attach]
      simp [End.waits]
      omega
    · rw [attachOf_congr (hd.elsewhere.names name hname)]
      simp [End.waits, Ne.symm hname]
  · intro name
    simpa [Watch.busy] using h.busy name

/-- A server gets the first end of a client that waits. -/
theorem Connected.listenReturn {dev dev' : Device} {w w' : Watch} {k : Key} {buf : Buffer}
    (h : Connected dev w) (hd : Accepted dev dev' w k buf) (hcounted : Counted dev' w')
    (hwoken : k.name ∈ w.woken)
    (hw : w' = { w with
      ends := .accepted k :: w.ends, woken := w.woken.erase k.name, returned := k :: w.returned }) :
    Connected dev' w' := by
  have hk : k ∉ w.returned := (h.connected k buf hd.before).mp hd.waiting
  -- one client waits for this answer
  have hcount : w.ends.count (.client k) = 1 := by
    have hpos := List.count_pos_iff.mpr (h.client_of_waiting hd.before hk)
    have hle := h.clients k
    omega
  subst hw
  refine ⟨hcounted, h.failed, ?_, ?_, ?_, ?_, ?_⟩
  · intro k' buf' hat
    by_cases hk' : k' = k
    · subst hk'
      rw [hd.after] at hat
      cases hat
      simp
    · rw [hd.elsewhere.at_ne hk'] at hat
      rw [h.connected k' buf' hat]
      simp [hk']
  · intro k' he
    rcases List.mem_cons.mp he with heq | he
    · cases heq
      exact List.mem_cons_self
    · exact List.mem_cons_of_mem _ (h.accepted k' he)
  · intro k'
    simpa using h.clients k'
  · intro name
    have hwaiting := h.attach name
    have haccepted := countP_accepted hk name w.ends
    rw [Watch.waiting] at hwaiting ⊢
    dsimp only
    rw [List.countP_cons, hcount] at *
    by_cases hname : name = k.name
    · subst hname
      have hpos := List.count_pos_iff.mpr hwoken
      rw [hd.attach, List.count_erase_self]
      simp only [End.waits, if_true, Bool.false_eq_true, if_false] at haccepted ⊢
      omega
    · rw [attachOf_congr (hd.elsewhere.names name hname), List.count_erase_of_ne hname]
      rw [if_neg (Ne.symm hname)] at haccepted
      simp only [End.waits, Bool.false_eq_true, if_false]
      omega
  · intro name
    have hbusy := h.busy name
    have hle := (w.woken.erase_sublist (a := k.name)).count_le name
    simp only [Watch.busy] at hbusy ⊢
    simp only [List.count_cons]
    omega

/-- An end that detaches, which does not wait. -/
theorem Connected.erase {dev dev' : Device} {w w' : Watch} {e : End} (h : Connected dev w)
    (he : e ∈ w.ends) (hcounted : Counted dev' w') (hw : w' = { w with ends := w.ends.erase e })
    (hconnected : ∀ k buf, dev'.at k = some buf → (buf.connected = 0 ↔ k ∉ w.returned))
    (hwaits : ∀ name, End.waits w.returned name e = false)
    (hbusy : ∀ name, w.busy name ≤ (w.ends.erase e).count (.server name))
    (hattach : ∀ name, dev'.attachOf name = dev.attachOf name ∨ w'.nameRefs name = 0) :
    Connected dev' w' := by
  have hwaiting : ∀ name, w'.waiting name = w.waiting name := by
    intro name
    rw [Watch.waiting, Watch.waiting, hw,
      (List.perm_cons_erase he).countP_eq (End.waits w.returned name), List.countP_cons, hwaits name]
    rfl
  refine ⟨hcounted, ?_, ?_, ?_, ?_, fun name => ?_, ?_⟩
  · rw [hw]
    exact h.failed
  · rw [hw]
    exact hconnected
  · rw [hw]
    exact fun k hk => h.accepted k (List.mem_of_mem_erase hk)
  · rw [hw]
    exact fun k => Nat.le_trans ((List.erase_sublist ..).count_le _) (h.clients k)
  · have hold := h.attach name
    rw [hwaiting, ← hold, hw]
    rcases hattach name with hsame | hzero
    · rw [hsame]
    · -- nobody waits under a name that is gone
      have hle := waiting_le w' name
      have hnone := hcounted.names name
      rw [hzero] at hnone hle
      rw [hwaiting] at hle
      rw [Device.attachOf, refs_none hnone]
      simp only [Option.elim_none]
      omega
  · rw [hw]
    exact hbusy

/-- A call that changes neither the ends nor what the connections are. -/
theorem Connected.same {dev dev' : Device} {w : Watch} (h : Connected dev w)
    (hcounted : Counted dev' w)
    (hconnected : ∀ k buf, dev'.at k = some buf → (buf.connected = 0 ↔ k ∉ w.returned))
    (hattach : ∀ name, dev'.attachOf name = dev.attachOf name) : Connected dev' w := by
  refine ⟨hcounted, h.failed, hconnected, h.accepted, h.clients, fun name => ?_, h.busy⟩
  rw [hattach]
  exact h.attach name

theorem Connected.onBuffer {dev : Device} {w : Watch} {k : Key} {c : BufferCall}
    (h : Connected dev w) (hi : WellFormed (dev, w) (.onBuffer k c))
    (hcounted : Counted (serve dev (.onBuffer k c)).1 w) :
    Connected (serve dev (.onBuffer k c)).1 w := by
  obtain ⟨e, he, hkey⟩ := hi
  obtain ⟨buf, hd, -⟩ := serve_onBuffer h.counted he hkey c
  refine h.same hcounted (fun k' buf' hat => ?_) fun name => ?_
  · by_cases hk : k' = k
    · subst hk
      rw [hd.after] at hat
      cases hat
      rw [(run_buf_cnt k' c buf).2]
      exact h.connected k' buf hd.before
    · rw [hd.elsewhere.at_ne hk] at hat
      exact h.connected k' buf' hat
  · by_cases hname : name = k.name
    · rw [hname]
      exact hd.attach
    · exact attachOf_congr (hd.elsewhere.names name hname)

theorem Connected.detach {dev : Device} {w : Watch} {e : End} (h : Connected dev w)
    (hi : WellFormed (dev, w) (.detach e)) (hc : Accepts (dev, w) (.detach e))
    (hcounted : Counted (serve dev (.detach e)).1 { w with ends := w.ends.erase e }) :
    Connected (serve dev (.detach e)).1 { w with ends := w.ends.erase e } := by
  -- a server has no buffer; the other ends have one each
  cases hkey : e.key? with
  | none =>
    cases e with
    | server name =>
      have he : End.server name ∈ w.ends := List.count_pos_iff.mp (Nat.zero_lt_of_lt hi)
      have hw : Joins { w with ends := w.ends.erase (.server name) } w (.server name) :=
        joins_erase he rfl rfl
      obtain ⟨hquiet, -, hattach, -⟩ := serve_detachServer h.counted hw
      refine h.erase he hcounted rfl ?_ (fun _ => rfl) ?_ ?_
      · intro k buf hat
        rw [hquiet.at_eq] at hat
        exact h.connected k buf hat
      · intro name'
        by_cases hname : name' = name
        · subst hname
          rw [List.count_erase_self]
          exact Nat.le_sub_one_of_lt hi
        · rw [List.count_erase_of_ne (by simpa using hname)]
          exact h.busy name'
      · intro name'
        by_cases hname : name' = name
        · rw [hname]
          exact hattach
        · exact .inl (attachOf_congr (hquiet.names name' hname))
    | client k => exact nomatch hkey
    | accepted k => exact nomatch hkey
  | some k =>
    have he : e ∈ w.ends := by
      rcases end_key hkey with rfl | rfl <;> exact hi
    have hk : k ∈ w.returned := by
      rcases end_key hkey with rfl | rfl
      · exact hc
      · exact h.accepted k he
    have hw : Joins { w with ends := w.ends.erase e } w e := joins_erase he rfl rfl
    obtain ⟨buf, hd, -⟩ := serve_detach h.counted he hkey hw
    refine h.erase he hcounted rfl ?_ ?_ ?_ ?_
    · intro k' buf' hat
      by_cases hne : k' = k
      · subst hne
        rw [hd.after, detachBuffer_fst] at hat
        split at hat
        · exact nomatch hat
        · cases hat
          simp [hk]
      · rw [hd.elsewhere.at_ne hne] at hat
        exact h.connected k' buf' hat
    · intro name
      rcases end_key hkey with rfl | rfl
      · simp [End.waits, hk]
      · rfl
    · intro name
      rw [List.count_erase_of_ne (by rcases end_key hkey with rfl | rfl <;> simp)]
      exact h.busy name
    · intro name
      by_cases hname : name = k.name
      · rw [hname]
        exact hd.attach
      · exact .inl (attachOf_congr (hd.elsewhere.names name hname))

/-- A server that waits takes a count of its name. -/
theorem Connected.listenWake {dev : Device} {w : Watch} {name : Name} (h : Connected dev w)
    (hi : WellFormed (dev, w) (.listenWake name))
    (hcounted : Counted (serve dev (.listenWake name)).1
      { w with listening := w.listening.erase name, woken := name :: w.woken }) :
    Connected (serve dev (.listenWake name)).1
      { w with listening := w.listening.erase name, woken := name :: w.woken } := by
  obtain ⟨hquiet, -, hattach⟩ := serve_listenWake h.counted hi.2
  refine ⟨hcounted, h.failed, ?_, h.accepted, h.clients, ?_, ?_⟩
  · intro k buf hat
    rw [hquiet.at_eq] at hat
    exact h.connected k buf hat
  · intro name'
    -- a thread that is woken still waits for the same client
    have hold := h.attach name'
    rw [Watch.waiting] at hold ⊢
    dsimp only
    rw [← hold]
    by_cases hname : name' = name
    · subst hname
      rw [List.count_cons_self]
      omega
    · rw [attachOf_congr (hquiet.names name' hname), List.count_cons_of_ne (Ne.symm hname)]
  · intro name'
    have hbusy := h.busy name'
    simp only [Watch.busy] at hbusy ⊢
    by_cases hname : name' = name
    · subst hname
      have hpos : 0 < w.listening.count name' := List.count_pos_iff.mpr hi.1
      rw [List.count_erase_self, List.count_cons_self]
      omega
    · rw [List.count_erase_of_ne hname, List.count_cons_of_ne (Ne.symm hname)]
      exact hbusy

theorem Connected.attachServer {dev : Device} {w : Watch} {name : Name} (h : Connected dev w)
    (hcounted : Counted (serve dev (.attachServer name)).1
      { w with ends := .server name :: w.ends }) :
    Connected (serve dev (.attachServer name)).1 { w with ends := .server name :: w.ends } := by
  obtain ⟨hquiet, -, hattach⟩ := serve_attachServer h.counted name
  refine ⟨hcounted, h.failed, ?_, ?_, ?_, ?_, ?_⟩
  · intro k buf hat
    rw [hquiet.at_eq] at hat
    exact h.connected k buf hat
  · intro k he
    exact h.accepted k (by simpa using he)
  · intro k
    simpa using h.clients k
  · intro name'
    have hold := h.attach name'
    rw [Watch.waiting] at hold ⊢
    rw [List.countP_cons_of_neg (by simp [End.waits]), ← hold]
    by_cases hname : name' = name
    · rw [hname, hattach]
    · rw [attachOf_congr (hquiet.names name' hname)]
  · intro name'
    exact Nat.le_trans (h.busy name') List.count_le_count_cons

/-- A server that is attached goes to wait. -/
theorem Connected.listen {dev : Device} {w : Watch} {name : Name} (h : Connected dev w)
    (hi : WellFormed (dev, w) (.listen name))
    (hcounted : Counted (serve dev (.listen name)).1
      { w with listening := name :: w.listening }) :
    Connected (serve dev (.listen name)).1 { w with listening := name :: w.listening } := by
  rw [(serve_listen dev name).1] at hcounted ⊢
  refine ⟨hcounted, h.failed, h.connected, h.accepted, h.clients, h.attach, fun name' => ?_⟩
  have hbusy := h.busy name'
  have hserver : w.busy name < w.ends.count (.server name) := hi
  simp only [Watch.busy] at hbusy hserver ⊢
  by_cases hname : name' = name
  · subst hname
    rw [List.count_cons_self]
    omega
  · rw [List.count_cons_of_ne (Ne.symm hname)]
    exact hbusy

/-- One call: what is expected of it, and what holds behind it. -/
theorem connected_step {s : Device × Watch} {i : Input} (h : Connected s.1 s.2)
    (hi : WellFormed s i) (hc : Accepts s i) :
    ConnectOk s i ∧ Connected (served.step s i).1.1 (served.step s i).1.2 := by
  obtain ⟨dev, w⟩ := s
  change Connected dev w at h
  change ConnectOk (dev, w) i ∧ Connected (serve dev i).1 (w.next i (serve dev i).2)
  have hcounted : Counted (serve dev i).1 (w.next i (serve dev i).2) :=
    counted_step (s := (dev, w)) h.counted hi
  -- only the two that can fail say more than that the counts are kept
  have hok : Connected (serve dev i).1 (w.next i (serve dev i).2) →
      (∀ name pid, i = .attachClient name pid → (serve dev i).2.key? ≠ none) →
      (∀ name, i = .listenReturn name → ∃ k, (serve dev i).2.key? = some k ∧ k.name = name ∧
        .client k ∈ w.ends ∧ k ∉ w.returned) →
      ConnectOk (dev, w) i ∧ Connected (serve dev i).1 (w.next i (serve dev i).2) :=
    fun hnext hattach hlisten =>
      ⟨⟨hnext.countsOk, fun name pid hi hnone => absurd hnone (hattach name pid hi), hlisten⟩, hnext⟩
  cases i with
  | attachServer name =>
    exact hok (h.attachServer hcounted) (fun _ _ => nofun) (fun _ => nofun)
  | attachClient name pid =>
    rcases serve_attachClient h.counted name pid with ⟨k, rfl, rfl, hkey, hd⟩ | ⟨-, hd⟩
    · have hnext := h.attachClient hd hcounted (next_attachClient hkey)
      refine hok hnext (fun _ _ _ hnone => ?_) (fun _ => nofun)
      rw [hkey] at hnone
      exact Option.some_ne_none k hnone
    · -- there was a free slot
      obtain ⟨i, hi, hfree⟩ := hc
      exact absurd hfree (hd.full i hi)
  | detach e => exact hok (h.detach hi hc hcounted) (fun _ _ => nofun) (fun _ => nofun)
  | onBuffer k c => exact hok (h.onBuffer hi hcounted) (fun _ _ => nofun) (fun _ => nofun)
  | listen name =>
    exact hok (h.listen hi hcounted) (fun _ _ => nofun) (fun _ => nofun)
  | listenWake name => exact hok (h.listenWake hi hcounted) (fun _ _ => nofun) (fun _ => nofun)
  | listenReturn name =>
    rcases serve_listenReturn h.counted name with ⟨k, buf, rfl, hkey, hd⟩ | ⟨-, -, hnone⟩
    · refine hok (h.listenReturn hd hcounted hi (next_accepted hkey)) (fun _ _ => nofun) ?_
      rintro _ ⟨⟩
      have hk := (h.connected k buf hd.before).mp hd.waiting
      exact ⟨k, hkey, rfl, h.client_of_waiting hd.before hk, hk⟩
    · -- the client that the server was woken for
      have hpos : 0 < w.woken.count name := List.count_pos_iff.mpr hi
      have hattach := h.attach name
      obtain ⟨k, buf, hname, hat, hzero⟩ := h.of_waiting (show 0 < w.waiting name by omega)
      exact absurd hzero (hnone k buf hname hat)

/-! ## Runs -/

theorem connected_init : Connected {} {} := by
  refine ⟨counted_init, rfl, fun k buf hat => ?_, ?_, ?_, fun _ => rfl, fun _ => Nat.le_refl _⟩
  · exact nomatch hat
  · simp
  · simp

/-- In any order of the calls of servers and clients, the counts of a name, a thread and a
    buffer are those of their ends, an attach that fails changes nothing, and a server that
    wakes up in `LXC_IPC_LISTEN` gets a client that is attached and that no other got, as
    long as every client finds a free slot and is accepted before it detaches. -/
theorem connections_kept (is : List Input) (hwf : served.Always WellFormed ({}, {}) is)
    (hc : served.Always Accepts ({}, {}) is) : served.Always ConnectOk ({}, {}) is :=
  (Machine.always_of_invariant (I := fun s => Connected s.1 s.2)
    (fun _ _ h hi => connected_step h hi.1 hi.2) connected_init (hwf.and _ hc)).1

/-- `connections_kept` on two clients, of which the second comes while the server waits. -/
theorem connections_kept_two :
    served.Always ConnectOk ({}, {})
      [.attachServer [1], .attachClient [1] 7, .listen [1], .listenWake [1], .attachClient [1] 7,
        .listenReturn [1], .listen [1], .listenWake [1], .listenReturn [1],
        .detach (.accepted ⟨[1], 7, 0⟩), .detach (.client ⟨[1], 7, 0⟩), .attachClient [1] 7] :=
  connections_kept _ (by decide +kernel) (by decide +kernel)

/-- A server that wakes up for a client that has detached gets none. -/
theorem client_gone :
    ¬ ∀ is, served.Always WellFormed ({}, {}) is → served.Always ConnectOk ({}, {}) is := by
  intro h
  obtain ⟨-, -, -, -, -, hreturn, -⟩ := h
    [.attachServer [1], .attachClient [1] 7, .detach (.client ⟨[1], 7, 0⟩), .listen [1],
      .listenWake [1], .listenReturn [1]]
    (by decide +kernel)
  obtain ⟨k, hk, -⟩ := hreturn.listen [1] rfl
  revert hk
  have hnone : (served.step (served.final ({}, {})
      [.attachServer [1], .attachClient [1] 7, .detach (.client ⟨[1], 7, 0⟩), .listen [1],
        .listenWake [1]]) (.listenReturn [1])).2.key? = none := by decide +kernel
  intro hk
  exact Option.some_ne_none k (hk.symm.trans hnone)

/-- In a thread whose slots are all in use an attach fails, and the references that it took to
    the name and to the thread stay. -/
theorem attach_full {dev : Device} {w : Watch} {name : Name} {pid : Nat} (h : Counted dev w)
    (hfull : ∀ i < lxcIpcBuffersPerThread, dev.at ⟨name, pid, i⟩ ≠ none) :
    (serve dev (.attachClient name pid)).2.key? = none ∧
      NotAttached dev (serve dev (.attachClient name pid)).1 w name pid := by
  rcases serve_attachClient h name pid with ⟨k, rfl, rfl, -, hd⟩ | hnot
  · exact absurd hd.free (hfull k.buf_id hd.slot)
  · exact hnot

end Tntsat.LxcIpc
