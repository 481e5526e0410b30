import Tntsat.Native.PvrIdxRing

/-!
# What the readers of the kernel index ring get

The ring is a queue: what has been stored is what has been read followed by what
is pending.  `PVR_Read_Last_index` writes to the ring: when the time of the
newest record is earlier than the one it returned the time before, the record gets
the later time.  A record without a time and a time stamp it takes for an empty
cell.

## Key results

- `step_queue`: what each step does to the queue
- `ring_delivers`: every run in which the newest record is in order when it is
  looked at
- `last_rewrites`: a record that is changed before it is read
-/

namespace Tntsat.PvrIdxRing

open PvrShm (IndexInst VcodecType MmzBuffer invalidDmxid)

/-! ## The pending records -/

/-- The number of records between the pointers. -/
def pendingNum (i : IndexInst) : Nat := (i.index_wp + i.index_num - i.index_rp) % i.index_num

/-- The records that have not been read. -/
def pending (c : Chn) : List DmxRecIndex :=
  c.cells.readRing 0 c.inst.index_num c.inst.index_rp (pendingNum c.inst)

/-- The pointers lie in the ring. -/
structure Pointers (i : IndexInst) : Prop where
  two : 2 ≤ i.index_num
  rp : i.index_rp < i.index_num
  wp : i.index_wp < i.index_num

theorem nextWp_eq {i : IndexInst} (hp : Pointers i) : nextWp i = (i.index_wp + 1) % i.index_num := by
  have hwp := hp.wp
  unfold nextWp
  split
  · rename_i heq; rw [heq, Nat.mod_self]
  · exact (Nat.mod_eq_of_lt (by omega)).symm

theorem pendingNum_lt {i : IndexInst} (hp : Pointers i) : pendingNum i < i.index_num :=
  Nat.mod_lt _ (by have := hp.two; omega)

/-- The write position lies behind the pending records. -/
theorem wp_eq {i : IndexInst} (hp : Pointers i) :
    i.index_wp = (i.index_rp + pendingNum i) % i.index_num := by
  have hrp := hp.rp
  have hwp := hp.wp
  rw [pendingNum, wrap_eq (show i.index_wp + i.index_num - i.index_rp < _ by omega)]
  split <;> rw [wrap_eq (by omega)] <;> split <;> omega

/-- The number of pending records is told by the pointers. -/
theorem pendingNum_eq {i : IndexInst} (hp : Pointers i) {k : Nat} (hk : k < i.index_num)
    (hwp : i.index_wp = (i.index_rp + k) % i.index_num) : pendingNum i = k := by
  have hrp := hp.rp
  rw [pendingNum, hwp, wrap_eq (show i.index_rp + k < _ by omega)]
  split <;> rw [wrap_eq (by omega)] <;> split <;> omega

/-- The ring has room for a record exactly when the next write position is not the
    read position. -/
theorem nextWp_ne_rp {i : IndexInst} (hp : Pointers i) :
    nextWp i ≠ i.index_rp ↔ pendingNum i + 1 < i.index_num := by
  have hrp := hp.rp
  have hwp := hp.wp
  have htwo := hp.two
  rw [nextWp_eq hp, pendingNum, wrap_eq (show i.index_wp + 1 < _ by omega),
    wrap_eq (show i.index_wp + i.index_num - i.index_rp < _ by omega)]
  split <;> split <;> omega

theorem pendingNum_eq_zero {i : IndexInst} (hp : Pointers i) :
    pendingNum i = 0 ↔ i.index_rp = i.index_wp := by
  have hrp := hp.rp
  have hwp := hp.wp
  rw [pendingNum, wrap_eq (show i.index_wp + i.index_num - i.index_rp < _ by omega)]
  split <;> omega

/-! ## Storing -/

theorem putRecord_pointers {c : Chn} (hp : Pointers c.inst) (r : DmxRecIndex) :
    Pointers (putRecord c r).inst :=
  ⟨hp.two, hp.rp, by
    show nextWp c.inst < c.inst.index_num
    rw [nextWp_eq hp]
    exact Nat.mod_lt _ (by have := hp.two; omega)⟩

/-- A record joins the end of the queue. -/
theorem putRecord_pending {c : Chn} (hp : Pointers c.inst) (hroom : nextWp c.inst ≠ c.inst.index_rp)
    (r : DmxRecIndex) : pending (putRecord c r) = pending c ++ [r] := by
  have hlt := (nextWp_ne_rp hp).mp hroom
  have hnum : pendingNum (putRecord c r).inst = pendingNum c.inst + 1 := by
    refine pendingNum_eq (putRecord_pointers hp r) hlt ?_
    show nextWp c.inst = (c.inst.index_rp + (pendingNum c.inst + 1)) % c.inst.index_num
    rw [nextWp_eq hp, wp_eq hp, Nat.mod_add_mod, Nat.add_assoc]
  have hset : (c.cells.set (0 + (c.inst.index_rp + pendingNum c.inst) % c.inst.index_num)
      r).readRing 0 c.inst.index_num c.inst.index_rp (pendingNum c.inst + 1) =
      c.cells.readRing 0 c.inst.index_num c.inst.index_rp (pendingNum c.inst) ++ [r] :=
    Memory.readRing_set c.cells r (by omega)
  rw [Nat.zero_add, ← wp_eq hp] at hset
  rw [pending, hnum]
  exact hset

/-- The cell of the newest record. -/
def newest (c : Chn) : DmxRecIndex :=
  c.cells ((c.inst.index_wp + c.inst.index_num - 1) % c.inst.index_num)

theorem putRecord_newest {c : Chn} (hp : Pointers c.inst) (r : DmxRecIndex) :
    newest (putRecord c r) = r := by
  have hwp := hp.wp
  show c.cells.set c.inst.index_wp r
    ((nextWp c.inst + c.inst.index_num - 1) % c.inst.index_num) = r
  have hcell : (nextWp c.inst + c.inst.index_num - 1) % c.inst.index_num = c.inst.index_wp := by
    rw [nextWp_eq hp, wrap_eq (show c.inst.index_wp + 1 < _ by omega)]
    split <;> rw [wrap_eq (by omega)] <;> split <;> omega
  rw [hcell, Memory.set_self]

/-! ## A step of the thread -/

/-- The channel when it looks for a frame. -/
def begun (c : Chn) (env : StepEnv) : Chn :=
  if c.inst.status = 1 then firstInit c env.initTime else c

/-- The slot is in use and prepared. -/
def Ready (i : IndexInst) : Prop :=
  i.pu8KnlVirAddr ≠ 0 ∧ i.rec_dmxid ≠ invalidDmxid ∧ i.status ≠ 0

theorem begun_eq (c : Chn) (env : StepEnv) (hready : Ready c.inst) :
    ∃ status, (begun c env).inst = { c.inst with status := status } ∧ status ≠ 0 ∧ status ≠ 1 ∧
      (c.inst.status = 2 → status = 2) ∧
      (begun c env).cells = c.cells ∧
      (begun c env).last_data_time_ms = c.last_data_time_ms := by
  unfold begun
  split
  · rename_i hone
    exact ⟨2, rfl, by decide, by decide, fun _ => rfl, rfl, rfl⟩
  · rename_i hone
    exact ⟨c.inst.status, rfl, hready.2.2, hone, id, rfl, rfl⟩

theorem process_ready {c : Chn} (env : StepEnv) (hready : Ready c.inst) :
    processIndexData c env =
      if nextWp c.inst = c.inst.index_rp then (begun c env, {})
      else if (begun c env).inst.video_type = .butt then (begun c env, {})
      else
        match env.acquired with
        | some r => storeFrame (begun c env) r env
        | none => insertTime (begun c env) env := by
  obtain ⟨status, hinst, -⟩ := begun_eq c env hready
  have hnext : nextWp (begun c env).inst = nextWp c.inst := by rw [hinst]; rfl
  have hrp : (begun c env).inst.index_rp = c.inst.index_rp := by rw [hinst]
  rw [processIndexData, if_neg hready.1, if_neg hready.2.1, if_neg hready.2.2, ← hnext, ← hrp]
  rfl

/-- A step finds nothing to do, stores a frame, or looks whether to insert the time. -/
theorem process_cases (c : Chn) (env : StepEnv) :
    ((processIndexData c env).2 = {} ∧
      ((processIndexData c env).1 = c ∨
        (c.inst.pu8KnlVirAddr = 0 ∧
          (processIndexData c env).1 = { c with inst := { c.inst with status := 3 } }) ∨
        (Ready c.inst ∧ (processIndexData c env).1 = begun c env))) ∨
    (Ready c.inst ∧ nextWp c.inst ≠ c.inst.index_rp ∧ ∃ r, env.acquired = some r ∧
      processIndexData c env = storeFrame (begun c env) r env) ∨
    (Ready c.inst ∧ nextWp c.inst ≠ c.inst.index_rp ∧ env.acquired = none ∧
      processIndexData c env = insertTime (begun c env) env) := by
  -- the checks in the order of the code; each of the first three returns at once
  by_cases hnull : c.inst.pu8KnlVirAddr = 0
  · rw [processIndexData, if_pos hnull]
    exact .inl ⟨rfl, .inr (.inl ⟨hnull, rfl⟩)⟩
  by_cases hid : c.inst.rec_dmxid = invalidDmxid
  · rw [processIndexData, if_neg hnull, if_pos hid]
    exact .inl ⟨rfl, .inl rfl⟩
  by_cases hstatus : c.inst.status = 0
  · rw [processIndexData, if_neg hnull, if_neg hid, if_pos hstatus]
    exact .inl ⟨rfl, .inl rfl⟩
  have hready : Ready c.inst := ⟨hnull, hid, hstatus⟩
  rw [process_ready env hready]
  -- a full ring and an unknown stream end the call behind its beginning
  by_cases hfull : nextWp c.inst = c.inst.index_rp
  · rw [if_pos hfull]
    exact .inl ⟨rfl, .inr (.inr ⟨hready, rfl⟩)⟩
  rw [if_neg hfull]
  by_cases hbutt : (begun c env).inst.video_type = .butt
  · rw [if_pos hbutt]
    exact .inl ⟨rfl, .inr (.inr ⟨hready, rfl⟩)⟩
  rw [if_neg hbutt]
  cases hacq : env.acquired with
  | some r => exact .inr (.inl ⟨hready, hfull, r, rfl, rfl⟩)
  | none => exact .inr (.inr ⟨hready, hfull, rfl, rfl⟩)

/-- A full ring takes nothing from the hardware. -/
theorem process_full {c : Chn} (env : StepEnv) (hfull : nextWp c.inst = c.inst.index_rp) :
    (processIndexData c env).2 = {} := by
  rcases process_cases c env with ⟨hout, -⟩ | ⟨-, hroom, -⟩ | ⟨-, hroom, -⟩
  · exact hout
  · exact absurd hfull hroom
  · exact absurd hfull hroom

/-! ## The history -/

/-- The steps so far with what they returned. -/
abbrev History := List (RingInput × RingOut)

/-- The record of a step. -/
def storedBy : RingInput × RingOut → List DmxRecIndex
  | (_, .processed out) => out.stored.toList
  | _ => []

/-- The records of a read. -/
def takenBy : RingInput × RingOut → List UnfRecIndex
  | (_, .data r) => r.toList
  | (_, .dataEx (some r)) => r.1
  | _ => []

/-- The records stored so far, oldest first. -/
def stored (h : History) : List DmxRecIndex := h.flatMap storedBy

/-- The records read so far, oldest first. -/
def taken (h : History) : List UnfRecIndex := h.flatMap takenBy

@[simp] theorem stored_snoc (h : History) (e : RingInput × RingOut) :
    stored (h ++ [e]) = stored h ++ storedBy e := by
  simp [stored]

@[simp] theorem taken_snoc (h : History) (e : RingInput × RingOut) :
    taken (h ++ [e]) = taken h ++ takenBy e := by
  simp [taken]

/-- The channel holds what has been stored and not read, and the newest record. -/
structure Holds (c : Chn) (h : History) : Prop where
  pointers : Pointers c.inst
  queue : (stored h).map DmxRecIndex.toUnf = taken h ++ (pending c).map DmxRecIndex.toUnf
  newest : ∀ r, (stored h).getLast? = some r → newest c = r
  running : stored h ≠ [] → Ready c.inst ∧ c.inst.status = 2
  mapped : c.inst.pu8KnlVirAddr ≠ 0
  begins : c.inst.status = 0 ∨ c.inst.status = 1 ∨ c.inst.status = 2

/-! ## One step -/

/-- A record that is stored. -/
theorem Holds.put {c c' : Chn} {h : History} (hI : Holds c h)
    (hroom : nextWp c.inst ≠ c.inst.index_rp) {r : DmxRecIndex}
    (hcells : c'.cells = (putRecord c r).cells)
    (hinst : ∃ status, c'.inst = { (putRecord c r).inst with status := status } ∧ status = 2)
    (hready : Ready c.inst) {i : RingInput} {out : StepOut} (hout : out.stored = some r) :
    Holds c' (h ++ [(i, .processed out)]) := by
  obtain ⟨status, hinst, rfl⟩ := hinst
  have hp := hI.pointers
  -- the record stored is now the last that is pending, and the newest
  have hput := putRecord_pending hp hroom r
  have hnew := putRecord_newest hp r
  have hsame : pending c' = pending (putRecord c r) := by
    rw [pending, hcells, hinst]
    rfl
  exact
    { pointers := by
        have hp' := putRecord_pointers hp r
        rw [hinst]
        exact ⟨hp'.two, hp'.rp, hp'.wp⟩
      queue := by
        rw [hsame, hput]
        simp [storedBy, takenBy, hout, hI.queue]
      newest := by
        intro r' hr'
        simp only [stored_snoc, storedBy, hout, Option.toList_some, List.getLast?_append,
          List.getLast?_singleton, Option.some_or, Option.some.injEq] at hr'
        rw [← hr', ← hnew, PvrIdxRing.newest, hcells, hinst]
        rfl
      running := fun _ => by
        rw [hinst]
        exact ⟨⟨hready.1, hready.2.1, Nat.succ_ne_zero 1⟩, rfl⟩
      mapped := by rw [hinst]; exact hI.mapped
      begins := by rw [hinst]; exact .inr (.inr rfl) }

/-- A step that stores nothing. -/
theorem Holds.idle {c c' : Chn} {h : History} (hI : Holds c h) (hcells : c'.cells = c.cells)
    (hinst : c'.inst = c.inst ∨
      (Ready c.inst ∧ ∃ status, c'.inst = { c.inst with status := status } ∧ status = 2))
    {i : RingInput} {out : StepOut} (hout : out.stored = none) :
    Holds c' (h ++ [(i, .processed out)]) := by
  have hp := hI.pointers
  -- the pointers are the same, and the thread runs if it ran before
  have hsame : ∃ status, c'.inst = { c.inst with status := status } ∧
      (status = c.inst.status ∨ Ready c.inst ∧ status = 2) := by
    rcases hinst with heq | ⟨hready, status, heq, hstatus⟩
    · exact ⟨c.inst.status, heq, .inl rfl⟩
    · exact ⟨status, heq, .inr ⟨hready, hstatus⟩⟩
  obtain ⟨status, heq, hstatus⟩ := hsame
  exact
    { pointers := by rw [heq]; exact ⟨hp.two, hp.rp, hp.wp⟩
      queue := by
        have hpend : pending c' = pending c := by rw [pending, hcells, heq]; rfl
        rw [hpend]
        simp [storedBy, takenBy, hout, hI.queue]
      newest := by
        have hnew : PvrIdxRing.newest c' = PvrIdxRing.newest c := by
          rw [PvrIdxRing.newest, hcells, heq]; rfl
        rw [hnew]
        simpa [storedBy, hout] using hI.newest
      running := by
        simp only [stored_snoc, storedBy, hout, Option.toList_none, List.append_nil]
        intro hne
        obtain ⟨hready, htwo⟩ := hI.running hne
        have htwo' : status = 2 := by
          rcases hstatus with hs | ⟨-, hs⟩
          · rw [hs, htwo]
          · exact hs
        rw [heq, htwo']
        exact ⟨⟨hready.1, hready.2.1, Nat.succ_ne_zero 1⟩, rfl⟩
      mapped := by rw [heq]; exact hI.mapped
      begins := by
        rw [heq]
        rcases hstatus with hs | ⟨-, hs⟩
        · rw [hs]; exact hI.begins
        · rw [hs]; exact .inr (.inr rfl) }

/-- After the first step the thread runs. -/
theorem Holds.begun {c : Chn} {h : History} (hI : Holds c h) (env : StepEnv)
    (hready : Ready c.inst) : (begun c env).inst = { c.inst with status := 2 } := by
  obtain ⟨status, hinst, hne0, hne1, htwo, -⟩ := begun_eq c env hready
  have hstatus : status = 2 := by
    rcases hI.begins with h0 | h1 | h2
    · exact absurd h0 hready.2.2
    · have hb : (PvrIdxRing.begun c env).inst.status = 2 := by
        rw [PvrIdxRing.begun, if_pos h1]
        rfl
      rw [hinst] at hb
      exact hb
    · exact htwo h2
  rw [hinst, hstatus]

/-- A record that is put where a running ring stands. -/
theorem putBegun_holds {c : Chn} {h : History} (hI : Holds c h) (env : StepEnv)
    (hready : Ready c.inst) (hroom : nextWp c.inst ≠ c.inst.index_rp) {r : DmxRecIndex} {c' : Chn}
    (hcells : c'.cells = (putRecord (begun c env) r).cells)
    (hinst : c'.inst = (putRecord (begun c env) r).inst) {i : RingInput} {out : StepOut}
    (hout : out.stored = some r) : Holds c' (h ++ [(i, .processed out)]) := by
  obtain ⟨-, -, -, -, -, hsame, -⟩ := begun_eq c env hready
  refine hI.put hroom ?_ ⟨2, ?_, rfl⟩ hready hout
  · rw [hcells]
    show (begun c env).cells.set (begun c env).inst.index_wp _ = _
    rw [hsame, hI.begun env hready]
    rfl
  · rw [hinst]
    show { (begun c env).inst with index_wp := nextWp (begun c env).inst } = _
    rw [hI.begun env hready]
    rfl

/-- A step of the thread. -/
theorem process_holds {c : Chn} {h : History} (hI : Holds c h) (env : StepEnv) :
    Holds (processIndexData c env).1
      (h ++ [(.process env, .processed (processIndexData c env).2)]) := by
  rcases process_cases c env with ⟨hout, hcase⟩ | ⟨hready, hroom, r, -, heq⟩ |
    ⟨hready, hroom, -, heq⟩
  · have hstored : (processIndexData c env).2.stored = none := by rw [hout]
    rcases hcase with heq | ⟨hnull, -⟩ | ⟨hready, heq⟩
    · exact hI.idle (by rw [heq]) (.inl (by rw [heq])) hstored
    · exact absurd hnull hI.mapped
    · obtain ⟨-, -, -, -, -, hcells, -⟩ := begun_eq c env hready
      exact hI.idle (by rw [heq, hcells]) (.inr ⟨hready, 2, by rw [heq, hI.begun env hready], rfl⟩)
        hstored
  · -- the frame is stored
    rw [heq]
    apply putBegun_holds hI env hready hroom <;> rfl
  · obtain ⟨-, -, -, -, -, hcells, -⟩ := begun_eq c env hready
    rw [heq, insertTime]
    simp only
    split
    · -- the time alone is stored
      apply putBegun_holds hI env hready hroom <;> rfl
    · exact hI.idle hcells (.inr ⟨hready, 2, hI.begun env hready, rfl⟩) rfl

/-! ## Reading -/

/-- The records between the read position and the write position, the first of them
    apart. -/
theorem pending_cons {c : Chn} (hp : Pointers c.inst) (hne : c.inst.index_rp ≠ c.inst.index_wp) :
    ∃ n, pendingNum c.inst = n + 1 ∧ pending c = c.cells c.inst.index_rp ::
      c.cells.readRing 0 c.inst.index_num (c.inst.index_rp + 1) n := by
  obtain ⟨n, hn⟩ := Nat.exists_eq_succ_of_ne_zero
    (fun hzero => hne ((pendingNum_eq_zero hp).mp hzero))
  refine ⟨n, hn, ?_⟩
  rw [pending, hn, Memory.readRing_succ, Nat.zero_add, Nat.mod_eq_of_lt hp.rp]

/-- What the loop of `PVR_Read_Data_Ex` copies. -/
theorem copyOut_eq (cells : Memory DmxRecIndex) {num : Nat} (n rp : Nat) (hrp : rp < num) :
    copyOut cells num n rp =
      ((cells.readRing 0 num rp n).map DmxRecIndex.toUnf, (rp + n) % num) := by
  induction n generalizing rp with
  | zero => rw [copyOut, Memory.readRing_zero, List.map_nil, Nat.add_zero, Nat.mod_eq_of_lt hrp]
  | succ n ih =>
    rw [copyOut, ih _ (Nat.mod_lt _ (by omega)), Memory.readRing_succ, Memory.readRing_mod,
      Nat.zero_add, Nat.mod_eq_of_lt hrp, Nat.mod_add_mod]
    simp only [List.map_cons, Prod.mk.injEq, true_and]
    congr 1
    omega

/-- Moving the read position past records that were taken. -/
theorem Holds.take {c : Chn} {h : History} (hI : Holds c h) {n : Nat}
    (hn : n ≤ pendingNum c.inst) {e : RingInput × RingOut} (hstored : storedBy e = [])
    (htaken : takenBy e =
      (c.cells.readRing 0 c.inst.index_num c.inst.index_rp n).map DmxRecIndex.toUnf) :
    Holds { c with inst := { c.inst with index_rp := (c.inst.index_rp + n) % c.inst.index_num } }
      (h ++ [e]) := by
  have hp := hI.pointers
  have hlt := pendingNum_lt hp
  have hp' : Pointers { c.inst with index_rp := (c.inst.index_rp + n) % c.inst.index_num } :=
    ⟨hp.two, Nat.mod_lt _ (by have := hp.two; omega), hp.wp⟩
  -- `n` fewer are pending
  have hnum : pendingNum { c.inst with index_rp := (c.inst.index_rp + n) % c.inst.index_num } =
      pendingNum c.inst - n := by
    refine pendingNum_eq hp' (show _ < c.inst.index_num by omega) ?_
    show c.inst.index_wp = ((c.inst.index_rp + n) % c.inst.index_num + (pendingNum c.inst - n)) %
      c.inst.index_num
    rw [Nat.mod_add_mod, Nat.add_assoc, Nat.add_sub_cancel' hn, ← wp_eq hp]
  -- and those taken were the front of what was pending
  have hsplit : pending c = c.cells.readRing 0 c.inst.index_num c.inst.index_rp n ++
      c.cells.readRing 0 c.inst.index_num ((c.inst.index_rp + n) % c.inst.index_num)
        (pendingNum c.inst - n) := by
    rw [Memory.readRing_mod, ← Memory.readRing_add, Nat.add_sub_cancel' hn]
    rfl
  exact
    { pointers := hp'
      queue := by
        rw [stored_snoc, taken_snoc, hstored, htaken, List.append_nil, hI.queue, hsplit, pending,
          hnum, List.map_append, List.append_assoc]
      newest := by
        rw [stored_snoc, hstored, List.append_nil]
        exact hI.newest
      running := by
        rw [stored_snoc, hstored, List.append_nil]
        exact hI.running
      mapped := hI.mapped
      begins := hI.begins }

/-- A call that returns nothing. -/
theorem Holds.same {c : Chn} {h : History} (hI : Holds c h) {e : RingInput × RingOut}
    (hstored : storedBy e = []) (htaken : takenBy e = []) : Holds c (h ++ [e]) where
  pointers := hI.pointers
  queue := by rw [stored_snoc, taken_snoc, hstored, htaken, List.append_nil, List.append_nil, hI.queue]
  newest := by rw [stored_snoc, hstored, List.append_nil]; exact hI.newest
  running := by rw [stored_snoc, hstored, List.append_nil]; exact hI.running
  mapped := hI.mapped
  begins := hI.begins

theorem readData_holds {c : Chn} {h : History} (hI : Holds c h) :
    Holds (readData c).1 (h ++ [(.readData, .data (readData c).2)]) := by
  have hp := hI.pointers
  unfold readData
  split
  · split
    · exact hI.same rfl rfl
    · rename_i hne
      obtain ⟨n, hn, -⟩ := pending_cons hp hne
      have hrp : (if c.inst.index_rp + 1 = c.inst.index_num then 0 else c.inst.index_rp + 1) =
          (c.inst.index_rp + 1) % c.inst.index_num := by
        have hlt := hp.rp
        split
        · rename_i heq; rw [heq, Nat.mod_self]
        · exact (Nat.mod_eq_of_lt (by omega)).symm
      simp only [hrp]
      refine hI.take (by omega) rfl ?_
      rw [Memory.readRing_succ, Memory.readRing_zero, Nat.zero_add, Nat.mod_eq_of_lt hp.rp]
      rfl
  · exact hI.same rfl rfl

theorem readDataEx_holds {c : Chn} {h : History} (hI : Holds c h) (maxnum : Nat) :
    Holds (readDataEx c maxnum).1
      (h ++ [(.readDataEx maxnum, .dataEx (readDataEx c maxnum).2)]) := by
  have hp := hI.pointers
  unfold readDataEx
  split
  · simp only
    split
    · exact hI.same rfl rfl
    · rw [copyOut_eq _ _ _ hp.rp]
      exact hI.take (Nat.min_le_left _ _) rfl rfl
  · exact hI.same rfl rfl

/-! ## The newest record -/

/-- The condition on a look at the newest record: its time is not earlier than the
    one returned before, and it has a time or a time stamp. -/
def LastInOrder (s : Chn × History) : RingInput → Prop
  | .readLastIndex => ∀ r ∈ (stored s.2).getLast?,
      s.1.last_data_time_ms ≤ r.u32PrivatePara ∧ (r.u32PtsMs ≠ 0 ∨ r.u32PrivatePara ≠ 0)
  | _ => True

instance : ∀ (s : Chn × History) (i : RingInput), Decidable (LastInOrder s i)
  | s, .readLastIndex => inferInstanceAs (Decidable (∀ r ∈ (stored s.2).getLast?, _))
  | _, .process _ => inferInstanceAs (Decidable True)
  | _, .readData => inferInstanceAs (Decidable True)
  | _, .readDataEx _ => inferInstanceAs (Decidable True)

theorem readLast_inst (c : Chn) : (readLastIndex c).1.inst = c.inst := by
  unfold readLastIndex
  split
  · rfl
  · rfl

/-- Once a record is stored, the call finds it. -/
theorem readLast_newest {c : Chn} {h : History} (hI : Holds c h) {r : DmxRecIndex}
    (hlast : (stored h).getLast? = some r) (hle : c.last_data_time_ms ≤ r.u32PrivatePara)
    (hmark : r.u32PtsMs ≠ 0 ∨ r.u32PrivatePara ≠ 0) :
    (readLastIndex c).1.cells = c.cells ∧ (readLastIndex c).2 = some r.toUnf := by
  obtain ⟨hready, hstatus⟩ := hI.running (fun hnil => by rw [hnil] at hlast; cases hlast)
  have hp := hI.pointers
  have htwo := hp.two
  have hwp := hp.wp
  have hreadable : readable c.inst = true := by
    simp [readable, hready.1, hready.2.1, hready.2.2]
  -- the cell in front of the write position, cyclically, as the ring has been used
  have hcell : (if c.inst.index_wp ≠ 0 then c.inst.index_wp - 1
      else if c.inst.index_rp ≠ 0 ∨ c.inst.status = 2 then c.inst.index_num - 1 else 0) =
      (c.inst.index_wp + c.inst.index_num - 1) % c.inst.index_num := by
    rw [if_pos (show c.inst.index_rp ≠ 0 ∨ c.inst.status = 2 from .inr hstatus),
      wrap_eq (by omega)]
    split <;> split <;> omega
  have hr : c.cells ((c.inst.index_wp + c.inst.index_num - 1) % c.inst.index_num) = r :=
    hI.newest r hlast
  rw [readLastIndex, if_pos hreadable]
  simp only [hcell, hr]
  -- its time is not behind the last one given out
  have hkeep : ¬ c.last_data_time_ms > r.toUnf.u32DataTimeMs := Nat.not_lt.mpr hle
  refine ⟨if_neg hkeep, if_pos ⟨.inr (.inr hstatus), ?_⟩⟩
  rintro ⟨hpts, htime⟩
  rcases hmark with hne | hne
  · exact hne hpts
  · exact hne htime

theorem readLast_holds {c : Chn} {h : History} (hI : Holds c h)
    (hc : LastInOrder (c, h) .readLastIndex) :
    Holds (readLastIndex c).1 (h ++ [(.readLastIndex, .last (readLastIndex c).2)]) := by
  have hp := hI.pointers
  have hinst := readLast_inst c
  have hsame : pending (readLastIndex c).1 = pending c ∧
      ∀ r, (stored h).getLast? = some r → newest (readLastIndex c).1 = r := by
    cases hlast : (stored h).getLast? with
    | none =>
      -- nothing is stored, so nothing is pending
      have hnil : stored h = [] := List.getLast?_eq_none_iff.mp hlast
      have hzero : pendingNum c.inst = 0 := by
        have hq := congrArg List.length hI.queue
        simp only [hnil, List.map_nil, List.length_nil, List.length_append, List.length_map,
          pending, Memory.length_readRing] at hq
        omega
      refine ⟨?_, nofun⟩
      rw [pending, pending, hinst, hzero, Memory.readRing_zero, Memory.readRing_zero]
    | some r =>
      obtain ⟨hle, hmark⟩ := hc r hlast
      obtain ⟨hcells, -⟩ := readLast_newest hI hlast hle hmark
      refine ⟨by rw [pending, hcells, hinst]; rfl, fun r' hr' => ?_⟩
      rw [newest, hcells, hinst]
      exact hI.newest r' (hlast.trans hr')
  exact
    { pointers := by rw [hinst]; exact hp
      queue := by
        rw [hsame.1]
        simpa [storedBy, takenBy] using hI.queue
      newest := by simpa [storedBy] using hsame.2
      running := by
        rw [hinst]
        simpa [storedBy] using hI.running
      mapped := by rw [hinst]; exact hI.mapped
      begins := by rw [hinst]; exact hI.begins }

/-! ## Runs -/

/-- What a step promises. -/
structure StepOk (s : Chn × History) (i : RingInput) : Prop where
  /-- what was stored is what was read, followed by what is pending -/
  queue : (stored (machine.traced.step s i).1.2).map DmxRecIndex.toUnf =
    taken (machine.traced.step s i).1.2 ++
      (pending (machine.traced.step s i).1.1).map DmxRecIndex.toUnf
  /-- a full ring accepts nothing and asks the hardware for nothing -/
  full : ∀ env, i = .process env → nextWp s.1.inst = s.1.inst.index_rp →
    (machine.step s.1 i).2 = .processed {}
  /-- the newest record is returned, and nothing is changed -/
  last : i = .readLastIndex → (machine.step s.1 i).1.inst = s.1.inst ∧
    ∀ r, (stored s.2).getLast? = some r →
      (machine.step s.1 i).1.cells = s.1.cells ∧ (machine.step s.1 i).2 = .last (some r.toUnf)

/-- One step while the newest record is in order. -/
theorem step_queue (s : Chn × History) (i : RingInput) (hI : Holds s.1 s.2)
    (hc : LastInOrder s i) :
    StepOk s i ∧ Holds (machine.traced.step s i).1.1 (machine.traced.step s i).1.2 := by
  obtain ⟨c, h⟩ := s
  have hholds : Holds (machine.traced.step (c, h) i).1.1 (machine.traced.step (c, h) i).1.2 := by
    cases i with
    | process env => exact process_holds hI env
    | readData => exact readData_holds hI
    | readDataEx maxnum => exact readDataEx_holds hI maxnum
    | readLastIndex => exact readLast_holds hI hc
  refine ⟨⟨hholds.queue, ?_, ?_⟩, hholds⟩
  · rintro env rfl hfull
    exact congrArg RingOut.processed (process_full env hfull)
  · rintro rfl
    refine ⟨readLast_inst c, fun r hlast => ?_⟩
    obtain ⟨hle, hmark⟩ := hc r hlast
    obtain ⟨hcells, hout⟩ := readLast_newest hI hlast hle hmark
    exact ⟨hcells, congrArg RingOut.last hout⟩

/-- A channel that has just been created has an empty ring. -/
theorem started_holds (buf : MmzBuffer) {size : Nat} (dmxid : Nat) (vdectype : VcodecType)
    (old : Chn) (hnum : 2 ≤ size / PvrShm.sizeofDmxRecIndex) :
    Holds (started buf size dmxid vdectype old) [] := by
  have hinst : (started buf size dmxid vdectype old).inst =
      { PvrShm.newInst buf size with rec_dmxid := dmxid, video_type := vdectype, status := 1 } :=
    if_neg buf.mapped
  have hp : Pointers (started buf size dmxid vdectype old).inst := by
    rw [hinst]
    exact ⟨hnum, Nat.lt_of_lt_of_le Nat.zero_lt_two hnum, Nat.lt_of_lt_of_le Nat.zero_lt_two hnum⟩
  have hzero : pendingNum (started buf size dmxid vdectype old).inst = 0 := by
    rw [pendingNum_eq_zero hp, hinst]
    rfl
  exact
    { pointers := hp
      queue := by rw [pending, hzero]; rfl
      newest := nofun
      running := fun hne => absurd rfl hne
      mapped := by rw [hinst]; exact buf.mapped
      begins := by rw [hinst]; exact .inr (.inl rfl) }

/-- Every order of steps and reads on a new channel in which the newest record is in
    order when it is looked at. -/
theorem ring_delivers (buf : MmzBuffer) {size : Nat} (dmxid : Nat) (vdectype : VcodecType)
    (old : Chn) (hnum : 2 ≤ size / PvrShm.sizeofDmxRecIndex) (inputs : List RingInput)
    (hc : machine.traced.Always LastInOrder (started buf size dmxid vdectype old, []) inputs) :
    machine.traced.Always StepOk (started buf size dmxid vdectype old, []) inputs :=
  (Machine.always_of_invariant (I := fun s => Holds s.1 s.2) step_queue
    (started_holds buf dmxid vdectype old hnum) hc).1

/-- A buffer of a page. -/
def pageBuf : MmzBuffer where
  startPhyAddr := 0x80000000
  startVirAddr := 0xc0000000
  size := 4080
  mapped := by decide

/-- A channel that records MPEG2. -/
def mpegChn : Chn := started pageBuf 4080 0 .mpeg2 { inst := {} }

/-- An I frame a second after the start of the system. -/
def firstFrame : StepEnv where
  acquired := some { enFrameType := .i, u32PtsMs := 40, u32FrameSize := 1000 }
  rec_waddr := 1
  initTime := 900
  ktime := 1000
  stampTime := 1000

/-- A P frame 220 ms later. -/
def lateFrame : StepEnv where
  acquired := some { u64GlobalOffset := 1000, enFrameType := .p, u32PtsMs := 80, u32FrameSize := 500 }
  rec_waddr := 3
  initTime := 1220
  ktime := 1220
  stampTime := 1220

/-- Nothing is found while the hardware goes on writing. -/
def noFrame : StepEnv where
  rec_waddr := 2
  initTime := 1210
  ktime := 1210
  stampTime := 1210

/-- Two frames, looked at and read. -/
theorem ring_delivers_two :
    machine.traced.Always StepOk (mpegChn, [])
      [.process firstFrame, .readLastIndex, .process lateFrame, .readLastIndex, .readData,
        .readDataEx 4] :=
  ring_delivers pageBuf 0 .mpeg2 { inst := {} } (by decide) _ (by decide +kernel)

/-- The time alone is inserted and looked at; the frame behind it has an earlier time,
    and the next look changes it. -/
theorem last_rewrites :
    ¬ machine.traced.Always StepOk (mpegChn, [])
      [.process firstFrame, .process noFrame, .readLastIndex, .process lateFrame,
        .readLastIndex] := by
  rintro ⟨-, -, -, -, hlook, -⟩
  exact absurd hlook.queue (by decide +kernel)

end Tntsat.PvrIdxRing
