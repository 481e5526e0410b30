import Tntsat.ForStd.Queue
import Tntsat.ForStd.Ring
import Tntsat.Native.MtosFifo

/-!
# The 16-bit fifo is a bounded queue

The invariant `Holds` reads the queue off the buffer: `m_cnt` values in cyclic
order from `m_tail` on, with `m_head` that many places further.  It also says that
the number of values fits `m_cnt`, which is a `s32`; that is the only thing a step
can break.  A put into a fifo of 2³¹ places or more that holds 2³¹ - 1 values makes
`m_cnt` negative, and every value in it is out of reach.

## Key results

- `mtosFifo_simulates`: runs in which `m_cnt` does not overflow
- `mtosFifo_queue_iff`: exactly the runs that behave as a bounded queue
- `mtosFifo_size_iff`: exactly the sizes with which every run does
-/

namespace Tntsat.MtosFifo

/-- The fifo as a machine over calls. -/
def machine : Machine OsFifo (QueueCall UInt16) (Option UInt16) where
  step f
    | .put data => (mtosFifoPut f data, none)
    | .get => mtosFifoGet f

/-- The stored values, oldest first. -/
def OsFifo.contents (f : OsFifo) : List UInt16 :=
  f.pBuffer.readRing 0 f.mSize f.mTail f.mCnt.toNat

/-- The queue the fifo stands for. -/
def OsFifo.queue (f : OsFifo) : Machine (List UInt16) (QueueCall UInt16) (Option UInt16) :=
  boundedQueue f.mSize (decide (f.mOverlay = mtTrue))

/-! ## One step -/

/-- The fifo holds the values `q`. -/
structure Holds (f : OsFifo) (q : List UInt16) : Prop where
  cnt : f.mCnt = q.length
  length_le : q.length ≤ f.mSize
  length_lt : q.length < 2147483648
  tail_lt : f.mTail < f.mSize
  head : f.mHead = (f.mTail + q.length) % f.mSize
  data : f.pBuffer.readRing 0 f.mSize f.mTail q.length = q

/-- The next place, as the code computes it. -/
theorem u32_succ_mod {i size : Nat} (hi : i < size) (hsize : size < 4294967296) :
    u32 (i + 1) % size = (i + 1) % size := by
  rw [u32_of_lt (by omega)]

theorem Holds.head_lt {f : OsFifo} {q : List UInt16} (h : Holds f q) : f.mHead < f.mSize := by
  rw [h.head]
  exact Nat.mod_lt _ f.size_pos

theorem Holds.contents {f : OsFifo} {q : List UInt16} (h : Holds f q) : f.contents = q := by
  rw [OsFifo.contents, h.cnt, Int.toNat_natCast]
  exact h.data

/-- The test of `mtos_fifo_put` finds out whether there is room. -/
theorem Holds.room_iff {f : OsFifo} {q : List UInt16} (h : Holds f q) :
    u32OfInt f.mCnt < f.mSize ↔ q.length < f.mSize := by
  have hlt := h.length_lt
  rw [h.cnt, u32OfInt_of_nonneg (by omega) (by omega), Int.toNat_natCast]

theorem mtosFifoFlush_holds (f : OsFifo) : Holds (mtosFifoFlush f) [] where
  cnt := rfl
  length_le := Nat.zero_le _
  length_lt := by decide
  tail_lt := f.size_pos
  head := (Nat.zero_mod _).symm
  data := rfl

/-- A put with room for it. -/
theorem mtosFifoPut_holds {f : OsFifo} {q : List UInt16} (data : UInt16) (h : Holds f q)
    (hroom : q.length < f.mSize) (hcnt : q.length + 1 < 2147483648) :
    Holds (mtosFifoPut f data) (q ++ [data]) := by
  have hhead := u32_succ_mod h.head_lt f.size_lt
  have hs32 : s32 (f.mCnt + 1) = q.length + 1 := by
    rw [h.cnt, s32_of_range (by omega) (by omega)]
  unfold mtosFifoPut
  rw [if_pos (h.room_iff.mpr hroom)]
  exact {
    cnt := by simp only [hs32, List.length_append, List.length_singleton]; rfl
    length_le := by simp only [List.length_append, List.length_singleton]; omega
    length_lt := by simp only [List.length_append, List.length_singleton]; omega
    tail_lt := h.tail_lt
    head := by
      show u32 (f.mHead + 1) % f.mSize = (f.mTail + (q ++ [data]).length) % f.mSize
      rw [hhead, h.head, Nat.mod_add_mod, List.length_append, List.length_singleton, Nat.add_assoc]
    data := by
      have hset := @Memory.readRing_set _ f.pBuffer 0 f.mSize f.mTail q.length data hroom
      rw [Nat.zero_add, ← h.head, h.data] at hset
      simp only [List.length_append, List.length_singleton, hset] }

/-- A put into a full fifo that overlays. -/
theorem mtosFifoPut_holds_overlay {f : OsFifo} {q : List UInt16} (data : UInt16) (h : Holds f q)
    (hfull : q.length = f.mSize) (hoverlay : f.mOverlay = mtTrue) :
    Holds (mtosFifoPut f data) (q.tail ++ [data]) := by
  have hpos := f.size_pos
  have hle := h.length_lt
  have hlen : (q.tail ++ [data]).length = q.length := by
    simp only [List.length_append, List.length_tail, List.length_singleton]
    omega
  have hroom : ¬ u32OfInt f.mCnt < f.mSize := by
    rw [h.room_iff]
    omega
  -- a full turn behind the tail is the tail
  have hhead : f.mHead = f.mTail % f.mSize := by
    rw [h.head, hfull, Nat.add_mod_right]
  unfold mtosFifoPut
  rw [if_neg hroom, if_pos hoverlay]
  exact {
    cnt := by rw [hlen]; exact h.cnt
    length_le := by rw [hlen]; exact h.length_le
    length_lt := by rw [hlen]; exact h.length_lt
    tail_lt := Nat.mod_lt _ hpos
    head := by
      show u32 (f.mHead + 1) % f.mSize =
        (u32 (f.mTail + 1) % f.mSize + (q.tail ++ [data]).length) % f.mSize
      rw [u32_succ_mod h.head_lt f.size_lt, u32_succ_mod h.tail_lt f.size_lt, hlen, hfull,
        Nat.add_mod_right, Nat.mod_mod, hhead, Nat.mod_add_mod]
    data := by
      have hset := @Memory.readRing_set_full _ f.pBuffer 0 f.mSize f.mTail data hpos
      have hdata := h.data
      rw [hfull] at hdata
      rw [Nat.zero_add, ← hhead, hdata] at hset
      simp only [u32_succ_mod h.tail_lt f.size_lt, Memory.readRing_mod, hlen, hfull, hset] }

/-- A put into a full fifo that does not overlay. -/
theorem mtosFifoPut_full {f : OsFifo} {q : List UInt16} (data : UInt16) (h : Holds f q)
    (hfull : q.length = f.mSize) (hoverlay : f.mOverlay ≠ mtTrue) : mtosFifoPut f data = f := by
  have hroom : ¬ u32OfInt f.mCnt < f.mSize := by
    rw [h.room_iff]
    omega
  unfold mtosFifoPut
  rw [if_neg hroom, if_neg hoverlay]

theorem mtosFifoGet_nil {f : OsFifo} (h : Holds f []) : mtosFifoGet f = (f, none) := by
  have hcnt := h.cnt
  unfold mtosFifoGet
  rw [if_neg (by simp [hcnt])]

/-- A get takes the oldest value. -/
theorem mtosFifoGet_cons {f : OsFifo} {data : UInt16} {q : List UInt16} (h : Holds f (data :: q)) :
    (mtosFifoGet f).2 = some data ∧ Holds (mtosFifoGet f).1 q := by
  have hcnt : f.mCnt = q.length + 1 := h.cnt
  have hle := h.length_le
  have hlt := h.length_lt
  simp only [List.length_cons] at hle hlt
  have hs32 : s32 (f.mCnt - 1) = q.length := by
    rw [hcnt, Int.add_sub_cancel, s32_of_range (by omega) (by omega)]
  -- the first of the unread cells and the others
  have hring := h.data
  rw [List.length_cons, Memory.readRing_succ, Nat.zero_add, Nat.mod_eq_of_lt h.tail_lt] at hring
  obtain ⟨hfirst, hrest⟩ := List.cons.inj hring
  unfold mtosFifoGet
  rw [if_pos (by omega)]
  refine ⟨congrArg some hfirst, ?_⟩
  exact {
    cnt := hs32
    length_le := Nat.le_of_succ_le hle
    length_lt := Nat.lt_of_succ_lt hlt
    tail_lt := Nat.mod_lt _ f.size_pos
    head := by
      simp only [u32_succ_mod h.tail_lt f.size_lt, h.head, List.length_cons, Nat.mod_add_mod]
      rw [Nat.add_assoc, Nat.add_comm 1]
    data := by
      simp only [u32_succ_mod h.tail_lt f.size_lt, Memory.readRing_mod, hrest] }

/-! ## Runs -/

/-- The step does not count beyond what `m_cnt` can hold. -/
def CountFits (f : OsFifo) : QueueCall UInt16 → Prop
  | .put _ => f.mCnt < f.mSize → f.mCnt < 2147483647
  | .get => True

/-- A state on the way from `pFifo`, and the queue at that point. -/
structure Refines (pFifo f : OsFifo) (q : List UInt16) : Prop extends Holds f q where
  size : f.mSize = pFifo.mSize
  overlay : f.mOverlay = pFifo.mOverlay

theorem step_size (f : OsFifo) (call : QueueCall UInt16) :
    (machine.step f call).1.mSize = f.mSize ∧ (machine.step f call).1.mOverlay = f.mOverlay := by
  cases call with
  | put data =>
    simp only [machine, mtosFifoPut]
    split
    · exact ⟨rfl, rfl⟩
    · split <;> exact ⟨rfl, rfl⟩
  | get =>
    simp only [machine, mtosFifoGet]
    split <;> exact ⟨rfl, rfl⟩

/-- One call does to the fifo what it does to the queue. -/
theorem step_refines {pFifo f : OsFifo} {q : List UInt16} {call : QueueCall UInt16}
    (h : Refines pFifo f q) (hfits : CountFits f call) :
    Refines pFifo (machine.step f call).1 (pFifo.queue.step q call).1 ∧
      (machine.step f call).2 = (pFifo.queue.step q call).2 := by
  obtain ⟨hsize, hoverlay⟩ := step_size f call
  have hholds := h.toHolds
  -- size and mode are never written
  suffices hs : Holds (machine.step f call).1 (pFifo.queue.step q call).1 ∧
      (machine.step f call).2 = (pFifo.queue.step q call).2 from
    ⟨{ toHolds := hs.1, size := hsize.trans h.size, overlay := hoverlay.trans h.overlay }, hs.2⟩
  cases call with
  | put data =>
    refine ⟨?_, rfl⟩
    show Holds (mtosFifoPut f data)
      (boundedPut pFifo.mSize (decide (pFifo.mOverlay = mtTrue)) q data)
    rw [← h.size, ← h.overlay]
    by_cases hroom : q.length < f.mSize
    · rw [boundedPut_of_lt _ data hroom]
      have hlt := hfits (by rw [h.cnt]; exact_mod_cast hroom)
      rw [h.cnt] at hlt
      exact mtosFifoPut_holds data hholds hroom (by omega)
    -- a full fifo drops its oldest entry, or refuses the new one
    · have hfull : q.length = f.mSize := Nat.le_antisymm h.length_le (Nat.le_of_not_lt hroom)
      by_cases hkeep : f.mOverlay = mtTrue
      · rw [decide_eq_true hkeep, boundedPut_true_of_full data f.size_pos hfull]
        exact mtosFifoPut_holds_overlay data hholds hfull hkeep
      · rw [decide_eq_false hkeep, boundedPut_false_of_full data hfull,
          mtosFifoPut_full data hholds hfull hkeep]
        exact hholds
  | get =>
    cases q with
    | nil =>
      simp only [machine, mtosFifoGet_nil hholds]
      exact ⟨hholds, rfl⟩
    | cons data q =>
      obtain ⟨hdata, hrest⟩ := mtosFifoGet_cons hholds
      exact ⟨hrest, hdata⟩

theorem mtosFifoFlush_refines (pFifo : OsFifo) : Refines pFifo (mtosFifoFlush pFifo) [] where
  toHolds := mtosFifoFlush_holds pFifo
  size := rfl
  overlay := rfl

/-- A run in which `m_cnt` does not overflow is a run of the queue. -/
theorem mtosFifo_simulates {pFifo : OsFifo} {calls : List (QueueCall UInt16)}
    (hfits : machine.Always CountFits (mtosFifoFlush pFifo) calls) :
    machine.outputs (mtosFifoFlush pFifo) calls = pFifo.queue.outputs [] calls ∧
      Refines pFifo (machine.final (mtosFifoFlush pFifo) calls) (pFifo.queue.final [] calls) :=
  Machine.simulates_of_always (fun _ _ _ h hfits => step_refines h hfits)
    (mtosFifoFlush_refines pFifo) hfits

/-- The state that a run from the flushed state reaches. -/
def after (pFifo : OsFifo) (calls : List (QueueCall UInt16)) : OsFifo :=
  machine.final (mtosFifoFlush pFifo) calls

/-- What a run from the flushed state is to look like at its end. -/
structure Behaves (pFifo : OsFifo) (calls : List (QueueCall UInt16)) : Prop where
  /-- The gets have returned what the queue returns. -/
  outputs : machine.outputs (mtosFifoFlush pFifo) calls = pFifo.queue.outputs [] calls
  contents : (after pFifo calls).contents = pFifo.queue.final [] calls
  /-- With overlay the last values are kept, of those stored and those put since. -/
  recent : pFifo.mOverlay = mtTrue → ∀ pre data, calls = pre ++ data.map .put →
    (after pFifo calls).contents = lastN pFifo.mSize ((after pFifo pre).contents ++ data)
  /-- Without, a put into the full fifo changes nothing. -/
  full : pFifo.mOverlay ≠ mtTrue → (after pFifo calls).mCnt = pFifo.mSize →
    ∀ data, mtosFifoPut (after pFifo calls) data = after pFifo calls
  cnt_congr : (after pFifo calls).mCnt % pFifo.mSize =
    ((after pFifo calls).mHead - (after pFifo calls).mTail : Int) % pFifo.mSize
  cnt_le : 0 ≤ (after pFifo calls).mCnt ∧ (after pFifo calls).mCnt ≤ pFifo.mSize

theorem Refines.cnt_congr {pFifo f : OsFifo} {q : List UInt16} (h : Refines pFifo f q) :
    f.mCnt % pFifo.mSize = (f.mHead - f.mTail : Int) % pFifo.mSize := by
  rw [h.cnt, h.head, ← h.size]
  push_cast
  rw [Int.emod_sub_emod]
  congr 1
  omega

theorem behaves_of_countFits {pFifo : OsFifo} {calls : List (QueueCall UInt16)}
    (hfits : machine.Always CountFits (mtosFifoFlush pFifo) calls) : Behaves pFifo calls := by
  obtain ⟨houts, hfin⟩ := mtosFifo_simulates hfits
  exact {
    outputs := houts
    contents := hfin.contents
    recent := by
      intro hoverlay pre data hcalls
      subst hcalls
      -- the calls before the last puts keep the condition too
      obtain ⟨-, hpre⟩ := mtosFifo_simulates ((Machine.Always.append machine).mp hfits).1
      have hle : (pFifo.queue.final [] pre).length ≤ pFifo.mSize := by
        rw [← hpre.size]
        exact hpre.length_le
      rw [after, after, hfin.contents, hpre.contents, Machine.final_append]
      simp only [OsFifo.queue, hoverlay, decide_true] at hle ⊢
      exact boundedQueue_final_puts _ _ _ hle
    full := by
      intro hoverlay hcnt data
      have hlen := hfin.cnt
      rw [show (machine.final (mtosFifoFlush pFifo) calls).mCnt = pFifo.mSize from hcnt] at hlen
      apply mtosFifoPut_full data hfin.toHolds
      · rw [hfin.size]
        omega
      · rw [hfin.overlay]
        exact hoverlay
    cnt_congr := hfin.cnt_congr
    cnt_le := by
      have hle := hfin.length_le
      rw [hfin.size] at hle
      simp only [after, hfin.cnt]
      omega }

/-- A put that makes `m_cnt` overflow puts all values out of reach. -/
theorem mtosFifoPut_overflow {f : OsFifo} (data : UInt16) (hroom : f.mCnt < f.mSize)
    (hcnt : 2147483647 ≤ f.mCnt) : (mtosFifoPut f data).contents = [] := by
  have hlt := f.size_lt
  have hu32 : u32OfInt f.mCnt < f.mSize := by
    rw [u32OfInt_of_nonneg (by omega) (by omega)]
    omega
  have hs32 : s32 (f.mCnt + 1) = f.mCnt + 1 - 4294967296 := by
    rw [s32, ← Int.sub_bmod_right]
    exact s32_of_range (by omega) (by omega)
  simp only [OsFifo.contents, mtosFifoPut, if_pos hu32, hs32,
    show (f.mCnt + 1 - 4294967296).toNat = 0 by omega, Memory.readRing_zero]

theorem not_behaves_of_overflow {pFifo : OsFifo} {pre : List (QueueCall UInt16)} {data : UInt16}
    (hover : ¬ CountFits (after pFifo pre) (.put data)) : ¬ Behaves pFifo (pre ++ [.put data]) := by
  intro h
  simp only [CountFits, not_forall, Int.not_lt] at hover
  obtain ⟨hroom, hcnt⟩ := hover
  have hcontents := h.contents
  simp only [after, Machine.final_append, Machine.final_cons, Machine.final_nil] at hcontents
  rw [show (machine.step (machine.final (mtosFifoFlush pFifo) pre) (.put data)).1 =
    mtosFifoPut (after pFifo pre) data from rfl, mtosFifoPut_overflow data hroom hcnt] at hcontents
  exact boundedPut_ne_nil _ _ data pFifo.size_pos hcontents.symm

/-- A run behaves as a bounded queue all along exactly when no put is made into a
    fifo with room that holds 2³¹ - 1 values. -/
theorem mtosFifo_queue_iff (pFifo : OsFifo) (calls : List (QueueCall UInt16)) :
    (∀ pre, pre <+: calls → Behaves pFifo pre) ↔
      machine.Always CountFits (mtosFifoFlush pFifo) calls := by
  constructor
  · intro h
    rw [Machine.always_iff_forall_step]
    intro pre call post hcalls
    cases call with
    | put data =>
      by_contra hover
      refine not_behaves_of_overflow hover (h _ ⟨post, ?_⟩)
      rw [hcalls, List.append_assoc, List.singleton_append]
    | get => trivial
  · intro hfits pre hpre
    obtain ⟨post, hcalls⟩ := hpre
    rw [← hcalls] at hfits
    exact behaves_of_countFits ((Machine.Always.append machine).mp hfits).1

/-- Below 2³¹ places every run does. -/
theorem mtosFifo_queue_of_size {pFifo : OsFifo} (hsize : pFifo.mSize < 2147483648)
    (calls : List (QueueCall UInt16)) : Behaves pFifo calls := by
  have hstep : ∀ (f : OsFifo) (call : QueueCall UInt16), f.mSize = pFifo.mSize → True →
      CountFits f call ∧ (machine.step f call).1.mSize = pFifo.mSize := by
    intro f call hf _
    refine ⟨?_, (step_size f call).1.trans hf⟩
    cases call with
    | put data => simp only [CountFits]; omega
    | get => trivial
  exact behaves_of_countFits (Machine.always_of_invariant hstep
    (show (mtosFifoFlush pFifo).mSize = pFifo.mSize from rfl)
    (machine.always_true (mtosFifoFlush pFifo) calls)).1

/-! ## Filling a large fifo -/

/-- As long as `m_cnt` counts them, `n` puts store `n` values. -/
theorem filling_refines (pFifo : OsFifo) (data : UInt16) {n : Nat} (hn : n < 2147483648)
    (hsize : n ≤ pFifo.mSize) :
    Refines pFifo (after pFifo (List.replicate n (.put data))) (List.replicate n data) := by
  induction n with
  | zero => exact mtosFifoFlush_refines pFifo
  | succ n ih =>
    have hprev := ih (by omega) (by omega)
    have hfits : CountFits (after pFifo (List.replicate n (.put data))) (.put data) := by
      intro _
      rw [hprev.cnt, List.length_replicate]
      omega
    have hstep := (step_refines hprev hfits).1
    have hput : (pFifo.queue.step (List.replicate n data) (.put data)).1 =
        List.replicate n data ++ [data] :=
      boundedPut_of_lt _ data (by rw [List.length_replicate]; omega)
    rw [hput] at hstep
    rw [List.replicate_succ', List.replicate_succ', after, Machine.final_append]
    exact hstep

/-- The 2³¹st put into a fifo of 2³¹ places or more. -/
theorem not_behaves_of_size {pFifo : OsFifo} (data : UInt16) (hsize : 2147483648 ≤ pFifo.mSize) :
    ¬ Behaves pFifo (List.replicate 2147483647 (.put data) ++ [.put data]) := by
  have hfull := filling_refines pFifo data (show 2147483647 < 2147483648 by decide) (by omega)
  have hcnt := hfull.cnt
  have hplaces := hfull.size
  rw [List.length_replicate] at hcnt
  apply not_behaves_of_overflow
  intro hfits
  have hlt := hfits (by omega)
  omega

/-- A size lets every run behave exactly when it is below 2³¹. -/
theorem mtosFifo_size_iff (pFifo : OsFifo) :
    (∀ calls, Behaves pFifo calls) ↔ pFifo.mSize < 2147483648 := by
  constructor
  · intro h
    by_contra hsize
    exact not_behaves_of_size 0 (by omega) (h _)
  · intro hsize calls
    exact mtosFifo_queue_of_size hsize calls

/-- A fifo of 2³¹ places. -/
def largeFifo : OsFifo where
  pBuffer := fun _ => 0
  mHead := 0
  mTail := 0
  mCnt := 0
  mSize := 2147483648
  mOverlay := 0
  size_pos := by decide
  size_lt := by decide

/-- After 2³¹ puts the fifo of 2³¹ places seems to be empty. -/
theorem largeFifo_loses :
    ¬ Behaves largeFifo (List.replicate 2147483647 (.put 7) ++ [.put 7]) :=
  not_behaves_of_size 7 (show 2147483648 ≤ largeFifo.mSize from Nat.le_refl _)

end Tntsat.MtosFifo
