import Tntsat.ForStd.Machine

/-!
# Queues as specifications

`QueueRun q es q'` says that the events `es` are what a first-in first-out queue
does on the way from contents `q` to contents `q'`: a push joins the tail, a
refused push changes nothing, and a pop returns the head, or nothing when the
queue is empty.  `QueueRun.conservation` is what makes this a delivery
specification: what was popped, followed by what is still queued, is what was
there followed by what was pushed, in order and each once.

`Machine.queueRun` is the simulation rule: a machine whose steps relate its
states to queue contents and whose outputs are queue events performs a
`QueueRun`.

`boundedQueue size keepLast` holds at most `size` values.  On overflow it drops
the oldest value if `keepLast` is set and refuses the new one otherwise.
`boundedQueue_final_puts` says what the former is for: after any number of puts
it holds the last `size` values (`lastN`).
-/

namespace Tntsat

/-- What an observer of a queue sees. -/
inductive QueueEvent (α : Type*)
  | push (a : α)
  | refuse
  | pop (r : Option α)
deriving DecidableEq

/-- The moves of a first-in first-out queue. -/
inductive QueueStep {α : Type*} : List α → QueueEvent α → List α → Prop
  | push (q : List α) (a : α) : QueueStep q (.push a) (q ++ [a])
  | refuse (q : List α) : QueueStep q .refuse q
  | popNone : QueueStep [] (.pop none) []
  | popSome (a : α) (q : List α) : QueueStep (a :: q) (.pop (some a)) q

/-- Finite runs of the queue. -/
inductive QueueRun {α : Type*} : List α → List (QueueEvent α) → List α → Prop
  | nil (q : List α) : QueueRun q [] q
  | cons {q q' q'' : List α} {e : QueueEvent α} {es : List (QueueEvent α)} :
      QueueStep q e q' → QueueRun q' es q'' → QueueRun q (e :: es) q''

/-- The values pushed by a list of events, oldest first. -/
def pushed {α : Type*} (es : List (QueueEvent α)) : List α :=
  es.filterMap fun
    | .push a => some a
    | _ => none

/-- The values popped by a list of events, oldest first. -/
def popped {α : Type*} (es : List (QueueEvent α)) : List α :=
  es.filterMap fun
    | .pop r => r
    | _ => none

/-- Nothing is lost, duplicated or reordered. -/
theorem QueueRun.conservation {α : Type*} {q q' : List α} {es : List (QueueEvent α)}
    (h : QueueRun q es q') : q ++ pushed es = popped es ++ q' := by
  induction h with
  | nil q => simp [pushed, popped]
  | cons hstep _ ih =>
    cases hstep <;> simp_all [pushed, popped]

/-- Two consecutive runs are one run. -/
theorem QueueRun.append {α : Type*} {q q' q'' : List α} {es fs : List (QueueEvent α)}
    (h : QueueRun q es q') (h' : QueueRun q' fs q'') : QueueRun q (es ++ fs) q'' := by
  induction h with
  | nil q => exact h'
  | cons hstep _ ih => exact .cons hstep (ih h')

/-- A run splits wherever its events are split. -/
theorem QueueRun.split {α : Type*} {q q'' : List α} {es fs : List (QueueEvent α)}
    (h : QueueRun q (es ++ fs) q'') : ∃ q', QueueRun q es q' ∧ QueueRun q' fs q'' := by
  induction es generalizing q with
  | nil => exact ⟨q, .nil q, h⟩
  | cons e es ih =>
    cases h with
    | cons hstep hrest =>
      obtain ⟨q', hes, hfs⟩ := ih hrest
      exact ⟨q', .cons hstep hes, hfs⟩

/-- The simulation rule for queues. -/
theorem Machine.queueRun {σ ι ο α : Type*} {M : Machine σ ι ο} (ev : ο → QueueEvent α)
    {R : σ → List α → Prop} {P : σ → ι → Prop}
    (hstep : ∀ s q i, R s q → P s i →
      ∃ q', QueueStep q (ev (M.step s i).2) q' ∧ R (M.step s i).1 q')
    {s : σ} {q : List α} {is : List ι} (hR : R s q) (hP : M.Always P s is) :
    ∃ q', QueueRun q ((M.outputs s is).map ev) q' ∧ R (M.final s is) q' := by
  induction is generalizing s q with
  | nil => exact ⟨q, .nil q, hR⟩
  | cons i is ih =>
    obtain ⟨hPi, hPis⟩ := hP
    obtain ⟨q', hq', hR'⟩ := hstep s q i hR hPi
    obtain ⟨q'', hq'', hR''⟩ := ih hR' hPis
    exact ⟨q'', .cons hq' hq'', hR''⟩

/-! ## Queues of bounded size -/

section Bounded

variable {α : Type*}

/-- A call on a queue. -/
inductive QueueCall (α : Type*)
  | put (x : α)
  | get
deriving DecidableEq

/-- The last `n` values of a list. -/
def lastN (n : Nat) (xs : List α) : List α := xs.drop (xs.length - n)

/-- The contents after a put. -/
def boundedPut (size : Nat) (keepLast : Bool) (q : List α) (x : α) : List α :=
  if keepLast then lastN size (q ++ [x])
  else if q.length < size then q ++ [x]
  else q

/-- A queue of at most `size` values.  A get returns the oldest one, if any. -/
def boundedQueue (size : Nat) (keepLast : Bool) : Machine (List α) (QueueCall α) (Option α) where
  step q
    | .put x => (boundedPut size keepLast q x, none)
    | .get => (q.tail, q.head?)

theorem lastN_of_length_le {n : Nat} {xs : List α} (h : xs.length ≤ n) : lastN n xs = xs := by
  rw [lastN, Nat.sub_eq_zero_of_le h, List.drop_zero]

/-- The last values are those among the last values so far and one more. -/
theorem lastN_lastN_append (n : Nat) (xs ys : List α) :
    lastN n (lastN n xs ++ ys) = lastN n (xs ++ ys) := by
  simp only [lastN, List.length_append, List.length_drop, List.drop_append, List.drop_drop]
  congr 2 <;> omega

theorem boundedPut_of_lt {size : Nat} {q : List α} (keepLast : Bool) (x : α)
    (h : q.length < size) : boundedPut size keepLast q x = q ++ [x] := by
  cases keepLast with
  | false => simp [boundedPut, h]
  | true => exact lastN_of_length_le (by rw [List.length_append, List.length_singleton]; omega)

/-- A full queue that keeps the last values drops its oldest one. -/
theorem boundedPut_true_of_full {size : Nat} {q : List α} (x : α) (hsize : 0 < size)
    (h : q.length = size) : boundedPut size true q x = q.tail ++ [x] := by
  cases q with
  | nil => simp only [List.length_nil] at h; omega
  | cons y q =>
    simp only [List.length_cons] at h
    simp [boundedPut, lastN, ← h]

/-- A full queue that does not refuses the new one. -/
theorem boundedPut_false_of_full {size : Nat} {q : List α} (x : α) (h : q.length = size) :
    boundedPut size false q x = q := by
  simp [boundedPut, h]

/-- A put never leaves the queue empty. -/
theorem boundedPut_ne_nil {size : Nat} (keepLast : Bool) (q : List α) (x : α) (hsize : 0 < size) :
    boundedPut size keepLast q x ≠ [] := by
  apply List.ne_nil_of_length_pos
  cases keepLast with
  | false =>
    simp only [boundedPut, Bool.false_eq_true, if_false]
    split
    · simp
    · omega
  | true => simp [boundedPut, lastN]; omega

/-- Any number of puts leaves the last `size` values. -/
theorem boundedQueue_final_puts (size : Nat) (q xs : List α) (hq : q.length ≤ size) :
    (boundedQueue size true).final q (xs.map .put) = lastN size (q ++ xs) := by
  induction xs generalizing q with
  | nil => rw [List.append_nil, lastN_of_length_le hq]; rfl
  | cons x xs ih =>
    have hle : (lastN size (q ++ [x])).length ≤ size := by
      rw [lastN, List.length_drop]
      omega
    rw [List.map_cons, Machine.final_cons]
    simp only [boundedQueue, boundedPut, if_true] at ih ⊢
    rw [ih _ hle, lastN_lastN_append, List.append_assoc, List.singleton_append]

end Bounded

end Tntsat
