import Mathlib.Algebra.Group.Nat.Defs
import Mathlib.Data.List.Basic

/-!
# Deterministic machines and their runs

A `Machine` is a step function on states that consumes one input and produces
one output.  Whatever is not under the program's control (the result of a
system call, the choice of the scheduler) is part of the input, so a run is a
fold over a list of inputs and every interleaving is such a list.

`Always P s is` says that `P` holds of each (state, input) pair the run passes
through.  The rules used by client proofs are

* `invariant`: a state predicate that every step meeting `P` preserves holds at
  the end of every run all of whose steps meet `P`;
* `always_of_invariant`: the same, collecting a fact `Q` about every step;
* `always_iff_of_invariant`: two conditions that are the same in each state of an invariant;
* `invariant_outputs`: the same for a relation between the state and everything
  that was output on the way to it.

Conditions on the history of a run are conditions on the states of `traced`, which
keeps the inputs and outputs beside the state.

A run that meets `P` meets it on every prefix (`Always.append`), so a fact about
the final state of all runs is a fact about every state a run reaches.
-/

namespace Tntsat

/-- A deterministic transition system with inputs and outputs. -/
structure Machine (σ ι ο : Type*) where
  /-- One step: the next state and what the step returns. -/
  step : σ → ι → σ × ο

namespace Machine

variable {σ ι ο : Type*} (M : Machine σ ι ο)

/-- Run the machine over a list of inputs, collecting the outputs. -/
def run (s : σ) : List ι → σ × List ο
  | [] => (s, [])
  | i :: is =>
    let r := M.step s i
    let rest := run r.1 is
    (rest.1, r.2 :: rest.2)

/-- The state a run ends in. -/
def final (s : σ) (is : List ι) : σ := (M.run s is).1

/-- The outputs of a run, oldest first. -/
def outputs (s : σ) (is : List ι) : List ο := (M.run s is).2

/-- `P` holds of every state and input the run passes through. -/
def Always (P : σ → ι → Prop) : σ → List ι → Prop
  | _, [] => True
  | s, i :: is => P s i ∧ Always P (M.step s i).1 is

instance decidableAlways (P : σ → ι → Prop) [∀ s i, Decidable (P s i)] :
    ∀ (s : σ) (is : List ι), Decidable (M.Always P s is)
  | _, [] => inferInstanceAs (Decidable True)
  | s, i :: is =>
    have := decidableAlways P (M.step s i).1 is
    inferInstanceAs (Decidable (P s i ∧ M.Always P (M.step s i).1 is))

@[simp] theorem final_nil (s : σ) : M.final s [] = s := rfl

@[simp] theorem final_cons (s : σ) (i : ι) (is : List ι) :
    M.final s (i :: is) = M.final (M.step s i).1 is := rfl

@[simp] theorem outputs_nil (s : σ) : M.outputs s [] = [] := rfl

@[simp] theorem outputs_cons (s : σ) (i : ι) (is : List ι) :
    M.outputs s (i :: is) = (M.step s i).2 :: M.outputs (M.step s i).1 is := rfl

/-- The first step of a run whose outputs are known. -/
theorem of_outputs_cons {s : σ} {i : ι} {is : List ι} {o : ο} {os : List ο}
    (h : M.outputs s (i :: is) = o :: os) : ∃ s', M.step s i = (s', o) ∧ M.outputs s' is = os := by
  rw [outputs_cons] at h
  obtain ⟨ho, hos⟩ := List.cons.inj h
  exact ⟨_, Prod.ext rfl ho, hos⟩

@[simp] theorem always_nil (P : σ → ι → Prop) (s : σ) : M.Always P s [] := trivial

@[simp] theorem always_cons (P : σ → ι → Prop) (s : σ) (i : ι) (is : List ι) :
    M.Always P s (i :: is) ↔ P s i ∧ M.Always P (M.step s i).1 is := Iff.rfl

theorem always_true (s : σ) (is : List ι) : M.Always (fun _ _ => True) s is := by
  induction is generalizing s with
  | nil => trivial
  | cons i is ih => exact ⟨trivial, ih _⟩

theorem final_append (s : σ) (is js : List ι) :
    M.final s (is ++ js) = M.final (M.final s is) js := by
  induction is generalizing s with
  | nil => rfl
  | cons i is ih => simp only [List.cons_append, final_cons]; exact ih _

theorem outputs_append (s : σ) (is js : List ι) :
    M.outputs s (is ++ js) = M.outputs s is ++ M.outputs (M.final s is) js := by
  induction is generalizing s with
  | nil => rfl
  | cons i is ih => simp only [List.cons_append, outputs_cons, final_cons]; rw [ih]

/-- A run meets `P` iff both halves of it do. -/
theorem Always.append {P : σ → ι → Prop} {s : σ} {is js : List ι} :
    M.Always P s (is ++ js) ↔ M.Always P s is ∧ M.Always P (M.final s is) js := by
  induction is generalizing s with
  | nil => simp
  | cons i is ih => simp only [List.cons_append, always_cons, final_cons, ih, and_assoc]

/-- A run meets `P` iff each of its steps does. -/
theorem always_iff_forall_step {P : σ → ι → Prop} {s : σ} {is : List ι} :
    M.Always P s is ↔ ∀ pre i post, is = pre ++ i :: post → P (M.final s pre) i := by
  constructor
  · rintro h pre i post rfl
    exact ((M.always_cons P _ i post).mp ((Always.append M).mp h).2).1
  · intro h
    induction is generalizing s with
    | nil => trivial
    | cons i is ih =>
      exact ⟨h [] i is rfl, ih fun pre j post heq => h (i :: pre) j post (by rw [heq]; rfl)⟩

/-- What holds of every input holds along every run. -/
theorem always_of_forall_mem {P : σ → ι → Prop} {Q : ι → Prop} {s : σ} {is : List ι}
    (hQ : ∀ i ∈ is, Q i) (hP : M.Always P s is) : M.Always (fun s i => Q i ∧ P s i) s is := by
  induction is generalizing s with
  | nil => trivial
  | cons i is ih =>
    obtain ⟨hPi, hPis⟩ := hP
    exact ⟨⟨hQ i List.mem_cons_self, hPi⟩, ih (fun j hj => hQ j (List.mem_cons_of_mem _ hj)) hPis⟩

/-- A run all of whose steps meet two conditions. -/
theorem Always.and {P Q : σ → ι → Prop} {s : σ} {is : List ι} (hP : M.Always P s is)
    (hQ : M.Always Q s is) : M.Always (fun s i => P s i ∧ Q s i) s is := by
  induction is generalizing s with
  | nil => trivial
  | cons i is ih => exact ⟨⟨hP.1, hQ.1⟩, ih hP.2 hQ.2⟩

/-- The machine beside the inputs and outputs so far, oldest first. -/
def traced : Machine (σ × List (ι × ο)) ι ο where
  step s i := (((M.step s.1 i).1, s.2 ++ [(i, (M.step s.1 i).2)]), (M.step s.1 i).2)

@[simp] theorem traced_final (s : σ) (h : List (ι × ο)) (is : List ι) :
    (M.traced.final (s, h) is).1 = M.final s is := by
  induction is generalizing s h with
  | nil => rfl
  | cons i is ih => exact ih _ _

/-- A condition on the states alone is the same beside the history. -/
theorem traced_always {P : σ → ι → Prop} (s : σ) (h : List (ι × ο)) (is : List ι) :
    M.traced.Always (fun s i => P s.1 i) (s, h) is ↔ M.Always P s is := by
  induction is generalizing s h with
  | nil => exact Iff.rfl
  | cons i is ih => exact and_congr_right fun _ => ih _ _

variable {M}

/-- The invariant rule, with a fact `Q` about each step along the way. -/
theorem always_of_invariant {I : σ → Prop} {P Q : σ → ι → Prop}
    (hstep : ∀ s i, I s → P s i → Q s i ∧ I (M.step s i).1) {s : σ} {is : List ι}
    (hI : I s) (hP : M.Always P s is) : M.Always Q s is ∧ I (M.final s is) := by
  induction is generalizing s with
  | nil => exact ⟨trivial, hI⟩
  | cons i is ih =>
    obtain ⟨hPi, hPis⟩ := hP
    obtain ⟨hQ, hI'⟩ := hstep s i hI hPi
    obtain ⟨hQs, hfin⟩ := ih hI' hPis
    exact ⟨⟨hQ, hQs⟩, hfin⟩

/-- Along the runs of an invariant, two conditions that are the same at each of its states are the
    same. -/
theorem always_iff_of_invariant {I : σ → Prop} {P Q : σ → ι → Prop}
    (hiff : ∀ s i, I s → (P s i ↔ Q s i)) (hstep : ∀ s i, I s → Q s i → I (M.step s i).1)
    {s : σ} {is : List ι} (hI : I s) : M.Always P s is ↔ M.Always Q s is := by
  induction is generalizing s with
  | nil => exact Iff.rfl
  | cons i is ih =>
    rw [always_cons, always_cons, hiff s i hI]
    exact and_congr_right fun hQ => ih (hstep s i hI hQ)

/-- The invariant rule: what every step meeting `P` preserves holds at the end
    of every run whose steps all meet `P`. -/
theorem invariant {I : σ → Prop} {P : σ → ι → Prop}
    (hstep : ∀ s i, I s → P s i → I (M.step s i).1) {s : σ} {is : List ι}
    (hI : I s) (hP : M.Always P s is) : I (M.final s is) :=
  (always_of_invariant (Q := fun _ _ => True)
    (fun s i hI hP => ⟨trivial, hstep s i hI hP⟩) hI hP).2

/-- The simulation rule: what relates two machines, is kept by a step of both and lets
    them give the same output, relates them along every run that meets `P`. -/
theorem simulates_of_always {τ : Type*} {N : Machine τ ι ο} {R : σ → τ → Prop}
    {P : σ → ι → Prop}
    (hstep : ∀ s t i, R s t → P s i →
      R (M.step s i).1 (N.step t i).1 ∧ (M.step s i).2 = (N.step t i).2)
    {s : σ} {t : τ} {is : List ι} (h : R s t) (hP : M.Always P s is) :
    M.outputs s is = N.outputs t is ∧ R (M.final s is) (N.final t is) := by
  induction is generalizing s t with
  | nil => exact ⟨rfl, h⟩
  | cons i is ih =>
    obtain ⟨h', hout⟩ := hstep s t i h hP.1
    obtain ⟨houts, hfin⟩ := ih h' hP.2
    rw [outputs_cons, outputs_cons, hout, houts]
    exact ⟨rfl, hfin⟩

/-- The simulation rule with a condition on the inputs alone. -/
theorem simulates {τ : Type*} {N : Machine τ ι ο} {R : σ → τ → Prop} {P : ι → Prop}
    (hstep : ∀ s t i, R s t → P i →
      R (M.step s i).1 (N.step t i).1 ∧ (M.step s i).2 = (N.step t i).2)
    {s : σ} {t : τ} {is : List ι} (h : R s t) (hP : ∀ i ∈ is, P i) :
    M.outputs s is = N.outputs t is ∧ R (M.final s is) (N.final t is) :=
  simulates_of_always (fun s t i h hP => hstep s t i h hP.1) h
    (M.always_of_forall_mem hP (M.always_true s is))

/-- The invariant rule for a relation between the state and the outputs so far. -/
theorem invariant_outputs {I : σ → List ο → Prop} {P : σ → ι → Prop}
    (hstep : ∀ s l i, I s l → P s i → I (M.step s i).1 (l ++ [(M.step s i).2]))
    {s : σ} {l : List ο} {is : List ι} (hI : I s l) (hP : M.Always P s is) :
    I (M.final s is) (l ++ M.outputs s is) := by
  induction is generalizing s l with
  | nil => simpa using hI
  | cons i is ih =>
    obtain ⟨hPi, hPis⟩ := hP
    have hI' := ih (hstep s l i hI hPi) hPis
    rwa [List.append_assoc] at hI'

end Machine

end Tntsat
