import Mathlib.Algebra.Group.Nat.Defs
import Mathlib.Data.List.Basic

/-!
# Loops of steps that may stop

`checkedLoop step done n s` runs at most `n` rounds, until a state is `done`. A round that stops with
`none` stops the loop. `loopHeads` are the states in front of its rounds, so that a condition on
single rounds says when the loop runs through (`checkedLoop_isSome_iff`), and an invariant of the
rounds holds at its end (`checkedLoop_invariant`).

`whileLoop step done n s` has to be `done` within its `n` rounds; where it is not, it is `none` as
well. It returns where each of its rounds does and a measure of the state decreases
(`whileLoop_returns`).
-/

namespace Tntsat

variable {σ : Type*} (step : σ → Option σ) (done : σ → Bool)

/-- At most `n` rounds, until a state is `done`. -/
def checkedLoop : Nat → σ → Option σ
  | 0, s => some s
  | n + 1, s => (step s).bind fun s' => if done s' then some s' else checkedLoop n s'

/-- The states in front of the rounds. -/
def loopHeads : Nat → σ → List σ
  | 0, _ => []
  | n + 1, s =>
    s :: match step s with
      | some s' => if done s' then [] else loopHeads n s'
      | none => []

variable {step done} {I : σ → Prop}

/-- An invariant of the rounds holds behind the loop. -/
theorem checkedLoop_invariant (hI : ∀ s s', I s → step s = some s' → I s') {n : Nat} {s s' : σ}
    (hs : I s) (h : checkedLoop step done n s = some s') : I s' := by
  induction n generalizing s with
  | zero =>
    cases h
    exact hs
  | succ n ih =>
    rw [checkedLoop] at h
    cases hstep : step s with
    | none => simp [hstep] at h
    | some next =>
      rw [hstep, Option.bind_some] at h
      split at h
      · cases h
        exact hI s _ hs hstep
      · exact ih (hI s next hs hstep) h

/-- A loop runs through iff each of its rounds does. -/
theorem checkedLoop_isSome_iff {P : σ → Prop} (hP : ∀ s, I s → ((step s).isSome = true ↔ P s))
    (hI : ∀ s s', I s → step s = some s' → I s') {n : Nat} {s : σ} (hs : I s) :
    (checkedLoop step done n s).isSome = true ↔ ∀ x ∈ loopHeads step done n s, P x := by
  induction n generalizing s with
  | zero => simp [checkedLoop, loopHeads]
  | succ n ih =>
    rw [checkedLoop, loopHeads, List.forall_mem_cons, ← hP s hs]
    cases hstep : step s with
    | none => simp
    | some next =>
      rw [Option.bind_some]
      by_cases hdone : done next = true
      · simp [hdone]
      · simp [hdone, ih (hI s next hs hstep)]

/-! ## Loops that have to end -/

variable (step done)

/-- Rounds until a state is `done`, in `n` rounds or less. -/
def whileLoop : Nat → σ → Option σ
  | 0, s => if done s then some s else none
  | n + 1, s => if done s then some s else (step s).bind (whileLoop n)

/-- The states in front of the rounds. -/
def whileHeads : Nat → σ → List σ
  | 0, _ => []
  | n + 1, s =>
    if done s then []
    else
      s :: match step s with
        | some s' => whileHeads n s'
        | none => []

variable {step done}

/-- A loop returns where its rounds keep an invariant and make a measure smaller, as long as they
meet a condition. -/
theorem whileLoop_returns {P : σ → Prop} {m : σ → Nat} (hzero : ∀ s, I s → m s = 0 → done s = true)
    (hstep : ∀ s, I s → done s = false → P s → ∃ s', step s = some s' ∧ I s' ∧ m s' < m s)
    {n : Nat} {s : σ} (hs : I s) (hn : m s ≤ n) (hP : ∀ x ∈ whileHeads step done n s, P x) :
    ∃ s', whileLoop step done n s = some s' ∧ I s' := by
  induction n generalizing s with
  | zero =>
    have hdone := hzero s hs (Nat.le_zero.mp hn)
    exact ⟨s, if_pos hdone, hs⟩
  | succ n ih =>
    rw [whileHeads] at hP
    rw [whileLoop]
    cases hdone : done s with
    | true => exact ⟨s, rfl, hs⟩
    | false =>
      simp only [hdone, Bool.false_eq_true, if_false, List.forall_mem_cons] at hP ⊢
      obtain ⟨s', hs', hI, hlt⟩ := hstep s hs hdone hP.1
      rw [hs'] at hP ⊢
      exact ih hI (by omega) hP.2

end Tntsat
