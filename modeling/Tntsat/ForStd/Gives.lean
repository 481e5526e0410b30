import Mathlib.Algebra.Group.Nat.Defs
import Mathlib.Data.List.Basic

/-!
# Computations that succeed

`Gives o P` says that an optional computation succeeds with a result that meets `P`. The rules
follow the ways in which computations are put together, so that a program that stops at a bad
access is proved to run through, piece by piece.
-/

namespace Tntsat

universe u

variable {α β σ : Type u}

/-- A computation succeeds, and its result meets `P`. -/
def Gives (o : Option α) (P : α → Prop) : Prop := ∃ a, o = some a ∧ P a

namespace Gives

theorem some {a : α} {P : α → Prop} (h : P a) : Gives (Option.some a) P := ⟨a, rfl, h⟩

theorem mono {o : Option α} {P Q : α → Prop} (h : Gives o P) (hPQ : ∀ a, P a → Q a) : Gives o Q := by
  obtain ⟨a, ho, ha⟩ := h
  exact ⟨a, ho, hPQ a ha⟩

/-- One computation behind another. -/
theorem bind {o : Option α} {f : α → Option β} {P : α → Prop} {Q : β → Prop} (h : Gives o P)
    (hf : ∀ a, P a → Gives (f a) Q) : Gives (o >>= f) Q := by
  obtain ⟨a, rfl, ha⟩ := h
  exact hf a ha

/-- A choice. -/
theorem ite {c : Prop} [Decidable c] {o o' : Option α} {P : α → Prop} (h : c → Gives o P)
    (h' : ¬ c → Gives o' P) : Gives (if c then o else o') P := by
  split
  · exact h ‹_›
  · exact h' ‹_›

theorem isSome {o : Option α} {P : α → Prop} (h : Gives o P) : o.isSome = true := by
  obtain ⟨a, rfl, -⟩ := h
  rfl

/-- The result with a default that is not used. -/
theorem getD {o : Option α} {P : α → Prop} (h : Gives o P) (d : α) : P (o.getD d) := by
  obtain ⟨a, rfl, ha⟩ := h
  exact ha

/-- A list of computations. -/
theorem mapM {f : α → Option β} {l : List α} (h : ∀ a ∈ l, Gives (f a) fun _ => True) :
    Gives (l.mapM f) fun _ => True := by
  induction l with
  | nil => exact ⟨[], rfl, trivial⟩
  | cons a l ih =>
    rw [List.mapM_cons]
    refine Gives.bind (h a List.mem_cons_self) fun b _ => ?_
    refine Gives.bind (ih fun x hx => h x (List.mem_cons_of_mem _ hx)) fun bs _ => ?_
    exact ⟨b :: bs, rfl, trivial⟩

/-- A loop whose body keeps an invariant. -/
theorem foldlM {f : σ → α → Option σ} {I : σ → Prop} (hf : ∀ s a, I s → Gives (f s a) I)
    (l : List α) {s : σ} (hs : I s) : Gives (l.foldlM f s) I := by
  induction l generalizing s with
  | nil => exact ⟨s, rfl, hs⟩
  | cons a l ih =>
    rw [List.foldlM_cons]
    exact Gives.bind (hf s a hs) fun s' hs' => ih hs'

end Gives

end Tntsat
