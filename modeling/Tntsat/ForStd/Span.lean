import Mathlib.Algebra.Group.Nat.Defs
import Mathlib.Data.List.Basic

/-!
# Spans of addresses

A `Span` is a range of addresses.  `Contig a ss b` says that the non-empty spans
`ss` follow one another without a gap, the first from `a` on and the last up to
`b`; such spans lie between `a` and `b` and each ends before the next begins
(`Contig.ordered`).
-/

namespace Tntsat

/-- The addresses `start, ..., start + len - 1`. -/
structure Span where
  start : Nat
  len : Nat
deriving DecidableEq

namespace Span

/-- The address behind the last one. -/
def stop (s : Span) : Nat := s.start + s.len

/-- One of the two ends before the other begins. -/
def Disjoint (s t : Span) : Prop := s.stop ≤ t.start ∨ t.stop ≤ s.start

instance (s t : Span) : Decidable (Disjoint s t) := inferInstanceAs (Decidable (_ ∨ _))

end Span

/-- Non-empty spans without a gap between them. -/
inductive Contig : Nat → List Span → Nat → Prop
  | nil (a : Nat) : Contig a [] a
  | cons {s : Span} {ss : List Span} {b : Nat} (hpos : 0 < s.len) (h : Contig s.stop ss b) :
      Contig s.start (s :: ss) b

namespace Contig

variable {a b : Nat} {s : Span} {ss : List Span}

protected theorem le (h : Contig a ss b) : a ≤ b := by
  induction h with
  | nil a => exact Nat.le_refl a
  | cons _ _ ih => exact Nat.le_trans (Nat.le_add_right _ _) ih

/-- Spans without a gap that are not empty cover something. -/
protected theorem lt (h : Contig a ss b) (hne : ss ≠ []) : a < b := by
  cases h with
  | nil => exact absurd rfl hne
  | cons hpos h => exact Nat.lt_of_lt_of_le (Nat.lt_add_of_pos_right hpos) h.le

/-- Every span is not empty and lies between the ends. -/
theorem mem (h : Contig a ss b) (hs : s ∈ ss) : 0 < s.len ∧ a ≤ s.start ∧ s.stop ≤ b := by
  induction h with
  | nil => cases hs
  | cons hpos h ih =>
    cases hs with
    | head => exact ⟨hpos, Nat.le_refl _, h.le⟩
    | tail _ hs =>
      obtain ⟨hlen, hstart, hstop⟩ := ih hs
      exact ⟨hlen, Nat.le_trans (Nat.le_add_right _ _) hstart, hstop⟩

/-- Each span ends before the later ones begin. -/
theorem ordered (h : Contig a ss b) : ss.Pairwise fun s t => s.stop ≤ t.start := by
  induction h with
  | nil => exact .nil
  | cons _ h ih => exact .cons (fun t ht => (h.mem ht).2.1) ih

/-- One more span at the end. -/
theorem concat (h : Contig a ss s.start) (hpos : 0 < s.len) : Contig a (ss ++ [s]) s.stop := by
  generalize hb : s.start = b at h
  induction h with
  | nil => rw [← hb]; exact .cons hpos (.nil _)
  | cons hpos' _ ih => exact .cons hpos' (ih hb)

/-- The spans between growing bounds. -/
theorem of_bounds {f : Nat → Nat} {n : Nat} (hf : ∀ i, i < n → f i < f (i + 1)) :
    Contig (f 0) ((List.range n).map fun i => ⟨f i, f (i + 1) - f i⟩) (f n) := by
  induction n with
  | zero => exact .nil _
  | succ n ih =>
    have hlt := hf n (Nat.lt_succ_self n)
    have hstop : (⟨f n, f (n + 1) - f n⟩ : Span).stop = f (n + 1) := by
      simp only [Span.stop]
      omega
    rw [List.range_succ, List.map_append, ← hstop]
    exact (ih fun i hi => hf i (by omega)).concat (Nat.sub_pos_of_lt hlt)

/-- The first span, taken off. -/
theorem tail (h : Contig a (s :: ss) b) : s.start = a ∧ Contig s.stop ss b := by
  cases h with
  | cons _ h => exact ⟨rfl, h⟩

end Contig

end Tntsat
