import Mathlib.Algebra.Group.Nat.Defs
import Mathlib.Data.List.Basic

/-!
# Searches with one cursor

`walk p xs ks` looks for the keys `ks` in `xs`, one after another and with one cursor: a search
begins at the element that the one before has found, and a search that finds nothing leaves the
cursor at the end.

`walk_eq_filter_iff` says when nothing is missed: the keys that occur come first, and in an order
in which elements with them stand in `xs`.
-/

namespace Tntsat

variable {α κ : Type*} (p : κ → α → Bool)

/-- The keys that are found, each with its element. -/
def walk : List α → List κ → List (κ × α)
  | _, [] => []
  | xs, k :: ks =>
    match xs.dropWhile fun x => !p k x with
    | [] => walk [] ks
    | x :: rest => (k, x) :: walk (x :: rest) ks

/-- Some element has the key. -/
def Occurs (xs : List α) (k : κ) : Prop := ∃ x ∈ xs, p k x = true

instance (xs : List α) (k : κ) : Decidable (Occurs p xs k) :=
  inferInstanceAs (Decidable (∃ x ∈ xs, p k x = true))

/-- The element at a position has the key. -/
def OccursAt (xs : List α) (k : κ) (i : Nat) : Prop := ∃ x, xs[i]? = some x ∧ p k x = true

/-- The keys that occur come first, in an order in which elements with them stand in `xs`, from
    position `first` on. -/
def InOrderFrom (xs : List α) (first : Nat) (ks : List κ) : Prop :=
  ∃ found missing positions, ks = found ++ missing ∧
    List.Forall₂ (OccursAt p xs) found positions ∧
    (first :: positions).Pairwise (· ≤ ·) ∧ ∀ k ∈ missing, ¬ Occurs p xs k

/-- The same for the whole list. -/
def InOrder (xs : List α) (ks : List κ) : Prop := InOrderFrom p xs 0 ks

variable {p}

theorem OccursAt.occurs {xs : List α} {k : κ} {i : Nat} (h : OccursAt p xs k i) :
    Occurs p xs k := by
  obtain ⟨x, hx, hk⟩ := h
  exact ⟨x, List.mem_of_getElem? hx, hk⟩

theorem walk_nil (ks : List κ) : walk p [] ks = [] := by
  induction ks with
  | nil => rfl
  | cons k ks ih => exact ih

/-- A search from a position on finds nothing, or the first element with the key. -/
theorem dropWhile_drop (xs : List α) (k : κ) (first : Nat) :
    ((xs.drop first).dropWhile (fun x => !p k x) = [] ∧
      ∀ i, first ≤ i → ¬ OccursAt p xs k i) ∨
    ∃ i, first ≤ i ∧ OccursAt p xs k i ∧
      (xs.drop first).dropWhile (fun x => !p k x) = xs.drop i ∧
      ∀ j, first ≤ j → OccursAt p xs k j → i ≤ j := by
  induction hn : xs.length - first generalizing first with
  | zero =>
    -- nothing is left to search
    have hlen : xs.length ≤ first := by omega
    refine .inl ⟨by rw [List.drop_eq_nil_of_le hlen]; rfl, fun i hi h => ?_⟩
    obtain ⟨x, hx, -⟩ := h
    rw [List.getElem?_eq_none (by omega)] at hx
    exact absurd hx (by simp)
  | succ n ih =>
    have hlt : first < xs.length := by omega
    rw [List.drop_eq_getElem_cons hlt, List.dropWhile_cons]
    by_cases hk : p k xs[first] = true
    -- the first element is the one
    · refine .inr ⟨first, Nat.le_refl _, ⟨xs[first], List.getElem?_eq_getElem hlt, hk⟩, ?_,
        fun j hj _ => hj⟩
      rw [hk, List.drop_eq_getElem_cons hlt]
      rfl
    · have hnot : ¬ OccursAt p xs k first := by
        rintro ⟨x, hx, hkx⟩
        rw [List.getElem?_eq_getElem hlt] at hx
        exact hk (Option.some.inj hx ▸ hkx)
      -- it is not, so an occurrence lies behind it
      have hnext : ∀ j, first ≤ j → OccursAt p xs k j → first + 1 ≤ j := by
        intro j hj h
        rcases Nat.lt_or_eq_of_le hj with hlt | rfl
        · exact hlt
        · exact absurd h hnot
      rw [if_pos (by simpa using hk)]
      rcases ih (first + 1) (by omega) with ⟨hnil, hnone⟩ | ⟨i, hi, hat, heq, hmin⟩
      · exact .inl ⟨hnil, fun j hj h => hnone j (hnext j hj h) h⟩
      · exact .inr ⟨i, by omega, hat, heq, fun j hj h => hmin j (hnext j hj h) h⟩

/-- The search for the first key, and the others behind it. -/
theorem walk_cons (xs : List α) (first : Nat) (k : κ) (ks : List κ) :
    (walk p (xs.drop first) (k :: ks) = [] ∧ ∀ i, first ≤ i → ¬ OccursAt p xs k i) ∨
    ∃ i x, first ≤ i ∧ OccursAt p xs k i ∧ xs[i]? = some x ∧
      walk p (xs.drop first) (k :: ks) = (k, x) :: walk p (xs.drop i) ks ∧
      ∀ j, first ≤ j → OccursAt p xs k j → i ≤ j := by
  rcases dropWhile_drop xs k first with ⟨hnil, hnone⟩ | ⟨i, hi, hat, heq, hmin⟩
  · refine .inl ⟨?_, hnone⟩
    rw [walk, hnil]
    exact walk_nil ks
  · obtain ⟨x, hx, hk⟩ := hat
    have hlt : i < xs.length := (List.getElem?_eq_some_iff.mp hx).1
    refine .inr ⟨i, x, hi, ⟨x, hx, hk⟩, hx, ?_, hmin⟩
    have hdrop : xs.drop i = x :: xs.drop (i + 1) := by
      rw [List.drop_eq_getElem_cons hlt, (List.getElem?_eq_some_iff.mp hx).2]
    rw [walk, heq, hdrop]

/-- What is found are keys that occur, in their order. -/
theorem walk_sublist (xs : List α) (first : Nat) (ks : List κ) :
    ((walk p (xs.drop first) ks).map Prod.fst).Sublist
      (ks.filter fun k => decide (Occurs p xs k)) := by
  induction ks generalizing first with
  | nil => exact List.Sublist.slnil
  | cons k ks ih =>
    rcases walk_cons (p := p) xs first k ks with ⟨hnil, -⟩ | ⟨i, x, -, hat, -, heq, -⟩
    · rw [hnil]
      exact List.nil_sublist _
    · rw [heq, List.filter_cons_of_pos (by simpa using hat.occurs), List.map_cons]
      exact (ih i).cons_cons k

theorem walk_eq_filter_iff_from (xs : List α) (first : Nat) (ks : List κ) :
    (walk p (xs.drop first) ks).map Prod.fst = ks.filter (fun k => decide (Occurs p xs k)) ↔
      InOrderFrom p xs first ks := by
  induction ks generalizing first with
  | nil =>
    exact iff_of_true rfl ⟨[], [], [], rfl, .nil, List.pairwise_singleton _ _, by simp⟩
  | cons k ks ih =>
    rcases walk_cons (p := p) xs first k ks with ⟨hnil, hnone⟩ | ⟨i, x, hi, hat, -, heq, hmin⟩
    · -- nothing is found, so no key may occur
      rw [hnil, List.map_nil, eq_comm, List.filter_eq_nil_iff]
      constructor
      · intro hall
        exact ⟨[], k :: ks, [], rfl, .nil, List.pairwise_singleton _ _, by simpa using hall⟩
      · rintro ⟨found, missing, positions, hks, hfound, hsorted, hmissing⟩
        cases hfound with
        | nil =>
          rw [List.nil_append] at hks
          simpa [hks] using hmissing
        | cons hat _ =>
          obtain ⟨rfl, -⟩ := List.cons.inj hks
          exact absurd hat (hnone _ ((List.pairwise_cons.mp hsorted).1 _ List.mem_cons_self))
    · rw [heq, List.filter_cons_of_pos (by simpa using hat.occurs), List.map_cons,
        List.cons_inj_right, ih i]
      constructor
      · rintro ⟨found, missing, positions, rfl, hfound, hsorted, hmissing⟩
        refine ⟨k :: found, missing, i :: positions, rfl, .cons hat hfound, ?_, hmissing⟩
        refine List.pairwise_cons.mpr ⟨fun j hj => ?_, hsorted⟩
        rcases List.mem_cons.mp hj with rfl | hj
        · exact hi
        · exact Nat.le_trans hi ((List.pairwise_cons.mp hsorted).1 j hj)
      · rintro ⟨found, missing, positions, hks, hfound, hsorted, hmissing⟩
        cases hfound with
        | nil =>
          rw [List.nil_append] at hks
          exact absurd hat.occurs (hmissing k (hks ▸ List.mem_cons_self))
        | @cons k' j found positions hat' hfound =>
          obtain ⟨rfl, rfl⟩ := List.cons.inj hks
          obtain ⟨hfirst, hsorted⟩ := List.pairwise_cons.mp hsorted
          obtain ⟨hj, hsorted⟩ := List.pairwise_cons.mp hsorted
          -- the search has stopped at `j` or before it
          have hle := hmin j (hfirst j List.mem_cons_self) hat'
          exact ⟨found, missing, positions, rfl, hfound,
            List.pairwise_cons.mpr ⟨fun n hn => Nat.le_trans hle (hj n hn), hsorted⟩, hmissing⟩

/-- Every key that occurs is found iff they come in the order of the list, those that do not occur
    last. -/
theorem walk_eq_filter_iff (xs : List α) (ks : List κ) :
    (walk p xs ks).map Prod.fst = ks.filter (fun k => decide (Occurs p xs k)) ↔
      InOrder p xs ks :=
  walk_eq_filter_iff_from xs 0 ks

end Tntsat
