import Mathlib.Algebra.Group.Nat.Defs
import Mathlib.Data.List.Range
import Mathlib.Logic.Function.Basic

/-!
# Tables of slots that hold resources

A table is a function from slot numbers to slots, of which the first `n` count.
`g` tells which resource a slot holds, if any.  The resources of the table are
those of its slots, one for each slot that holds one; changing a slot adds or takes
away at most one of them.

## Key results

- `held_acquire`: a slot that held nothing now holds a resource
- `held_release`: a slot gave its resource back
- `held_keep`: a slot was changed and holds the same
- `held_insert`: where in the order of the slots a new resource stands
-/

namespace Tntsat.Slots

variable {σ β : Type*} (g : σ → Option β)

/-- The resources that the first `n` slots hold. -/
def held (t : Nat → σ) (n : Nat) : List β := (List.range n).filterMap fun i => g (t i)

/-- The resources that the slots other than `i` hold. -/
def heldElse (t : Nat → σ) (n i : Nat) : List β :=
  ((List.range n).erase i).filterMap fun j => g (t j)

variable {g} {t : Nat → σ} {n i : Nat}

theorem mem_held {b : β} : b ∈ held g t n ↔ ∃ i < n, g (t i) = some b := by
  simp [held]

/-- The resources of the table are that of one slot and those of the others. -/
theorem held_split (hi : i < n) : (held g t n).Perm ((g (t i)).toList ++ heldElse g t n i) := by
  have hrange : (List.range n).Perm (i :: (List.range n).erase i) :=
    List.perm_cons_erase (List.mem_range.mpr hi)
  have hsplit := hrange.filterMap fun j => g (t j)
  rw [List.filterMap_cons] at hsplit
  unfold held heldElse
  cases hb : g (t i) with
  | none => simpa [hb] using hsplit
  | some b => simpa [hb] using hsplit

/-- Changing a slot leaves the others alone. -/
theorem heldElse_update (x : σ) : heldElse g (Function.update t i x) n i = heldElse g t n i := by
  unfold heldElse
  apply List.filterMap_congr
  intro j hj
  have hne : j ≠ i := (List.nodup_range.mem_erase_iff.mp hj).1
  rw [Function.update_of_ne hne]

/-- What the table holds after a slot was changed. -/
theorem held_update (hi : i < n) (x : σ) :
    (held g (Function.update t i x) n).Perm ((g x).toList ++ heldElse g t n i) := by
  have hsplit := held_split (g := g) (t := Function.update t i x) hi
  rwa [heldElse_update, Function.update_self] at hsplit

/-- A slot that held nothing takes a resource. -/
theorem held_acquire (hi : i < n) {x : σ} {b : β} (hnone : g (t i) = none) (hx : g x = some b) :
    (held g (Function.update t i x) n).Perm (b :: held g t n) := by
  have hbefore := held_split (g := g) (t := t) hi
  have hafter := held_update (g := g) (t := t) hi x
  rw [hnone] at hbefore
  rw [hx] at hafter
  exact hafter.trans (hbefore.symm.cons b)

/-- A slot gives its resource back. -/
theorem held_release (hi : i < n) {x : σ} {b : β} (hb : g (t i) = some b) (hx : g x = none) :
    (held g t n).Perm (b :: held g (Function.update t i x) n) := by
  have hbefore := held_split (g := g) (t := t) hi
  have hafter := held_update (g := g) (t := t) hi x
  rw [hb] at hbefore
  rw [hx] at hafter
  exact hbefore.trans (hafter.symm.cons b)

/-- A slot is changed and holds what it held. -/
theorem held_keep {x : σ} (hx : g x = g (t i)) : held g (Function.update t i x) n = held g t n := by
  unfold held
  apply List.filterMap_congr
  intro j _
  by_cases hj : j = i
  · subst hj
    rw [Function.update_self, hx]
  · rw [Function.update_of_ne hj]

/-- A new resource stands behind those of the slots before it and in front of those of
    the slots behind it. -/
theorem held_insert (hi : i < n) {x : σ} {b : β} (hnone : g (t i) = none) (hx : g x = some b) :
    ∃ before behind, held g t n = before ++ behind ∧
      held g (Function.update t i x) n = before ++ b :: behind ∧
      ∀ c ∈ behind, ∃ j, i < j ∧ j < n ∧ g (t j) = some c := by
  obtain ⟨k, rfl⟩ : ∃ k, n = i + (k + 1) := ⟨n - i - 1, by omega⟩
  have hsplit : ∀ t' : Nat → σ, held g t' (i + (k + 1)) = held g t' i ++
      ((g (t' i)).toList ++ (List.range k).filterMap fun j => g (t' (i + (j + 1)))) := by
    intro t'
    unfold held
    rw [List.range_add, List.filterMap_append, List.range_succ_eq_map, List.map_cons,
      List.filterMap_cons, List.map_map, List.filterMap_map]
    cases g (t' (i + 0)) <;> rfl
  refine ⟨held g t i, (List.range k).filterMap fun j => g (t (i + (j + 1))), ?_, ?_, ?_⟩
  · rw [hsplit, hnone]
    rfl
  · -- the other slots are as they were
    have hbefore : held g (Function.update t i x) i = held g t i := by
      apply List.filterMap_congr
      intro j hj
      rw [Function.update_of_ne (by have := List.mem_range.mp hj; omega)]
    have hbehind : ((List.range k).filterMap fun j => g (Function.update t i x (i + (j + 1)))) =
        (List.range k).filterMap fun j => g (t (i + (j + 1))) := by
      apply List.filterMap_congr
      intro j _
      rw [Function.update_of_ne (by omega)]
    rw [hsplit, Function.update_self, hx, hbefore, hbehind]
    rfl
  · intro c hc
    obtain ⟨j, hj, hcj⟩ := List.mem_filterMap.mp hc
    exact ⟨i + (j + 1), by omega, by have := List.mem_range.mp hj; omega, hcj⟩

/-- The first slot that satisfies `p` lies in the table and satisfies it. -/
theorem find_spec {p : Nat → Bool} (hf : (List.range n).find? p = some i) : i < n ∧ p i = true :=
  ⟨List.mem_range.mp (List.mem_of_find?_eq_some hf), List.find?_some hf⟩

end Tntsat.Slots
