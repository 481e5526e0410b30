import Mathlib.Algebra.Group.Nat.Defs
import Mathlib.Data.List.Basic
import Mathlib.Data.List.Nodup
import Mathlib.Data.List.Range

/-!
# The good blocks of a range

`goods bad b e` lists the numbers from `b` up to `e` that are not bad, in order.
Whoever passes over a range and skips what is bad meets the members of this list one
after the other; the rules say what is left of it after a bad run, after a good block,
and behind the first few good blocks.

## Key results

- `goods_skip`: a bad run adds nothing
- `goods_of_good`: a good block comes first
- `goods_append`: a range in two parts
- `drop_goods`: what lies behind the first few good blocks
-/

namespace Tntsat

/-- The numbers from `b` up to `e` that are not bad. -/
def goods (bad : Nat → Bool) (b e : Nat) : List Nat := (List.range' b (e - b)).filter fun i => !bad i

variable {bad bad' : Nat → Bool} {b m e : Nat}

theorem mem_goods {i : Nat} : i ∈ goods bad b e ↔ (b ≤ i ∧ i < e) ∧ bad i = false := by
  simp only [goods, List.mem_filter, List.mem_range'_1, Bool.not_eq_true']
  exact and_congr_left' (by omega)

theorem goods_nil (h : e ≤ b) : goods bad b e = [] := by
  rw [goods, Nat.sub_eq_zero_of_le h]
  rfl

theorem nodup_goods (bad : Nat → Bool) (b e : Nat) : (goods bad b e).Nodup :=
  List.Nodup.filter _ List.nodup_range'

theorem length_goods_le (bad : Nat → Bool) (b e : Nat) : (goods bad b e).length ≤ e - b := by
  have hle := List.length_filter_le (fun i => !bad i) (List.range' b (e - b))
  rwa [List.length_range'] at hle

/-- Only the blocks of the range matter. -/
theorem goods_congr (h : ∀ i, b ≤ i → i < e → bad' i = bad i) : goods bad' b e = goods bad b e := by
  apply List.filter_congr
  intro i hi
  obtain ⟨hb, hlt⟩ := List.mem_range'_1.mp hi
  rw [h i hb (by omega)]

theorem goods_cons (h : b < e) :
    goods bad b e = (if bad b then [] else [b]) ++ goods bad (b + 1) e := by
  rw [goods, goods, show e - b = e - (b + 1) + 1 by omega, List.range'_succ, List.filter_cons]
  cases bad b <;> rfl

theorem goods_of_bad (h : bad b = true) : goods bad b e = goods bad (b + 1) e := by
  by_cases hlt : b < e
  · rw [goods_cons hlt, if_pos h, List.nil_append]
  · rw [goods_nil (by omega), goods_nil (by omega)]

theorem goods_of_good (hlt : b < e) (h : bad b = false) :
    goods bad b e = b :: goods bad (b + 1) e := by
  rw [goods_cons hlt, h]
  rfl

/-- A bad run adds nothing. -/
theorem goods_skip {n : Nat} (h : ∀ i < n, bad (b + i) = true) :
    goods bad b e = goods bad (b + n) e := by
  induction n with
  | zero => rfl
  | succ n ih =>
    rw [ih fun i hi => h i (by omega), goods_of_bad (h n (Nat.lt_succ_self n)), Nat.add_assoc]

/-- A range in two parts. -/
theorem goods_append (hbm : b ≤ m) (hme : m ≤ e) :
    goods bad b e = goods bad b m ++ goods bad m e := by
  rw [goods, goods, goods, ← List.filter_append, show m = b + 1 * (m - b) by omega,
    show b + 1 * (m - b) - b = m - b by omega,
    show e - (b + 1 * (m - b)) = e - b - (m - b) by omega, List.range'_append,
    show m - b + (e - b - (m - b)) = e - b by omega]

/-- A range up to a limit, in two parts. -/
theorem goods_min_append {l : Nat} (hbm : b ≤ m) (hml : m ≤ l) :
    goods bad b (min l e) = goods bad b (min m e) ++ goods bad m (min l e) := by
  rcases Nat.le_total m e with hme | hem
  · rw [Nat.min_eq_left hme, ← goods_append hbm (by omega)]
  · rw [Nat.min_eq_right hem, Nat.min_eq_right (by omega), goods_nil hem, List.append_nil]

theorem goods_snoc (h : b ≤ e) :
    goods bad b (e + 1) = goods bad b e ++ if bad e then [] else [e] := by
  rw [goods_append h (Nat.le_succ e), goods_cons (Nat.lt_succ_self e), goods_nil (Nat.le_refl _),
    List.append_nil]

/-- Behind the first `n` good blocks: `m` is where they have been passed, or there are
    not as many. -/
theorem drop_goods {n : Nat} (hbm : b ≤ m)
    (h : (goods bad b m).length = n ∨ (goods bad b m).length < n ∧ e ≤ m) :
    (goods bad b e).drop n = goods bad m e := by
  rcases Nat.le_total m e with hme | hem
  · rw [goods_append hbm hme]
    rcases h with hn | ⟨hlt, hem⟩
    · rw [← hn, List.drop_left]
    · rw [goods_nil hem, List.append_nil, List.drop_eq_nil_of_le (Nat.le_of_lt hlt)]
  · -- all of the range lies in front of `m`
    rw [goods_nil hem]
    apply List.drop_eq_nil_of_le
    rcases Nat.le_total b e with hbe | heb
    · have happ : goods bad b m = goods bad b e ++ goods bad e m := goods_append hbe hem
      have hlen := congrArg List.length happ
      rw [List.length_append] at hlen
      omega
    · rw [goods_nil heb]
      exact Nat.zero_le _

end Tntsat
