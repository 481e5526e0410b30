import Tntsat.ForStd.Memory
import Mathlib.Algebra.Group.Nat.Defs
import Mathlib.Data.Set.Basic

/-!
# Stores into a memory of unknown contents

A program that fills a memory without looking at it performs a list of stores: it sets cells,
copies cells and maps a function over cells.  Two memories that agree on the cells the program
has filled so far agree on the cells it has filled in the end, as long as it copies from
filled cells only.

## Key results

- `runAll_agree`: agreement on the filled cells is kept and extended
-/

namespace Tntsat

/-- A store into a memory. -/
inductive Store (α : Type*)
  | set (a : Nat) (xs : List α)
  | copy (dst src n : Nat)
  | map (a n : Nat) (f : α → α)

namespace Store

variable {α : Type*}

/-- What a store does. -/
def run (m : Memory α) : Store α → Memory α
  | set a xs => m.write a xs
  | copy dst src n => m.write dst (m.read src n)
  | map a n f => fun i => if a ≤ i ∧ i < a + n then f (m i) else m i

/-- What a list of stores does. -/
def runAll (m : Memory α) : List (Store α) → Memory α
  | [] => m
  | s :: ss => runAll (run m s) ss

/-- The `n` cells from `a` on. -/
def cells (a n : Nat) : Set Nat := {i | a ≤ i ∧ i < a + n}

/-- The cells that are filled after a store. -/
def fill (S : Set Nat) : Store α → Set Nat
  | set a xs => S ∪ cells a xs.length
  | _ => S

/-- The cells that are filled after a list of stores. -/
def fillAll (S : Set Nat) : List (Store α) → Set Nat
  | [] => S
  | s :: ss => fillAll (fill S s) ss

/-- A store copies from filled cells. -/
def Filled (S : Set Nat) : Store α → Prop
  | copy _ src n => cells src n ⊆ S
  | _ => True

/-- Every store copies from cells that are filled by then. -/
def AllFilled (S : Set Nat) : List (Store α) → Prop
  | [] => True
  | s :: ss => Filled S s ∧ AllFilled (fill S s) ss

/-- A store that sets cells. -/
def IsSet : Store α → Prop
  | set _ _ => True
  | _ => False

/-- A store that maps a function over cells. -/
def IsMap : Store α → Prop
  | map _ _ _ => True
  | _ => False

/-- The cells that a store writes to. -/
def written : Store α → Set Nat
  | set a xs => cells a xs.length
  | copy dst _ n => cells dst n
  | map a n _ => cells a n

/-- A store writes to the first `n` cells only. -/
def Within (n : Nat) (s : Store α) : Prop := ∀ i ∈ written s, i < n

/-- Two memories agree on cells. -/
def Agree (S : Set Nat) (m m' : Memory α) : Prop := ∀ i ∈ S, m i = m' i

theorem runAll_append (m : Memory α) (ss ts : List (Store α)) :
    runAll m (ss ++ ts) = runAll (runAll m ss) ts := by
  induction ss generalizing m with
  | nil => rfl
  | cons s ss ih => exact ih (run m s)

theorem fillAll_append (S : Set Nat) (ss ts : List (Store α)) :
    fillAll S (ss ++ ts) = fillAll (fillAll S ss) ts := by
  induction ss generalizing S with
  | nil => rfl
  | cons s ss ih => exact ih (fill S s)

theorem allFilled_append {S : Set Nat} {ss ts : List (Store α)} :
    AllFilled S (ss ++ ts) ↔ AllFilled S ss ∧ AllFilled (fillAll S ss) ts := by
  induction ss generalizing S with
  | nil => simp [AllFilled, fillAll]
  | cons s ss ih => simp only [List.cons_append, AllFilled, fillAll, ih, and_assoc]

theorem subset_fill (S : Set Nat) (s : Store α) : S ⊆ fill S s := by
  cases s with
  | set a xs => exact Set.subset_union_left
  | copy dst src n => exact Set.Subset.rfl
  | map a n f => exact Set.Subset.rfl

/-- Filled cells stay filled. -/
theorem subset_fillAll (S : Set Nat) (ss : List (Store α)) : S ⊆ fillAll S ss := by
  induction ss generalizing S with
  | nil => exact Set.Subset.rfl
  | cons s ss ih => exact (subset_fill S s).trans (ih (fill S s))

theorem cells_lt_iff {a k n : Nat} : (∀ i ∈ cells a k, i < n) ↔ k = 0 ∨ a + k ≤ n := by
  constructor
  · intro h
    rcases Nat.eq_zero_or_pos k with hk | hk
    · exact .inl hk
    · have hlast := h (a + k - 1) ⟨by omega, by omega⟩
      exact .inr (by omega)
  · rintro (hk | hk) i ⟨hlo, hhi⟩ <;> omega

theorem within_set_iff {a n : Nat} {xs : List α} :
    Within n (.set a xs) ↔ xs.length = 0 ∨ a + xs.length ≤ n := cells_lt_iff

theorem within_copy_iff {dst src k n : Nat} :
    Within n (.copy dst src k : Store α) ↔ k = 0 ∨ dst + k ≤ n := cells_lt_iff

/-- Stores within fewer cells. -/
theorem Within.mono {k n : Nat} {s : Store α} (h : Within k s) (hle : k ≤ n) : Within n s :=
  fun i hi => (h i hi).trans_le hle

/-- Stores that set cells copy nothing. -/
theorem allFilled_of_isSet (S : Set Nat) {ss : List (Store α)} (h : ∀ s ∈ ss, IsSet s) :
    AllFilled S ss := by
  induction ss generalizing S with
  | nil => trivial
  | cons s ss ih =>
    obtain ⟨hs, hss⟩ := List.forall_mem_cons.mp h
    cases s with
    | set a xs => exact ⟨trivial, ih _ hss⟩
    | copy dst src n => exact hs.elim
    | map a n f => exact hs.elim

/-- Stores that map functions copy nothing and fill nothing. -/
theorem allFilled_of_isMap (S : Set Nat) {ss : List (Store α)} (h : ∀ s ∈ ss, IsMap s) :
    AllFilled S ss ∧ fillAll S ss = S := by
  induction ss with
  | nil => exact ⟨trivial, rfl⟩
  | cons s ss ih =>
    obtain ⟨hs, hss⟩ := List.forall_mem_cons.mp h
    cases s with
    | set a xs => exact hs.elim
    | copy dst src n => exact hs.elim
    | map a n f => exact ⟨⟨trivial, (ih hss).1⟩, (ih hss).2⟩

/-- Cells that are set hold the same in both memories, and so do all others that did. -/
theorem write_agree {S : Set Nat} {m m' : Memory α} (h : Agree S m m') (a : Nat) (xs : List α) :
    Agree (S ∪ cells a xs.length) (m.write a xs) (m'.write a xs) := by
  intro i hi
  by_cases hin : a ≤ i ∧ i < a + xs.length
  · obtain ⟨k, rfl⟩ := Nat.exists_eq_add_of_le hin.1
    rw [Memory.write_apply_add _ _ _ (by omega), Memory.write_apply_add _ _ _ (by omega)]
  · have hout : i < a ∨ a + xs.length ≤ i := by omega
    rw [Memory.write_apply_of_notMem _ _ hout, Memory.write_apply_of_notMem _ _ hout]
    exact h i (hi.resolve_right hin)

/-- A store that copies from filled cells keeps the agreement. -/
theorem run_agree {S : Set Nat} {m m' : Memory α} (h : Agree S m m') {s : Store α}
    (hs : Filled S s) : Agree (fill S s) (run m s) (run m' s) := by
  cases s with
  | set a xs => exact write_agree h a xs
  | copy dst src n =>
    have hread : m.read src n = m'.read src n :=
      Memory.read_congr fun _ hk => h _ (hs ⟨Nat.le_add_right _ _, Nat.add_lt_add_left hk _⟩)
    intro i hi
    simp only [run, hread]
    exact write_agree h dst _ i (.inl hi)
  | map a n f =>
    intro i hi
    simp only [run]
    rw [h i hi]

/-- Agreement on the filled cells is kept and extended. -/
theorem runAll_agree {S : Set Nat} {m m' : Memory α} (h : Agree S m m') {ss : List (Store α)}
    (hss : AllFilled S ss) : Agree (fillAll S ss) (runAll m ss) (runAll m' ss) := by
  induction ss generalizing S m m' with
  | nil => exact h
  | cons s ss ih => exact ih (run_agree h hss.1) hss.2

/-- Reads of filled cells are equal. -/
theorem Agree.read {S : Set Nat} {m m' : Memory α} (h : Agree S m m') {a n : Nat}
    (hcells : cells a n ⊆ S) : m.read a n = m'.read a n :=
  Memory.read_congr fun _ hk => h _ (hcells ⟨Nat.le_add_right _ _, Nat.add_lt_add_left hk _⟩)

end Store

end Tntsat
