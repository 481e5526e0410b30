import Mathlib.Algebra.Group.Nat.Defs
import Mathlib.Data.List.Perm.Subperm
import Mathlib.Tactic.Common
import Tntsat.Native.MmzZone
import Tntsat.Spec.MmzBlockCorrect

/-!
# Allocations that fail, and the block of an address

The blocks of a zone are part of what the zone has taken from its device, so a device
that hands out free pages keeps the blocks of all zones apart, and the block of an
address is then the first one the lookup meets.  An attempt that finds pages and gets no
descriptor keeps the pages: no block names them, and nothing gives them back.

## Key results

- `step_effect`: what a stretch under the lock can do to the zones
- `clean_iff`: an attempt that fails leaves the zones as they were, unless a zone could
  serve it and `kzalloc` failed
- `runs_iff`: every run from zones without blocks
-/

namespace Tntsat.MmzZone

open MmzBlock (Mmb)

/-! ## Ranges -/

/-- No address is in both ranges. -/
def Apart (r s : Range) : Prop := r.2 = 0 ∨ s.2 = 0 ∨ r.1 + r.2 ≤ s.1 ∨ s.1 + s.2 ≤ r.1

instance (r s : Range) : Decidable (Apart r s) := inferInstanceAs (Decidable (_ ∨ _ ∨ _ ∨ _))

theorem Apart.symm {r s : Range} (h : Apart r s) : Apart s r := by
  unfold Apart at *
  omega

/-- Physical memory: address 0 is no address of a block, and a range ends below
    `2 ^ 64`. -/
def InMemory (r : Range) : Prop := 0 < r.1 ∧ r.1 + r.2 < 2 ^ 64

instance (r : Range) : Decidable (InMemory r) := inferInstanceAs (Decidable (_ ∧ _))

/-- The range of a block. -/
def rangeOf (m : Mmb) : Range := (m.phys_addr, m.length)

/-- The address is one of the block's. -/
def Holds (m : Mmb) (addr : Nat) : Prop := m.phys_addr ≤ addr ∧ addr < m.phys_addr + m.length

theorem Holds.not_apart {m m' : Mmb} {addr : Nat} (h : Holds m addr) (h' : Holds m' addr) :
    ¬ Apart (rangeOf m) (rangeOf m') := by
  simp only [Holds, Apart, rangeOf] at *
  omega

/-! ## What is promised of the zones -/

/-- All blocks, zone by zone. -/
def blocks (zones : List Mmz) : List Mmb := zones.flatMap (·.mmb_list)

theorem mem_blocks {zones : List Mmz} {m : Mmb} :
    m ∈ blocks zones ↔ ∃ z ∈ zones, m ∈ z.mmb_list := by
  simp only [blocks, List.mem_flatMap]

/-- Every list of blocks is sorted by address. -/
def Sorted (zones : List Mmz) : Prop :=
  ∀ z ∈ zones, z.mmb_list.Pairwise fun a b => a.phys_addr ≤ b.phys_addr

/-- No two blocks share an address. -/
def Disjoint (zones : List Mmz) : Prop :=
  (blocks zones).Pairwise fun a b => Apart (rangeOf a) (rangeOf b)

/-- `mtl_mmb_getby_phys_2` returns the block that holds an address, with the offset, and
    no block for any other address. -/
structure Finds (zones : List Mmz) : Prop where
  hit : ∀ m ∈ blocks zones, ∀ addr, Holds m addr →
    mtlMmbGetbyPhys2 zones addr = some (m, addr - m.phys_addr)
  miss : ∀ addr, (∀ m ∈ blocks zones, ¬ Holds m addr) → mtlMmbGetbyPhys2 zones addr = none

/-! ## The lookup -/

theorem getbyPhys2_eq (zones : List Mmz) {addr : Nat} (h : addr ≠ 0) :
    mtlMmbGetbyPhys2 zones addr =
      ((blocks zones).find? (machMmb2 addr)).map fun m => (m, addr - m.phys_addr) := by
  unfold mtlMmbGetbyPhys2 blocks
  rw [if_neg h]
  induction zones with
  | nil => rfl
  | cons z rest ih =>
    rw [List.findSome?_cons, List.flatMap_cons, List.find?_append, ih]
    cases z.mmb_list.find? (machMmb2 addr) <;> rfl

/-- In memory the sum in `MACH_MMB_2` does not wrap. -/
theorem machMmb2_iff {m : Mmb} (h : InMemory (rangeOf m)) (addr : Nat) :
    machMmb2 addr m = true ↔ Holds m addr := by
  have hmod : (m.length + m.phys_addr) % 2 ^ 64 = m.phys_addr + m.length := by
    rw [Nat.add_comm]
    exact Nat.mod_eq_of_lt h.2
  unfold machMmb2 Holds
  rw [hmod, decide_eq_true_iff]

/-- The first block found is the only one there is. -/
theorem find?_of_apart {l : List Mmb} {addr : Nat}
    (hapart : l.Pairwise fun a b => Apart (rangeOf a) (rangeOf b))
    (hmem : ∀ m ∈ l, InMemory (rangeOf m)) {m : Mmb} (hm : m ∈ l) (hold : Holds m addr) :
    l.find? (machMmb2 addr) = some m := by
  induction l with
  | nil => exact absurd hm List.not_mem_nil
  | cons d rest ih =>
    rw [List.pairwise_cons] at hapart
    by_cases hd : Holds d addr
    · rw [List.find?_cons_of_pos ((machMmb2_iff (hmem d List.mem_cons_self) addr).mpr hd)]
      cases List.mem_cons.mp hm with
      | inl heq => rw [heq]
      | inr hrest => exact absurd (hapart.1 m hrest) (hd.not_apart hold)
    · have hne : machMmb2 addr d ≠ true := by
        rwa [Ne, machMmb2_iff (hmem d List.mem_cons_self) addr]
      rw [List.find?_cons_of_neg hne]
      cases List.mem_cons.mp hm with
      | inl heq => exact absurd (heq ▸ hold) hd
      | inr hrest =>
        exact ih hapart.2 (fun m hm => hmem m (List.mem_cons_of_mem _ hm)) hrest

theorem finds_of_disjoint {zones : List Mmz} (hd : Disjoint zones)
    (hmem : ∀ m ∈ blocks zones, InMemory (rangeOf m)) : Finds zones where
  hit m hm addr hold := by
    have hpos : addr ≠ 0 := by
      have hphys : 0 < m.phys_addr := (hmem m hm).1
      have hle := hold.1
      omega
    rw [getbyPhys2_eq zones hpos, find?_of_apart hd hmem hm hold]
    rfl
  miss addr hnone := by
    by_cases hpos : addr = 0
    · simp only [mtlMmbGetbyPhys2, hpos, if_true]
    · have hfind : (blocks zones).find? (machMmb2 addr) = none := by
        rw [List.find?_eq_none]
        intro m hm
        rw [machMmb2_iff (hmem m hm)]
        exact hnone m hm
      rw [getbyPhys2_eq zones hpos, hfind]
      rfl

/-! ## The sorted list -/

theorem doMmbAlloc_perm (mmb : Mmb) (l : List Mmb) : (doMmbAlloc mmb l).Perm (mmb :: l) := by
  induction l with
  | nil => exact List.Perm.refl _
  | cons p rest ih =>
    unfold doMmbAlloc
    split
    · exact List.Perm.refl _
    · exact (ih.cons p).trans (List.Perm.swap mmb p rest)

theorem doMmbAlloc_sorted (mmb : Mmb) {l : List Mmb}
    (h : l.Pairwise fun a b => a.phys_addr ≤ b.phys_addr) :
    (doMmbAlloc mmb l).Pairwise fun a b => a.phys_addr ≤ b.phys_addr := by
  induction l with
  | nil => exact List.pairwise_singleton _ _
  | cons p rest ih =>
    have hp := List.pairwise_cons.mp h
    unfold doMmbAlloc
    split
    · rename_i hlt
      refine List.pairwise_cons.mpr ⟨fun b hb => ?_, h⟩
      cases List.mem_cons.mp hb with
      | inl heq => rw [heq]; exact Nat.le_of_lt hlt
      | inr hrest => exact Nat.le_trans (Nat.le_of_lt hlt) (hp.1 b hrest)
    · rename_i hge
      refine List.pairwise_cons.mpr ⟨fun b hb => ?_, ih hp.2⟩
      cases List.mem_cons.mp ((doMmbAlloc_perm mmb rest).mem_iff.mp hb) with
      | inl heq => rw [heq]; exact Nat.not_lt.mp hge
      | inr hrest => exact hp.1 b hrest

/-! ## What a step does to the zones -/

/-- A range that the kernel offers to a step. -/
def Offered (s : State) : Input → Range → Prop
  | .alloc req k, r => r.2 = sizeOf req ∧ ∃ z ∈ s.zones, pagesFrom k req z = some r.1
  | .again n k, r => ∃ w, s.waiting[n]? = some w ∧ r.2 = sizeOf w.1 ∧
      ∃ z ∈ s.zones, pagesFrom k w.1 z = some r.1
  | .call _ _ _, _ => False

/-- A stretch under the lock changes one zone at most; `P` is what was offered. -/
inductive Effect (P : Range → Prop) : List Mmz → List Mmz → Prop
  | same (zones) : Effect P zones zones
  /-- pages are taken, and no block names them -/
  | lost (l₁ z l₂ r) : Effect P (l₁ ++ z :: l₂) (l₁ ++ { z with taken := r :: z.taken } :: l₂)
  /-- pages are taken for a block -/
  | block (l₁ z l₂ m) (hP : P (rangeOf m)) : Effect P (l₁ ++ z :: l₂)
      (l₁ ++ { z with
        taken := rangeOf m :: z.taken, mmb_list := doMmbAlloc m z.mmb_list } :: l₂)
  /-- a call on a block that stays -/
  | call (l₁ z l₂ j m m') (hj : z.mmb_list[j]? = some m) (hr : rangeOf m' = rangeOf m) :
      Effect P (l₁ ++ z :: l₂) (l₁ ++ { z with mmb_list := z.mmb_list.set j m' } :: l₂)
  /-- a block that is given back -/
  | back (l₁ z l₂ j m) (hj : z.mmb_list[j]? = some m) : Effect P (l₁ ++ z :: l₂)
      (l₁ ++ { z with
        mmb_list := z.mmb_list.eraseIdx j, taken := z.taken.erase (rangeOf m) } :: l₂)

theorem Effect.mono {P Q : Range → Prop} {zones zones' : List Mmz} (h : Effect P zones zones')
    (hPQ : ∀ r, P r → Q r) : Effect Q zones zones' := by
  cases h with
  | same => exact .same _
  | lost l₁ z l₂ r => exact .lost l₁ z l₂ r
  | block l₁ z l₂ m hP => exact .block l₁ z l₂ m (hPQ _ hP)
  | call l₁ z l₂ j m m' hj hr => exact .call l₁ z l₂ j m m' hj hr
  | back l₁ z l₂ j m hj => exact .back l₁ z l₂ j m hj

/-! ## The invariants -/

/-- A zone that is sorted and names only what it has taken. -/
structure Kept (z : Mmz) : Prop where
  sorted : z.mmb_list.Pairwise fun a b => a.phys_addr ≤ b.phys_addr
  named : (z.mmb_list.map rangeOf).Subperm z.taken

/-- The blocks are apart, and in memory. -/
structure Settled (zones : List Mmz) : Prop where
  disjoint : Disjoint zones
  inMemory : ∀ m ∈ blocks zones, InMemory (rangeOf m)

variable {P : Range → Prop} {zones zones' : List Mmz}

/-- A zone in the middle of a list that keeps every other. -/
theorem forall_mem_middle {Q : Mmz → Prop} {l₁ l₂ : List Mmz} {z z' : Mmz}
    (h : ∀ y ∈ l₁ ++ z :: l₂, Q y) (hz : Q z → Q z') : ∀ y ∈ l₁ ++ z' :: l₂, Q y := by
  simp only [List.mem_append, List.mem_cons] at h ⊢
  intro y hy
  cases hy with
  | inl hl => exact h y (.inl hl)
  | inr hr =>
    cases hr with
    | inl heq => exact heq ▸ hz (h z (.inr (.inl rfl)))
    | inr hr => exact h y (.inr (.inr hr))

theorem set_map_rangeOf {l : List Mmb} {j : Nat} {m m' : Mmb} (hj : l[j]? = some m)
    (hr : rangeOf m' = rangeOf m) : (l.set j m').map rangeOf = l.map rangeOf := by
  obtain ⟨hlt, rfl⟩ := List.getElem?_eq_some_iff.mp hj
  rw [List.map_set, hr]
  apply List.ext_getElem?
  intro i
  rw [List.getElem?_set, List.length_map, List.getElem?_map]
  split
  · rename_i heq
    rw [← heq, List.getElem?_eq_getElem hlt, Option.map_some]
  · rfl

theorem cons_eraseIdx_perm {l : List Mmb} {j : Nat} {m : Mmb} (hj : l[j]? = some m) :
    (m :: l.eraseIdx j).Perm l := by
  obtain ⟨hlt, rfl⟩ := List.getElem?_eq_some_iff.mp hj
  exact List.getElem_cons_eraseIdx_perm hlt

/-- Whatever the kernel answers, the lists stay sorted and name what was taken. -/
theorem Effect.kept (h : Effect P zones zones') (hk : ∀ z ∈ zones, Kept z) :
    ∀ z ∈ zones', Kept z := by
  cases h with
  | same => exact hk
  | lost l₁ z l₂ r =>
    exact forall_mem_middle hk fun hz =>
      ⟨hz.sorted, hz.named.trans (List.sublist_cons_self r _).subperm⟩
  | block l₁ z l₂ m _ =>
    refine forall_mem_middle hk fun hz => ⟨doMmbAlloc_sorted m hz.sorted, ?_⟩
    have hperm := (doMmbAlloc_perm m z.mmb_list).map rangeOf
    exact hperm.subperm_right.mpr ((List.subperm_cons _).mpr hz.named)
  -- a call leaves the range of its block as it is
  | call l₁ z l₂ j m m' hj hr =>
    refine forall_mem_middle hk fun hz => ⟨?_, ?_⟩
    · have hphys : ∀ l : List Mmb, (l.Pairwise fun a b => a.phys_addr ≤ b.phys_addr) ↔
          (l.map rangeOf).Pairwise fun a b => a.1 ≤ b.1 := fun l => by
        rw [List.pairwise_map]; rfl
      rw [hphys, set_map_rangeOf hj hr, ← hphys]
      exact hz.sorted
    · show ((z.mmb_list.set j m').map rangeOf).Subperm z.taken
      rw [set_map_rangeOf hj hr]
      exact hz.named
  | back l₁ z l₂ j m hj =>
    refine forall_mem_middle hk fun hz => ⟨hz.sorted.sublist (List.eraseIdx_sublist _ _), ?_⟩
    have hperm := (cons_eraseIdx_perm hj).map rangeOf
    have hsub := (hperm.subperm_right.mpr hz.named).erase (rangeOf m)
    rwa [List.map_cons, List.erase_cons_head] at hsub

/-- A range of free pages. -/
def FreeRange (zones : List Mmz) (r : Range) : Prop :=
  InMemory r ∧ ∀ z ∈ zones, ∀ t ∈ z.taken, Apart r t

/-- A block of a zone lies in what has been taken. -/
theorem apart_of_free (hk : ∀ z ∈ zones, Kept z) {r : Range} (hfree : FreeRange zones r)
    {m : Mmb} (hm : m ∈ blocks zones) : Apart r (rangeOf m) := by
  obtain ⟨z, hz, hmz⟩ := mem_blocks.mp hm
  exact hfree.2 z hz _ ((hk z hz).named.subset (List.mem_map_of_mem hmz))

/-- When what is offered is free, the blocks stay apart. -/
theorem Effect.settled (h : Effect P zones zones') (hk : ∀ z ∈ zones, Kept z)
    (hfree : ∀ r, P r → FreeRange zones r) (hs : Settled zones) : Settled zones' := by
  cases h with
  | same => exact hs
  | lost l₁ z l₂ r => exact ⟨by simpa [Disjoint, blocks] using hs.disjoint,
      by simpa [blocks] using hs.inMemory⟩
  | block l₁ z l₂ m hP =>
    -- up to their order, the blocks are those before and the new one
    have hperm : (blocks (l₁ ++ { z with
        taken := rangeOf m :: z.taken, mmb_list := doMmbAlloc m z.mmb_list } :: l₂)).Perm
        (m :: blocks (l₁ ++ z :: l₂)) := by
      simp only [blocks, List.flatMap_append, List.flatMap_cons]
      have hmid := (doMmbAlloc_perm m z.mmb_list).append_right (l₂.flatMap (·.mmb_list))
      exact (hmid.append_left _).trans List.perm_middle
    constructor
    · rw [Disjoint, hperm.pairwise_iff fun {_ _} => Apart.symm, List.pairwise_cons]
      exact ⟨fun m' hm' => apart_of_free hk (hfree _ hP) hm', hs.disjoint⟩
    · intro m' hm'
      cases List.mem_cons.mp (hperm.mem_iff.mp hm') with
      | inl heq => rw [heq]; exact (hfree _ hP).1
      | inr hold => exact hs.inMemory m' hold
  | call l₁ z l₂ j m m' hj hr =>
    have hmap : (blocks (l₁ ++ { z with mmb_list := z.mmb_list.set j m' } :: l₂)).map rangeOf =
        (blocks (l₁ ++ z :: l₂)).map rangeOf := by
      simp only [blocks, List.flatMap_append, List.flatMap_cons, List.map_append,
        set_map_rangeOf hj hr]
    constructor
    · have hd := hs.disjoint
      rw [Disjoint, ← List.pairwise_map (R := Apart)] at hd ⊢
      rwa [hmap]
    · have hin := hs.inMemory
      rw [← List.forall_mem_map] at hin ⊢
      rwa [hmap]
  | back l₁ z l₂ j m hj =>
    -- a block that is given back leaves the others apart
    have hsub : (blocks (l₁ ++ { z with
        mmb_list := z.mmb_list.eraseIdx j, taken := z.taken.erase (rangeOf m) } :: l₂)).Sublist
        (blocks (l₁ ++ z :: l₂)) := by
      simp only [blocks, List.flatMap_append, List.flatMap_cons]
      exact (List.Sublist.refl _).append
        ((List.eraseIdx_sublist _ _).append (List.Sublist.refl _))
    exact ⟨hs.disjoint.sublist hsub, fun m' hm' => hs.inMemory m' (hsub.subset hm')⟩

/-! ## One attempt -/

section

variable (cfg : Config) (k : Kernel) (req : Request)

/-- The zone at place `i` can serve the request: it is asked for, and its device has the
    pages. -/
def Serves (cfg : Config) (k : Kernel) (req : Request) (i : Nat) (z : Mmz) : Prop :=
  eachMmz cfg req.gfp req.mmz_name z = true ∧
    (req.user_mmz = none ∨ req.user_mmz = some i) ∧ pagesFrom k req z ≠ none

/-- Some zone can serve the request. -/
def CanServe (cfg : Config) (zones : List Mmz) (req : Request) (k : Kernel) : Prop :=
  req.size ≠ 0 ∧ ∃ i z, zones[i]? = some z ∧ Serves cfg k req i z

/-- The loop from place `n` on finds a zone that serves the request, or there is none. -/
def Searched (cfg : Config) (k : Kernel) (req : Request) (n : Nat) (zones : List Mmz) : Prop :=
  (findPages cfg k req n zones = none ∧
    ∀ i z, zones[i]? = some z → ¬ Serves cfg k req (n + i) z) ∨
  ∃ l₁ z l₂ start, zones = l₁ ++ z :: l₂ ∧ Serves cfg k req (n + l₁.length) z ∧
    pagesFrom k req z = some start ∧ findPages cfg k req n zones = some (n + l₁.length, start)

/-- A zone that is passed over leaves the question to the rest. -/
theorem Searched.skip {cfg : Config} {k : Kernel} {req : Request} {n : Nat} {z : Mmz} {rest : List Mmz}
    (h : Searched cfg k req (n + 1) rest) (hno : ¬ Serves cfg k req n z)
    (heq : findPages cfg k req n (z :: rest) = findPages cfg k req (n + 1) rest) :
    Searched cfg k req n (z :: rest) := by
  unfold Searched
  rw [heq]
  cases h with
  | inl hnone =>
    refine .inl ⟨hnone.1, fun i z' hi => ?_⟩
    cases i with
    | zero => cases hi; exact hno
    | succ i =>
      have hi' := hnone.2 i z' hi
      rwa [Nat.add_assoc, Nat.add_comm 1 i] at hi'
  | inr hfound =>
    obtain ⟨l₁, z', l₂, start, rfl, hs, hp, hf⟩ := hfound
    have hlen : n + 1 + l₁.length = n + (z :: l₁).length := by
      rw [List.length_cons]
      omega
    rw [hlen] at hs hf
    exact .inr ⟨z :: l₁, z', l₂, start, rfl, hs, hp, hf⟩

/-- The loop finds the first zone that serves the request. -/
theorem findPages_spec (n : Nat) (zones : List Mmz) : Searched cfg k req n zones := by
  induction zones generalizing n with
  | nil => exact .inl ⟨rfl, fun i z h => by simp at h⟩
  | cons z rest ih =>
    by_cases heach : eachMmz cfg req.gfp req.mmz_name z = true
    · have heach' : ¬ eachMmz cfg req.gfp req.mmz_name z = false := by simp [heach]
      by_cases huser : req.user_mmz = none ∨ req.user_mmz = some n
      · have huser' : ¬ (req.user_mmz ≠ none ∧ req.user_mmz ≠ some n) := by
          rintro ⟨hnone, hn⟩
          exact huser.elim hnone hn
        cases hpages : pagesFrom k req z with
        | none =>
          apply (ih (n + 1)).skip (fun hs => hs.2.2 hpages)
          rw [findPages, if_neg heach', if_neg huser', hpages]
        | some start =>
          refine .inr ⟨[], z, rest, start, rfl, ⟨heach, huser, by simp [hpages]⟩, hpages, ?_⟩
          rw [findPages, if_neg heach', if_neg huser', hpages]
          rfl
      · apply (ih (n + 1)).skip (fun hs => huser hs.2.1)
        rw [findPages, if_neg heach', if_pos (not_or.mp huser)]
    · apply (ih (n + 1)).skip (fun hs => heach hs.1)
      rw [findPages, if_pos (by simpa using heach)]

/-- A change of the zone behind a list of others. -/
theorem modify_middle (f : Mmz → Mmz) (l₁ l₂ : List Mmz) (z : Mmz) :
    (l₁ ++ z :: l₂).modify l₁.length f = l₁ ++ f z :: l₂ := by
  induction l₁ with
  | nil => rfl
  | cons y l₁ ih => rw [List.cons_append, List.length_cons, List.modify_succ_cons, ih]; rfl

/-- What `__mmb_alloc` does to a zone that has the pages. -/
theorem mmbAlloc_cases (zones : List Mmz) :
    (¬ CanServe cfg zones req k ∧ mmbAlloc cfg zones req k = (zones, none)) ∨
    (CanServe cfg zones req k ∧ ∃ l₁ z l₂ start, zones = l₁ ++ z :: l₂ ∧
      pagesFrom k req z = some start ∧
      ((k.kzalloc = false ∧ mmbAlloc cfg zones req k =
          (l₁ ++ { z with taken := (start, sizeOf req) :: z.taken } :: l₂, none)) ∨
        (k.kzalloc = true ∧ ∃ m, rangeOf m = (start, sizeOf req) ∧
          mmbAlloc cfg zones req k = (l₁ ++ { z with
            taken := rangeOf m :: z.taken, mmb_list := doMmbAlloc m z.mmb_list } :: l₂,
            some m)))) := by
  by_cases hsize : req.size = 0
  · refine .inl ⟨fun hs => hs.1 hsize, ?_⟩
    rw [mmbAlloc, if_pos hsize]
  -- the first zone that can serve, if there is one
  · cases findPages_spec cfg k req 0 zones with
    | inl hnone =>
      refine .inl ⟨?_, ?_⟩
      · rintro ⟨_, i, z, hz, hs⟩
        exact hnone.2 i z hz (by rwa [Nat.zero_add])
      · rw [mmbAlloc, if_neg hsize, hnone.1]
    | inr hfound =>
      obtain ⟨l₁, z, l₂, start, rfl, hs, hp, hf⟩ := hfound
      rw [Nat.zero_add] at hs hf
      refine .inr ⟨⟨hsize, l₁.length, z, by simp, hs⟩, l₁, z, l₂, start, rfl, hp, ?_⟩
      cases hk : k.kzalloc with
      | false =>
        refine .inl ⟨rfl, ?_⟩
        rw [mmbAlloc, if_neg hsize, hf]
        simp [hk, modify_middle]
      | true =>
        refine .inr ⟨rfl, { phys_addr := start, length := sizeOf req, kphy_ref := 1 }, rfl, ?_⟩
        rw [mmbAlloc, if_neg hsize, hf]
        simp [hk, modify_middle, rangeOf]

variable (s : State) (n : Nat)

/-- An attempt gives the zones that `__mmb_alloc` leaves. -/
theorem attempt_zones : (attempt cfg s req n k).1.zones = (mmbAlloc cfg s.zones req k).1 := by
  unfold attempt
  split
  · rename_i heq
    rw [heq]
  · rename_i heq
    rw [heq]
    split <;> rfl

theorem attempt_null :
    (attempt cfg s req n k).2 = .null ↔ (mmbAlloc cfg s.zones req k).2 = none := by
  unfold attempt
  split
  · rename_i heq
    simp [heq]
  · rename_i heq
    rw [heq]
    split <;> simp

theorem attempt_effect : Effect
    (fun r => r.2 = sizeOf req ∧ ∃ z ∈ s.zones, pagesFrom k req z = some r.1)
    s.zones (attempt cfg s req n k).1.zones := by
  rw [attempt_zones]
  cases mmbAlloc_cases cfg k req s.zones with
  | inl hnone => rw [hnone.2]; exact .same _
  | inr hserve =>
    obtain ⟨_, l₁, z, l₂, start, hzones, hp, hres⟩ := hserve
    cases hres with
    | inl hlost => rw [hlost.2, hzones]; exact .lost l₁ z l₂ _
    | inr hblock =>
      obtain ⟨_, m, hr, heq⟩ := hblock
      rw [heq, hzones]
      apply Effect.block l₁ z l₂ m
      rw [hr]
      exact ⟨rfl, z, List.mem_append_right _ List.mem_cons_self, hp⟩

/-- An attempt that fails leaves the zones alone, unless pages were there and no
    descriptor. -/
theorem attempt_clean_iff :
    ((attempt cfg s req n k).2 = .null → (attempt cfg s req n k).1.zones = s.zones) ↔
      (CanServe cfg s.zones req k → k.kzalloc = true) := by
  rw [attempt_zones, attempt_null]
  cases mmbAlloc_cases cfg k req s.zones with
  | inl hnone => exact ⟨fun _ hs => absurd hs hnone.1, fun _ _ => by rw [hnone.2]⟩
  | inr hserve =>
    obtain ⟨hs, l₁, z, l₂, start, hzones, hp, hres⟩ := hserve
    cases hres with
    | inl hlost =>
      rw [hlost.1, hlost.2, hzones]
      refine ⟨fun h => ?_, fun h => absurd (h (hzones ▸ hs)) Bool.false_ne_true⟩
      -- the pages that were taken are one range more than before
      have heq := congrArg Mmz.taken (List.cons.inj (List.append_cancel_left (h rfl))).1
      exact absurd (congrArg List.length heq) (by simp)
    | inr hblock =>
      obtain ⟨hk, m, _, heq⟩ := hblock
      rw [heq]
      exact ⟨fun _ _ => hk, fun _ h => nomatch h⟩

end

/-! ## Every step -/

/-- Calls on a block leave its range alone. -/
theorem step_rangeOf (m : Mmb) (c : MmzBlock.Call) :
    rangeOf (MmzBlock.machine.step m c).1 = rangeOf m := by
  have hfree : ∀ m : Mmb, rangeOf (MmzBlock.mmbFree m) = rangeOf m := fun m => by
    obtain ⟨kphy, n, heq⟩ := MmzBlock.mmbFree_same m
    rw [heq]
    rfl
  have hmap : ∀ cached remap, rangeOf (MmzBlock.mmbMap2kern m cached remap).1 = rangeOf m := by
    intro cached remap
    unfold MmzBlock.mmbMap2kern
    split
    · split <;> rfl
    · cases remap <;> rfl
  have hdrop : ∀ m : Mmb, rangeOf (MmzBlock.dropMapping m) = rangeOf m := fun m => by
    unfold MmzBlock.dropMapping
    dsimp only
    split
    · exact hfree _
    · rfl
  -- no call writes the address or the length
  cases c with
  | get => rfl
  | put =>
    show rangeOf (MmzBlock.mtlMmbPut m).1 = _
    unfold MmzBlock.mtlMmbPut
    dsimp only
    split
    · exact hfree _
    · rfl
  | map2kern remap => exact hmap false remap
  | map2kernCached remap => exact hmap true remap
  | unmap =>
    show rangeOf (MmzBlock.mtlMmbUnmap m).1 = _
    unfold MmzBlock.mtlMmbUnmap
    split
    · rfl
    · split
      · dsimp only
        split
        · rfl
        · exact hdrop _
      · exact hdrop _
  | free =>
    show rangeOf (MmzBlock.mtlMmbFree m).1 = _
    unfold MmzBlock.mtlMmbFree
    split
    · rfl
    · split
      · rfl
      · split
        · rfl
        · exact hfree _

variable (cfg : Config) (s : State)

theorem callBlock_effect (i j : Nat) (c : MmzBlock.Call) :
    Effect (fun _ => False) s.zones (callBlock s i j c).1.zones := by
  unfold callBlock
  split
  · exact .same _
  · rename_i z hz
    split
    · exact .same _
    · rename_i m hj
      obtain ⟨hi, rfl⟩ := List.getElem?_eq_some_iff.mp hz
      have hset : ∃ l₁ l₂, s.zones = l₁ ++ s.zones[i] :: l₂ ∧ l₁.length = i ∧
          s.zones.set i (afterCall s.zones[i] j m (MmzBlock.machine.step m c).1) =
            l₁ ++ afterCall s.zones[i] j m (MmzBlock.machine.step m c).1 :: l₂ :=
        List.exists_of_set hi
      obtain ⟨l₁, l₂, hzones, _, hset⟩ := hset
      show Effect _ s.zones (s.zones.set i _)
      rw [hset]
      nth_rewrite 1 [hzones]
      unfold afterCall
      split
      · exact .back l₁ _ l₂ j m hj
      · exact .call l₁ _ l₂ j m _ hj (step_rangeOf m c)

/-- What a stretch under the lock can do to the zones. -/
theorem step_effect (i : Input) :
    Effect (Offered s i) s.zones ((machine cfg).step s i).1.zones := by
  cases i with
  | alloc req k => exact attempt_effect cfg k req s 0
  | again n k =>
    cases hw : s.waiting[n]? with
    | none =>
      simp only [machine, hw]
      exact .same _
    | some w =>
      simp only [machine, hw]
      have heff := attempt_effect cfg k w.1 { s with waiting := s.waiting.eraseIdx n } w.2
      exact heff.mono fun r hr => ⟨w, hw, hr⟩
  | call i j c => exact callBlock_effect s i j c

/-! ## Runs -/

/-- A step that returns no block leaves every zone's pages and blocks as they were. -/
def Clean (s : State) (i : Input) : Prop :=
  ((machine cfg).step s i).2 = .null → ((machine cfg).step s i).1.zones = s.zones

/-- No attempt gets pages and then no descriptor. -/
def Described (s : State) : Input → Prop
  | .alloc req k => CanServe cfg s.zones req k → k.kzalloc = true
  | .again n k => ∀ w, s.waiting[n]? = some w → CanServe cfg s.zones w.1 k → k.kzalloc = true
  | .call _ _ _ => True

/-- The page allocators offer free ranges only. -/
def OffersFree (s : State) (i : Input) : Prop := ∀ r, Offered s i r → FreeRange s.zones r

theorem callBlock_ne_null (i j : Nat) (c : MmzBlock.Call) : (callBlock s i j c).2 ≠ .null := by
  unfold callBlock
  split
  · exact Output.noConfusion
  · split
    · exact Output.noConfusion
    · exact Output.noConfusion

theorem clean_iff (i : Input) : Clean cfg s i ↔ Described cfg s i := by
  cases i with
  | alloc req k => exact attempt_clean_iff cfg k req s 0
  | again n k =>
    unfold Clean Described machine
    dsimp only
    cases hw : s.waiting[n]? with
    | none => exact ⟨fun _ _ => nofun, fun _ => nofun⟩
    | some w =>
      have hiff := attempt_clean_iff cfg k w.1 { s with waiting := s.waiting.eraseIdx n } w.2
      exact ⟨fun h w' hw' => Option.some.inj hw' ▸ hiff.mp h, fun h => hiff.mpr (h w rfl)⟩
  | call i j c =>
    exact ⟨fun _ => trivial, fun _ h => absurd h (callBlock_ne_null s i j c)⟩

variable {s}

/-- Zones that have no blocks yet. -/
theorem kept_of_empty {zones : List Mmz} (h : ∀ z ∈ zones, z.mmb_list = []) :
    ∀ z ∈ zones, Kept z := fun z hz => by
  constructor
  · rw [h z hz]; exact List.Pairwise.nil
  · rw [h z hz]; exact List.nil_subperm

theorem settled_of_empty {zones : List Mmz} (h : ∀ z ∈ zones, z.mmb_list = []) :
    Settled zones := by
  have hnil : blocks zones = [] := List.flatMap_eq_nil_iff.mpr h
  constructor
  · rw [Disjoint, hnil]; exact List.Pairwise.nil
  · rw [hnil]; exact fun m hm => absurd hm List.not_mem_nil

/-- The lists stay sorted in every run. -/
theorem always_sorted (hk : ∀ z ∈ s.zones, Kept z) (is : List Input) :
    (machine cfg).Always (fun s i => Sorted ((machine cfg).step s i).1.zones) s is :=
  (Machine.always_of_invariant (I := fun s => ∀ z ∈ s.zones, Kept z) (P := fun _ _ => True)
    (fun s i hk _ =>
      have hk' := (step_effect cfg s i).kept hk
      ⟨fun z hz => (hk' z hz).sorted, hk'⟩)
    hk ((machine cfg).always_true s is)).1

/-- With free pages every address has its block. -/
theorem always_finds (hk : ∀ z ∈ s.zones, Kept z) (hs : Settled s.zones) {is : List Input}
    (hfree : (machine cfg).Always OffersFree s is) :
    (machine cfg).Always (fun s i => Disjoint ((machine cfg).step s i).1.zones ∧
      Finds ((machine cfg).step s i).1.zones) s is := by
  have hstep : ∀ s i, (∀ z ∈ s.zones, Kept z) ∧ Settled s.zones → OffersFree s i →
      (Disjoint ((machine cfg).step s i).1.zones ∧ Finds ((machine cfg).step s i).1.zones) ∧
      (∀ z ∈ ((machine cfg).step s i).1.zones, Kept z) ∧
        Settled ((machine cfg).step s i).1.zones := by
    intro s i hI hf
    have heff := step_effect cfg s i
    have hs' := heff.settled hI.1 hf hI.2
    exact ⟨⟨hs'.disjoint, finds_of_disjoint hs'.disjoint hs'.inMemory⟩, heff.kept hI.1, hs'⟩
  exact (Machine.always_of_invariant hstep ⟨hk, hs⟩ hfree).1

/-- Every run from zones without blocks: failures are clean and the lists stay sorted,
    with free pages the blocks stay apart and the lookup finds them, if and only if no
    attempt finds pages and gets no descriptor. -/
theorem runs_iff (zones : List Mmz) (hempty : ∀ z ∈ zones, z.mmb_list = [])
    (is : List Input) :
    ((machine cfg).Always (Clean cfg) { zones := zones } is ∧
      (machine cfg).Always (fun s i => Sorted ((machine cfg).step s i).1.zones)
        { zones := zones } is ∧
      ((machine cfg).Always OffersFree { zones := zones } is →
        (machine cfg).Always (fun s i => Disjoint ((machine cfg).step s i).1.zones ∧
          Finds ((machine cfg).step s i).1.zones) { zones := zones } is)) ↔
    (machine cfg).Always (Described cfg) { zones := zones } is := by
  have hiff : (machine cfg).Always (Clean cfg) { zones := zones } is ↔
      (machine cfg).Always (Described cfg) { zones := zones } is := by
    have heq : Clean cfg = Described cfg :=
      funext fun s => funext fun i => propext (clean_iff cfg s i)
    rw [heq]
  rw [hiff]
  constructor
  · exact fun h => h.1
  · intro h
    exact ⟨h, always_sorted cfg (kept_of_empty hempty) is,
      always_finds cfg (kept_of_empty hempty) (settled_of_empty hempty)⟩

/-- A zone with a contiguous area, and a kernel that has pages at `start`. -/
def ddr : Mmz := { name := "ddr", gfp := 0, cma_area := true, dma_mem := false }

def kernelAt (start : Nat) (kzalloc : Bool) : Kernel :=
  { pages := fun _ _ _ => some start, kzalloc := kzalloc }

def page : Request := { size := 4096, align := 0, gfp := 0, mmz_name := none }

/-- A page is allocated, referenced, freed and put: the run is clean and its lookups are
    right. -/
theorem runs_iff_page :
    (machine ⟨false, false⟩).Always (Clean ⟨false, false⟩) { zones := [ddr] }
      [.alloc page (kernelAt 0x80000000 true), .call 0 0 .get, .call 0 0 .free,
        .call 0 0 .put] :=
  ((runs_iff ⟨false, false⟩ [ddr] (by decide)
    [.alloc page (kernelAt 0x80000000 true), .call 0 0 .get, .call 0 0 .free,
      .call 0 0 .put]).mpr ⟨fun _ => rfl, trivial, trivial, trivial, trivial⟩).1

/-- The three attempts of one `mtl_mmb_alloc`, none of which gets a descriptor. -/
def threeFailures : List Input :=
  [.alloc page (kernelAt 0x80000000 false), .again 0 (kernelAt 0x80001000 false),
    .again 0 (kernelAt 0x80002000 false)]

/-- The call returns no block, and three pages are gone. -/
theorem retries_lose_pages :
    ¬ (machine ⟨false, false⟩).Always (Clean ⟨false, false⟩) { zones := [ddr] } threeFailures ∧
      (machine ⟨false, false⟩).outputs { zones := [ddr] } threeFailures =
        [.null, .null, .null] ∧
      ((machine ⟨false, false⟩).final { zones := [ddr] } threeFailures).zones =
        [{ ddr with taken := [(0x80002000, 4096), (0x80001000, 4096), (0x80000000, 4096)] }] := by
  refine ⟨fun h => ?_, by decide, by decide⟩
  have hclean := h.1 (by decide)
  exact absurd hclean (by decide)

end Tntsat.MmzZone
