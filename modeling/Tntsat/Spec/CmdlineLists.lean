import Tntsat.Spec.CmdlineHeap

/-!
# Walking and freeing the lists of the parser

The lists end where the link behind the last partition of every device is `NULL`.
Then every walk over them ends, `find_flash_part` and `get_part_info` find what has been
read, and `free_parts` frees all of it.

## Key results

- `Devices.partsList`: what the parser leaves is a list
- `findFlashPart_list`, `getPartInfo_list`: what is found in it
- `freeParts_null`: everything is freed
-/

namespace Tntsat.Cmdline

variable {garbage : Nat → CmdlineSubpart} {h : Heap} {p : Nat}

/-! ## Lists -/

/-- The partitions a walk sees: it ends at `NULL`. -/
def SubList (h : Heap) : Nat → List Part → Prop
  | a, [] => a = 0
  | a, x :: xs => a ≠ 0 ∧ ∃ next, h.subpart a = some (x.node next) ∧ SubList h next xs

/-- The devices a walk sees. -/
def PartsList (h : Heap) : Nat → List Device → Prop
  | a, [] => a = 0
  | a, d :: ds => a ≠ 0 ∧ ∃ p, h.parts a = some p ∧ p.name = d.name ∧
      SubList h p.subpart d.parts ∧ PartsList h p.next_parts ds

/-- The block of the last partition of every device held `NULL` at the place of the link when
    `malloc` returned it; the partitions are in consecutive blocks from `a` on. -/
def LinksNull (garbage : Nat → CmdlineSubpart) : Nat → List Device → Prop
  | _, [] => True
  | a, d :: ds => (garbage (a + d.parts.length - 1)).next_subpart = 0 ∧
      LinksNull garbage (a + d.parts.length) ds

/-- A run whose last link is `NULL` is a list. -/
theorem Run.subList {a : Nat} {xs : List Part} (hrun : Run h 0 a xs) (ha : a ≠ 0) :
    SubList h (if xs = [] then 0 else a) xs := by
  induction xs generalizing a with
  | nil => rfl
  | cons x xs ih => exact ⟨ha, _, hrun.1, ih hrun.2 (Nat.succ_ne_zero a)⟩

/-- What the parser leaves is a list. -/
theorem Devices.partsList {a : Nat} {ds : List Device} (hds : Devices garbage h p a ds)
    (hp : p ≠ 0) (ha : a ≠ 0) (hne : ∀ d ∈ ds, d.parts ≠ []) (hnull : LinksNull garbage a ds) :
    PartsList h (if ds = [] then 0 else p) ds := by
  induction ds generalizing p a with
  | nil => rfl
  | cons d ds ih =>
    obtain ⟨⟨⟨end_addr, hdev⟩, hrun⟩, hds⟩ := hds
    rw [hnull.1] at hrun
    have hsub := hrun.subList ha
    rw [if_neg (hne d List.mem_cons_self)] at hsub
    have hrest := ih hds (Nat.succ_ne_zero p) (by omega)
      (fun x hx => hne x (List.mem_cons_of_mem _ hx)) hnull.2
    exact ⟨hp, _, hdev, rfl, hsub, hrest⟩

/-! ## Looking partitions up -/

/-- Start and length of a partition by the names of the device and its own. -/
def lookup (ds : List Device) (media_name ptn_name : List Char) : Option (Nat × Nat) :=
  (ds.find? fun d => strncmpEq d.name media_name bdevnameSize).bind fun d =>
    (d.parts.find? fun x => strncmpEq x.name ptn_name bdevnameSize).map fun x => (x.from, x.size)

/-- Start and size of a partition of the first device by its number, from 1 on. -/
def numbered (ds : List Device) (partnum : Nat) : Option (Nat × Nat) :=
  if partnum = 0 then none
  else
    ds.head?.bind fun d => ((d.parts.take maxParts)[partnum - 1]?).map fun x => (x.from, x.size)

theorem findParts_list {fuel a : Nat} {ds : List Device} (media_name : List Char)
    (hlist : PartsList h a ds) (hfuel : ds.length < fuel) :
    match ds.find? fun d => strncmpEq d.name media_name bdevnameSize with
    | none => findParts h media_name fuel a = some 0
    | some d => ∃ b p, findParts h media_name fuel a = some b ∧ b ≠ 0 ∧ h.parts b = some p ∧
        SubList h p.subpart d.parts := by
  induction ds generalizing a fuel with
  | nil =>
    obtain ⟨fuel, rfl⟩ := Nat.exists_eq_add_of_lt hfuel
    exact if_pos hlist
  | cons d ds ih =>
    obtain ⟨ha, p, hp, hname, hparts, hrest⟩ := hlist
    cases fuel with
    | zero => cases hfuel
    | succ fuel =>
      have hstep : findParts h media_name (fuel + 1) a =
          if strncmpEq d.name media_name bdevnameSize then some a
          else findParts h media_name fuel p.next_parts := by
        rw [findParts, if_neg ha, hp]
        simp only [hname]
      rw [hstep, List.find?_cons]
      cases hmatch : strncmpEq d.name media_name bdevnameSize with
      | true => exact ⟨a, p, rfl, ha, hp, hparts⟩
      | false => exact ih hrest (Nat.lt_of_succ_lt_succ hfuel)

theorem findSubpart_list {fuel a : Nat} {xs : List Part} (ptn_name : List Char)
    (hlist : SubList h a xs) (hfuel : xs.length < fuel) :
    (findSubpart h ptn_name fuel a).map (Option.map fun x => (x.from, x.size)) =
      some ((xs.find? fun x => strncmpEq x.name ptn_name bdevnameSize).map
        fun x => (x.from, x.size)) := by
  induction xs generalizing a fuel with
  | nil =>
    obtain ⟨fuel, rfl⟩ := Nat.exists_eq_add_of_lt hfuel
    have ha : a = 0 := hlist
    simp [findSubpart, ha]
  | cons x xs ih =>
    obtain ⟨ha, next, hx, hrest⟩ := hlist
    cases fuel with
    | zero => cases hfuel
    | succ fuel =>
      rw [findSubpart, if_neg ha, hx, List.find?_cons]
      cases hmatch : strncmpEq x.name ptn_name bdevnameSize with
      | true => simp [Part.node, hmatch]
      | false =>
        have hnext := ih hrest (Nat.lt_of_succ_lt_succ hfuel)
        simp only [Part.node, hmatch, Bool.false_eq_true, if_false]
        exact hnext

theorem copyParts_list {room a : Nat} {xs : List Part} (hlist : SubList h a xs) :
    copyParts h room a = some ((xs.take room).map fun x => (x.from, x.size)) := by
  induction room generalizing a xs with
  | zero => rfl
  | succ room ih =>
    cases xs with
    | nil => exact if_pos hlist
    | cons x xs =>
      obtain ⟨ha, next, hx, hrest⟩ := hlist
      rw [copyParts, if_neg ha, hx]
      simp [Part.node, ih hrest]

/-- `find_flash_part` finds the first partition of its name on the first device of its name. -/
theorem findFlashPart_list {ds : List Device} (media_name ptn_name : List Char)
    (hlist : PartsList h h.head ds) (hdevices : ds.length ≤ h.devices)
    (hsubparts : ∀ d ∈ ds, d.parts.length ≤ h.subparts) :
    findFlashPart h media_name ptn_name = some (lookup ds media_name ptn_name) := by
  have hfind := findParts_list media_name hlist (Nat.lt_succ_of_le hdevices)
  rw [findFlashPart, lookup]
  cases hd : ds.find? fun d => strncmpEq d.name media_name bdevnameSize with
  | none =>
    rw [hd] at hfind
    rw [show findParts h media_name (h.devices + 1) h.head = some 0 from hfind]
    rfl
  | some d =>
    rw [hd] at hfind
    obtain ⟨b, p, hb, hne, hp, hparts⟩ := hfind
    have hlen := hsubparts d (List.mem_of_find?_eq_some hd)
    have hsub := findSubpart_list ptn_name hparts (Nat.lt_succ_of_le hlen)
    obtain ⟨b, rfl⟩ := Nat.exists_eq_succ_of_ne_zero hne
    rw [hb]
    simp only [hp]
    exact hsub

/-- `get_part_info` finds the partitions of the first device by their number. -/
theorem getPartInfo_list {ds : List Device} (partnum : Nat) (hlist : PartsList h h.head ds)
    (hne : ∀ d ∈ ds, d.parts ≠ []) : getPartInfo h partnum = some (numbered ds partnum) := by
  cases ds with
  | nil =>
    have hhead : h.head = 0 := hlist
    simp [getPartInfo, hhead, numbered]
  | cons d ds =>
    obtain ⟨hhead, p, hp, -, hparts, -⟩ := hlist
    have hfirst : p.subpart ≠ 0 := by
      cases hd : d.parts with
      | nil => exact absurd hd (hne d List.mem_cons_self)
      | cons x xs =>
        rw [hd] at hparts
        exact hparts.1
    rw [getPartInfo, if_neg hhead, hp]
    simp only [hfirst, if_false, copyParts_list hparts, Option.map_some, numbered, List.head?_cons,
      Option.bind_some, List.getElem?_map]
    generalize d.parts.take maxParts = xs
    -- a number that is too large finds nothing on either side
    by_cases hzero : partnum = 0
    · simp [hzero]
    · by_cases hlarge : partnum > (xs.map fun x => (x.from, x.size)).length
      · rw [if_pos (Or.inr hlarge), if_neg hzero, List.getElem?_eq_none]
        · rfl
        · rw [List.length_map] at hlarge
          omega
      · rw [if_neg (not_or.mpr ⟨hzero, hlarge⟩), if_neg hzero]

/-! ## Freeing -/

theorem Devices.congr {h' : Heap} {a : Nat} {ds : List Device} (hds : Devices garbage h p a ds)
    (hsub : ∀ i, a ≤ i → h'.subpart i = h.subpart i) (hparts : ∀ q, p ≤ q → h'.parts q = h.parts q) :
    Devices garbage h' p a ds := by
  induction ds generalizing p a with
  | nil => trivial
  | cons d ds ih =>
    obtain ⟨⟨⟨end_addr, hdev⟩, hrun⟩, hds⟩ := hds
    refine ⟨⟨⟨end_addr, ?_⟩, hrun.congr fun i hi _ => hsub i hi⟩, ih hds ?_ ?_⟩
    · rw [hparts p (Nat.le_refl p), hdev]
    · exact fun i hi => hsub i (by omega)
    · exact fun q hq => hparts q (by omega)

/-- Where every link is as it should be, everything is freed. -/
theorem freeParts_null {fuel a : Nat} {ds : List Device} (hds : Devices garbage h p a ds)
    (hhead : h.head = if ds = [] then 0 else p) (hp : p ≠ 0) (ha : a ≠ 0)
    (hne : ∀ d ∈ ds, d.parts ≠ []) (hnull : LinksNull garbage a ds) (hfuel : ds.length < fuel)
    (hle : a + total ds ≤ h.subparts + 1) :
    ∃ h', freeParts fuel h = some h' ∧ h'.head = 0 ∧
      (∀ i, h'.subpart i = if a ≤ i ∧ i < a + total ds then none else h.subpart i) ∧
      ∀ q, h'.parts q = if p ≤ q ∧ q < p + ds.length then none else h.parts q := by
  induction ds generalizing h p a fuel with
  | nil =>
    obtain ⟨fuel, rfl⟩ := Nat.exists_eq_add_of_lt hfuel
    refine ⟨h, if_pos hhead, hhead, fun i => ?_, fun q => ?_⟩
    · exact (if_neg (by simp only [total, List.map_nil, List.sum_nil]; omega)).symm
    · exact (if_neg (by rw [List.length_nil]; omega)).symm
  | cons d ds ih =>
    cases fuel with
    | zero => cases hfuel
    | succ fuel =>
      have hsum : total (d :: ds) = d.parts.length + total ds := by
        simp [total]
      obtain ⟨⟨⟨end_addr, hdev⟩, hrun⟩, hds⟩ := hds
      rw [hnull.1] at hrun
      rw [if_neg (List.cons_ne_nil d ds)] at hhead
      rw [hsum] at hle ⊢
      -- the partitions of the first device
      have hsteps : h.subparts + 1 = d.parts.length + (h.subparts - d.parts.length + 1) := by omega
      have hfirst : freeSubpart (h.subparts + 1) h p = some (h.freed p a d.parts.length 0) := by
        rw [hsteps, freeSubpart_run hdev (by rw [if_neg (hne d List.mem_cons_self)]) ha hrun]
        apply freeSubpart_end (d := { name := d.name, end_addr := end_addr, subpart := 0,
                                      next_parts := if ds = [] then 0 else p + 1 })
        · simp [Heap.freed, hdev]
        · rfl
      rw [freeParts, if_neg (hhead ▸ hp), hhead, hdev]
      simp only [hfirst]
      -- and the device itself
      generalize hnext : ({ (h.freed p a d.parts.length 0).setParts
        (h.freed p a d.parts.length 0).head none with head := if ds = [] then 0 else p + 1 } :
          Heap) = h₁
      have hsub₁ : ∀ i, h₁.subpart i =
          if a ≤ i ∧ i < a + d.parts.length then none else h.subpart i := by
        subst hnext
        exact fun i => rfl
      have hparts₁ : ∀ q, h₁.parts q = if q = p then none else h.parts q := by
        subst hnext
        intro q
        by_cases hq : q = p <;> simp [Heap.freed, hhead, hq]
      have hds₁ : Devices garbage h₁ (p + 1) (a + d.parts.length) ds := by
        apply hds.congr
        · intro i hi
          rw [hsub₁, if_neg (by omega)]
        · intro q hq
          rw [hparts₁, if_neg (by omega)]
      have hhead₁ : h₁.head = if ds = [] then 0 else p + 1 := by
        rw [← hnext]
      have hmade₁ : h₁.subparts = h.subparts := by
        rw [← hnext]
        rfl
      obtain ⟨h', heq, hhead', hsub, hparts⟩ := ih hds₁ hhead₁ (Nat.succ_ne_zero p) (by omega)
        (fun x hx => hne x (List.mem_cons_of_mem _ hx)) hnull.2 (Nat.lt_of_succ_lt_succ hfuel)
        (by omega)
      refine ⟨h', heq, hhead', fun i => ?_, fun q => ?_⟩
      · rw [hsub, hsub₁]
        by_cases hin : a ≤ i ∧ i < a + d.parts.length
        · rw [if_pos hin, if_pos (show a ≤ i ∧ i < a + (d.parts.length + total ds) by omega), ite_self]
        · rw [if_neg hin]
          by_cases hrest : a + d.parts.length ≤ i ∧ i < a + d.parts.length + total ds
          · rw [if_pos hrest, if_pos (by omega)]
          · rw [if_neg hrest, if_neg (by omega)]
      · rw [hparts, hparts₁, List.length_cons]
        by_cases hq : q = p
        · rw [if_pos hq, if_pos (show p ≤ q ∧ q < p + (ds.length + 1) by omega), ite_self]
        · rw [if_neg hq]
          by_cases hrest : p + 1 ≤ q ∧ q < p + 1 + ds.length
          · rw [if_pos hrest, if_pos (by omega)]
          · rw [if_neg hrest, if_neg (by omega)]

end Tntsat.Cmdline
