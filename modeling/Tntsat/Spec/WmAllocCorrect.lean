import Tntsat.Native.WmAlloc
import Mathlib.Data.List.Nodup

/-!
# The memory pool hands out every unit to one owner at a time

The invariant `Inv` of the pool and its threads: the free units of a size are what
`nFirst` and the links give in `nFree` steps, and they are exactly the units that
nobody holds, that is, that were not returned (`live`) and that no thread is just
clearing.  It is kept by every step of every thread and by every write of an owner
into its unit (`inv_step`), although the links are in the same memory.

So over any interleaving every pointer is new when it is returned (`wmalloc_fresh`), and
the units that were returned do not overlap, hold what their owners wrote and are not
lost (`run_sound`).  A thread that nobody disturbs gets nothing only if all units that
are large enough are in use (`wmalloc_null_iff`).
-/

namespace Tntsat.WmAlloc

/-! ## Where the units are -/

namespace Pool

/-- The number of units of a size. -/
def num (g : Pool) (u : UnitSize) : Nat := unitNum g.tdeBuf u

/-- The address of a unit. -/
def addr (g : Pool) (u : UnitSize) (i : Nat) : Nat :=
  g.vrt + unitOffset g.tdeBuf u + i * u.bytes

/-- What never changes behind `wmeminit`. -/
structure Geometry (g : Pool) : Prop where
  vrt_pos : 0 < g.vrt
  num_le : ∀ u, g.num u ≤ 615
  nUnitSize : ∀ u, (g.blk u).nUnitSize = u.bytes
  pStartAddr : ∀ u, (g.blk u).pStartAddr = g.addr u 0
  nSize : ∀ u, (g.blk u).nSize = g.num u * u.bytes

end Pool

theorem UnitSize.bytes_ge (u : UnitSize) : 64 ≤ u.bytes := by
  cases u <;> decide

/-- A unit ends where the next one begins. -/
theorem addr_succ (g : Pool) (u : UnitSize) (i : Nat) :
    g.addr u (i + 1) = g.addr u i + u.bytes := by
  simp only [Pool.addr, Nat.succ_mul, Nat.add_assoc]

theorem addr_mono (g : Pool) (u : UnitSize) {i j : Nat} (h : i ≤ j) : g.addr u i ≤ g.addr u j :=
  Nat.add_le_add_left (Nat.mul_le_mul_right _ h) _

/-- The sizes lie one behind the other. -/
theorem addr_next (g : Pool) :
    g.addr .job 0 = g.addr .cmd (g.num .cmd) ∧ g.addr .node 0 = g.addr .job (g.num .job) ∧
      g.addr .filter 0 = g.addr .node (g.num .node) := by
  have hjob : unitOffset g.tdeBuf .job = unitOffset g.tdeBuf .cmd + g.num .cmd * 64 :=
    (Nat.zero_add _).symm
  have hnode : unitOffset g.tdeBuf .node = unitOffset g.tdeBuf .job + g.num .job * 96 := rfl
  have hfilter : unitOffset g.tdeBuf .filter = unitOffset g.tdeBuf .node + g.num .node * 1536 :=
    rfl
  simp only [Pool.addr, hjob, hnode, hfilter, UnitSize.bytes]
  omega

/-- The units of two sizes are apart. -/
theorem addr_apart (g : Pool) {u u' : UnitSize} (h : u ≠ u') :
    g.addr u (g.num u) ≤ g.addr u' 0 ∨ g.addr u' (g.num u') ≤ g.addr u 0 := by
  obtain ⟨hjob, hnode, hfilter⟩ := addr_next g
  have hjobs := addr_mono g .job (Nat.zero_le (g.num .job))
  have hnodes := addr_mono g .node (Nat.zero_le (g.num .node))
  cases u <;> cases u' <;> first | exact absurd rfl h | skip
  all_goals omega

/-- Two units do not overlap. -/
theorem addr_disjoint (g : Pool) {u u' : UnitSize} {i j : Nat} (hi : i < g.num u)
    (hj : j < g.num u') (hne : ¬ (u = u' ∧ i = j)) :
    g.addr u i + u.bytes ≤ g.addr u' j ∨ g.addr u' j + u'.bytes ≤ g.addr u i := by
  rw [← addr_succ, ← addr_succ]
  by_cases hu : u = u'
  · subst hu
    have hij : i ≠ j := fun h => hne ⟨rfl, h⟩
    obtain h | h : i < j ∨ j < i := by omega
    · exact .inl (addr_mono g u h)
    · exact .inr (addr_mono g u h)
  · have hlo := addr_mono g u (Nat.zero_le i)
    have hhi := addr_mono g u (show i + 1 ≤ g.num u from hi)
    have hlo' := addr_mono g u' (Nat.zero_le j)
    have hhi' := addr_mono g u' (show j + 1 ≤ g.num u' from hj)
    obtain h | h := addr_apart g hu
    · exact .inl (by omega)
    · exact .inr (by omega)

theorem addr_inj (g : Pool) {u u' : UnitSize} {i j : Nat} (hi : i < g.num u) (hj : j < g.num u')
    (h : g.addr u i = g.addr u' j) : u = u' ∧ i = j := by
  by_contra hne
  have := addr_disjoint g hi hj hne
  have := u.bytes_ge
  have := u'.bytes_ge
  omega

/-- A unit is inside the pool. -/
theorem addr_in_pool (g : Pool) {u : UnitSize} {i : Nat} (hi : i < g.num u) :
    g.vrt ≤ g.addr u i ∧ g.addr u i + u.bytes ≤ g.vrt + memPoolSize g.tdeBuf := by
  obtain ⟨hjob, hnode, hfilter⟩ := addr_next g
  have hend : g.vrt + memPoolSize g.tdeBuf = g.addr .filter (g.num .filter) := by
    have hsize : memPoolSize g.tdeBuf =
        unitOffset g.tdeBuf .filter + g.num .filter * UnitSize.filter.bytes := rfl
    rw [hsize, Pool.addr, Nat.add_assoc]
  have hfirst : g.addr .cmd 0 = g.vrt := by
    have hoff : unitOffset g.tdeBuf .cmd = 0 := rfl
    rw [Pool.addr, hoff, Nat.zero_mul, Nat.add_zero]
  rw [← addr_succ, hend, ← hfirst]
  have hlo := addr_mono g u (Nat.zero_le i)
  have hhi := addr_mono g u (show i + 1 ≤ g.num u from hi)
  have hcmd := addr_mono g .cmd (Nat.zero_le (g.num .cmd))
  have hjobs := addr_mono g .job (Nat.zero_le (g.num .job))
  have hnodes := addr_mono g .node (Nat.zero_le (g.num .node))
  have hfilters := addr_mono g .filter (Nat.zero_le (g.num .filter))
  cases u <;> omega

/-! ## The free units -/

/-- The free units, from `first` on along the links. -/
def Chain (g : Pool) (u : UnitSize) : Nat → List Nat → Prop
  | _, [] => True
  | first, i :: is => first = i ∧ Chain g u (readU16 g.mem (g.addr u i)) is

/-- Links that are not written to stay. -/
theorem Chain.congr {g g' : Pool} {u : UnitSize} {first : Nat} {free : List Nat}
    (h : Chain g u first free) (haddr : ∀ i, g'.addr u i = g.addr u i)
    (hlink : ∀ i ∈ free, readU16 g'.mem (g.addr u i) = readU16 g.mem (g.addr u i)) :
    Chain g' u first free := by
  induction free generalizing first with
  | nil => trivial
  | cons i is ih =>
    obtain ⟨rfl, hrest⟩ := h
    refine ⟨rfl, ?_⟩
    rw [haddr, hlink first List.mem_cons_self]
    exact ih hrest fun j hj => hlink j (List.mem_cons_of_mem _ hj)

theorem readU16_write_disjoint (mem : Memory UInt8) {p q : Nat} (bs : List UInt8)
    (h : p + 2 ≤ q ∨ q + bs.length ≤ p) : readU16 (mem.write q bs) p = readU16 mem p := by
  rw [readU16, readU16, Memory.read_write_disjoint mem bs h]

theorem readU16_writeU16 (mem : Memory UInt8) (p : Nat) {v : Nat} (hv : v < 2 ^ 16) :
    readU16 (writeU16 mem p v) p = v := by
  have hread : (mem.write p (le 2 v)).read p 2 = le 2 v := Memory.read_write_self mem p (le 2 v)
  rw [readU16, writeU16, hread, ofLe_le_of_lt hv]

/-- Links that follow the order of the units. -/
theorem chain_range' (g : Pool) (u : UnitSize) (i n : Nat)
    (h : ∀ j, i ≤ j → j + 1 < i + n → readU16 g.mem (g.addr u j) = j + 1) :
    Chain g u i (List.range' i n) := by
  induction n generalizing i with
  | zero => trivial
  | succ n ih =>
    refine ⟨rfl, ?_⟩
    cases n with
    | zero => trivial
    | succ n =>
      rw [h i (Nat.le_refl i) (by omega)]
      exact ih (i + 1) fun j hj hlt => h j (by omega) (by omega)

/-- Somebody has a unit: its owner, or the thread that is just clearing it. -/
def Held (s : Sys) (u : UnitSize) (p : Nat) : Prop :=
  (u, p) ∈ s.live ∨ ∃ t size, s.pc t = .clearing size u p

/-- The free units of a size are linked, and they are those that nobody holds. -/
structure FreeList (s : Sys) (u : UnitSize) (free : List Nat) : Prop where
  nFree : (s.pool.blk u).nFree = free.length
  chain : Chain s.pool u (s.pool.blk u).nFirst free
  nodup : free.Nodup
  mem_iff : ∀ i, i ∈ free ↔ i < s.pool.num u ∧ ¬ Held s u (s.pool.addr u i)

/-- A unit of the pool, by its address. -/
def IsUnit (g : Pool) (u : UnitSize) (p : Nat) : Prop := ∃ i, i < g.num u ∧ p = g.addr u i

/-- The invariant of the pool and its threads. -/
structure Inv (s : Sys) : Prop where
  geometry : s.pool.Geometry
  free : ∀ u, ∃ free, FreeList s u free
  live_unit : ∀ u p, (u, p) ∈ s.live → IsUnit s.pool u p
  live_nodup : s.live.Nodup
  clearing_unit : ∀ t size u p, s.pc t = .clearing size u p →
    IsUnit s.pool u p ∧ (u, p) ∉ s.live ∧ size ≤ u.bytes
  clearing_one : ∀ t t' size size' u p, s.pc t = .clearing size u p →
    s.pc t' = .clearing size' u p → t = t'
  trying : ∀ t size sizes, s.pc t = .trying size sizes → ∀ u ∈ sizes, size ≤ u.bytes
  data : ∀ u p, (u, p) ∈ s.live → ∀ k, k < u.bytes → s.pool.mem (p + k) = s.data (p + k)

/-- Different units do not overlap. -/
theorem IsUnit.disjoint {g : Pool} {u u' : UnitSize} {p p' : Nat} (h : IsUnit g u p)
    (h' : IsUnit g u' p') (hne : (u, p) ≠ (u', p')) :
    p + u.bytes ≤ p' ∨ p' + u'.bytes ≤ p := by
  obtain ⟨i, hi, rfl⟩ := h
  obtain ⟨j, hj, rfl⟩ := h'
  exact addr_disjoint g hi hj fun ⟨hu, hij⟩ => hne (by subst hu hij; rfl)

/-- The address of a unit gives its size away. -/
theorem IsUnit.size_eq {g : Pool} {u u' : UnitSize} {p : Nat} (h : IsUnit g u p)
    (h' : IsUnit g u' p) : u = u' := by
  obtain ⟨i, hi, rfl⟩ := h
  obtain ⟨j, hj, heq⟩ := h'
  exact (addr_inj g hi hj heq).1

/-- Whoever holds something holds a unit. -/
theorem Inv.held_unit {s : Sys} (hs : Inv s) {u : UnitSize} {p : Nat} (h : Held s u p) :
    IsUnit s.pool u p := by
  obtain hlive | ⟨t, size, hpc⟩ := h
  · exact hs.live_unit u p hlive
  · exact (hs.clearing_unit t size u p hpc).1

/-- A free unit does not overlap with one that is held. -/
theorem FreeList.disjoint_held {s : Sys} {u u' : UnitSize} {free : List Nat} {i p : Nat}
    (h : FreeList s u free) (hi : i ∈ free) (hheld : Held s u' p) (hs : Inv s) :
    s.pool.addr u i + u.bytes ≤ p ∨ p + u'.bytes ≤ s.pool.addr u i := by
  obtain ⟨hlt, hnot⟩ := (h.mem_iff i).mp hi
  refine IsUnit.disjoint ⟨i, hlt, rfl⟩ (hs.held_unit hheld) fun heq => hnot ?_
  obtain ⟨rfl, rfl⟩ := Prod.mk.inj heq
  exact hheld

/-- A step that writes to no free unit and changes no holder keeps the list of a size. -/
theorem FreeList.congr {s s' : Sys} {u : UnitSize} {free : List Nat} (h : FreeList s u free)
    (haddr : ∀ i, s'.pool.addr u i = s.pool.addr u i) (hnum : s'.pool.num u = s.pool.num u)
    (hblk : s'.pool.blk u = s.pool.blk u)
    (hlink : ∀ i ∈ free, readU16 s'.pool.mem (s.pool.addr u i) =
      readU16 s.pool.mem (s.pool.addr u i))
    (hheld : ∀ i, i < s.pool.num u →
      (Held s' u (s.pool.addr u i) ↔ Held s u (s.pool.addr u i))) : FreeList s' u free where
  nFree := by rw [hblk]; exact h.nFree
  chain := by rw [hblk]; exact h.chain.congr haddr hlink
  nodup := h.nodup
  mem_iff i := by
    rw [h.mem_iff, haddr, hnum]
    exact and_congr_right fun hi => not_congr (hheld i hi).symm

/-! ## Init -/

/-- The links of some units leave what is not in front of one of them alone. -/
theorem linkUnits_other {size : Nat} (hsize : 2 ≤ size) (p k n : Nat) (mem : Memory UInt8) {q : Nat}
    (h : q + 2 ≤ p + k * size ∨ p + (k + n) * size ≤ q) :
    readU16 (linkUnits size p (k + 1) n mem) q = readU16 mem q := by
  induction n generalizing k mem with
  | zero => rfl
  | succ n ih =>
    have hk : (k + 1) * size = k * size + size := Nat.succ_mul k size
    have hlast : (k + 1) * size ≤ (k + (n + 1)) * size := Nat.mul_le_mul_right size (by omega)
    have hshift : k + 1 + n = k + (n + 1) := by omega
    rw [linkUnits, Nat.add_sub_cancel, ih (k + 1) _ (by rw [hshift]; omega), writeU16,
      readU16_write_disjoint mem _ (by rw [length_le]; omega)]

/-- Each unit but the last is linked to the next. -/
theorem linkUnits_link {size : Nat} (hsize : 2 ≤ size) (p k n : Nat) (mem : Memory UInt8) {j : Nat}
    (hlo : k ≤ j) (hhi : j < k + n) (hmax : k + n < 2 ^ 16) :
    readU16 (linkUnits size p (k + 1) n mem) (p + j * size) = j + 1 := by
  induction n generalizing k mem with
  | zero => omega
  | succ n ih =>
    rw [linkUnits, Nat.add_sub_cancel]
    by_cases hj : j = k
    · subst hj
      have hnext : (j + 1) * size = j * size + size := Nat.succ_mul j size
      rw [linkUnits_other hsize p (j + 1) n _ (by omega), readU16_writeU16 mem _ (by omega)]
    · exact ih (k + 1) _ (by omega) (by omega) (by omega)

/-- What `MemoryBlockInit` leaves for a size. -/
structure Inited (g : Pool) (u : UnitSize) : Prop where
  blk : g.blk u = ⟨g.num u * u.bytes, g.num u, 0, u.bytes, g.addr u 0⟩
  link : ∀ j, j + 1 < g.num u → readU16 g.mem (g.addr u j) = j + 1

/-- The init of one size does its own units and leaves the others alone. -/
theorem memoryBlockInit_spec {g : Pool} (u : UnitSize) (hpos : 0 < g.num u)
    (hle : g.num u ≤ 615) (hvrt : 0 < g.vrt) :
    ∃ mem blk,
      memoryBlockInit u (unitNum g.tdeBuf u) (g.vrt + unitOffset g.tdeBuf u) g =
        { g with mem, blk } ∧
      Inited { g with mem, blk } u ∧
      ∀ u', u' ≠ u → Inited g u' → Inited { g with mem, blk } u' := by
  have hnum : unitNum g.tdeBuf u = g.num u := rfl
  have hbytes : 2 ≤ u.bytes := Nat.le_trans (by decide) u.bytes_ge
  have hstart : g.vrt + unitOffset g.tdeBuf u = g.addr u 0 := by
    rw [Pool.addr, Nat.zero_mul, Nat.add_zero]
  have haddr (j : Nat) : g.addr u 0 + j * u.bytes = g.addr u j := by
    rw [← hstart, Pool.addr]
  have hne : ¬ (g.addr u 0 = 0 ∨ g.num u = 0) := by omega
  rw [hstart, hnum, memoryBlockInit, if_neg hne, Nat.mod_eq_of_lt (by omega : g.num u < 2 ^ 16)]
  refine ⟨_, _, rfl, ⟨Function.update_self .., fun j hj => ?_⟩,
    fun u' hu' h => ⟨?_, fun j hj => ?_⟩⟩
  · change j + 1 < g.num u at hj
    change readU16 (linkUnits u.bytes (g.addr u 0) (0 + 1) (g.num u - 1) g.mem) (g.addr u j) = j + 1
    rw [← haddr j]
    exact linkUnits_link hbytes _ 0 _ g.mem (by omega) (by omega) (by omega)
  · exact (Function.update_of_ne hu' _ _).trans h.blk
  · change j + 1 < g.num u' at hj
    change readU16 (linkUnits u.bytes (g.addr u 0) (0 + 1) (g.num u - 1) g.mem) (g.addr u' j) =
      j + 1
    rw [linkUnits_other hbytes]
    · exact h.link j hj
    · have hfirst : g.addr u 0 + 0 * u.bytes = g.addr u 0 := haddr 0
      have hlast : g.addr u 0 + (0 + (g.num u - 1)) * u.bytes = g.addr u (g.num u - 1) := by
        rw [Nat.zero_add, haddr]
      rw [hfirst, hlast]
      have hbelow := addr_mono g u' (show j + 1 ≤ g.num u' by omega)
      have habove := addr_mono g u' (Nat.zero_le j)
      have hend := addr_mono g u (Nat.sub_le (g.num u) 1)
      have hbytes' := u'.bytes_ge
      rw [addr_succ] at hbelow
      obtain hapart | hapart := addr_apart g hu'
      · exact .inl (by omega)
      · exact .inr (by omega)

theorem tdeBufOf_bounds (cfg : Nat) :
    tdeMinBuffer ≤ tdeBufOf cfg ∧ tdeBufOf cfg ≤ tdeMaxBuffer := by
  have hle : tdeMinBuffer ≤ tdeMaxBuffer := by decide
  rw [tdeBufOf]
  split
  · exact ⟨hle, Nat.le_refl _⟩
  · split
    · exact ⟨Nat.le_refl _, hle⟩
    · omega

/-- Every size has units, and their numbers fit. -/
theorem unitNum_bounds (cfg : Nat) (u : UnitSize) :
    0 < unitNum (tdeBufOf cfg) u ∧ unitNum (tdeBufOf cfg) u ≤ 615 := by
  have hbuf := tdeBufOf_bounds cfg
  simp only [tdeMinBuffer, tdeMaxBuffer] at hbuf
  cases u <;> simp only [unitNum] <;> omega

/-- Behind `wmeminit` all units are free. -/
theorem wmeminit_spec {cfg phys vrt : Nat} {mem : Memory UInt8} {pool : Pool}
    (h : wmeminit cfg phys vrt mem = some pool) (hvrt : 0 < vrt) :
    (pool.phys = phys ∧ pool.vrt = vrt ∧ pool.tdeBuf = tdeBufOf cfg) ∧ ∀ u, Inited pool u := by
  simp only [wmeminit] at h
  split at h
  · cases h
  · obtain ⟨mem₁, blk₁, h₁, hcmd, -⟩ :=
      memoryBlockInit_spec (g := ⟨fun _ => ⟨0, 0, 0, 0, 0⟩, mem, phys, vrt, tdeBufOf cfg⟩) .cmd
        (unitNum_bounds cfg .cmd).1 (unitNum_bounds cfg .cmd).2 hvrt
    obtain ⟨mem₂, blk₂, h₂, hjob, hkeep₂⟩ :=
      memoryBlockInit_spec (g := ⟨blk₁, mem₁, phys, vrt, tdeBufOf cfg⟩) .job
        (unitNum_bounds cfg .job).1 (unitNum_bounds cfg .job).2 hvrt
    obtain ⟨mem₃, blk₃, h₃, hnode, hkeep₃⟩ :=
      memoryBlockInit_spec (g := ⟨blk₂, mem₂, phys, vrt, tdeBufOf cfg⟩) .node
        (unitNum_bounds cfg .node).1 (unitNum_bounds cfg .node).2 hvrt
    obtain ⟨mem₄, blk₄, h₄, hfilter, hkeep₄⟩ :=
      memoryBlockInit_spec (g := ⟨blk₃, mem₃, phys, vrt, tdeBufOf cfg⟩) .filter
        (unitNum_bounds cfg .filter).1 (unitNum_bounds cfg .filter).2 hvrt
    simp only at h₁ h₂ h₃ h₄
    rw [h₁, h₂, h₃, h₄] at h
    cases h
    refine ⟨⟨rfl, rfl, rfl⟩, fun u => ?_⟩
    cases u with
    | cmd => exact hkeep₄ _ (by decide) (hkeep₃ _ (by decide) (hkeep₂ _ (by decide) hcmd))
    | job => exact hkeep₄ _ (by decide) (hkeep₃ _ (by decide) hjob)
    | node => exact hkeep₄ _ (by decide) hnode
    | filter => exact hfilter

theorem wmeminit_geometry {cfg phys vrt : Nat} {mem : Memory UInt8} {pool : Pool}
    (h : wmeminit cfg phys vrt mem = some pool) (hvrt : 0 < vrt) : pool.Geometry := by
  obtain ⟨⟨-, hpool, hbuf⟩, hinit⟩ := wmeminit_spec h hvrt
  refine ⟨hpool ▸ hvrt, fun u => ?_, fun u => ?_, fun u => ?_, fun u => ?_⟩
  · rw [Pool.num, hbuf]
    exact (unitNum_bounds cfg u).2
  all_goals rw [(hinit u).blk]

/-- All units of a size are linked one after the other. -/
theorem Inited.freeList {pool : Pool} {u : UnitSize} (h : Inited pool u) :
    FreeList (start pool) u (List.range' 0 (pool.num u)) := by
  have hheld (p : Nat) : ¬ Held (start pool) u p := by
    rintro (hlive | ⟨t, size, hpc⟩)
    · cases hlive
    · cases hpc
  have hblk : (start pool).pool.blk u = _ := h.blk
  refine ⟨?_, ?_, List.nodup_range', fun i => ?_⟩
  · rw [hblk, List.length_range']
  · rw [hblk]
    exact chain_range' pool u 0 _ fun j _ hj => h.link j (by omega)
  · rw [List.mem_range'_1, Nat.zero_add]
    exact ⟨fun hi => ⟨hi.2, hheld _⟩, fun hi => ⟨Nat.zero_le i, hi.1⟩⟩

/-- The invariant holds behind `wmeminit`. -/
theorem inv_start {cfg phys vrt : Nat} {mem : Memory UInt8} {pool : Pool}
    (h : wmeminit cfg phys vrt mem = some pool) (hvrt : 0 < vrt) : Inv (start pool) where
  geometry := wmeminit_geometry h hvrt
  free u := ⟨_, ((wmeminit_spec h hvrt).2 u).freeList⟩
  live_unit u p hlive := by cases hlive
  live_nodup := List.nodup_nil
  clearing_unit t size u p hpc := by cases hpc
  clearing_one t t' size size' u p hpc := by cases hpc
  trying t size sizes hpc := by cases hpc
  data u p hlive := by cases hlive

/-! ## Steps -/

/-- What a thread does behind a step of one of them. -/
theorem pc_update {pc : Nat → Pc} {t t' : Nat} {c x : Pc} (h : Function.update pc t c t' = x) :
    t' = t ∧ c = x ∨ t' ≠ t ∧ pc t' = x := by
  by_cases ht : t' = t
  · rw [ht, Function.update_self] at h
    exact .inl ⟨ht, h⟩
  · rw [Function.update_of_ne ht] at h
    exact .inr ⟨ht, h⟩

/-- What the step does not do a thread was doing before it. -/
theorem pc_update_ne {pc : Nat → Pc} {t t' : Nat} {c x : Pc} (hne : c ≠ x)
    (h : Function.update pc t c t' = x) : t' ≠ t ∧ pc t' = x :=
  (pc_update h).resolve_left fun hstep => hne hstep.2

/-- A thread that was not clearing a unit adds at most the one that it clears now. -/
theorem held_update_pc {s : Sys} {t : Nat} (hold : ∀ size u p, s.pc t ≠ .clearing size u p)
    (pool : Pool) (c : Pc) (u : UnitSize) (p : Nat) :
    Held { s with pool, pc := Function.update s.pc t c } u p ↔
      Held s u p ∨ ∃ size, c = .clearing size u p := by
  constructor
  · rintro (hlive | ⟨t', size, hpc⟩)
    · exact .inl (.inl hlive)
    · obtain ⟨-, hc⟩ | ⟨-, hpc⟩ := pc_update hpc
      · exact .inr ⟨size, hc⟩
      · exact .inl (.inr ⟨t', size, hpc⟩)
  · rintro ((hlive | ⟨t', size, hpc⟩) | ⟨size, rfl⟩)
    · exact .inl hlive
    · have ht : t' ≠ t := by
        rintro rfl
        exact hold size u p hpc
      exact .inr ⟨t', size, (Function.update_of_ne ht ..).trans hpc⟩
    · exact .inr ⟨t, size, Function.update_self ..⟩

/-- The pool with another list of a size. -/
def Pool.relist (g : Pool) (u : UnitSize) (nFree nFirst : Nat) (mem : Memory UInt8) : Pool :=
  { g with mem, blk := Function.update g.blk u { g.blk u with nFree, nFirst } }

theorem relist_blk_self (g : Pool) (u : UnitSize) (nFree nFirst : Nat) (mem : Memory UInt8) :
    (g.relist u nFree nFirst mem).blk u = { g.blk u with nFree, nFirst } :=
  Function.update_self ..

theorem relist_blk_of_ne (g : Pool) {u u' : UnitSize} (h : u' ≠ u) (nFree nFirst : Nat)
    (mem : Memory UInt8) : (g.relist u nFree nFirst mem).blk u' = g.blk u' :=
  Function.update_of_ne h ..

theorem relist_geometry {g : Pool} (h : g.Geometry) (u : UnitSize) (nFree nFirst : Nat)
    (mem : Memory UInt8) : (g.relist u nFree nFirst mem).Geometry := by
  have hblk (u' : UnitSize) : ∃ n first,
      (g.relist u nFree nFirst mem).blk u' = { g.blk u' with nFree := n, nFirst := first } := by
    by_cases hu : u' = u
    · subst hu
      exact ⟨nFree, nFirst, relist_blk_self ..⟩
    · exact ⟨(g.blk u').nFree, (g.blk u').nFirst, relist_blk_of_ne g hu ..⟩
  refine ⟨h.vrt_pos, h.num_le, fun u' => ?_, fun u' => ?_, fun u' => ?_⟩
  all_goals obtain ⟨_, _, heq⟩ := hblk u'
  · rw [heq]
    exact h.nUnitSize u'
  · rw [heq]
    exact h.pStartAddr u'
  · rw [heq]
    exact h.nSize u'

theorem Pool.Geometry.withMem {g : Pool} (h : g.Geometry) (mem : Memory UInt8) :
    ({ g with mem } : Pool).Geometry :=
  ⟨h.vrt_pos, h.num_le, h.nUnitSize, h.pStartAddr, h.nSize⟩

/-- A thread that neither has a unit to clear nor gets one. -/
theorem Inv.move {s : Sys} (hs : Inv s) {t : Nat} {c : Pc}
    (hold : ∀ size u p, s.pc t ≠ .clearing size u p) (hnew : ∀ size u p, c ≠ .clearing size u p)
    (hfit : ∀ size sizes, c = .trying size sizes → ∀ u ∈ sizes, size ≤ u.bytes) :
    Inv { s with pc := Function.update s.pc t c } := by
  have hclear {t' size : Nat} {u : UnitSize} {p : Nat}
      (h : Function.update s.pc t c t' = .clearing size u p) : s.pc t' = .clearing size u p :=
    (pc_update_ne (hnew size u p) h).2
  refine ⟨hs.geometry, fun u => ?_, hs.live_unit, hs.live_nodup,
    fun t' size u p h => hs.clearing_unit t' size u p (hclear h),
    fun t' t'' size size' u p h h' => hs.clearing_one t' t'' size size' u p (hclear h) (hclear h'),
    fun t' size sizes h => ?_, hs.data⟩
  · obtain ⟨free, hfree⟩ := hs.free u
    refine ⟨free, hfree.congr (fun _ => rfl) rfl rfl (fun _ _ => rfl) fun i _ => ?_⟩
    rw [held_update_pc hold]
    exact or_iff_left fun ⟨size, hc⟩ => hnew _ _ _ hc
  · obtain ⟨-, hc⟩ | ⟨-, hpc⟩ := pc_update h
    · exact hfit size sizes hc
    · exact hs.trying t' size sizes hpc

/-- A size without free units has all its units held; of another the first free unit is taken. -/
theorem takeUnit_spec {s : Sys} (hs : Inv s) (u : UnitSize) :
    (takeUnit u s.pool = (none, s.pool) ∧ ∀ i, i < s.pool.num u → Held s u (s.pool.addr u i)) ∨
    ∃ i free, FreeList s u (i :: free) ∧
      takeUnit u s.pool = (some (s.pool.addr u i),
        s.pool.relist u free.length (readU16 s.pool.mem (s.pool.addr u i)) s.pool.mem) := by
  obtain ⟨free, hfree⟩ := hs.free u
  cases free with
  | nil =>
    refine .inl ⟨if_pos hfree.nFree, fun i hi => ?_⟩
    by_contra hnot
    exact List.not_mem_nil ((hfree.mem_iff i).mpr ⟨hi, hnot⟩)
  | cons i free =>
    have hfirst : (s.pool.blk u).nFirst = i := hfree.chain.1
    have haddr : (s.pool.blk u).pStartAddr + (s.pool.blk u).nFirst * (s.pool.blk u).nUnitSize =
        s.pool.addr u i := by
      rw [hs.geometry.pStartAddr, hs.geometry.nUnitSize, hfirst, Pool.addr, Nat.zero_mul,
        Nat.add_zero, Pool.addr]
    have hcount : (s.pool.blk u).nFree - 1 = free.length := by
      rw [hfree.nFree, List.length_cons, Nat.add_sub_cancel]
    have hsome : (s.pool.blk u).nFree ≠ 0 := by
      rw [hfree.nFree, List.length_cons]
      exact Nat.succ_ne_zero _
    refine .inr ⟨i, free, hfree, ?_⟩
    simp only [takeUnit, if_neg hsome, haddr, hcount, Pool.relist]

/-- The list of a size without its first unit. -/
theorem FreeList.tail {s s' : Sys} {u : UnitSize} {i : Nat} {free : List Nat}
    (h : FreeList s u (i :: free))
    (hpool : s'.pool =
      s.pool.relist u free.length (readU16 s.pool.mem (s.pool.addr u i)) s.pool.mem)
    (hheld : ∀ p, Held s' u p ↔ Held s u p ∨ p = s.pool.addr u i) : FreeList s' u free := by
  obtain ⟨hnotin, hnodup⟩ := List.nodup_cons.mp h.nodup
  obtain ⟨hi, -⟩ := (h.mem_iff i).mp List.mem_cons_self
  refine ⟨?_, ?_, hnodup, fun j => ?_⟩
  · rw [hpool, relist_blk_self]
  · rw [hpool, relist_blk_self]
    exact h.chain.2.congr (fun _ => rfl) fun _ _ => rfl
  · rw [hpool, hheld, not_or]
    change j ∈ free ↔ j < s.pool.num u ∧ ¬ Held s u (s.pool.addr u j) ∧ s.pool.addr u j ≠ _
    constructor
    · intro hj
      obtain ⟨hlt, hnot⟩ := (h.mem_iff j).mp (List.mem_cons_of_mem i hj)
      refine ⟨hlt, hnot, fun heq => hnotin ?_⟩
      rwa [← (addr_inj s.pool hlt hi heq).2]
    · rintro ⟨hlt, hnot, hne⟩
      obtain rfl | hj := List.mem_cons.mp ((h.mem_iff j).mpr ⟨hlt, hnot⟩)
      · exact absurd rfl hne
      · exact hj

/-- A thread takes the first free unit. -/
theorem Inv.take {s : Sys} (hs : Inv s) {t size i : Nat} {u : UnitSize} {free : List Nat}
    (hold : ∀ size u p, s.pc t ≠ .clearing size u p) (hfree : FreeList s u (i :: free))
    (hsize : size ≤ u.bytes) :
    Inv { s with
      pool := s.pool.relist u free.length (readU16 s.pool.mem (s.pool.addr u i)) s.pool.mem
      pc := Function.update s.pc t (.clearing size u (s.pool.addr u i)) } := by
  obtain ⟨hi, hnot⟩ := (hfree.mem_iff i).mp List.mem_cons_self
  refine ⟨relist_geometry hs.geometry .., fun u' => ?_, hs.live_unit, hs.live_nodup,
    fun t' size' u' p h => ?_, fun t' t'' size' size'' u' p h h' => ?_, fun t' size' sizes h => ?_,
    hs.data⟩
  · by_cases hu : u' = u
    · subst hu
      refine ⟨free, hfree.tail rfl fun p => ?_⟩
      rw [held_update_pc hold]
      exact or_congr_right
        ⟨fun ⟨size', hc⟩ => (Pc.clearing.inj hc).2.2.symm, fun hp => ⟨size, by rw [hp]⟩⟩
    · obtain ⟨free', hfree'⟩ := hs.free u'
      refine ⟨free', hfree'.congr (fun _ => rfl) rfl (relist_blk_of_ne s.pool hu ..)
        (fun _ _ => rfl) fun j _ => ?_⟩
      rw [held_update_pc hold]
      exact or_iff_left fun ⟨size', hc⟩ => hu (Pc.clearing.inj hc).2.1.symm
  · obtain ⟨-, hc⟩ | ⟨-, hpc⟩ := pc_update h
    · cases hc
      exact ⟨⟨i, hi, rfl⟩, fun hlive => hnot (.inl hlive), hsize⟩
    · exact hs.clearing_unit t' size' u' p hpc
  · obtain ⟨ht, hc⟩ | ⟨-, hpc⟩ := pc_update h
    · cases hc
      obtain ⟨ht', -⟩ | ⟨-, hpc'⟩ := pc_update h'
      · rw [ht, ht']
      · exact absurd (.inr ⟨t'', size'', hpc'⟩) hnot
    · obtain ⟨-, hc⟩ | ⟨-, hpc'⟩ := pc_update h'
      · cases hc
        exact absurd (.inr ⟨t', size', hpc⟩) hnot
      · exact hs.clearing_one t' t'' size' size'' u' p hpc hpc'
  · exact hs.trying t' size' sizes (pc_update_ne Pc.noConfusion h).2

/-- A write that no free unit sees keeps the lists. -/
theorem FreeList.write {s s' : Sys} (hs : Inv s) {u u' : UnitSize} {free : List Nat} {p a : Nat}
    {bs : List UInt8} (h : FreeList s u free) (hheld : Held s u' p) (hlo : p ≤ a)
    (hhi : a + bs.length ≤ p + u'.bytes)
    (hpool : s'.pool = { s.pool with mem := s.pool.mem.write a bs })
    (hsame : ∀ u p, Held s' u p ↔ Held s u p) : FreeList s' u free := by
  refine h.congr (fun i => by rw [hpool]; rfl) (by rw [hpool]; rfl) (by rw [hpool])
    (fun i hi => ?_) fun i _ => hsame u _
  have hapart := h.disjoint_held hi hheld hs
  have hbytes := u.bytes_ge
  rw [hpool, readU16_write_disjoint s.pool.mem bs (by omega)]

/-- The same write to two memories that agree at an address. -/
theorem write_congr {m m' : Memory UInt8} {i : Nat} (h : m i = m' i) (a : Nat) (bs : List UInt8) :
    m.write a bs i = m'.write a bs i := by
  simp only [Memory.write, h]

/-- A unit that is returned is held as before, by another. -/
theorem held_finish {s : Sys} {t size p : Nat} {u : UnitSize} (hpc : s.pc t = .clearing size u p)
    (pool : Pool) (data : Memory UInt8) (u' : UnitSize) (p' : Nat) :
    Held { pool, pc := Function.update s.pc t .idle, live := (u, p) :: s.live, data } u' p' ↔
      Held s u' p' := by
  constructor
  · rintro (hlive | ⟨t', size', h⟩)
    · obtain heq | hlive := List.mem_cons.mp hlive
      · cases heq
        exact .inr ⟨t, size, hpc⟩
      · exact .inl hlive
    · exact .inr ⟨t', size', (pc_update_ne Pc.noConfusion h).2⟩
  · rintro (hlive | ⟨t', size', h⟩)
    · exact .inl (List.mem_cons_of_mem _ hlive)
    · by_cases ht : t' = t
      · subst ht
        cases hpc.symm.trans h
        exact .inl List.mem_cons_self
      · exact .inr ⟨t', size', (Function.update_of_ne ht ..).trans h⟩

/-- A thread clears its unit and returns it. -/
theorem Inv.finish {s : Sys} (hs : Inv s) {t size p : Nat} {u : UnitSize}
    (hpc : s.pc t = .clearing size u p) :
    Inv { pool := clearUnit u p s.pool
          pc := Function.update s.pc t .idle
          live := (u, p) :: s.live
          data := clear s.data p u.bytes } := by
  obtain ⟨hunit, hnotlive, -⟩ := hs.clearing_unit t size u p hpc
  have hpool : clearUnit u p s.pool = { s.pool with
      mem := s.pool.mem.write p (List.replicate u.bytes 0) } := by
    rw [clearUnit, clear, hs.geometry.nUnitSize]
  have hclear {t' size' : Nat} {u' : UnitSize} {p' : Nat}
      (h : Function.update s.pc t .idle t' = .clearing size' u' p') :
      t' ≠ t ∧ s.pc t' = .clearing size' u' p' := pc_update_ne Pc.noConfusion h
  refine ⟨?_, fun u' => ?_, fun u' p' h => ?_, List.nodup_cons.mpr ⟨hnotlive, hs.live_nodup⟩,
    fun t' size' u' p' h => ?_, fun t' t'' size' size'' u' p' h h' => ?_,
    fun t' size' sizes h => ?_, fun u' p' h k hk => ?_⟩
  · rw [hpool]
    exact hs.geometry.withMem _
  · obtain ⟨free, hfree⟩ := hs.free u'
    exact ⟨free, hfree.write hs (.inr ⟨t, size, hpc⟩) (Nat.le_refl p)
      (Nat.le_of_eq (by rw [List.length_replicate])) hpool (held_finish hpc _ _)⟩
  · rw [hpool]
    obtain heq | hlive := List.mem_cons.mp h
    · cases heq
      exact hunit
    · exact hs.live_unit u' p' hlive
  · obtain ⟨ht, h⟩ := hclear h
    obtain ⟨hunit', hnotlive', hsize⟩ := hs.clearing_unit t' size' u' p' h
    refine ⟨by rw [hpool]; exact hunit', fun hlive => ?_, hsize⟩
    obtain heq | hlive := List.mem_cons.mp hlive
    · cases heq
      exact ht (hs.clearing_one t' t size' size u p h hpc)
    · exact hnotlive' hlive
  · exact hs.clearing_one t' t'' size' size'' u' p' (hclear h).2 (hclear h').2
  · exact hs.trying t' size' sizes (pc_update_ne Pc.noConfusion h).2
  · rw [hpool]
    obtain heq | hlive := List.mem_cons.mp h
    · cases heq
      have hlen : k < (List.replicate u.bytes (0 : UInt8)).length := by
        rwa [List.length_replicate]
      exact (Memory.write_apply_add _ p _ hlen).trans (Memory.write_apply_add _ p _ hlen).symm
    · exact write_congr (hs.data u' p' hlive k hk) p _

/-- An owner writes into its unit. -/
theorem Inv.write {s : Sys} (hs : Inv s) {u : UnitSize} {p a : Nat} (hlive : (u, p) ∈ s.live)
    (hlo : p ≤ a) (hhi : a < p + u.bytes) (b : UInt8) :
    Inv { s with
      pool := { s.pool with mem := s.pool.mem.set a b }
      data := s.data.set a b } := by
  have hset (m : Memory UInt8) : m.set a b = m.write a [b] := by
    rw [Memory.write_cons, Memory.write_nil]
  rw [hset, hset]
  refine ⟨hs.geometry.withMem _, fun u' => ?_, hs.live_unit, hs.live_nodup,
    hs.clearing_unit, hs.clearing_one, hs.trying, fun u' p' h k hk => ?_⟩
  · obtain ⟨free, hfree⟩ := hs.free u'
    exact ⟨free, hfree.write hs (.inl hlive) hlo (show a + [b].length ≤ p + u.bytes from hhi) rfl
      fun _ _ => Iff.rfl⟩
  · exact write_congr (hs.data u' p' h k hk) a [b]

theorem FreeList.length_le_num {s : Sys} {u : UnitSize} {free : List Nat} (h : FreeList s u free) :
    free.length ≤ s.pool.num u := by
  have hsub : free ⊆ List.range (s.pool.num u) := fun i hi =>
    List.mem_range.mpr ((h.mem_iff i).mp hi).1
  have hlen := h.nodup.length_le_of_subset hsub
  rwa [List.length_range] at hlen

/-- A pointer is in the block of its size. -/
theorem freeUnit_unit {s : Sys} (hs : Inv s) {u : UnitSize} {i : Nat} {free : List Nat}
    (hfree : FreeList s u free) (hi : i < s.pool.num u) :
    freeUnit u (s.pool.addr u i) s.pool = some (s.pool.relist u (free.length + 1) i
      (writeU16 s.pool.mem (s.pool.addr u i) (s.pool.blk u).nFirst)) := by
  have hlo := addr_mono s.pool u (Nat.zero_le i)
  have hhi := addr_mono s.pool u (show i + 1 ≤ s.pool.num u from hi)
  have hend : s.pool.addr u (s.pool.num u) = s.pool.addr u 0 + s.pool.num u * u.bytes := by
    rw [Pool.addr, Pool.addr, Nat.zero_mul, Nat.add_zero]
  have hoff : s.pool.addr u i - s.pool.addr u 0 = i * u.bytes := by
    rw [Pool.addr, Pool.addr, Nat.zero_mul, Nat.add_zero, Nat.add_sub_cancel_left]
  have hbytes := u.bytes_ge
  have hnum := hs.geometry.num_le u
  have hcount : free.length ≤ 615 := Nat.le_trans hfree.length_le_num hnum
  have hin : ¬ (s.pool.addr u i < s.pool.addr u 0 ∨
      s.pool.addr u i ≥ s.pool.addr u 0 + s.pool.num u * u.bytes) := by
    rw [addr_succ] at hhi
    omega
  have hindex : i * u.bytes / u.bytes % 2 ^ 16 = i := by
    rw [Nat.mul_div_cancel i (by omega), Nat.mod_eq_of_lt (by omega)]
  have hfreeNum : (free.length + 1) % 2 ^ 16 = free.length + 1 := Nat.mod_eq_of_lt (by omega)
  simp only [freeUnit, hs.geometry.pStartAddr, hs.geometry.nSize, hs.geometry.nUnitSize,
    hfree.nFree, if_neg hin, hoff, hindex, hfreeNum, Pool.relist]

/-- A pointer is in no other block. -/
theorem freeUnit_other {s : Sys} (hs : Inv s) {u u' : UnitSize} (hu : u' ≠ u) {i : Nat}
    (hi : i < s.pool.num u) : freeUnit u' (s.pool.addr u i) s.pool = none := by
  have hlo := addr_mono s.pool u (Nat.zero_le i)
  have hhi := addr_mono s.pool u (show i + 1 ≤ s.pool.num u from hi)
  have hend : s.pool.addr u' (s.pool.num u') = s.pool.addr u' 0 + s.pool.num u' * u'.bytes := by
    rw [Pool.addr, Pool.addr, Nat.zero_mul, Nat.add_zero]
  have hbytes := u.bytes_ge
  rw [addr_succ] at hhi
  have hout : s.pool.addr u i < s.pool.addr u' 0 ∨
      s.pool.addr u i ≥ s.pool.addr u' 0 + s.pool.num u' * u'.bytes := by
    obtain h | h := addr_apart s.pool hu <;> omega
  rw [freeUnit, hs.geometry.pStartAddr, hs.geometry.nSize, if_pos hout]

/-- `wfree` of a unit finds its block. -/
theorem wfree_unit {s : Sys} (hs : Inv s) {u : UnitSize} {i : Nat} {free : List Nat}
    (hfree : FreeList s u free) (hi : i < s.pool.num u) :
    wfree (s.pool.addr u i) s.pool = some (s.pool.relist u (free.length + 1) i
      (writeU16 s.pool.mem (s.pool.addr u i) (s.pool.blk u).nFirst)) := by
  have hloop (us : List UnitSize) (hmem : u ∈ us) :
      wfreeFrom (s.pool.addr u i) us s.pool = some (s.pool.relist u (free.length + 1) i
        (writeU16 s.pool.mem (s.pool.addr u i) (s.pool.blk u).nFirst)) := by
    induction us with
    | nil => cases hmem
    | cons u' us ih =>
      by_cases hu : u' = u
      · rw [wfreeFrom, hu, freeUnit_unit hs hfree hi]
      · rw [wfreeFrom, freeUnit_other hs hu hi]
        exact ih ((List.mem_cons.mp hmem).resolve_left (Ne.symm hu))
  exact hloop _ (by cases u <;> decide)

/-- The list of a size with one unit more. -/
theorem FreeList.cons {s s' : Sys} (hs : Inv s) {u : UnitSize} {i : Nat} {free : List Nat}
    (h : FreeList s u free) (hi : i < s.pool.num u) (hmine : Held s u (s.pool.addr u i))
    (hpool : s'.pool = s.pool.relist u (free.length + 1) i
      (writeU16 s.pool.mem (s.pool.addr u i) (s.pool.blk u).nFirst))
    (hheld : ∀ p, Held s' u p ↔ Held s u p ∧ p ≠ s.pool.addr u i) : FreeList s' u (i :: free) := by
  have hbytes := u.bytes_ge
  refine ⟨?_, ?_, List.nodup_cons.mpr ⟨fun hin => ?_, h.nodup⟩, fun j => ?_⟩
  · rw [hpool, relist_blk_self]
    rfl
  · rw [hpool, relist_blk_self]
    refine ⟨rfl, ?_⟩
    cases free with
    | nil => trivial
    | cons j free =>
      have hfirst : (s.pool.blk u).nFirst = j := h.chain.1
      have hj := ((h.mem_iff j).mp List.mem_cons_self).1
      have hnum := hs.geometry.num_le u
      change Chain _ u (readU16 (writeU16 s.pool.mem (s.pool.addr u i) _) (s.pool.addr u i)) _
      rw [readU16_writeU16 s.pool.mem _ (by omega)]
      refine h.chain.congr (fun _ => rfl) fun k hk => ?_
      have hapart := h.disjoint_held hk hmine hs
      exact readU16_write_disjoint s.pool.mem _ (by rw [length_le]; omega)
  · exact ((h.mem_iff i).mp hin).2 hmine
  · rw [hpool, hheld, List.mem_cons, h.mem_iff]
    change _ ↔ j < s.pool.num u ∧ ¬ (Held s u (s.pool.addr u j) ∧ s.pool.addr u j ≠ _)
    constructor
    · rintro (rfl | ⟨hj, hnot⟩)
      · exact ⟨hi, fun hboth => hboth.2 rfl⟩
      · exact ⟨hj, fun hboth => hnot hboth.1⟩
    · rintro ⟨hj, hnot⟩
      by_cases hij : j = i
      · exact .inl hij
      · refine .inr ⟨hj, fun hboth => hnot ⟨hboth, fun heq => hij ?_⟩⟩
        exact (addr_inj s.pool hj hi heq).2

/-- An owner frees its unit. -/
theorem Inv.release {s : Sys} (hs : Inv s) {u : UnitSize} {p : Nat} (hlive : (u, p) ∈ s.live) :
    ∃ pool, wfree p s.pool = some pool ∧
      Inv { s with pool, live := s.live.filter fun l => l.2 ≠ p } := by
  obtain ⟨i, hi, rfl⟩ := hs.live_unit u p hlive
  obtain ⟨free, hfree⟩ := hs.free u
  have hheld (u' : UnitSize) (p' : Nat) :
      Held { s with live := s.live.filter fun l => l.2 ≠ s.pool.addr u i } u' p' ↔
        Held s u' p' ∧ p' ≠ s.pool.addr u i := by
    constructor
    · rintro (hlive' | ⟨t, size, hpc⟩)
      · obtain ⟨hlive', hne⟩ := List.mem_filter.mp hlive'
        exact ⟨.inl hlive', of_decide_eq_true hne⟩
      · obtain ⟨hunit, hnotlive, -⟩ := hs.clearing_unit t size u' p' hpc
        refine ⟨.inr ⟨t, size, hpc⟩, ?_⟩
        rintro rfl
        cases hunit.size_eq ⟨i, hi, rfl⟩
        exact hnotlive hlive
    · rintro ⟨hlive' | hpc, hne⟩
      · exact .inl (List.mem_filter.mpr ⟨hlive', decide_eq_true hne⟩)
      · exact .inr hpc
  refine ⟨_, wfree_unit hs hfree hi, relist_geometry hs.geometry .., fun u' => ?_,
    fun u' p' h => hs.live_unit u' p' (List.mem_filter.mp h).1,
    hs.live_nodup.filter _, fun t size u' p' hpc => ?_, hs.clearing_one, hs.trying,
    fun u' p' h k hk => ?_⟩
  · by_cases hu : u' = u
    · subst hu
      exact ⟨i :: free, hfree.cons hs hi (.inl hlive) rfl (hheld u')⟩
    · obtain ⟨free', hfree'⟩ := hs.free u'
      refine ⟨free', hfree'.congr (fun _ => rfl) rfl (relist_blk_of_ne s.pool hu ..)
        (fun j hj => ?_) fun j hj => ?_⟩
      · have hapart := hfree'.disjoint_held hj (.inl hlive) hs
        have hbytes := u.bytes_ge
        have hbytes' := u'.bytes_ge
        exact readU16_write_disjoint s.pool.mem _ (by rw [length_le]; omega)
      · exact (hheld u' _).trans (and_iff_left fun heq => hu (addr_inj s.pool hj hi heq).1)
  · obtain ⟨hunit, hnotlive, hsize⟩ := hs.clearing_unit t size u' p' hpc
    exact ⟨hunit, fun h => hnotlive (List.mem_filter.mp h).1, hsize⟩
  · obtain ⟨hlive', hne⟩ := List.mem_filter.mp h
    have hne' : p' ≠ s.pool.addr u i := of_decide_eq_true hne
    have hapart := (hs.live_unit u' p' hlive').disjoint (hs.live_unit u _ hlive)
      fun heq => hne' (Prod.mk.inj heq).2
    have hbytes := u.bytes_ge
    rw [← hs.data u' p' hlive' k hk]
    exact Memory.write_apply_of_notMem s.pool.mem _ (by rw [length_le]; omega)

/-! ## Runs -/

/-- What the owners keep to: they write into units that they have and free what they have. -/
def Allowed (s : Sys) : Event → Prop
  | .write a _ => ∃ l ∈ s.live, l.2 ≤ a ∧ a < l.2 + l.1.bytes
  | .free ptr => ∃ l ∈ s.live, l.2 = ptr
  | _ => True

instance (s : Sys) : (e : Event) → Decidable (Allowed s e)
  | .write a _ => inferInstanceAs (Decidable (∃ l ∈ s.live, l.2 ≤ a ∧ a < l.2 + l.1.bytes))
  | .free ptr => inferInstanceAs (Decidable (∃ l ∈ s.live, l.2 = ptr))
  | .call .. => inferInstanceAs (Decidable True)
  | .lock _ => inferInstanceAs (Decidable True)
  | .finish _ => inferInstanceAs (Decidable True)

/-- The sizes that `wmalloc` refuses. -/
theorem wmallocSizes_eq_none_iff (size : Nat) :
    wmallocSizes size = none ↔ 2048 < size ∨ size = 0 := by
  rw [wmallocSizes]
  split
  · rename_i h
    exact iff_of_true rfl h
  · rename_i h
    refine iff_of_false ?_ h
    split
    · exact Option.some_ne_none _
    · split
      · exact Option.some_ne_none _
      · split <;> exact Option.some_ne_none _

/-- The units that `wmalloc` tries are those that are large enough. -/
theorem wmallocSizes_fit {size : Nat} {sizes : List UnitSize} (h : wmallocSizes size = some sizes)
    (u : UnitSize) : u ∈ sizes ↔ size ≤ u.bytes := by
  have hok : ¬ (2048 < size ∨ size = 0) := fun hbad => by
    rw [(wmallocSizes_eq_none_iff size).mpr hbad] at h
    cases h
  rw [wmallocSizes, if_neg hok] at h
  split at h
  · cases h
    cases u <;> simp [UnitSize.bytes] <;> omega
  · split at h
    · cases h
      cases u <;> simp [UnitSize.bytes] <;> omega
    · split at h
      · cases h
        cases u <;> simp [UnitSize.bytes] <;> omega
      · cases h
        cases u <;> simp [UnitSize.bytes] <;> omega

/-- A pointer is new to everybody when it is returned, and its unit is cleared and large
    enough. -/
structure Fresh (s s' : Sys) (size : Nat) (u : UnitSize) (p : Nat) : Prop where
  live : s'.live = (u, p) :: s.live
  apart : ∀ l ∈ s.live, p + u.bytes ≤ l.2 ∨ l.2 + l.1.bytes ≤ p
  size_le : size ≤ u.bytes
  cleared : s'.pool.mem.read p u.bytes = List.replicate u.bytes 0

/-- What a step returns is fresh. -/
def StepFresh (s : Sys) (e : Event) : Prop :=
  ∀ size p, (step s e).2 = some ⟨size, some p⟩ → ∃ u, Fresh s (step s e).1 size u p

theorem returns_nothing {Q : Nat → Nat → Prop} (size p : Nat)
    (h : (none : Option Returned) = some ⟨size, some p⟩) : Q size p := by
  cases h

theorem returns_null {Q : Nat → Nat → Prop} {n : Nat} (size p : Nat)
    (h : some (⟨n, none⟩ : Returned) = some ⟨size, some p⟩) : Q size p := by
  cases h

theorem step_lock {s : Sys} (hs : Inv s) (t : Nat) :
    StepFresh s (.lock t) ∧ Inv (step s (.lock t)).1 := by
  simp only [StepFresh, step]
  split
  · rename_i size hpc
    refine ⟨returns_null, hs.move (fun _ _ _ hc => ?_) (fun _ _ _ hc => ?_) fun _ _ hc => ?_⟩
    · cases hpc.symm.trans hc
    · cases hc
    · cases hc
  · rename_i size u us hpc
    have hold (size' : Nat) (u' : UnitSize) (p' : Nat) : s.pc t ≠ .clearing size' u' p' :=
      fun hc => by cases hpc.symm.trans hc
    have hfit := hs.trying t size (u :: us) hpc
    obtain ⟨htake, -⟩ | ⟨i, free, hfree, htake⟩ := takeUnit_spec hs u
    · rw [htake]
      refine ⟨returns_nothing, hs.move hold (fun _ _ _ hc => ?_) fun size' sizes hc u' hu' => ?_⟩
      · cases hc
      · cases hc
        exact hfit u' (List.mem_cons_of_mem _ hu')
    · rw [htake]
      exact ⟨returns_nothing, hs.take hold hfree (hfit u List.mem_cons_self)⟩
  · exact ⟨returns_nothing, hs⟩

theorem step_finish {s : Sys} (hs : Inv s) (t : Nat) :
    StepFresh s (.finish t) ∧ Inv (step s (.finish t)).1 := by
  simp only [StepFresh, step]
  split
  · rename_i size u pFree hpc
    refine ⟨fun size' p heq => ?_, hs.finish hpc⟩
    cases heq
    obtain ⟨hunit, hnotlive, hsize⟩ := hs.clearing_unit t size u pFree hpc
    refine ⟨u, rfl, fun l hl => ?_, hsize, ?_⟩
    · exact hunit.disjoint (hs.live_unit l.1 l.2 hl) fun heq => hnotlive (heq ▸ hl)
    · have hread := Memory.read_write_self s.pool.mem pFree (List.replicate u.bytes 0)
      rw [List.length_replicate] at hread
      rw [clearUnit, clear, hs.geometry.nUnitSize]
      exact hread
  · exact ⟨returns_nothing, hs⟩

/-- Every step of the threads and the owners keeps the invariant. -/
theorem inv_step {s : Sys} {e : Event} (hs : Inv s) (h : Allowed s e) :
    StepFresh s e ∧ Inv (step s e).1 := by
  cases e with
  | call t size =>
    simp only [StepFresh, step]
    split
    · exact ⟨returns_null, hs⟩
    · rename_i sizes hpc hsizes
      refine ⟨returns_nothing, hs.move (fun _ _ _ hc => ?_) (fun _ _ _ hc => ?_)
        fun size' sizes' hc u hu => ?_⟩
      · cases hpc.symm.trans hc
      · cases hc
      · cases hc
        exact (wmallocSizes_fit hsizes u).mp hu
    · exact ⟨returns_nothing, hs⟩
  | lock t => exact step_lock hs t
  | finish t => exact step_finish hs t
  | write a b =>
    obtain ⟨⟨u, p⟩, hlive, hlo, hhi⟩ := h
    exact ⟨returns_nothing, hs.write hlive hlo hhi b⟩
  | free ptr =>
    obtain ⟨⟨u, p⟩, hlive, rfl⟩ := h
    obtain ⟨pool, hfree, hinv⟩ := hs.release hlive
    simp only [StepFresh, step]
    rw [hfree]
    exact ⟨returns_nothing, hinv⟩

/-- Where the pool lies. -/
def Pool.place (g : Pool) : Nat × Nat × Nat := (g.phys, g.vrt, g.tdeBuf)

theorem freeUnit_place {g g' : Pool} {u : UnitSize} {ptr : Nat} (h : freeUnit u ptr g = some g') :
    g'.place = g.place := by
  simp only [freeUnit] at h
  split at h
  · cases h
  · cases h
    rfl

theorem wfreeFrom_place {g g' : Pool} {us : List UnitSize} {ptr : Nat}
    (h : wfreeFrom ptr us g = some g') : g'.place = g.place := by
  induction us with
  | nil => cases h
  | cons u us ih =>
    simp only [wfreeFrom] at h
    split at h
    · rename_i hfree
      cases h
      exact freeUnit_place hfree
    · exact ih h

/-- The pool stays where it is. -/
theorem step_place (s : Sys) (e : Event) : (step s e).1.pool.place = s.pool.place := by
  cases e with
  | call t size =>
    simp only [step]
    split <;> rfl
  | lock t =>
    simp only [step, takeUnit]
    split
    · rfl
    · split
      · rename_i h
        split at h <;> cases h
        rfl
      · rename_i h
        split at h <;> cases h
        rfl
    · rfl
  | finish t =>
    simp only [step]
    split <;> rfl
  | write a b => rfl
  | free ptr =>
    simp only [step]
    split
    · rename_i hfree
      exact wfreeFrom_place hfree
    · rfl

theorem final_place (s : Sys) (es : List Event) :
    (wmMachine.final s es).pool.place = s.pool.place :=
  Machine.invariant (M := wmMachine) (P := fun _ _ => True)
    (I := fun s' => s'.pool.place = s.pool.place)
    (fun s' e h _ => (step_place s' e).trans h) rfl (wmMachine.always_true s es)

theorem final_vrt {cfg phys vrt : Nat} {mem : Memory UInt8} {pool : Pool}
    (hinit : wmeminit cfg phys vrt mem = some pool) (hvrt : 0 < vrt) (es : List Event) :
    (wmMachine.final (start pool) es).pool.vrt = vrt :=
  (congrArg (fun p => p.2.1) (final_place (start pool) es)).trans (wmeminit_spec hinit hvrt).1.2.1

theorem final_tdeBuf {cfg phys vrt : Nat} {mem : Memory UInt8} {pool : Pool}
    (hinit : wmeminit cfg phys vrt mem = some pool) (hvrt : 0 < vrt) (es : List Event) :
    (wmMachine.final (start pool) es).pool.tdeBuf = tdeBufOf cfg :=
  (congrArg (fun p => p.2.2) (final_place (start pool) es)).trans (wmeminit_spec hinit hvrt).1.2.2

/-- While no thread clears a unit, those that are not free have been returned. -/
theorem Inv.count {s : Sys} (hs : Inv s) (hidle : ∀ t size u p, s.pc t ≠ .clearing size u p)
    (u : UnitSize) :
    (s.pool.blk u).nFree + (s.live.filter fun l => l.1 = u).length = s.pool.num u := by
  obtain ⟨free, hfree⟩ := hs.free u
  have hfreeNodup : (free.map (s.pool.addr u)).Nodup :=
    List.Nodup.map_on (fun i hi j hj heq =>
      (addr_inj s.pool ((hfree.mem_iff i).mp hi).1 ((hfree.mem_iff j).mp hj).1 heq).2) hfree.nodup
  have hliveNodup : ((s.live.filter fun l => l.1 = u).map Prod.snd).Nodup := by
    refine List.Nodup.map_on (fun l hl l' hl' heq => Prod.ext ?_ heq) (hs.live_nodup.filter _)
    have hl := of_decide_eq_true (List.mem_filter.mp hl).2
    have hl' := of_decide_eq_true (List.mem_filter.mp hl').2
    exact hl.trans hl'.symm
  have hallNodup : ((List.range (s.pool.num u)).map (s.pool.addr u)).Nodup :=
    List.Nodup.map_on (fun i hi j hj heq =>
      (addr_inj s.pool (List.mem_range.mp hi) (List.mem_range.mp hj) heq).2) List.nodup_range
  have hlive (p : Nat) : p ∈ (s.live.filter fun l => l.1 = u).map Prod.snd ↔ Held s u p := by
    constructor
    · intro hp
      obtain ⟨l, hl, rfl⟩ := List.mem_map.mp hp
      obtain ⟨hlive, hu⟩ := List.mem_filter.mp hl
      exact .inl (of_decide_eq_true hu ▸ hlive)
    · rintro (hl | ⟨t, size, hpc⟩)
      · exact List.mem_map.mpr ⟨(u, p), List.mem_filter.mpr ⟨hl, decide_eq_true rfl⟩, rfl⟩
      · exact absurd hpc (hidle t size u p)
  have hapart (p : Nat) (hp : p ∈ free.map (s.pool.addr u)) : ¬ Held s u p := by
    obtain ⟨i, hi, rfl⟩ := List.mem_map.mp hp
    exact ((hfree.mem_iff i).mp hi).2
  have hmem (p : Nat) :
      p ∈ free.map (s.pool.addr u) ++ (s.live.filter fun l => l.1 = u).map Prod.snd ↔
      p ∈ (List.range (s.pool.num u)).map (s.pool.addr u) := by
    rw [List.mem_append, hlive]
    constructor
    · rintro (hp | hheld)
      · obtain ⟨i, hi, rfl⟩ := List.mem_map.mp hp
        exact List.mem_map_of_mem (List.mem_range.mpr ((hfree.mem_iff i).mp hi).1)
      · obtain ⟨i, hi, rfl⟩ := hs.held_unit hheld
        exact List.mem_map_of_mem (List.mem_range.mpr hi)
    · intro hp
      obtain ⟨i, hi, rfl⟩ := List.mem_map.mp hp
      by_cases hheld : Held s u (s.pool.addr u i)
      · exact .inr hheld
      · exact .inl (List.mem_map_of_mem ((hfree.mem_iff i).mpr ⟨List.mem_range.mp hi, hheld⟩))
  have hboth := List.nodup_append.mpr ⟨hfreeNodup, hliveNodup, fun p hp p' hp' heq =>
    hapart p hp ((hlive p).mp (heq ▸ hp'))⟩
  have hperm := (List.perm_ext_iff_of_nodup hboth hallNodup).mpr hmem
  have hlen := hperm.length_eq
  rw [List.length_append, List.length_map, List.length_map, List.length_map, List.length_range,
    ← hfree.nFree] at hlen
  exact hlen

/-- The smallest pool, with two units of every size. -/
def smallPool : Pool := (wmeminit 0 0x100000 0x200000 fun _ => 0).get rfl

/-- One thread takes a unit inside the other's call, and its unit is freed and taken again. -/
def twoThreads : List Event :=
  [.call 0 10, .call 1 64, .lock 0, .lock 1, .finish 1, .write 0x200040 7, .finish 0,
    .write 0x20003f 9, .free 0x200040, .call 1 64, .lock 1]

/-- Whatever the threads do in whatever order, every pointer that is returned is new, cleared and
    large enough. -/
theorem wmalloc_fresh {cfg phys vrt : Nat} {mem : Memory UInt8} {pool : Pool} {es : List Event}
    (hinit : wmeminit cfg phys vrt mem = some pool) (hvrt : 0 < vrt)
    (hrun : wmMachine.Always Allowed (start pool) es) :
    wmMachine.Always StepFresh (start pool) es :=
  (Machine.always_of_invariant (M := wmMachine) (I := Inv) (Q := StepFresh)
    (fun _ _ hs h => inv_step hs h) (inv_start hinit hvrt) hrun).1

theorem wmalloc_fresh_twoThreads :
    (wmMachine.outputs (start smallPool) twoThreads).filterMap id =
        [⟨64, some 0x200040⟩, ⟨10, some 0x200000⟩] ∧
      wmMachine.Always StepFresh (start smallPool) twoThreads :=
  ⟨by decide, wmalloc_fresh (Option.some_get rfl).symm (by decide) (by decide)⟩

theorem run_inv {cfg phys vrt : Nat} {mem : Memory UInt8} {pool : Pool} {es : List Event}
    (hinit : wmeminit cfg phys vrt mem = some pool) (hvrt : 0 < vrt)
    (hrun : wmMachine.Always Allowed (start pool) es) : Inv (wmMachine.final (start pool) es) :=
  Machine.invariant (M := wmMachine) (I := Inv) (fun _ _ hs h => (inv_step hs h).2)
    (inv_start hinit hvrt) hrun

/-- What the owners rely on in a state. -/
structure Sound (cfg vrt : Nat) (s : Sys) : Prop where
  apart : s.live.Pairwise fun l l' => l.2 + l.1.bytes ≤ l'.2 ∨ l'.2 + l'.1.bytes ≤ l.2
  inside : ∀ l ∈ s.live, vrt ≤ l.2 ∧ l.2 + l.1.bytes ≤ vrt + memPoolSize (tdeBufOf cfg)
  intact : ∀ l ∈ s.live, s.pool.mem.read l.2 l.1.bytes = s.data.read l.2 l.1.bytes
  mapped : ∀ l ∈ s.live, ∀ k, k < l.1.bytes → wgetvrt (wgetphy (l.2 + k) s.pool) s.pool = l.2 + k
  count : (∀ t size u p, s.pc t ≠ .clearing size u p) → ∀ u,
    (s.pool.blk u).nFree + (s.live.filter fun l => l.1 = u).length = unitNum (tdeBufOf cfg) u

theorem Inv.apart {s : Sys} (hs : Inv s) :
    s.live.Pairwise fun l l' => l.2 + l.1.bytes ≤ l'.2 ∨ l'.2 + l'.1.bytes ≤ l.2 := by
  have hunits : ∀ l ∈ s.live, IsUnit s.pool l.1 l.2 := fun l hl => hs.live_unit l.1 l.2 hl
  refine hs.live_nodup.imp_of_mem fun hl hl' hne => ?_
  exact (hunits _ hl).disjoint (hunits _ hl') hne

/-- The two directions of the mapping agree inside the pool. -/
theorem wgetvrt_wgetphy (g : Pool) {a : Nat} (hlo : g.vrt ≤ a)
    (hhi : a < g.vrt + memPoolSize g.tdeBuf) : wgetvrt (wgetphy a g) g = a := by
  have hphy : wgetphy a g = g.phys + (a - g.vrt) := if_neg (by omega)
  rw [hphy, wgetvrt, if_neg (by omega)]
  omega

/-- Whatever the threads do in whatever order, the units that were returned lie in the pool and
    do not overlap, they hold what their owners wrote, and no unit is lost. -/
theorem run_sound {cfg phys vrt : Nat} {mem : Memory UInt8} {pool : Pool} {es : List Event}
    (hinit : wmeminit cfg phys vrt mem = some pool) (hvrt : 0 < vrt)
    (hrun : wmMachine.Always Allowed (start pool) es) :
    Sound cfg vrt (wmMachine.final (start pool) es) := by
  have hs := run_inv hinit hvrt hrun
  have hvrt' := final_vrt hinit hvrt es
  have hbuf' := final_tdeBuf hinit hvrt es
  have hinside (l : UnitSize × Nat) (hl : l ∈ (wmMachine.final (start pool) es).live) :
      vrt ≤ l.2 ∧ l.2 + l.1.bytes ≤ vrt + memPoolSize (tdeBufOf cfg) := by
    obtain ⟨i, hi, heq⟩ := hs.live_unit l.1 l.2 hl
    have hin := addr_in_pool _ hi
    rwa [hvrt', hbuf', ← heq] at hin
  refine ⟨hs.apart, hinside, fun l hl => ?_, fun l hl k hk => ?_, fun hidle u => ?_⟩
  · exact Memory.read_congr fun k hk => hs.data l.1 l.2 hl k hk
  · have hin := hinside l hl
    exact wgetvrt_wgetphy _ (by omega) (by rw [hvrt', hbuf']; omega)
  · rw [hs.count hidle u, Pool.num, hbuf']

theorem run_sound_twoThreads :
    (wmMachine.final (start smallPool) twoThreads).live = [(.cmd, 0x200000)] ∧
      Sound 0 0x200000 (wmMachine.final (start smallPool) twoThreads) :=
  ⟨by decide, run_sound (Option.some_get rfl).symm (by decide) (by decide)⟩

/-! ## A thread that is alone -/

theorem wmallocFrom_eq_none_iff {s : Sys} (hs : Inv s) (us : List UnitSize) :
    (wmallocFrom us s.pool).1 = none ↔
      ∀ u ∈ us, ∀ i, i < s.pool.num u → Held s u (s.pool.addr u i) := by
  induction us with
  | nil => exact iff_of_true rfl fun u hu => absurd hu List.not_mem_nil
  | cons u us ih =>
    obtain ⟨htake, hheld⟩ | ⟨i, free, hfree, htake⟩ := takeUnit_spec hs u
    · rw [wmallocFrom, htake]
      refine ih.trans ⟨fun h u' hu' => ?_, fun h u' hu' => h u' (List.mem_cons_of_mem u hu')⟩
      obtain rfl | hmem := List.mem_cons.mp hu'
      · exact hheld
      · exact h u' hmem
    · rw [wmallocFrom, htake]
      obtain ⟨hi, hnot⟩ := (hfree.mem_iff i).mp List.mem_cons_self
      exact iff_of_false (Option.some_ne_none _) fun h => hnot (h u List.mem_cons_self i hi)

/-- The steps of a thread that nobody disturbs are `wmalloc`. -/
theorem wmallocFrom_alone {s : Sys} {t size : Nat} {us : List UnitSize}
    (hpc : s.pc t = .trying size us) :
    ∃ es, (∀ e ∈ es, e = .lock t ∨ e = .finish t) ∧
      (wmMachine.final s es).pool = (wmallocFrom us s.pool).2 ∧
      (wmMachine.outputs s es).getLast? = some (some ⟨size, (wmallocFrom us s.pool).1⟩) := by
  induction us generalizing s with
  | nil =>
    refine ⟨[.lock t], fun e he => .inl (List.mem_singleton.mp he), ?_, ?_⟩
    all_goals simp only [Machine.final_cons, Machine.final_nil, Machine.outputs_cons,
      Machine.outputs_nil, wmMachine, step, hpc, wmallocFrom, List.getLast?_singleton]
  | cons u us ih =>
    cases htake : takeUnit u s.pool with
    | mk r pool =>
      cases r with
      | none =>
        have hstep : wmMachine.step s (.lock t) =
            ({ s with pool, pc := Function.update s.pc t (.trying size us) }, none) := by
          simp only [wmMachine, step, hpc, htake]
        obtain ⟨es, hes, hpool, hlast⟩ :=
          ih (s := { s with pool, pc := Function.update s.pc t (.trying size us) })
            (Function.update_self ..)
        refine ⟨.lock t :: es, fun e he => ?_, ?_, ?_⟩
        · obtain rfl | he := List.mem_cons.mp he
          · exact .inl rfl
          · exact hes e he
        · rw [Machine.final_cons, hstep, hpool, wmallocFrom, htake]
        · rw [Machine.outputs_cons, hstep, List.getLast?_cons, hlast, wmallocFrom, htake]
          rfl
      | some pFree =>
        have hstep : wmMachine.step s (.lock t) =
            ({ s with pool, pc := Function.update s.pc t (.clearing size u pFree) }, none) := by
          simp only [wmMachine, step, hpc, htake]
        refine ⟨[.lock t, .finish t], fun e he => ?_, ?_, ?_⟩
        · simpa using he
        all_goals
          simp only [Machine.final_cons, Machine.final_nil, Machine.outputs_cons,
            Machine.outputs_nil, hstep, wmallocFrom, htake]
          simp only [wmMachine, step, Function.update_self]
        rfl

/-- In every state that the threads reach, `wmalloc` of a thread that nobody disturbs fails only if
    the size is refused or every unit that is large enough is in use. -/
theorem wmalloc_null_iff {cfg phys vrt : Nat} {mem : Memory UInt8} {pool : Pool} {es : List Event}
    (hinit : wmeminit cfg phys vrt mem = some pool) (hvrt : 0 < vrt)
    (hrun : wmMachine.Always Allowed (start pool) es) {s : Sys}
    (hs : s = wmMachine.final (start pool) es) {t : Nat} (hidle : s.pc t = .idle) (size : Nat) :
    ∃ es' ptr, (∀ e ∈ es', e = .call t size ∨ e = .lock t ∨ e = .finish t) ∧
      (wmMachine.outputs s es').getLast? = some (some ⟨size, ptr⟩) ∧
      (ptr = none ↔ size = 0 ∨ 2048 < size ∨
        ∀ u i, size ≤ u.bytes → i < unitNum (tdeBufOf cfg) u → Held s u (s.pool.addr u i)) := by
  have hinv := run_inv hinit hvrt hrun
  rw [← hs] at hinv
  cases hsizes : wmallocSizes size with
  | none =>
    refine ⟨[.call t size], none, fun e he => .inl (List.mem_singleton.mp he), ?_, ?_⟩
    · simp only [Machine.outputs_cons, Machine.outputs_nil, wmMachine, step, hidle, hsizes,
        List.getLast?_singleton]
    · have hrefused := (wmallocSizes_eq_none_iff size).mp hsizes
      exact iff_of_true rfl (by omega)
  | some sizes =>
    have hstep : wmMachine.step s (.call t size) =
        ({ s with pc := Function.update s.pc t (.trying size sizes) }, none) := by
      simp only [wmMachine, step, hidle, hsizes]
    have hok : ¬ (2048 < size ∨ size = 0) := fun hbad => by
      rw [(wmallocSizes_eq_none_iff size).mpr hbad] at hsizes
      cases hsizes
    have hnum (u : UnitSize) : s.pool.num u = unitNum (tdeBufOf cfg) u := by
      rw [hs, Pool.num, final_tdeBuf hinit hvrt]
    obtain ⟨es', hes, -, hlast⟩ :=
      wmallocFrom_alone (s := { s with pc := Function.update s.pc t (.trying size sizes) })
        (Function.update_self ..)
    refine ⟨.call t size :: es', (wmallocFrom sizes s.pool).1, fun e he => ?_, ?_, ?_⟩
    · obtain rfl | he := List.mem_cons.mp he
      · exact .inl rfl
      · exact .inr (hes e he)
    · rw [Machine.outputs_cons, hstep, List.getLast?_cons, hlast]
      rfl
    · rw [wmallocFrom_eq_none_iff hinv]
      constructor
      · exact fun h => .inr (.inr fun u i hfit hi =>
          h u ((wmallocSizes_fit hsizes u).mpr hfit) i (hnum u ▸ hi))
      · rintro (hzero | hlarge | h) u hu i hi
        · exact absurd (.inr hzero) hok
        · exact absurd (.inl hlarge) hok
        · exact h u i ((wmallocSizes_fit hsizes u).mp hu) (hnum u ▸ hi)

theorem wmalloc_null_iff_twoThreads :
    ∃ es' ptr, (∀ e ∈ es', e = .call 0 65 ∨ e = .lock 0 ∨ e = .finish 0) ∧
      (wmMachine.outputs (wmMachine.final (start smallPool) twoThreads) es').getLast? =
        some (some ⟨65, ptr⟩) ∧
      (ptr = none ↔ 65 = 0 ∨ 2048 < 65 ∨
        ∀ u i, 65 ≤ u.bytes → i < unitNum (tdeBufOf 0) u →
          Held (wmMachine.final (start smallPool) twoThreads) u
            ((wmMachine.final (start smallPool) twoThreads).pool.addr u i)) :=
  wmalloc_null_iff (Option.some_get rfl).symm (by decide) (by decide) rfl (by decide) 65

end Tntsat.WmAlloc
