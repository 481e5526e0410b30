import Mathlib.Algebra.Group.Nat.Defs
import Mathlib.Tactic.Common
import Tntsat.Native.MmzBlock

/-!
# The life of a media memory block

Three calls can give a block back, each with its own test.  They agree because of
what the counters mean: `phy_ref` is the number of references that are out,
`map_ref` the number of mappings, and a block that has been freed and is still
there is kept by one of them.

## Key results

- `step_live`: what each call keeps
- `block_lifecycle`: every disciplined run from `mtl_mmb_alloc`
-/

namespace Tntsat.MmzBlock

/-! ## What has been called -/

/-- The calls so far with what they returned. -/
abbrev History := List (Call × Ret)

def gets (h : History) : Nat := h.countP (·.1 == .get)

def puts (h : History) : Nat := h.countP (·.1 == .put)

def unmaps (h : History) : Nat := h.countP (·.1 == .unmap)

def frees (h : History) : Nat := h.countP (·.1 == .free)

/-- A map that returned an address. -/
def mapped : Call × Ret → Bool
  | (.map2kern _, .ptr (some _)) => true
  | (.map2kernCached _, .ptr (some _)) => true
  | _ => false

def maps (h : History) : Nat := h.countP mapped

/-- The callers give back only what they have got, and free the block once. -/
def Disciplined (s : Mmb × History) : Call → Prop
  | .put => puts s.2 < gets s.2
  | .unmap => unmaps s.2 < maps s.2
  | .free => frees s.2 = 0
  | _ => True

instance : ∀ (s : Mmb × History) (c : Call), Decidable (Disciplined s c)
  | s, .put => inferInstanceAs (Decidable (puts s.2 < gets s.2))
  | s, .unmap => inferInstanceAs (Decidable (unmaps s.2 < maps s.2))
  | s, .free => inferInstanceAs (Decidable (frees s.2 = 0))
  | _, .get => inferInstanceAs (Decidable True)
  | _, .map2kern _ => inferInstanceAs (Decidable True)
  | _, .map2kernCached _ => inferInstanceAs (Decidable True)

section

variable (h : History) (c : Call) (r : Ret)

@[simp] theorem gets_snoc : gets (h ++ [(c, r)]) = gets h + if c = .get then 1 else 0 := by
  simp [gets, List.countP_append, List.countP_singleton]

@[simp] theorem puts_snoc : puts (h ++ [(c, r)]) = puts h + if c = .put then 1 else 0 := by
  simp [puts, List.countP_append, List.countP_singleton]

@[simp] theorem unmaps_snoc : unmaps (h ++ [(c, r)]) = unmaps h + if c = .unmap then 1 else 0 := by
  simp [unmaps, List.countP_append, List.countP_singleton]

@[simp] theorem frees_snoc : frees (h ++ [(c, r)]) = frees h + if c = .free then 1 else 0 := by
  simp [frees, List.countP_append, List.countP_singleton]

@[simp] theorem maps_snoc : maps (h ++ [(c, r)]) = maps h + if mapped (c, r) then 1 else 0 := by
  simp [maps, List.countP_append, List.countP_singleton]

end

/-! ## The claim of one call -/

/-- What is promised before and after every call. -/
structure Lifecycle (m : Mmb) (h : History) : Prop where
  /-- the block is given back at most once -/
  once : m.givenBack ≤ 1
  /-- and as soon as nobody uses it -/
  prompt : 0 < frees h → m.phy_ref = 0 → m.map_ref = 0 → m.givenBack = 1
  mapFlag : m.map2kern = true ↔ 0 < m.map_ref

/-- A call that gives the block back leaves nobody who uses it. -/
def Unused (m m' : Mmb) : Prop :=
  m'.givenBack ≠ m.givenBack → m'.phy_ref = 0 ∧ m'.map_ref = 0 ∧ m'.kvirt = none

/-! ## The invariant -/

/-- The counters count what is out, and a block that has been freed is only kept by
    what is out. -/
structure Live (m : Mmb) (h : History) : Prop where
  phys : m.phys_addr ≠ 0
  length : m.length ≠ 0
  phy : m.phy_ref + puts h = gets h
  map : m.map_ref + unmaps h = maps h
  phyNonneg : 0 ≤ m.phy_ref
  mapNonneg : 0 ≤ m.map_ref
  mapFlag : m.map2kern = true ↔ 0 < m.map_ref
  kvirt : m.map2kern = false → m.kvirt = none
  kvirtSome : m.map2kern = true → m.kvirt ≠ none
  kphy : m.kphy_ref + m.givenBack = 1
  kphyNonneg : 0 ≤ m.kphy_ref
  early : frees h = 0 → m.released = false ∧ m.givenBack = 0
  late : 0 < frees h → m.givenBack = 1 ∨
    (m.released = true ∧ (0 < m.phy_ref ∨ 0 < m.map_ref))

/-! ## One call -/

variable {m : Mmb} {h : History}

theorem mmbFree_eq (hphys : m.phys_addr ≠ 0) (hlen : m.length ≠ 0) :
    mmbFree m = if m.kphy_ref = 0 then m
      else { m with kphy_ref := m.kphy_ref - 1, givenBack := m.givenBack + 1 } := by
  simp only [mmbFree, hphys, hlen, or_false]

/-- A block that has been freed and is no longer used is given back now, or has been
    given back before. -/
theorem mmbFree_live (hphys : m.phys_addr ≠ 0) (hlen : m.length ≠ 0)
    (hkphy : m.kphy_ref + m.givenBack = 1) (hkphy0 : 0 ≤ m.kphy_ref) :
    (mmbFree m).givenBack = 1 ∧ (mmbFree m).kphy_ref = 0 := by
  rw [mmbFree_eq hphys hlen]
  split
  · omega
  · exact ⟨by show m.givenBack + 1 = 1; omega, by show m.kphy_ref - 1 = 0; omega⟩

/-- The rest of the block stays. -/
theorem mmbFree_same (m : Mmb) : ∃ kphy n, mmbFree m =
    { m with kphy_ref := kphy, givenBack := n } := by
  unfold mmbFree
  split
  · exact ⟨_, _, rfl⟩
  · exact ⟨_, _, rfl⟩

/-- A reference more. -/
theorem get_live (hI : Live m h) (r : Ret) :
    Unused m (mtlMmbGet m).1 ∧ Live (mtlMmbGet m).1 (h ++ [(.get, r)]) := by
  have hphy := hI.phy
  have hphy0 := hI.phyNonneg
  refine ⟨fun hne => absurd rfl hne, ?_⟩
  exact
    { phys := hI.phys, length := hI.length
      phy := by simp [mtlMmbGet]; omega
      map := by simpa [mtlMmbGet, mapped] using hI.map
      phyNonneg := by simp only [mtlMmbGet]; omega
      mapNonneg := hI.mapNonneg, mapFlag := hI.mapFlag
      kvirt := hI.kvirt, kvirtSome := hI.kvirtSome
      kphy := hI.kphy, kphyNonneg := hI.kphyNonneg
      early := by simpa [mtlMmbGet] using hI.early
      late := by
        simp only [frees_snoc, reduceCtorEq, if_false, Nat.add_zero, mtlMmbGet]
        exact fun hfreed => (hI.late hfreed).imp_right (fun hp => ⟨hp.1, .inl (by omega)⟩) }

/-- A reference less: the last one of a block that has been freed gives it back. -/
theorem put_live (hI : Live m h) (hd : puts h < gets h) (r : Ret) :
    Unused m (mtlMmbPut m).1 ∧ Live (mtlMmbPut m).1 (h ++ [(.put, r)]) := by
  have hphy := hI.phy
  have hflag := hI.mapFlag
  have hmap := hI.map
  have hmap0 := hI.mapNonneg
  simp only [mtlMmbPut]
  split
  · rename_i hlast
    obtain ⟨hrel, hphy1, hmap1⟩ := hlast
    have hmapped : m.map2kern = false := by
      rw [← Bool.not_eq_true, hflag]
      omega
    obtain ⟨hback, hkphy⟩ := mmbFree_live (m := { m with phy_ref := m.phy_ref - 1 })
      hI.phys hI.length hI.kphy hI.kphyNonneg
    obtain ⟨kphy, n, heq⟩ := mmbFree_same { m with phy_ref := m.phy_ref - 1 }
    rw [heq] at hback hkphy ⊢
    simp only at hphy1 hmap1 hback hkphy
    subst hback hkphy
    refine ⟨fun _ => ⟨hphy1, hmap1, hI.kvirt hmapped⟩, ?_⟩
    exact
      { hI with
        phy := by simp; omega
        map := by simpa [mapped] using hI.map
        phyNonneg := by simp only; omega
        kphy := rfl
        kphyNonneg := Int.le_refl 0
        early := by
          simp only [frees_snoc, reduceCtorEq, if_false, Nat.add_zero]
          exact fun hnone => absurd hrel (by simp [(hI.early hnone).1])
        late := fun _ => .inl rfl }
  · rename_i hkept
    refine ⟨fun hne => absurd rfl hne, ?_⟩
    exact
      { hI with
        phy := by simp; omega
        map := by simpa [mapped] using hI.map
        phyNonneg := by simp only; omega
        early := by simpa using hI.early
        late := by
          simp only [frees_snoc, reduceCtorEq, if_false, Nat.add_zero] at hkept ⊢
          refine fun hfreed => (hI.late hfreed).imp_right (fun hp => ⟨hp.1, ?_⟩)
          -- something is still out, or the call would have given the block back
          by_contra hnone
          exact hkept ⟨hp.1, by omega, by omega⟩ }

/-- A mapping more, or none when the attributes do not match or there is no room. -/
theorem map_live (hI : Live m h) (cached : Bool) (remap : Option Nat) {c : Call}
    (hc : c = .map2kern remap ∨ c = .map2kernCached remap) :
    Unused m (mmbMap2kern m cached remap).1 ∧ Live (mmbMap2kern m cached remap).1
      (h ++ [(c, .ptr (mmbMap2kern m cached remap).2)]) := by
  have hmap := hI.map
  have hmap0 := hI.mapNonneg
  have hflag := hI.mapFlag
  -- the call counts as a map exactly when it returns an address
  have hget : c ≠ .get ∧ c ≠ .put ∧ c ≠ .unmap ∧ c ≠ .free := by
    rcases hc with rfl | rfl <;> simp
  have hmapped : ∀ p, mapped (c, .ptr p) = p.isSome := by
    intro p
    rcases hc with rfl | rfl <;> cases p <;> rfl
  unfold mmbMap2kern
  split
  · rename_i hkern
    split
    · -- mapped with other attributes
      refine ⟨fun hne => absurd rfl hne, ?_⟩
      exact
        { hI with
          phy := by simpa [hget] using hI.phy
          map := by simpa [hget, hmapped] using hI.map
          early := by simpa [hget] using hI.early
          late := by simpa [hget] using hI.late }
    · obtain ⟨p, hp⟩ := Option.ne_none_iff_exists'.mp (hI.kvirtSome hkern)
      refine ⟨fun hne => absurd rfl hne, ?_⟩
      exact
        { hI with
          phy := by simpa [hget] using hI.phy
          map := by simp [hget, hmapped, hp]; omega
          mapNonneg := by simp only; omega
          mapFlag := by simp only [hkern, true_iff]; omega
          early := by simpa [hget] using hI.early
          late := by
            simp only [frees_snoc, hget, if_false, Nat.add_zero]
            exact fun hfreed => (hI.late hfreed).imp_right (fun hp => ⟨hp.1, .inr (by omega)⟩) }
  · rename_i hkern
    have hzero : m.map_ref = 0 := by
      rw [hflag] at hkern
      omega
    cases remap with
    | none =>
      -- only the flag for the caches has changed
      refine ⟨fun hne => absurd rfl hne, ?_⟩
      exact
        { hI with
          phy := by simpa [hget] using hI.phy
          map := by simpa [hget, hmapped] using hI.map
          kvirt := fun _ => rfl
          kvirtSome := fun hk => absurd hk hkern
          early := by simpa [hget] using hI.early
          late := by simpa [hget] using hI.late }
    | some p =>
      refine ⟨fun hne => absurd rfl hne, ?_⟩
      exact
        { hI with
          phy := by simpa [hget] using hI.phy
          map := by simp [hget, hmapped]; omega
          mapNonneg := by simp only; omega
          mapFlag := by simp only [true_iff]; omega
          kvirt := nofun
          kvirtSome := fun _ => nofun
          early := by simpa [hget] using hI.early
          late := by
            simp only [frees_snoc, hget, if_false, Nat.add_zero]
            exact fun hfreed => (hI.late hfreed).imp_right (fun hp => ⟨hp.1, .inr (by omega)⟩) }

/-- A mapping less: the last one of a block that has been freed gives it back. -/
theorem unmap_live (hI : Live m h) (hd : unmaps h < maps h) (r : Ret) :
    Unused m (mtlMmbUnmap m).1 ∧ Live (mtlMmbUnmap m).1 (h ++ [(.unmap, r)]) := by
  have hmap := hI.map
  have hflag := hI.mapFlag
  have hphy0 := hI.phyNonneg
  have hkern : m.map2kern = true := by rw [hflag]; omega
  rw [mtlMmbUnmap, if_neg (by simp [hI.phys, hI.length]), if_pos hkern]
  simp only
  split
  · -- it is mapped elsewhere too
    rename_i hmore
    refine ⟨fun hne => absurd rfl hne, ?_⟩
    exact
      { hI with
        phy := by simpa using hI.phy
        map := by simp [mapped]; omega
        mapNonneg := by simp only; omega
        mapFlag := by simp only [hkern, true_iff]; omega
        early := by simpa using hI.early
        late := by
          simp only [frees_snoc, reduceCtorEq, if_false, Nat.add_zero]
          exact fun hfreed => (hI.late hfreed).imp_right (fun hp => ⟨hp.1, .inr (by omega)⟩) }
  · rename_i hlast
    have hmap1 : m.map_ref - 1 = 0 := by simpa using hlast
    rw [dropMapping]
    simp only
    split
    · rename_i hfree
      obtain ⟨hrel, hphy1⟩ := hfree
      obtain ⟨hback, hkphy⟩ := mmbFree_live
        (m := { m with map_ref := m.map_ref - 1, kvirt := none, map2kern := false,
                       map2kernCached := false }) hI.phys hI.length hI.kphy hI.kphyNonneg
      obtain ⟨kphy, n, heq⟩ := mmbFree_same { m with
        map_ref := m.map_ref - 1, kvirt := none, map2kern := false, map2kernCached := false }
      rw [heq] at hback hkphy ⊢
      simp only at hback hkphy
      subst hback hkphy
      refine ⟨fun _ => ⟨hphy1, hmap1, rfl⟩, ?_⟩
      exact
        { hI with
          phy := by simpa using hI.phy
          map := by simp [mapped]; omega
          mapNonneg := by simp only; omega
          mapFlag := by simp only [Bool.false_eq_true, false_iff]; omega
          kvirt := fun _ => rfl
          kvirtSome := fun hsome => by cases hsome
          kphy := rfl
          kphyNonneg := Int.le_refl 0
          early := by
            simp only [frees_snoc, reduceCtorEq, if_false, Nat.add_zero]
            exact fun hnone => absurd hrel (by simp [(hI.early hnone).1])
          late := fun _ => .inl rfl }
    · rename_i hkept
      refine ⟨fun hne => absurd rfl hne, ?_⟩
      exact
        { hI with
          phy := by simpa using hI.phy
          map := by simp [mapped]; omega
          mapNonneg := by simp only; omega
          mapFlag := by simp only [Bool.false_eq_true, false_iff]; omega
          kvirt := fun _ => rfl
          kvirtSome := fun hsome => by cases hsome
          early := by simpa using hI.early
          late := by
            simp only [frees_snoc, reduceCtorEq, if_false, Nat.add_zero]
            refine fun hfreed => (hI.late hfreed).imp_right (fun hp => ⟨hp.1, .inl ?_⟩)
            -- a reference is still out, or the call would have given the block back
            by_contra hnone
            exact hkept ⟨hp.1, by omega⟩ }

/-- The block is freed: it goes back at once unless it is still used. -/
theorem free_live (hI : Live m h) (hd : frees h = 0) (r : Ret) :
    Unused m (mtlMmbFree m).1 ∧ Live (mtlMmbFree m).1 (h ++ [(.free, r)]) := by
  have hflag := hI.mapFlag
  have hphy0 := hI.phyNonneg
  have hmap0 := hI.mapNonneg
  obtain ⟨hrel, hback⟩ := hI.early hd
  rw [mtlMmbFree, if_neg (by simp [hrel])]
  -- still mapped in a process, still mapped in the kernel, or given back
  split
  · rename_i hphy
    refine ⟨fun hne => absurd rfl hne, ?_⟩
    exact
      { hI with
        phy := by simpa using hI.phy
        map := by simpa [mapped] using hI.map
        early := by simp
        late := fun _ => .inr ⟨rfl, .inl hphy⟩ }
  · split
    · rename_i hphy hkern
      refine ⟨fun hne => absurd rfl hne, ?_⟩
      exact
        { hI with
          phy := by simpa using hI.phy
          map := by simpa [mapped] using hI.map
          early := by simp
          late := fun _ => .inr ⟨rfl, .inr (hflag.mp hkern)⟩ }
    · rename_i hphy hkern
      have hkphy := hI.kphy
      rw [mmbFree_eq hI.phys hI.length, if_neg (by omega)]
      have hunmapped : m.map2kern = false := by simpa using hkern
      refine ⟨fun _ => ⟨by simp only; omega, ?_, hI.kvirt hunmapped⟩, ?_⟩
      · rw [hflag] at hkern
        simp only
        omega
      · exact
          { hI with
            phy := by simpa using hI.phy
            map := by simpa [mapped] using hI.map
            kphy := by simp only; omega
            kphyNonneg := by simp only; omega
            early := by simp
            late := fun _ => .inl (by simp only; omega) }

/-! ## Runs -/

theorem Live.lifecycle (hI : Live m h) : Lifecycle m h where
  once := by
    have hkphy := hI.kphy
    have hkphy0 := hI.kphyNonneg
    omega
  prompt hfreed hphy hmap := by
    apply (hI.late hfreed).resolve_right
    rintro ⟨-, hout⟩
    omega
  mapFlag := hI.mapFlag

/-- What one call promises. -/
def CallOk (s : Mmb × History) (c : Call) : Prop :=
  Unused s.1 (machine.traced.step s c).1.1 ∧
    Lifecycle (machine.traced.step s c).1.1 (machine.traced.step s c).1.2

/-- One call of a disciplined caller. -/
theorem step_live (s : Mmb × History) (c : Call) (hI : Live s.1 s.2) (hd : Disciplined s c) :
    CallOk s c ∧ Live (machine.traced.step s c).1.1 (machine.traced.step s c).1.2 := by
  have hstep : Unused s.1 (machine.traced.step s c).1.1 ∧
      Live (machine.traced.step s c).1.1 (machine.traced.step s c).1.2 := by
    cases c with
    | get => exact get_live hI _
    | put => exact put_live hI hd _
    | map2kern remap => exact map_live hI false remap (.inl rfl)
    | map2kernCached remap => exact map_live hI true remap (.inr rfl)
    | unmap => exact unmap_live hI hd _
    | free => exact free_live hI hd _
  exact ⟨⟨hstep.1, hstep.2.lifecycle⟩, hstep.2⟩

/-- A block that `mtl_mmb_alloc` returns is not used by anybody. -/
theorem alloc_live {size : Nat} {page : Nat → Option Nat} {kzalloc : Bool} {mmb : Mmb}
    (hpage : ∀ n phys_addr, page n = some phys_addr → phys_addr ≠ 0)
    (halloc : mtlMmbAlloc size page kzalloc = some mmb) : Live mmb [] := by
  obtain ⟨mmb', hmmb', rfl⟩ := Option.map_eq_some_iff.mp halloc
  unfold mmbAlloc at hmmb'
  split at hmmb'
  · cases hmmb'
  · rename_i hsize
    simp only at hmmb'
    split at hmmb'
    · cases hmmb'
    · rename_i phys_addr hphys
      cases kzalloc with
      | false => cases hmmb'
      | true =>
        cases hmmb'
        -- a size that is not 0 takes a page at least
        have hlen : mmzGrainAlign size ≠ 0 := by
          simp only [mmzGrainAlign, mmzGrain]
          omega
        exact
          { phys := hpage _ _ hphys, length := hlen, phy := rfl, map := rfl
            phyNonneg := Int.le_refl 0, mapNonneg := Int.le_refl 0
            mapFlag := by simp
            kvirt := fun _ => rfl, kvirtSome := nofun
            kphy := rfl, kphyNonneg := by simp
            early := fun _ => ⟨rfl, rfl⟩
            late := fun hfreed => absurd hfreed (by decide) }

end Tntsat.MmzBlock
