import Tntsat.Spec.NandEraseCorrect

/-!
# Where the limit of the handle stops a walk

A walk that still has something to do behind the last good block in front of the limit
either meets the limit or goes on to the end of the partitions.  Which of the two
depends on where the limit is tested: a write tests it at good blocks only, an erase
wherever it comes to.  A run of bad blocks that lies across the limit is skipped as a
whole, up to the end of its partition.

## Key results

- `walk_limited_iff`: the walk meets the limit iff it comes to a block where it is tested
- `writeTour_short`: when a write is not through, and what it has done by then
-/

namespace Tntsat.NandRaw

variable {σ : Type} {c : NandRawCtrl} {P : Pass σ} {K : Nat → Prop} {need : Nat → Nat → Nat}
  {o e : Nat}

/-! ## One partition -/

/-- The limit is tested at block `x` of a walk that starts at block `b`; the walk comes to a
    bad block only where it starts and behind a good one. -/
def Tests (limitFirst : Bool) (bad : Nat → Bool) (b x : Nat) : Prop :=
  bad x = false ∨ limitFirst = true ∧ (x = b ∨ b < x ∧ bad (x - 1) = false)

/-- The limit, which is block `e`, stops a walk between the blocks `b` and `pe` of a
    partition. -/
def Stops (limitFirst : Bool) (bad : Nat → Bool) (e b pe : Nat) : Prop :=
  ∃ x, (b ≤ x ∧ e ≤ x ∧ x < pe) ∧ Tests limitFirst bad b x

/-- Where a run of bad blocks is skipped. -/
theorem Stops.skip_iff {limitFirst : Bool} {bad : Nat → Bool} {b pe n : Nat} (hn : 0 < n)
    (hrun : ∀ j < n, bad (b + j) = true) (hstop : b + n = pe ∨ bad (b + n) = false)
    (hlim : ¬ (limitFirst = true ∧ e ≤ b)) :
    Stops limitFirst bad e (b + n) pe ↔ Stops limitFirst bad e b pe := by
  -- the blocks passed over are bad
  have hbad : ∀ x, b ≤ x → x < b + n → bad x = true := by
    intro x hb hx
    have hj := hrun (x - b) (by omega)
    rwa [Nat.add_sub_cancel' hb] at hj
  constructor
  · rintro ⟨x, hx, htest⟩
    refine ⟨x, by omega, ?_⟩
    rcases htest with hgood | ⟨hfirst, hx' | ⟨hlt, hgood⟩⟩
    · exact Or.inl hgood
    · rcases hstop with hstop | hstop
      · omega
      · rw [← hx'] at hstop
        exact Or.inl hstop
    · exact Or.inr ⟨hfirst, Or.inr ⟨by omega, hgood⟩⟩
  · rintro ⟨x, hx, htest⟩
    -- so none of them stops the walk
    have hge : b + n ≤ x := by
      by_contra hlt
      rcases htest with hgood | ⟨hfirst, hx' | ⟨hbx, hgood⟩⟩
      · rw [hbad x hx.1 (by omega)] at hgood
        cases hgood
      · exact hlim ⟨hfirst, by omega⟩
      · rw [hbad (x - 1) (by omega) (by omega)] at hgood
        cases hgood
    refine ⟨x, by omega, ?_⟩
    rcases htest with hgood | ⟨hfirst, hx' | ⟨hbx, hgood⟩⟩
    · exact Or.inl hgood
    · omega
    · refine Or.inr ⟨hfirst, ?_⟩
      by_cases heq : x = b + n
      · exact Or.inl heq
      · exact Or.inr ⟨by omega, hgood⟩

/-- Behind a good block in front of the limit. -/
theorem Stops.next_iff {limitFirst : Bool} {bad bad' : Nat → Bool} {b pe : Nat}
    (hgood : bad b = false) (hbe : b < e) (hbad : ∀ i, b < i → bad' i = bad i) :
    Stops limitFirst bad' e (b + 1) pe ↔ Stops limitFirst bad e b pe := by
  constructor
  · rintro ⟨x, hx, htest⟩
    refine ⟨x, by omega, ?_⟩
    rcases htest with hx' | ⟨hfirst, rfl | ⟨hlt, hx'⟩⟩
    · exact Or.inl ((hbad x (by omega)).symm.trans hx')
    · exact Or.inr ⟨hfirst, Or.inr ⟨by omega, hgood⟩⟩
    · exact Or.inr ⟨hfirst, Or.inr ⟨by omega, (hbad (x - 1) (by omega)).symm.trans hx'⟩⟩
  · rintro ⟨x, hx, htest⟩
    refine ⟨x, by omega, ?_⟩
    rcases htest with hx' | ⟨hfirst, rfl | ⟨hlt, hx'⟩⟩
    · exact Or.inl ((hbad x (by omega)).trans hx')
    · omega
    · refine Or.inr ⟨hfirst, ?_⟩
      by_cases heq : x = b + 1
      · exact Or.inl heq
      · exact Or.inr ⟨by omega, (hbad (x - 1) (by omega)).trans hx'⟩

/-- A tour that comes to the end of its blocks with something left to do. -/
def Tour.IsShort : Tour σ → Prop
  | .short _ _ _ => True
  | _ => False

/-- A walk that was stopped by the limit. -/
def Limited (w : Option (Walk σ)) : Prop := ∃ s, w = some (.limited s)

theorem not_limited_at {s : σ} {offset len : Nat} : ¬ Limited (some (.at s offset len)) := by
  rintro ⟨s', h⟩
  cases h

/-- One partition, where the good blocks in front of the limit do not suffice. -/
theorem walkPartition_limited_iff (hP : P.Lawful c K need) {ptn : MtdPartition} {pb pe : Nat}
    (hptn : Blocks c ptn pb pe) (hmem : ptn ∈ c.partition) (hoe : o ≤ e) {fuel b : Nat} {s : σ}
    {k len : Nat} (hfuel : pe < b + fuel) (hpb : pb ≤ b) (hpe : b ≤ pe) (hob : o ≤ b) (hk : K k)
    (hlen : len ≠ 0) (hfit : SkipsFit c (P.bad s) b e (need k len))
    (hshort : (tour c.blocksize P.block (goods (P.bad s) b (min pe e)) s k len).IsShort) :
    Limited (walkPartition c P (o * c.blocksize) ((e - o) * c.blocksize) ptn fuel s
        (b * c.blocksize + k) len) ↔ Stops P.limitFirst (P.bad s) e b pe := by
  induction fuel generalizing b s k len with
  | zero => omega
  | succ fuel ih =>
    have hroom := hP.room k hk
    rcases Nat.eq_or_lt_of_le hpe with rfl | hlt
    · -- at the end of the partition
      rw [walkPartition, if_neg hptn.walk_out]
      refine ⟨fun h => absurd h not_limited_at, ?_⟩
      rintro ⟨x, hx, -⟩
      omega
    · obtain ⟨hrun, hle, hstop⟩ := checkSkipBadblock_spec (P.bad s) hptn hpb hlt
      have hfew := hP.few hptn hmem hpb hlt hlen hfit
      have hbeyond := beyond_iff (c := c) hoe hob (k := k) (by omega)
      rw [walkPartition, if_pos (hptn.walk_in hpb hlt hroom hlen),
        hptn.walk_index hpb (by omega)]
      simp only [hbeyond]
      split
      · -- the limit is tested first
        rename_i hlim
        exact iff_of_true ⟨s, rfl⟩ ⟨b, by omega, Or.inr ⟨hlim.1, Or.inl rfl⟩⟩
      · rename_i hfirst
        split
        · -- bad blocks are skipped
          rename_i hrel
          rw [goods_skip hrun] at hshort
          rw [blocksToBytes_of_lt hfew, Nat.add_right_comm, ← Nat.add_mul,
            ih (by omega) (by omega) hle (by omega) hk hlen (hfit.skip hrun) hshort]
          exact Stops.skip_iff hrel hrun hstop hfirst
        · rename_i hrel
          have hgood : P.bad s b = false := by
            rcases hstop with hstop | hstop
            · omega
            · rwa [Nat.eq_zero_of_not_pos hrel] at hstop
          split
          · rename_i hlim
            exact iff_of_true ⟨s, rfl⟩ ⟨b, by omega, Or.inl hgood⟩
          · -- a good block in front of the limit
            rename_i hlim
            rw [goods_of_good (by omega) hgood] at hshort
            simp only [tour, hlen, if_false] at hshort
            revert hshort
            cases hb : P.block s (b * c.blocksize + k) len with
            | «at» s' offset' len' =>
              intro hshort
              have hbad := hP.keeps s b k len s' offset' len' hk hb
              by_cases hlen' : len' = 0
              · dsimp only at hshort
                rw [hlen', tour_zero] at hshort
                exact hshort.elim
              · obtain ⟨rfl, hneed⟩ := hP.next s b k len s' offset' len' hk hlen hb hlen'
                have hgs : goods (P.bad s) (b + 1) (min pe e) =
                    goods (P.bad s') (b + 1) (min pe e) := by
                  apply goods_congr
                  intro i hi _
                  exact (hbad i hi).symm
                rw [hgs] at hshort
                have hnext := ih (k := 0) (by omega) (by omega) hlt (by omega) hP.zero hlen'
                  (hfit.next hgood (by omega) hneed hbad) hshort
                exact hnext.trans (Stops.next_iff hgood (by omega) hbad)
            | limited s' => exact absurd hb (hP.not_limited _ _ _ _ _)
            | failed s' ret => exact fun h => h.elim

/-! ## All partitions -/

/-- Where a partition of the table lies. -/
theorem Contiguous.blocks {parts : List MtdPartition} {first last : Nat}
    (h : Contiguous c parts first last) {ptn : MtdPartition} (hmem : ptn ∈ parts) :
    ∃ pb pe, Blocks c ptn pb pe ∧ first ≤ pb ∧ pe ≤ last := by
  induction parts generalizing first with
  | nil => cases hmem
  | cons q rest ih =>
    have hle := Nat.le_of_lt h.1.lt
    rcases List.mem_cons.mp hmem with rfl | hmem
    · exact ⟨first, _, h.1, Nat.le_refl first, h.2.le⟩
    · obtain ⟨pb, pe, hptn, hpb, hpe⟩ := ih h.2 hmem
      exact ⟨pb, pe, hptn, Nat.le_trans hle hpb, hpe⟩

/-- The limit stops a walk over the partitions; an erase tests it where a partition starts,
    too. -/
def TableStops (c : NandRawCtrl) (parts : List MtdPartition) (limitFirst : Bool)
    (bad : Nat → Bool) (e b last : Nat) : Prop :=
  ∃ x, (b ≤ x ∧ e ≤ x ∧ x < last) ∧ (Tests limitFirst bad b x ∨
    limitFirst = true ∧ b < x ∧ ∃ ptn ∈ parts, ptn.start = x * c.blocksize)

/-- Where a partition ends and another one follows it. -/
theorem TableStops.cons_iff {ptn : MtdPartition} {rest : List MtdPartition} {limitFirst : Bool}
    {bad bad' : Nat → Bool} {first b pe last : Nat} (hptn : Blocks c ptn first pe)
    (hcov : Contiguous c rest pe last) (hfirst : first ≤ b) (hpe : b ≤ pe)
    (hstop : ¬ Stops limitFirst bad e b pe) (hbad : ∀ i, pe ≤ i → bad' i = bad i) :
    TableStops c rest limitFirst bad' e pe last ↔
      TableStops c (ptn :: rest) limitFirst bad e b last := by
  constructor
  · rintro ⟨x, hx, htest⟩
    refine ⟨x, by omega, ?_⟩
    -- the next partition starts at its first block
    have hhead : x = pe → ∃ q ∈ ptn :: rest, q.start = x * c.blocksize := by
      rintro rfl
      cases rest with
      | nil =>
        have hlast : x = last := hcov
        omega
      | cons q rest => exact ⟨q, by simp, hcov.1.start_eq⟩
    rcases htest with (hgood | ⟨hlf, hx' | ⟨hlt, hgood⟩⟩) | ⟨hlf, hlt, q, hq, hstart⟩
    · exact Or.inl (Or.inl ((hbad x hx.1).symm.trans hgood))
    · by_cases hb : x = b
      · exact Or.inl (Or.inr ⟨hlf, Or.inl hb⟩)
      · exact Or.inr ⟨hlf, by omega, hhead hx'⟩
    · exact Or.inl (Or.inr ⟨hlf, Or.inr ⟨by omega, (hbad (x - 1) (by omega)).symm.trans hgood⟩⟩)
    · exact Or.inr ⟨hlf, by omega, q, List.mem_cons_of_mem _ hq, hstart⟩
  · rintro ⟨x, hx, htest⟩
    have hhere : b < x → ptn.start ≠ x * c.blocksize := by
      intro hlt heq
      rw [hptn.start_eq] at heq
      have hfx := Nat.eq_of_mul_eq_mul_right (blocksize_pos c) heq
      omega
    have hge : pe ≤ x := by
      by_contra hlt
      apply hstop
      refine ⟨x, by omega, ?_⟩
      rcases htest with htest | ⟨-, hbx, q, hq, hstart⟩
      · exact htest
      · -- no partition starts inside this one
        exfalso
        rcases List.mem_cons.mp hq with rfl | hq
        · exact hhere hbx hstart
        · obtain ⟨pb, pe', hq', hpb, -⟩ := hcov.blocks hq
          rw [hq'.start_eq] at hstart
          have hpx := Nat.eq_of_mul_eq_mul_right (blocksize_pos c) hstart
          omega
    refine ⟨x, by omega, ?_⟩
    rcases htest with (hgood | ⟨hlf, hx' | ⟨hlt, hgood⟩⟩) | ⟨hlf, hlt, q, hq, hstart⟩
    · exact Or.inl (Or.inl ((hbad x hge).trans hgood))
    · exact Or.inl (Or.inr ⟨hlf, Or.inl (by omega)⟩)
    · by_cases heq : x = pe
      · exact Or.inl (Or.inr ⟨hlf, Or.inl heq⟩)
      · exact Or.inl (Or.inr ⟨hlf, Or.inr ⟨by omega, (hbad (x - 1) (by omega)).trans hgood⟩⟩)
    · by_cases heq : x = pe
      · exact Or.inl (Or.inr ⟨hlf, Or.inl heq⟩)
      · rcases List.mem_cons.mp hq with rfl | hq
        · exact absurd hstart (hhere hlt)
        · exact Or.inr ⟨hlf, by omega, q, hq, hstart⟩

/-- A tour of two lists of blocks that comes to the end of both. -/
theorem Tour.isShort_andThen {t : Tour σ} {f : σ → Nat → Nat → Tour σ}
    (h : (t.andThen f).IsShort) : ∃ s k len, t = .short s k len ∧ (f s k len).IsShort := by
  cases t with
  | done s => exact h.elim
  | short s k len => exact ⟨s, k, len, rfl, h⟩
  | failed s ret => exact h.elim

/-- Where the good blocks in front of the limit do not suffice, the walk meets the limit iff
    it comes to a block where the limit is tested. -/
theorem walk_limited_iff (hP : P.Lawful c K need) (hoe : o ≤ e) {parts : List MtdPartition}
    {first last b : Nat} (hcov : Contiguous c parts first last)
    (hsub : ∀ ptn ∈ parts, ptn ∈ c.partition) (hfirst : first ≤ b) (hob : o ≤ b) {s : σ}
    {k len : Nat} (hk : K k) (hlen : len ≠ 0) (hfit : SkipsFit c (P.bad s) b e (need k len))
    (hshort : (tour c.blocksize P.block (goods (P.bad s) b (min last e)) s k len).IsShort) :
    Limited (walk c P (o * c.blocksize) ((e - o) * c.blocksize) parts s (b * c.blocksize + k) len) ↔
      TableStops c parts P.limitFirst (P.bad s) e b last := by
  induction parts generalizing first b s k len with
  | nil =>
    have hlast : first = last := hcov
    refine ⟨fun h => absurd h not_limited_at, ?_⟩
    rintro ⟨x, hx, -⟩
    omega
  | cons ptn rest ih =>
    obtain ⟨hptn, hcov⟩ := hcov
    have hrest : ∀ q ∈ rest, q ∈ c.partition := fun q hq => hsub q (List.mem_cons_of_mem _ hq)
    have hmem := hsub ptn List.mem_cons_self
    rw [walk_cons _ _ _ _ _ _ hlen]
    revert hptn hcov
    generalize (ptn.end + 1) / c.blocksize = pe
    intro hptn hcov
    have hpl := hcov.le
    rcases Nat.lt_or_ge pe b with hpe | hpe
    · -- the walk starts behind the partition
      rw [walkPartition_behind hptn _ _ _ _ _ _ (Nat.le_of_lt hpe)]
      apply (ih hcov hrest (Nat.le_of_lt hpe) hob hk hlen hfit hshort).trans
      apply exists_congr
      intro x
      apply and_congr_right
      intro hx
      have hhere : ptn.start ≠ x * c.blocksize := by
        intro heq
        rw [hptn.start_eq] at heq
        have hfx := Nat.eq_of_mul_eq_mul_right (blocksize_pos c) heq
        have hlt := hptn.lt
        omega
      simp [hhere]
    · have hfuel : pe < b + (ptn.size / c.blocksize + 1) := by
        rw [hptn.size_eq, Nat.mul_div_cancel _ (blocksize_pos c)]
        omega
      have hpart := walkPartition_spec hP hptn hmem hoe hfuel hfirst hpe hob hk hlen hfit
      have hlim := walkPartition_limited_iff hP hptn hmem hoe hfuel hfirst hpe hob hk hlen hfit
      rw [goods_min_append hpe hpl, tour_append hP.not_limited] at hshort
      obtain ⟨s', k', len', ht, hshort⟩ := Tour.isShort_andThen hshort
      rw [ht] at hpart
      obtain ⟨⟨hk', hlen'⟩, hbad⟩ := tour_short hP hk ht
      have hbehind : ∀ i, pe ≤ i → P.bad s' i = P.bad s i := by
        intro i hi
        apply hbad i
        intro g hg
        have hlt := (mem_goods.mp hg).1.2
        omega
      have hlim := hlim (by rw [ht]; trivial)
      rcases hpart with ⟨hw, hfit'⟩ | ⟨hep, hw⟩
      · -- the walk goes on behind the partition
        rw [hw] at hlim ⊢
        have hgs : goods (P.bad s) pe (min last e) = goods (P.bad s') pe (min last e) := by
          apply goods_congr
          intro i hi _
          exact (hbehind i hi).symm
        rw [hgs] at hshort
        apply (ih hcov hrest (Nat.le_refl pe) (by omega) hk' hlen' hfit' hshort).trans
        exact TableStops.cons_iff hptn hcov hfirst hpe (fun h => not_limited_at (hlim.mpr h)) hbehind
      · rw [hw] at hlim ⊢
        obtain ⟨x, hx, htest⟩ := hlim.mp ⟨s', rfl⟩
        exact iff_of_true ⟨s', rfl⟩ ⟨x, by omega, Or.inl htest⟩

/-! ## Writes from a page on -/

/-- The pages of a block from byte `k` on. -/
def freePages (c : NandRawCtrl) (k : Nat) : Nat := (c.blocksize - k) / c.pagesize

/-- The pages of some blocks, of the first one from byte `k` on. -/
def capacity (c : NandRawCtrl) (gs : List Nat) (k : Nat) : Nat :=
  match gs with
  | [] => 0
  | _ :: gs => freePages c k + gs.length * c.pages

theorem PageStart.free (hle : c.pageshift ≤ c.blockshift) {k : Nat} (hk : PageStart c k) :
    c.blocksize - k = freePages c k * c.pagesize ∧ 0 < freePages c k ∧
      freePages c k ≤ c.pages := by
  have hdvd : c.pagesize ∣ c.blocksize - k :=
    Nat.dvd_sub (Nat.pow_dvd_pow 2 hle) (Nat.dvd_of_mod_eq_zero hk.1)
  have heq : c.blocksize - k = freePages c k * c.pagesize := (Nat.div_mul_cancel hdvd).symm
  have hlt := hk.2
  refine ⟨heq, ?_, Nat.div_le_div_right (Nat.sub_le _ _)⟩
  apply Nat.pos_of_ne_zero
  intro hzero
  rw [hzero, Nat.zero_mul] at heq
  omega

theorem capacity_zero (gs : List Nat) : capacity c gs 0 = gs.length * c.pages := by
  cases gs with
  | nil => simp [capacity]
  | cons g gs =>
    rw [capacity, freePages, Nat.sub_zero, List.length_cons, Nat.succ_mul, Nat.add_comm]
    rfl

/-- A block that is left with bytes to go took a page for each of its own. -/
theorem writePages_left (hle : c.pageshift ≤ c.blockshift) (write_oob : Bool) {fuel p : Nat}
    {s s' : WriteState} {x len offset' len' : Nat} (hx : x % c.pagesize = 0)
    (hp : rest c x = p * c.pagesize) (hfuel : p ≤ fuel)
    (h : writePages c write_oob fuel s x len = .at s' offset' len') (hlen' : len' ≠ 0) :
    len = p * pageBytes c write_oob + len' := by
  have hpos := pagesize_pos c
  induction fuel generalizing s x len p with
  | zero =>
    have hlt := Nat.mod_lt x (blocksize_pos c)
    rw [Nat.le_zero.mp hfuel, Nat.zero_mul, rest] at hp
    omega
  | succ fuel ih =>
    obtain ⟨hx', hnext⟩ := next_page hle hx
    obtain ⟨q, rfl⟩ : ∃ q, p = q + 1 := by
      apply Nat.exists_eq_succ_of_ne_zero
      rintro rfl
      have hlt := Nat.mod_lt x (blocksize_pos c)
      rw [Nat.zero_mul, rest] at hp
      omega
    rw [Nat.succ_mul, rest] at hp
    rw [writePages_succ] at h
    dsimp only at h
    split at h
    · cases h
    · split at h
      · rename_i hmore
        have hn : min len c.pagesize = c.pagesize := by omega
        rw [hn] at hmore h
        have hrest : rest c (x + c.pagesize) = q * c.pagesize := by
          rw [rest]
          omega
        have hleft := ih hx' hrest (by omega) h
        rw [Nat.succ_mul, pageBytes] at *
        omega
      · rename_i hstop
        cases h
        have hn : min len c.pagesize = c.pagesize := by omega
        rw [hn] at hstop hlen' ⊢
        -- the block is full
        have hq : q = 0 := by
          apply Nat.eq_zero_of_not_pos
          intro hqpos
          have hmul := Nat.mul_le_mul_right c.pagesize hqpos
          omega
        rw [hq, Nat.zero_add, Nat.one_mul, pageBytes]
        omega

/-- A write is a lawful pass from any page on. -/
theorem lawful_writePass_pages (hpos : 1 ≤ c.pageshift) (hle : c.pageshift ≤ c.blockshift)
    (write_oob : Bool) : (writePass c write_oob).Lawful c (PageStart c) fun _ len => len := by
  have hbs := blocksize_pos c
  constructor
  · exact ⟨Nat.zero_mod _, hbs⟩
  -- a page start has room for a page, of at least two bytes
  · intro k hk
    have hroom := page_room hle hk.1
    have htwo : 2 ^ 1 ≤ c.pagesize := Nat.pow_le_pow_right (by omega) hpos
    rw [Nat.mod_eq_of_lt hk.2] at hroom
    omega
  · intro k len hlen
    exact Nat.pos_of_ne_zero hlen
  · intro s g k len s'
    exact writePages_not_limited _ _ _ _ _ _
  · intro s g k len s' offset' len' hk _ hb hlen'
    obtain ⟨hx, hrest⟩ := hk.offset hle g
    obtain ⟨-, hend⟩ := writePages_at hle write_oob hx (pages_room hle _) hb
    -- a block that is not the last is written to its end
    obtain ⟨hoff, hlt⟩ := hend hlen'
    have hk' := hk.2
    rw [hrest] at hoff
    rw [Nat.succ_mul]
    omega
  · intro s g k len s' offset' len' hk hb i _
    obtain ⟨hx, -⟩ := hk.offset hle g
    obtain ⟨hbad, -⟩ := writePages_at hle write_oob hx (pages_room hle _) hb
    exact congrFun hbad i

/-- The pages of some blocks do not suffice, and none of those that fit is refused. -/
def Overflows (c : NandRawCtrl) (write_oob : Bool) (buf : List UInt8) (cap : Nat) : Prop :=
  cap ≤ pagesOf c write_oob buf ∧ cap * pageBytes c write_oob < buf.length

/-- A write is not through behind its blocks iff these do not suffice; it has programmed
    something if there was one. -/
theorem writeTour_short (hle : c.pageshift ≤ c.blockshift) (write_oob : Bool) (gs : List Nat)
    {s : WriteState} {k : Nat} (hk : PageStart c k)
    (hmod : write_oob = true → s.buffer.length % pageBytes c write_oob = 0) :
    ((tour c.blocksize (writePass c write_oob).block gs s k s.buffer.length).IsShort ↔
      Overflows c write_oob s.buffer (capacity c gs k)) ∧
    ∀ s' k' len', tour c.blocksize (writePass c write_oob).block gs s k s.buffer.length =
      .short s' k' len' → (gs = [] → s' = s) ∧ (gs ≠ [] → s'.programmed ≠ []) := by
  have hbs := blocksize_pos c
  induction gs generalizing s k with
  | nil =>
    by_cases hlen : s.buffer.length = 0
    · rw [hlen, tour_zero]
      refine ⟨⟨fun h => h.elim, fun h => ?_⟩, fun s' k' len' h => by cases h⟩
      have hlt := h.2
      omega
    · rw [tour_nil hlen]
      constructor
      · refine iff_of_true trivial ⟨Nat.zero_le _, ?_⟩
        rw [capacity, Nat.zero_mul]
        exact Nat.pos_of_ne_zero hlen
      · intro s' k' len' h
        cases h
        exact ⟨fun _ => rfl, fun h => absurd rfl h⟩
  | cons g gs ih =>
    by_cases hlen : s.buffer.length = 0
    · rw [hlen, tour_zero]
      refine ⟨⟨fun h => h.elim, fun h => ?_⟩, fun s' k' len' h => by cases h⟩
      have hlt := h.2
      omega
    · obtain ⟨hx, hrest⟩ := hk.offset hle g
      obtain ⟨hfree, hfpos, hfle⟩ := hk.free hle
      rw [hfree] at hrest
      obtain ⟨s₁, hw⟩ := writePages_pages hle write_oob hx hrest hfle hlen hmod
      have hleft := fun offset' len' =>
        @writePages_left c hle write_oob _ _ s s₁ _ s.buffer.length offset' len' hx hrest hfle
      have hprog := hw.programmed
      simp only [tour, hlen, if_false, writePass, capacity]
      rcases hw.result with ⟨hfail, hlt⟩ | ⟨⟨offset, hat⟩, -, hbytes, hpages, hmod₁, hfull⟩
      · -- a page of this block is refused
        rw [hfail]
        refine ⟨⟨fun h => h.elim, fun h => ?_⟩, fun s' k' len' h => by cases h⟩
        have hcap := h.1
        omega
      · rw [hat]
        obtain ⟨hiff, hdone⟩ := ih ⟨Nat.zero_mod _, hbs⟩ hmod₁
        simp only [writePass] at hiff hdone
        dsimp only
        constructor
        · rw [hiff, Overflows, Overflows, capacity_zero, Nat.add_mul]
          constructor
          · rintro ⟨hcap, hlt⟩
            have hne : s₁.buffer.length ≠ 0 := by omega
            have hsum := hleft offset s₁.buffer.length hat hne
            have hp := hfull hne
            omega
          · rintro ⟨hcap, hlt⟩
            rw [Nat.min_eq_right (by omega)] at hbytes
            omega
        · intro s' k' len' h
          refine ⟨fun hnil => absurd hnil (List.cons_ne_nil g gs), fun _ => ?_⟩
          have hne : s₁.buffer.length ≠ 0 := by
            intro hz
            rw [hz, tour_zero] at h
            cases h
          have hmin : min (pagesOf c write_oob s.buffer) (freePages c k) = freePages c k :=
            Nat.min_eq_right (hfull hne)
          have hstart : s₁.programmed ≠ [] := by
            rw [hprog, hmin]
            simp [Nat.ne_of_gt hfpos]
          by_cases hgs : gs = []
          · rw [(hdone s' k' len' h).1 hgs]
            exact hstart
          · exact (hdone s' k' len' h).2 hgs

end Tntsat.NandRaw
