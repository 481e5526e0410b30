import Tntsat.ForStd.GoodBlocks
import Tntsat.Native.NandRaw

/-!
# A pass over the flash is a tour of its good blocks

`walk` goes from partition to partition, skips bad blocks and watches the limit of the
handle.  `tour` does the same work on a list: the good blocks from the one the pass
starts in up to the limit.  Where every partition lies behind the one before it, and a
run of bad blocks is shorter than 4 GiB, the walk ends as the tour does.

## Key results

- `checkSkipBadblock_spec`: what `check_skip_badblock` counts
- `walkPartition_spec`: one partition
- `walk_spec`: all partitions
- `physicalIndex_spec`: what `nand_raw_get_physical_index` counts
-/

namespace Tntsat.NandRaw

variable {σ : Type} {c : NandRawCtrl} {P : Pass σ} {K : Nat → Prop}

theorem blocksize_pos (c : NandRawCtrl) : 0 < c.blocksize := Nat.two_pow_pos _

/-! ## The table of partitions -/

/-- A partition holds the blocks from `pb` up to `pe`. -/
structure Blocks (c : NandRawCtrl) (ptn : MtdPartition) (pb pe : Nat) : Prop where
  start_eq : ptn.start = pb * c.blocksize
  end_eq : ptn.end + 1 = pe * c.blocksize
  lt : pb < pe

/-- The partitions hold the blocks from one number up to another, without a gap. -/
def Contiguous (c : NandRawCtrl) : List MtdPartition → Nat → Nat → Prop
  | [], first, last => first = last
  | ptn :: rest, first, last =>
    Blocks c ptn first ((ptn.end + 1) / c.blocksize) ∧
      Contiguous c rest ((ptn.end + 1) / c.blocksize) last

theorem Blocks.size_eq {ptn : MtdPartition} {pb pe : Nat} (h : Blocks c ptn pb pe) :
    ptn.size = (pe - pb) * c.blocksize := by
  have hle := Nat.mul_le_mul_right c.blocksize (Nat.le_of_lt h.lt)
  have hpos := Nat.mul_lt_mul_of_pos_right h.lt (blocksize_pos c)
  rw [MtdPartition.size, h.start_eq, Nat.sub_mul, ← h.end_eq]
  have hend := h.end_eq
  omega

theorem Contiguous.le {parts : List MtdPartition} {first last : Nat}
    (h : Contiguous c parts first last) : first ≤ last := by
  induction parts generalizing first with
  | nil => exact Nat.le_of_eq h
  | cons ptn rest ih => exact Nat.le_trans (Nat.le_of_lt h.1.lt) (ih h.2)

/-! ## Runs of bad blocks -/

/-- The number of blocks that are 4 GiB. -/
def wrapBlocks (c : NandRawCtrl) : Nat := 2 ^ 32 / c.blocksize

/-- Block `x` of a partition is bad, and so are those behind it, for 4 GiB. -/
def LongRun (c : NandRawCtrl) (bad : Nat → Bool) (x : Nat) : Prop :=
  ∃ ptn ∈ c.partition, ptn.start ≤ x * c.blocksize ∧
    (x + wrapBlocks c) * c.blocksize ≤ ptn.end + 1 ∧ ∀ i < wrapBlocks c, bad (x + i) = true

/-- A pass over `need` good blocks from block `b` on, with the limit at block `e`, comes
    to no such run: neither between these blocks nor between the last one and the limit. -/
def SkipsFit (c : NandRawCtrl) (bad : Nat → Bool) (b e need : Nat) : Prop :=
  ∀ x, b ≤ x → (goods bad b x).length < need → (goods bad b x).length ≤ (goods bad b e).length →
    ¬ LongRun c bad x

theorem LongRun.congr {bad bad' : Nat → Bool} {x : Nat} (h : LongRun c bad' x)
    (hbad : ∀ i, x ≤ i → bad' i = bad i) : LongRun c bad x := by
  obtain ⟨ptn, hmem, hstart, hend, hrun⟩ := h
  refine ⟨ptn, hmem, hstart, hend, ?_⟩
  intro i hi
  rw [← hbad (x + i) (by omega)]
  exact hrun i hi

/-- Where a run of bad blocks has been skipped. -/
theorem SkipsFit.skip {bad : Nat → Bool} {b e need n : Nat} (h : SkipsFit c bad b e need)
    (hrun : ∀ i < n, bad (b + i) = true) : SkipsFit c bad (b + n) e need := by
  intro x hx hneed hcap
  rw [← goods_skip hrun] at hneed hcap
  rw [← goods_skip hrun] at hcap
  exact h x (by omega) hneed hcap

/-- Where a good block lies behind; the pass may have changed what is known of it. -/
theorem SkipsFit.next {bad bad' : Nat → Bool} {b e need need' : Nat} (h : SkipsFit c bad b e need)
    (hgood : bad b = false) (hbe : b < e) (hneed : need' < need)
    (hbad : ∀ i, b < i → bad' i = bad i) : SkipsFit c bad' (b + 1) e need' := by
  intro x hx hlt hle hrun
  have hcongr : ∀ y, goods bad' (b + 1) y = goods bad (b + 1) y := fun y =>
    goods_congr fun i hi _ => hbad i hi
  rw [hcongr] at hlt hle
  rw [hcongr] at hle
  apply h x (by omega) _ _ (hrun.congr fun i hi => hbad i (by omega))
  · rw [goods_of_good (by omega) hgood, List.length_cons]
    omega
  · rw [goods_of_good (by omega) hgood, goods_of_good hbe hgood, List.length_cons, List.length_cons]
    omega

theorem blocksToBytes_of_lt {rel : Nat} (h : rel < wrapBlocks c) :
    blocksToBytes c rel = rel * c.blocksize := by
  apply u32_of_lt
  have hle : (rel + 1) * c.blocksize ≤ 2 ^ 32 := by
    apply Nat.le_trans (Nat.mul_le_mul_right _ h)
    exact Nat.div_mul_le_self _ _
  have hpos := blocksize_pos c
  rw [Nat.add_mul, Nat.one_mul] at hle
  change rel * c.blocksize < 4294967296
  omega

section Skip

variable (bad : Nat → Bool) {ptn : MtdPartition} {pb pe : Nat}

theorem badAt_block (hptn : Blocks c ptn pb pe) (i : Nat) :
    badAt c bad ptn (i * c.blocksize) = bad (pb + i) := by
  rw [badAt, hptn.start_eq, ← Nat.add_mul, Nat.mul_div_cancel _ (blocksize_pos c)]

theorem skipLoop_spec (hptn : Blocks c ptn pb pe) {fuel i : Nat} (hi : pb + i < pe)
    (hfuel : pe ≤ pb + i + fuel) :
    (∀ j < skipLoop c bad ptn fuel i, bad (pb + i + j) = true) ∧
      pb + i + skipLoop c bad ptn fuel i ≤ pe ∧
      (pb + i + skipLoop c bad ptn fuel i = pe ∨
        bad (pb + i + skipLoop c bad ptn fuel i) = false) := by
  induction fuel generalizing i with
  | zero => omega
  | succ fuel ih =>
    simp only [skipLoop, badAt_block bad hptn, hptn.size_eq]
    split
    · rename_i hbad
      split
      · rename_i hlt
        have hlt := Nat.lt_of_mul_lt_mul_right hlt
        obtain ⟨hrun, hle, hend⟩ := ih (i := i + 1) (by omega) (by omega)
        rw [show pb + (i + 1) = pb + i + 1 by omega, Nat.add_assoc (pb + i) 1] at hle hend
        refine ⟨?_, hle, hend⟩
        -- the first block is bad, the rest is the run behind it
        intro j hj
        cases j with
        | zero => exact hbad
        | succ j =>
          rw [show pb + i + (j + 1) = pb + (i + 1) + j by omega]
          exact hrun j (by omega)
      · rename_i hge
        have hge : pe - pb ≤ i + 1 := by
          by_contra hlt
          exact hge (Nat.mul_lt_mul_of_pos_right (Nat.lt_of_not_le hlt) (blocksize_pos c))
        refine ⟨?_, by omega, Or.inl (by omega)⟩
        intro j hj
        rw [show j = 0 by omega]
        exact hbad
    · rename_i hgood
      exact ⟨fun j hj => absurd hj (Nat.not_lt_zero j), Nat.le_of_lt hi, Or.inr (by simpa using hgood)⟩

/-- `check_skip_badblock` counts the bad blocks from a block on, up to the end of the
    partition. -/
theorem checkSkipBadblock_spec (hptn : Blocks c ptn pb pe) {b : Nat} (hpb : pb ≤ b) (hpe : b < pe) :
    (∀ j < checkSkipBadblock c bad ptn (b - pb), bad (b + j) = true) ∧
      b + checkSkipBadblock c bad ptn (b - pb) ≤ pe ∧
      (b + checkSkipBadblock c bad ptn (b - pb) = pe ∨
        bad (b + checkSkipBadblock c bad ptn (b - pb)) = false) := by
  have hfuel : ptn.size / c.blocksize = pe - pb := by
    rw [hptn.size_eq, Nat.mul_div_cancel _ (blocksize_pos c)]
  have hb : pb + (b - pb) = b := by omega
  have hlast : pe ≤ pb + (b - pb) + (pe - pb) := by omega
  have hspec := skipLoop_spec bad hptn (i := b - pb) (by omega) hlast
  rw [hb] at hspec
  rw [checkSkipBadblock, hfuel]
  exact hspec

/-- The run that is skipped is shorter than 4 GiB. -/
theorem checkSkipBadblock_lt {bad : Nat → Bool} (hptn : Blocks c ptn pb pe) (hmem : ptn ∈ c.partition) {b : Nat}
    (hpb : pb ≤ b) (hpe : b < pe) (hfit : ¬ LongRun c bad b) :
    checkSkipBadblock c bad ptn (b - pb) < wrapBlocks c := by
  obtain ⟨hrun, hle, -⟩ := checkSkipBadblock_spec bad hptn hpb hpe
  by_contra hge
  apply hfit
  refine ⟨ptn, hmem, ?_, ?_, fun i hi => hrun i (by omega)⟩
  · rw [hptn.start_eq]
    exact Nat.mul_le_mul_right _ hpb
  · rw [hptn.end_eq]
    apply Nat.mul_le_mul_right
    omega

end Skip

/-! ## Tours -/

/-- What a tour leaves. -/
inductive Tour (σ : Type)
  /-- nothing is left to do -/
  | done (s : σ)
  /-- no block is left, but so many bytes, the next one at an offset in its block -/
  | short (s : σ) (k len : Nat)
  /-- left with a result -/
  | failed (s : σ) (ret : Int)

/-- What a pass does in one block after the other, from byte `k` of the first one on. -/
def tour (bs : Nat) (block : σ → Nat → Nat → Walk σ) : List Nat → σ → Nat → Nat → Tour σ
  | [], s, k, len => if len = 0 then .done s else .short s k len
  | g :: gs, s, k, len =>
    if len = 0 then .done s
    else
      match block s (g * bs + k) len with
      | .at s _ len => tour bs block gs s 0 len
      | .limited s => .short s k len
      | .failed s ret => .failed s ret

/-- The rest of a tour. -/
def Tour.andThen : Tour σ → (σ → Nat → Nat → Tour σ) → Tour σ
  | .done s, _ => .done s
  | .short s k len, f => f s k len
  | .failed s ret, _ => .failed s ret

/-- What is asked of a pass: `K` tells at which bytes a block may be entered, and `need`
    how many blocks it takes from there. -/
structure Pass.Lawful (c : NandRawCtrl) (P : Pass σ) (K : Nat → Prop) (need : Nat → Nat → Nat) :
    Prop where
  zero : K 0
  room : ∀ k, K k → k + 2 ≤ c.blocksize
  need_pos : ∀ k len, len ≠ 0 → 0 < need k len
  not_limited : ∀ s g k len s', P.block s (g * c.blocksize + k) len ≠ .limited s'
  next : ∀ s g k len s' offset' len', K k → len ≠ 0 →
    P.block s (g * c.blocksize + k) len = .at s' offset' len' → len' ≠ 0 →
    offset' = (g + 1) * c.blocksize ∧ need 0 len' < need k len
  keeps : ∀ s g k len s' offset' len', K k → P.block s (g * c.blocksize + k) len =
    .at s' offset' len' → ∀ i, g < i → P.bad s' i = P.bad s i

section Tour

variable {need : Nat → Nat → Nat} {bs : Nat} {block : σ → Nat → Nat → Walk σ}

@[simp] theorem tour_zero (gs : List Nat) (s : σ) (k : Nat) :
    tour bs block gs s k 0 = .done s := by
  cases gs <;> simp [tour]

theorem tour_nil {s : σ} {k len : Nat} (hlen : len ≠ 0) :
    tour bs block [] s k len = .short s k len := if_neg hlen

/-- A tour of two lists of blocks. -/
theorem tour_append (hK : ∀ s g k len s', block s (g * bs + k) len ≠ .limited s')
    (gs gs' : List Nat) (s : σ) (k len : Nat) : tour bs block (gs ++ gs') s k len =
      (tour bs block gs s k len).andThen (tour bs block gs') := by
  induction gs generalizing s k len with
  | nil =>
    by_cases hlen : len = 0
    · simp [hlen, Tour.andThen]
    · rw [tour_nil hlen]
      rfl
  | cons g gs ih =>
    by_cases hlen : len = 0
    · simp [hlen, Tour.andThen]
    · simp only [List.cons_append, tour, hlen, if_false]
      cases hb : block s (g * bs + k) len with
      | «at» s' _ len' => exact ih s' 0 len'
      | limited s' => exact absurd hb (hK _ _ _ _ _)
      | failed s' ret => rfl

/-- Where the blocks did not suffice. -/
theorem tour_short (hP : P.Lawful c K need) {gs : List Nat} {s s' : σ} {k len k' len' : Nat}
    (hk : K k) (h : tour c.blocksize P.block gs s k len = .short s' k' len') :
    (K k' ∧ len' ≠ 0) ∧ ∀ i, (∀ g ∈ gs, g < i) → P.bad s' i = P.bad s i := by
  induction gs generalizing s k len with
  | nil =>
    rw [tour] at h
    split at h
    · cases h
    · cases h
      simp_all
  | cons g gs ih =>
    simp only [tour] at h
    split at h
    · cases h
    · cases hb : P.block s (g * c.blocksize + k) len with
      | «at» s₁ offset₁ len₁ =>
        rw [hb] at h
        obtain ⟨hk', hbad⟩ := ih hP.zero h
        refine ⟨hk', fun i hi => ?_⟩
        rw [hbad i fun g hg => hi g (List.mem_cons_of_mem _ hg)]
        exact hP.keeps s g k len s₁ offset₁ len₁ hk hb i (hi g List.mem_cons_self)
      | limited s₁ => exact absurd hb (hP.not_limited _ _ _ _ _)
      | failed s₁ ret =>
        rw [hb] at h
        cases h

end Tour

/-! ## The walk -/

section Walk

variable {need : Nat → Nat → Nat} {o e : Nat}

/-- How a walk over one partition ends: `x` is the block it stands at if it was neither
    done nor stopped. -/
def EndsAt (c : NandRawCtrl) (P : Pass σ) (need : Nat → Nat → Nat) (e pe x : Nat) :
    Tour σ → Option (Walk σ) → Prop
  | .done s, w => ∃ offset, w = some (.at s offset 0)
  | .short s k len, w =>
    w = some (.at s (x * c.blocksize + k) len) ∧ SkipsFit c (P.bad s) x e (need k len) ∨
      e ≤ pe ∧ w = some (.limited s)
  | .failed s ret, w => w = some (.failed s ret)

/-- The limit of the handle, in blocks. -/
theorem beyond_iff (hoe : o ≤ e) {b k : Nat} (hob : o ≤ b) (hk : k < c.blocksize) :
    b * c.blocksize + k - o * c.blocksize ≥ (e - o) * c.blocksize ↔ e ≤ b := by
  have hsub : b * c.blocksize + k - o * c.blocksize = (b - o) * c.blocksize + k := by
    have hle := Nat.mul_le_mul_right c.blocksize hob
    rw [Nat.sub_mul]
    omega
  rw [hsub]
  constructor
  · intro h
    by_contra hlt
    have hle := Nat.mul_le_mul_right c.blocksize (show b - o + 1 ≤ e - o by omega)
    rw [Nat.add_mul, Nat.one_mul] at hle
    omega
  · intro h
    have hle := Nat.mul_le_mul_right c.blocksize (show e - o ≤ b - o by omega)
    omega

section Inside

variable {ptn : MtdPartition} {pb pe b k len : Nat}

/-- Behind its last block the walk leaves the partition. -/
theorem Blocks.walk_out (hptn : Blocks c ptn pb pe) :
    ¬ (ptn.start ≤ pe * c.blocksize + k ∧ pe * c.blocksize + k < ptn.end ∧ len ≠ 0) := by
  have hend := hptn.end_eq
  omega

/-- Up to there it stands in one of its blocks. -/
theorem Blocks.walk_in (hptn : Blocks c ptn pb pe) (hpb : pb ≤ b) (hlt : b < pe)
    (hroom : k + 2 ≤ c.blocksize) (hlen : len ≠ 0) :
    ptn.start ≤ b * c.blocksize + k ∧ b * c.blocksize + k < ptn.end ∧ len ≠ 0 := by
  have hend := hptn.end_eq
  have h1 := Nat.mul_le_mul_right c.blocksize hpb
  have h2 := Nat.mul_le_mul_right c.blocksize (Nat.succ_le_of_lt hlt)
  rw [Nat.succ_mul] at h2
  rw [hptn.start_eq]
  omega

/-- The number of that block. -/
theorem Blocks.walk_index (hptn : Blocks c ptn pb pe) (hpb : pb ≤ b) (hk : k < c.blocksize) :
    (b * c.blocksize + k - ptn.start) / c.blocksize = b - pb := by
  rw [hptn.start_eq, Nat.add_comm, Nat.add_sub_assoc (Nat.mul_le_mul_right _ hpb),
    ← Nat.sub_mul, Nat.add_mul_div_right _ _ (blocksize_pos c), Nat.div_eq_of_lt hk, Nat.zero_add]

/-- The bad blocks from there on are not too many to be skipped. -/
theorem Pass.Lawful.few (hP : P.Lawful c K need) (hptn : Blocks c ptn pb pe)
    (hmem : ptn ∈ c.partition) (hpb : pb ≤ b) (hlt : b < pe) {s : σ} (hlen : len ≠ 0)
    (hfit : SkipsFit c (P.bad s) b e (need k len)) :
    checkSkipBadblock c (P.bad s) ptn (b - pb) < wrapBlocks c := by
  apply checkSkipBadblock_lt hptn hmem hpb hlt
  apply hfit b (Nat.le_refl b)
  · rw [goods_nil (Nat.le_refl b)]
    exact hP.need_pos k len hlen
  · rw [goods_nil (Nat.le_refl b)]
    exact Nat.zero_le _

end Inside

/-- One partition: the walk from a block of it ends as the tour of the good blocks up to
    its end, or up to the limit. -/
theorem walkPartition_spec (hP : P.Lawful c K need) {ptn : MtdPartition} {pb pe : Nat}
    (hptn : Blocks c ptn pb pe) (hmem : ptn ∈ c.partition) (hoe : o ≤ e) {fuel b : Nat} {s : σ}
    {k len : Nat} (hfuel : pe < b + fuel) (hpb : pb ≤ b) (hpe : b ≤ pe) (hob : o ≤ b) (hk : K k)
    (hlen : len ≠ 0) (hfit : SkipsFit c (P.bad s) b e (need k len)) :
    EndsAt c P need e pe pe
      (tour c.blocksize P.block (goods (P.bad s) b (min pe e)) s k len)
      (walkPartition c P (o * c.blocksize) ((e - o) * c.blocksize) ptn fuel s
        (b * c.blocksize + k) len) := by
  induction fuel generalizing b s k len with
  | zero => omega
  | succ fuel ih =>
    have hroom := hP.room k hk
    rcases Nat.eq_or_lt_of_le hpe with rfl | hlt
    · -- at the end of the partition
      rw [goods_nil (Nat.min_le_left b e), tour_nil hlen, walkPartition, if_neg hptn.walk_out]
      exact Or.inl ⟨rfl, hfit⟩
    · -- how many bad blocks there are
      obtain ⟨hrun, hle, hstop⟩ := checkSkipBadblock_spec (P.bad s) hptn hpb hlt
      have hfew := hP.few hptn hmem hpb hlt hlen hfit
      have hbeyond := beyond_iff (c := c) hoe hob (k := k) (by omega)
      rw [walkPartition, if_pos (hptn.walk_in hpb hlt hroom hlen),
        hptn.walk_index hpb (by omega)]
      simp only [hbeyond]
      split
      · -- the limit is tested first
        rename_i hlim
        rw [goods_nil (Nat.le_trans (Nat.min_le_right pe e) hlim.2), tour_nil hlen]
        exact Or.inr ⟨by omega, rfl⟩
      · split
        · -- bad blocks are skipped
          rename_i hrel
          rw [blocksToBytes_of_lt hfew, goods_skip hrun, Nat.add_right_comm, ← Nat.add_mul]
          exact ih (by omega) (by omega) hle (by omega) hk hlen (hfit.skip hrun)
        · rename_i hrel
          have hgood : P.bad s b = false := by
            rcases hstop with hstop | hstop
            · omega
            · rwa [Nat.eq_zero_of_not_pos hrel] at hstop
          split
          · rename_i hlim
            rw [goods_nil (Nat.le_trans (Nat.min_le_right pe e) hlim), tour_nil hlen]
            exact Or.inr ⟨by omega, rfl⟩
          · -- a good block in front of the limit
            rename_i hlim
            rw [goods_of_good (by omega) hgood]
            simp only [tour, hlen, if_false]
            cases hb : P.block s (b * c.blocksize + k) len with
            | «at» s' offset' len' =>
              have hbad := hP.keeps s b k len s' offset' len' hk hb
              by_cases hlen' : len' = 0
              · subst hlen'
                obtain ⟨fuel', rfl⟩ : ∃ fuel', fuel = fuel' + 1 := ⟨fuel - 1, by omega⟩
                simp only [tour_zero, walkPartition, ne_eq, not_true_eq_false, and_false, if_false]
                exact ⟨offset', rfl⟩
              · obtain ⟨rfl, hneed⟩ := hP.next s b k len s' offset' len' hk hlen hb hlen'
                have hgs : goods (P.bad s) (b + 1) (min pe e) =
                    goods (P.bad s') (b + 1) (min pe e) := by
                  apply goods_congr
                  intro i hi _
                  exact (hbad i hi).symm
                rw [hgs]
                exact ih (k := 0) (by omega) (by omega) hlt (by omega) hP.zero hlen'
                  (hfit.next hgood (by omega) hneed hbad)
            | limited s' => exact absurd hb (hP.not_limited _ _ _ _ _)
            | failed s' ret => rfl

/-- A walk that starts at the end of a partition or behind it leaves it at once. -/
theorem walkPartition_behind {ptn : MtdPartition} {pb pe : Nat} (hptn : Blocks c ptn pb pe)
    (openaddr limit_len fuel : Nat) {b : Nat} (s : σ) (k len : Nat) (hpe : pe ≤ b) :
    walkPartition c P openaddr limit_len ptn (fuel + 1) s (b * c.blocksize + k) len =
      some (.at s (b * c.blocksize + k) len) := by
  have hle := Nat.mul_le_mul_right c.blocksize hpe
  have hend := hptn.end_eq
  apply if_neg
  omega

/-- How a walk ends. -/
def Ends : Tour σ → Option (Walk σ) → Prop
  | .done s, w => ∃ offset, w = some (.at s offset 0)
  | .short s _ len, w => (∃ offset, w = some (.at s offset len)) ∨ w = some (.limited s)
  | .failed s ret, w => w = some (.failed s ret)

/-- One partition, and then the others. -/
theorem walk_cons (openaddr limit_len : Nat) (ptn : MtdPartition) (rest : List MtdPartition)
    (s : σ) (offset : Nat) {len : Nat} (hlen : len ≠ 0) :
    walk c P openaddr limit_len (ptn :: rest) s offset len =
      match walkPartition c P openaddr limit_len ptn (ptn.size / c.blocksize + 1) s offset len with
      | some (.at s offset len) => walk c P openaddr limit_len rest s offset len
      | w => w := by
  cases hpart : walkPartition c P openaddr limit_len ptn (ptn.size / c.blocksize + 1) s offset len with
  | none => simp only [walk, if_neg hlen, hpart]
  | some w => cases w <;> simp only [walk, if_neg hlen, hpart]

theorem walk_zero (openaddr limit_len : Nat) (parts : List MtdPartition) (s : σ) (offset : Nat) :
    walk c P openaddr limit_len parts s offset 0 = some (.at s offset 0) := by
  cases parts with
  | nil => rfl
  | cons ptn rest => rw [walk, if_pos rfl]

/-- The walk over all partitions ends as the tour of the good blocks up to the limit. -/
theorem walk_spec (hP : P.Lawful c K need) (hoe : o ≤ e) {parts : List MtdPartition}
    {first last b : Nat} (hcov : Contiguous c parts first last)
    (hsub : ∀ ptn ∈ parts, ptn ∈ c.partition) (hfirst : first ≤ b) (hob : o ≤ b) {s : σ}
    {k len : Nat} (hk : K k) (hlen : len ≠ 0) (hfit : SkipsFit c (P.bad s) b e (need k len)) :
    Ends (tour c.blocksize P.block (goods (P.bad s) b (min last e)) s k len)
      (walk c P (o * c.blocksize) ((e - o) * c.blocksize) parts s (b * c.blocksize + k) len) := by
  induction parts generalizing first b s k len with
  | nil =>
    have hlast : first = last := hcov
    rw [goods_nil (by omega), tour_nil hlen]
    exact Or.inl ⟨_, rfl⟩
  | cons ptn rest ih =>
    obtain ⟨hptn, hcov⟩ := hcov
    have hrest : ∀ q ∈ rest, q ∈ c.partition := fun q hq => hsub q (List.mem_cons_of_mem _ hq)
    have hmem := hsub ptn List.mem_cons_self
    rw [walk_cons _ _ _ _ _ _ hlen]
    revert hptn hcov
    generalize (ptn.end + 1) / c.blocksize = pe
    intro hptn hcov
    have hpl := hcov.le
    rcases Nat.le_total pe b with hpe | hpe
    · rw [walkPartition_behind hptn _ _ _ _ _ _ hpe]
      exact ih hcov hrest hpe hob hk hlen hfit
    · have hfuel : pe < b + (ptn.size / c.blocksize + 1) := by
        rw [hptn.size_eq, Nat.mul_div_cancel _ (blocksize_pos c)]
        omega
      have hpart := walkPartition_spec hP hptn hmem hoe hfuel hfirst hpe hob hk hlen hfit
      -- the good blocks of the partition, and those behind it
      rw [goods_min_append hpe hpl, tour_append hP.not_limited]
      cases ht : tour c.blocksize P.block (goods (P.bad s) b (min pe e)) s k len with
      | done s' =>
        rw [ht] at hpart
        obtain ⟨offset', hw⟩ := hpart
        rw [hw]
        exact ⟨offset', walk_zero _ _ _ _ _⟩
      | failed s' ret =>
        rw [ht] at hpart
        have hw : _ = some (Walk.failed s' ret) := hpart
        rw [hw]
        rfl
      | short s' k' len' =>
        rw [ht] at hpart
        obtain ⟨⟨hk', hlen'⟩, hbad⟩ := tour_short hP hk ht
        -- what is known of the blocks behind the partition
        have hgs : goods (P.bad s) pe (min last e) = goods (P.bad s') pe (min last e) := by
          apply goods_congr
          intro i hi _
          apply Eq.symm
          apply hbad i
          intro g hg
          have hlt := (mem_goods.mp hg).1.2
          omega
        rcases hpart with ⟨hw, hfit'⟩ | ⟨hep, hw⟩
        · rw [hw]
          simp only [Tour.andThen, hgs]
          exact ih hcov hrest (Nat.le_refl pe) (by omega) hk' hlen' hfit'
        · rw [hw]
          simp only [Tour.andThen]
          rw [goods_nil (by omega), tour_nil hlen']
          exact Or.inr rfl

end Walk

/-! ## From logical to physical blocks -/

section Scan

variable {bad : Nat → Bool} {o L last : Nat}

/-- The scan stands behind blocks that do not hold enough good ones. -/
structure ScanInv (c : NandRawCtrl) (bad : Nat → Bool) (o L last : Nat) (s : PhysicalScan) :
    Prop where
  offset_eq : s.offset_addr = (o + s.physical_index) * c.blocksize
  count : s.i = (goods bad o (o + s.physical_index)).length
  le : s.i ≤ L
  least : ∀ m < s.physical_index, (goods bad o (o + m)).length < L ∧ o + m < last

/-- One block. -/
theorem ScanInv.step {s : PhysicalScan} (h : ScanInv c bad o L last s) {ptn : MtdPartition}
    {pb pe : Nat} (hptn : Blocks c ptn pb pe) (hpb : pb ≤ o + s.physical_index)
    (hlast : o + s.physical_index < last) (hi : s.i < L) :
    ScanInv c bad o L last
      { i := if badAt c bad ptn (s.offset_addr - ptn.start) then s.i else s.i + 1
        physical_index := s.physical_index + 1
        offset_addr := s.offset_addr + c.blocksize } := by
  have hbad : badAt c bad ptn (s.offset_addr - ptn.start) = bad (o + s.physical_index) := by
    rw [h.offset_eq, hptn.start_eq, ← Nat.sub_mul, badAt_block bad hptn]
    congr 1
    omega
  rw [hbad]
  constructor
  · dsimp only
    rw [h.offset_eq, ← Nat.add_assoc, Nat.succ_mul]
  · dsimp only
    rw [← Nat.add_assoc, goods_snoc (Nat.le_add_right _ _), List.length_append, ← h.count]
    cases bad (o + s.physical_index) <;> rfl
  · dsimp only
    split <;> omega
  · intro m hm
    rcases Nat.lt_succ_iff_lt_or_eq.mp hm with hm | rfl
    · exact h.least m hm
    · exact ⟨h.count ▸ hi, hlast⟩

theorem scanPartition_spec (hbs : 2 ≤ c.blocksize) {ptn : MtdPartition} {pb pe : Nat}
    (hptn : Blocks c ptn pb pe) (hpl : pe ≤ last) {fuel : Nat} {s : PhysicalScan}
    (h : ScanInv c bad o L last s) (hpb : s.i = L ∨ pb ≤ o + s.physical_index)
    (hfuel : pe < o + s.physical_index + fuel ∨ s.i = L) :
    ScanInv c bad o L last (scanPartition c bad ptn L fuel s) ∧
      ((scanPartition c bad ptn L fuel s).i = L ∨
        pe ≤ o + (scanPartition c bad ptn L fuel s).physical_index) := by
  induction fuel generalizing s with
  | zero => exact ⟨h, by rw [scanPartition]; omega⟩
  | succ fuel ih =>
    rw [scanPartition]
    have hend := hptn.end_eq
    have hoff := h.offset_eq
    split
    · rename_i hin
      -- a block of the partition
      have hx : o + s.physical_index < pe := by
        apply Nat.lt_of_mul_lt_mul_right (a := c.blocksize)
        omega
      apply ih (h.step hptn (by omega) (by omega) hin.1)
      · dsimp only
        omega
      · dsimp only
        omega
    · rename_i hout
      apply And.intro h
      by_cases hi : s.i < L
      · apply Or.inr
        by_contra hx
        have hle := Nat.mul_le_mul_right c.blocksize (Nat.succ_le_of_lt (Nat.lt_of_not_le hx))
        rw [Nat.succ_mul] at hle
        omega
      · have hle := h.le
        omega

theorem scanPartitions_spec (hbs : 2 ≤ c.blocksize) {parts : List MtdPartition} {first : Nat}
    (hcov : Contiguous c parts first last) {s : PhysicalScan} (h : ScanInv c bad o L last s)
    (hfirst : s.i = L ∨ first ≤ o + s.physical_index) :
    ScanInv c bad o L last (scanPartitions c bad (o * c.blocksize) L parts s) ∧
      ((scanPartitions c bad (o * c.blocksize) L parts s).i = L ∨
        last ≤ o + (scanPartitions c bad (o * c.blocksize) L parts s).physical_index) := by
  induction parts generalizing first s with
  | nil =>
    have hlast : first = last := hcov
    subst hlast
    exact ⟨h, hfirst⟩
  | cons ptn rest ih =>
    obtain ⟨hptn, hcov⟩ := hcov
    rw [scanPartitions]
    split
    -- the partition lies in front of the position that has been reached
    · rename_i hskip
      apply ih hcov h
      rw [hptn.end_eq] at hskip
      have hle := Nat.le_of_mul_le_mul_right hskip (blocksize_pos c)
      omega
    · have hfuel : ptn.size / c.blocksize = (ptn.end + 1) / c.blocksize - first := by
        rw [hptn.size_eq, Nat.mul_div_cancel _ (blocksize_pos c)]
      have hlt := hptn.lt
      -- the scan of a partition reaches its end, unless all is found before
      have hfuel' : (ptn.end + 1) / c.blocksize <
          o + s.physical_index + (ptn.size / c.blocksize + 1) ∨ s.i = L := by omega
      obtain ⟨h', hstop⟩ := scanPartition_spec hbs hptn hcov.le h hfirst hfuel'
      exact ih hcov h' hstop

/-- `nand_raw_get_physical_index` counts the blocks that hold the good ones asked for, or
    all up to the end of the flash; fewer do not. -/
theorem physicalIndex_spec (bad : Nat → Bool) (L : Nat) (hbs : 2 ≤ c.blocksize) {first : Nat}
    (hcov : Contiguous c c.partition first last) (hfirst : first ≤ o) :
    let m := nandRawGetPhysicalIndex c bad (o * c.blocksize) L
    ((goods bad o (o + m)).length = L ∨ (goods bad o (o + m)).length < L ∧ last ≤ o + m) ∧
      ∀ j < m, (goods bad o (o + j)).length < L ∧ o + j < last := by
  have hinit : ScanInv c bad o L last
      { i := 0, physical_index := 0, offset_addr := o * c.blocksize } := by
    constructor
    · rfl
    · simp [goods_nil]
    · exact Nat.zero_le L
    · simp
  obtain ⟨h, hstop⟩ := scanPartitions_spec hbs hcov hinit (Or.inr hfirst)
  have hle := h.le
  have hcount := h.count
  constructor
  · unfold nandRawGetPhysicalIndex
    omega
  · exact h.least

end Scan

/-! ## Handles -/

/-- A handle on the blocks from `o` up to `e` of a flash whose partitions hold the blocks
    from `first` up to `last`; a block is a 32-bit `int` of bytes. -/
structure Opened (c : NandRawCtrl) (f : FlashInfo) (first last o e : Nat) : Prop where
  pageshift_pos : 1 ≤ c.pageshift
  page_le : c.pageshift ≤ c.blockshift
  blockshift_lt : c.blockshift < 31
  contiguous : Contiguous c c.partition first last
  size_eq : c.size = last * c.blocksize
  first_le : first ≤ o
  open_eq : f.open_addr = o * c.blocksize
  limit_eq : f.limit_len = (e - o) * c.blocksize
  le : o ≤ e
  le_last : e ≤ last

section Handle

variable {f : FlashInfo} {first last o e : Nat}

theorem Opened.two_le (h : Opened c f first last o e) : 2 ≤ c.blocksize := by
  have hle := Nat.pow_le_pow_right (n := 2) (by omega) (Nat.le_trans h.pageshift_pos h.page_le)
  exact hle

theorem Opened.one_lt_wrap (h : Opened c f first last o e) : 1 < wrapBlocks c := by
  have hle : 2 * c.blocksize ≤ 2 ^ 32 := by
    rw [NandRawCtrl.blocksize, ← Nat.pow_succ']
    have hshift := h.blockshift_lt
    exact Nat.pow_le_pow_right (by omega) (by omega)
  exact (Nat.le_div_iff_mul_le (blocksize_pos c)).mpr hle

/-- The address in the flash lies as far in its block as the address of the call. -/
theorem Opened.start_mod (h : Opened c f first last o e) (bad : Nat → Bool) (addr : Nat) :
    compensateNandAddress c bad addr f.open_addr % c.blocksize = addr % c.blocksize := by
  have hword : c.blocksize ∣ 4294967296 := by
    have hlt := h.blockshift_lt
    exact Nat.pow_dvd_pow 2 (show c.blockshift ≤ 32 by omega)
  have hshift : ∀ n, c.blocksize ∣ blocksToBytes c n := fun n =>
    (Nat.dvd_mod_iff hword).mpr (Nat.dvd_mul_left c.blocksize n)
  obtain ⟨u, hu⟩ := Nat.dvd_add (Nat.dvd_mul_left c.blocksize o)
    (hshift (nandRawGetPhysicalIndex c bad f.open_addr (addr >>> c.blockshift)))
  rw [← h.open_eq] at hu
  rw [compensateNandAddress, hu, Nat.mul_add_mod, Nat.mod_mod]

/-- A call starts in the handle or behind it. -/
theorem Opened.le_start (h : Opened c f first last o e) (bad : Nat → Bool) (addr : Nat) :
    o ≤ compensateNandAddress c bad addr f.open_addr / c.blocksize := by
  apply (Nat.le_div_iff_mul_le (blocksize_pos c)).mpr
  rw [compensateNandAddress, h.open_eq]
  omega

end Handle

end Tntsat.NandRaw
