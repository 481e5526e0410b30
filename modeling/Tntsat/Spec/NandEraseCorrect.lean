import Mathlib.Algebra.Group.Nat.Defs
import Mathlib.Data.List.Nodup
import Tntsat.Spec.NandPages

/-!
# A write that erases first

`mt_flash_write` with `MT_FLASH_RW_FLAG_ERASE_FIRST` erases as many blocks as the data
take and then writes.  A block that cannot be erased is marked bad and counts as erased
all the same, so the write, which skips it, goes on to a block that was not erased.

## Key results

- `eraseTour_spec`: the blocks that are erased, and those that are marked bad
- `writeTour_pages`: the blocks that are programmed
- `erase_first_iff`: every block that is programmed was erased iff the blocks that were
  erased suffice, or there are no others
- `writes_unerased_block`: a block that is programmed and was not erased
-/

namespace Tntsat.NandRaw

variable {c : NandRawCtrl}

/-! ## The pages of a buffer -/

/-- The bytes of the buffer that go into one page. -/
def pageBytes (c : NandRawCtrl) (write_oob : Bool) : Nat := c.pagesize + numOob write_oob

/-- The next page is not written: there are not enough bytes for its OOB area, or these
    would mark the block bad. -/
def RefusesPage (c : NandRawCtrl) (write_oob : Bool) (buf : List UInt8) : Prop :=
  write_oob = true ∧ buf.length - min buf.length c.pagesize < oobused ∨
    marksBad (pageOob buf write_oob (min buf.length c.pagesize)) = true

instance (c : NandRawCtrl) (write_oob : Bool) (buf : List UInt8) :
    Decidable (RefusesPage c write_oob buf) :=
  inferInstanceAs (Decidable (_ ∨ _))

/-- The pages in front of the first one that is not written. -/
def cleanPages (c : NandRawCtrl) (write_oob : Bool) : Nat → List UInt8 → Nat
  | 0, _ => 0
  | fuel + 1, buf =>
    if buf.length = 0 ∨ RefusesPage c write_oob buf then 0
    else cleanPages c write_oob fuel (buf.drop (pageBytes c write_oob)) + 1

/-- The pages of a buffer. -/
def pagesOf (c : NandRawCtrl) (write_oob : Bool) (buf : List UInt8) : Nat :=
  cleanPages c write_oob buf.length buf

theorem pageBytes_pos (c : NandRawCtrl) (write_oob : Bool) : 0 < pageBytes c write_oob :=
  Nat.lt_of_lt_of_le (pagesize_pos c) (Nat.le_add_right _ _)

theorem cleanPages_fuel (write_oob : Bool) (fuel fuel' : Nat) {buf : List UInt8}
    (h : buf.length ≤ fuel) (h' : buf.length ≤ fuel') :
    cleanPages c write_oob fuel buf = cleanPages c write_oob fuel' buf := by
  induction fuel generalizing fuel' buf with
  | zero =>
    have hzero : buf.length = 0 := Nat.le_zero.mp h
    cases fuel' with
    | zero => rfl
    | succ fuel' => simp [cleanPages, hzero]
  | succ fuel ih =>
    cases fuel' with
    | zero =>
      have hzero : buf.length = 0 := Nat.le_zero.mp h'
      simp [cleanPages, hzero]
    | succ fuel' =>
      have hpos := pageBytes_pos c write_oob
      simp only [cleanPages]
      split
      · rfl
      · rw [ih fuel']
        · rw [List.length_drop]
          omega
        · rw [List.length_drop]
          omega

theorem pagesOf_nil {write_oob : Bool} {buf : List UInt8} (h : buf.length = 0) :
    pagesOf c write_oob buf = 0 := by
  simp [pagesOf, h, cleanPages]

/-- The first page of a buffer, and the others. -/
theorem pagesOf_cons {write_oob : Bool} {buf : List UInt8} (h : buf.length ≠ 0) :
    pagesOf c write_oob buf =
      if RefusesPage c write_oob buf then 0
      else pagesOf c write_oob (buf.drop (pageBytes c write_oob)) + 1 := by
  obtain ⟨n, hn⟩ := Nat.exists_eq_succ_of_ne_zero h
  have hpos := pageBytes_pos c write_oob
  rw [pagesOf, hn, cleanPages]
  simp only [h, false_or]
  split
  · rfl
  · rw [pagesOf, cleanPages_fuel _ _ (buf.drop (pageBytes c write_oob)).length]
    · rw [List.length_drop]
      omega
    · exact Nat.le_refl _

/-! ## One block -/

/-- What one page leaves of the buffer, and where it went. -/
theorem afterPage_spec {write_oob : Bool} {s : WriteState} (x : Nat)
    (hclean : ¬ RefusesPage c write_oob s.buffer) :
    let n := min s.buffer.length c.pagesize
    let s' := s.afterPage c write_oob x s.buffer.length
    s'.buffer = s.buffer.drop (pageBytes c write_oob) ∧
      s'.buffer.length = s.buffer.length - n - numOob write_oob ∧
      s'.totalwrite + s'.buffer.length = s.totalwrite + s.buffer.length ∧
      s'.programmed = s.programmed ++ [x / c.blocksize] ∧ s'.nand.bad = s.nand.bad := by
  have hoob : numOob write_oob ≤ s.buffer.length - min s.buffer.length c.pagesize := by
    rw [RefusesPage, not_or] at hclean
    cases write_oob with
    | false => exact Nat.zero_le _
    | true => exact Nat.le_of_not_lt fun h => hclean.1 ⟨rfl, h⟩
  have hbuf : (s.afterPage c write_oob x s.buffer.length).buffer =
      s.buffer.drop (min s.buffer.length c.pagesize + numOob write_oob) := rfl
  have hleft : (s.afterPage c write_oob x s.buffer.length).buffer.length =
      s.buffer.length - min s.buffer.length c.pagesize - numOob write_oob := by
    rw [hbuf, List.length_drop, Nat.sub_sub]
  refine ⟨?_, hleft, ?_, rfl, rfl⟩
  · rcases Nat.le_total c.pagesize s.buffer.length with hge | hle
    · rw [hbuf, Nat.min_eq_right hge]
      rfl
    · -- the last page
      have hle' : s.buffer.length ≤ pageBytes c write_oob :=
        Nat.le_trans hle (Nat.le_add_right _ _)
      rw [hbuf, Nat.min_eq_left hle, List.drop_eq_nil_of_le (Nat.le_add_right _ _),
        List.drop_eq_nil_of_le hle']
  · rw [hleft]
    simp only [WriteState.afterPage, WriteState.program]
    omega

/-- One page of a block, with what is left in the buffer. -/
theorem writePages_page (write_oob : Bool) (fuel : Nat) (s : WriteState) (x : Nat)
    (hclean : ¬ RefusesPage c write_oob s.buffer) :
    writePages c write_oob (fuel + 1) s x s.buffer.length =
      let n := min s.buffer.length c.pagesize
      let s' := s.afterPage c write_oob x s.buffer.length
      if s'.buffer.length ≠ 0 ∧ (x + n) % c.blocksize ≠ 0 then
        writePages c write_oob fuel s' (x + n) s'.buffer.length
      else .at s' (x + n) s'.buffer.length := by
  obtain ⟨-, hleft, -⟩ := afterPage_spec x hclean
  rw [RefusesPage] at hclean
  rw [writePages_succ]
  dsimp only
  rw [if_neg hclean, hleft]

/-- How a block is left, when `p` pages of it were free and the buffer held `w`. -/
structure BlockWritten (c : NandRawCtrl) (write_oob : Bool) (p g : Nat) (s s' : WriteState)
    (w : Walk WriteState) : Prop where
  programmed : s'.programmed =
    s.programmed ++ List.replicate (min (pagesOf c write_oob s.buffer) p) g
  result : w = .failed s' (-1) ∧ pagesOf c write_oob s.buffer < p ∨
    (∃ offset, w = .at s' offset s'.buffer.length) ∧
      s'.totalwrite + s'.buffer.length = s.totalwrite + s.buffer.length ∧
      s.buffer.length ≤
        min (pagesOf c write_oob s.buffer) p * pageBytes c write_oob + s'.buffer.length ∧
      pagesOf c write_oob s'.buffer = pagesOf c write_oob s.buffer - p ∧
      (write_oob = true → s'.buffer.length % pageBytes c write_oob = 0) ∧
      (s'.buffer.length ≠ 0 → p ≤ pagesOf c write_oob s.buffer)

/-- The pages of one block: as many as are free, or as the buffer holds. -/
theorem writePages_pages (hle : c.pageshift ≤ c.blockshift) (write_oob : Bool) {fuel p x : Nat}
    {s : WriteState} (hx : x % c.pagesize = 0) (hp : rest c x = p * c.pagesize) (hfuel : p ≤ fuel)
    (hlen : s.buffer.length ≠ 0)
    (hmod : write_oob = true → s.buffer.length % pageBytes c write_oob = 0) :
    ∃ s', BlockWritten c write_oob p (x / c.blocksize) s s'
      (writePages c write_oob fuel s x s.buffer.length) := by
  have hbs := blocksize_pos c
  have hpos := pagesize_pos c
  have hlt := Nat.mod_lt x hbs
  induction fuel generalizing p x s with
  | zero =>
    rw [Nat.le_zero.mp hfuel, Nat.zero_mul, rest] at hp
    omega
  | succ fuel ih =>
    by_cases href : RefusesPage c write_oob s.buffer
    · -- the first page is refused
      have hzero : pagesOf c write_oob s.buffer = 0 := by
        rw [pagesOf_cons hlen, if_pos href]
      have hppos : 0 < p := by
        apply Nat.pos_of_ne_zero
        rintro rfl
        rw [Nat.zero_mul, rest] at hp
        omega
      refine ⟨s, ?_, ?_⟩
      · simp [hzero]
      · apply Or.inl
        rw [hzero, writePages_succ]
        exact ⟨if_pos href, hppos⟩
    · have hpages : pagesOf c write_oob s.buffer =
          pagesOf c write_oob (s.buffer.drop (pageBytes c write_oob)) + 1 := by
        rw [pagesOf_cons hlen, if_neg href]
      obtain ⟨hbuf, hleft, htotal, hprog, hbad⟩ := afterPage_spec x href
      rw [← hbuf] at hpages
      obtain ⟨hx', hnext⟩ := next_page hle hx
      obtain ⟨q, rfl⟩ : ∃ q, p = q + 1 := by
        apply Nat.exists_eq_succ_of_ne_zero
        rintro rfl
        rw [Nat.zero_mul, rest] at hp
        omega
      rw [Nat.succ_mul, rest] at hp
      rw [writePages_page write_oob fuel s x href]
      revert hbuf hleft htotal hprog hbad hpages
      generalize s.afterPage c write_oob x s.buffer.length = s₁
      intro hpages hbuf hleft htotal hprog hbad
      -- a page is full when bytes are left behind it
      have hfull : s₁.buffer.length ≠ 0 →
          min s.buffer.length c.pagesize = c.pagesize ∧
            s.buffer.length = pageBytes c write_oob + s₁.buffer.length := by
        intro hne
        rw [pageBytes]
        omega
      have hmod₁ : write_oob = true → s₁.buffer.length % pageBytes c write_oob = 0 := by
        intro hoob
        by_cases hne : s₁.buffer.length = 0
        · rw [hne, Nat.zero_mod]
        · have hm := hmod hoob
          rwa [(hfull hne).2, Nat.add_mod_left] at hm
      have hbytes : s.buffer.length ≤ pageBytes c write_oob + s₁.buffer.length := by
        rw [pageBytes]
        omega
      dsimp only
      split
      · rename_i hmore
        obtain ⟨hn, hsum⟩ := hfull hmore.1
        rw [hn] at hmore ⊢
        have hsame : (x + c.pagesize) / c.blocksize = x / c.blocksize := by
          have h1 := Nat.div_add_mod (x + c.pagesize) c.blocksize
          have h2 := Nat.div_add_mod x c.blocksize
          apply Nat.eq_of_mul_eq_mul_left hbs
          omega
        have hp' : rest c (x + c.pagesize) = q * c.pagesize := by
          rw [rest]
          omega
        obtain ⟨s', hw⟩ := ih hx' hp' (by omega) hmore.1 hmod₁ (Nat.mod_lt _ hbs)
        rw [hsame] at hw
        refine ⟨s', ?_, ?_⟩
        · rw [hw.programmed, hprog, hpages, Nat.add_min_add_right, List.append_assoc,
            List.replicate_succ]
          rfl
        · rw [hpages, Nat.add_min_add_right, Nat.add_mul]
          rcases hw.result with ⟨hfail, hlt'⟩ | ⟨hat, htot, hby, hpg, hm, hq⟩
          · exact Or.inl ⟨hfail, by omega⟩
          · refine Or.inr ⟨hat, by omega, by omega, by omega, hm, fun hne => ?_⟩
            have hq' := hq hne
            omega
      · rename_i hstop
        -- the block is full, or the buffer is empty
        have hone : min (pagesOf c write_oob s.buffer) (q + 1) = 1 ∧
            pagesOf c write_oob s₁.buffer = pagesOf c write_oob s.buffer - (q + 1) := by
          by_cases hne : s₁.buffer.length = 0
          · rw [hpages, pagesOf_nil hne]
            omega
          · obtain ⟨hn, -⟩ := hfull hne
            rw [hn] at hstop
            have hq : q = 0 := by
              apply Nat.eq_zero_of_not_pos
              intro hqpos
              have hmul := Nat.mul_le_mul_right c.pagesize hqpos
              omega
            rw [hq, hpages]
            omega
        refine ⟨s₁, ?_, Or.inr ⟨⟨_, rfl⟩, htotal, ?_, hone.2, hmod₁, ?_⟩⟩
        · rw [hone.1, hprog]
          rfl
        · rw [hone.1, Nat.one_mul]
          exact hbytes
        · intro hne
          obtain ⟨hn, -⟩ := hfull hne
          rw [hn] at hstop
          have hq : q = 0 := by
            apply Nat.eq_zero_of_not_pos
            intro hqpos
            have hmul := Nat.mul_le_mul_right c.pagesize hqpos
            omega
          omega

/-! ## Lawful passes over whole blocks -/

/-- A block that is left with bytes to go is full. -/
theorem writePages_at (hle : c.pageshift ≤ c.blockshift) (write_oob : Bool) {fuel : Nat}
    {s s' : WriteState} {x len offset' len' : Nat} (hx : x % c.pagesize = 0)
    (hfuel : rest c x ≤ fuel * c.pagesize)
    (h : writePages c write_oob fuel s x len = .at s' offset' len') :
    s'.nand.bad = s.nand.bad ∧ (len' ≠ 0 → offset' = x + rest c x ∧ len' < len) := by
  have hpos := pagesize_pos c
  induction fuel generalizing s x len with
  | zero =>
    have hlt := Nat.mod_lt x (blocksize_pos c)
    rw [rest] at hfuel
    omega
  | succ fuel ih =>
    have hroom := page_room hle hx
    obtain ⟨hx', hnext⟩ := next_page hle hx
    rw [Nat.succ_mul, rest] at hfuel
    rw [writePages_succ] at h
    dsimp only at h
    split at h
    · cases h
    · split at h
      -- a whole page was written and the next one is in the same block
      · rename_i hmore
        have hn : min len c.pagesize = c.pagesize := by omega
        rw [hn] at hmore h
        obtain ⟨-, hrest⟩ := rest_next hle hx hmore.2
        obtain ⟨hbad, hend⟩ := ih hx' (by rw [hrest, rest]; omega) h
        refine ⟨hbad, fun hne => ?_⟩
        obtain ⟨hoff, hlt⟩ := hend hne
        rw [hrest] at hoff
        rw [rest] at hoff ⊢
        omega
      -- the page was the last of its block, or of the buffer
      · rename_i hstop
        cases h
        refine ⟨rfl, fun hne => ?_⟩
        have hn : min len c.pagesize = c.pagesize := by omega
        rw [hn] at hstop ⊢
        rw [rest]
        omega

/-- A pass that starts at the beginning of a block. -/
def BlockStart (k : Nat) : Prop := k = 0

theorem lawful_writePass_oob {f : FlashInfo} {first last o e : Nat} (h : Opened c f first last o e)
    (write_oob : Bool) : (writePass c write_oob).Lawful c BlockStart fun _ len => len := by
  have hpage : ∀ g, (g * c.blocksize + 0) % c.pagesize = 0 ∧
      rest c (g * c.blocksize + 0) = c.blocksize := fun g =>
    PageStart.offset h.page_le ⟨Nat.zero_mod _, blocksize_pos c⟩ g
  constructor
  · rfl
  · rintro k rfl
    exact h.two_le
  · intro k len hlen
    exact Nat.pos_of_ne_zero hlen
  · intro s g k len s'
    exact writePages_not_limited _ _ _ _ _ _
  · rintro s g k len s' offset' len' rfl _ hb hlen'
    obtain ⟨-, hend⟩ := writePages_at h.page_le write_oob (hpage g).1 (pages_room h.page_le _) hb
    obtain ⟨hoff, hlt⟩ := hend hlen'
    rw [hoff, (hpage g).2, Nat.succ_mul]
    exact ⟨rfl, hlt⟩
  · rintro s g k len s' offset' len' rfl hb i _
    obtain ⟨hbad, -⟩ := writePages_at h.page_le write_oob (hpage g).1 (pages_room h.page_le _) hb
    exact congrFun hbad i

theorem block_div (c : NandRawCtrl) (g : Nat) : (g * c.blocksize + 0) / c.blocksize = g :=
  Nat.mul_div_cancel _ (blocksize_pos c)

/-- The state behind the erase of block `g`. -/
def EraseState.next (c : NandRawCtrl) (fails : Nat → Bool) (s : EraseState) (g : Nat) :
    EraseState :=
  if fails g then
    { s with
      nand := { s.nand with bad := fun i => if i = g then true else s.nand.bad i }
      totalerase := s.totalerase + c.blocksize }
  else
    { nand := { s.nand with data := fun x => if x / c.blocksize = g then 0xFF else s.nand.data x }
      erased := s.erased ++ [g]
      totalerase := s.totalerase + c.blocksize }

theorem eraseBlock_start (fails : Nat → Bool) (s : EraseState) (g len : Nat) :
    eraseBlock c fails s (g * c.blocksize + 0) len =
      .at (s.next c fails g) (g * c.blocksize + 0 + blocksToBytes c 1) (len - c.blocksize) := by
  simp only [eraseBlock, block_div, EraseState.next]
  split <;> rfl

theorem next_erased (fails : Nat → Bool) (s : EraseState) (g : Nat) :
    (s.next c fails g).erased = s.erased ++ [g].filter fun i => !fails i := by
  unfold EraseState.next
  split
  · rename_i hf
    simp [hf]
  · rename_i hf
    simp [hf]

theorem next_totalerase (fails : Nat → Bool) (s : EraseState) (g : Nat) :
    (s.next c fails g).totalerase = s.totalerase + c.blocksize := by
  unfold EraseState.next
  split <;> rfl

theorem next_bad (fails : Nat → Bool) (s : EraseState) (g i : Nat) :
    (s.next c fails g).nand.bad i = (s.nand.bad i || (decide (i = g) && fails i)) := by
  unfold EraseState.next
  by_cases hi : i = g
  · subst hi
    split
    · rename_i hf
      simp [hf]
    · rename_i hf
      simp [hf]
  · split <;> simp [hi]

theorem lawful_erasePass {f : FlashInfo} {first last o e : Nat} (h : Opened c f first last o e)
    (fails : Nat → Bool) : (erasePass c fails).Lawful c BlockStart fun _ len => len := by
  have hone : blocksToBytes c 1 = c.blocksize := by
    rw [blocksToBytes_of_lt h.one_lt_wrap, Nat.one_mul]
  constructor
  · rfl
  · rintro k rfl
    exact h.two_le
  · intro k len hlen
    exact Nat.pos_of_ne_zero hlen
  · intro s g k len s' hb
    cases hb
  · rintro s g k len s' offset' len' rfl hlen hb _
    change eraseBlock c fails s (g * c.blocksize + 0) len = _ at hb
    rw [eraseBlock_start, hone] at hb
    cases hb
    have hpos := blocksize_pos c
    rw [Nat.succ_mul]
    omega
  · rintro s g k len s' offset' len' rfl hb i hi
    change eraseBlock c fails s (g * c.blocksize + 0) len = _ at hb
    rw [eraseBlock_start] at hb
    cases hb
    change (s.next c fails g).nand.bad i = s.nand.bad i
    rw [next_bad, decide_eq_false (Nat.ne_of_gt hi), Bool.false_and, Bool.or_false]

/-! ## The blocks that are erased -/

/-- What a tour that erases leaves, when it is to erase `n` blocks. -/
structure ErasedBlocks (c : NandRawCtrl) (fails : Nat → Bool) (gs : List Nat) (n : Nat)
    (s s' : EraseState) : Prop where
  erased : s'.erased = s.erased ++ (gs.take n).filter fun i => !fails i
  totalerase : s'.totalerase = s.totalerase + (gs.take n).length * c.blocksize
  bad_eq : ∀ i, s'.nand.bad i = (s.nand.bad i || (decide (i ∈ gs.take n) && fails i))

theorem eraseTour_spec (fails : Nat → Bool) (gs : List Nat) (n : Nat) (s : EraseState) :
    ∃ s', ((∃ k' len', tour c.blocksize (erasePass c fails).block gs s 0 (n * c.blocksize) =
          .short s' k' len') ∨
        tour c.blocksize (erasePass c fails).block gs s 0 (n * c.blocksize) = .done s') ∧
      ErasedBlocks c fails gs n s s' := by
  have hpos := blocksize_pos c
  induction gs generalizing n s with
  | nil =>
    -- no good block is left
    have hsame : ErasedBlocks c fails [] n s s := by
      constructor <;> simp
    by_cases hn : n * c.blocksize = 0
    · exact ⟨s, Or.inr (by simp [hn]), hsame⟩
    · exact ⟨s, Or.inl ⟨0, n * c.blocksize, by simp [tour, hn]⟩, hsame⟩
  | cons g gs ih =>
    cases n with
    | zero =>
      refine ⟨s, Or.inr (by simp), ?_⟩
      constructor <;> simp
    | succ n =>
      have hlen : (n + 1) * c.blocksize ≠ 0 := by
        rw [Nat.succ_mul]
        omega
      have hleft : (n + 1) * c.blocksize - c.blocksize = n * c.blocksize := by
        rw [Nat.succ_mul, Nat.add_sub_cancel]
      -- a block is erased, or marked as bad when that fails; either way it counts
      have hblock : (erasePass c fails).block s (g * c.blocksize + 0) ((n + 1) * c.blocksize) = _ :=
        eraseBlock_start fails s g _
      rw [hleft] at hblock
      obtain ⟨s', htour, hs'⟩ := ih n (s.next c fails g)
      refine ⟨s', ?_, ?_, ?_, ?_⟩
      · simp only [tour, hlen, if_false, hblock]
        exact htour
      · rw [hs'.erased, next_erased, List.take_succ_cons, List.append_assoc, ← List.filter_append]
        rfl
      · rw [hs'.totalerase, next_totalerase, List.take_succ_cons, List.length_cons, Nat.succ_mul]
        omega
      -- the blocks marked are those of the front that could not be erased
      · intro i
        rw [hs'.bad_eq, next_bad, List.take_succ_cons]
        by_cases hi : i = g
        · subst hi
          cases fails i <;> simp
        · simp [hi]

/-! ## The blocks that are programmed -/

/-- The number of blocks that pages lie in. -/
def blocksOf (c : NandRawCtrl) (pages : Nat) : Nat := (pages + c.pages - 1) / c.pages

theorem pages_pos (hle : c.pageshift ≤ c.blockshift) : 0 < c.pages :=
  Nat.div_pos (Nat.pow_le_pow_right (by omega) hle) (pagesize_pos c)

theorem block_pages (hle : c.pageshift ≤ c.blockshift) : c.blocksize = c.pages * c.pagesize := by
  have hdvd : c.pagesize ∣ c.blocksize := Nat.pow_dvd_pow 2 hle
  exact (Nat.div_mul_cancel hdvd).symm

theorem blocksOf_zero (hle : c.pageshift ≤ c.blockshift) : blocksOf c 0 = 0 := by
  have hpos := pages_pos hle
  exact Nat.div_eq_of_lt (by omega)

theorem blocksOf_succ (hle : c.pageshift ≤ c.blockshift) {n : Nat} (hn : n ≠ 0) :
    blocksOf c n = blocksOf c (n - c.pages) + 1 := by
  have hpos := pages_pos hle
  rcases Nat.le_total c.pages n with hge | hlt
  · have hsum : n + c.pages - 1 = n - c.pages + c.pages - 1 + c.pages := by omega
    rw [blocksOf, blocksOf, hsum, Nat.add_div_right _ hpos]
  · rw [Nat.sub_eq_zero_of_le hlt, blocksOf_zero hle, blocksOf,
      show n + c.pages - 1 = n - 1 + c.pages by omega, Nat.add_div_right _ hpos,
      Nat.div_eq_of_lt (by omega)]

/-- The blocks that are programmed: the first ones, as many as the pages fill. -/
def Programs (c : NandRawCtrl) (write_oob : Bool) (gs : List Nat) (s s' : WriteState) : Prop :=
  ∀ b, b ∈ s'.programmed ↔
    b ∈ s.programmed ∨ b ∈ gs.take (blocksOf c (pagesOf c write_oob s.buffer))

/-- How a tour that writes ends. -/
def WriteEnds (c : NandRawCtrl) (write_oob : Bool) (gs : List Nat) (s : WriteState) :
    Tour WriteState → Prop
  | .done s' => Programs c write_oob gs s s' ∧
      s'.totalwrite = s.totalwrite + s.buffer.length ∧
      s.buffer.length ≤ pagesOf c write_oob s.buffer * pageBytes c write_oob ∧
      s.buffer.length ≤ gs.length * (c.pages * pageBytes c write_oob)
  | .short s' _ len' => Programs c write_oob gs s s' ∧ len' ≠ 0 ∧
      s'.totalwrite + len' = s.totalwrite + s.buffer.length
  | .failed s' ret => Programs c write_oob gs s s' ∧ ret = -1

/-- A block in front of a tour. -/
theorem Programs.cons (hle : c.pageshift ≤ c.blockshift) {write_oob : Bool} {g : Nat}
    {gs : List Nat} {s s' : WriteState} (s₁ : WriteState)
    (hprog : s₁.programmed =
      s.programmed ++ List.replicate (min (pagesOf c write_oob s.buffer) c.pages) g)
    (hpages : pagesOf c write_oob s₁.buffer = pagesOf c write_oob s.buffer - c.pages)
    (h : Programs c write_oob gs s₁ s') : Programs c write_oob (g :: gs) s s' := by
  intro b
  rw [h b, hprog, List.mem_append, hpages, or_assoc]
  have hpos := pages_pos hle
  by_cases hzero : pagesOf c write_oob s.buffer = 0
  · simp [hzero, blocksOf_zero hle]
  · have hmin : min (pagesOf c write_oob s.buffer) c.pages ≠ 0 := by omega
    rw [blocksOf_succ hle hzero, List.take_succ_cons, List.mem_cons, List.mem_replicate]
    simp [hmin]

theorem writeTour_pages (hle : c.pageshift ≤ c.blockshift) (write_oob : Bool) (gs : List Nat)
    {s : WriteState}
    (hmod : write_oob = true → s.buffer.length % pageBytes c write_oob = 0) :
    WriteEnds c write_oob gs s
      (tour c.blocksize (writePass c write_oob).block gs s 0 s.buffer.length) := by
  have hbs := blocksize_pos c
  have hnone : ∀ (gs : List Nat) (s : WriteState), s.buffer.length = 0 →
      Programs c write_oob gs s s := by
    intro gs s hzero b
    simp [pagesOf_nil hzero, blocksOf_zero hle]
  induction gs generalizing s with
  | nil =>
    by_cases hlen : s.buffer.length = 0
    · rw [hlen, tour_zero]
      exact ⟨hnone [] s hlen, by omega, by omega, by omega⟩
    · rw [tour_nil hlen]
      exact ⟨by intro b; simp, hlen, rfl⟩
  | cons g gs ih =>
    by_cases hlen : s.buffer.length = 0
    · rw [hlen, tour_zero]
      exact ⟨hnone (g :: gs) s hlen, by omega, by omega, by omega⟩
    · have hstart := PageStart.offset hle ⟨Nat.zero_mod c.pagesize, hbs⟩ g
      obtain ⟨s₁, hw⟩ := writePages_pages hle write_oob hstart.1
        (hstart.2.trans (block_pages hle)) (Nat.le_refl c.pages) hlen hmod
      rw [block_div] at hw
      simp only [tour, hlen, if_false, writePass]
      rcases hw.result with ⟨hfail, hlt⟩ | ⟨⟨offset, hat⟩, htotal, hbytes, hpages, hmod₁, -⟩
      · -- a page of this block is refused
        rw [hfail]
        refine ⟨?_, rfl⟩
        have hempty : Programs c write_oob gs { s₁ with buffer := [] } s₁ := by
          intro b
          simp [pagesOf_nil, blocksOf_zero hle]
        apply hempty.cons hle { s₁ with buffer := [] } hw.programmed
        rw [pagesOf_nil rfl, Nat.sub_eq_zero_of_le (Nat.le_of_lt hlt)]
      · rw [hat]
        have hrest := ih hmod₁
        simp only [writePass] at hrest
        dsimp only
        have hmul : min (pagesOf c write_oob s.buffer) c.pages * pageBytes c write_oob ≤
            c.pages * pageBytes c write_oob := Nat.mul_le_mul_right _ (Nat.min_le_right _ _)
        have hsplit : pagesOf c write_oob s.buffer * pageBytes c write_oob =
            min (pagesOf c write_oob s.buffer) c.pages * pageBytes c write_oob +
              pagesOf c write_oob s₁.buffer * pageBytes c write_oob := by
          rw [← Nat.add_mul, hpages]
          congr 1
          omega
        revert hrest
        cases tour c.blocksize (writePages c write_oob c.pages) gs s₁ 0 s₁.buffer.length with
        | done s' =>
          rintro ⟨hprog, htot, hcl, hcap⟩
          refine ⟨hprog.cons hle s₁ hw.programmed hpages, by omega, by omega, ?_⟩
          rw [List.length_cons, Nat.succ_mul]
          omega
        | short s' k' len' =>
          rintro ⟨hprog, hne, htot⟩
          exact ⟨hprog.cons hle s₁ hw.programmed hpages, hne, by omega⟩
        | failed s' ret =>
          rintro ⟨hprog, hret⟩
          exact ⟨hprog.cons hle s₁ hw.programmed hpages, hret⟩

/-! ## The call -/

/-- The block the call starts in. -/
def startBlock (c : NandRawCtrl) (f : FlashInfo) (nand : Nand) (addr : Nat) : Nat :=
  compensateNandAddress c nand.bad addr f.open_addr / c.blocksize

/-- The blocks that are to be erased. -/
def blocksToErase (c : NandRawCtrl) (len : Nat) (write_oob : Bool) : Nat :=
  eraseLen c len write_oob / c.blocksize

/-- The good blocks from the start of the call up to the limit, which is block `e`. -/
def candidates (c : NandRawCtrl) (f : FlashInfo) (nand : Nand) (addr e : Nat) : List Nat :=
  goods nand.bad (startBlock c f nand addr) e

/-- The call is refused for its address, its length or the size of a page. -/
def Refused (c : NandRawCtrl) (f : FlashInfo) (addr : Nat) (buf : List UInt8) (write_oob : Bool) :
    Prop :=
  addrLenValid addr (if write_oob then lenWithoutOob c buf.length else buf.length) f.limit_len =
      false ∨
    (write_oob = true ∧ buf.length % pageBytes c write_oob ≠ 0) ∨ nandPageBufSize < c.pagesize

instance (c : NandRawCtrl) (f : FlashInfo) (addr : Nat) (buf : List UInt8) (write_oob : Bool) :
    Decidable (Refused c f addr buf write_oob) :=
  inferInstanceAs (Decidable (_ ∨ _ ∨ _))

/-- The pages that are to be written. -/
def writablePages (c : NandRawCtrl) (f : FlashInfo) (addr : Nat) (buf : List UInt8)
    (write_oob : Bool) : Nat :=
  if Refused c f addr buf write_oob then 0 else pagesOf c write_oob buf

/-- The call ends, what it programs it has erased, and where there are too few blocks that
    are good and can be erased, its result is an error or a short count. -/
def ErasesFirst (c : NandRawCtrl) (f : FlashInfo) (nand : Nand) (fails : Nat → Bool) (addr : Nat)
    (buf : List UInt8) (write_oob : Bool) (e : Nat) : Prop :=
  ∃ r, mtFlashWrite c f nand fails addr buf write_oob true = some r ∧
    (∀ b ∈ r.programmed, b ∈ r.erased) ∧
    (((candidates c f nand addr e).filter fun i => !fails i).length <
      blocksToErase c buf.length write_oob → r.ret < buf.length)

/-- There are no good blocks beside those that are to be erased, or of these enough can be
    erased to hold the pages. -/
def ErasedSuffice (c : NandRawCtrl) (f : FlashInfo) (nand : Nand) (fails : Nat → Bool) (addr : Nat)
    (buf : List UInt8) (write_oob : Bool) (e : Nat) : Prop :=
  (candidates c f nand addr e).length ≤ blocksToErase c buf.length write_oob ∨
    writablePages c f addr buf write_oob ≤
      (((candidates c f nand addr e).take (blocksToErase c buf.length write_oob)).filter
        fun i => !fails i).length * c.pages

instance (c : NandRawCtrl) (f : FlashInfo) (nand : Nand) (fails : Nat → Bool) (addr : Nat)
    (buf : List UInt8) (write_oob : Bool) (e : Nat) :
    Decidable (ErasedSuffice c f nand fails addr buf write_oob e) :=
  inferInstanceAs (Decidable (_ ∨ _))

section Lengths

variable {write_oob : Bool} {len : Nat}

theorem blockBytes_eq (hle : c.pageshift ≤ c.blockshift) (write_oob : Bool) :
    (if write_oob then c.blocksize + oobused * (c.blocksize / c.pagesize) else c.blocksize) =
      c.pages * pageBytes c write_oob := by
  have hbp := block_pages hle
  cases write_oob with
  | false => exact hbp.trans (congrArg _ (Nat.add_zero _).symm)
  | true =>
    rw [if_pos rfl, pageBytes, Nat.mul_add, ← hbp, numOob, if_pos rfl, Nat.mul_comm oobused]
    rfl

theorem eraseLen_eq (write_oob : Bool) (len : Nat) :
    eraseLen c len write_oob = blocksToErase c len write_oob * c.blocksize := by
  rw [blocksToErase, eraseLen, Nat.mul_div_cancel _ (blocksize_pos c)]

theorem blocksToErase_eq (hle : c.pageshift ≤ c.blockshift) :
    blocksToErase c len write_oob = len / (c.pages * pageBytes c write_oob) +
      if len % (c.pages * pageBytes c write_oob) ≠ 0 then 1 else 0 := by
  rw [blocksToErase, eraseLen, Nat.mul_div_cancel _ (blocksize_pos c)]
  simp only [blockBytes_eq hle]

/-- Blocks that hold the bytes are as many as are erased. -/
theorem blocksToErase_le (hle : c.pageshift ≤ c.blockshift) {n : Nat}
    (h : len ≤ n * (c.pages * pageBytes c write_oob)) : blocksToErase c len write_oob ≤ n := by
  have hpos : 0 < c.pages * pageBytes c write_oob :=
    Nat.mul_pos (pages_pos hle) (pageBytes_pos c write_oob)
  have hmod := Nat.div_add_mod len (c.pages * pageBytes c write_oob)
  rw [blocksToErase_eq hle]
  split
  · -- a block that is not full
    apply Nat.succ_le_of_lt
    apply Nat.lt_of_mul_lt_mul_left (a := c.pages * pageBytes c write_oob)
    rw [Nat.mul_comm _ n]
    omega
  · rw [Nat.add_zero]
    exact Nat.div_le_of_le_mul (by rwa [Nat.mul_comm])

theorem blocksToErase_zero (hle : c.pageshift ≤ c.blockshift) :
    blocksToErase c len write_oob = 0 ↔ len = 0 := by
  rw [blocksToErase_eq hle]
  constructor
  · intro h
    have hmod := Nat.div_add_mod len (c.pages * pageBytes c write_oob)
    obtain ⟨hdiv, hrem⟩ := Nat.add_eq_zero_iff.mp h
    rw [hdiv, Nat.mul_zero, Nat.zero_add] at hmod
    by_contra hne
    rw [if_pos (by omega)] at hrem
    cases hrem
  · rintro rfl
    simp

end Lengths

section Lists

variable {fails : Nat → Bool} {gs : List Nat}

/-- What is left of the good blocks when some of the first ones have turned bad. -/
theorem filter_marked (hgs : gs.Nodup) (n : Nat) :
    (gs.filter fun i => !(decide (i ∈ gs.take n) && fails i)) =
      (gs.take n).filter (fun i => !fails i) ++ gs.drop n := by
  have hdisj := List.disjoint_take_drop hgs (Nat.le_refl n)
  have hsplit : gs.filter (fun i => !(decide (i ∈ gs.take n) && fails i)) =
      (gs.take n ++ gs.drop n).filter fun i => !(decide (i ∈ gs.take n) && fails i) := by
    rw [List.take_append_drop]
  rw [hsplit, List.filter_append]
  congr 1
  · apply List.filter_congr
    intro i hi
    simp [hi]
  · apply List.filter_eq_self.mpr
    intro i hi
    have hnot : i ∉ gs.take n := fun hmem => hdisj hmem hi
    simp [hnot]

/-- The good blocks when some of the first ones have turned bad. -/
theorem goods_marked {bad bad' : Nat → Bool} {q e n : Nat}
    (h : ∀ i, bad' i = (bad i || (decide (i ∈ (goods bad q e).take n) && fails i))) :
    goods bad' q e =
      ((goods bad q e).take n).filter (fun i => !fails i) ++ (goods bad q e).drop n := by
  rw [← filter_marked (nodup_goods bad q e)]
  change _ = ((List.range' q (e - q)).filter fun i => !bad i).filter _
  rw [List.filter_filter]
  apply List.filter_congr
  intro i _
  rw [h i, Bool.not_or, Bool.and_comm]

/-- The first blocks of two lists lie in the first one. -/
theorem take_subset_iff {fs ds : List Nat} (hnodup : (fs ++ ds).Nodup) (k : Nat) :
    (∀ b ∈ (fs ++ ds).take k, b ∈ fs) ↔ ds = [] ∨ k ≤ fs.length := by
  constructor
  · intro h
    by_contra hne
    rw [not_or, Nat.not_le] at hne
    obtain ⟨d, ds', rfl⟩ := List.exists_cons_of_ne_nil hne.1
    -- the first block of the second list
    have hd : d ∈ (fs ++ d :: ds').take k := by
      rw [List.take_append, List.mem_append]
      obtain ⟨j, hj⟩ : ∃ j, k - fs.length = j + 1 := ⟨k - fs.length - 1, by omega⟩
      rw [hj]
      exact Or.inr List.mem_cons_self
    have hdisj := List.disjoint_of_nodup_append hnodup
    exact hdisj (h d hd) List.mem_cons_self
  · rintro (rfl | hk)
    · intro b hb
      rw [List.append_nil] at hb
      exact List.mem_of_mem_take hb
    · intro b hb
      rw [List.take_append_of_le_length hk] at hb
      exact List.mem_of_mem_take hb

end Lists

section Call

variable {f : FlashInfo} {first last o e : Nat}

theorem LongRun.mono {bad bad' : Nat → Bool} {x : Nat} (h : LongRun c bad x)
    (hbad : ∀ i, bad i = true → bad' i = true) : LongRun c bad' x := by
  obtain ⟨ptn, hmem, hstart, hend, hrun⟩ := h
  exact ⟨ptn, hmem, hstart, hend, fun i hi => hbad _ (hrun i hi)⟩

/-- `nand_raw_erase` erases the first good blocks, or marks them bad. -/
theorem nandRawErase_spec (h : Opened c f first last o e) (nand : Nand) (fails : Nat → Bool)
    {q n : Nat} (hq : q < last) (hoq : o ≤ q) (hn : n ≠ 0)
    (hfit : ∀ x, q ≤ x → ¬ LongRun c nand.bad x) :
    ∃ s' : EraseState, nandRawErase c nand fails (q * c.blocksize) (n * c.blocksize) f.open_addr
        f.limit_len = some (s', (s'.totalerase : Int)) ∧
      ErasedBlocks c fails (goods nand.bad q e) n { nand := nand } s' := by
  have hbs := blocksize_pos c
  have hql := Nat.mul_le_mul_right c.blocksize (Nat.succ_le_of_lt hq)
  rw [Nat.succ_mul] at hql
  have hnpos := Nat.mul_pos (Nat.pos_of_ne_zero hn) hbs
  have hguard : ¬ (q * c.blocksize ≥ c.size ∨ n * c.blocksize = 0 ∨
      q * c.blocksize % c.blocksize ≠ 0 ∨ n * c.blocksize % c.blocksize ≠ 0) := by
    rw [h.size_eq, Nat.mul_mod_left, Nat.mul_mod_left]
    omega
  -- the length is cut at the end of the flash
  have hcut : (if q * c.blocksize + n * c.blocksize > c.size then c.size - q * c.blocksize
      else n * c.blocksize) = min n (last - q) * c.blocksize := by
    rw [h.size_eq, ← Nat.sub_mul, ← Nat.add_mul]
    split
    · rename_i hgt
      have hlt := Nat.lt_of_mul_lt_mul_right hgt
      rw [Nat.min_eq_right (by omega)]
    · rename_i hle
      have hle := Nat.le_of_mul_le_mul_right (Nat.le_of_not_lt hle) hbs
      rw [Nat.min_eq_left (by omega)]
  have hlen : min n (last - q) * c.blocksize ≠ 0 := by
    have hpos : 0 < min n (last - q) * c.blocksize := Nat.mul_pos (by omega) hbs
    omega
  have hwalk := walk_spec (lawful_erasePass h fails) h.le h.contiguous (fun _ hmem => hmem)
    (Nat.le_trans h.first_le hoq) hoq (s := { nand := nand }) (k := 0) rfl hlen
    fun x hx _ _ => hfit x hx
  rw [Nat.min_eq_right h.le_last] at hwalk
  obtain ⟨s', htour, hs'⟩ := eraseTour_spec (c := c) fails (goods nand.bad q e) (min n (last - q))
    { nand := nand }
  change Ends (tour c.blocksize (erasePass c fails).block (goods nand.bad q e) _ _ _) _ at hwalk
  -- no more blocks are there anyway
  have htake : (goods nand.bad q e).take (min n (last - q)) = (goods nand.bad q e).take n := by
    have hlen := length_goods_le nand.bad q e
    have hle := h.le_last
    apply List.take_eq_take_iff.mpr
    omega
  refine ⟨s', ?_, ?_⟩
  · rw [nandRawErase, if_neg hguard, hcut, h.open_eq, h.limit_eq]
    rw [Nat.add_zero] at hwalk
    dsimp only
    rcases htour with ⟨k', len', htour⟩ | htour
    · rw [htour] at hwalk
      rcases hwalk with ⟨offset', hw⟩ | hw
      · rw [hw]
        rfl
      · rw [hw]
        rfl
    · rw [htour] at hwalk
      obtain ⟨offset', hw⟩ := hwalk
      rw [hw]
      rfl
  · constructor
    · rw [hs'.erased, htake]
    · rw [hs'.totalerase, htake]
    · intro i
      rw [hs'.bad_eq, htake]

/-- `nand_raw_write` programs the first good blocks; where it is not through in the end, its
    result is an error or a short count. -/
theorem nandRawWrite_spec (h : Opened c f first last o e) (nand : Nand) {buf : List UInt8}
    {write_oob : Bool} {q : Nat} (hq : q < last) (hoq : o ≤ q) (hbuf : buf.length ≠ 0)
    (hmod : write_oob = true → buf.length % pageBytes c write_oob = 0)
    (hpage : c.pagesize ≤ nandPageBufSize) (hfit : ∀ x, q ≤ x → ¬ LongRun c nand.bad x) :
    ∃ (s' : WriteState) (ret : Int), nandRawWrite c nand (q * c.blocksize) buf f.open_addr
        f.limit_len write_oob = some (s', ret) ∧
      Programs c write_oob (goods nand.bad q e) { nand := nand, buffer := buf } s' ∧
      (ret < buf.length ∨
        buf.length ≤ pagesOf c write_oob buf * pageBytes c write_oob ∧
          buf.length ≤ (goods nand.bad q e).length * (c.pages * pageBytes c write_oob)) := by
  have hbs := blocksize_pos c
  have hql := Nat.mul_le_mul_right c.blocksize (Nat.succ_le_of_lt hq)
  rw [Nat.succ_mul] at hql
  -- the write starts on a page
  have hpage0 : q * c.blocksize % c.pagesize = 0 := by
    have hstart := PageStart.offset h.page_le ⟨Nat.zero_mod c.pagesize, hbs⟩ q
    exact hstart.1
  -- so the arguments pass the checks at the entry
  have hguard : ¬ (q * c.blocksize ≥ c.size ∨ buf.length = 0 ∨
      q * c.blocksize % c.pagesize ≠ 0 ∨
      (write_oob = true ∧ buf.length % (c.pagesize + oobused) ≠ 0) ∨
      (¬ write_oob = true ∧ nandOobBufSize < oobused) ∨ nandPageBufSize < c.pagesize) := by
    have hoob : ¬ nandOobBufSize < oobused := by decide
    have hmod' : ¬ (write_oob = true ∧ buf.length % (c.pagesize + oobused) ≠ 0) := by
      rintro ⟨rfl, hne⟩
      exact hne (hmod rfl)
    rw [h.size_eq]
    simp only [hmod', hoob, hpage0, and_false, false_or]
    omega
  -- the walk over the partitions is the tour of the good blocks
  have hwalk := walk_spec (lawful_writePass_oob h write_oob) h.le h.contiguous
    (fun _ hmem => hmem) (Nat.le_trans h.first_le hoq) hoq
    (s := { nand := nand, buffer := buf }) (k := 0) rfl hbuf fun x hx _ _ => hfit x hx
  rw [Nat.min_eq_right h.le_last, Nat.add_zero] at hwalk
  change Ends (tour c.blocksize (writePass c write_oob).block (goods nand.bad q e) _ _ _) _ at hwalk
  -- which programs their pages in order
  have htour := writeTour_pages (s := { nand := nand, buffer := buf }) h.page_le write_oob
    (goods nand.bad q e) hmod
  rw [nandRawWrite, if_neg hguard, h.open_eq, h.limit_eq]
  dsimp only at htour hwalk ⊢
  revert hwalk htour
  cases tour c.blocksize (writePass c write_oob).block (goods nand.bad q e)
    { nand := nand, buffer := buf } 0 buf.length with
  | done s' =>
    -- all of the buffer fits into the good blocks
    rintro ⟨offset', hw⟩ ⟨hprog, -, hclean, hcap⟩
    rw [hw]
    exact ⟨s', _, rfl, hprog, Or.inr ⟨hclean, hcap⟩⟩
  | short s' k' len' =>
    -- the good blocks run out: fewer bytes are reported than were asked for
    rintro hw ⟨hprog, hne, htotal⟩
    rcases hw with ⟨offset', hw⟩ | hw
    · rw [hw]
      refine ⟨s', _, rfl, hprog, Or.inl ?_⟩
      dsimp only at htotal
      omega
    · rw [hw]
      refine ⟨s', _, rfl, hprog, Or.inl ?_⟩
      rw [mtFlashEndDuetoBadblock]
      omega
  | failed s' ret =>
    -- a page cannot be programmed
    rintro hw ⟨hprog, hret⟩
    have hw : _ = some (Walk.failed s' ret) := hw
    rw [hw]
    exact ⟨s', _, rfl, hprog, Or.inl (by rw [hret]; omega)⟩

/-- The blocks that are programmed are among those that were erased iff these suffice. -/
theorem programs_subset_iff (hle : c.pageshift ≤ c.blockshift) {write_oob : Bool}
    {fs ds : List Nat} (hnodup : (fs ++ ds).Nodup) {nand : Nand} {buf : List UInt8}
    {s' : WriteState}
    (hprog : Programs c write_oob (fs ++ ds) { nand := nand, buffer := buf } s') :
    (∀ b ∈ s'.programmed, b ∈ fs) ↔
      ds = [] ∨ pagesOf c write_oob buf ≤ fs.length * c.pages := by
  have hpos := pages_pos hle
  have hblocks : blocksOf c (pagesOf c write_oob buf) ≤ fs.length ↔
      pagesOf c write_oob buf ≤ fs.length * c.pages := by
    rw [blocksOf, Nat.div_le_iff_le_mul_add_pred hpos, Nat.mul_comm c.pages]
    omega
  rw [← hblocks, ← take_subset_iff hnodup]
  constructor
  · intro h b hb
    exact h b ((hprog b).mpr (Or.inr hb))
  · intro h b hb
    rcases (hprog b).mp hb with hb | hb
    · cases hb
    · exact h b hb

/-- Every block the call programs was erased by it iff the blocks that were erased suffice,
    or there are no other good ones. -/
theorem erase_first_iff (h : Opened c f first last o e) (nand : Nand) (fails : Nat → Bool)
    (addr : Nat) (buf : List UInt8) (write_oob : Bool) (haddr : addr % c.blocksize = 0)
    (hfit : ∀ x, startBlock c f nand addr ≤ x →
      ¬ LongRun c (fun i => nand.bad i || fails i) x) :
    ErasesFirst c f nand fails addr buf write_oob e ↔
      ErasedSuffice c f nand fails addr buf write_oob e := by
  have hle := h.page_le
  have hstart : compensateNandAddress c nand.bad addr f.open_addr =
      startBlock c f nand addr * c.blocksize := by
    have hmod := Nat.div_add_mod' (compensateNandAddress c nand.bad addr f.open_addr) c.blocksize
    rw [h.start_mod, haddr, Nat.add_zero] at hmod
    exact hmod.symm
  have hoq : o ≤ startBlock c f nand addr := h.le_start nand.bad addr
  have hfit₀ : ∀ x, startBlock c f nand addr ≤ x → ¬ LongRun c nand.bad x := by
    intro x hx hrun
    exact hfit x hx (hrun.mono fun i hi => by simp [hi])
  rw [ErasesFirst, ErasedSuffice, candidates, mtFlashWrite, hstart]
  revert hoq hfit hfit₀
  generalize startBlock c f nand addr = q
  intro hfit hoq hfit₀
  by_cases hvalid : addrLenValid addr
      (if write_oob then lenWithoutOob c buf.length else buf.length) f.limit_len = true
  · rw [if_pos hvalid, eraseLen_eq]
    dsimp only
    rw [if_pos rfl]
    by_cases hnone : blocksToErase c buf.length write_oob = 0 ∨ last ≤ q
    · -- nothing is erased, and nothing is written
      have herase : nandRawErase c nand fails (q * c.blocksize)
          (blocksToErase c buf.length write_oob * c.blocksize) f.open_addr f.limit_len =
            some ({ nand := nand }, -1) := by
        apply if_pos
        rcases hnone with hnone | hnone
        · exact Or.inr (Or.inl (by rw [hnone, Nat.zero_mul]))
        · exact Or.inl (by rw [h.size_eq]; exact Nat.mul_le_mul_right _ hnone)
      rw [herase]
      have hsuffice : (goods nand.bad q e).length ≤ blocksToErase c buf.length write_oob ∨
          writablePages c f addr buf write_oob ≤
            (((goods nand.bad q e).take (blocksToErase c buf.length write_oob)).filter
              fun i => !fails i).length * c.pages := by
        rcases hnone with hnone | hnone
        · have hlen := (blocksToErase_zero hle).mp hnone
          rw [writablePages, pagesOf_nil hlen]
          exact Or.inr (by split <;> exact Nat.zero_le _)
        · rw [goods_nil (Nat.le_trans h.le_last hnone)]
          exact Or.inl (Nat.zero_le _)
      refine ⟨fun _ => hsuffice, fun _ => ⟨_, rfl, ?_, ?_⟩⟩
      · simp
      · intro _
        change (-1 : Int) < _
        omega
    · rw [not_or, Nat.not_le] at hnone
      have hlen : buf.length ≠ 0 := fun hz => hnone.1 ((blocksToErase_zero hle).mpr hz)
      obtain ⟨s₁, herase, hs₁⟩ := nandRawErase_spec h nand fails hnone.2 hoq hnone.1 hfit₀
      rw [herase]
      dsimp only
      have hcount : s₁.totalerase =
          ((goods nand.bad q e).take (blocksToErase c buf.length write_oob)).length *
            c.blocksize := by
        rw [hs₁.totalerase, Nat.zero_add]
      by_cases hempty : goods nand.bad q e = []
      · -- no good block at all
        rw [hempty, List.take_nil, List.length_nil, Nat.zero_mul] at hcount
        rw [if_pos (by rw [hcount]; decide), hempty]
        refine ⟨fun _ => Or.inl (Nat.zero_le _), fun _ => ⟨_, rfl, ?_, ?_⟩⟩
        · simp
        · intro _
          change (s₁.totalerase : Int) < _
          rw [hcount]
          omega
      · have hpos : 0 < s₁.totalerase := by
          rw [hcount, List.length_take]
          have hne : (goods nand.bad q e).length ≠ 0 := fun hz =>
            hempty (List.eq_nil_of_length_eq_zero hz)
          exact Nat.mul_pos (by omega) (blocksize_pos c)
        rw [if_neg (by omega)]
        by_cases hrefused : Refused c f addr buf write_oob
        · -- the write is refused for its length or the size of a page
          have hwrite : nandRawWrite c s₁.nand (q * c.blocksize) buf f.open_addr f.limit_len
              write_oob = some ({ nand := s₁.nand, buffer := buf }, -1) := by
            apply if_pos
            rcases hrefused with hrefused | ⟨rfl, hmod⟩ | hpage
            · rw [hvalid] at hrefused
              cases hrefused
            · exact Or.inr (Or.inr (Or.inr (Or.inl ⟨rfl, hmod⟩)))
            · exact Or.inr (Or.inr (Or.inr (Or.inr (Or.inr hpage))))
          have hzero : writablePages c f addr buf write_oob = 0 := if_pos hrefused
          rw [hwrite, hzero]
          refine ⟨fun _ => Or.inr (Nat.zero_le _), fun _ => ⟨_, rfl, ?_, ?_⟩⟩
          · simp
          · intro _
            change (-1 : Int) < _
            omega
        · have hpages : writablePages c f addr buf write_oob = pagesOf c write_oob buf :=
            if_neg hrefused
          simp only [Refused, not_or, not_and, not_not, Nat.not_lt] at hrefused
          -- what the map of bad blocks has become
          have hgoods : goods s₁.nand.bad q e =
              ((goods nand.bad q e).take (blocksToErase c buf.length write_oob)).filter
                  (fun i => !fails i) ++
                (goods nand.bad q e).drop (blocksToErase c buf.length write_oob) :=
            goods_marked hs₁.bad_eq
          have hfit₁ : ∀ x, q ≤ x → ¬ LongRun c s₁.nand.bad x := by
            intro x hx hrun
            apply hfit x hx
            apply hrun.mono
            intro i hi
            rw [hs₁.bad_eq] at hi
            revert hi
            cases nand.bad i <;> cases fails i <;> simp
          obtain ⟨s₂, ret, hwrite, hprog, hret⟩ := nandRawWrite_spec h s₁.nand hnone.2 hoq hlen
            hrefused.2.1 hrefused.2.2 hfit₁
          have hnodup := nodup_goods s₁.nand.bad q e
          rw [hgoods] at hprog hret hnodup
          have hsubset := programs_subset_iff hle hnodup hprog
          rw [List.drop_eq_nil_iff, ← hpages] at hsubset
          rw [hwrite]
          have herased : s₁.erased =
              ((goods nand.bad q e).take (blocksToErase c buf.length write_oob)).filter
                fun i => !fails i := by
            rw [hs₁.erased]
            rfl
          rw [← herased] at hsubset hret ⊢
          constructor
          · -- nothing else was programmed
            rintro ⟨r, hr, hsub, -⟩
            cases hr
            exact hsubset.mp hsub
          · intro hsuffice
            refine ⟨_, rfl, hsubset.mpr hsuffice, fun hfew => ?_⟩
            rcases hret with hret | ⟨hclean, hcap⟩
            · exact hret
            · -- all of it was written: then there were enough blocks
              have hsub : s₁.erased.length ≤
                  ((goods nand.bad q e).filter fun i => !fails i).length := by
                rw [herased]
                exact ((List.take_sublist _ _).filter _).length_le
              have henough : blocksToErase c buf.length write_oob ≤ s₁.erased.length := by
                rcases hsuffice with hall | hpg
                · have hle' := blocksToErase_le hle hcap
                  rwa [List.drop_eq_nil_of_le hall, List.append_nil] at hle'
                · apply blocksToErase_le hle
                  rw [← Nat.mul_assoc]
                  rw [← hpages] at hclean
                  exact Nat.le_trans hclean (Nat.mul_le_mul_right _ hpg)
              omega
  · -- refused for its address
    have hzero : writablePages c f addr buf write_oob = 0 :=
      if_pos (Or.inl (Bool.eq_false_iff.mpr hvalid))
    rw [if_neg hvalid, hzero]
    refine ⟨fun _ => Or.inr (Nat.zero_le _), fun _ => ⟨_, rfl, ?_, ?_⟩⟩
    · simp
    · intro _
      change (-1 : Int) < _
      omega

/-- Four blocks of eight pages. -/
def fourBlocks : NandRawCtrl where
  size := 4 * 2 ^ 12
  pageshift := 9
  blockshift := 12
  partition := [{ start := 0, «end» := 4 * 2 ^ 12 - 1 }]

/-- A handle on them. -/
def fourHandle : FlashInfo := { open_addr := 0, limit_len := 4 * 2 ^ 12 }

/-- A flash without bad blocks, in which something is written. -/
def written : Nand := { data := fun _ => 0, bad := fun _ => false }

theorem fourBlocks_opened : Opened fourBlocks fourHandle 0 4 0 4 where
  pageshift_pos := by decide
  page_le := by decide
  blockshift_lt := by decide
  contiguous := ⟨⟨by decide, by decide, by decide⟩, show 4 * 2 ^ 12 / 2 ^ 12 = 4 by decide⟩
  size_eq := by decide
  first_le := Nat.le_refl 0
  open_eq := by decide
  limit_eq := by decide
  le := by decide
  le_last := by decide

/-- A page at the second block, where the first one cannot be erased. -/
theorem erase_first_second :
    ErasesFirst fourBlocks fourHandle written (fun i => i = 0) 4096 (List.replicate 512 7) false 4 ↔
      ErasedSuffice fourBlocks fourHandle written (fun i => i = 0) 4096 (List.replicate 512 7) false
        4 := by
  apply erase_first_iff fourBlocks_opened
  · decide
  · -- one block alone is no long run
    rintro x - ⟨-, -, -, -, hrun⟩
    have h0 := hrun 0 (by decide)
    have h1 := hrun 1 (by decide)
    simp only [written, Bool.false_or, decide_eq_true_eq] at h0 h1
    omega

/-- A page at the first block, which cannot be erased: the page goes to the second block,
    and that was not erased. -/
theorem writes_unerased_block :
    ¬ ErasesFirst fourBlocks fourHandle written (fun i => i = 0) 0 (List.replicate 512 7) false
      4 := by
  have hrun : (mtFlashWrite fourBlocks fourHandle written (fun i => i = 0) 0
      (List.replicate 512 7) false true).map (fun r => (r.programmed, r.erased)) =
        some ([1], []) := by decide +kernel
  rintro ⟨r, hr, hsub, -⟩
  rw [hr] at hrun
  have hpair := Option.some.inj hrun
  have hprog : r.programmed = [1] := congrArg Prod.fst hpair
  have herased : r.erased = [] := congrArg Prod.snd hpair
  have hmem := hsub 1 (by rw [hprog]; decide)
  rw [herased] at hmem
  cases hmem

end Call

end Tntsat.NandRaw
