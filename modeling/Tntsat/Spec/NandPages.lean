import Tntsat.Spec.NandWalk

/-!
# The pages of a block

What `nand_raw_read` and `nand_raw_write` do in one good block: they take page after
page up to the end of the block, or as many as are left.

## Key results

- `readPages_spec`: the bytes that are read
- `writePages_succ`: one page that is written, with or without OOB
- `writePages_spec`: the bytes that are written without OOB
- `lawful_readPass`, `lawful_writePass`: both are lawful passes
-/

namespace Tntsat.NandRaw

variable {c : NandRawCtrl}

theorem pagesize_pos (c : NandRawCtrl) : 0 < c.pagesize := Nat.two_pow_pos _

/-- A page lies inside a block, and the block ends with a page. -/
theorem page_room (hle : c.pageshift ≤ c.blockshift) {x : Nat} (hx : x % c.pagesize = 0) :
    x % c.blocksize + c.pagesize ≤ c.blocksize := by
  have hdvd : c.pagesize ∣ c.blocksize := Nat.pow_dvd_pow 2 hle
  have hmod : c.pagesize ∣ x % c.blocksize :=
    (Nat.dvd_mod_iff hdvd).mpr (Nat.dvd_of_mod_eq_zero hx)
  obtain ⟨q, hq⟩ := hdvd
  obtain ⟨j, hj⟩ := hmod
  have hlt := Nat.mod_lt x (blocksize_pos c)
  rw [hj, hq] at hlt
  rw [hj, hq, ← Nat.mul_succ]
  exact Nat.mul_le_mul_left _ (Nat.succ_le_of_lt (Nat.lt_of_mul_lt_mul_left hlt))

/-- Where the next page lies. -/
theorem next_page (hle : c.pageshift ≤ c.blockshift) {x : Nat} (hx : x % c.pagesize = 0) :
    (x + c.pagesize) % c.pagesize = 0 ∧
      ((x + c.pagesize) % c.blocksize = 0 ∧ x % c.blocksize + c.pagesize = c.blocksize ∨
        (x + c.pagesize) % c.blocksize = x % c.blocksize + c.pagesize ∧
          x % c.blocksize + c.pagesize < c.blocksize) := by
  constructor
  · rw [Nat.add_mod_right, hx]
  · have hroom := page_room hle hx
    have hmod : (x + c.pagesize) % c.blocksize = (x % c.blocksize + c.pagesize) % c.blocksize := by
      rw [Nat.mod_add_mod]
    rcases Nat.eq_or_lt_of_le hroom with heq | hlt
    · rw [hmod, heq, Nat.mod_self]
      exact Or.inl ⟨rfl, rfl⟩
    · rw [hmod, Nat.mod_eq_of_lt hlt]
      exact Or.inr ⟨rfl, hlt⟩

/-- The bytes from an offset to the end of its block. -/
def rest (c : NandRawCtrl) (x : Nat) : Nat := c.blocksize - x % c.blocksize

/-- Where the next page is in the same block. -/
theorem rest_next (hle : c.pageshift ≤ c.blockshift) {x : Nat} (hx : x % c.pagesize = 0)
    (hmore : (x + c.pagesize) % c.blocksize ≠ 0) :
    c.pagesize ≤ rest c x ∧ rest c (x + c.pagesize) = rest c x - c.pagesize := by
  have hroom := page_room hle hx
  obtain ⟨-, hnext⟩ := next_page hle hx
  rw [rest, rest]
  omega

/-- A full page, and the block goes on. -/
theorem min_rest_next (hle : c.pageshift ≤ c.blockshift) {x len : Nat} (hx : x % c.pagesize = 0)
    (hlen : c.pagesize ≤ len) (hmore : (x + c.pagesize) % c.blocksize ≠ 0) :
    min len (rest c x) = c.pagesize + min (len - c.pagesize) (rest c (x + c.pagesize)) := by
  obtain ⟨hpage, hrest⟩ := rest_next hle hx hmore
  rw [hrest]
  omega

/-- The last page that is read or written. -/
theorem min_rest_stop (hle : c.pageshift ≤ c.blockshift) {x len : Nat} (hx : x % c.pagesize = 0)
    (hstop : ¬ (len - min len c.pagesize ≠ 0 ∧ (x + min len c.pagesize) % c.blocksize ≠ 0)) :
    min len c.pagesize = min len (rest c x) := by
  have hroom := page_room hle hx
  have hpos := pagesize_pos c
  obtain ⟨-, hnext⟩ := next_page hle hx
  rw [rest]
  rcases Nat.le_total len c.pagesize with hlen | hlen
  · omega
  · rw [Nat.min_eq_right hlen] at hstop ⊢
    omega

/-- A block read from an offset on, as far as bytes are left to read. -/
theorem readPages_spec (hle : c.pageshift ≤ c.blockshift) (data : Memory UInt8) {fuel : Nat}
    {buffer : List UInt8} {x len : Nat} (hx : x % c.pagesize = 0)
    (hfuel : rest c x ≤ fuel * c.pagesize) :
    readPages c data fuel buffer x len =
      .at (buffer ++ data.read x (min len (rest c x))) (x + min len (rest c x))
        (len - min len (rest c x)) := by
  induction fuel generalizing buffer x len with
  | zero =>
    have hlt := Nat.mod_lt x (blocksize_pos c)
    rw [rest] at hfuel
    omega
  | succ fuel ih =>
    obtain ⟨hx', -⟩ := next_page hle hx
    rw [Nat.succ_mul] at hfuel
    simp only [readPages]
    split
    · rename_i hmore
      -- a full page, and the block goes on
      have hlen : min len c.pagesize = c.pagesize := by omega
      rw [hlen] at hmore ⊢
      obtain ⟨-, hrest⟩ := rest_next hle hx hmore.2
      have hm := min_rest_next hle hx (show c.pagesize ≤ len by omega) hmore.2
      rw [ih hx' (by omega), hm, Memory.read_add, List.append_assoc, Nat.add_assoc, Nat.sub_sub]
    · rename_i hstop
      rw [min_rest_stop hle hx hstop]

theorem marksBad_blank : marksBad (List.replicate nandOobBufSize 0xFF) = false := by
  have h0 : 0 < nandOobBufSize := by decide
  have h1 : 1 < nandOobBufSize := by decide
  simp [marksBad, h0, h1]

/-- The OOB bytes of the next page, behind `n` bytes of data. -/
def pageOob (buffer : List UInt8) (write_oob : Bool) (n : Nat) : List UInt8 :=
  if write_oob then (buffer.drop n).take oobused else List.replicate nandOobBufSize 0xFF

/-- How many of them are in the buffer. -/
def numOob (write_oob : Bool) : Nat := if write_oob then oobused else 0

/-- The state behind one page. -/
def WriteState.afterPage (c : NandRawCtrl) (s : WriteState) (write_oob : Bool) (x len : Nat) :
    WriteState :=
  let n := min len c.pagesize
  { s.program c x (s.buffer.take n ++ List.replicate (c.pagesize - n) 0xFF) with
    buffer := s.buffer.drop (n + numOob write_oob)
    totalwrite := s.totalwrite + n + numOob write_oob }

/-- One page of a block. -/
theorem writePages_succ (write_oob : Bool) (fuel : Nat) (s : WriteState) (x len : Nat) :
    writePages c write_oob (fuel + 1) s x len =
      let n := min len c.pagesize
      let left := len - n - numOob write_oob
      if write_oob ∧ len - n < oobused ∨ marksBad (pageOob s.buffer write_oob n) then .failed s (-1)
      else if left ≠ 0 ∧ (x + n) % c.blocksize ≠ 0 then
        writePages c write_oob fuel (s.afterPage c write_oob x len) (x + n) left
      else .at (s.afterPage c write_oob x len) (x + n) left := by
  by_cases hshort : write_oob = true ∧ len - min len c.pagesize < oobused
  · simp [writePages, hshort]
  · simp only [hshort, false_or]
    rw [writePages, if_neg hshort]
    rfl

/-- One page of a block without OOB. -/
theorem writePages_succ_false (fuel : Nat) (s : WriteState) (x len : Nat) :
    writePages c false (fuel + 1) s x len =
      let n := min len c.pagesize
      if len - n ≠ 0 ∧ (x + n) % c.blocksize ≠ 0 then
        writePages c false fuel (s.afterPage c false x len) (x + n) (len - n)
      else .at (s.afterPage c false x len) (x + n) (len - n) := by
  rw [writePages_succ]
  simp [pageOob, numOob, marksBad_blank]

/-- A block written from an offset on, as far as bytes are left to write. -/
theorem writePages_spec (hle : c.pageshift ≤ c.blockshift) {fuel : Nat} {s : WriteState}
    {x len : Nat} (hx : x % c.pagesize = 0) (hfuel : rest c x ≤ fuel * c.pagesize) :
    ∃ s', writePages c false fuel s x len =
        .at s' (x + min len (rest c x)) (len - min len (rest c x)) ∧
      s'.nand.bad = s.nand.bad ∧
      (len ≠ 0 → len = s.buffer.length → len % c.pagesize = 0 →
        s'.nand.data = s.nand.data.write x (s.buffer.take (min len (rest c x))) ∧
          s'.buffer = s.buffer.drop (min len (rest c x))) := by
  induction fuel generalizing s x len with
  | zero =>
    have hlt := Nat.mod_lt x (blocksize_pos c)
    rw [rest] at hfuel
    omega
  | succ fuel ih =>
    have hpos := pagesize_pos c
    obtain ⟨hx', -⟩ := next_page hle hx
    rw [Nat.succ_mul] at hfuel
    rw [writePages_succ_false]
    dsimp only
    split
    · rename_i hmore
      -- a full page, and the block goes on
      have hlen : min len c.pagesize = c.pagesize := by omega
      rw [hlen] at hmore ⊢
      obtain ⟨-, hrest⟩ := rest_next hle hx hmore.2
      have hm := min_rest_next hle hx (show c.pagesize ≤ len by omega) hmore.2
      have hfuel' : rest c (x + c.pagesize) ≤ fuel * c.pagesize := by omega
      obtain ⟨s', heq, hbad, hdata⟩ := ih (s := s.afterPage c false x len) hx' hfuel'
      refine ⟨s', ?_, hbad, ?_⟩
      · rw [heq, hm, Nat.add_assoc, Nat.sub_sub]
      · intro _ hbuf hmod
        have hbuf' : (s.afterPage c false x len).buffer = s.buffer.drop c.pagesize := by
          simp [WriteState.afterPage, numOob, hlen]
        have hmem : (s.afterPage c false x len).nand.data =
            s.nand.data.write x (s.buffer.take c.pagesize) := by
          simp [WriteState.afterPage, WriteState.program, numOob, hlen]
        obtain ⟨hd, hb⟩ := hdata hmore.1 (by rw [hbuf', List.length_drop, hbuf]) (by
          rw [← Nat.mod_eq_sub_mod (by omega)]
          exact hmod)
        have htake : (s.buffer.take c.pagesize).length = c.pagesize := by
          rw [List.length_take]
          omega
        constructor
        · rw [hd, hmem, hbuf', hm, List.take_add, ← Memory.write_append, htake]
        · rw [hb, hbuf', hm, List.drop_drop]
    · rename_i hstop
      have hm := min_rest_stop hle hx hstop
      refine ⟨s.afterPage c false x len, by rw [hm], rfl, ?_⟩
      intro hlen0 hbuf hmod
      have hge : c.pagesize ≤ len := by
        by_contra hlt
        rw [Nat.mod_eq_of_lt (Nat.lt_of_not_le hlt)] at hmod
        exact hlen0 hmod
      rw [← hm, Nat.min_eq_right hge]
      simp [WriteState.afterPage, WriteState.program, numOob, Nat.min_eq_right hge]

theorem readPages_not_limited (data : Memory UInt8) (fuel : Nat) (buffer : List UInt8)
    (x len : Nat) (buffer' : List UInt8) :
    readPages c data fuel buffer x len ≠ .limited buffer' := by
  induction fuel generalizing buffer x len with
  | zero => simp [readPages]
  | succ fuel ih =>
    simp only [readPages]
    split
    · exact ih _ _ _
    · simp

theorem writePages_not_limited (write_oob : Bool) (fuel : Nat) (s : WriteState) (x len : Nat)
    (s' : WriteState) : writePages c write_oob fuel s x len ≠ .limited s' := by
  induction fuel generalizing s x len with
  | zero => simp [writePages]
  | succ fuel ih =>
    rw [writePages_succ]
    dsimp only
    split
    · simp
    · split
      · exact ih _ _ _
      · simp

/-! ## Reads and writes are lawful passes -/

/-- The bytes of a block at which a page starts. -/
def PageStart (c : NandRawCtrl) (k : Nat) : Prop := k % c.pagesize = 0 ∧ k < c.blocksize

/-- The number of blocks that bytes from byte `k` of a block on lie in. -/
def blocksNeeded (c : NandRawCtrl) (k len : Nat) : Nat :=
  (k + len + c.blocksize - 1) / c.blocksize

variable {K : Nat → Prop}

/-- A page of block `g`. -/
theorem PageStart.offset (hle : c.pageshift ≤ c.blockshift) {k : Nat} (hk : PageStart c k)
    (g : Nat) : (g * c.blocksize + k) % c.pagesize = 0 ∧
      rest c (g * c.blocksize + k) = c.blocksize - k := by
  have hdvd : c.pagesize ∣ g * c.blocksize := Nat.dvd_mul_left_of_dvd (Nat.pow_dvd_pow 2 hle) g
  constructor
  · rw [Nat.add_mod, Nat.mod_eq_zero_of_dvd hdvd, hk.1]
    rfl
  · rw [rest, Nat.mul_add_mod_self_right, Nat.mod_eq_of_lt hk.2]

theorem pages_room (hle : c.pageshift ≤ c.blockshift) (x : Nat) :
    rest c x ≤ c.pages * c.pagesize := by
  have hdvd : c.pagesize ∣ c.blocksize := Nat.pow_dvd_pow 2 hle
  rw [NandRawCtrl.pages, Nat.div_mul_cancel hdvd]
  exact Nat.sub_le _ _

/-- A pass that takes what it can of each block is lawful. -/
theorem lawful_of_pages {σ : Type} {P : Pass σ} (hpos : 1 ≤ c.pageshift)
    (hle : c.pageshift ≤ c.blockshift) (hlim : ∀ s x len s', P.block s x len ≠ .limited s')
    (hblock : ∀ s x len, x % c.pagesize = 0 →
      ∃ s', P.block s x len = .at s' (x + min len (rest c x)) (len - min len (rest c x)) ∧
        P.bad s' = P.bad s) :
    P.Lawful c (PageStart c) (blocksNeeded c) := by
  have hbs := blocksize_pos c
  constructor
  · exact ⟨Nat.zero_mod _, hbs⟩
  -- a page start has room for a page, of at least two bytes
  · intro k hk
    have hroom := page_room hle hk.1
    have htwo : 2 ^ 1 ≤ c.pagesize := Nat.pow_le_pow_right (by omega) hpos
    rw [Nat.mod_eq_of_lt hk.2] at hroom
    omega
  · intro k len hlen
    apply Nat.div_pos _ hbs
    omega
  · intro s g k len s'
    exact hlim _ _ _ _
  -- a block that is not filled to its end was the last: the rest needs one block less
  · intro s g k len s' offset' len' hk hlen hb hlen'
    obtain ⟨hx, hrest⟩ := hk.offset hle g
    obtain ⟨s₁, heq, -⟩ := hblock s _ len hx
    rw [heq, hrest] at hb
    cases hb
    have hk' := hk.2
    constructor
    · rw [Nat.succ_mul]
      omega
    · have hsum : k + len + c.blocksize - 1 =
          0 + (len - min len (c.blocksize - k)) + c.blocksize - 1 + c.blocksize := by omega
      rw [blocksNeeded, blocksNeeded, hsum, Nat.add_div_right _ hbs]
      exact Nat.lt_succ_self _
  · intro s g k len s' offset' len' hk hb i _
    obtain ⟨hx, -⟩ := hk.offset hle g
    obtain ⟨s₁, heq, hbad⟩ := hblock s _ len hx
    rw [heq] at hb
    cases hb
    rw [hbad]

theorem lawful_readPass (hpos : 1 ≤ c.pageshift) (hle : c.pageshift ≤ c.blockshift)
    (nand : Nand) : (readPass c nand).Lawful c (PageStart c) (blocksNeeded c) :=
  lawful_of_pages hpos hle (fun s x len s' => readPages_not_limited _ _ s x len s')
    fun _ x _ hx => ⟨_, readPages_spec hle nand.data hx (pages_room hle x), rfl⟩

theorem lawful_writePass (hpos : 1 ≤ c.pageshift) (hle : c.pageshift ≤ c.blockshift) :
    (writePass c false).Lawful c (PageStart c) (blocksNeeded c) :=
  lawful_of_pages hpos hle (fun s x len s' => writePages_not_limited _ _ s x len s')
    fun s x len hx => by
      obtain ⟨s', heq, hbad, -⟩ := writePages_spec (s := s) (x := x) hle hx (pages_room hle x)
      exact ⟨s', heq, by simp [writePass, hbad]⟩

end Tntsat.NandRaw
