import Mathlib.Algebra.Group.Nat.Defs
import Mathlib.Data.List.Nodup
import Tntsat.Spec.NandPages

/-!
# A NAND handle as a flat array

Behind a handle lies a flat array: its blocks are the good blocks from the open address
up to the limit.  `flat` is that array as a machine of its own, and reads and writes
through the handle do to the flash what `flat` does to the array.

The address of a call is turned into a number of blocks, `(mt_u32)idx << blockshift`,
and so is a run of bad blocks that is skipped.  Both shifts are done in 32 bits, so a
call behind the first 4 GiB of the handle goes astray.

## Key results

- `handle_flat`: as long as no shift overflows, the handle is the flat array
- `write_goes_astray`: a write at 4 GiB lands on the first block
-/

namespace Tntsat.NandRaw

/-! ## The array behind a handle -/

/-- Where byte `a` of an array of blocks lies. -/
def physAddr (bs : Nat) (gs : List Nat) (a : Nat) : Nat := gs.getD (a / bs) 0 * bs + a % bs

/-- The array that blocks are. -/
def view (bs : Nat) (gs : List Nat) (data : Memory UInt8) : Memory UInt8 :=
  fun a => data (physAddr bs gs a)

section View

variable {bs : Nat} {gs : List Nat} {data : Memory UInt8}

theorem view_cons_lt {g a : Nat} (ha : a < bs) : view bs (g :: gs) data a = data (g * bs + a) := by
  simp [view, physAddr, Nat.div_eq_of_lt ha, Nat.mod_eq_of_lt ha]

theorem view_cons_ge (hbs : 0 < bs) {g : Nat} (a : Nat) :
    view bs (g :: gs) data (bs + a) = view bs gs data a := by
  simp [view, physAddr, Nat.add_comm bs a, Nat.add_div_right _ hbs]

/-- Behind the first few blocks. -/
theorem view_drop (hbs : 0 < bs) (n a : Nat) :
    view bs (gs.drop n) data a = view bs gs data (n * bs + a) := by
  have hdiv : (n * bs + a) / bs = n + a / bs := by
    rw [Nat.add_comm, Nat.add_mul_div_right _ _ hbs, Nat.add_comm]
  simp [view, physAddr, hdiv, Nat.mul_add_mod_self_right]

/-- Only what lies in the blocks is seen. -/
theorem view_congr {data' : Memory UInt8} (hbs : 0 < bs)
    (h : ∀ x, x / bs ∈ gs → data' x = data x) {a : Nat} (ha : a < gs.length * bs) :
    view bs gs data' a = view bs gs data a := by
  have hlt : a / bs < gs.length := (Nat.div_lt_iff_lt_mul hbs).mpr ha
  apply h
  rw [physAddr, Nat.add_comm, Nat.add_mul_div_right _ _ hbs, Nat.div_eq_of_lt (Nat.mod_lt a hbs),
    Nat.zero_add, List.getD_eq_getElem?_getD, List.getElem?_eq_getElem hlt]
  exact List.getElem_mem hlt

end View

/-! ## Tours that read and write -/

section Tours

variable {c : NandRawCtrl}

/-- A read that starts in the first block. -/
theorem read_view_cons (hbs : 0 < c.blocksize) (data : Memory UInt8) (g : Nat) (gs : List Nat)
    {k : Nat} (hk : k < c.blocksize) (len : Nat) :
    (view c.blocksize (g :: gs) data).read k (min len ((g :: gs).length * c.blocksize - k)) =
      data.read (g * c.blocksize + k) (min len (c.blocksize - k)) ++
        (view c.blocksize gs data).read 0
          (min (len - min len (c.blocksize - k)) (gs.length * c.blocksize - 0)) := by
  have hsum : min len ((g :: gs).length * c.blocksize - k) = min len (c.blocksize - k) +
      min (len - min len (c.blocksize - k)) (gs.length * c.blocksize - 0) := by
    rw [List.length_cons, Nat.succ_mul]
    omega
  rw [hsum, Memory.read_add]
  congr 1
  · apply Memory.read_congr
    intro i hi
    rw [view_cons_lt (by omega), Nat.add_assoc]
  · apply Memory.read_congr
    intro i hi
    rw [← view_cons_ge hbs (g := g) (0 + i)]
    congr 1
    omega

/-- A tour that reads sees the array. -/
theorem readTour_spec (hle : c.pageshift ≤ c.blockshift) (nand : Nand) (gs : List Nat)
    (buffer : List UInt8) {k : Nat} (len : Nat) (hk : PageStart c k) :
    (∃ k' len', tour c.blocksize (readPass c nand).block gs buffer k len = .short
        (buffer ++ (view c.blocksize gs nand.data).read k (min len (gs.length * c.blocksize - k)))
        k' len') ∨
      tour c.blocksize (readPass c nand).block gs buffer k len = .done
        (buffer ++ (view c.blocksize gs nand.data).read k (min len (gs.length * c.blocksize - k))) := by
  have hbs := blocksize_pos c
  induction gs generalizing buffer k len with
  | nil =>
    by_cases hlen : len = 0
    · simp [hlen]
    · simp [tour, hlen]
  | cons g gs ih =>
    by_cases hlen : len = 0
    · simp [hlen]
    · obtain ⟨hx, hrest⟩ := hk.offset hle g
      have hblock : (readPass c nand).block buffer (g * c.blocksize + k) len = _ :=
        readPages_spec hle nand.data hx (pages_room hle _)
      rw [hrest] at hblock
      rw [read_view_cons hbs nand.data g gs hk.2, ← List.append_assoc]
      simp only [tour, hlen, if_false, hblock]
      exact ih _ _ ⟨Nat.zero_mod _, hbs⟩

/-- What lies behind a write into the first block. -/
theorem view_write_cons (hbs : 0 < c.blocksize) {data data' : Memory UInt8} {g : Nat}
    {gs : List Nat} (hg : g ∉ gs) {k : Nat} (hk : k < c.blocksize) (buf : List UInt8)
    (hsame : ∀ x, x / c.blocksize ∉ gs →
      data' x = data.write (g * c.blocksize + k) (buf.take (c.blocksize - k)) x)
    (hrest : ∀ a < gs.length * c.blocksize, view c.blocksize gs data' a =
      (view c.blocksize gs data).write 0
        ((buf.drop (c.blocksize - k)).take (gs.length * c.blocksize)) a) {a : Nat}
    (ha : a < (g :: gs).length * c.blocksize) :
    view c.blocksize (g :: gs) data' a = (view c.blocksize (g :: gs) data).write k
      (buf.take ((g :: gs).length * c.blocksize - k)) a := by
  rw [List.length_cons, Nat.succ_mul] at ha ⊢
  rcases Nat.lt_or_ge a c.blocksize with hlt | hge
  · -- in the first block
    have hdiv : (g * c.blocksize + a) / c.blocksize = g := by
      rw [Nat.add_comm, Nat.add_mul_div_right _ _ hbs, Nat.div_eq_of_lt hlt, Nat.zero_add]
    rw [view_cons_lt hlt, hsame _ (by rwa [hdiv])]
    simp only [Memory.write, view_cons_lt hlt, Nat.add_le_add_iff_left, Nat.add_sub_add_left,
      List.getElem?_take]
    by_cases hka : k ≤ a
    · rw [if_pos hka, if_pos hka, if_pos (by omega), if_pos (by omega)]
    · rw [if_neg hka, if_neg hka]
  · -- behind it
    obtain ⟨a, rfl⟩ := Nat.exists_eq_add_of_le hge
    rw [view_cons_ge hbs, hrest a (by omega)]
    simp only [Memory.write, view_cons_ge hbs, Nat.zero_le, if_true, Nat.sub_zero,
      List.getElem?_take, List.getElem?_drop]
    rw [if_pos (by omega), if_pos (by omega), if_pos (by omega)]
    congr 2
    omega

/-- What a tour that writes leaves: the bytes are in the array, and the rest of the flash
    is as it was. -/
structure Wrote (bs : Nat) (gs : List Nat) (k : Nat) (s s' : WriteState) : Prop where
  bad_eq : s'.nand.bad = s.nand.bad
  same : ∀ x, x / bs ∉ gs → s'.nand.data x = s.nand.data x
  wrote : ∀ a < gs.length * bs, view bs gs s'.nand.data a =
    (view bs gs s.nand.data).write k (s.buffer.take (gs.length * bs - k)) a

/-- A tour that writes. -/
theorem writeTour_spec (hle : c.pageshift ≤ c.blockshift) {gs : List Nat} (hgs : gs.Nodup)
    {s : WriteState} {k len : Nat} (hk : PageStart c k) (hbuf : s.buffer.length = len)
    (hmod : len % c.pagesize = 0) :
    ∃ s', ((∃ k' len', tour c.blocksize (writePass c false).block gs s k len = .short s' k' len') ∨
        tour c.blocksize (writePass c false).block gs s k len = .done s') ∧
      Wrote c.blocksize gs k s s' := by
  have hbs := blocksize_pos c
  induction gs generalizing s k len with
  | nil =>
    have hnil : Wrote c.blocksize [] k s s := by
      constructor
      · rfl
      · simp
      · simp
    by_cases hlen : len = 0
    · exact ⟨s, Or.inr (by simp [hlen]), hnil⟩
    · exact ⟨s, Or.inl ⟨k, len, by simp [tour, hlen]⟩, hnil⟩
  | cons g gs ih =>
    obtain ⟨hg, hgs⟩ := List.nodup_cons.mp hgs
    by_cases hlen : len = 0
    · refine ⟨s, Or.inr (by simp [hlen]), rfl, fun _ _ => rfl, ?_⟩
      intro a _
      have hempty : s.buffer = [] := List.eq_nil_of_length_eq_zero (hbuf.trans hlen)
      simp [hempty]
    · obtain ⟨hx, hrest⟩ := hk.offset hle g
      obtain ⟨s₁, hblock, hbad, hdata⟩ := writePages_spec (s := s) hle hx (pages_room hle _)
      obtain ⟨hd, hb⟩ := hdata hlen hbuf.symm hmod
      rw [hrest] at hblock hd hb
      rw [← hbuf, Nat.min_comm, ← List.take_eq_take_min] at hd
      rw [← hbuf, Nat.min_comm, ← List.drop_eq_drop_min] at hb
      have hlen₁ : s₁.buffer.length = len - min len (c.blocksize - k) := by
        rw [hb, List.length_drop]
        omega
      -- what is left is a multiple of a page again
      have hmod₁ : (len - min len (c.blocksize - k)) % c.pagesize = 0 := by
        rcases Nat.le_total len (c.blocksize - k) with hle' | hle'
        · rw [Nat.min_eq_left hle', Nat.sub_self, Nat.zero_mod]
        · have hdvd : c.pagesize ∣ c.blocksize := Nat.pow_dvd_pow 2 hle
          rw [Nat.min_eq_right hle']
          exact Nat.mod_eq_zero_of_dvd (Nat.dvd_sub (Nat.dvd_of_mod_eq_zero hmod)
            (Nat.dvd_sub hdvd (Nat.dvd_of_mod_eq_zero hk.1)))
      obtain ⟨s', htour, hwrote⟩ := ih hgs (k := 0) ⟨Nat.zero_mod _, hbs⟩ hlen₁ hmod₁
      have hsame : ∀ x, x / c.blocksize ∉ gs → s'.nand.data x =
          s.nand.data.write (g * c.blocksize + k) (s.buffer.take (c.blocksize - k)) x := by
        intro x hxg
        rw [hwrote.same x hxg, hd]
      -- the write into the first block is not seen in the others
      have hfirst : ∀ x, x / c.blocksize ≠ g → s₁.nand.data x = s.nand.data x := by
        intro x hne
        rw [hd]
        apply Memory.write_apply_of_notMem
        rw [List.length_take]
        have hk' := hk.2
        rcases Nat.lt_or_gt_of_ne hne with hlt | hgt
        · have := (Nat.div_lt_iff_lt_mul hbs).mp hlt
          omega
        · have := (Nat.le_div_iff_mul_le hbs).mp hgt
          rw [Nat.succ_mul] at this
          omega
      refine ⟨s', ?_, hwrote.bad_eq.trans hbad, ?_, ?_⟩
      · simp only [tour, hlen, if_false, writePass, hblock]
        exact htour
      · intro x hxg
        rw [List.mem_cons, not_or] at hxg
        rw [hwrote.same x hxg.2, hfirst x hxg.1]
      · intro a ha
        apply view_write_cons hbs hg hk.2 s.buffer hsame _ ha
        intro a ha
        have hview : view c.blocksize gs s₁.nand.data a = view c.blocksize gs s.nand.data a := by
          apply view_congr hbs _ ha
          intro x hxg
          apply hfirst
          rintro rfl
          exact hg hxg
        rw [hwrote.wrote a ha]
        simp only [Memory.write, hview, hb, Nat.sub_zero]

/-- What was written behind the first few blocks of an array. -/
theorem Wrote.lift {gs : List Nat} (hgs : gs.Nodup) {n k : Nat} {s s' : WriteState}
    (h : Wrote c.blocksize (gs.drop n) k s s') :
    Wrote c.blocksize gs (n * c.blocksize + k) s s' := by
  have hbs := blocksize_pos c
  constructor
  · exact h.bad_eq
  · intro x hx
    apply h.same
    intro hmem
    exact hx (List.mem_of_mem_drop hmem)
  · intro a ha
    rcases Nat.lt_or_ge a (n * c.blocksize) with hlt | hge
    · -- a block in front of the write
      rw [Memory.write_apply_lt _ _ (by omega)]
      have hdiv : a / c.blocksize < n := (Nat.div_lt_iff_lt_mul hbs).mpr hlt
      have hlen : a / c.blocksize < gs.length := (Nat.div_lt_iff_lt_mul hbs).mpr ha
      apply h.same
      rw [physAddr, Nat.add_comm, Nat.add_mul_div_right _ _ hbs,
        Nat.div_eq_of_lt (Nat.mod_lt a hbs), Nat.zero_add, List.getD_eq_getElem?_getD,
        List.getElem?_eq_getElem hlen]
      intro hdrop
      apply List.disjoint_take_drop hgs (Nat.le_refl n) _ hdrop
      exact List.mem_take_iff_getElem.mpr ⟨a / c.blocksize, by omega, rfl⟩
    · obtain ⟨a, rfl⟩ := Nat.exists_eq_add_of_le hge
      have hcap : (gs.drop n).length * c.blocksize = gs.length * c.blocksize - n * c.blocksize := by
        rw [List.length_drop, Nat.sub_mul]
      have hw := h.wrote a (by omega)
      rw [view_drop hbs] at hw
      rw [hw, hcap]
      simp only [Memory.write, view_drop hbs, Nat.add_le_add_iff_left, Nat.sub_add_eq,
        Nat.add_sub_cancel_left]

end Tours

/-! ## Handles -/

/-- The address of a call. -/
def FlashCall.addr : FlashCall → Nat
  | .read addr _ => addr
  | .write addr _ => addr

/-- The number of bytes of a call. -/
def FlashCall.len : FlashCall → Nat
  | .read _ len => len
  | .write _ buf => buf.length

/-- The calls that are not refused for their arguments. -/
def accepts (c : NandRawCtrl) (f : FlashInfo) (i : FlashCall) : Bool :=
  addrLenValid i.addr i.len f.limit_len && i.len ≠ 0 && i.addr % c.pagesize = 0 &&
    match i with
    | .read _ _ => true
    | .write _ _ => c.pagesize ≤ nandPageBufSize

/-- The flat array of `cap` bytes. -/
def flat (c : NandRawCtrl) (f : FlashInfo) (cap : Nat) :
    Machine (Memory UInt8) FlashCall (Option (List UInt8)) where
  step m i :=
    if accepts c f i then
      match i with
      | .read addr len => (m, some (m.read addr (min len (cap - addr))))
      | .write addr buf => (m.write addr (buf.take (cap - addr)), some [])
    else (m, some [])

/-- No shift overflows in a call: the blocks in front of its address, bad ones included,
    are less than 4 GiB, and so is every run of bad blocks the call comes to. -/
structure InReach (c : NandRawCtrl) (bad : Nat → Bool) (o e last : Nat) (i : FlashCall) : Prop where
  near : i.addr / c.blocksize ≤ (goods bad o (o + (wrapBlocks c - 1))).length ∨
    last ≤ o + (wrapBlocks c - 1)
  skips : ∀ x, o ≤ x → i.addr / c.blocksize ≤ (goods bad o x).length →
    (goods bad o x).length <
      i.addr / c.blocksize + blocksNeeded c (i.addr % c.blocksize) i.len →
    (goods bad o x).length ≤ max (i.addr / c.blocksize) (goods bad o e).length →
    ¬ LongRun c bad x

/-- A write is of whole pages. -/
def Paged (c : NandRawCtrl) : FlashCall → Prop
  | .read _ _ => True
  | .write _ buf => buf.length % c.pagesize = 0

instance (c : NandRawCtrl) : DecidablePred (Paged c)
  | .read _ _ => inferInstanceAs (Decidable True)
  | .write _ buf => inferInstanceAs (Decidable (buf.length % c.pagesize = 0))

/-- What is asked of a call: a write is of whole pages, and a call that is not refused is
    in reach. -/
structure CallOk (c : NandRawCtrl) (f : FlashInfo) (bad : Nat → Bool) (o e last : Nat)
    (i : FlashCall) : Prop where
  paged : Paged c i
  inReach : accepts c f i = true → InReach c bad o e last i

section Handle

variable {c : NandRawCtrl} {f : FlashInfo} {first last o e : Nat} {bad : Nat → Bool}

/-- Where a call starts: `q` blocks behind the beginning of the flash. -/
structure StartsAt (c : NandRawCtrl) (f : FlashInfo) (bad : Nat → Bool) (o e last : Nat)
    (i : FlashCall) (q : Nat) : Prop where
  le : o ≤ q
  start_eq : compensateNandAddress c bad i.addr f.open_addr =
    q * c.blocksize + i.addr % c.blocksize
  drop_eq : (goods bad o e).drop (i.addr / c.blocksize) = goods bad q e
  fits : q < last →
    SkipsFit c bad q e (blocksNeeded c (i.addr % c.blocksize) i.len)

theorem InReach.startsAt (h : Opened c f first last o e) {i : FlashCall}
    (hi : InReach c bad o e last i) : ∃ q, StartsAt c f bad o e last i q := by
  have hspec := physicalIndex_spec bad (i.addr / c.blocksize) h.two_le h.contiguous h.first_le
  revert hspec
  generalize hm : nandRawGetPhysicalIndex c bad (o * c.blocksize) (i.addr / c.blocksize) = m
  rintro ⟨hstop, hleast⟩
  have hwrap := h.one_lt_wrap
  have hlt : m < wrapBlocks c := by
    by_contra hge
    have hnot := hleast (wrapBlocks c - 1) (by omega)
    have hnear := hi.near
    omega
  refine ⟨o + m, Nat.le_add_right _ _, ?_, ?_, ?_⟩
  · have hshift : i.addr >>> c.blockshift = i.addr / c.blocksize := Nat.shiftRight_eq_div_pow _ _
    rw [compensateNandAddress, hshift, h.open_eq, hm, blocksToBytes_of_lt hlt, Nat.add_mul]
  · apply drop_goods (Nat.le_add_right _ _)
    have hle := h.le_last
    omega
  · intro hlast x hx hneed hcap
    have hcount : (goods bad o (o + m)).length = i.addr / c.blocksize := by omega
    have hsplit : (goods bad o x).length =
        i.addr / c.blocksize + (goods bad (o + m) x).length := by
      rw [goods_append (Nat.le_add_right o m) hx, List.length_append, hcount]
    apply hi.skips x (by omega) (by omega) (by omega)
    -- no good block lies between the limit and `x`
    rcases Nat.le_total (o + m) e with hqe | hqe
    · rw [hsplit, goods_append (Nat.le_add_right o m) hqe, List.length_append, hcount]
      omega
    · rw [goods_nil hqe] at hcap
      have hzero : (goods bad (o + m) x).length = 0 := Nat.le_zero.mp hcap
      omega

/-- The address in the flash is as aligned as the address of the call. -/
theorem Opened.start_mod_page (h : Opened c f first last o e) (addr : Nat) :
    compensateNandAddress c bad addr f.open_addr % c.pagesize = addr % c.pagesize := by
  have hdvd : c.pagesize ∣ c.blocksize := Nat.pow_dvd_pow 2 h.page_le
  rw [← Nat.mod_mod_of_dvd _ hdvd, h.start_mod, Nat.mod_mod_of_dvd _ hdvd]

/-- The parts of an accepted call. -/
theorem accepts_parts {i : FlashCall} (hacc : accepts c f i = true) :
    addrLenValid i.addr i.len f.limit_len = true ∧ i.len ≠ 0 ∧ i.addr % c.pagesize = 0 := by
  simp only [accepts, Bool.and_eq_true, decide_eq_true_eq] at hacc
  exact ⟨hacc.1.1.1, hacc.1.1.2, hacc.1.2⟩

/-- The byte of its block a call starts at. -/
theorem accepts_pageStart (h : Opened c f first last o e) {i : FlashCall}
    (hacc : accepts c f i = true) : PageStart c (i.addr % c.blocksize) := by
  have hdvd : c.pagesize ∣ c.blocksize := Nat.pow_dvd_pow 2 h.page_le
  constructor
  · rw [Nat.mod_mod_of_dvd _ hdvd]
    exact (accepts_parts hacc).2.2
  · exact Nat.mod_lt _ (blocksize_pos c)

/-- A call that starts behind the flash has no block to go to. -/
theorem StartsAt.cap_le {i : FlashCall} {q : Nat} (hq : StartsAt c f bad o e last i q)
    (hle : e ≤ q) : (goods bad o e).length * c.blocksize ≤ i.addr := by
  have hnil := hq.drop_eq
  rw [goods_nil hle, List.drop_eq_nil_iff] at hnil
  have hmul := Nat.mul_le_mul_right c.blocksize hnil
  have hdiv := Nat.div_mul_le_self i.addr c.blocksize
  omega

/-- The bytes behind the address, in the blocks the call goes to. -/
theorem StartsAt.cap_eq {i : FlashCall} {q : Nat} (hq : StartsAt c f bad o e last i q) :
    (goods bad q e).length * c.blocksize - i.addr % c.blocksize =
      (goods bad o e).length * c.blocksize - i.addr := by
  rw [← hq.drop_eq, List.length_drop, Nat.sub_mul, Nat.sub_sub, Nat.div_add_mod']

/-- Where the flash ends in front of the call. -/
theorem StartsAt.past {i : FlashCall} {q : Nat} (hq : StartsAt c f bad o e last i q)
    (h : Opened c f first last o e) (hge : last ≤ q) :
    q * c.blocksize + i.addr % c.blocksize ≥ c.size ∧
      (goods bad o e).length * c.blocksize - i.addr = 0 := by
  have hle := Nat.mul_le_mul_right c.blocksize hge
  constructor
  · rw [h.size_eq]
    omega
  · exact Nat.sub_eq_zero_of_le (hq.cap_le (Nat.le_trans h.le_last hge))

/-- A call that is refused reads nothing. -/
theorem mtFlashRead_refused (h : Opened c f first last o e) (nand : Nand) {addr len : Nat}
    (hacc : accepts c f (.read addr len) = false) :
    (mtFlashRead c f nand addr len).map Prod.fst = some [] := by
  unfold mtFlashRead
  by_cases hvalid : addrLenValid addr len f.limit_len = true
  · simp only [accepts, FlashCall.addr, FlashCall.len, hvalid, Bool.true_and, Bool.and_true,
      Bool.and_eq_false_iff] at hacc
    have hguard : len = 0 ∨ addr % c.pagesize ≠ 0 := by
      rcases hacc with hlen | hmod
      · exact Or.inl (not_not.mp (of_decide_eq_false hlen))
      · exact Or.inr (of_decide_eq_false hmod)
    rw [if_pos hvalid, nandRawRead, if_pos]
    · rfl
    · rw [h.start_mod_page]
      exact Or.inr hguard
  · rw [if_neg hvalid]
    rfl

/-- A read sees the array. -/
theorem mtFlashRead_spec (h : Opened c f first last o e) (nand : Nand) {addr len : Nat}
    (hacc : accepts c f (.read addr len) = true)
    (hin : InReach c nand.bad o e last (.read addr len)) :
    (mtFlashRead c f nand addr len).map Prod.fst =
      some ((view c.blocksize (goods nand.bad o e) nand.data).read addr
        (min len ((goods nand.bad o e).length * c.blocksize - addr))) := by
  have hbs := blocksize_pos c
  obtain ⟨hvalid, hlen, hmod⟩ := accepts_parts hacc
  have hk := accepts_pageStart h hacc
  obtain ⟨q, hq⟩ := hin.startsAt h
  have hstart := hq.start_eq
  have hcap := hq.cap_eq
  simp only [FlashCall.addr, FlashCall.len] at hvalid hlen hmod hk hstart hcap
  rw [mtFlashRead, if_pos hvalid, hstart]
  rcases Nat.lt_or_ge q last with hlt | hge
  · -- the walk is a tour of the blocks from `q` on
    have hok : ¬ (q * c.blocksize + addr % c.blocksize ≥ c.size ∨ len = 0 ∨
        (q * c.blocksize + addr % c.blocksize) % c.pagesize ≠ 0) := by
      have hle := Nat.mul_le_mul_right c.blocksize (Nat.succ_le_of_lt hlt)
      rw [Nat.succ_mul] at hle
      have hk' := hk.2
      rw [h.size_eq, (hk.offset h.page_le q).1]
      omega
    have hwalk := walk_spec (lawful_readPass h.pageshift_pos h.page_le nand) h.le h.contiguous
      (fun _ hmem => hmem) (Nat.le_trans h.first_le hq.le) hq.le (s := []) hk hlen
      (hq.fits hlt)
    rw [nandRawRead, if_neg hok, h.open_eq, h.limit_eq]
    have hmin : min last e = e := Nat.min_eq_right h.le_last
    -- the bytes of the tour are those of the array
    have hread : (view c.blocksize (goods nand.bad q e) nand.data).read (addr % c.blocksize)
        (min len ((goods nand.bad q e).length * c.blocksize - addr % c.blocksize)) =
        (view c.blocksize (goods nand.bad o e) nand.data).read addr
          (min len ((goods nand.bad o e).length * c.blocksize - addr)) := by
      rw [hcap]
      apply Memory.read_congr
      intro i _
      have hdrop := hq.drop_eq
      rw [← hdrop, view_drop hbs, ← Nat.add_assoc, FlashCall.addr, Nat.div_add_mod']
    rw [hmin] at hwalk
    have htour := readTour_spec h.page_le nand (goods nand.bad q e) [] len hk
    rw [List.nil_append, hread] at htour
    change Ends (tour c.blocksize (readPass c nand).block (goods nand.bad q e) [] _ len) _ at hwalk
    rcases htour with ⟨k', len', htour⟩ | htour
    · rw [htour] at hwalk
      rcases hwalk with ⟨offset', hw⟩ | hw
      · rw [hw]
        rfl
      · rw [hw]
        rfl
    · rw [htour] at hwalk
      obtain ⟨offset', hw⟩ := hwalk
      rw [hw]
      rfl
  · -- the flash ends in front of the call
    obtain ⟨hend, hzero⟩ := hq.past h hge
    simp only [FlashCall.addr] at hend hzero
    rw [nandRawRead, if_pos (Or.inl hend), hzero, Nat.min_zero]
    rfl

/-- A call that is refused writes nothing. -/
theorem mtFlashWrite_refused (h : Opened c f first last o e) (nand : Nand) {addr : Nat}
    {buf : List UInt8} (hacc : accepts c f (.write addr buf) = false) :
    (mtFlashWrite c f nand (fun _ => false) addr buf false false).map FlashWrite.nand =
      some nand := by
  rw [mtFlashWrite]
  by_cases hvalid : addrLenValid addr buf.length f.limit_len = true
  · simp only [accepts, FlashCall.addr, FlashCall.len, hvalid, Bool.true_and,
      Bool.and_eq_false_iff] at hacc
    have hguard : buf.length = 0 ∨ addr % c.pagesize ≠ 0 ∨ nandPageBufSize < c.pagesize := by
      rcases hacc with (hlen | hmod) | hpage
      · exact Or.inl (not_not.mp (of_decide_eq_false hlen))
      · exact Or.inr (Or.inl (of_decide_eq_false hmod))
      · exact Or.inr (Or.inr (Nat.lt_of_not_le (of_decide_eq_false hpage)))
    simp only [Bool.false_eq_true, if_false, hvalid, if_true]
    rw [nandRawWrite, if_pos]
    · rfl
    · rw [h.start_mod_page]
      tauto
  · simp only [Bool.false_eq_true, if_false, hvalid]
    rfl

/-- A write goes into the array. -/
theorem mtFlashWrite_spec (h : Opened c f first last o e) (nand : Nand) {addr : Nat}
    {buf : List UInt8} (hacc : accepts c f (.write addr buf) = true)
    (hpaged : buf.length % c.pagesize = 0)
    (hin : InReach c nand.bad o e last (.write addr buf)) :
    ∃ s', (mtFlashWrite c f nand (fun _ => false) addr buf false false).map FlashWrite.nand =
        some s'.nand ∧
      Wrote c.blocksize (goods nand.bad o e) addr { nand := nand, buffer := buf } s' := by
  obtain ⟨hvalid, hlen, hmod⟩ := accepts_parts hacc
  have hk := accepts_pageStart h hacc
  have hpage : c.pagesize ≤ nandPageBufSize := by
    simp only [accepts, Bool.and_eq_true, decide_eq_true_eq] at hacc
    exact hacc.2
  obtain ⟨q, hq⟩ := hin.startsAt h
  have hstart := hq.start_eq
  simp only [FlashCall.addr, FlashCall.len] at hvalid hlen hmod hk hstart
  simp only [mtFlashWrite, Bool.false_eq_true, if_false, hvalid, if_true]
  rw [hstart]
  rcases Nat.lt_or_ge q last with hlt | hge
  · -- the walk is a tour of the blocks from `q` on
    have hok : ¬ (q * c.blocksize + addr % c.blocksize ≥ c.size ∨ buf.length = 0 ∨
        (q * c.blocksize + addr % c.blocksize) % c.pagesize ≠ 0 ∨
        ((false : Bool) = true ∧ buf.length % (c.pagesize + oobused) ≠ 0) ∨
        (¬ (false : Bool) = true ∧ nandOobBufSize < oobused) ∨ nandPageBufSize < c.pagesize) := by
      have hle := Nat.mul_le_mul_right c.blocksize (Nat.succ_le_of_lt hlt)
      rw [Nat.succ_mul] at hle
      have hk' := hk.2
      have hoob : ¬ nandOobBufSize < oobused := by decide
      rw [h.size_eq, (hk.offset h.page_le q).1]
      simp only [Bool.false_eq_true, false_and, not_false_eq_true, true_and, hoob, false_or]
      omega
    have hwalk := walk_spec (lawful_writePass h.pageshift_pos h.page_le) h.le h.contiguous
      (fun _ hmem => hmem) (Nat.le_trans h.first_le hq.le) hq.le
      (s := { nand := nand, buffer := buf }) hk hlen (hq.fits hlt)
    rw [Nat.min_eq_right h.le_last] at hwalk
    obtain ⟨s', htour, hwrote⟩ := writeTour_spec (s := { nand := nand, buffer := buf }) h.page_le
      (nodup_goods nand.bad q e) hk rfl hpaged
    change Ends (tour c.blocksize (writePass c false).block (goods nand.bad q e) _ _ buf.length) _
      at hwalk
    refine ⟨s', ?_, ?_⟩
    · rw [nandRawWrite, if_neg hok, h.open_eq, h.limit_eq]
      rcases htour with ⟨k', len', htour⟩ | htour
      · rw [htour] at hwalk
        rcases hwalk with ⟨offset', hw⟩ | hw
        · rw [hw]
          rfl
        · rw [hw]
          rfl
      · rw [htour] at hwalk
        obtain ⟨offset', hw⟩ := hwalk
        rw [hw]
        rfl
    · have hdrop := hq.drop_eq
      rw [← hdrop] at hwrote
      have hlift := hwrote.lift (nodup_goods nand.bad o e)
      rwa [FlashCall.addr, Nat.div_add_mod'] at hlift
  · -- the flash ends in front of the call
    obtain ⟨hend, hzero⟩ := hq.past h hge
    simp only [FlashCall.addr] at hend hzero
    refine ⟨{ nand := nand, buffer := buf }, ?_, rfl, fun _ _ => rfl, ?_⟩
    · rw [nandRawWrite, if_pos (Or.inl hend)]
      rfl
    · intro a _
      rw [hzero, List.take_zero, Memory.write_nil]

end Handle

/-! ## Runs -/

section Runs

variable {c : NandRawCtrl} {f : FlashInfo} {first last o e : Nat}

/-- The flash shows an array, and is otherwise as it was at the beginning. -/
structure Shows (c : NandRawCtrl) (o e : Nat) (start nand : Nand) (m : Memory UInt8) : Prop where
  bad_eq : nand.bad = start.bad
  same : ∀ x, x / c.blocksize ∉ goods start.bad o e → nand.data x = start.data x
  shows : ∀ a < (goods start.bad o e).length * c.blocksize,
    view c.blocksize (goods start.bad o e) nand.data a = m a

/-- A call does to the flash what it does to the array. -/
theorem step_flat (h : Opened c f first last o e) (start nand : Nand) (m : Memory UInt8)
    (i : FlashCall) (hI : Shows c o e start nand m) (hi : CallOk c f start.bad o e last i) :
    Shows c o e start ((machine c f).step nand i).1
        ((flat c f ((goods start.bad o e).length * c.blocksize)).step m i).1 ∧
      ((machine c f).step nand i).2 =
        ((flat c f ((goods start.bad o e).length * c.blocksize)).step m i).2 := by
  cases hacc : accepts c f i with
  | false =>
    -- a refused call leaves both memories as they are
    simp only [flat, hacc, Bool.false_eq_true, if_false]
    cases i with
    | read addr len => exact ⟨hI, mtFlashRead_refused h nand hacc⟩
    | write addr buf =>
      have hw := mtFlashWrite_refused h nand hacc
      simp only [machine]
      cases hres : mtFlashWrite c f nand (fun _ => false) addr buf false false with
      | none => simp [hres] at hw
      | some w =>
        rw [hres] at hw
        have hnand : w.nand = nand := by simpa using hw
        simp only [hnand]
        exact ⟨hI, trivial⟩
  | true =>
    -- an accepted call stays within the good blocks
    simp only [flat, hacc, if_true]
    have hin := hi.inReach hacc
    rw [← hI.bad_eq] at hin
    cases i with
    | read addr len =>
      refine ⟨hI, ?_⟩
      -- a read returns what the flat memory holds at the same addresses
      have hr := mtFlashRead_spec h nand hacc hin
      rw [hI.bad_eq] at hr
      apply hr.trans
      apply congrArg some
      apply Memory.read_congr
      intro k hk
      exact hI.shows _ (by omega)
    | write addr buf =>
      -- a write marks no block and stores the buffer where the flat memory does
      obtain ⟨s', hw, hwrote⟩ := mtFlashWrite_spec h nand hacc hi.paged hin
      rw [hI.bad_eq] at hwrote
      simp only [machine]
      cases hres : mtFlashWrite c f nand (fun _ => false) addr buf false false with
      | none => simp [hres] at hw
      | some w =>
        rw [hres] at hw
        have hnand : w.nand = s'.nand := by simpa using hw
        simp only [hnand, and_true]
        constructor
        · exact hwrote.bad_eq.trans hI.bad_eq
        · intro x hx
          rw [hwrote.same x hx]
          exact hI.same x hx
        · intro a ha
          rw [hwrote.wrote a ha]
          simp only [Memory.write, hI.shows a ha]

/-- As long as no shift overflows, a handle is a flat array: every read returns what the
    array holds, the flash ends as the array does, and nothing outside the handle's good
    blocks is touched. -/
theorem handle_flat (h : Opened c f first last o e) (nand : Nand) (calls : List FlashCall)
    (hcalls : ∀ i ∈ calls, CallOk c f nand.bad o e last i) :
    let gs := goods nand.bad o e
    let array := flat c f (gs.length * c.blocksize)
    (machine c f).outputs nand calls = array.outputs (view c.blocksize gs nand.data) calls ∧
      (∀ a < gs.length * c.blocksize,
        view c.blocksize gs ((machine c f).final nand calls).data a =
          array.final (view c.blocksize gs nand.data) calls a) ∧
      (∀ x, x < f.open_addr ∨ f.open_addr + f.limit_len ≤ x →
        ((machine c f).final nand calls).data x = nand.data x) ∧
      ((machine c f).final nand calls).bad = nand.bad := by
  have hinit : Shows c o e nand nand (view c.blocksize (goods nand.bad o e) nand.data) :=
    ⟨rfl, fun _ _ => rfl, fun _ _ => rfl⟩
  obtain ⟨houts, hfin⟩ := Machine.simulates (step_flat h nand) hinit hcalls
  refine ⟨houts, hfin.shows, ?_, hfin.bad_eq⟩
  intro x hx
  apply hfin.same
  intro hmem
  obtain ⟨⟨hlo, hhi⟩, -⟩ := mem_goods.mp hmem
  have hbs := blocksize_pos c
  rw [Nat.le_div_iff_mul_le hbs] at hlo
  rw [Nat.div_lt_iff_lt_mul hbs] at hhi
  rw [h.open_eq, h.limit_eq, ← Nat.add_mul, Nat.add_sub_of_le h.le] at hx
  omega

/-- Six blocks in two partitions, the second block bad, and a handle on the first five. -/
theorem handle_flat_small :
    let c : NandRawCtrl :=
      { size := 6 * 2 ^ 12, pageshift := 9, blockshift := 12
        partition := [⟨0, 2 * 2 ^ 12 - 1⟩, ⟨2 * 2 ^ 12, 6 * 2 ^ 12 - 1⟩] }
    let nand : Nand := { data := fun _ => 0xFF, bad := fun i => i = 1 }
    let calls : List FlashCall := [.write 4096 (List.replicate 512 7), .read 4096 1]
    (machine c ⟨0, 5 * 2 ^ 12⟩).outputs nand calls =
      (flat c ⟨0, 5 * 2 ^ 12⟩ ((goods nand.bad 0 5).length * c.blocksize)).outputs
        (view c.blocksize (goods nand.bad 0 5) nand.data) calls := by
  intro c nand calls
  have hopened : Opened c ⟨0, 5 * 2 ^ 12⟩ 0 6 0 5 :=
    { pageshift_pos := by decide
      page_le := by decide
      blockshift_lt := by decide
      contiguous := ⟨⟨by decide, by decide, by decide⟩, ⟨by decide, by decide, by decide⟩,
        show 6 * 2 ^ 12 / 2 ^ 12 = 6 by decide⟩
      size_eq := by decide
      first_le := Nat.le_refl 0
      open_eq := rfl
      limit_eq := rfl
      le := by decide
      le_last := by decide }
  have hpaged : ∀ i ∈ calls, Paged c i := by decide +kernel
  refine (handle_flat hopened nand calls fun i hi => ⟨hpaged i hi, fun _ => ⟨?_, ?_⟩⟩).1
  · exact Or.inr (by decide)
  · -- one bad block alone is no long run
    rintro x - - - - ⟨-, -, -, -, hrun⟩
    have h0 := hrun 0 (by decide)
    have h1 := hrun 1 (by decide)
    simp only [nand, decide_eq_true_eq] at h0 h1
    omega

end Runs

/-! ## A write that goes astray -/

/-- 1025 blocks of 4 MiB. -/
def bigFlash : NandRawCtrl where
  size := 1025 * 2 ^ 22
  pageshift := 9
  blockshift := 22
  partition := [{ start := 0, «end» := 1025 * 2 ^ 22 - 1 }]

/-- A handle on all of them. -/
def wholeFlash : FlashInfo := { open_addr := 0, limit_len := 1025 * 2 ^ 22 }

/-- A flash without bad blocks. -/
def blank : Nand := { data := fun _ => 0xFF, bad := fun _ => false }

/-- A page is written at 0 and another one at 4 GiB, and the first one is read. -/
def astray : List FlashCall :=
  [.write 0 (List.replicate 512 1), .write (2 ^ 32) (List.replicate 512 2), .read 0 1]

/-- The second write lands on the first page. -/
theorem write_goes_astray :
    Opened bigFlash wholeFlash 0 1025 0 1025 ∧
      (∀ i ∈ astray, Paged bigFlash i ∧ accepts bigFlash wholeFlash i = true) ∧
      (machine bigFlash wholeFlash).outputs blank astray ≠
        (flat bigFlash wholeFlash
          ((goods blank.bad 0 1025).length * bigFlash.blocksize)).outputs
            (view bigFlash.blocksize (goods blank.bad 0 1025) blank.data) astray := by
  refine ⟨?_, by decide +kernel, by decide +kernel⟩
  exact
    { pageshift_pos := by decide
      page_le := by decide
      blockshift_lt := by decide
      contiguous := ⟨⟨by decide +kernel, by decide +kernel, by decide +kernel⟩,
        show 1025 * 2 ^ 22 / 2 ^ 22 = 1025 by decide +kernel⟩
      size_eq := by decide +kernel
      first_le := Nat.le_refl 0
      open_eq := by decide +kernel
      limit_eq := by decide +kernel
      le := by decide
      le_last := by decide }

end Tntsat.NandRaw
