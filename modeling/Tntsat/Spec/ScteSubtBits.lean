import Mathlib.Algebra.Group.Nat.Defs
import Mathlib.Tactic.NormNum
import Tntsat.ForStd.BitString
import Tntsat.Native.ScteSubtParse

/-!
# The bit reader of SCTE subtitles

A reader stands for the bits behind its position.  It reads bits that are there, and when there
are too few it reads the byte behind the last one: the end is tested with `>` only.

## Key results

- `read_rest`: what is read when there are enough bits
- `read_short`: the byte behind the last one is read otherwise
- `bitmapStep_code`: a code of the table and its pixels
- `bitmapLoop_returns`: the loop over the bitmap ends
-/

namespace Tntsat.ScteSubtParse

namespace BsSub

/-- The position in bits. -/
def bitPos (s : BsSub) : Nat := 8 * s.p_p + (8 - s.left)

/-- The bits behind the position. -/
def rest (s : BsSub) : List Bool := (bytesBits s.p_start).drop s.bitPos

/-- The reader has all of its bytes, and its position is not behind the end. -/
structure Ready (s : BsSub) : Prop where
  left : 0 < s.left ∧ s.left ≤ 8
  size : s.p_end = s.p_start.length
  position : s.p_p ≤ s.p_end

/-- Only bytes of the data have been read. -/
def Inside (s : BsSub) : Prop := ∀ i ∈ s.reads, i < s.p_start.length

/-- The byte behind the last one has been read. -/
def Outside (s : BsSub) : Prop := ∃ i ∈ s.reads, s.p_start.length ≤ i

theorem not_inside_iff {s : BsSub} : ¬ s.Inside ↔ s.Outside := by
  simp [Inside, Outside]

theorem length_rest {s : BsSub} (h : s.Ready) :
    s.rest.length = 8 * (s.p_end - s.p_p) - (8 - s.left) := by
  rw [rest, List.length_drop, length_bytesBits, ← h.size, bitPos]
  omega

/-- There are bits left in the byte at the position. -/
theorem rest_of_lt {s : BsSub} (h : s.Ready) (hlt : s.p_p < s.p_start.length) :
    s.rest = natBits s.left (s.p_start.getD s.p_p 0).toNat ++
      (bytesBits s.p_start).drop (8 * (s.p_p + 1)) := by
  have hleft := h.left
  have hbyte := drop_natBits (8 - s.left) s.left (s.p_start.getD s.p_p 0).toNat
  rw [Nat.sub_add_cancel hleft.2] at hbyte
  rw [rest, bitPos, ← List.drop_drop, drop_bytesBits_of_lt hlt,
    List.drop_append_of_le_length (by rw [length_natBits]; omega), hbyte]

theorem mask_and (v k : Nat) : v &&& mask k = v % 2 ^ k := Nat.and_two_pow_sub_one_eq_mod v k

/-- What a read leaves: the bytes are the same, and it goes on behind the bits. -/
structure Behind (s t : BsSub) (count : Nat) : Prop where
  start : t.p_start = s.p_start
  ready : t.Ready
  position : t.bitPos = s.bitPos + count
  inside : s.Inside → t.Inside

theorem Behind.rest {s t : BsSub} {count : Nat} (h : s.Behind t count) :
    t.rest = s.rest.drop count := by
  simp only [BsSub.rest, List.drop_drop, h.start, h.position]

/-- A read inside of a byte. -/
theorem read_byte {s : BsSub} (h : s.Ready) {count : Nat} (hle : count ≤ s.left)
    (hlt : s.p_p < s.p_start.length) :
    ((s.p_start.getD s.p_p 0).toNat >>> (s.left - count)) &&& mask count =
      bitsNat (s.rest.take count) := by
  have hsplit := natBits_add count (s.left - count) (s.p_start.getD s.p_p 0).toNat
  rw [Nat.add_sub_cancel' hle] at hsplit
  rw [rest_of_lt h hlt, hsplit, List.append_assoc, List.take_left' (length_natBits _ _),
    bitsNat_natBits_mod, mask_and, Nat.shiftRight_eq_div_pow]

theorem readLoop_rest (fuel : Nat) {count : Nat} (r : Nat) {s : BsSub} (h : s.Ready)
    (hfuel : count ≤ fuel) (hcount : count ≤ s.rest.length) :
    (readLoop fuel count (r * 2 ^ count) s).1 = r * 2 ^ count + bitsNat (s.rest.take count) ∧
      s.Behind (readLoop fuel count (r * 2 ^ count) s).2 count := by
  induction fuel generalizing count r s with
  | zero =>
    obtain rfl : count = 0 := Nat.le_zero.mp hfuel
    exact ⟨by simp [readLoop], rfl, h, rfl, id⟩
  | succ fuel ih =>
    simp only [readLoop]
    by_cases hzero : count = 0
    · rw [if_pos hzero]
      subst hzero
      exact ⟨by simp, rfl, h, rfl, id⟩
    · rw [if_neg hzero, if_neg (Nat.not_lt.mpr h.position)]
      have hlength := length_rest h
      have hend := h.size
      have hleft := h.left
      have hlt : s.p_p < s.p_start.length := by omega
      have hreads : s.Inside → ∀ i ∈ s.reads ++ [s.p_p], i < s.p_start.length := fun hin =>
        List.forall_mem_append.mpr ⟨hin, List.forall_mem_singleton.mpr hlt⟩
      by_cases hle : count ≤ s.left
      · rw [if_pos hle, read_byte h hle hlt]
        dsimp only
        refine ⟨?_, ?_⟩
        · have hbits := bitsNat_lt (s.rest.take count)
          rw [List.length_take, Nat.min_eq_left hcount] at hbits
          rw [Nat.mul_comm, Nat.two_pow_add_eq_or_of_lt hbits]
        · by_cases hnone : s.left - count = 0
          · rw [if_pos hnone]
            refine ⟨rfl, ⟨by simp, hend, by simp only; omega⟩, ?_, hreads⟩
            simp only [bitPos]
            omega
          · rw [if_neg hnone]
            refine ⟨rfl, ⟨by simp only; omega, hend, by simp only; omega⟩, ?_, hreads⟩
            simp only [bitPos]
            omega
      · rw [if_neg hle]
        -- The bits that are left of the byte come first.
        have hlt' : s.left < count := Nat.lt_of_not_le hle
        have hpow : 2 ^ count = 2 ^ s.left * 2 ^ (count - s.left) := by
          rw [← Nat.pow_add, Nat.add_sub_cancel' hlt'.le]
        have hbyte := read_byte h le_rfl hlt
        rw [Nat.sub_self, Nat.shiftRight_zero] at hbyte
        have hresult : r * 2 ^ count ||| (((s.p_start.getD s.p_p 0).toNat &&& mask s.left) <<<
            (count - s.left)) =
            (r * 2 ^ s.left + bitsNat (s.rest.take s.left)) * 2 ^ (count - s.left) := by
          have hbits := bitsNat_lt (s.rest.take s.left)
          rw [List.length_take, Nat.min_eq_left (by omega)] at hbits
          have hsum : r * 2 ^ s.left + bitsNat (s.rest.take s.left) =
              2 ^ s.left * r ||| bitsNat (s.rest.take s.left) := by
            rw [Nat.mul_comm, Nat.two_pow_add_eq_or_of_lt hbits]
          rw [hbyte, hsum, ← Nat.shiftLeft_eq (2 ^ s.left * r ||| _), Nat.shiftLeft_or_distrib,
            Nat.shiftLeft_eq (2 ^ s.left * r), hpow, Nat.mul_comm (2 ^ s.left) r, Nat.mul_assoc]
        rw [hresult]
        have hnext : ({ s with
            reads := s.reads ++ [s.p_p], p_p := s.p_p + 1, left := 8 } : BsSub).rest =
              s.rest.drop s.left := by
          simp only [rest, bitPos, List.drop_drop]
          congr 1
          omega
        have hready : ({ s with
            reads := s.reads ++ [s.p_p], p_p := s.p_p + 1, left := 8 } : BsSub).Ready :=
          ⟨by simp, hend, by simp only; omega⟩
        obtain ⟨hvalue, hbehind⟩ := ih (r * 2 ^ s.left + bitsNat (s.rest.take s.left)) hready
          (show count - s.left ≤ fuel by omega) (by rw [hnext, List.length_drop]; omega)
        refine ⟨?_, hbehind.start, hbehind.ready, ?_, fun hin => hbehind.inside (hreads hin)⟩
        · rw [hvalue, hnext, Nat.add_mul, Nat.mul_assoc, ← hpow, Nat.add_assoc]
          congr 1
          have htake : s.rest.take count =
              s.rest.take s.left ++ (s.rest.drop s.left).take (count - s.left) := by
            rw [← List.take_add, Nat.add_sub_cancel' hlt'.le]
          rw [htake, bitsNat_append, List.length_take, List.length_drop,
            Nat.min_eq_left (by omega)]
        · rw [hbehind.position]
          simp only [bitPos]
          omega

/-- Bits that are there are read. -/
theorem read_rest {s : BsSub} (h : s.Ready) {count : Nat} (hcount : count ≤ s.rest.length) :
    (s.read count).1 = bitsNat (s.rest.take count) ∧ s.Behind (s.read count).2 count := by
  have hloop := readLoop_rest count 0 h le_rfl hcount
  rw [Nat.zero_mul, Nat.zero_add] at hloop
  exact hloop

/-- A read takes the bits of a number that are next. -/
theorem read_natBits {s : BsSub} (h : s.Ready) {count v : Nat} {tail : List Bool}
    (hrest : s.rest = natBits count v ++ tail) (hv : v < 2 ^ count) :
    (s.read count).1 = v ∧ (s.read count).2.rest = tail ∧ s.Behind (s.read count).2 count := by
  obtain ⟨hvalue, hbehind⟩ := read_rest h (show count ≤ s.rest.length by rw [hrest]; simp)
  rw [hrest, List.take_left' (length_natBits _ _), bitsNat_natBits hv] at hvalue
  refine ⟨hvalue, ?_, hbehind⟩
  rw [hbehind.rest, hrest, List.drop_left' (length_natBits _ _)]

/-- The reads so far stay. -/
theorem readLoop_reads (fuel count r : Nat) (s : BsSub) :
    (readLoop fuel count r s).2.p_start = s.p_start ∧
      s.reads ⊆ (readLoop fuel count r s).2.reads := by
  induction fuel generalizing count r s with
  | zero => exact ⟨rfl, List.Subset.refl _⟩
  | succ fuel ih =>
    simp only [readLoop]
    split_ifs
    · exact ⟨rfl, List.Subset.refl _⟩
    · exact ⟨rfl, List.Subset.refl _⟩
    · exact ⟨rfl, List.subset_append_left _ _⟩
    · exact ⟨rfl, List.subset_append_left _ _⟩
    · obtain ⟨hstart, hreads⟩ := ih (count - s.left)
        (r ||| (((s.p_start.getD s.p_p 0).toNat &&& mask s.left) <<< (count - s.left)))
        { s with reads := s.reads ++ [s.p_p], p_p := s.p_p + 1, left := 8 }
      exact ⟨hstart, List.Subset.trans (List.subset_append_left _ _) hreads⟩

/-- The byte at the position is read, also when it is the one behind the end. -/
theorem read_reads {s : BsSub} {count : Nat} (hcount : count ≠ 0) (hend : s.p_p ≤ s.p_end) :
    s.p_p ∈ (s.read count).2.reads := by
  obtain ⟨fuel, rfl⟩ := Nat.exists_eq_succ_of_ne_zero hcount
  have hhere : s.p_p ∈ s.reads ++ [s.p_p] := by simp
  simp only [read, readLoop, if_neg hcount, if_neg (Nat.not_lt.mpr hend)]
  split_ifs
  · exact hhere
  · exact hhere
  · exact (readLoop_reads _ _ _ _).2 hhere

/-- What has been read behind the data stays so. -/
theorem Outside.read {s : BsSub} (h : s.Outside) (count : Nat) : (s.read count).2.Outside := by
  obtain ⟨hstart, hreads⟩ := readLoop_reads count count 0 s
  obtain ⟨i, hi, hlen⟩ := h
  exact ⟨i, hreads hi, hstart.symm ▸ hlen⟩

theorem readLoop_short (fuel : Nat) {count : Nat} (r : Nat) {s : BsSub} (h : s.Ready)
    (hfuel : count ≤ fuel) (hcount : s.rest.length < count) :
    (readLoop fuel count r s).2.Outside := by
  induction fuel generalizing count r s with
  | zero => omega
  | succ fuel ih =>
    simp only [readLoop]
    rw [if_neg (by omega), if_neg (Nat.not_lt.mpr h.position)]
    have hlength := length_rest h
    have hend := h.size
    have hleft := h.left
    by_cases hlt : s.p_p < s.p_start.length
    · -- The bits that are left of the byte are too few.
      rw [if_neg (by omega)]
      have hnext : ({ s with
          reads := s.reads ++ [s.p_p], p_p := s.p_p + 1, left := 8 } : BsSub).Ready :=
        ⟨by simp, hend, by simp only; omega⟩
      refine ih _ hnext (by omega) ?_
      rw [length_rest hnext]
      dsimp only
      omega
    · have hhere : s.p_p ∈ s.reads ++ [s.p_p] := by simp
      split_ifs
      · exact ⟨_, hhere, Nat.le_of_not_lt hlt⟩
      · exact ⟨_, hhere, Nat.le_of_not_lt hlt⟩
      · obtain ⟨hstart, hreads⟩ := readLoop_reads fuel (count - s.left)
          (r ||| (((s.p_start.getD s.p_p 0).toNat &&& mask s.left) <<< (count - s.left)))
          { s with reads := s.reads ++ [s.p_p], p_p := s.p_p + 1, left := 8 }
        exact ⟨_, hreads hhere, hstart.symm ▸ Nat.le_of_not_lt hlt⟩

/-- When there are too few bits, the byte behind the last one is read. -/
theorem read_short {s : BsSub} (h : s.Ready) {count : Nat} (hcount : s.rest.length < count) :
    (s.read count).2.Outside :=
  readLoop_short count 0 h le_rfl hcount

/-! ## Skipping bits -/

theorem skipLoop_spec (fuel p_p : Nat) {left : Int} (hlo : -8 * (fuel : Int) < left)
    (hhi : left ≤ 8) :
    8 * ((skipLoop fuel p_p left).1 : Int) - (skipLoop fuel p_p left).2 = 8 * p_p - left ∧
      0 < (skipLoop fuel p_p left).2 ∧ (skipLoop fuel p_p left).2 ≤ 8 := by
  induction fuel generalizing p_p left with
  | zero => exact ⟨rfl, by simpa [skipLoop] using hlo, hhi⟩
  | succ fuel ih =>
    simp only [skipLoop]
    by_cases hneg : left ≤ 0
    · rw [if_pos hneg]
      obtain ⟨heq, hrange⟩ := ih (p_p + 1) (show -8 * (fuel : Int) < left + 8 by omega) (by omega)
      exact ⟨by rw [heq]; push_cast; omega, hrange⟩
    · rw [if_neg hneg]
      exact ⟨rfl, by simp only; omega, hhi⟩

/-- Bits are skipped, also behind the end. -/
theorem skip_spec {s : BsSub} (hleft : 0 < s.left ∧ s.left ≤ 8) (i_count : Nat) :
    (s.skip i_count).bitPos = s.bitPos + i_count ∧
      0 < (s.skip i_count).left ∧ (s.skip i_count).left ≤ 8 := by
  obtain ⟨heq, hpos, hle⟩ := skipLoop_spec i_count s.p_p
    (show -8 * (i_count : Int) < (s.left : Int) - i_count by omega) (by omega)
  refine ⟨?_, ?_, ?_⟩
  · simp only [bitPos, skip]
    omega
  · simp only [skip]
    omega
  · simp only [skip]
    omega

/-- Bits are skipped up to the byte behind the last one. -/
theorem skip_rest {s : BsSub} (h : s.Ready) {count : Nat}
    (hcount : s.bitPos + count < 8 * (s.p_end + 1)) : s.Behind (s.skip count) count := by
  obtain ⟨hpos, hleft⟩ := skip_spec h.left count
  refine ⟨rfl, ⟨hleft, h.size, ?_⟩, hpos, id⟩
  simp only [bitPos] at hpos hcount
  show (s.skip count).p_p ≤ s.p_end
  omega

end BsSub

/-! ## The code table -/

/-- The length of a run that is coded with `k` bits: zero stands for the longest one. -/
def runLength {k : Nat} (n : BitVec k) : Nat := if n.toNat = 0 then 2 ^ k else n.toNat

/-- The run-length codes.  The reserved ones stand for no pixels. -/
inductive Code
  | onOff (n : BitVec 3) (m : BitVec 5)
  | off (n : BitVec 6)
  | on (n : BitVec 4)
  | lineEnd
  | reserved (n : BitVec 2) (hn : n ≠ 1)
deriving DecidableEq

namespace Code

/-- The bits of a code. -/
def bits : Code → List Bool
  | onOff n m => true :: (natBits 3 n.toNat ++ natBits 5 m.toNat)
  | off n => false :: true :: natBits 6 n.toNat
  | on n => false :: false :: true :: natBits 4 n.toNat
  | lineEnd => false :: false :: false :: natBits 2 1
  | reserved n _ => false :: false :: false :: natBits 2 n.toNat

/-- The pixels of a code behind others, in rows of `w` pixels. -/
def pixels (w : Nat) (before : List Bool) : Code → List Bool
  | onOff n m =>
    List.replicate (runLength n) true ++ List.replicate (runLength m) false
  | off n => List.replicate (runLength n) false
  | on n => List.replicate (runLength n) true
  | lineEnd => List.replicate ((before.length / w + 1) * w - before.length) false
  | reserved _ _ => []

end Code

/-- The pixels of codes, in rows of `w` pixels. -/
def expand (w : Nat) : List Bool → List Code → List Bool
  | pixels, [] => pixels
  | pixels, c :: cs => expand w (pixels ++ c.pixels w pixels) cs

/-- The bits of codes. -/
def codeBits (cs : List Code) : List Bool := cs.flatMap Code.bits

theorem codeBits_cons (c : Code) (cs : List Code) : codeBits (c :: cs) = c.bits ++ codeBits cs :=
  rfl

theorem prefix_expand (w : Nat) (pixels : List Bool) (cs : List Code) :
    pixels <+: expand w pixels cs := by
  induction cs generalizing pixels with
  | nil => exact List.prefix_refl _
  | cons c cs ih => exact (List.prefix_append _ _).trans (ih _)

/-- Enough bits are those of a number. -/
theorem exists_bits {k : Nat} {bs : List Bool} (h : k ≤ bs.length) :
    ∃ (n : BitVec k) (tail : List Bool), bs = natBits k n.toNat ++ tail := by
  have hlen : (bs.take k).length = k := List.length_take_of_le h
  have hlt := bitsNat_lt (bs.take k)
  rw [hlen] at hlt
  refine ⟨BitVec.ofNat k (bitsNat (bs.take k)), bs.drop k, ?_⟩
  have hbits := natBits_bitsNat (bs.take k)
  rw [hlen] at hbits
  rw [BitVec.toNat_ofNat, Nat.mod_eq_of_lt hlt, hbits, List.take_append_drop]

/-! ## One code -/

theorem take_append_take {α : Type*} (n : Nat) (xs ys : List α) :
    (xs.take n ++ ys).take n = (xs ++ ys).take n := by
  rcases Nat.le_total n xs.length with h | h
  · rw [List.take_append_of_le_length (List.length_take_of_le h).ge, List.take_take,
      Nat.min_self, List.take_append_of_le_length h]
  · rw [List.take_of_length_le h]

/-- A run up to the end of the bitmap. -/
theorem append_run {size run : Nat} {on : Bool} {pixels : List Bool} (h : pixels.length ≤ size) :
    pixels ++ List.replicate (min run (size - pixels.length)) on =
      (pixels ++ List.replicate run on).take size := by
  rw [List.take_append, List.take_of_length_le h, List.take_replicate, Nat.min_comm]

/-- A run is read and its pixels are put behind the others. -/
theorem fillRun_spec {size k : Nat} (hk : 0 < k) (on : Bool) {s : BsSub × List Bool}
    (h : s.1.Ready) (hsize : s.2.length ≤ size) {n : BitVec k} {tail : List Bool}
    (hrest : s.1.rest = natBits k n.toNat ++ tail) :
    (fillRun size k on s).2 = (s.2 ++ List.replicate (runLength n) on).take size ∧
      (fillRun size k on s).1.rest = tail ∧ s.1.Behind (fillRun size k on s).1 k := by
  obtain ⟨hvalue, htail, hbehind⟩ := BsSub.read_natBits h hrest n.isLt
  simp only [fillRun, if_pos hk, hvalue]
  refine ⟨?_, htail, hbehind⟩
  rw [← append_run hsize, runLength, Nat.shiftLeft_eq, Nat.one_mul]

theorem BsSub.Behind.trans {s t u : BsSub} {j k : Nat} (hst : s.Behind t j)
    (htu : t.Behind u k) : s.Behind u (j + k) where
  start := htu.start.trans hst.start
  ready := htu.ready
  position := by rw [htu.position, hst.position, Nat.add_assoc]
  inside hin := htu.inside (hst.inside hin)

/-- One bit is read. -/
theorem read_bit {s : BsSub} (h : s.Ready) {b : Bool} {tail : List Bool}
    (hrest : s.rest = b :: tail) :
    (s.read 1).1 = b.toNat ∧ (s.read 1).2.rest = tail ∧ s.Behind (s.read 1).2 1 := by
  refine BsSub.read_natBits h (v := b.toNat) ?_ (by cases b <;> decide)
  rw [hrest]
  cases b <;> rfl

theorem Code.bits_length_pos (c : Code) : 0 < c.bits.length := by
  cases c <;> exact List.length_pos_of_ne_nil (List.cons_ne_nil _ _)

/-- A turn of the loop reads a code and puts its pixels behind the others. -/
theorem bitmapStep_code (w : Nat) {size : Nat} {s : BsSub × List Bool} (h : s.1.Ready)
    (hsize : s.2.length ≤ size) (c : Code) {tail : List Bool}
    (hrest : s.1.rest = c.bits ++ tail) :
    (bitmapStep w size s).2 = (s.2 ++ c.pixels w s.2).take size ∧
      (bitmapStep w size s).1.rest = tail ∧
      s.1.Behind (bitmapStep w size s).1 c.bits.length := by
  cases c with
  | onOff n m =>
    -- `1`: a run of pixels that are on, and at once one of pixels that are off
    simp only [Code.bits, List.cons_append, List.append_assoc] at hrest
    obtain ⟨h1, hrest1, hb1⟩ := read_bit h hrest
    obtain ⟨hon, hrest2, hb2⟩ := fillRun_spec (k := 3) (by decide) true
      (s := ((s.1.read 1).2, s.2)) hb1.ready hsize hrest1
    -- the first run may already fill the bitmap
    have hle : (fillRun size 3 true ((s.1.read 1).2, s.2)).2.length ≤ size := by
      rw [hon]
      exact List.length_take_le _ _
    obtain ⟨hoff, hrest3, hb3⟩ := fillRun_spec (k := 5) (by decide) false hb2.ready hle hrest2
    simp only [bitmapStep, h1, Bool.toNat_true, Nat.one_ne_zero, if_false]
    refine ⟨?_, hrest3, ?_⟩
    · rw [hoff, hon, take_append_take, List.append_assoc]
      rfl
    · have hlen : (Code.onOff n m).bits.length = 1 + 3 + 5 := by simp [Code.bits]
      rw [hlen]
      exact (hb1.trans hb2).trans hb3
  | off n =>
    -- `01`
    simp only [Code.bits, List.cons_append] at hrest
    obtain ⟨h1, hrest1, hb1⟩ := read_bit h hrest
    obtain ⟨h2, hrest2, hb2⟩ := read_bit hb1.ready hrest1
    obtain ⟨hoff, hrest3, hb3⟩ := fillRun_spec (k := 6) (by decide) false
      (s := (((s.1.read 1).2.read 1).2, s.2)) hb2.ready hsize hrest2
    simp only [bitmapStep, h1, h2, Bool.toNat_false, Bool.toNat_true, Nat.one_ne_zero, if_true,
      if_false]
    refine ⟨hoff, hrest3, ?_⟩
    have hlen : (Code.off n).bits.length = 1 + 1 + 6 := by simp [Code.bits]
    rw [hlen]
    exact (hb1.trans hb2).trans hb3
  | on n =>
    -- `001`
    simp only [Code.bits, List.cons_append] at hrest
    obtain ⟨h1, hrest1, hb1⟩ := read_bit h hrest
    obtain ⟨h2, hrest2, hb2⟩ := read_bit hb1.ready hrest1
    obtain ⟨h3, hrest3, hb3⟩ := read_bit hb2.ready hrest2
    obtain ⟨hon, hrest4, hb4⟩ := fillRun_spec (k := 4) (by decide) true
      (s := ((((s.1.read 1).2.read 1).2.read 1).2, s.2)) hb3.ready hsize hrest3
    simp only [bitmapStep, h1, h2, h3, Bool.toNat_false, Bool.toNat_true, Nat.one_ne_zero,
      if_true, if_false]
    refine ⟨hon, hrest4, ?_⟩
    have hlen : (Code.on n).bits.length = 1 + 1 + 1 + 4 := by simp [Code.bits]
    rw [hlen]
    exact ((hb1.trans hb2).trans hb3).trans hb4
  | lineEnd =>
    -- `000` and an escape of two bits
    simp only [Code.bits, List.cons_append] at hrest
    obtain ⟨h1, hrest1, hb1⟩ := read_bit h hrest
    obtain ⟨h2, hrest2, hb2⟩ := read_bit hb1.ready hrest1
    obtain ⟨h3, hrest3, hb3⟩ := read_bit hb2.ready hrest2
    obtain ⟨h4, hrest4, hb4⟩ := BsSub.read_natBits hb3.ready hrest3 (by decide)
    simp only [bitmapStep, h1, h2, h3, h4, Bool.toNat_false, if_true]
    refine ⟨?_, hrest4, ?_⟩
    · rw [Code.pixels, ← append_run hsize]
      congr 2
      omega
    · have hlen : Code.lineEnd.bits.length = 1 + 1 + 1 + 2 := by simp [Code.bits]
      rw [hlen]
      exact ((hb1.trans hb2).trans hb3).trans hb4
  | reserved n hn =>
    simp only [Code.bits, List.cons_append] at hrest
    obtain ⟨h1, hrest1, hb1⟩ := read_bit h hrest
    obtain ⟨h2, hrest2, hb2⟩ := read_bit hb1.ready hrest1
    obtain ⟨h3, hrest3, hb3⟩ := read_bit hb2.ready hrest2
    obtain ⟨h4, hrest4, hb4⟩ := BsSub.read_natBits hb3.ready hrest3 n.isLt
    -- an escape that is not the end of a line draws nothing
    have hne : n.toNat ≠ 1 := fun heq => hn (BitVec.eq_of_toNat_eq heq)
    simp only [bitmapStep, h1, h2, h3, h4, Bool.toNat_false, if_true, if_neg hne]
    refine ⟨?_, hrest4, ?_⟩
    · rw [Code.pixels, List.append_nil, List.take_of_length_le hsize]
    · have hlen : (Code.reserved n hn).bits.length = 1 + 1 + 1 + 2 := by simp [Code.bits]
      rw [hlen]
      exact ((hb1.trans hb2).trans hb3).trans hb4

/-! ## Too few bits -/

theorem fillRun_outside {s : BsSub × List Bool} (h : s.1.Outside) (size k : Nat) (on : Bool) :
    (fillRun size k on s).1.Outside := by
  simp only [fillRun]
  split
  · exact h.read k
  · exact h

theorem fillRun_short {s : BsSub × List Bool} (h : s.1.Ready) {k : Nat}
    (hshort : s.1.rest.length < k) (size : Nat) (on : Bool) :
    (fillRun size k on s).1.Outside := by
  simp only [fillRun, if_pos (Nat.zero_lt_of_lt hshort)]
  exact BsSub.read_short h hshort

theorem bitmapStep_outside {s : BsSub × List Bool} (h : s.1.Outside) (w size : Nat) :
    (bitmapStep w size s).1.Outside := by
  have h1 := h.read 1
  have h2 := h1.read 1
  have h3 := h2.read 1
  simp only [bitmapStep]
  split_ifs
  · exact h3.read 2
  · exact h3.read 2
  · exact fillRun_outside h3 _ _ _
  · exact fillRun_outside h2 _ _ _
  · exact fillRun_outside (fillRun_outside h1 _ _ _) _ _ _

/-- Either the bits begin with a code, or the byte behind the last one is read. -/
theorem bitmapStep_cases (w size : Nat) {s : BsSub × List Bool} (h : s.1.Ready) :
    (∃ (c : Code) (tail : List Bool), s.1.rest = c.bits ++ tail) ∨
      (bitmapStep w size s).1.Outside := by
  -- A bit after the other: each one that is not there is read behind the end.
  cases hrest : s.1.rest with
  | nil =>
    have hshort := BsSub.read_short h (show s.1.rest.length < 1 by simp [hrest])
    right
    simp only [bitmapStep]
    split_ifs
    · exact ((hshort.read 1).read 1).read 2
    · exact ((hshort.read 1).read 1).read 2
    · exact fillRun_outside ((hshort.read 1).read 1) _ _ _
    · exact fillRun_outside (hshort.read 1) _ _ _
    · exact fillRun_outside (fillRun_outside hshort _ _ _) _ _ _
  | cons b1 rest1 =>
    obtain ⟨h1, hrest1, hb1⟩ := read_bit h hrest
    cases b1 with
    | true =>
      simp only [bitmapStep, h1, Bool.toNat_true, Nat.one_ne_zero, if_false]
      by_cases hlen3 : 3 ≤ rest1.length
      · obtain ⟨n, tail3, htail3⟩ := exists_bits hlen3
        by_cases hlen5 : 5 ≤ tail3.length
        · obtain ⟨m, tail5, htail5⟩ := exists_bits hlen5
          refine .inl ⟨.onOff n m, tail5, ?_⟩
          rw [htail3, htail5, Code.bits, List.cons_append, List.append_assoc]
        · right
          have hread := BsSub.read_natBits hb1.ready (hrest1.trans htail3) n.isLt
          refine fillRun_short ?_ ?_ _ _
          · simp only [fillRun, if_pos (show 0 < 3 by decide)]
            exact hread.2.2.ready
          · simp only [fillRun, if_pos (show 0 < 3 by decide)]
            rw [hread.2.1]
            omega
      · right
        refine fillRun_outside (fillRun_short hb1.ready ?_ _ _) _ _ _
        rw [hrest1]
        omega
    | false =>
      simp only [bitmapStep, h1, Bool.toNat_false, if_true]
      cases hrest2 : rest1 with
      | nil =>
        have hshort := BsSub.read_short hb1.ready
          (show (s.1.read 1).2.rest.length < 1 by simp [hrest1, hrest2])
        right
        split_ifs
        · exact (hshort.read 1).read 2
        · exact (hshort.read 1).read 2
        · exact fillRun_outside (hshort.read 1) _ _ _
        · exact fillRun_outside hshort _ _ _
      | cons b2 rest2 =>
        obtain ⟨h2, hrest2', hb2⟩ := read_bit hb1.ready (hrest1.trans hrest2)
        cases b2 with
        | true =>
          simp only [h2, Bool.toNat_true, Nat.one_ne_zero, if_false]
          by_cases hlen : 6 ≤ rest2.length
          · obtain ⟨n, tail, htail⟩ := exists_bits hlen
            exact .inl ⟨.off n, tail, by rw [htail, Code.bits]; rfl⟩
          · right
            refine fillRun_short hb2.ready ?_ _ _
            rw [hrest2']
            omega
        | false =>
          simp only [h2, Bool.toNat_false, if_true]
          cases hrest3 : rest2 with
          | nil =>
            have hshort := BsSub.read_short hb2.ready
              (show ((s.1.read 1).2.read 1).2.rest.length < 1 by simp [hrest2', hrest3])
            right
            split_ifs
            · exact hshort.read 2
            · exact hshort.read 2
            · exact fillRun_outside hshort _ _ _
          | cons b3 rest3 =>
            obtain ⟨h3, hrest3', hb3⟩ := read_bit hb2.ready (hrest2'.trans hrest3)
            cases b3 with
            | true =>
              simp only [h3, Bool.toNat_true, Nat.one_ne_zero, if_false]
              by_cases hlen : 4 ≤ rest3.length
              · obtain ⟨n, tail, htail⟩ := exists_bits hlen
                exact .inl ⟨.on n, tail, by rw [htail, Code.bits]; rfl⟩
              · right
                refine fillRun_short hb3.ready ?_ _ _
                rw [hrest3']
                omega
            | false =>
              simp only [h3, Bool.toNat_false, if_true]
              by_cases hlen : 2 ≤ rest3.length
              · obtain ⟨n, tail, htail⟩ := exists_bits (k := 2) hlen
                by_cases hone : n = 1
                · exact .inl ⟨.lineEnd, tail, by rw [htail, hone, Code.bits]; rfl⟩
                · exact .inl ⟨.reserved n hone, tail, by rw [htail, Code.bits]; rfl⟩
              · right
                have hshort := BsSub.read_short hb3.ready
                  (show (((s.1.read 1).2.read 1).2.read 1).2.rest.length < 2 by
                    rw [hrest3']; omega)
                split_ifs <;> exact hshort

/-! ## The whole bitmap -/

/-- The bits behind the position begin with codes for the whole bitmap. -/
def Covers (w size : Nat) (pixels : List Bool) (bs : List Bool) : Prop :=
  ∃ (cs : List Code) (tail : List Bool), bs = codeBits cs ++ tail ∧
    size ≤ (expand w pixels cs).length

/-- Pixels behind a whole bitmap do not matter. -/
theorem take_expand_of_le {w size : Nat} {pixels : List Bool} (h : size ≤ pixels.length)
    (cs : List Code) : (expand w pixels cs).take size = pixels.take size := by
  obtain ⟨more, hmore⟩ := prefix_expand w pixels cs
  rw [← hmore, List.take_append_of_le_length h]

/-- Codes for the whole bitmap are read, and their pixels are left up to its end. -/
theorem bitmapLoop_codes (w : Nat) {size fuel : Nat} {s : BsSub × List Bool} (h : s.1.Ready)
    (hsize : s.2.length ≤ size) (cs : List Code) {tail : List Bool}
    (hrest : s.1.rest = codeBits cs ++ tail) (hcovers : size ≤ (expand w s.2 cs).length)
    (hfuel : s.1.rest.length < fuel) :
    ∃ t, bitmapLoop w size fuel s = some (t, (expand w s.2 cs).take size) ∧
      (s.1.Inside → t.Inside) := by
  induction cs generalizing s fuel with
  | nil =>
    obtain ⟨fuel, rfl⟩ : ∃ k, fuel = k + 1 := ⟨fuel - 1, by omega⟩
    refine ⟨s.1, ?_, id⟩
    simp only [bitmapLoop]
    rw [expand] at hcovers ⊢
    rw [if_pos hcovers, List.take_of_length_le hsize]
  | cons c cs ih =>
    obtain ⟨fuel, rfl⟩ : ∃ k, fuel = k + 1 := ⟨fuel - 1, by omega⟩
    simp only [bitmapLoop]
    by_cases hdone : size ≤ s.2.length
    · refine ⟨s.1, ?_, id⟩
      rw [if_pos hdone, take_expand_of_le hdone, List.take_of_length_le hsize]
    · rw [if_neg hdone, if_neg (by simpa [BsSub.eof] using h.position)]
      rw [codeBits_cons, List.append_assoc] at hrest
      obtain ⟨hpixels, hnext, hbehind⟩ := bitmapStep_code w h hsize c hrest
      have hlonger := c.bits_length_pos
      have hfewer : (bitmapStep w size s).1.rest.length < fuel := by
        rw [hbehind.rest, List.length_drop]
        rw [hrest, List.length_append] at hfuel ⊢
        omega
      by_cases hfits : (s.2 ++ c.pixels w s.2).length ≤ size
      · rw [List.take_of_length_le hfits] at hpixels
        obtain ⟨t, hloop, hinside⟩ := ih hbehind.ready (by rw [hpixels]; exact hfits) hnext
          (by rw [hpixels]; exact hcovers) hfewer
        refine ⟨t, ?_, fun hin => hinside (hbehind.inside hin)⟩
        rw [hloop, hpixels]
        rfl
      -- The code ends behind the bitmap, and the loop is done.
      · have hfull : (s.2 ++ c.pixels w s.2).take size = (expand w s.2 (c :: cs)).take size :=
          (take_expand_of_le (Nat.le_of_not_le hfits) cs).symm
        obtain ⟨fuel, rfl⟩ : ∃ k, fuel = k + 1 := ⟨fuel - 1, by omega⟩
        refine ⟨(bitmapStep w size s).1, ?_, hbehind.inside⟩
        simp only [bitmapLoop]
        rw [if_pos (by rw [hpixels, List.length_take]; omega), ← hfull, ← hpixels]

theorem bitmapLoop_outside {w size fuel : Nat} {s r : BsSub × List Bool} (h : s.1.Outside)
    (hloop : bitmapLoop w size fuel s = some r) : r.1.Outside := by
  induction fuel generalizing s with
  | zero => cases hloop
  | succ fuel ih =>
    simp only [bitmapLoop] at hloop
    split_ifs at hloop
    · cases hloop
      exact h
    · cases hloop
      exact h
    · exact ih (bitmapStep_outside h w size) hloop

/-- The loop reads only bytes of the data when the bits begin with codes for the bitmap. -/
theorem covers_of_inside (w : Nat) {size fuel : Nat} {s : BsSub × List Bool} (h : s.1.Ready)
    (hsize : s.2.length ≤ size) {r : BsSub × List Bool}
    (hloop : bitmapLoop w size fuel s = some r) (hinside : r.1.Inside) :
    Covers w size s.2 s.1.rest := by
  induction fuel generalizing s with
  | zero => cases hloop
  | succ fuel ih =>
    by_cases hdone : size ≤ s.2.length
    · exact ⟨[], s.1.rest, rfl, hdone⟩
    · simp only [bitmapLoop, if_neg hdone] at hloop
      rw [if_neg (by simpa [BsSub.eof] using h.position)] at hloop
      rcases bitmapStep_cases w size h with ⟨c, tail, hrest⟩ | hshort
      · obtain ⟨hpixels, hnext, hbehind⟩ := bitmapStep_code w h hsize c hrest
        obtain ⟨cs, tail', htail, hcovers⟩ := ih hbehind.ready
          (by rw [hpixels]; exact List.length_take_le _ _) hloop
        rw [hnext] at htail
        by_cases hfits : (s.2 ++ c.pixels w s.2).length ≤ size
        · rw [hpixels, List.take_of_length_le hfits] at hcovers
          refine ⟨c :: cs, tail', ?_, hcovers⟩
          rw [hrest, htail, codeBits_cons, List.append_assoc]
        · refine ⟨[c], tail, ?_, Nat.le_of_not_le hfits⟩
          rw [hrest, codeBits_cons, codeBits, List.flatMap_nil, List.append_nil]
      · exact absurd hinside (BsSub.not_inside_iff.mpr (bitmapLoop_outside hshort hloop))

/-! ## The loop ends -/

namespace BsSub

/-- A read goes on behind the position, and what has been read stays. -/
structure Moves (s t : BsSub) : Prop where
  left : 0 < t.left ∧ t.left ≤ 8
  stop : t.p_end = s.p_end
  start : t.p_start = s.p_start
  position : s.bitPos ≤ t.bitPos
  reads : s.reads ⊆ t.reads

theorem Moves.refl {s : BsSub} (h : 0 < s.left ∧ s.left ≤ 8) : s.Moves s :=
  ⟨h, rfl, rfl, le_rfl, List.Subset.refl _⟩

theorem Moves.trans {s t u : BsSub} (hst : s.Moves t) (htu : t.Moves u) : s.Moves u :=
  ⟨htu.left, htu.stop.trans hst.stop, htu.start.trans hst.start, hst.position.trans htu.position,
    List.Subset.trans hst.reads htu.reads⟩

/-- What has been read behind the data stays so. -/
theorem Moves.outside {s t : BsSub} (h : s.Moves t) (hs : s.Outside) : t.Outside := by
  obtain ⟨i, hi, hlen⟩ := hs
  exact ⟨i, h.reads hi, h.start.symm ▸ hlen⟩

theorem readLoop_moves (fuel count r : Nat) {s : BsSub} (h : 0 < s.left ∧ s.left ≤ 8) :
    s.Moves (readLoop fuel count r s).2 := by
  have hread := readLoop_reads fuel count r s
  -- the reads are recorded in any case, so the position is what is left
  suffices hpos : (0 < (readLoop fuel count r s).2.left ∧ (readLoop fuel count r s).2.left ≤ 8) ∧
      (readLoop fuel count r s).2.p_end = s.p_end ∧
      s.bitPos ≤ (readLoop fuel count r s).2.bitPos from
    ⟨hpos.1, hpos.2.1, hread.1, hpos.2.2, hread.2⟩
  induction fuel generalizing count r s with
  | zero => exact ⟨h, rfl, le_rfl⟩
  | succ fuel ih =>
    simp only [readLoop]
    split_ifs with hzero hend hle hnone
    · exact ⟨h, rfl, le_rfl⟩
    · exact ⟨h, rfl, le_rfl⟩
    · refine ⟨by simp, rfl, ?_⟩
      simp only [bitPos]
      omega
    · refine ⟨⟨Nat.pos_of_ne_zero hnone, (Nat.sub_le _ _).trans h.2⟩, rfl, ?_⟩
      simp only [bitPos]
      omega
    -- the rest of the byte is taken and the loop goes on with the next
    · obtain ⟨hleft, hstop, hpos⟩ := ih (count - s.left)
        (r ||| (((s.p_start.getD s.p_p 0).toNat &&& mask s.left) <<< (count - s.left)))
        (s := { s with reads := s.reads ++ [s.p_p], p_p := s.p_p + 1, left := 8 })
        ⟨Nat.zero_lt_succ 7, Nat.le_refl 8⟩ (readLoop_reads ..)
      refine ⟨hleft, hstop, le_trans ?_ hpos⟩
      simp only [bitPos]
      omega

theorem read_moves {s : BsSub} (h : 0 < s.left ∧ s.left ≤ 8) (count : Nat) :
    s.Moves (s.read count).2 :=
  readLoop_moves count count 0 h

/-- A bit is taken before the end is reached. -/
theorem read_one {s : BsSub} (h : 0 < s.left ∧ s.left ≤ 8) (hend : s.eof = false) :
    s.bitPos < (s.read 1).2.bitPos := by
  have hlt : ¬ s.p_end < s.p_p := by simpa [eof] using hend
  have hone : 1 ≤ s.left := h.1
  simp only [read, readLoop, if_neg Nat.one_ne_zero, if_neg hlt, if_pos hone]
  split_ifs
  · simp only [bitPos]
    omega
  · simp only [bitPos]
    omega

end BsSub

theorem fillRun_moves {s : BsSub × List Bool} (h : 0 < s.1.left ∧ s.1.left ≤ 8)
    (size k : Nat) (on : Bool) : s.1.Moves (fillRun size k on s).1 := by
  simp only [fillRun]
  split
  · exact BsSub.read_moves h k
  · exact .refl h

/-- Every turn of the loop takes a bit. -/
theorem bitmapStep_moves {s : BsSub × List Bool} (h : 0 < s.1.left ∧ s.1.left ≤ 8)
    (w size : Nat) : (s.1.read 1).2.Moves (bitmapStep w size s).1 := by
  have h1 := BsSub.read_moves h 1
  have h2 := BsSub.read_moves h1.left 1
  have h3 := BsSub.read_moves h2.left 1
  have h4 := BsSub.read_moves h3.left 2
  simp only [bitmapStep]
  split_ifs
  · exact (h2.trans h3).trans h4
  · exact (h2.trans h3).trans h4
  · have hon := fillRun_moves (s := ((((s.1.read 1).2.read 1).2.read 1).2, s.2))
      h3.left size 4 true
    exact (h2.trans h3).trans hon
  · have hoff := fillRun_moves (s := (((s.1.read 1).2.read 1).2, s.2)) h2.left size 6 false
    exact h2.trans hoff
  · have hon := fillRun_moves (s := ((s.1.read 1).2, s.2)) h1.left size 3 true
    exact hon.trans (fillRun_moves hon.left _ _ _)

/-- The loop goes on behind the position. -/
theorem bitmapLoop_moves {w size fuel : Nat} {s t : BsSub × List Bool}
    (h : 0 < s.1.left ∧ s.1.left ≤ 8) (hloop : bitmapLoop w size fuel s = some t) :
    s.1.Moves t.1 := by
  induction fuel generalizing s with
  | zero => cases hloop
  | succ fuel ih =>
    simp only [bitmapLoop] at hloop
    split_ifs at hloop
    · cases hloop
      exact .refl h
    · cases hloop
      exact .refl h
    · have hstep := (BsSub.read_moves h 1).trans (bitmapStep_moves h w size)
      exact hstep.trans (ih hstep.left hloop)

/-- The loop over the bitmap ends. -/
theorem bitmapLoop_returns (w size : Nat) {fuel : Nat} {s : BsSub × List Bool}
    (h : 0 < s.1.left ∧ s.1.left ≤ 8) (hpos : 0 < fuel)
    (hfuel : 8 * (s.1.p_end + 1) < s.1.bitPos + fuel) :
    ∃ r, bitmapLoop w size fuel s = some r := by
  induction fuel generalizing s with
  | zero => exact absurd hpos (Nat.lt_irrefl 0)
  | succ fuel ih =>
    simp only [bitmapLoop]
    split_ifs with hdone hend
    · exact ⟨_, rfl⟩
    · exact ⟨_, rfl⟩
    · have hone := BsSub.read_one h (by simpa using hend)
      have hmoves := (BsSub.read_moves h 1).trans (bitmapStep_moves h w size)
      have hstep := (bitmapStep_moves h w size).position
      have hlt : ¬ s.1.p_end < s.1.p_p := by simpa [BsSub.eof] using hend
      have hold : s.1.bitPos = 8 * s.1.p_p + (8 - s.1.left) := rfl
      refine ih hmoves.left (by omega) ?_
      rw [hmoves.stop]
      omega

end Tntsat.ScteSubtParse
