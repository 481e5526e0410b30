import Mathlib.Logic.Function.Iterate
import Tntsat.ForStd.BitString

/-!
# Exclusive or, check sums and remainders

The remainder register of a check sum takes in bit after bit at its top and subtracts a polynomial
whenever a bit falls out.  It respects exclusive or, so what two inputs leave behind differs by what
their difference leaves behind.

## Key results

- `remainder_eq_shift`: up to `w` bits are those of a word that is added at once
- `remainder_natBits_eq_zero_iff`: a word that is taken in leaves 0 iff it is the remainder
- `remainder_burst`: inputs that differ in `w` bits in a row have different remainders
-/

namespace Tntsat

variable {m n k w : Nat}

/-- A function that respects exclusive or. -/
def XorLinear (f : BitVec m → BitVec n) : Prop := ∀ a b, f (a ^^^ b) = f a ^^^ f b

namespace XorLinear

theorem map_zero {f : BitVec m → BitVec n} (hf : XorLinear f) : f 0#m = 0#n := by
  have h := hf 0#m 0#m
  rw [BitVec.xor_self, BitVec.xor_self] at h
  exact h

theorem comp {g : BitVec n → BitVec k} {f : BitVec m → BitVec n} (hg : XorLinear g)
    (hf : XorLinear f) : XorLinear (g ∘ f) := by
  intro a b
  simp only [Function.comp_apply]
  rw [hf, hg]

theorem iterate {f : BitVec n → BitVec n} (hf : XorLinear f) (i : Nat) : XorLinear f^[i] := by
  induction i with
  | zero => exact fun _ _ => rfl
  | succ i ih => exact ih.comp hf

theorem injective {f : BitVec m → BitVec n} (hf : XorLinear f) (hker : ∀ a, f a = 0#n → a = 0#m) :
    Function.Injective f := by
  intro a b h
  have hzero := hker (a ^^^ b) (by rw [hf, h]; exact BitVec.xor_self)
  exact BitVec.xor_eq_zero_iff.mp hzero

end XorLinear

/-! ## Remainders -/

section Remainder

variable (poly : BitVec w)

/-- The register moves up by one place; the polynomial is subtracted when a bit falls out. -/
def shiftOut (c : BitVec w) : BitVec w := if c.msb then c <<< 1 ^^^ poly else c <<< 1

/-- A bit at the top of the register. -/
def topBit (w : Nat) (b : Bool) : BitVec w := if b then BitVec.twoPow w (w - 1) else 0#w

/-- The remainder behind some bits. -/
def remainder (c : BitVec w) (bits : List Bool) : BitVec w :=
  bits.foldl (fun c b => shiftOut poly (c ^^^ topBit w b)) c

/-- Bits at the top of a word. -/
def placed (w : Nat) : List Bool → BitVec w
  | [] => 0#w
  | b :: bits => topBit w b ^^^ placed w bits >>> 1

@[simp] theorem remainder_cons (c : BitVec w) (b : Bool) (bits : List Bool) :
    remainder poly c (b :: bits) = remainder poly (shiftOut poly (c ^^^ topBit w b)) bits := rfl

theorem remainder_append (c : BitVec w) (xs ys : List Bool) :
    remainder poly c (xs ++ ys) = remainder poly (remainder poly c xs) ys :=
  List.foldl_append

theorem shiftOut_linear : XorLinear (shiftOut poly) := by
  intro a b
  simp only [shiftOut, BitVec.msb_xor, BitVec.shiftLeft_xor_distrib]
  cases a.msb <;> cases b.msb <;> simp only [Bool.false_xor, Bool.true_xor, Bool.not_false,
    Bool.not_true, Bool.false_eq_true, if_true, if_false]
  · ac_rfl
  · ac_rfl
  · rw [BitVec.xor_assoc, ← BitVec.xor_assoc poly, BitVec.xor_comm poly, BitVec.xor_assoc _ poly,
      BitVec.xor_self, BitVec.xor_zero]

/-- Nothing is lost when a bit falls out, as long as the polynomial has a bit at the bottom. -/
theorem shiftOut_injective {poly : BitVec w} (hpoly : poly.getLsbD 0 = true) :
    Function.Injective (shiftOut poly) := by
  refine (shiftOut_linear poly).injective fun c hc => ?_
  unfold shiftOut at hc
  cases hmsb : c.msb with
  | true =>
    rw [hmsb, if_pos rfl, BitVec.xor_eq_zero_iff] at hc
    rw [← hc, BitVec.getLsbD_shiftLeft] at hpoly
    simp at hpoly
  | false =>
    rw [hmsb, if_neg Bool.false_ne_true] at hc
    refine BitVec.eq_of_getLsbD_eq fun i hi => ?_
    rw [BitVec.getLsbD_zero]
    by_cases htop : i = w - 1
    · rw [htop, ← BitVec.msb_eq_getLsbD_last]
      exact hmsb
    · have hup : (c <<< 1).getLsbD (i + 1) = false := by rw [hc]; exact BitVec.getLsbD_zero
      rw [BitVec.getLsbD_shiftLeft] at hup
      simpa [show i + 1 < w by omega] using hup

theorem remainder_injective {poly : BitVec w} (hpoly : poly.getLsbD 0 = true) (bits : List Bool) :
    Function.Injective fun c => remainder poly c bits := by
  induction bits with
  | nil => exact Function.injective_id
  | cons b bits ih =>
    intro c c' h
    have hxor := shiftOut_injective hpoly (ih h)
    exact (BitVec.xor_left_inj _).mp hxor

/-! ### Bits that are taken in at once -/

theorem getLsbD_topBit (b : Bool) (j : Nat) :
    (topBit w b).getLsbD j = (b && decide (j < w ∧ j = w - 1)) := by
  cases b with
  | false => simp [topBit]
  | true =>
    simp only [topBit, if_true, BitVec.getLsbD_twoPow, Bool.true_and]
    by_cases hj : j < w
    · simp only [hj, true_and, show w - 1 < w by omega, decide_true, Bool.true_and, eq_comm]
    · simp only [hj, false_and, decide_false, Bool.and_eq_false_iff, decide_eq_false_iff_not]
      omega

theorem getLsbD_placed (bits : List Bool) (j : Nat) :
    (placed w bits).getLsbD j = (decide (j < w) && bits[w - 1 - j]?.getD false) := by
  induction bits generalizing j with
  | nil => simp [placed]
  | cons b bits ih =>
    rw [placed, BitVec.getLsbD_xor, BitVec.getLsbD_ushiftRight, ih, getLsbD_topBit]
    by_cases hj : j < w
    · by_cases htop : j = w - 1
      · simp [htop, show w - 1 < w by omega, show ¬ 1 + (w - 1) < w by omega]
      · have hlt : 1 + j < w := by omega
        have hsub : w - 1 - j = w - 1 - (1 + j) + 1 := by omega
        simp only [hj, htop, hlt, and_false, decide_false, Bool.and_false, Bool.false_xor,
          decide_true, Bool.true_and]
        rw [hsub, List.getElem?_cons_succ]
    · simp [hj, show ¬ 1 + j < w by omega]

/-- Bits that fit are known from the word they are placed in. -/
theorem placed_inj {xs ys : List Bool} (hlen : xs.length = ys.length) (hle : xs.length ≤ w)
    (h : placed w xs = placed w ys) : xs = ys := by
  refine List.ext_getElem hlen fun i hx hy => ?_
  have hbit := congrArg (BitVec.getLsbD · (w - 1 - i)) h
  simp only [getLsbD_placed, show w - 1 - i < w by omega, show w - 1 - (w - 1 - i) = i by omega,
    decide_true, Bool.true_and, List.getElem?_eq_getElem hx, List.getElem?_eq_getElem hy,
    Option.getD_some] at hbit
  exact hbit

/-- Bits that leave the bottom free move up as a whole. -/
theorem shiftOut_placed (poly : BitVec w) {bits : List Bool} (hlt : bits.length < w) :
    shiftOut poly (placed w bits >>> 1) = placed w bits := by
  have hmsb : (placed w bits >>> 1).msb = false := by
    rw [BitVec.msb_eq_getLsbD_last, BitVec.getLsbD_ushiftRight]
    exact BitVec.getLsbD_of_ge _ _ (by omega)
  rw [shiftOut, hmsb, if_neg Bool.false_ne_true]
  refine BitVec.eq_of_getLsbD_eq fun i hi => ?_
  rw [BitVec.getLsbD_shiftLeft, BitVec.getLsbD_ushiftRight]
  by_cases hbottom : i = 0
  · have hzero : (placed w bits).getLsbD 0 = false := by
      rw [getLsbD_placed, List.getElem?_eq_none (by omega)]
      simp
    simp [hbottom, hzero]
  · simp [hi, show ¬ i < 1 by omega, show 1 + (i - 1) = i by omega]

/-- Up to `w` bits are taken in as a word is that has them at its top. -/
theorem remainder_eq_shift (poly c : BitVec w) {bits : List Bool} (hle : bits.length ≤ w) :
    remainder poly c bits = (shiftOut poly)^[bits.length] (c ^^^ placed w bits) := by
  induction bits generalizing c with
  | nil => exact BitVec.xor_zero.symm
  | cons b bits ih =>
    have hlt : bits.length < w := hle
    rw [remainder_cons, ih _ (Nat.le_of_lt hlt), List.length_cons, Function.iterate_succ_apply,
      placed, ← BitVec.xor_assoc, shiftOut_linear poly (c ^^^ topBit w b), shiftOut_placed poly hlt]

/-- What moves up without a bit that falls out is only shifted. -/
theorem iterate_shiftOut_of_low (poly : BitVec w) {i : Nat} {c : BitVec w}
    (hlow : ∀ j, w - i ≤ j → c.getLsbD j = false) : (shiftOut poly)^[i] c = c <<< i := by
  induction i generalizing c with
  | zero => exact (BitVec.shiftLeft_zero c).symm
  | succ i ih =>
    have hmsb : c.msb = false := by
      rw [BitVec.msb_eq_getLsbD_last]
      exact hlow _ (by omega)
    rw [Function.iterate_succ_apply, shiftOut, hmsb, if_neg Bool.false_ne_true, ih,
      Nat.add_comm, BitVec.shiftLeft_add]
    intro j hj
    rw [BitVec.getLsbD_shiftLeft]
    by_cases hone : j < 1
    · simp [hone]
    · rw [hlow (j - 1) (by omega), Bool.and_false]

/-- Moving up by `i` places: the upper `i` bits fall out, and the others are shifted. -/
theorem iterate_shiftOut (poly c : BitVec w) {i : Nat} (hi : i ≤ w) :
    (shiftOut poly)^[i] c =
      (shiftOut poly)^[i] (c >>> (w - i) <<< (w - i)) ^^^ c <<< i := by
  have hsplit : c = c >>> (w - i) <<< (w - i) ^^^ (c >>> (w - i) <<< (w - i) ^^^ c) := by
    rw [← BitVec.xor_assoc, BitVec.xor_self, BitVec.zero_xor]
  have hlow : (shiftOut poly)^[i] (c >>> (w - i) <<< (w - i) ^^^ c) =
      (c >>> (w - i) <<< (w - i) ^^^ c) <<< i := by
    refine iterate_shiftOut_of_low poly fun j hj => ?_
    rw [BitVec.getLsbD_xor, BitVec.getLsbD_shiftLeft, BitVec.getLsbD_ushiftRight]
    by_cases hjw : j < w
    · simp [hjw, show ¬ j < w - i by omega, show w - i + (j - (w - i)) = j by omega]
    · simp [hjw, BitVec.getLsbD_of_ge c j (by omega)]
  conv_lhs => rw [hsplit]
  rw [(shiftOut_linear poly).iterate i, hlow, BitVec.shiftLeft_xor_distrib]
  congr 1
  rw [← BitVec.shiftLeft_add, show w - i + i = w by omega]
  simp

/-! ### Check words and errors -/

theorem getElem?_natBits {k i : Nat} (v : Nat) (hi : i < k) :
    (natBits k v)[i]? = some (v.testBit (k - 1 - i)) := by
  induction k generalizing i with
  | zero => omega
  | succ k ih =>
    cases i with
    | zero => rfl
    | succ i =>
      rw [natBits, List.getElem?_cons_succ, ih (by omega)]
      congr 2
      omega

/-- The bits of a number at the top of a word. -/
theorem placed_natBits {k : Nat} (hk : k ≤ w) (v : Nat) :
    placed w (natBits k v) = BitVec.ofNat w v <<< (w - k) := by
  refine BitVec.eq_of_getLsbD_eq fun i hi => ?_
  rw [getLsbD_placed, BitVec.getLsbD_shiftLeft, BitVec.getLsbD_ofNat]
  by_cases hlow : i < w - k
  · rw [List.getElem?_eq_none (by rw [length_natBits]; omega)]
    simp [hlow]
  · rw [getElem?_natBits v (by omega), show k - 1 - (w - 1 - i) = i - (w - k) by omega]
    simp [hi, hlow, show i - (w - k) < w by omega]

/-- A word that is taken in leaves 0 iff it is the remainder. -/
theorem remainder_natBits_eq_zero_iff {poly : BitVec w} (hpoly : poly.getLsbD 0 = true)
    (c word : BitVec w) : remainder poly c (natBits w word.toNat) = 0#w ↔ c = word := by
  have hzero := ((shiftOut_linear poly).iterate w).map_zero
  rw [remainder_eq_shift poly c (Nat.le_of_eq (length_natBits w _)), length_natBits,
    placed_natBits (Nat.le_refl w), Nat.sub_self, BitVec.shiftLeft_zero, BitVec.ofNat_toNat,
    BitVec.setWidth_eq, ← BitVec.xor_eq_zero_iff (x := c)]
  constructor
  · intro h
    exact (shiftOut_injective hpoly).iterate w (h.trans hzero.symm)
  · intro h
    rw [h, hzero]

/-- Inputs that differ in at most `w` bits in a row have different remainders. -/
theorem remainder_burst {poly : BitVec w} (hpoly : poly.getLsbD 0 = true) {c : BitVec w}
    {before xs ys behind : List Bool} (hlen : xs.length = ys.length) (hle : xs.length ≤ w)
    (h : remainder poly c (before ++ xs ++ behind) = remainder poly c (before ++ ys ++ behind)) :
    xs = ys := by
  simp only [remainder_append] at h
  have hburst := remainder_injective hpoly behind h
  simp only [remainder_eq_shift poly _ hle, remainder_eq_shift poly _ (hlen ▸ hle : ys.length ≤ w),
    hlen] at hburst
  have hword := (shiftOut_injective hpoly).iterate ys.length hburst
  exact placed_inj hlen hle ((BitVec.xor_right_inj _).mp hword)

end Remainder

end Tntsat
