import Tntsat.ForStd.ExpGolomb
import Tntsat.Native.SliceHeader

/-!
# The type of an H.264 slice

`code_check_get_ue` should read the Exp-Golomb code at a position of a buffer where the
whole of it lies inside, and otherwise return -1 without a read behind the last byte.

Neither of its loops tests where the buffer ends before it reads: the first one not at all,
and the second one lets the byte behind the last one pass.  So -1 is never returned in
time, and a code that does not end inside the buffer is always read beyond it.

## Key results

- `findLeadingOne_code`, `makeInfoword_inside`: what the two loops read.
- `codeCheckGetUe_iff`: exactly when the function, and the frame type of a slice header with
  it, stays inside the buffer and is right.
-/

namespace Tntsat.SliceHeader

variable {buffer : List UInt8}

/-! ## Positions -/

/-- The byte and the bit of position `i`, and those of the next one. -/
theorem nextBit_pos (i : Nat) :
    nextBit (i / 8) (7 - i % 8) = ((i + 1) / 8, 7 - (i + 1) % 8) := by
  unfold nextBit
  split <;> simp only [Prod.mk.injEq] <;> omega

theorem getElem?_pos {i : Nat} (hi : i < 8 * buffer.length) :
    ∃ byte, buffer[i / 8]? = some byte ∧ byte.toNat.testBit (7 - i % 8) = bitAt buffer i := by
  have hlt : i / 8 < buffer.length := by omega
  refine ⟨buffer[i / 8], List.getElem?_eq_getElem hlt, ?_⟩
  rw [bitAt, List.getD_eq_getElem?_getD, List.getElem?_eq_getElem hlt]
  rfl

/-! ## The leading 1 -/

/-- One round of the first loop. -/
theorem findLeadingOne_succ {i : Nat} (hi : i < 8 * buffer.length) (rest len : Nat) :
    findLeadingOne buffer (rest + 1) (i / 8) (7 - i % 8) len =
      if bitAt buffer i then .ok (i / 8, 7 - i % 8, len)
      else findLeadingOne buffer rest ((i + 1) / 8) (7 - (i + 1) % 8) (len + 1) := by
  obtain ⟨byte, hbyte, hbit⟩ := getElem?_pos hi
  rw [findLeadingOne, hbyte, ← hbit, nextBit_pos]

/-- The first loop stops at the 1 of the code that starts here. -/
theorem findLeadingOne_code {i k : Nat} (hcode : UeCode buffer i k)
    (hin : i + k < 8 * buffer.length) {rest : Nat} (hrest : k < rest) (len : Nat) :
    findLeadingOne buffer rest (i / 8) (7 - i % 8) len =
      .ok ((i + k) / 8, 7 - (i + k) % 8, len + k) := by
  induction k generalizing i rest len with
  | zero =>
    obtain ⟨rest, rfl⟩ := Nat.exists_eq_succ_of_ne_zero (Nat.ne_of_gt hrest)
    have hone : bitAt buffer i = true := hcode.one
    rw [Nat.succ_eq_add_one, findLeadingOne_succ (by omega), if_pos hone]
    rfl
  | succ k ih =>
    obtain ⟨rest, rfl⟩ := Nat.exists_eq_succ_of_ne_zero (Nat.ne_of_gt (Nat.zero_lt_of_lt hrest))
    have hzero : bitAt buffer i = false := hcode.zeros 0 (Nat.succ_pos k)
    rw [Nat.succ_eq_add_one, findLeadingOne_succ (by omega), hzero, if_neg (by decide),
      ih hcode.tail (by omega) (by omega), show i + 1 + k = i + (k + 1) by omega,
      show len + 1 + k = len + (k + 1) by omega]

/-- The first loop stops at the 1 of a code, or it reads behind the last byte. -/
theorem findLeadingOne_cases {i rest : Nat} (hrest : i + rest = 8 * buffer.length) (len : Nat) :
    (∃ k, UeCode buffer i k ∧ i + k < 8 * buffer.length) ∨
      findLeadingOne buffer rest (i / 8) (7 - i % 8) len = .error (.pastEnd buffer.length) := by
  induction rest generalizing i len with
  | zero =>
    refine .inr ?_
    rw [findLeadingOne, show i / 8 = buffer.length by omega]
  | succ rest ih =>
    rw [findLeadingOne_succ (by omega)]
    cases hbit : bitAt buffer i with
    | true => exact .inl ⟨0, ⟨fun _ h => by omega, hbit⟩, by omega⟩
    | false =>
      rw [if_neg (by decide)]
      exact (ih (i := i + 1) (by omega) (len + 1)).imp_left fun ⟨k, hcode, hin⟩ =>
        ⟨k + 1, hcode.cons hbit, by omega⟩

/-! ## The infoword -/

/-- The second loop reads the bits behind position `i`, where the buffer has them. -/
theorem makeInfoword_inside {i k : Nat} (hin : i + k < 8 * buffer.length) (inf : Nat) :
    makeInfoword buffer buffer.length k (i / 8) (7 - i % 8) inf =
      .ok (inf * 2 ^ k + bitsVal buffer (i + 1) k) := by
  induction k generalizing i inf with
  | zero => simp [makeInfoword, bitsVal]
  | succ k ih =>
    obtain ⟨byte, hbyte, hbit⟩ := @getElem?_pos buffer (i + 1) (by omega)
    rw [makeInfoword, nextBit_pos]
    dsimp only
    rw [if_neg (by omega), hbyte]
    dsimp only
    rw [hbit, ih (by omega), bitsVal_accumulate]

/-- Where the buffer ends first, the byte behind it is read. -/
theorem makeInfoword_outside {i k : Nat} (hi : i < 8 * buffer.length)
    (hout : 8 * buffer.length ≤ i + k) (inf : Nat) :
    makeInfoword buffer buffer.length k (i / 8) (7 - i % 8) inf =
      .error (.pastEnd buffer.length) := by
  induction k generalizing i inf with
  | zero => omega
  | succ k ih =>
    rw [makeInfoword, nextBit_pos]
    dsimp only
    rw [if_neg (by omega)]
    rcases Nat.lt_or_ge (i + 1) (8 * buffer.length) with hlt | hge
    · obtain ⟨byte, hbyte, -⟩ := getElem?_pos hlt
      rw [hbyte]
      exact ih hlt (by omega) _
    · -- the bound that is tested against is one too high
      have hlen : (i + 1) / 8 = buffer.length := by omega
      rw [hlen, List.getElem?_eq_none (Nat.le_refl _)]

/-! ## Reading a code -/

/-- A code that lies inside the buffer is read right, where 1 can be shifted by the number
    of its zeros. -/
theorem codeCheckGetUe_inside {i k : Nat} (h : UeInside buffer i k) :
    codeCheckGetUe buffer i buffer.length =
      if k > 30 then .overflow else .code (2 * k + 1) (ueValue buffer i k) := by
  obtain ⟨hcode, hin⟩ := h
  have hpow : 0 < 2 ^ k := Nat.two_pow_pos k
  rw [codeCheckGetUe, findLeadingOne_code hcode (by omega) (by omega)]
  dsimp only
  rw [Nat.add_sub_cancel_left, makeInfoword_inside (by omega)]
  dsimp only
  rw [show (1 + k + k) / 2 = k by omega, show 1 + k + k = 2 * k + 1 by omega, ueValue]
  congr 2
  omega

/-- A code that does not lie inside the buffer is read beyond it. -/
theorem codeCheckGetUe_outside {i : Nat} (hi : i < 8 * buffer.length)
    (h : ¬ ∃ k, UeInside buffer i k) :
    codeCheckGetUe buffer i buffer.length = .pastEnd buffer.length := by
  rcases @findLeadingOne_cases buffer i (8 * buffer.length - i) (by omega) 1 with
    ⟨k, hcode, hin⟩ | hpast
  · have hout : 8 * buffer.length ≤ i + k + k := by
      by_contra hlt
      exact h ⟨k, hcode, by omega⟩
    rw [codeCheckGetUe, findLeadingOne_code hcode hin (by omega)]
    dsimp only
    rw [Nat.add_sub_cancel_left, makeInfoword_outside hin hout]
  · rw [codeCheckGetUe, hpast]

/-- No byte behind the last one is read, and the code is returned where the whole of it
    lies inside the buffer, otherwise -1. -/
def UeRes.Ok (buffer : List UInt8) (i : Nat) : UeRes → Prop
  | .pastEnd _ => False
  | .overflow => False
  | .fails => ¬ ∃ k, UeInside buffer i k
  | .code bitcounter info =>
    ∃ k, UeInside buffer i k ∧ bitcounter = 2 * k + 1 ∧ info = ueValue buffer i k

/-- In four bytes no code has too many zeros. -/
theorem UeInside.le_of_slice {w i k : Nat} (h : UeInside (sliceBytes w) i k) : k ≤ 15 := by
  have : i + (2 * k + 1) ≤ 8 * 4 := h.2
  omega

/-- The number is 0 exactly when the code starts with its 1. -/
theorem ueValue_eq_zero_iff {i k : Nat} (h : UeCode buffer i k) :
    ueValue buffer i k = 0 ↔ bitAt buffer i = true := by
  obtain _ | k := k
  · exact iff_of_true rfl h.one
  · have hzero : bitAt buffer i = false := h.zeros 0 (Nat.succ_pos k)
    refine iff_of_false ?_ (by rw [hzero]; decide)
    have := Nat.two_pow_pos k
    rw [ueValue, Nat.pow_succ]
    omega

/-- The type of a slice is read from inside its four bytes where both codes lie there; the
    second one is read where the first is a single 1. -/
theorem h264GetFrameTypeBySc_iff (w : Nat) :
    (∀ byteoffset, h264GetFrameTypeBySc w ≠ .error (.pastEnd byteoffset)) ↔
      (∃ k, UeInside (sliceBytes w) 0 k) ∧
        (bitAt (sliceBytes w) 0 = true → ∃ k, UeInside (sliceBytes w) 1 k) := by
  -- a code that ends inside the slice is read within its four bytes
  have hread : ∀ i k, UeInside (sliceBytes w) i k → codeCheckGetUe (sliceBytes w) i 4 =
      .code (2 * k + 1) (ueValue (sliceBytes w) i k) := by
    intro i k h
    have := UeInside.le_of_slice h
    exact (codeCheckGetUe_inside h).trans (if_neg (by omega))
  have hpast : ∀ i, i < 32 → (¬ ∃ k, UeInside (sliceBytes w) i k) →
      codeCheckGetUe (sliceBytes w) i 4 = .pastEnd 4 := fun i hi h =>
    @codeCheckGetUe_outside (sliceBytes w) i hi h
  unfold h264GetFrameTypeBySc
  dsimp only
  by_cases hfirst : ∃ k, UeInside (sliceBytes w) 0 k
  · obtain ⟨k, hk⟩ := hfirst
    rw [hread 0 k hk]
    dsimp only
    -- the second code is read only behind a first one of a single bit
    by_cases hzero : bitAt (sliceBytes w) 0 = true
    · have hk0 : k = 0 :=
        hk.1.unique (show UeCode (sliceBytes w) 0 0 from ⟨fun _ h => by omega, hzero⟩)
      rw [if_pos ((ueValue_eq_zero_iff hk.1).mpr hzero), hk0]
      by_cases hsecond : ∃ k, UeInside (sliceBytes w) 1 k
      · obtain ⟨k', hk'⟩ := hsecond
        rw [hread (2 * 0 + 1) k' hk']
        exact iff_of_true (fun _ h => nomatch h) ⟨⟨k, hk⟩, fun _ => ⟨k', hk'⟩⟩
      · rw [hpast (2 * 0 + 1) (by decide) hsecond]
        exact iff_of_false (fun h => h 4 rfl) fun h => hsecond (h.2 hzero)
    · rw [if_neg (fun h => hzero ((ueValue_eq_zero_iff hk.1).mp h))]
      exact iff_of_true (fun _ h => nomatch h) ⟨⟨k, hk⟩, fun h => absurd h hzero⟩
  · rw [hpast 0 (by decide) hfirst]
    exact iff_of_false (fun h => h 4 rfl) fun h => hfirst h.1

/-- `code_check_get_ue` stays inside the buffer and is right exactly for a code that ends
    inside it and has at most 30 zeros; so the type of a slice is read from inside its four
    bytes exactly where the codes that are read end there. -/
theorem codeCheckGetUe_iff (buffer : List UInt8) (totbitoffset : Nat)
    (hi : totbitoffset < 8 * buffer.length) (w : Nat) :
    ((codeCheckGetUe buffer totbitoffset buffer.length).Ok buffer totbitoffset ↔
      ∃ k, k ≤ 30 ∧ UeInside buffer totbitoffset k) ∧
    ((∀ byteoffset, h264GetFrameTypeBySc w ≠ .error (.pastEnd byteoffset)) ↔
      (∃ k, UeInside (sliceBytes w) 0 k) ∧
        (bitAt (sliceBytes w) 0 = true → ∃ k, UeInside (sliceBytes w) 1 k)) := by
  refine ⟨?_, h264GetFrameTypeBySc_iff w⟩
  by_cases hin : ∃ k, UeInside buffer totbitoffset k
  · obtain ⟨k, hk⟩ := hin
    rw [codeCheckGetUe_inside hk]
    split
    · refine iff_of_false id ?_
      rintro ⟨k', hle, hk'⟩
      have := hk.1.unique hk'.1
      omega
    · exact iff_of_true ⟨k, hk, rfl, rfl⟩ ⟨k, by omega, hk⟩
  · rw [codeCheckGetUe_outside hi hin]
    exact iff_of_false id fun ⟨k, _, hk⟩ => hin ⟨k, hk⟩

/-- A byte 0 has no leading 1, and four bytes 0 have none. -/
theorem codeCheckGetUe_pastEnd :
    codeCheckGetUe [0] 0 1 = .pastEnd 1 ∧ h264GetFrameTypeBySc 0 = .error (.pastEnd 4) := by
  decide

/-- The code 00101 in the byte 0x28 stands for 4. -/
theorem codeCheckGetUe_iff_five :
    (codeCheckGetUe [0x28] 0 1).Ok [0x28] 0 :=
  (codeCheckGetUe_iff [0x28] 0 (by decide) 0).1.mpr
    ⟨2, by decide, ⟨by decide, by decide⟩, by decide⟩

end Tntsat.SliceHeader
