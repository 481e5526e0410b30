import Tntsat.ForStd.BitString
import Tntsat.Native.PvrBitstream

/-!
# The bit reader returns the bits at its position

`At mem start pos` is the state of a reader that stands at bit `pos` of a buffer: the two words
are the ones around that bit, counted from the word that holds the first byte. Each call keeps it
(`At.skip`, `At.back`, `At.longSkip`), and `At.show` reads the bits from it.

## Key results

- `toNat_endian32_load`: a word of memory, most significant byte first
- `At.show`: what is shown are the bits at the position
- `shows_bits_at_pos`: along every run inside a buffer below 2³², every call to `PvrBsShow` returns
  the bits at `PvrBsPos`, and `PvrBsPos` is the net number of bits skipped
-/

namespace Tntsat.PvrBitstream

/-! ## Words of memory -/

/-- Bytes of memory. -/
def bytesAt (mem : Nat → UInt8) (p n : Nat) : List UInt8 := (List.range n).map fun i => mem (p + i)

@[simp] theorem length_bytesAt (mem : Nat → UInt8) (p n : Nat) : (bytesAt mem p n).length = n := by
  simp [bytesAt]

theorem drop_take_bytesAt (mem : Nat → UInt8) (p : Nat) {n k m : Nat} (h : k + m ≤ n) :
    ((bytesAt mem p n).drop k).take m = bytesAt mem (p + k) m := by
  apply List.ext_getElem
  · simp
    omega
  · intro i _ _
    simp [bytesAt, Nat.add_assoc]

theorem toNat_load (mem : Nat → UInt8) (p : Nat) :
    (load mem p).toNat = (mem p).toNat + (mem (p + 1)).toNat * 2 ^ 8 +
      (mem (p + 2)).toNat * 2 ^ 16 + (mem (p + 3)).toNat * 2 ^ 24 := by
  have h0 := (mem p).toNat_lt
  have h1 := (mem (p + 1)).toNat_lt
  have h2 := (mem (p + 2)).toNat_lt
  have h3 := (mem (p + 3)).toNat_lt
  rw [load, UInt32.toNat_ofNat']
  simp only [ofLe]
  omega

/-- The macro reverses the bytes of a word. -/
theorem toNat_endian32 {x : UInt32} {b0 b1 b2 b3 : Nat} (h0 : b0 < 2 ^ 8) (h1 : b1 < 2 ^ 8)
    (h2 : b2 < 2 ^ 8) (h3 : b3 < 2 ^ 8)
    (hx : x.toNat = b0 + b1 * 2 ^ 8 + b2 * 2 ^ 16 + b3 * 2 ^ 24) :
    (endian32 x).toNat = b0 * 2 ^ 24 + b1 * 2 ^ 16 + b2 * 2 ^ 8 + b3 := by
  -- each byte by itself, at its new place
  have hfirst : (x <<< 24).toNat = b0 * 2 ^ 24 := by
    rw [UInt32.toNat_shiftLeft, show (24 : UInt32).toNat % 32 = 24 from rfl, Nat.shiftLeft_eq, hx]
    omega
  have hsecond : ((x &&& 0x0000ff00) <<< 8).toNat = b1 * 2 ^ 16 := by
    rw [UInt32.toNat_shiftLeft, show (8 : UInt32).toNat % 32 = 8 from rfl, UInt32.toNat_and,
      show (0x0000ff00 : UInt32).toNat = (2 ^ 8 - 1) <<< 8 from rfl, land_mask, Nat.shiftLeft_eq, hx]
    omega
  have hthird : ((x &&& 0x00ff0000) >>> 8).toNat = b2 * 2 ^ 8 := by
    rw [UInt32.toNat_shiftRight, show (8 : UInt32).toNat % 32 = 8 from rfl, UInt32.toNat_and,
      show (0x00ff0000 : UInt32).toNat = (2 ^ 8 - 1) <<< 16 from rfl, land_mask,
      Nat.shiftRight_eq_div_pow, hx]
    omega
  have hfourth : ((x >>> 24) &&& 0x000000ff).toNat = b3 := by
    rw [UInt32.toNat_and, UInt32.toNat_shiftRight, show (24 : UInt32).toNat % 32 = 24 from rfl,
      show (0x000000ff : UInt32).toNat = 2 ^ 8 - 1 from rfl, Nat.and_two_pow_sub_one_eq_mod,
      Nat.shiftRight_eq_div_pow, hx]
    omega
  -- the places are apart, so `or` adds them up
  have hupper : b0 * 2 ^ 24 ||| b1 * 2 ^ 16 = b0 * 2 ^ 24 + b1 * 2 ^ 16 := lor_of_lt (by omega)
  have hmiddle : (b0 * 2 ^ 8 + b1) * 2 ^ 16 ||| b2 * 2 ^ 8 =
      (b0 * 2 ^ 8 + b1) * 2 ^ 16 + b2 * 2 ^ 8 := lor_of_lt (by omega)
  have hlower : (b0 * 2 ^ 16 + b1 * 2 ^ 8 + b2) * 2 ^ 8 ||| b3 =
      (b0 * 2 ^ 16 + b1 * 2 ^ 8 + b2) * 2 ^ 8 + b3 := lor_of_lt h3
  rw [endian32, UInt32.toNat_or, UInt32.toNat_or, UInt32.toNat_or, hfirst, hsecond, hthird,
    hfourth, hupper, show b0 * 2 ^ 24 + b1 * 2 ^ 16 = (b0 * 2 ^ 8 + b1) * 2 ^ 16 by omega, hmiddle,
    show (b0 * 2 ^ 8 + b1) * 2 ^ 16 + b2 * 2 ^ 8 = (b0 * 2 ^ 16 + b1 * 2 ^ 8 + b2) * 2 ^ 8 by omega,
    hlower]

/-- The word at an address, its first byte the most significant one. -/
theorem toNat_endian32_load (mem : Nat → UInt8) (p : Nat) :
    (endian32 (load mem p)).toNat = bitField (bytesAt mem p 4) 0 32 := by
  have hbyte : ∀ n, n < 4 → bitField (bytesAt mem p 4) (8 * n) 8 = (mem (p + n)).toNat := by
    intro n hn
    rw [bitField_byte (by simpa using hn)]
    simp [bytesAt, hn]
  have hlen : 8 * (bytesAt mem p 4).length = 32 := by simp
  have h24 : bitField (bytesAt mem p 4) 0 (24 + 8) = _ := bitField_add (by omega)
  have h16 : bitField (bytesAt mem p 4) 0 (16 + 8) = _ := bitField_add (by omega)
  have h8 : bitField (bytesAt mem p 4) 0 (8 + 8) = _ := bitField_add (by omega)
  have hb0 := hbyte 0 (by decide)
  have hb1 := hbyte 1 (by decide)
  have hb2 := hbyte 2 (by decide)
  have hb3 := hbyte 3 (by decide)
  simp only [Nat.reduceAdd, Nat.reduceMul, Nat.add_zero] at *
  rw [h24, h16, h8, hb0, hb1, hb2, hb3,
    toNat_endian32 (mem p).toNat_lt (mem (p + 1)).toNat_lt (mem (p + 2)).toNat_lt
      (mem (p + 3)).toNat_lt (toNat_load mem p)]
  omega

/-! ## Showing bits -/

theorem toNat_shl {x : UInt32} {n : Nat} (hn : n < 32) :
    (shl x n).toNat = x.toNat * 2 ^ n % 2 ^ 32 := by
  rw [shl, UInt32.toNat_shiftLeft, Int.toNat_natCast, UInt32.toNat_ofNat', Nat.shiftLeft_eq]
  congr 3
  omega

theorem toNat_shr {x : UInt32} {n : Nat} (hn : n < 32) : (shr x n).toNat = x.toNat / 2 ^ n := by
  rw [shr, UInt32.toNat_shiftRight, Int.toNat_natCast, UInt32.toNat_ofNat',
    Nat.shiftRight_eq_div_pow]
  congr 2
  omega

/-- Two words side by side, from the bytes of both. -/
structure Words (bytes : List UInt8) (Bufa Bufb : UInt32) : Prop where
  length : bytes.length = 8
  bufa : Bufa.toNat = bitField bytes 0 32
  bufb : Bufb.toNat = bitField bytes 32 32

/-- Shifting the first word to the left leaves its lower bits in front. -/
theorem Words.toNat_shl {bytes : List UInt8} {Bufa Bufb : UInt32} (h : Words bytes Bufa Bufb)
    {p : Nat} (hp : p < 32) : (shl Bufa p).toNat = bitField bytes p (32 - p) * 2 ^ p := by
  have hlen := h.length
  have hlt := bitField_lt bytes p (32 - p)
  have hlower : bitField bytes 0 (p + (32 - p)) % 2 ^ (32 - p) = bitField bytes (0 + p) (32 - p) :=
    bitField_mod (by omega)
  have hpow : 2 ^ p * 2 ^ (32 - p) = 2 ^ 32 := by rw [← Nat.pow_add, Nat.add_sub_cancel' hp.le]
  rw [Nat.add_sub_cancel' hp.le, Nat.zero_add, ← h.bufa] at hlower
  rw [PvrBitstream.toNat_shl hp, ← hpow, Nat.mul_comm, Nat.mul_mod_mul_left, hlower, Nat.mul_comm]

/-- What is shown of two words are the bits behind the bit position. -/
theorem Words.show {bytes : List UInt8} {pBS : PvrBs} (h : Words bytes pBS.Bufa pBS.Bufb)
    {p n : Nat} (hp : p < 32) (hpos : pBS.BufPos = p) (hn0 : 0 < n) (hn : n ≤ 32) :
    pvrBsShow pBS n = s32 (bitField bytes p n) := by
  have hlen := h.length
  have hsub : (32 : Int) - n = (32 - n : Nat) := by omega
  unfold pvrBsShow
  dsimp only
  rw [hpos, hsub]
  congr 2
  by_cases htwo : (n : Int) + p > 32
  · -- the bits go on in the second word
    have hsecond : (32 : Int) - p = (32 - p : Nat) := by omega
    have hupper : bitField bytes 32 (p + (32 - p)) / 2 ^ (32 - p) = bitField bytes 32 p :=
      bitField_div (by omega)
    have hboth : bitField bytes p (32 - p + p) = _ := bitField_add (by omega)
    have hfield : bitField bytes p (n + (32 - n)) / 2 ^ (32 - n) = bitField bytes p n :=
      bitField_div (by omega)
    rw [Nat.add_sub_cancel' hp.le, ← h.bufb] at hupper
    rw [Nat.sub_add_cancel hp.le, Nat.add_sub_cancel' hp.le] at hboth
    rw [Nat.add_sub_cancel' hn, hboth] at hfield
    rw [if_pos htwo, toNat_shr (by omega), UInt32.toNat_or, h.toNat_shl hp, hsecond,
      toNat_shr (by omega), hupper, lor_of_lt (bitField_lt _ _ _), hfield]
  · have hfield : bitField bytes p (n + (32 - p - n)) / 2 ^ (32 - p - n) = bitField bytes p n :=
      bitField_div (by omega)
    have hpow : 2 ^ (32 - n) = 2 ^ (32 - p - n) * 2 ^ p := by
      rw [← Nat.pow_add]
      congr 1
      omega
    rw [show n + (32 - p - n) = 32 - p by omega] at hfield
    rw [if_neg htwo, toNat_shr (by omega), h.toNat_shl hp, hpow,
      Nat.mul_div_mul_right _ _ (Nat.two_pow_pos p), hfield]

/-! ## The reader at a position -/

/-- The address of the word that holds the first byte of a buffer. -/
def base (start : Nat) : Nat := start / 4 * 4

/-- The bits from that word to bit `pos` of the buffer. -/
def bitsTo (start pos : Nat) : Nat := 8 * (start % 4) + pos

/-- The reader stands at bit `pos` of a buffer: the two words are the ones around that bit. -/
structure At (mem : Nat → UInt8) (start pos : Nat) (pBS : PvrBs) : Prop where
  tail : pBS.pTail = base start + 4 * (bitsTo start pos / 32) + 8
  bufa : pBS.Bufa = endian32 (load mem (base start + 4 * (bitsTo start pos / 32)))
  bufb : pBS.Bufb = endian32 (load mem (base start + 4 * (bitsTo start pos / 32) + 4))
  bufPos : pBS.BufPos = (bitsTo start pos % 32 : Nat)
  totalPos : pBS.TotalPos = pos

variable {mem : Nat → UInt8} {start pos : Nat} {pBS : PvrBs}

/-- The reader stands where its words and its bit position say. -/
theorem At.of_word (w off : Nat) (hbits : bitsTo start pos = 32 * w + off) (hoff : off < 32)
    (htail : pBS.pTail = base start + 4 * w + 8)
    (hbufa : pBS.Bufa = endian32 (load mem (base start + 4 * w)))
    (hbufb : pBS.Bufb = endian32 (load mem (base start + 4 * w + 4)))
    (hpos : pBS.BufPos = (off : Nat)) (htotal : pBS.TotalPos = pos) : At mem start pos pBS := by
  have hdiv : bitsTo start pos / 32 = w := by omega
  have hmod : bitsTo start pos % 32 = off := by omega
  exact ⟨by rw [hdiv, htail], by rw [hdiv, hbufa], by rw [hdiv, hbufb], by rw [hmod, hpos], htotal⟩

/-- The mask finds the first word where the address has no bits above the lower 32. -/
theorem land_base (hstart : start < 2 ^ 32) : start &&& 0xfffffffc = base start := by
  rw [show 0xfffffffc = (2 ^ 30 - 1) <<< 2 from rfl, land_mask, Nat.mod_eq_of_lt (by omega)]
  rfl

/-- The reader starts at bit 0. -/
theorem At.init (mem : Nat → UInt8) (hstart : start < 2 ^ 32) (length : Int) :
    At mem start 0 (pvrBsInit mem start length) := by
  have halign : (start &&& 0x3) <<< 3 = start % 4 * 8 := by
    have hmod : start &&& 0x3 = start % 4 := Nat.and_two_pow_sub_one_eq_mod start 2
    rw [hmod, Nat.shiftLeft_eq]
  have hbits : bitsTo start 0 = 32 * 0 + start % 4 * 8 := by
    unfold bitsTo
    omega
  refine At.of_word _ _ hbits (by omega) ?_ ?_ ?_ ?_ rfl
  · exact congrArg (· + 8) (land_base hstart)
  · exact congrArg (fun p => endian32 (load mem p)) (land_base hstart)
  · exact congrArg (fun p => endian32 (load mem (p + 4))) (land_base hstart)
  · exact congrArg Nat.cast halign

/-- Going forward by a word at most. -/
theorem At.skip (h : At mem start pos pBS) {n : Nat} (hn : n ≤ 32) (hfit : pos + n < 2 ^ 31) :
    At mem start (pos + n) (pvrBsSkip mem pBS n).1 := by
  have hbits : bitsTo start (pos + n) = bitsTo start pos + n := Nat.add_assoc _ _ _ |>.symm
  have htotal : s32 (pBS.TotalPos + n) = (pos + n : Nat) := by
    rw [h.totalPos, s32_of_range (by omega) (by omega)]
    rfl
  have hbufPos := h.bufPos
  unfold pvrBsSkip
  dsimp only
  by_cases hnext : (n : Int) + pBS.BufPos ≥ 32
  · -- the second word becomes the first
    rw [if_pos hnext]
    apply At.of_word (bitsTo start pos / 32 + 1) (n + bitsTo start pos % 32 - 32)
    · omega
    · omega
    · show pBS.pTail + 4 = _
      rw [h.tail]
      omega
    · exact h.bufb.trans (by rw [Nat.mul_add, Nat.add_assoc])
    · show endian32 (load mem pBS.pTail) = _
      rw [h.tail]
      rfl
    · show (n : Int) + pBS.BufPos - 32 = _
      omega
    · exact htotal
  · rw [if_neg hnext]
    apply At.of_word (bitsTo start pos / 32) (bitsTo start pos % 32 + n)
    · omega
    · omega
    · exact h.tail
    · exact h.bufa
    · exact h.bufb
    · show pBS.BufPos + n = _
      omega
    · exact htotal

/-- Going back by a word at most. -/
theorem At.back (h : At mem start pos pBS) {n : Nat} (hn : n ≤ 32) (hle : n ≤ pos)
    (hfit : pos < 2 ^ 31) : At mem start (pos - n) (pvrBsBack mem pBS n).1 := by
  have hbits : bitsTo start pos = bitsTo start (pos - n) + n := by
    unfold bitsTo
    omega
  have hbufPos := h.bufPos
  have hwithin : ¬ (n : Int) > pBS.TotalPos := by
    rw [h.totalPos]
    omega
  have htotal : s32 (pBS.TotalPos - n) = (pos - n : Nat) := by
    rw [h.totalPos, s32_of_range (by omega) (by omega)]
    omega
  unfold pvrBsBack
  rw [if_neg hwithin]
  dsimp only
  by_cases hsame : pBS.BufPos - (n : Int) ≥ 0
  · rw [if_pos hsame]
    apply At.of_word (bitsTo start pos / 32) (bitsTo start pos % 32 - n)
    · omega
    · omega
    · exact h.tail
    · exact h.bufa
    · exact h.bufb
    · show pBS.BufPos - n = _
      omega
    · exact htotal
  · -- the first word becomes the second
    have hword : bitsTo start pos / 32 = bitsTo start pos / 32 - 1 + 1 := by omega
    have htail : pBS.pTail = base start + 4 * (bitsTo start pos / 32 - 1) + 12 := by
      rw [h.tail]
      omega
    rw [if_neg hsame]
    apply At.of_word (bitsTo start pos / 32 - 1) (bitsTo start pos % 32 + 32 - n)
    · omega
    · omega
    · show pBS.pTail - 4 = _
      rw [htail]
      rfl
    · show endian32 (load mem (pBS.pTail - 4 - 8)) = _
      rw [htail]
      rfl
    · show pBS.Bufa = _
      rw [h.bufa, Nat.add_assoc]
      congr 3
      omega
    · show pBS.BufPos - n + 32 = _
      omega
    · exact htotal

/-- Going forward by any number of bits. -/
theorem At.longSkip (h : At mem start pos pBS) {n : Nat} (hfit : pos + n < 2 ^ 31) :
    At mem start (pos + n) (pvrBsLongSkip mem pBS n).1 := by
  have hbufPos := h.bufPos
  unfold pvrBsLongSkip
  by_cases hzero : n = 0
  · subst hzero
    exact h
  rw [if_neg (by omega)]
  by_cases hshort : n ≤ 64
  · rw [if_pos (by omega)]
    by_cases htwice : 32 < n
    · have hfirst := h.skip (n := 32) (by omega) (by omega)
      have hrest := hfirst.skip (n := n - 32) (by omega) (by omega)
      rw [show pos + 32 + (n - 32) = pos + n by omega] at hrest
      rw [if_pos (by omega), show (n : Int) - 32 = (n - 32 : Nat) by omega]
      exact hrest
    · rw [if_neg (by omega)]
      exact h.skip (by omega) hfit
  · rw [if_neg (by omega)]
    -- `k` bits end the first word, `words` whole ones follow, and `r` bits are left
    obtain ⟨k, hk, hkpos, hk32⟩ : ∃ k : Nat, 32 - pBS.BufPos = k ∧ 0 < k ∧
        bitsTo start pos % 32 + k = 32 := ⟨32 - bitsTo start pos % 32, by omega, by omega, by omega⟩
    obtain ⟨words, hwords, hwords0⟩ : ∃ words : Nat, ((n : Int) - k) / 32 = words ∧ 0 < words :=
      ⟨(n - k) / 32, by omega, by omega⟩
    obtain ⟨r, hr, hr32⟩ : ∃ r : Nat, ((n : Int) - k) % 32 = r ∧ r < 32 :=
      ⟨(n - k) % 32, by omega, by omega⟩
    have hsum : pos + n = pos + k + 32 * words + r := by omega
    have hbits : bitsTo start (pos + k + 32 * words) = bitsTo start pos + k + 32 * words := by
      unfold bitsTo
      omega
    have htotal : s32 (s32 (pBS.TotalPos + k) + words * 32) = (pos + k + 32 * words : Nat) := by
      rw [h.totalPos, s32_of_range (n := (pos : Int) + k) (by omega) (by omega),
        s32_of_range (by omega) (by omega)]
      omega
    dsimp only
    rw [hk, hwords, hr, Int.toNat_natCast]
    have hat : At mem start (pos + k + 32 * words)
        { pBS with
          TotalPos := s32 (s32 (pBS.TotalPos + k) + words * 32)
          BufPos := 0
          Bufa := endian32 (load mem (pBS.pTail + 4 * (words - 1)))
          Bufb := endian32 (load mem (pBS.pTail + 4 * (words - 1) + 4))
          pTail := pBS.pTail + 4 * (words - 1) + 4 + 4 } := by
      have hdest : pBS.pTail + 4 * (words - 1) =
          base start + 4 * (bitsTo start pos / 32 + 1 + words) := by
        rw [h.tail]
        omega
      apply At.of_word (bitsTo start pos / 32 + 1 + words) 0
      · omega
      · omega
      · exact congrArg (· + 4 + 4) hdest
      · exact congrArg (fun p => endian32 (load mem p)) hdest
      · exact congrArg (fun p => endian32 (load mem (p + 4))) hdest
      · rfl
      · exact htotal
    by_cases hrest : (r : Int) > 0
    · rw [if_pos hrest, hsum]
      exact hat.skip hr32.le (by omega)
    · rw [if_neg hrest, hsum, show r = 0 by omega]
      exact hat

/-! ## Runs inside a buffer -/

/-- A buffer of bytes in memory. -/
def Holds (mem : Nat → UInt8) (start : Nat) (bytes : List UInt8) : Prop :=
  bytesAt mem start bytes.length = bytes

instance (mem : Nat → UInt8) (start : Nat) (bytes : List UInt8) :
    Decidable (Holds mem start bytes) :=
  inferInstanceAs (Decidable (_ = _))

/-- The bits shown are those of the buffer at the position. -/
theorem At.show {bytes : List UInt8} (h : At mem start pos pBS) (hmem : Holds mem start bytes)
    {n : Nat} (hn0 : 0 < n) (hn : n ≤ 32) (hfit : pos + n ≤ 8 * bytes.length) :
    pvrBsShow pBS n = s32 (bitField bytes pos n) := by
  have hbase : base start + start % 4 = start := by
    unfold base
    omega
  have hbits : bitsTo start pos = 8 * (start % 4) + pos := rfl
  have hsum : 8 * (4 * (bitsTo start pos / 32)) + bitsTo start pos % 32 =
      8 * (start % 4) + pos := by omega
  -- the bytes from the first word on, in which the buffer and the two words lie
  obtain ⟨total, htotal⟩ : ∃ total, total = start % 4 + bytes.length + 8 := ⟨_, rfl⟩
  have hbuffer := drop_take_bytesAt mem (base start) (n := total) (k := start % 4)
    (m := bytes.length) (by omega)
  have hwords := drop_take_bytesAt mem (base start) (n := total)
    (k := 4 * (bitsTo start pos / 32)) (m := 8) (by omega)
  have hfirst := drop_take_bytesAt mem (base start + 4 * (bitsTo start pos / 32)) (n := 8)
    (k := 0) (m := 4) (by omega)
  have hsecond := drop_take_bytesAt mem (base start + 4 * (bitsTo start pos / 32)) (n := 8)
    (k := 4) (m := 4) (by omega)
  rw [hbase, hmem] at hbuffer
  have hpair : Words (bytesAt mem (base start + 4 * (bitsTo start pos / 32)) 8)
      pBS.Bufa pBS.Bufb := by
    refine ⟨length_bytesAt _ _ _, ?_, ?_⟩
    · rw [h.bufa, toNat_endian32_load, ← Nat.add_zero (base start + _), ← hfirst,
        bitField_take (by omega), List.drop_zero]
      rfl
    · rw [h.bufb, toNat_endian32_load, ← hsecond, bitField_take (by omega), bitField_drop]
  rw [hpair.show (Nat.mod_lt _ (by decide)) h.bufPos hn0 hn, ← hwords,
    bitField_take (by omega), bitField_drop, ← hbuffer, bitField_take hfit, bitField_drop, hsum]

/-- The bits by which a call moves the position. -/
def Call.skipped : Call → Int
  | .show _ => 0
  | .skip nBits => nBits
  | .back nBits => -nBits
  | .longSkip nBits => nBits

/-- The reader beside the net number of bits skipped. -/
def counted (mem : Nat → UInt8) : Machine (PvrBs × Int) Call Int where
  step s c := (((call mem s.1 c).1, s.2 + c.skipped), (call mem s.1 c).2)

/-- A call that stays inside a buffer of `length` bytes. -/
def Inside (length : Nat) (net : Int) : Call → Prop
  | .show nBits => 0 < nBits ∧ nBits ≤ 32 ∧ net + nBits ≤ 8 * length
  | .skip nBits => 0 < nBits ∧ nBits ≤ 32 ∧ net + nBits ≤ 8 * length
  | .back nBits => nBits ≤ 32 ∧ nBits ≤ net
  | .longSkip nBits => net + nBits ≤ 8 * length

instance (length : Nat) (net : Int) : ∀ c, Decidable (Inside length net c)
  | .show _ => inferInstanceAs (Decidable (_ ∧ _ ∧ _))
  | .skip _ => inferInstanceAs (Decidable (_ ∧ _ ∧ _))
  | .back _ => inferInstanceAs (Decidable (_ ∧ _))
  | .longSkip _ => inferInstanceAs (Decidable (_ ≤ _))

/-- `PvrBsPos` is the net number of bits skipped, in front of the call and behind it, and
`PvrBsShow` returns the bits at `PvrBsPos`. -/
structure Reads (mem : Nat → UInt8) (bytes : List UInt8) (s : PvrBs × Int) (c : Call) : Prop where
  pos : pvrBsPos s.1 = s.2
  moved : pvrBsPos (call mem s.1 c).1 = s.2 + c.skipped
  shown : ∀ nBits, c = .show nBits →
    (call mem s.1 c).2 = s32 (bitField bytes (pvrBsPos s.1).toNat nBits)

/-- The invariant of runs: the reader stands at the net number of bits. -/
def Stands (mem : Nat → UInt8) (start : Nat) (s : PvrBs × Int) : Prop :=
  ∃ pos : Nat, s.2 = pos ∧ pos < 2 ^ 31 ∧ At mem start pos s.1

/-- One call inside the buffer. -/
theorem Stands.call {bytes : List UInt8} {s : PvrBs × Int} (h : Stands mem start s)
    (hmem : Holds mem start bytes) (c : Call) (hin : Inside bytes.length s.2 c)
    (hfit : s.2 + c.skipped < 2 ^ 31) :
    Reads mem bytes s c ∧ Stands mem start ((counted mem).step s c).1 := by
  obtain ⟨pos, hpos, hlt, hat⟩ := h
  obtain ⟨pBS, net⟩ := s
  dsimp only at hpos
  subst hpos
  -- the position is right if the call moves by what it skips
  suffices hmoved : ∃ pos' : Nat, (pos : Int) + c.skipped = pos' ∧ pos' < 2 ^ 31 ∧
      At mem start pos' (PvrBitstream.call mem pBS c).1 by
    obtain ⟨pos', hpos', hlt', hat'⟩ := hmoved
    refine ⟨⟨hat.totalPos, hat'.totalPos.trans hpos'.symm, ?_⟩, pos', hpos', hlt', hat'⟩
    rintro nBits rfl
    obtain ⟨h0, h32, hend⟩ := hin
    dsimp only at hend
    have hnat : (pvrBsPos pBS).toNat = pos := congrArg Int.toNat hat.totalPos
    have hshown := hat.show hmem h0 h32 (by omega)
    rw [← hnat] at hshown
    dsimp only [PvrBitstream.call]
    exact hshown
  cases c with
  | «show» nBits => exact ⟨pos, Int.add_zero _, hlt, hat⟩
  | skip nBits =>
    obtain ⟨-, h32, -⟩ := hin
    dsimp only [Call.skipped] at hfit
    exact ⟨pos + nBits, by simp [Call.skipped], by omega, hat.skip h32 (by omega)⟩
  | back nBits =>
    -- going back stays inside the data
    obtain ⟨h32, hle⟩ := hin
    dsimp only at hle
    refine ⟨pos - nBits, ?_, by omega, hat.back h32 (by omega) hlt⟩
    dsimp only [Call.skipped]
    omega
  | longSkip nBits =>
    dsimp only [Call.skipped] at hfit
    exact ⟨pos + nBits, by simp [Call.skipped], by omega, hat.longSkip (by omega)⟩

/-- Along every run inside a buffer whose address has no bits above the lower 32, and as long as
the position stays below 2³¹, the bits shown are those at `PvrBsPos`, and `PvrBsPos` is the net
number of bits skipped. -/
theorem shows_bits_at_pos {bytes : List UInt8} (hmem : Holds mem start bytes) (length : Int)
    (hstart : start < 2 ^ 32) {calls : List Call}
    (hin : (counted mem).Always
      (fun s c => Inside bytes.length s.2 c ∧ s.2 + c.skipped < 2 ^ 31)
      (pvrBsInit mem start length, 0) calls) :
    (counted mem).Always (Reads mem bytes) (pvrBsInit mem start length, 0) calls :=
  (Machine.always_of_invariant (I := Stands mem start)
    (fun _ c h hc => h.call hmem c hc.1 hc.2)
    ⟨0, rfl, by decide, At.init mem hstart length⟩ hin).1

/-- A reader over two words, from the second byte on. -/
theorem shows_bits_at_pos_twelve :
    (counted fun p => UInt8.ofNat p).Always (Reads (fun p => UInt8.ofNat p) [5, 6, 7, 8, 9, 10, 11, 12])
      (pvrBsInit (fun p => UInt8.ofNat p) 5 8, 0)
      [.skip 20, .show 32, .back 7, .longSkip 40, .show 4] :=
  shows_bits_at_pos (by decide) 8 (by decide) (by decide)

/-- Behind 2³² the upper address bits are lost: the first byte of the buffer is 255, and 0 is
shown. From bit 2³¹ - 1 on, the position turns negative. -/
theorem high_address_wrong :
    let mem : Nat → UInt8 := fun p => if p = 2 ^ 32 then 255 else 0
    (Holds mem (2 ^ 32) [255] ∧ Inside 1 0 (.show 8) ∧
      pvrBsShow (pvrBsInit mem (2 ^ 32) 1) 8 = 0 ∧ s32 (bitField [255] 0 8) = 255 ∧
      ¬ (counted mem).Always (Reads mem [255]) (pvrBsInit mem (2 ^ 32) 1, 0) [.show 8]) ∧
    pvrBsPos ((counted mem).final (pvrBsInit mem 0 0, 0) [.longSkip (2 ^ 31 - 1), .skip 1]).1 =
      -2 ^ 31 := by
  refine ⟨⟨by decide, by decide, by decide, by decide, fun h => ?_⟩, by decide⟩
  have hshown := h.1.shown 8 rfl
  revert hshown
  decide

end Tntsat.PvrBitstream
