import Tntsat.Native.TsSequence
import Mathlib.Algebra.Group.Nat.Defs
import Mathlib.Tactic.Common

/-!
# Start codes in a buffer

What the loops of `x_check_frame_type1` find where everything that they read lies in a buffer: each
finds the first position at which the bytes are a start code.

## Key results

- `searchLoop_eq`: a search is `List.find?` over the positions
- `Reads.scan_returns`: the scan for picture and group start codes
-/

namespace Tntsat.TsSequence

/-- The bytes `00 00 01` and a last one at a position. -/
def CodeAt (last : UInt8) (l : List UInt8) (i : Nat) : Prop :=
  l[i]? = some 0x00 ∧ l[i + 1]? = some 0x00 ∧ l[i + 2]? = some 0x01 ∧ l[i + 3]? = some last

instance (last : UInt8) (l : List UInt8) (i : Nat) : Decidable (CodeAt last l i) :=
  inferInstanceAs (Decidable (_ ∧ _ ∧ _ ∧ _))

/-- The first three bytes of a start code at a position. -/
def PrefixAt (l : List UInt8) (i : Nat) : Prop :=
  l[i]? = some 0x00 ∧ l[i + 1]? = some 0x00 ∧ l[i + 2]? = some 0x01

instance (l : List UInt8) (i : Nat) : Decidable (PrefixAt l i) :=
  inferInstanceAs (Decidable (_ ∧ _ ∧ _))

/-- A picture start code. -/
abbrev PictureAt (l : List UInt8) (i : Nat) : Prop := CodeAt 0x00 l i

/-- A group start code. -/
abbrev GopAt (l : List UInt8) (i : Nat) : Prop := CodeAt 0xB8 l i

/-- The start code of a picture coding extension, and its first four bits. -/
def ExtensionAt (l : List UInt8) (i : Nat) : Prop :=
  CodeAt 0xb5 l i ∧ (l[i + 4]?).any (fun c => c &&& 0xf0 = 0x80) = true

instance (l : List UInt8) (i : Nat) : Decidable (ExtensionAt l i) :=
  inferInstanceAs (Decidable (_ ∧ _))

/-- The bytes of a list lie at an address. -/
def Reads (ld : Loads) (base : Int) (l : List UInt8) : Prop := ∀ k : Nat, ld (base + k) = l[k]?

variable {ld : Loads} {base : Int} {l : List UInt8}

theorem codeAt_iff {last : UInt8} {i : Nat} :
    CodeAt last l i ↔ PrefixAt l i ∧ l[i + 3]? = some last := by
  unfold CodeAt PrefixAt
  rw [and_assoc, and_assoc]

theorem CodeAt.lt {last : UInt8} {i : Nat} (h : CodeAt last l i) : i + 3 < l.length :=
  (List.getElem?_eq_some_iff.mp h.2.2.2).1

/-- The bytes of a start code are those of a list that it lies in. -/
theorem codeAt_append_left {last : UInt8} {l' : List UInt8} {i : Nat} (hi : i + 3 < l.length) :
    CodeAt last (l ++ l') i ↔ CodeAt last l i := by
  unfold CodeAt
  rw [List.getElem?_append_left (by omega), List.getElem?_append_left (by omega),
    List.getElem?_append_left (by omega), List.getElem?_append_left hi]

theorem codeAt_append_right {last : UInt8} {l' : List UInt8} (i : Nat) :
    CodeAt last (l ++ l') (l.length + i) ↔ CodeAt last l' i := by
  have hget : ∀ k, (l ++ l')[l.length + k]? = l'[k]? := fun k => by
    rw [List.getElem?_append_right (by omega), Nat.add_sub_cancel_left]
  unfold CodeAt
  rw [Nat.add_assoc, Nat.add_assoc, Nat.add_assoc, hget, hget, hget, hget]

theorem codeAt_drop {last : UInt8} (n i : Nat) :
    CodeAt last (l.drop n) i ↔ CodeAt last l (n + i) := by
  unfold CodeAt
  simp only [List.getElem?_drop, Nat.add_assoc]

/-- A picture start code is no group start code. -/
theorem CodeAt.unique {last last' : UInt8} {i : Nat} (h : CodeAt last l i)
    (h' : CodeAt last' l i) : last = last' :=
  Option.some.inj (h.2.2.2.symm.trans h'.2.2.2)

/-! ## Reading -/

theorem reads_loadsOf (l : List UInt8) : Reads (loadsOf l) 0 l := by
  intro k
  rw [loadsOf, if_pos (by omega)]
  congr 1
  omega

theorem Reads.drop (h : Reads ld base l) (n : Nat) : Reads ld (base + n) (l.drop n) := by
  intro k
  rw [List.getElem?_drop, ← h, Int.natCast_add, Int.add_assoc]

theorem Reads.byte (h : Reads ld base l) {i : Nat} (hi : i < l.length) :
    ld (base + i) = some l[i] := by
  rw [h, List.getElem?_eq_getElem hi]

theorem Reads.loadBytes_eq (h : Reads ld base l) {n : Nat} (hn : n ≤ l.length) :
    loadBytes ld base n = some (l.take n) := by
  induction n generalizing base l with
  | zero => rw [loadBytes, List.take_zero]
  | succ n ih =>
    cases l with
    | nil => exact absurd hn (Nat.not_succ_le_zero n)
    | cons b rest =>
      have hb : ld base = some b := by
        rw [← Int.add_zero base]
        exact h 0
      rw [loadBytes, hb, Option.bind_some, show loadBytes ld (base + 1) n = some (rest.take n) from
          ih (h.drop 1) (Nat.le_of_succ_le_succ hn)]
      rfl

theorem Reads.loadBytes_isSome_iff (h : Reads ld base l) (n : Nat) :
    (loadBytes ld base n).isSome = true ↔ n ≤ l.length := by
  induction n generalizing base l with
  | zero => exact iff_of_true rfl (Nat.zero_le _)
  | succ n ih =>
    have hbyte : ld base = l[0]? := by
      rw [← Int.add_zero base]
      exact h 0
    rw [loadBytes, hbyte]
    cases l with
    | nil => simp
    | cons b rest =>
      have hrest := ih (h.drop 1)
      simpa using hrest

theorem length_loadBytes {a : Int} {n : Nat} {bytes : List UInt8}
    (h : loadBytes ld a n = some bytes) : bytes.length = n := by
  induction n generalizing a bytes with
  | zero =>
    cases h
    rfl
  | succ n ih =>
    obtain ⟨b, -, hb⟩ := Option.bind_eq_some_iff.mp h
    obtain ⟨rest, hrest, rfl⟩ := Option.map_eq_some_iff.mp hb
    rw [List.length_cons, ih hrest]

theorem expect_some {a : Int} {b c : UInt8} {rest : Option Bool} (h : ld a = some c) :
    expect ld a b rest = if c = b then rest else some false := by
  rw [expect, h]
  rfl

/-- The bytes `00 00 01` that lie in the buffer are recognised. -/
theorem Reads.startCode_eq (h : Reads ld base l) {i : Nat} (hi : i + 2 < l.length)
    (rest : Option Bool) :
    startCode ld (base + i) rest = if PrefixAt l i then rest else some false := by
  have h0 := h.byte (i := i) (by omega)
  have h1 : ld (base + i + 1) = some l[i + 1] := by
    rw [← h.byte (by omega), Int.add_assoc]
    rfl
  have h2 : ld (base + i + 2) = some l[i + 2] := by
    rw [← h.byte (by omega), Int.add_assoc]
    rfl
  have hpre : PrefixAt l i ↔ l[i] = 0x00 ∧ l[i + 1] = 0x00 ∧ l[i + 2] = 0x01 := by
    unfold PrefixAt
    rw [List.getElem?_eq_getElem (by omega : i < l.length),
      List.getElem?_eq_getElem (by omega : i + 1 < l.length), List.getElem?_eq_getElem hi]
    simp only [Option.some.injEq]
  rw [startCode, expect_some h0, expect_some h1, expect_some h2]
  simp only [hpre]
  split
  case isFalse hne => simp [hne]
  split
  case isFalse hne => simp [hne]
  split <;> simp [*]

/-- A start code is recognised where its last byte lies in the buffer, if it is read at all. -/
theorem Reads.code_eq (h : Reads ld base l) {last : UInt8} {i : Nat} (hi : i + 2 < l.length)
    (hlast : PrefixAt l i → i + 3 < l.length) :
    startCode ld (base + i) (expect ld (base + i + 3) last (some true)) =
      some (decide (CodeAt last l i)) := by
  rw [h.startCode_eq hi]
  by_cases hpre : PrefixAt l i
  · have hlt := hlast hpre
    have h3 : ld (base + i + 3) = some l[i + 3] := by
      rw [← h.byte hlt, Int.add_assoc]
      rfl
    have hcode : CodeAt last l i ↔ l[i + 3] = last := by
      rw [codeAt_iff, and_iff_right hpre, List.getElem?_eq_getElem hlt, Option.some.injEq]
    rw [if_pos hpre, expect_some h3]
    simp only [hcode]
    split <;> simp [*]
  · have hcode : ¬ CodeAt last l i := fun hat => hpre (codeAt_iff.mp hat).1
    rw [if_neg hpre, decide_eq_false hcode]

theorem Reads.picture_eq (h : Reads ld base l) {i : Nat} (hi : i + 3 < l.length) :
    isPictureStartCode ld (base + i) = some (decide (PictureAt l i)) :=
  h.code_eq (by omega) fun _ => hi

theorem Reads.gop_eq (h : Reads ld base l) {i : Nat} (hi : i + 3 < l.length) :
    isGopStartCode ld (base + i) = some (decide (GopAt l i)) :=
  h.code_eq (by omega) fun _ => hi

/-- A search whose tests all succeed finds the first position that meets its test. -/
theorem searchLoop_eq {test : Nat → Option Bool} {p : Nat → Bool} (rounds i : Nat)
    (h : ∀ k, i ≤ k → k < i + rounds → test k = some (p k)) :
    searchLoop test rounds i = some ((List.range' i rounds).find? p) := by
  induction rounds generalizing i with
  | zero => rfl
  | succ rounds ih =>
    rw [searchLoop, h i (Nat.le_refl i) (by omega), Option.bind_some, List.range'_succ,
      List.find?_cons]
    cases p i with
    | true => rfl
    | false => exact ih (i + 1) fun k hk hlt => h k (by omega) (by omega)

/-- What a search of four positions finds. -/
theorem find_four {p : Nat → Prop} [DecidablePred p] :
    ((List.range' 0 4).find? fun k => decide (p k)) = none ∧ (∀ k < 4, ¬ p k) ∨
      ∃ k, ((List.range' 0 4).find? fun k => decide (p k)) = some k ∧ k < 4 ∧ p k ∧
        ∀ j < k, ¬ p j := by
  cases hfind : (List.range' 0 4).find? fun k => decide (p k) with
  | none =>
    refine Or.inl ⟨rfl, fun k hk => ?_⟩
    simpa using List.find?_range'_eq_none.mp hfind k (Nat.zero_le k) (by omega)
  | some k =>
    obtain ⟨hat, hmem, hbefore⟩ := List.find?_range'_eq_some.mp hfind
    have hk := (List.mem_range'_1.mp hmem).2
    refine Or.inr ⟨k, rfl, by omega, of_decide_eq_true hat, fun j hj => ?_⟩
    simpa using hbefore j (Nat.zero_le j) hj

/-! ## The picture coding extension -/

theorem Reads.extension_eq (h : Reads ld base l) {i : Nat} (hi : i + 4 < l.length) :
    isPictureCodingExtension ld (base + i) = some (decide (ExtensionAt l i)) := by
  have h3 : ld (base + i + 3) = some l[i + 3] := by
    rw [← h.byte (by omega), Int.add_assoc]
    rfl
  have h4 : ld (base + i + 4) = some l[i + 4] := by
    rw [← h.byte hi, Int.add_assoc]
    rfl
  have hext : ExtensionAt l i ↔ PrefixAt l i ∧ l[i + 3] = 0xb5 ∧ l[i + 4] &&& 0xf0 = 0x80 := by
    unfold ExtensionAt
    rw [codeAt_iff, List.getElem?_eq_getElem (by omega : i + 3 < l.length),
      List.getElem?_eq_getElem hi, and_assoc]
    simp
  rw [isPictureCodingExtension, h.startCode_eq (by omega), expect_some h3, h4]
  simp only [hext, Option.map_some]
  split
  case isFalse hne => simp [hne]
  split <;> simp [*]

/-- The parser of the extension reads the sixth byte behind the first extension that it finds. -/
def ExtensionInside (l : List UInt8) (len : Int) : Prop :=
  ∀ j : Nat, j + 4 < len → ExtensionAt l j → (∀ k < j, ¬ ExtensionAt l k) → j + 6 < l.length

/-- The parser of the extension on bytes that lie in the buffer. -/
theorem Reads.parser_isSome_iff (h : Reads ld base l) {len : Int} (hlen : len ≤ l.length) :
    (mpegPictureCodingExtensionParser ld base len).isSome = true ↔ ExtensionInside l len := by
  -- the search itself reads only inside
  have hsearch : searchLoop (fun i => isPictureCodingExtension ld (base + i)) (len - 4).toNat 0 =
      some ((List.range' 0 (len - 4).toNat).find? fun k => decide (ExtensionAt l k)) :=
    searchLoop_eq _ _ fun k _ hk => h.extension_eq (by omega)
  rw [mpegPictureCodingExtensionParser, hsearch, Option.bind_some]
  cases hfind : (List.range' 0 (len - 4).toNat).find? fun k => decide (ExtensionAt l k) with
  | none =>
    refine iff_of_true rfl fun j hj hat _ => ?_
    have hnot := List.find?_eq_none.mp hfind j (List.mem_range'_1.mpr ⟨Nat.zero_le j, by omega⟩)
    exact absurd (decide_eq_true hat) hnot
  | some k =>
    obtain ⟨hat, hmem, hbefore⟩ := List.find?_range'_eq_some.mp hfind
    have hk := (List.mem_range'_1.mp hmem).2
    have hat : ExtensionAt l k := of_decide_eq_true hat
    -- the byte read is behind the first extension found
    have hfirst : ∀ j < k, ¬ ExtensionAt l j := fun j hj => by
      simpa using hbefore j (Nat.zero_le j) hj
    show ((ld (base + k + 6)).map fun c => c &&& 0x3).isSome = true ↔ _
    have hbyte : ld (base + k + 6) = l[k + 6]? := by
      rw [← h (k + 6), Int.add_assoc]
      rfl
    rw [Option.isSome_map, hbyte, isSome_getElem?]
    constructor
    · intro hlt j hj hatj hfirstj
      have heq : j = k := by
        by_contra hne
        rcases Nat.lt_or_gt_of_ne hne with hjk | hkj
        · exact hfirst j hjk hatj
        · exact hfirstj k hkj hat
      rwa [heq]
    · exact fun hinside => hinside k (by omega) hat hfirst

/-- Two bytes behind the data are enough for the parser of the extension. -/
theorem Reads.parser_returns (h : Reads ld base l) {len : Int} (hlen : len + 2 ≤ l.length) :
    ∃ v, mpegPictureCodingExtensionParser ld base len = some v :=
  Option.isSome_iff_exists.mp ((h.parser_isSome_iff (by omega)).mpr fun j hj _ _ => by omega)

/-! ## The scan -/

/-- What the scan has found behind its last round: the first picture start code up to position `n`,
and whether a group start code stands in front of it. -/
structure Scanned (l : List UInt8) (n : Nat) (s : Scan) : Prop where
  found : s.is_picture_start_code = true →
    PictureAt l s.i ∧ s.i ≤ n ∧ ∀ i < s.i, ¬ PictureAt l i
  notFound : s.is_picture_start_code = false → ∀ i ≤ n, ¬ PictureAt l i
  gop : s.have_gop = true ↔
    ∃ g, 1 ≤ g ∧ g ≤ n ∧ GopAt l g ∧ ∀ i < g, ¬ PictureAt l i

theorem Reads.parseIf_returns (h : Reads ld base l) (c : Bool) (len : Int)
    (hlen : len + 2 ≤ l.length) (pic_struct : UInt8) :
    ∃ v, parseIf c ld base len pic_struct = some v := by
  cases c with
  | true => exact h.parser_returns hlen
  | false => exact ⟨pic_struct, rfl⟩

/-- The rounds of the scan, behind the positions up to `i`. -/
theorem Reads.scanLoop_returns (h : Reads ld base l) {len : Nat} (hlen : len + 2 ≤ l.length)
    (rounds i : Nat) (have_gop : Bool) (pic_struct : UInt8) (hrounds : i + rounds + 3 = len)
    (hpicture : ∀ k ≤ i, ¬ PictureAt l k)
    (hgop : have_gop = true ↔ ∃ g, 1 ≤ g ∧ g ≤ i ∧ GopAt l g) :
    ∃ s, scanLoop ld base len rounds i have_gop pic_struct = some s ∧ Scanned l (i + rounds) s := by
  induction rounds generalizing i have_gop pic_struct with
  | zero =>
    refine ⟨_, rfl, fun hfalse => absurd hfalse Bool.false_ne_true, fun _ => hpicture, ?_⟩
    show have_gop = true ↔ _
    rw [hgop]
    constructor
    · rintro ⟨g, hg1, hgi, hat⟩
      exact ⟨g, hg1, hgi, hat, fun k hk => hpicture k (by omega)⟩
    · rintro ⟨g, hg1, hgi, hat, -⟩
      exact ⟨g, hg1, hgi, hat⟩
  | succ rounds ih =>
    have hnext : i + 1 + 3 < l.length := by omega
    obtain ⟨v, hv⟩ := (h.drop (i + 1)).parseIf_returns (decide (GopAt l (i + 1)))
      (len - (i + 1 : Nat)) (by rw [List.length_drop]; omega) pic_struct
    have hgop' : (have_gop || decide (GopAt l (i + 1))) = true ↔
        ∃ g, 1 ≤ g ∧ g ≤ i + 1 ∧ GopAt l g := by
      rw [Bool.or_eq_true, hgop, decide_eq_true_eq]
      constructor
      · rintro (⟨g, hg1, hgi, hat⟩ | hat)
        · exact ⟨g, hg1, by omega, hat⟩
        · exact ⟨i + 1, by omega, Nat.le_refl _, hat⟩
      · rintro ⟨g, hg1, hgi, hat⟩
        rcases Nat.lt_or_eq_of_le hgi with hlt | rfl
        · exact Or.inl ⟨g, hg1, by omega, hat⟩
        · exact Or.inr hat
    rw [scanLoop, h.picture_eq hnext, h.gop_eq hnext]
    simp only [Option.bind_eq_bind, Option.bind_some, hv]
    by_cases hpic : PictureAt l (i + 1)
    · -- the scan ends here
      rw [if_pos (decide_eq_true hpic)]
      refine ⟨_, rfl, fun _ => ⟨hpic, by show i + 1 ≤ _; omega, fun k hk => hpicture k
        (by have hk : k < i + 1 := hk; omega)⟩, fun hfalse => absurd hfalse.symm Bool.false_ne_true,
        ?_⟩
      show (have_gop || decide (GopAt l (i + 1))) = true ↔ _
      rw [hgop']
      constructor
      · rintro ⟨g, hg1, hgi, hat⟩
        exact ⟨g, hg1, by omega, hat, fun k hk => hpicture k (by omega)⟩
      · rintro ⟨g, hg1, -, hat, hbefore⟩
        refine ⟨g, hg1, ?_, hat⟩
        by_contra hlt
        exact hbefore (i + 1) (by omega) hpic
    · rw [if_neg (by simpa using hpic)]
      have hpicture' : ∀ k ≤ i + 1, ¬ PictureAt l k := fun k hk => by
        rcases Nat.lt_or_eq_of_le hk with hlt | rfl
        · exact hpicture k (by omega)
        · exact hpic
      obtain ⟨s, hs, hscanned⟩ := ih (i + 1) _ v (by omega) hpicture' hgop'
      rw [show i + 1 + rounds = i + (rounds + 1) by omega] at hscanned
      exact ⟨s, hs, hscanned⟩

/-- The scan of a payload that does not begin with a group start code. -/
theorem Reads.scan_returns (h : Reads ld base l) (len : Nat) (hlen : len + 2 ≤ l.length)
    (hthree : 3 ≤ len) (hgop : ¬ GopAt l 0) (pic_struct : UInt8) :
    ∃ s, scan ld base len pic_struct = some s ∧ Scanned l (len - 3) s := by
  have hfirst : isPictureStartCode ld base = some (decide (PictureAt l 0)) := by
    rw [← h.picture_eq (by omega)]
    exact congrArg _ (Int.add_zero base).symm
  have hsecond : isGopStartCode ld base = some false := by
    rw [← decide_eq_false hgop, ← h.gop_eq (by omega)]
    exact congrArg _ (Int.add_zero base).symm
  rw [scan, hfirst, hsecond]
  simp only [Option.bind_eq_bind, Option.bind_some, Bool.or_false]
  by_cases hpic : PictureAt l 0
  -- a picture start code right at the front
  · rw [if_pos (decide_eq_true hpic)]
    refine ⟨_, rfl, fun _ => ⟨hpic, Nat.zero_le _, fun k hk => absurd hk (Nat.not_lt_zero k)⟩,
      fun hfalse => absurd hpic (of_decide_eq_false hfalse), ?_⟩
    constructor
    · exact fun hfalse => absurd hfalse Bool.false_ne_true
    · rintro ⟨g, hg1, -, -, hbefore⟩
      exact absurd hpic (hbefore 0 hg1)
  · rw [if_neg (by simpa using hpic)]
    have hpicture : ∀ k ≤ 0, ¬ PictureAt l k := fun k hk => by
      rw [Nat.le_zero.mp hk]
      exact hpic
    -- none there: the loop starts behind it and has passed no group
    have hnone : false = true ↔ ∃ g, 1 ≤ g ∧ g ≤ 0 ∧ GopAt l g := by
      constructor
      · exact fun hfalse => absurd hfalse Bool.false_ne_true
      · rintro ⟨g, hg1, hg0, -⟩
        omega
    obtain ⟨s, hs, hscanned⟩ := h.scanLoop_returns hlen (len - 3) 0 false pic_struct (by omega)
      hpicture hnone
    rw [show ((len : Int) - 3).toNat = len - 3 by omega]
    rw [Nat.zero_add] at hscanned
    exact ⟨s, hs, hscanned⟩

/-- A group start code at the beginning of the payload ends the scan with nothing found. -/
theorem Reads.scan_gop (h : Reads ld base l) (hgop : GopAt l 0) (len : Int) (pic_struct : UInt8) :
    scan ld base len pic_struct = some ⟨false, 0, false, pic_struct⟩ := by
  have hpic : ¬ PictureAt l 0 := fun hpic => absurd (hpic.unique hgop) (by decide)
  have hfirst : isPictureStartCode ld base = some false := by
    rw [← decide_eq_false hpic, ← h.picture_eq hgop.lt]
    exact congrArg _ (Int.add_zero base).symm
  have hsecond : isGopStartCode ld base = some true := by
    rw [← decide_eq_true hgop, ← h.gop_eq hgop.lt]
    exact congrArg _ (Int.add_zero base).symm
  rw [scan, hfirst, hsecond]
  rfl

end Tntsat.TsSequence
