import Mathlib.Algebra.Group.Nat.Defs
import Mathlib.Data.List.Basic
import Mathlib.Data.List.TakeWhile

/-!
# C texts: pieces and numbers

A text is the list of its characters, without the `NUL` at its end.  `pieces` is what a
loop over `strchr` sees of a text that is split at a separator; a separator at the end
of the text opens no piece.  `strtoull` is the C function with base 0: white space, a
sign, and digits in the base that they start with.

## Key results

- `pieces_joined`: texts that are joined are the pieces again
- `strtoull_text`: a number in decimal, octal or hexadecimal is read as its value
-/

namespace Tntsat

/-! ## Pieces -/

/-- The pieces of a text between separators. -/
def pieces (sep : Char) : List Char → List (List Char)
  | [] => []
  | c :: cs =>
    if c = sep then [] :: pieces sep cs
    else
      match pieces sep cs with
      | [] => [[c]]
      | p :: ps => (c :: p) :: ps

/-- What lies behind the first separator, if there is one. -/
def behind (sep : Char) (s : List Char) : List Char := (s.dropWhile (· ≠ sep)).tail

/-- The first piece, and the others. -/
theorem pieces_eq (sep : Char) {s : List Char} (hs : s ≠ []) :
    pieces sep s = s.takeWhile (· ≠ sep) :: pieces sep (behind sep s) := by
  induction s with
  | nil => exact absurd rfl hs
  | cons c cs ih =>
    by_cases hc : c = sep
    · subst hc
      simp [pieces, behind]
    · cases cs with
      | nil => simp [pieces, behind, hc]
      | cons c' cs =>
        have htail := ih (List.cons_ne_nil c' cs)
        rw [pieces, if_neg hc, htail]
        simp [behind, hc]

/-- Texts joined with a separator between them. -/
def joined (sep : Char) : List (List Char) → List Char
  | [] => []
  | [p] => p
  | p :: ps => p ++ sep :: joined sep ps

theorem takeWhile_ne_append {sep : Char} {p : List Char} (hp : sep ∉ p) (rest : List Char) :
    (p ++ rest).takeWhile (· ≠ sep) = p ++ rest.takeWhile (· ≠ sep) := by
  apply List.takeWhile_append_of_pos
  intro c hc
  exact decide_eq_true fun h => hp (h ▸ hc)

theorem dropWhile_ne_append {sep : Char} {p : List Char} (hp : sep ∉ p) (rest : List Char) :
    (p ++ rest).dropWhile (· ≠ sep) = rest.dropWhile (· ≠ sep) := by
  apply List.dropWhile_append_of_pos
  intro c hc
  exact decide_eq_true fun h => hp (h ▸ hc)

/-- Texts that are joined are the pieces again. -/
theorem pieces_joined {sep : Char} {ps : List (List Char)} (hne : ∀ p ∈ ps, p ≠ [])
    (hsep : ∀ p ∈ ps, sep ∉ p) : pieces sep (joined sep ps) = ps := by
  induction ps with
  | nil => rfl
  | cons p ps ih =>
    have hp := hne p List.mem_cons_self
    have hs := hsep p List.mem_cons_self
    have htake := takeWhile_ne_append hs
    have hdrop := dropWhile_ne_append hs
    cases ps with
    | nil =>
      have h1 := htake []
      have h2 := hdrop []
      rw [List.append_nil] at h1 h2
      rw [joined, pieces_eq sep hp, behind, h1, h2]
      simp [pieces]
    | cons q ps =>
      have htail := ih (fun x hx => hne x (List.mem_cons_of_mem _ hx))
        fun x hx => hsep x (List.mem_cons_of_mem _ hx)
      rw [joined, pieces_eq sep (by simp), behind, htake, hdrop]
      · simp [htail]
      · exact fun h => nomatch h

/-- The characters of joined texts. -/
theorem mem_joined {sep c : Char} {ps : List (List Char)} (h : c ∈ joined sep ps) :
    c = sep ∨ ∃ p ∈ ps, c ∈ p := by
  induction ps with
  | nil => cases h
  | cons p ps ih =>
    cases ps with
    | nil => exact Or.inr ⟨p, List.mem_cons_self, h⟩
    | cons q ps =>
      rw [joined, List.mem_append, List.mem_cons] at h
      · cases h with
        | inl hp => exact Or.inr ⟨p, List.mem_cons_self, hp⟩
        | inr h =>
          cases h with
          | inl hsep => exact Or.inl hsep
          | inr hrest =>
            cases ih hrest with
            | inl hsep => exact Or.inl hsep
            | inr hq =>
              obtain ⟨x, hx, hc⟩ := hq
              exact Or.inr ⟨x, List.mem_cons_of_mem _ hx, hc⟩
      · exact fun h => nomatch h

/-! ## Numbers -/

/-- The value of a digit. -/
def digitVal (base : Nat) (c : Char) : Option Nat :=
  let d :=
    if '0' ≤ c ∧ c ≤ '9' then c.toNat - 48
    else if 'a' ≤ c ∧ c ≤ 'z' then c.toNat - 87
    else if 'A' ≤ c ∧ c ≤ 'Z' then c.toNat - 55
    else 36
  if d < base then some d else none

/-- The digits a text starts with, behind digits of value `acc`, and the rest of the text. -/
def readDigits (base : Nat) : Nat → List Char → Nat × List Char
  | acc, [] => (acc, [])
  | acc, c :: cs =>
    match digitVal base c with
    | some d => readDigits base (acc * base + d) cs
    | none => (acc, c :: cs)

/-- `isspace`. -/
def isSpace (c : Char) : Bool := c = ' ' || (9 ≤ c.toNat && c.toNat ≤ 13)

/-- A number without its sign; the first characters tell its base. -/
def readNumber (s : List Char) : Option (Nat × List Char) :=
  match s with
  | '0' :: x :: c :: rest =>
    if (x = 'x' ∨ x = 'X') ∧ (digitVal 16 c).isSome then some (readDigits 16 0 (c :: rest))
    else some (readDigits 8 0 s)
  | '0' :: _ => some (readDigits 8 0 s)
  | c :: _ => if (digitVal 10 c).isSome then some (readDigits 10 0 s) else none
  | [] => none

/-- A sign: whether it is a minus, and what lies behind it. -/
def readSign : List Char → Bool × List Char
  | '-' :: t => (true, t)
  | '+' :: t => (false, t)
  | t => (false, t)

/-- `strtoull` with base 0: the value, and the rest of the text. -/
def strtoull (s : List Char) : Nat × List Char :=
  let (neg, t) := readSign (s.dropWhile isSpace)
  match readNumber t with
  | none => (0, s)
  | some (v, rest) =>
    if v ≥ 2 ^ 64 then (2 ^ 64 - 1, rest)
    else (if neg then (2 ^ 64 - v) % 2 ^ 64 else v, rest)

/-- How a number is written. -/
inductive Radix
  | dec
  | oct
  | hex (upper : Bool)
deriving DecidableEq

def Radix.base : Radix → Nat
  | .dec => 10
  | .oct => 8
  | .hex _ => 16

/-- What the number starts with. -/
def Radix.mark : Radix → List Char
  | .dec => []
  | .oct => ['0']
  | .hex false => ['0', 'x']
  | .hex true => ['0', 'X']

/-- A number in decimal, octal or hexadecimal. -/
structure NumText where
  radix : Radix
  digits : List Char
  digits_ok : ∀ c ∈ digits, (digitVal radix.base c).isSome
  nonempty : radix ≠ .oct → digits ≠ []
  leading : radix = .dec → digits.head? ≠ some '0'

def NumText.text (n : NumText) : List Char := n.radix.mark ++ n.digits

def NumText.value (n : NumText) : Nat := (readDigits n.radix.base 0 n.digits).1

/-- A text that does not go on with a number. -/
def Stops (rest : List Char) : Prop :=
  ∀ c ∈ rest.head?, digitVal 16 c = none ∧ c ≠ 'x' ∧ c ≠ 'X'

/-- A digit of a smaller base. -/
theorem digitVal_none_of_le {base base' : Nat} (hle : base ≤ base') {c : Char}
    (h : digitVal base' c = none) : digitVal base c = none := by
  simp only [digitVal] at h ⊢
  generalize (if '0' ≤ c ∧ c ≤ '9' then c.toNat - 48
    else if 'a' ≤ c ∧ c ≤ 'z' then c.toNat - 87
    else if 'A' ≤ c ∧ c ≤ 'Z' then c.toNat - 55 else 36) = d at h ⊢
  split at h
  · cases h
  · rw [if_neg (by omega)]

/-- A digit of a larger base. -/
theorem digitVal_isSome_of_le {base base' : Nat} (hle : base ≤ base') {c : Char}
    (h : (digitVal base c).isSome) : (digitVal base' c).isSome := by
  by_contra hnone
  rw [digitVal_none_of_le hle (Option.not_isSome_iff_eq_none.mp hnone)] at h
  cases h

theorem readDigits_append {base : Nat} (hbase : base ≤ 16) {ds rest : List Char}
    (hds : ∀ c ∈ ds, (digitVal base c).isSome) (hrest : Stops rest) (acc : Nat) :
    readDigits base acc (ds ++ rest) = ((readDigits base acc ds).1, rest) := by
  induction ds generalizing acc with
  | nil =>
    cases rest with
    | nil => rfl
    | cons c cs =>
      have hc := digitVal_none_of_le hbase (hrest c rfl).1
      simp [readDigits, hc]
  | cons c ds ih =>
    obtain ⟨d, hd⟩ := Option.isSome_iff_exists.mp (hds c List.mem_cons_self)
    simp only [List.cons_append, readDigits, hd]
    exact ih (fun x hx => hds x (List.mem_cons_of_mem _ hx)) _

/-- What a digit is not. -/
theorem digit_not_sign {c : Char} (h : (digitVal 16 c).isSome) :
    isSpace c = false ∧ c ≠ '-' ∧ c ≠ '+' := by
  refine ⟨?_, ?_, ?_⟩
  · rw [Bool.eq_false_iff]
    intro hspace
    simp only [isSpace, Bool.or_eq_true, decide_eq_true_eq, Bool.and_eq_true] at hspace
    rcases hspace with rfl | ⟨hlo, hhi⟩
    · revert h
      decide
    · -- a control character
      rw [← Char.ofNat_toNat c] at h
      revert h hlo hhi
      generalize c.toNat = n
      intro h hlo hhi
      have hn : n = 9 ∨ n = 10 ∨ n = 11 ∨ n = 12 ∨ n = 13 := by omega
      rcases hn with rfl | rfl | rfl | rfl | rfl <;> revert h <;> decide
  · rintro rfl
    revert h
    decide
  · rintro rfl
    revert h
    decide

/-- A number that starts with a digit. -/
theorem strtoull_digit {c : Char} (cs : List Char) (h : (digitVal 16 c).isSome) {v : Nat}
    {rest : List Char} (hread : readNumber (c :: cs) = some (v, rest)) :
    strtoull (c :: cs) = (min v (2 ^ 64 - 1), rest) := by
  obtain ⟨hspace, hminus, hplus⟩ := digit_not_sign h
  have hdrop : (c :: cs).dropWhile isSpace = c :: cs := by
    rw [List.dropWhile_cons, hspace]
    rfl
  have hsign : readSign (c :: cs) = (false, c :: cs) := by
    unfold readSign
    split
    · rename_i heq
      exact absurd (List.cons.inj heq).1 hminus
    · rename_i heq
      exact absurd (List.cons.inj heq).1 hplus
    · rfl
  simp only [strtoull, hdrop, hsign, hread, Bool.false_eq_true, if_false]
  split
  · rw [Nat.min_eq_right (by omega)]
  · rw [Nat.min_eq_left (by omega)]

/-- A number is read in the base it is written in. -/
theorem readNumber_text (n : NumText) {rest : List Char} (hrest : Stops rest) :
    readNumber (n.text ++ rest) = some (n.value, rest) := by
  obtain ⟨radix, digits, hok, hne, hlead⟩ := n
  cases radix with
  | dec =>
    have hread : readDigits 10 0 (digits ++ rest) = ((readDigits 10 0 digits).1, rest) :=
      readDigits_append (by decide) hok hrest 0
    cases digits with
    | nil => exact absurd rfl (hne (by decide))
    | cons c cs =>
      have hc : c ≠ '0' := fun h => hlead rfl (by rw [h]; rfl)
      have hd := hok c List.mem_cons_self
      simp only [NumText.text, Radix.mark, List.nil_append, List.cons_append, NumText.value,
        Radix.base] at *
      unfold readNumber
      split
      · rename_i heq
        exact absurd (List.cons.inj heq).1 hc
      · rename_i heq
        exact absurd (List.cons.inj heq).1 hc
      · rename_i heq
        cases heq
        rw [if_pos hd, hread]
      · rename_i heq
        cases heq
  | oct =>
    have hread : readDigits 8 0 (digits ++ rest) = ((readDigits 8 0 digits).1, rest) :=
      readDigits_append (by decide) hok hrest 0
    have hzero : readDigits 8 0 ('0' :: (digits ++ rest)) = readDigits 8 0 (digits ++ rest) := rfl
    -- no `x` follows the zero
    have hx : ∀ x t, digits ++ rest = x :: t → ¬ (x = 'x' ∨ x = 'X') := by
      intro x t heq hx
      cases digits with
      | nil =>
        have hstop := hrest x (by rw [← List.nil_append rest, heq]; rfl)
        rcases hx with hx | hx
        · exact hstop.2.1 hx
        · exact hstop.2.2 hx
      | cons d ds =>
        have hd := hok d List.mem_cons_self
        rw [(List.cons.inj heq).1] at hd
        rcases hx with rfl | rfl <;> revert hd <;> decide
    change readNumber ('0' :: (digits ++ rest)) = _
    unfold readNumber
    split
    · rename_i x c t heq
      have htail := (List.cons.inj heq).2
      rw [if_neg fun h => hx x (c :: t) htail h.1, hzero, hread]
      rfl
    · rw [hzero, hread]
      rfl
    · rename_i hnot heq
      exact (hnot (List.cons.inj heq).1.symm).elim
    · rename_i heq
      cases heq
  | hex upper =>
    have hread : readDigits 16 0 (digits ++ rest) = ((readDigits 16 0 digits).1, rest) :=
      readDigits_append (Nat.le_refl 16) hok hrest 0
    cases digits with
    | nil => exact absurd rfl (hne fun h => nomatch h)
    | cons c cs =>
      have hd := hok c List.mem_cons_self
      have hmark : NumText.text ⟨.hex upper, c :: cs, hok, hne, hlead⟩ =
          '0' :: (if upper then 'X' else 'x') :: c :: cs := by
        cases upper <;> rfl
      rw [hmark]
      have hx : (if upper then 'X' else 'x') = 'x' ∨ (if upper then 'X' else 'x') = 'X' := by
        cases upper
        · exact Or.inl rfl
        · exact Or.inr rfl
      exact (if_pos ⟨hx, hd⟩).trans (congrArg some hread)

/-- A number starts with a digit. -/
theorem NumText.text_digit (n : NumText) : ∃ c cs, n.text = c :: cs ∧ (digitVal 16 c).isSome := by
  obtain ⟨radix, digits, hok, hne, hlead⟩ := n
  cases radix with
  | dec =>
    cases digits with
    | nil => exact absurd rfl (hne (by decide))
    | cons c cs => exact ⟨c, cs, rfl, digitVal_isSome_of_le (by decide) (hok c List.mem_cons_self)⟩
  | oct => exact ⟨'0', digits, rfl, by decide⟩
  | hex upper =>
    cases upper with
    | false => exact ⟨'0', 'x' :: digits, rfl, by decide⟩
    | true => exact ⟨'0', 'X' :: digits, rfl, by decide⟩

/-- The characters of a number. -/
theorem NumText.mem_text {n : NumText} {c : Char} (hc : c ∈ n.text) :
    (digitVal 16 c).isSome ∨ c = 'x' ∨ c = 'X' := by
  obtain ⟨radix, digits, hok, hne, hlead⟩ := n
  have hbase : radix.base ≤ 16 := by cases radix <;> simp [Radix.base]
  rw [NumText.text, List.mem_append] at hc
  -- the mark of the base, or a digit of it
  cases hc with
  | inl hmark =>
    revert hmark
    cases radix with
    | dec => exact fun h => nomatch h
    | oct =>
      intro hmark
      rw [List.mem_singleton.mp hmark]
      exact Or.inl (by decide)
    | hex upper =>
      cases upper with
      | false =>
        intro hmark
        have hc : c = '0' ∨ c = 'x' := by simpa [Radix.mark] using hmark
        exact hc.elim (fun h => Or.inl (h ▸ by decide)) fun h => Or.inr (Or.inl h)
      | true =>
        intro hmark
        have hc : c = '0' ∨ c = 'X' := by simpa [Radix.mark] using hmark
        exact hc.elim (fun h => Or.inl (h ▸ by decide)) fun h => Or.inr (Or.inr h)
  | inr hdigit => exact Or.inl (digitVal_isSome_of_le hbase (hok c hdigit))

/-- A number that is written out is read as its value. -/
theorem strtoull_text (n : NumText) {rest : List Char} (hrest : Stops rest) :
    strtoull (n.text ++ rest) = (min n.value (2 ^ 64 - 1), rest) := by
  have hread := readNumber_text n hrest
  obtain ⟨c, cs, htext, hd⟩ := n.text_digit
  rw [htext, List.cons_append] at hread ⊢
  exact strtoull_digit _ hd hread

end Tntsat
