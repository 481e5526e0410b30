import Tntsat.Spec.CmdlineHeap

/-!
# Written command lines

Devices `dev:part,part` that are joined by `;`.  A partition is its size or `-`, where
it starts behind `@`, and its name in brackets; both are optional.  Sizes are numbers in
decimal, octal or hexadecimal with an optional `K`, `M` or `G`.

## Key results

- `memparse_text`: a size is read as its value
- `readPart_text`: a partition of no size is refused, any other is read as it is written
- `readDevices_text`: so are the devices
-/

namespace Tntsat.Cmdline

/-! ## Sizes -/

/-- What a size ends with. -/
inductive Suffix
  | kilo (upper : Bool)
  | mega (upper : Bool)
  | giga (upper : Bool)

def Suffix.letter : Suffix → Char
  | .kilo upper => if upper then 'K' else 'k'
  | .mega upper => if upper then 'M' else 'm'
  | .giga upper => if upper then 'G' else 'g'

def Suffix.shift : Suffix → Nat
  | .kilo _ => 10
  | .mega _ => 20
  | .giga _ => 30

structure SizeText where
  number : NumText
  suffix : Option Suffix

def SizeText.text (t : SizeText) : List Char := t.number.text ++ (t.suffix.map Suffix.letter).toList

def SizeText.value (t : SizeText) : Nat := t.number.value * 2 ^ t.suffix.elim 0 Suffix.shift

/-- What lies behind a size. -/
def Ends (rest : List Char) : Prop := ∀ c ∈ rest.head?, c = '@' ∨ c = '('

theorem Ends.stops {rest : List Char} (h : Ends rest) : Stops rest := by
  intro c hc
  cases h c hc with
  | inl h =>
    subst h
    decide
  | inr h =>
    subst h
    decide

theorem Suffix.stops (s : Suffix) (rest : List Char) : Stops (s.letter :: rest) := by
  intro c hc
  obtain rfl : s.letter = c := Option.some.inj hc
  cases s with
  | kilo upper => cases upper <;> decide
  | mega upper => cases upper <;> decide
  | giga upper => cases upper <;> decide

/-- A size is read as its value, if it is one of 64 bits. -/
theorem memparse_text {t : SizeText} {rest : List Char} (hrest : Ends rest)
    (hval : t.value < 2 ^ 64) : memparse (t.text ++ rest) = (t.value, rest) := by
  obtain ⟨n, suffix⟩ := t
  cases suffix with
  | none =>
    have hv : n.value < 2 ^ 64 := by simpa [SizeText.value] using hval
    have hread := strtoull_text n hrest.stops
    rw [Nat.min_eq_left (by omega)] at hread
    have htext : SizeText.text ⟨n, none⟩ ++ rest = n.text ++ rest := by simp [SizeText.text]
    have hvalue : SizeText.value ⟨n, none⟩ = n.value := Nat.mul_one _
    rw [memparse, htext, hread, hvalue]
    -- what follows is no suffix
    cases rest with
    | nil => rfl
    | cons c cs =>
      cases hrest c rfl with
      | inl h =>
        rw [h]
        rfl
      | inr h =>
        rw [h]
        rfl
  | some s =>
    have hv : n.value * 2 ^ s.shift < 2 ^ 64 := hval
    -- the number fits if its value does
    have hle : n.value ≤ n.value * 2 ^ s.shift := Nat.le_mul_of_pos_right _ (Nat.two_pow_pos _)
    have hread := strtoull_text n (s.stops rest)
    rw [Nat.min_eq_left (by omega)] at hread
    have htext : SizeText.text ⟨n, some s⟩ ++ rest = n.text ++ s.letter :: rest := by
      simp [SizeText.text]
    rw [memparse, htext, hread]
    change _ = (n.value * 2 ^ s.shift, rest)
    have hu : u64 (n.value * 2 ^ s.shift) = n.value * 2 ^ s.shift := Nat.mod_eq_of_lt hv
    cases s with
    | kilo upper => cases upper <;> exact congrArg (·, rest) hu
    | mega upper => cases upper <;> exact congrArg (·, rest) hu
    | giga upper => cases upper <;> exact congrArg (·, rest) hu

/-- A size starts with a digit. -/
theorem SizeText.text_digit (t : SizeText) :
    ∃ c cs, t.text = c :: cs ∧ (digitVal 16 c).isSome := by
  obtain ⟨c, cs, htext, hd⟩ := t.number.text_digit
  exact ⟨c, cs ++ (t.suffix.map Suffix.letter).toList, by rw [SizeText.text, htext]; rfl, hd⟩

/-- No separator stands in a size. -/
theorem SizeText.notMem_text (t : SizeText) {sep : Char} (hsep : sep = ',' ∨ sep = ';') :
    sep ∉ t.text := by
  intro hmem
  rw [SizeText.text, List.mem_append] at hmem
  cases hmem with
  | inl hmem =>
    -- a separator is no digit and no `x`
    have hc := NumText.mem_text hmem
    cases hsep with
    | inl h =>
      subst h
      revert hc
      decide
    | inr h =>
      subst h
      revert hc
      decide
  | inr hmem =>
    obtain ⟨s, -, hs⟩ := Option.map_eq_some_iff.mp (Option.mem_toList.mp hmem)
    have hletter : s.letter ≠ ',' ∧ s.letter ≠ ';' := by
      cases s with
      | kilo upper => cases upper <;> decide
      | mega upper => cases upper <;> decide
      | giga upper => cases upper <;> decide
    rw [← hs] at hsep
    exact hsep.elim hletter.1 hletter.2

/-! ## Partitions -/

structure PartText where
  size : Option SizeText
  «from» : Option SizeText
  name : Option (List Char)
  name_ok : ∀ n ∈ name, ')' ∉ n ∧ ',' ∉ n ∧ ';' ∉ n

def fromText : Option SizeText → List Char
  | none => []
  | some t => '@' :: t.text

def nameText : Option (List Char) → List Char
  | none => []
  | some n => '(' :: (n ++ [')'])

def PartText.text (p : PartText) : List Char :=
  p.size.elim ['-'] SizeText.text ++ (fromText p.from ++ nameText p.name)

/-- The size that is written; `-` is the largest one. -/
def PartText.sizeValue (p : PartText) : Nat := p.size.elim (2 ^ 64 - 1) SizeText.value

/-- The partition that is written, behind one that ends at `e`. -/
def PartText.part (e : Nat) (p : PartText) : Part :=
  { name := (p.name.getD []).take (bdevnameSize - 1)
    «from» := p.from.elim e SizeText.value
    size := p.sizeValue }

/-- The values that are written have 64 bits. -/
def PartText.Fits (p : PartText) : Prop :=
  (∀ t ∈ p.size, t.value < 2 ^ 64) ∧ ∀ t ∈ p.from, t.value < 2 ^ 64

theorem ends_nameText (name : Option (List Char)) : Ends (nameText name) := by
  intro c hc
  cases name with
  | none => cases hc
  | some n => exact Or.inr (Option.some.inj hc).symm

theorem ends_fromText («from» : Option SizeText) (name : Option (List Char)) :
    Ends (fromText «from» ++ nameText name) := by
  cases «from» with
  | none => exact ends_nameText name
  | some t =>
    intro c hc
    exact Or.inl (Option.some.inj hc).symm

theorem parseSize_text {size : Option SizeText} {rest : List Char} (hrest : Ends rest)
    (hfits : ∀ t ∈ size, t.value < 2 ^ 64) :
    parseSize (size.elim ['-'] SizeText.text ++ rest) =
      (size.elim (2 ^ 64 - 1) SizeText.value, rest) := by
  cases size with
  | none => rfl
  | some t =>
    have hread := memparse_text hrest (hfits t rfl)
    obtain ⟨c, cs, htext, hd⟩ := t.text_digit
    change parseSize (t.text ++ rest) = (t.value, rest)
    rw [htext] at hread ⊢
    rw [parseSize]
    · exact hread
    · -- a digit is no `-`
      intro cs' heq
      exact (digit_not_sign hd).2.1 (List.cons.inj heq).1

theorem parseFrom_text (e : Nat) {«from» : Option SizeText} (name : Option (List Char))
    (hfits : ∀ t ∈ «from», t.value < 2 ^ 64) :
    parseFrom e (fromText «from» ++ nameText name) =
      («from».elim e SizeText.value, nameText name) := by
  cases «from» with
  | none => cases name <;> rfl
  | some t => exact memparse_text (ends_nameText name) (hfits t rfl)

theorem parseName_text {name : Option (List Char)} (hname : ∀ n ∈ name, ')' ∉ n) :
    parseName (nameText name) = some ((name.getD []).take (bdevnameSize - 1)) := by
  cases name with
  | none => rfl
  | some n =>
    have htake := takeWhile_ne_append (hname n rfl) [')']
    rw [nameText, parseName, if_pos (List.mem_append_right n (List.mem_singleton_self ')')), htake]
    simp

/-- A partition of no size is refused, any other is read as it is written. -/
theorem readPart_text {p : PartText} (e : Nat) (hfits : p.Fits) :
    readPart e p.text = if p.sizeValue = 0 then none else some (p.part e) := by
  have hsize := parseSize_text (ends_fromText p.from p.name) hfits.1
  have hfrom := parseFrom_text e p.name hfits.2
  have hname := parseName_text fun n hn => (p.name_ok n hn).1
  simp only [readPart, PartText.text, hsize, hfrom, hname, Option.map_some]
  rfl

theorem PartText.text_ne (p : PartText) : p.text ≠ [] := by
  intro h
  have hsize := (List.append_eq_nil_iff.mp h).1
  cases hp : p.size with
  | none =>
    rw [hp] at hsize
    cases hsize
  | some t =>
    obtain ⟨c, cs, htext, -⟩ := t.text_digit
    rw [hp] at hsize
    rw [show t.text = [] from hsize] at htext
    cases htext

/-- No separator stands in a partition. -/
theorem PartText.notMem_text (p : PartText) {sep : Char} (hsep : sep = ',' ∨ sep = ';') :
    sep ∉ p.text := by
  have hchar : sep ≠ '-' ∧ sep ≠ '@' ∧ sep ≠ '(' ∧ sep ≠ ')' := by
    cases hsep with
    | inl h =>
      subst h
      decide
    | inr h =>
      subst h
      decide
  -- nor in any of its three fields
  have hsize : sep ∉ p.size.elim ['-'] SizeText.text := by
    cases p.size with
    | none => simpa using hchar.1
    | some t => exact t.notMem_text hsep
  have hfrom : sep ∉ fromText p.from := by
    cases p.from with
    | none => exact List.not_mem_nil
    | some t => exact List.not_mem_cons_of_ne_of_not_mem hchar.2.1 (t.notMem_text hsep)
  have hname : sep ∉ nameText p.name := by
    cases hn : p.name with
    | none => exact List.not_mem_nil
    | some n =>
      have hok := (p.name_ok n hn).2
      have hsep' : sep ∉ n := hsep.elim (fun h => h ▸ hok.1) fun h => h ▸ hok.2
      simp [nameText, hsep', hchar.2.2.1, hchar.2.2.2]
  simp [PartText.text, hsize, hfrom, hname]

/-! ## Devices -/

structure DeviceText where
  name : List Char
  parts : List PartText
  name_ok : ':' ∉ name ∧ ';' ∉ name
  nonempty : parts ≠ []

def DeviceText.text (d : DeviceText) : List Char :=
  d.name ++ ':' :: joined ',' (d.parts.map PartText.text)

/-- The partitions that are written: each starts where it says, or else where the one before it
    ends. -/
def partsFrom : Nat → List PartText → List Part
  | _, [] => []
  | e, p :: ps => p.part e :: partsFrom (p.part e).end ps

def DeviceText.device (d : DeviceText) : Device :=
  { name := d.name.take (bdevnameSize - 1), parts := partsFrom 0 d.parts }

/-- Values of 64 bits, a size, and no more bytes than the buffer has room for. -/
structure PartText.Ok (p : PartText) : Prop where
  fits : p.Fits
  size : p.sizeValue ≠ 0
  short : p.text.length < bufSize

theorem readParts_text {ps : List PartText} (e : Nat) (hok : ∀ p ∈ ps, p.Ok) :
    readParts e (ps.map PartText.text) = (partsFrom e ps, true) := by
  induction ps generalizing e with
  | nil => rfl
  | cons p ps ih =>
    have hp := hok p List.mem_cons_self
    have hrest := ih (p.part e).end fun q hq => hok q (List.mem_cons_of_mem _ hq)
    have hread : readPart e (p.text.take (bufSize - 1)) = some (p.part e) := by
      rw [List.take_of_length_le (Nat.le_sub_one_of_lt hp.short), readPart_text e hp.fits,
        if_neg hp.size]
    rw [List.map_cons, readParts, hread]
    simp only [hrest, partsFrom]

theorem DeviceText.takeWhile_text (d : DeviceText) :
    d.text.takeWhile (· ≠ ':') = d.name := by
  rw [DeviceText.text, takeWhile_ne_append d.name_ok.1]
  simp

theorem DeviceText.behind_text (d : DeviceText) :
    behind ':' d.text = joined ',' (d.parts.map PartText.text) := by
  rw [behind, DeviceText.text, dropWhile_ne_append d.name_ok.1]
  simp

/-- The partitions are the pieces of what lies behind the name of the device. -/
theorem DeviceText.pieces_text (d : DeviceText) :
    pieces ',' (behind ':' d.text) = d.parts.map PartText.text := by
  rw [d.behind_text]
  apply pieces_joined
  · intro x hx
    obtain ⟨p, -, rfl⟩ := List.mem_map.mp hx
    exact p.text_ne
  · intro x hx
    obtain ⟨p, -, rfl⟩ := List.mem_map.mp hx
    exact p.notMem_text (Or.inl rfl)

theorem readDevice_text {d : DeviceText} (hok : ∀ p ∈ d.parts, p.Ok) :
    readDevice d.text = some d.device := by
  have hcolon : ':' ∈ d.text := List.mem_append_right _ List.mem_cons_self
  have hparts : partsFrom 0 d.parts ≠ [] := by
    cases hd : d.parts with
    | nil => exact absurd hd d.nonempty
    | cons p ps => exact List.cons_ne_nil _ _
  simp only [readDevice, d.pieces_text, readParts_text 0 hok, d.takeWhile_text]
  exact if_pos ⟨hcolon, trivial, hparts⟩

theorem DeviceText.notMem_text (d : DeviceText) : ';' ∉ d.text := by
  intro hmem
  rw [DeviceText.text, List.mem_append, List.mem_cons] at hmem
  cases hmem with
  | inl hname => exact d.name_ok.2 hname
  | inr hmem =>
    cases hmem with
    | inl h => revert h; decide
    | inr hjoined =>
      cases mem_joined hjoined with
      | inl h => revert h; decide
      | inr h =>
        obtain ⟨x, hx, hc⟩ := h
        obtain ⟨p, -, rfl⟩ := List.mem_map.mp hx
        exact p.notMem_text (Or.inr rfl) hc

/-! ## Command lines -/

structure CmdlineText where
  devices : List DeviceText
  nonempty : devices ≠ []

def CmdlineText.text (t : CmdlineText) : List Char := joined ';' (t.devices.map DeviceText.text)

/-- The devices that are written. -/
def CmdlineText.written (t : CmdlineText) : List Device := t.devices.map DeviceText.device

def CmdlineText.Ok (t : CmdlineText) : Prop := ∀ d ∈ t.devices, ∀ p ∈ d.parts, p.Ok

theorem CmdlineText.text_ne (t : CmdlineText) : t.text ≠ [] := by
  intro h
  cases hds : t.devices with
  | nil => exact t.nonempty hds
  | cons d ds =>
    rw [CmdlineText.text, hds, List.map_cons] at h
    cases ds with
    | nil => exact nomatch (List.append_eq_nil_iff.mp h).2
    | cons d' ds => exact nomatch (List.append_eq_nil_iff.mp h).2

/-- The devices are the pieces of the command line. -/
theorem CmdlineText.pieces_text (t : CmdlineText) :
    pieces ';' t.text = t.devices.map DeviceText.text := by
  apply pieces_joined
  · intro x hx
    obtain ⟨d, -, rfl⟩ := List.mem_map.mp hx
    exact fun h => nomatch (List.append_eq_nil_iff.mp h).2
  · intro x hx
    obtain ⟨d, -, rfl⟩ := List.mem_map.mp hx
    exact d.notMem_text

/-- The devices are read as they are written. -/
theorem readDevices_text {t : CmdlineText} (hok : t.Ok) :
    readDevices (pieces ';' t.text) = (t.written, true) := by
  have hread : ∀ ds : List DeviceText, (∀ d ∈ ds, ∀ p ∈ d.parts, p.Ok) →
      readDevices (ds.map DeviceText.text) = (ds.map DeviceText.device, true) := by
    intro ds hds
    induction ds with
    | nil => rfl
    | cons d ds ih =>
      have hrest := ih fun x hx => hds x (List.mem_cons_of_mem _ hx)
      rw [List.map_cons, readDevices, readDevice_text (hds d List.mem_cons_self)]
      simp only [hrest, List.map_cons]
  rw [t.pieces_text]
  exact hread t.devices hok

end Tntsat.Cmdline
