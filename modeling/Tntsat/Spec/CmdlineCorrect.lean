import Mathlib.Algebra.Group.Nat.Defs
import Mathlib.Algebra.Order.BigOperators.Group.List
import Mathlib.Algebra.Order.Group.Nat
import Tntsat.Spec.CmdlineLists
import Tntsat.Spec.CmdlineText

/-!
# The command line is parsed, or refused

A command line is refused where a device has no name or no partition, or a partition has
no size or a name that is not closed; then nothing of it is left.  Any other one is
accepted, and where it is written as it should be its partitions are found as they are
written.  The links behind the last partitions are left as `malloc` returns them, so
that the lists only end where these are `NULL`.

## Key results

- `parseCmdline_read`, `parseCmdline_refused`: the two outcomes
- `parseCmdline_correct`: what `parse_cmdline` leaves
-/

namespace Tntsat.Cmdline

variable {garbage : Nat → CmdlineSubpart}

/-! ## What is read -/

/-- A partition whose size is read as 0, or whose name is not closed. -/
def BadPart (buf : List Char) : Prop :=
  (parseSize buf).1 = 0 ∨ parseName (parseFrom 0 (parseSize buf).2).2 = none

/-- A device without a name, without a partition, or with a bad one. -/
def BadDevice (s : List Char) : Prop :=
  ':' ∉ s ∨ behind ':' s = [] ∨ ∃ p ∈ pieces ',' (behind ':' s), BadPart (p.take (bufSize - 1))

/-- A command line without a device, or with a bad one. -/
def Malformed (s : List Char) : Prop := s = [] ∨ ∃ d ∈ pieces ';' s, BadDevice d

theorem parseFrom_snd (e e' : Nat) (buf : List Char) :
    (parseFrom e buf).2 = (parseFrom e' buf).2 := by
  unfold parseFrom
  split <;> rfl

theorem readPart_eq_none_iff (e : Nat) (buf : List Char) : readPart e buf = none ↔ BadPart buf := by
  rw [readPart, BadPart, parseFrom_snd 0 e]
  by_cases hsize : (parseSize buf).1 = 0
  · simp [hsize]
  · simp [hsize]

theorem readParts_ok_iff (e : Nat) (ps : List (List Char)) :
    (readParts e ps).2 = true ↔ ∀ p ∈ ps, ¬ BadPart (p.take (bufSize - 1)) := by
  induction ps generalizing e with
  | nil => simp [readParts]
  | cons p ps ih =>
    have hbad := readPart_eq_none_iff e (p.take (bufSize - 1))
    rw [readParts]
    cases hread : readPart e (p.take (bufSize - 1)) with
    | none =>
      have hp := hbad.mp hread
      simp [hp]
    | some x =>
      have hp : ¬ BadPart (p.take (bufSize - 1)) := by
        rw [← hbad, hread]
        exact Option.some_ne_none x
      simp [hp, ih]

/-- A text without a bad partition has one if it is not empty. -/
theorem readParts_ne_iff {e : Nat} {ps : List (List Char)} (hok : (readParts e ps).2 = true) :
    (readParts e ps).1 ≠ [] ↔ ps ≠ [] := by
  cases ps with
  | nil => simp [readParts]
  | cons p ps =>
    rw [readParts] at hok ⊢
    cases hread : readPart e (p.take (bufSize - 1)) with
    | none =>
      rw [hread] at hok
      cases hok
    | some x => simp

theorem pieces_eq_nil_iff {sep : Char} {s : List Char} : pieces sep s = [] ↔ s = [] := by
  by_cases hs : s = []
  · simp [hs, pieces]
  · simp [hs, pieces_eq sep hs]

theorem readDevice_eq_none_iff (s : List Char) : readDevice s = none ↔ BadDevice s := by
  have hok := readParts_ok_iff 0 (pieces ',' (behind ':' s))
  rw [readDevice, BadDevice]
  by_cases hcolon : ':' ∈ s
  · by_cases hread : (readParts 0 (pieces ',' (behind ':' s))).2 = true
    · have hgood := hok.mp hread
      have hne := readParts_ne_iff hread
      rw [Ne, Ne, pieces_eq_nil_iff] at hne
      have hnone : ¬ ∃ p ∈ pieces ',' (behind ':' s), BadPart (p.take (bufSize - 1)) := by
        simpa using hgood
      simp [hcolon, hread, hne, hnone]
    · have hbad : ∃ p ∈ pieces ',' (behind ':' s), BadPart (p.take (bufSize - 1)) := by
        simpa using mt hok.mpr hread
      simp [hcolon, hread, hbad]
  · simp [hcolon]

theorem readDevices_ok_iff (l : List (List Char)) :
    (readDevices l).2 = true ↔ ∀ d ∈ l, ¬ BadDevice d := by
  induction l with
  | nil => simp [readDevices]
  | cons s l ih =>
    have hbad := readDevice_eq_none_iff s
    rw [readDevices]
    cases hread : readDevice s with
    | none =>
      have hs := hbad.mp hread
      simp [hs]
    | some d =>
      have hs : ¬ BadDevice s := by
        rw [← hbad, hread]
        exact Option.some_ne_none d
      simp [hs, ih]

/-- Which command lines are read to their end. -/
theorem malformed_iff (s : List Char) :
    Malformed s ↔ s = [] ∨ (readDevices (pieces ';' s)).2 = false := by
  rw [Malformed, ← Bool.not_eq_true, readDevices_ok_iff]
  simp

theorem readDevices_parts_ne {l : List (List Char)} : ∀ d ∈ (readDevices l).1, d.parts ≠ [] := by
  induction l with
  | nil =>
    intro d hd
    cases hd
  | cons s l ih =>
    rw [readDevices]
    cases hread : readDevice s with
    | none =>
      intro d hd
      cases hd
    | some d =>
      intro x hx
      cases List.mem_cons.mp hx with
      | inl hxd =>
        rw [readDevice] at hread
        split at hread
        · rename_i hok
          cases hread
          rw [hxd]
          exact hok.2.2
        · cases hread
      | inr hrest => exact ih x hrest

/-! ## What is left -/

/-- A heap in which some devices are found, and nothing else. -/
structure Holds (h : Heap) (ds : List Device) : Prop where
  list : PartsList h h.head ds
  find : ∀ media_name ptn_name,
    findFlashPart h media_name ptn_name = some (lookup ds media_name ptn_name)
  info : ∀ partnum, getPartInfo h partnum = some (numbered ds partnum)

/-- A heap without a block. -/
structure Released (h : Heap) : Prop where
  head : h.head = 0
  subpart : ∀ i, h.subpart i = none
  parts : ∀ q, h.parts q = none

theorem le_total {ds : List Device} {d : Device} (hd : d ∈ ds) : d.parts.length ≤ total ds :=
  List.le_sum_of_mem (List.mem_map_of_mem hd)

variable (garbage) in
/-- The loop over the devices, from the start. -/
theorem cmdlineLoop_start (s : List Char) :
    ∃ h, cmdlineLoop garbage (s.length + 1) {} .head s =
        some (h, if (readDevices (pieces ';' s)).2 then 0 else eInval) ∧
      ReadsAll garbage {} h .head (readDevices (pieces ';' s)) :=
  cmdlineLoop_spec garbage (fun _ _ => rfl) (fun _ _ => rfl) rfl (Nat.lt_succ_self _)

theorem ReadsAll.head_eq {h : Heap} {r : List Device × Bool}
    (hr : ReadsAll garbage {} h .head r) : h.head = if r.1 = [] then 0 else 1 := by
  rw [hr.links.head]
  by_cases hnil : r.1 = []
  · simp [hnil, Heap.storeParts]
  · simp [hnil, Heap.storeParts]

/-- A command line that is read to its end is accepted. -/
theorem parseCmdline_read {s : List Char} {ds : List Device} (hs : s ≠ [])
    (hread : readDevices (pieces ';' s) = (ds, true)) :
    ∃ h, parseCmdline garbage s = some (h, 0) ∧ (LinksNull garbage 1 ds → Holds h ds) := by
  obtain ⟨h, heq, hr⟩ := cmdlineLoop_start garbage s
  have hparts : ∀ d ∈ ds, d.parts ≠ [] := by
    have hne := readDevices_parts_ne (l := pieces ';' s)
    rw [hread] at hne
    exact hne
  -- a text that is not empty has a device
  have hne : ds ≠ [] := by
    rintro rfl
    rw [pieces_eq ';' hs, readDevices] at hread
    split at hread <;> cases hread
  rw [hread] at heq hr
  have hhead := hr.head_eq
  rw [if_neg hne] at hhead
  refine ⟨h, ?_, fun hnull => ?_⟩
  · rw [parseCmdline, heq]
    simp [hhead]
  · have hlist := hr.devices.partsList Nat.one_ne_zero Nat.one_ne_zero hparts hnull
    have hdevices : ds.length ≤ h.devices := Nat.le_trans (Nat.le_add_left _ _) hr.le_devices
    -- as many blocks as partitions, so the walks have fuel enough
    have hsubparts : total ds ≤ h.subparts := Nat.le_trans (Nat.le_add_left _ _) hr.le
    rw [if_neg hne, show ({} : Heap).devices + 1 = h.head from hhead.symm] at hlist
    exact ⟨hlist,
      fun media_name ptn_name => findFlashPart_list media_name ptn_name hlist hdevices
        fun d hd => Nat.le_trans (le_total hd) hsubparts,
      fun partnum => getPartInfo_list partnum hlist hparts⟩

/-- A command line that is not read to its end is refused, and what was read of it is freed. -/
theorem parseCmdline_refused {s : List Char}
    (hs : s = [] ∨ (readDevices (pieces ';' s)).2 = false)
    (hnull : LinksNull garbage 1 (readDevices (pieces ';' s)).1) :
    ∃ h, parseCmdline garbage s = some (h, eInval) ∧ Released h := by
  obtain ⟨h, heq, hr⟩ := cmdlineLoop_start garbage s
  have hhead := hr.head_eq
  obtain ⟨h', hfree, hhead', hsub, hparts⟩ := freeParts_null hr.devices hhead Nat.one_ne_zero
    Nat.one_ne_zero readDevices_parts_ne hnull
    (show _ < h.devices + 1 by have hle := hr.le_devices; change 0 + _ ≤ _ at hle; omega)
    (by have hle := hr.le; change 0 + _ ≤ _ at hle; change 0 + 1 + _ ≤ _; omega)
  -- the blocks of what was read, and no others
  have hreleased : Released h' := by
    refine ⟨hhead', fun i => ?_, fun q => ?_⟩
    · rw [hsub]
      split
      · rfl
      · rename_i hout
        by_cases hzero : i = 0
        · rw [hr.links.subpart i (Nat.le_of_eq hzero)]
        · apply hr.behind
          change ¬ (0 + 1 ≤ i ∧ i < 0 + 1 + _) at hout
          change 0 + _ < i
          omega
    · rw [hparts]
      split
      · rfl
      · rename_i hout
        by_cases hzero : q = 0
        · rw [hr.links.parts q (Nat.le_of_eq hzero)]
          rfl
        · apply hr.behind_parts
          change ¬ (0 + 1 ≤ q ∧ q < 0 + 1 + _) at hout
          change 0 + _ < q
          omega
  refine ⟨h', ?_, hreleased⟩
  rw [parseCmdline, heq]
  simp only [hfree, Option.map_some]
  cases hok : (readDevices (pieces ';' s)).2 with
  | true =>
    -- only the empty text has no device
    have hnil : s = [] := by simpa [hok] using hs
    subst hnil
    have hnone : h.head = 0 := hhead
    simp [hnone]
  | false => simp [eInval]

/-! ## Main theorem -/

/-- `parse_cmdline` accepts what is not malformed and refuses the rest.  Where the links behind the
    last partitions are `NULL`, what it has accepted is found as it is written, and of what it
    has refused nothing is left. -/
theorem parseCmdline_correct (garbage : Nat → CmdlineSubpart) (s : List Char) :
    (∀ t : CmdlineText, t.text = s → t.Ok → ∃ h, parseCmdline garbage s = some (h, 0) ∧
      (LinksNull garbage 1 t.written → Holds h t.written)) ∧
    (¬ Malformed s → ∃ h, parseCmdline garbage s = some (h, 0) ∧
      (LinksNull garbage 1 (readDevices (pieces ';' s)).1 →
        Holds h (readDevices (pieces ';' s)).1)) ∧
    (Malformed s → LinksNull garbage 1 (readDevices (pieces ';' s)).1 →
      ∃ h, parseCmdline garbage s = some (h, eInval) ∧ Released h) := by
  refine ⟨?_, fun hgood => ?_, fun hbad hnull => ?_⟩
  · rintro t rfl hok
    exact parseCmdline_read t.text_ne (readDevices_text hok)
  · rw [malformed_iff, not_or, Bool.not_eq_false] at hgood
    exact parseCmdline_read hgood.1 (Prod.ext rfl hgood.2)
  · exact parseCmdline_refused ((malformed_iff s).mp hbad) hnull

/-- A text `1`, and one `0`. -/
def oneText : SizeText :=
  { number := { radix := .dec, digits := ['1']
                digits_ok := fun c hc => by rw [List.mem_singleton.mp hc]; decide
                nonempty := by decide, leading := by decide }
    suffix := none }

def zeroText : SizeText :=
  { number := { radix := .oct, digits := [], digits_ok := fun _ hc => nomatch hc
                nonempty := by decide, leading := by decide }
    suffix := none }

/-- One partition on the device `a`. -/
def oneDevice (size : SizeText) (name : Option (List Char))
    (name_ok : ∀ n ∈ name, ')' ∉ n ∧ ',' ∉ n ∧ ';' ∉ n) : CmdlineText :=
  { devices := [{ name := ['a']
                  parts := [{ size := some size, «from» := none, name := name, name_ok := name_ok }]
                  name_ok := by decide
                  nonempty := List.cons_ne_nil _ _ }]
    nonempty := List.cons_ne_nil _ _ }

/-- `a:1` on memory that holds zeros. -/
theorem parseCmdline_one :
    ∃ h, parseCmdline (fun _ => ⟨[], 0, 0, 0⟩) ['a', ':', '1'] = some (h, 0) ∧
      Holds h [{ name := ['a'], parts := [{ name := [], «from» := 0, size := 1 }] }] := by
  have hok : (oneDevice oneText none fun _ hn => nomatch hn).Ok := by
    intro d hd p hp
    obtain rfl := List.mem_singleton.mp hd
    obtain rfl := List.mem_singleton.mp hp
    refine ⟨⟨fun t ht => ?_, fun t ht => nomatch ht⟩, by decide, by decide⟩
    obtain rfl : oneText = t := Option.some.inj ht
    decide
  obtain ⟨h, heq, hholds⟩ := (parseCmdline_correct (fun _ => ⟨[], 0, 0, 0⟩) ['a', ':', '1']).1
    (oneDevice oneText none fun _ hn => nomatch hn) rfl hok
  exact ⟨h, heq, hholds ⟨rfl, trivial⟩⟩

/-- What is written `a:+1` has no part of the form, as a size starts with a digit. -/
theorem plus_not_written (t : CmdlineText) : t.text ≠ ['a', ':', '+', '1'] := by
  intro heq
  have hdevices := t.pieces_text
  rw [heq] at hdevices
  cases hds : t.devices with
  | nil => exact t.nonempty hds
  | cons d ds =>
    rw [hds] at hdevices
    have hd : d.text = ['a', ':', '+', '1'] := (List.cons.inj hdevices).1.symm
    have hparts := d.pieces_text
    rw [hd] at hparts
    cases hps : d.parts with
    | nil => exact d.nonempty hps
    | cons p ps =>
      rw [hps] at hparts
      have hp : p.text = ['+', '1'] := (List.cons.inj hparts).1.symm
      cases hsize : p.size with
      | none =>
        rw [PartText.text, hsize] at hp
        exact absurd (List.cons.inj hp).1 (by decide)
      | some size =>
        obtain ⟨c, cs, htext, hdigit⟩ := size.text_digit
        rw [PartText.text, hsize, Option.elim, htext] at hp
        exact (digit_not_sign hdigit).2.2 (List.cons.inj hp).1

theorem longName_ok : ∀ n ∈ some (List.replicate 66 'b'), ')' ∉ n ∧ ',' ∉ n ∧ ';' ∉ n := by
  intro n hn
  obtain rfl : List.replicate 66 'b' = n := Option.some.inj hn
  decide

/-- Of the form, but refused: a size 0, and a part that is longer than the buffer; not of the form,
    but accepted: a sign; and a list that does not end. -/
theorem parseCmdline_inexact :
    (parseCmdline (fun _ => ⟨[], 0, 0, 0⟩) (oneDevice zeroText none fun _ hn => nomatch hn).text).map
      (·.2) = some eInval ∧
    (parseCmdline (fun _ => ⟨[], 0, 0, 0⟩)
      (oneDevice oneText (some (List.replicate 66 'b')) longName_ok).text).map (·.2) = some eInval ∧
    ((∀ t : CmdlineText, t.text ≠ ['a', ':', '+', '1']) ∧
      (parseCmdline (fun _ => ⟨[], 0, 0, 0⟩) ['a', ':', '+', '1']).map (·.2) = some 0) ∧
    (parseCmdline (fun _ => ⟨[], 0, 0, 7⟩)
      (oneDevice oneText none fun _ hn => nomatch hn).text).map (fun r => (r.2, getPartInfo r.1 1)) =
        some (0, none) := by
  exact ⟨by decide +kernel, by decide +kernel, ⟨plus_not_written, by decide +kernel⟩,
    by decide +kernel⟩

end Tntsat.Cmdline
