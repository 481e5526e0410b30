import Mathlib.Algebra.Group.Nat.Defs
import Mathlib.Data.List.Count
import Tntsat.ForStd.Slots
import Tntsat.Native.ScteSubtData

/-!
# The messages that the desegmentation hands over

The slots of a message are put together in the order of their numbers, which is the
order of the segments as long as each segment goes to a slot behind those of its
message.  When another message has freed a slot in front of them, the next segment is
put first.

## Key results

- `gather_eq`: what is put together, in terms of the slots' contents
- `step_messages`: what each section does
- `messages_whole`: every interleaving whose segments go to slots behind their own
- `segments_swapped`: a message whose second segment is put first
-/

namespace Tntsat.ScteSubtData

/-! ## Messages -/

/-- A segment of a subtitle message. -/
def IsSegment (pu8Data : List UInt8) : Prop :=
  byteAt pu8Data 0 = 0xC6 ∧ isSegmented pu8Data = true

instance (pu8Data : List UInt8) : Decidable (IsSegment pu8Data) :=
  inferInstanceAs (Decidable (_ ∧ _))

/-- What a segment adds to its message: all behind the nine bytes of its header, and of
    a last segment that is not the only one also the CRC. -/
def body (pu8Data : List UInt8) : List UInt8 :=
  if segmentNumber pu8Data ≠ 0 ∧ segmentNumber pu8Data = lastSegment pu8Data then pu8Data.drop 9
  else (pu8Data.drop 9).take (pu8Data.length - 9 - 4)

/-- The message of some segments: the first one's header with the length of the whole,
    and the bodies. -/
def message (segments : List (List UInt8)) : List UInt8 :=
  let bodies := segments.flatMap body
  match segments with
  | [] => []
  | first :: _ =>
    first.getD 0 0 :: UInt8.ofNat ((bodies.length + 1) >>> 8) :: UInt8.ofNat (bodies.length + 1) ::
      first.getD 3 0 :: bodies

/-! ## The history of a run -/

/-- Sections and what became of them, oldest first. -/
abbrev History := List (Injection × InjectOut)

/-- The segments among some with a table extension. -/
def waiting (segments : List (List UInt8)) (ext : Nat) : List (List UInt8) :=
  segments.filter fun d => tableExtension d == ext

/-- The segments that wait for the last one of their message, after one more section. -/
def nextPending (pending : List (List UInt8)) (pu8Data : List UInt8) : List (List UInt8) :=
  if IsSegment pu8Data then
    if lastSegment pu8Data = segmentNumber pu8Data then
      pending.filter fun d => tableExtension d != tableExtension pu8Data
    else pending ++ [pu8Data]
  else pending

/-- The segments that wait for the last one of their message, oldest first. -/
def pending (h : History) : List (List UInt8) :=
  h.foldl (fun p e => nextPending p e.1.pu8Data) []

theorem pending_snoc (h : History) (e : Injection × InjectOut) :
    pending (h ++ [e]) = nextPending (pending h) e.1.pu8Data := by
  rw [pending, List.foldl_append]
  rfl

/-! ## The conditions -/

/-- The segments of a message come in order, no more than 64 wait, and each has the
    length of one. -/
def InOrder (s : DataRecv × History) (i : Injection) : Prop :=
  IsSegment i.pu8Data → (13 ≤ i.pu8Data.length ∧ i.pu8Data.length ≤ scteSectionMaxSize) ∧
    segmentNumber i.pu8Data = (waiting (pending s.2) (tableExtension i.pu8Data)).length ∧
    (pending s.2).length < mtSectionMaxNum

instance (s : DataRecv × History) (i : Injection) : Decidable (InOrder s i) :=
  inferInstanceAs (Decidable (_ → _))

/-- A segment goes to a slot behind those of its message. -/
def Behind (s : DataRecv × History) (i : Injection) : Prop :=
  IsSegment i.pu8Data → ∀ j < mtSectionMaxNum,
    (s.1.astSCTESection j).belongs (tableExtension i.pu8Data) = true →
      ∀ k ∈ freeSlot s.1.astSCTESection, j < k

instance (s : DataRecv × History) (i : Injection) : Decidable (Behind s i) :=
  inferInstanceAs (Decidable (_ → ∀ j < mtSectionMaxNum, _ → ∀ k ∈ freeSlot _, j < k))

/-! ## The contents of the slots -/

/-- The table extension and the data of a slot in use. -/
def ScteSection.entry (slot : ScteSection) : Option (Nat × List UInt8) :=
  if slot.bUsed then some (slot.u16TableExtention, slot.au8Data) else none

/-- The contents of the slots in use, in their order. -/
def entries (slots : Nat → ScteSection) : List (Nat × List UInt8) :=
  Slots.held ScteSection.entry slots mtSectionMaxNum

/-- The contents with a table extension. -/
def entriesOf (slots : Nat → ScteSection) (ext : Nat) : List (Nat × List UInt8) :=
  (entries slots).filter fun e => e.1 == ext

/-- What a segment puts into its slot. -/
def entryOf (pu8Data : List UInt8) : Nat × List UInt8 :=
  (tableExtension pu8Data, storedBytes pu8Data)

/-- What is put together is the data of the entries. -/
theorem gather_eq (slots : Nat → ScteSection) (ext : Nat) :
    gather slots ext = (entriesOf slots ext).flatMap Prod.snd := by
  unfold gather entriesOf entries Slots.held
  induction List.range mtSectionMaxNum with
  | nil => rfl
  | cons i is ih =>
    rw [List.filter_cons, List.filterMap_cons, ScteSection.entry]
    cases hused : (slots i).bUsed with
    | false => simpa [ScteSection.belongs, hused] using ih
    | true =>
      by_cases hext : (slots i).u16TableExtention = ext
      · simpa [ScteSection.belongs, hused, hext] using ih
      · simpa [ScteSection.belongs, hused, hext] using ih

/-- Clearing a message takes its entries out. -/
theorem entries_clear (slots : Nat → ScteSection) (ext : Nat) :
    entries (clear slots ext) = (entries slots).filter fun e => e.1 != ext := by
  unfold entries Slots.held
  rw [List.filter_filterMap]
  apply List.filterMap_congr
  intro i hi
  have hlt := List.mem_range.mp hi
  unfold clear ScteSection.entry ScteSection.belongs
  cases hused : (slots i).bUsed with
  | false => simp [hused]
  | true =>
    by_cases hext : (slots i).u16TableExtention = ext
    · simp [hext, hlt, Option.filter]
    · simp [hused, hext, Option.filter]

/-- Without a free slot there are as many entries as slots. -/
theorem length_entries_full {slots : Nat → ScteSection} (hfull : freeSlot slots = none) :
    (entries slots).length = mtSectionMaxNum := by
  have hused : ∀ i ∈ List.range mtSectionMaxNum, (slots i).entry =
      (some ∘ fun i => ((slots i).u16TableExtention, (slots i).au8Data)) i := by
    intro i hi
    have hone := List.find?_eq_none.mp hfull i hi
    have hone : (slots i).bUsed = true := by simpa using hone
    exact if_pos hone
  unfold entries Slots.held
  rw [List.filterMap_congr hused, List.filterMap_eq_map, List.length_map, List.length_range]

/-- Lists that agree on each first component are permutations of each other. -/
theorem perm_of_filter_fst {l l' : List (Nat × List UInt8)}
    (h : ∀ ext, (l.filter fun e => e.1 == ext) = l'.filter fun e => e.1 == ext) : l.Perm l' := by
  rw [List.perm_iff_count]
  intro e
  have hkeep : (fun e' : Nat × List UInt8 => e'.1 == e.1) e = true := beq_self_eq_true e.1
  have hcount := congrArg (List.count e) (h e.1)
  rwa [List.count_filter (p := fun e' : Nat × List UInt8 => e'.1 == e.1) hkeep,
    List.count_filter (p := fun e' : Nat × List UInt8 => e'.1 == e.1) hkeep] at hcount

/-! ## The invariant -/

/-- What holds between the sections. -/
structure Inv (s : DataRecv) (h : History) : Prop where
  /-- the slots of a message hold its segments, in their order -/
  slots : ∀ ext, entriesOf s.astSCTESection ext = (waiting (pending h) ext).map entryOf
  /-- the waiting segments of a message are its first ones -/
  numbers : ∀ ext, (waiting (pending h) ext).map segmentNumber =
    List.range (waiting (pending h) ext).length
  lengths : ∀ d ∈ pending h, 13 ≤ d.length ∧ d.length ≤ scteSectionMaxSize
  few : (pending h).length ≤ mtSectionMaxNum
  parser : s.hParse ≠ 0

theorem waiting_append (l l' : List (List UInt8)) (ext : Nat) :
    waiting (l ++ l') ext = waiting l ext ++ waiting l' ext := List.filter_append ..

theorem waiting_self (d : List UInt8) : waiting [d] (tableExtension d) = [d] := by
  simp [waiting]

theorem waiting_other {d : List UInt8} {ext : Nat} (hne : tableExtension d ≠ ext) :
    waiting [d] ext = [] := by
  simp [waiting, hne]

/-- The segments of the other messages go on waiting. -/
theorem waiting_finish (l : List (List UInt8)) (ext ext' : Nat) :
    waiting (l.filter fun d => tableExtension d != ext) ext' =
      if ext' = ext then [] else waiting l ext' := by
  unfold waiting
  rw [List.filter_filter]
  split
  · rename_i heq
    subst heq
    apply List.filter_eq_nil_iff.mpr
    intro d _
    simp
  · rename_i hne
    apply List.filter_congr
    intro d _
    by_cases hd : tableExtension d = ext'
    · simp [hd, hne]
    · simp [hd]

/-- There is a free slot as long as fewer than 64 segments wait. -/
theorem Inv.freeSlot {s : DataRecv} {h : History} (hI : Inv s h)
    (hfew : (pending h).length < mtSectionMaxNum) :
    ∃ i, i < mtSectionMaxNum ∧ freeSlot s.astSCTESection = some i ∧
      (s.astSCTESection i).entry = none := by
  cases hfree : ScteSubtData.freeSlot s.astSCTESection with
  | some i =>
    obtain ⟨hlt, hunused⟩ := Slots.find_spec hfree
    have hunused : (s.astSCTESection i).bUsed = false := by simpa using hunused
    refine ⟨i, hlt, rfl, ?_⟩
    rw [ScteSection.entry, hunused]
    rfl
  | none =>
    have hperm : (entries s.astSCTESection).Perm ((pending h).map entryOf) := by
      apply perm_of_filter_fst
      intro ext
      rw [List.filter_map]
      exact hI.slots ext
    have hlength := hperm.length_eq
    rw [length_entries_full hfree, List.length_map] at hlength
    omega

/-- A segment is stored behind those of its message. -/
theorem entriesOf_store {s : DataRecv} {h : History} (hI : Inv s h) {d : List UInt8}
    (hfew : (pending h).length < mtSectionMaxNum)
    (hbehind : ∀ j < mtSectionMaxNum, (s.astSCTESection j).belongs (tableExtension d) = true →
      ∀ k ∈ freeSlot s.astSCTESection, j < k) (ext : Nat) :
    entriesOf (store s.astSCTESection d) ext = (waiting (pending h ++ [d]) ext).map entryOf := by
  obtain ⟨i, hlt, hfree, hnone⟩ := hI.freeSlot hfew
  obtain ⟨before, behind, hsplit, hinsert, hposition⟩ := Slots.held_insert
    (g := ScteSection.entry) (t := s.astSCTESection)
    (x := { au8Data := storedBytes d, u16TableExtention := tableExtension d, bUsed := true })
    (b := entryOf d) hlt hnone rfl
  have hstore : entriesOf (store s.astSCTESection d) ext =
      (before ++ entryOf d :: behind).filter fun e => e.1 == ext := by
    unfold entriesOf entries store
    rw [hfree]
    exact congrArg (List.filter _) hinsert
  have hbefore := hI.slots ext
  unfold entriesOf entries at hbefore
  rw [hsplit, List.filter_append] at hbefore
  rw [hstore, waiting_append, List.map_append, ← hbefore, List.filter_append, List.filter_cons]
  by_cases hext : tableExtension d = ext
  · subst hext
    -- no slot behind it belongs to the message
    have hnil : (behind.filter fun e => e.1 == tableExtension d) = [] := by
      apply List.filter_eq_nil_iff.mpr
      rintro c hc hsame
      obtain ⟨j, hij, hjlt, hentry⟩ := hposition c hc
      have hbelongs : (s.astSCTESection j).belongs (tableExtension d) = true := by
        unfold ScteSection.entry at hentry
        split at hentry
        · rename_i hused
          have hcj := Option.some.inj hentry
          subst hcj
          simp only [ScteSection.belongs, hused, Bool.true_and]
          exact decide_eq_true (by simpa using hsame)
        · cases hentry
      exact absurd (hbehind j hjlt hbelongs i hfree) (Nat.not_lt.mpr (Nat.le_of_lt hij))
    rw [hnil, waiting_self]
    simp [entryOf]
  · rw [waiting_other hext]
    simp [entryOf, hext]

/-! ## A message is put together -/

theorem storedBytes_eq (d : List UInt8) :
    storedBytes d = (if segmentNumber d = 0 then d.take 4 else []) ++ body d := by
  unfold storedBytes body
  by_cases hfirst : segmentNumber d = 0
  · simp [hfirst]
  · by_cases hlast : segmentNumber d = lastSegment d
    · simp [hfirst, ← hlast]
    · simp [hfirst, hlast]

/-- Only the first segment brings a header. -/
theorem flatMap_storedBytes {segments : List (List UInt8)}
    (hne : ∀ d ∈ segments, segmentNumber d ≠ 0) :
    segments.flatMap storedBytes = segments.flatMap body := by
  induction segments with
  | nil => rfl
  | cons d rest ih =>
    rw [List.flatMap_cons, List.flatMap_cons, storedBytes_eq, if_neg (hne d List.mem_cons_self),
      List.nil_append, ih fun d' hd' => hne d' (List.mem_cons_of_mem _ hd')]

theorem length_body_le {d : List UInt8} (hle : d.length ≤ scteSectionMaxSize) :
    (body d).length ≤ 1015 := by
  unfold scteSectionMaxSize at hle
  unfold body
  split
  · rw [List.length_drop]
    omega
  · rw [List.length_take, List.length_drop]
    omega

theorem length_bodies_le {segments : List (List UInt8)}
    (hle : ∀ d ∈ segments, d.length ≤ scteSectionMaxSize) :
    (segments.flatMap body).length ≤ 1015 * segments.length := by
  induction segments with
  | nil => exact Nat.le_refl _
  | cons d rest ih =>
    have hd := length_body_le (hle d List.mem_cons_self)
    have hrest := ih fun d' hd' => hle d' (List.mem_cons_of_mem _ hd')
    rw [List.flatMap_cons, List.length_append, List.length_cons]
    omega

/-- The four bytes of a header with the length of the section. -/
theorem setLength_header {first bodies : List UInt8} (hlen : 4 ≤ first.length)
    (hsmall : bodies.length < 0x10000) :
    setLength (first.take 4 ++ bodies) (4 + bodies.length) =
      first.getD 0 0 :: UInt8.ofNat ((bodies.length + 1) >>> 8) ::
        UInt8.ofNat (bodies.length + 1) :: first.getD 3 0 :: bodies := by
  obtain ⟨a, b, c, e, rest, rfl⟩ : ∃ a b c e rest, first = a :: b :: c :: e :: rest := by
    match first, hlen with
    | a :: b :: c :: e :: rest, _ => exact ⟨a, b, c, e, rest, rfl⟩
  have hsize : u32sub (4 + bodies.length) 3 = bodies.length + 1 := by
    rw [u32sub_of_le (by omega) (by omega)]
    omega
  unfold setLength
  rw [hsize]
  rfl

/-- The segments of a message in order are put together to the message. -/
theorem message_eq {segments : List (List UInt8)} (hnil : segments ≠ [])
    (hnumbers : segments.map segmentNumber = List.range segments.length)
    (hlengths : ∀ d ∈ segments, 13 ≤ d.length ∧ d.length ≤ scteSectionMaxSize)
    (hfew : segments.length ≤ mtSectionMaxNum) :
    setLength (segments.flatMap storedBytes) (segments.flatMap storedBytes).length =
        message segments ∧
      (segments.flatMap storedBytes).length ≤ mtSectionMaxSize := by
  cases segments with
  | nil => exact absurd rfl hnil
  | cons first rest =>
    rw [List.length_cons, List.range_succ_eq_map, List.map_cons] at hnumbers
    obtain ⟨hfirst, hrest⟩ := List.cons.inj hnumbers
    -- the segments behind the first have other numbers
    have hne : ∀ d ∈ rest, segmentNumber d ≠ 0 := by
      intro d hd hzero
      have hmem : segmentNumber d ∈ (List.range rest.length).map Nat.succ := by
        rw [← hrest]
        exact List.mem_map_of_mem hd
      obtain ⟨k, -, hk⟩ := List.mem_map.mp hmem
      omega
    have hbound := length_bodies_le fun d hd => (hlengths d hd).2
    have hstored : (first :: rest).flatMap storedBytes =
        first.take 4 ++ (first :: rest).flatMap body := by
      rw [List.flatMap_cons, List.flatMap_cons, flatMap_storedBytes hne, storedBytes_eq,
        if_pos hfirst, List.append_assoc]
    have hlen : 4 ≤ first.length := Nat.le_trans (by decide) (hlengths first List.mem_cons_self).1
    have htake : (first.take 4).length = 4 := by
      rw [List.length_take]
      exact Nat.min_eq_left hlen
    unfold mtSectionMaxNum at hfew
    unfold mtSectionMaxSize
    rw [hstored, List.length_append, htake]
    have hsmall : ((first :: rest).flatMap body).length < 0x10000 - 4 := by omega
    exact ⟨setLength_header hlen (Nat.lt_of_lt_of_le hsmall (by decide)), by omega⟩

/-! ## The sections -/

/-- A section that is no segment leaves the slots alone. -/
theorem other_inv {s : DataRecv} {h : History} (hI : Inv s h) {i : Injection}
    (hother : ¬ IsSegment i.pu8Data) :
    Inv (machine.step s i).1 (h ++ [(i, (machine.step s i).2)]) := by
  have hpending : pending (h ++ [(i, (machine.step s i).2)]) = pending h := by
    rw [pending_snoc, nextPending, if_neg hother]
  have hsame : (machine.step s i).1.astSCTESection = s.astSCTESection ∧
      (machine.step s i).1.hParse = s.hParse := by
    show (dataInject s i.pu8Data i.parse).1.astSCTESection = _ ∧
      (dataInject s i.pu8Data i.parse).1.hParse = _
    unfold dataInject
    split
    · exact ⟨rfl, rfl⟩
    · rename_i hvalid
      have hid : byteAt i.pu8Data 0 = 0xC6 := by
        by_contra hid
        exact hvalid (.inr (.inr hid))
      rw [if_neg fun hsegmented => hother ⟨hid, hsegmented⟩]
      exact ⟨rfl, rfl⟩
  exact
    { slots := by rw [hpending, hsame.1]; exact hI.slots
      numbers := by rw [hpending]; exact hI.numbers
      lengths := by rw [hpending]; exact hI.lengths
      few := by rw [hpending]; exact hI.few
      parser := by rw [hsame.2]; exact hI.parser }

/-- A segment gets past the checks of its section. -/
theorem segment_valid {d : List UInt8} (hsegment : IsSegment d)
    (hlen : 13 ≤ d.length ∧ d.length ≤ scteSectionMaxSize) :
    ¬ (d = [] ∨ scteSectionMaxSize < d.length ∨ byteAt d 0 ≠ 0xC6) := by
  rintro (rfl | hlong | hid)
  · exact absurd hlen.1 (by decide)
  · exact Nat.not_lt.mpr hlen.2 hlong
  · exact hid hsegment.1

/-- The segments of the message with the one that has come. -/
def segments (h : History) (d : List UInt8) : List (List UInt8) :=
  waiting (pending h) (tableExtension d) ++ [d]

theorem mem_segments {s : DataRecv} {h : History} (hI : Inv s h) {d : List UInt8}
    (hlen : 13 ≤ d.length ∧ d.length ≤ scteSectionMaxSize) :
    ∀ d' ∈ segments h d, 13 ≤ d'.length ∧ d'.length ≤ scteSectionMaxSize := by
  intro d' hd'
  rcases List.mem_append.mp hd' with hw | hd
  · exact hI.lengths d' (List.mem_filter.mp hw).1
  · rw [List.mem_singleton.mp hd]
    exact hlen

/-- The segments of a message are numbered from 0. -/
theorem segments_numbers {s : DataRecv} {h : History} (hI : Inv s h) {d : List UInt8}
    (hnumber : segmentNumber d = (waiting (pending h) (tableExtension d)).length) :
    (segments h d).map segmentNumber = List.range (segments h d).length := by
  unfold segments
  rw [List.map_append, hI.numbers, List.length_append, List.length_singleton, List.range_succ,
    List.map_singleton, hnumber]

/-- A segment that is not the last one waits with the others. -/
theorem wait_inv {s : DataRecv} {h : History} (hI : Inv s h) {d : List UInt8} {parse : Int}
    (hsegment : IsSegment d) (hlen : 13 ≤ d.length ∧ d.length ≤ scteSectionMaxSize)
    (hnumber : segmentNumber d = (waiting (pending h) (tableExtension d)).length)
    (hfew : (pending h).length < mtSectionMaxNum) (hbehind : Behind (s, h) ⟨d, parse⟩)
    (hmore : lastSegment d ≠ segmentNumber d) :
    (dataInject s d parse).2.parsed = none ∧
      Inv (dataInject s d parse).1 (h ++ [(⟨d, parse⟩, (dataInject s d parse).2)]) := by
  -- the segment is not the last of its table, so it waits with the others
  have hpending : pending (h ++ [(⟨d, parse⟩, (dataInject s d parse).2)]) = pending h ++ [d] := by
    rw [pending_snoc, nextPending, if_pos hsegment, if_neg hmore]
  have hstep : dataInject s d parse = ({ s with astSCTESection := store s.astSCTESection d },
      { ret := if s.u32SectionSize < mtSectionMaxSize then 0 else mtFailure }) := by
    unfold dataInject
    rw [if_neg (segment_valid hsegment hlen), if_pos hsegment.2]
    dsimp only
    rw [if_neg hmore]
  refine ⟨by rw [hstep], ?_⟩
  exact
    { slots := by
        rw [hpending, hstep]
        exact entriesOf_store hI hfew (hbehind hsegment)
      numbers := by
        intro ext
        -- of the tables only the segment's own grows, by the number that is next
        rw [hpending, waiting_append]
        by_cases hext : tableExtension d = ext
        · subst hext
          rw [waiting_self]
          exact segments_numbers hI hnumber
        · rw [waiting_other hext, List.append_nil]
          exact hI.numbers ext
      lengths := by
        intro d' hd'
        rw [hpending] at hd'
        rcases List.mem_append.mp hd' with hp | hd
        · exact hI.lengths d' hp
        · rw [List.mem_singleton.mp hd]
          exact hlen
      few := by
        rw [hpending, List.length_append, List.length_singleton]
        exact hfew
      parser := by
        rw [hstep]
        exact hI.parser }

/-- The last segment: the message is handed over, and its slots are free. -/
theorem finish_inv {s : DataRecv} {h : History} (hI : Inv s h) {d : List UInt8} {parse : Int}
    (hsegment : IsSegment d) (hlen : 13 ≤ d.length ∧ d.length ≤ scteSectionMaxSize)
    (hnumber : segmentNumber d = (waiting (pending h) (tableExtension d)).length)
    (hfew : (pending h).length < mtSectionMaxNum) (hbehind : Behind (s, h) ⟨d, parse⟩)
    (hlast : lastSegment d = segmentNumber d) :
    (dataInject s d parse).2.parsed = some (message (segments h d)) ∧
      Inv (dataInject s d parse).1 (h ++ [(⟨d, parse⟩, (dataInject s d parse).2)]) := by
  have hpending : pending (h ++ [(⟨d, parse⟩, (dataInject s d parse).2)]) =
      (pending h).filter fun d' => tableExtension d' != tableExtension d := by
    rw [pending_snoc, nextPending, if_pos hsegment, if_pos hlast]
  have hgather : gather (store s.astSCTESection d) (tableExtension d) =
      (segments h d).flatMap storedBytes := by
    rw [gather_eq, entriesOf_store hI hfew (hbehind hsegment), waiting_append, waiting_self,
      List.flatMap_map]
    rfl
  have hlength : (segments h d).length ≤ mtSectionMaxNum := by
    have hle : (waiting (pending h) (tableExtension d)).length ≤ (pending h).length :=
      List.length_filter_le ..
    unfold segments
    rw [List.length_append, List.length_singleton]
    omega
  have hnil : segments h d ≠ [] := List.append_ne_nil_of_right_ne_nil _ (List.cons_ne_nil d [])
  obtain ⟨hmessage, hsize⟩ := message_eq hnil (segments_numbers hI hnumber)
    (mem_segments hI hlen) hlength
  have hstep : dataInject s d parse =
      ({ s with
          astSCTESection := clear (store s.astSCTESection d) (tableExtension d)
          u32SectionSize := ((segments h d).flatMap storedBytes).length },
        handOver { s with
            astSCTESection := clear (store s.astSCTESection d) (tableExtension d)
            u32SectionSize := ((segments h d).flatMap storedBytes).length }
          (message (segments h d)) parse) := by
    unfold dataInject
    rw [if_neg (segment_valid hsegment hlen), if_pos hsegment.2]
    dsimp only
    rw [if_pos hlast, hgather, if_neg (Nat.not_lt.mpr hsize), hmessage]
  constructor
  · rw [hstep]
    unfold handOver
    dsimp only
    rw [if_pos hI.parser]
  · exact
      { slots := by
          intro ext
          rw [hpending, hstep, waiting_finish]
          show entriesOf (clear _ _) ext = _
          unfold entriesOf
          rw [entries_clear, List.filter_filter]
          have hstored := entriesOf_store hI hfew (hbehind hsegment) ext
          by_cases hext : ext = tableExtension d
          · rw [if_pos hext]
            subst hext
            apply List.filter_eq_nil_iff.mpr
            intro e _
            simp
          · -- the entries of the other messages stay
            rw [if_neg hext, ← hI.slots ext]
            rw [waiting_append, waiting_other (Ne.symm hext), List.append_nil, ← hI.slots ext]
              at hstored
            rw [← hstored]
            unfold entriesOf
            apply List.filter_congr
            intro e _
            by_cases he : e.1 = ext
            · simp [he, hext]
            · simp [he]
        numbers := by
          intro ext
          rw [hpending, waiting_finish]
          split
          · rfl
          · exact hI.numbers ext
        lengths := by
          intro d' hd'
          rw [hpending] at hd'
          exact hI.lengths d' (List.mem_filter.mp hd').1
        few := by
          rw [hpending]
          exact Nat.le_trans (List.length_filter_le ..) hI.few
        parser := by
          rw [hstep]
          exact hI.parser }

/-! ## Runs -/

/-- What a section promises. -/
structure InjectOk (s : DataRecv × History) (i : Injection) : Prop where
  /-- with the last segment the message is handed over -/
  whole : IsSegment i.pu8Data → lastSegment i.pu8Data = segmentNumber i.pu8Data →
    (machine.step s.1 i).2.parsed = some (message (segments s.2 i.pu8Data))
  /-- its segments are those numbered from 0 to the last -/
  numbers : IsSegment i.pu8Data → lastSegment i.pu8Data = segmentNumber i.pu8Data →
    (segments s.2 i.pu8Data).map segmentNumber = List.range (lastSegment i.pu8Data + 1)
  /-- nothing is handed over before -/
  waits : IsSegment i.pu8Data → lastSegment i.pu8Data ≠ segmentNumber i.pu8Data →
    (machine.step s.1 i).2.parsed = none

/-- One section, in order and behind the slots of its message. -/
theorem step_messages (s : DataRecv × History) (i : Injection) (hI : Inv s.1 s.2)
    (hc : InOrder s i ∧ Behind s i) :
    InjectOk s i ∧ Inv (machine.traced.step s i).1.1 (machine.traced.step s i).1.2 := by
  obtain ⟨s, h⟩ := s
  obtain ⟨d, parse⟩ := i
  by_cases hsegment : IsSegment d
  · obtain ⟨hlen, hnumber, hfew⟩ := hc.1 hsegment
    by_cases hlast : lastSegment d = segmentNumber d
    · obtain ⟨hparsed, hinv⟩ := finish_inv hI hsegment hlen hnumber hfew hc.2 hlast
      refine ⟨⟨fun _ _ => hparsed, fun _ _ => ?_, fun _ hmore => absurd hlast hmore⟩, hinv⟩
      have hlength : (segments h d).length = lastSegment d + 1 := by
        unfold segments
        rw [List.length_append, List.length_singleton, hlast, hnumber]
      exact hlength ▸ segments_numbers hI hnumber
    · obtain ⟨hparsed, hinv⟩ := wait_inv hI hsegment hlen hnumber hfew hc.2 hlast
      exact ⟨⟨fun _ heq => absurd heq hlast, fun _ heq => absurd heq hlast, fun _ _ => hparsed⟩,
        hinv⟩
  · exact ⟨⟨fun hs => absurd hs hsegment, fun hs => absurd hs hsegment,
      fun hs => absurd hs hsegment⟩, other_inv hI hsegment⟩

/-- Every interleaving of messages whose segments come in order and go to slots behind
    those of their message. -/
theorem messages_whole {hParse : Nat} (hne : hParse ≠ 0) (injections : List Injection)
    (horder : machine.traced.Always InOrder (dataCreate hParse, []) injections)
    (hbehind : machine.traced.Always Behind (dataCreate hParse, []) injections) :
    machine.traced.Always InjectOk (dataCreate hParse, []) injections := by
  have hI : Inv (dataCreate hParse) [] :=
    { slots := fun _ => rfl
      numbers := fun _ => rfl
      lengths := nofun
      few := Nat.zero_le _
      parser := hne }
  exact (Machine.always_of_invariant (I := fun s => Inv s.1 s.2) step_messages hI
    (horder.and _ hbehind)).1

/-- A segment with a body of one byte. -/
def segment (ext last number content : UInt8) : Injection where
  pu8Data := [0xC6, 0x30, 14, 0x40, 0, ext, 0, last <<< 4, number, content, 1, 2, 3, 4]

/-- Two messages that interleave, the later one ending first. -/
theorem messages_whole_two :
    machine.traced.Always InjectOk (dataCreate 1, [])
      [segment 1 2 0 10, segment 2 1 0 20, segment 1 2 1 11, segment 2 1 1 21,
        ⟨[0xC6, 0x30, 2, 0, 7], 0⟩] :=
  messages_whole (by decide) _ (by decide +kernel) (by decide +kernel)

/-- Behind a message that has ended there is a free slot in front of the first segment
    of the other one, and the other's second segment is put first. -/
theorem segments_swapped :
    machine.traced.Always InOrder (dataCreate 1, [])
        [segment 1 1 0 10, segment 2 1 0 20, segment 1 1 1 11, segment 2 1 1 21] ∧
      ¬ machine.traced.Always InjectOk (dataCreate 1, [])
        [segment 1 1 0 10, segment 2 1 0 20, segment 1 1 1 11, segment 2 1 1 21] := by
  refine ⟨by decide +kernel, ?_⟩
  rintro ⟨-, -, -, hswapped, -⟩
  exact absurd (hswapped.whole (by decide +kernel) (by decide +kernel)) (by decide +kernel)

end Tntsat.ScteSubtData
