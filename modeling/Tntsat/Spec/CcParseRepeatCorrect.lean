import Tntsat.Native.CcParse

/-!
# Doubled control codes

A control code is transmitted twice, and the filter of `process_cc608` drops a pair that equals the
pair before. Text clears what it remembers, a dropped repetition does not: `kept` says which
occurrences are executed.

## Key results

- `executed_eq_kept`: the occurrences that are executed
- `executed_once_iff`: each is executed once in exactly the streams in which no occurrence equals
  the one before with nothing but null pairs between them
-/

namespace Tntsat.CcParse

/-! ## Streams of pairs -/

/-- Two bytes without their parity bits. -/
abbrev Pair := UInt8 × UInt8

/-- A control code. -/
structure ControlCode where
  hi : UInt8
  lo : UInt8
  hi_ge : 0x10 ≤ hi
  hi_le : hi ≤ 0x1f
  lo_ge : 0x20 ≤ lo
  lo_le : lo ≤ 0x7f
deriving DecidableEq

/-- Two characters, or one. -/
structure TextPair where
  hi : UInt8
  lo : UInt8
  hi_ge : 0x20 ≤ hi
  hi_le : hi ≤ 0x7f
  lo_le : lo ≤ 0x7f
deriving DecidableEq

def ControlCode.pair (c : ControlCode) : Pair := (c.hi, c.lo)

def TextPair.pair (p : TextPair) : Pair := (p.hi, p.lo)

/-- What a stream is made of: occurrences of control codes, text and null pairs. -/
inductive Item
  | control (c : ControlCode)
  | text (p : TextPair)
  | null
deriving DecidableEq

/-- The pairs that are transmitted, a control code twice. -/
def Item.pairs : Item → List Pair
  | .control c => [c.pair, c.pair]
  | .text p => [p.pair]
  | .null => [(0, 0)]

/-- The occurrences of control codes. -/
def occurrences : List Item → List Pair
  | [] => []
  | .control c :: items => c.pair :: occurrences items
  | _ :: items => occurrences items

/-! ## What the filter lets pass -/

/-- `process_cc608` for a stream of channel 1; the output is the pair that is passed on to be
executed. -/
def pairMachine (show_quantity : Int) : Machine ClosedcpParam Pair (Option Pair) where
  step ctx p :=
    ((processCc608 show_quantity 1 ctx p.1 p.2).1, if passes ctx p.1 p.2 then some p else none)

def isControl (p : Pair) : Bool := 0x10 ≤ p.1 ∧ p.1 ≤ 0x1f

/-- The control codes that are executed. -/
def executed (show_quantity : Int) (ctx : ClosedcpParam) (items : List Item) : List Pair :=
  ((pairMachine show_quantity).outputs ctx (items.flatMap Item.pairs)).filterMap
    (Option.filter isControl)

/-- The occurrences that differ from the pair that the filter remembers. -/
def kept : Pair → List Item → List Pair
  | _, [] => []
  | last, .control c :: items =>
    if c.pair = last then kept last items else c.pair :: kept c.pair items
  | _, .text _ :: items => kept (0, 0) items
  | last, .null :: items => kept last items

/-- No occurrence equals the one before with nothing but null pairs between them. -/
def Separated : Pair → List Item → Prop
  | _, [] => True
  | last, .control c :: items => c.pair ≠ last ∧ Separated c.pair items
  | _, .text _ :: items => Separated (0, 0) items
  | last, .null :: items => Separated last items

variable {show_quantity : Int}

theorem ControlCode.isControl (c : ControlCode) : CcParse.isControl c.pair = true := by
  simp [CcParse.isControl, ControlCode.pair, c.hi_ge, c.hi_le]

theorem TextPair.not_isControl (p : TextPair) : CcParse.isControl p.pair = false := by
  have hge : ¬ p.hi ≤ 0x1f := by
    have h := p.hi_ge
    rw [UInt8.le_iff_toNat_le] at h ⊢
    simp at h ⊢
    omega
  simp [CcParse.isControl, TextPair.pair, hge]

theorem ControlCode.ne_zero (c : ControlCode) : ¬ (c.hi = 0 ∧ c.lo = 0) := by
  intro h
  exact absurd (h.1 ▸ c.hi_ge) (by decide)

theorem TextPair.ne_zero (p : TextPair) : ¬ (p.hi = 0 ∧ p.lo = 0) := by
  intro h
  exact absurd (h.1 ▸ p.hi_ge) (by decide)

/-- A control code passes unless the filter remembers it. -/
theorem passes_control (ctx : ClosedcpParam) (c : ControlCode) :
    passes ctx c.hi c.lo = true ↔ c.pair ≠ ctx.prev_cmd := by
  simp only [passes, decide_eq_true_eq]
  exact and_iff_right c.ne_zero

/-- What the filter remembers of a control code that has passed. -/
theorem prev_cmd_control {ctx : ClosedcpParam} {c : ControlCode} {new_channel : UInt8}
    (h : c.pair ≠ ctx.prev_cmd) :
    (processCc608 show_quantity new_channel ctx c.hi c.lo).1.prev_cmd = c.pair := by
  have hlt : ¬ c.hi ≥ 0x20 := by
    have hle := c.hi_le
    rw [ge_iff_le, UInt8.le_iff_toNat_le] at *
    simp at hle ⊢
    omega
  rw [processCc608, if_pos ((passes_control ctx c).mpr h)]
  exact if_neg fun hand => hlt hand.1

/-- Nothing changes where a pair does not pass. -/
theorem processCc608_of_not_passes {ctx : ClosedcpParam} {new_channel hi lo : UInt8}
    (h : passes ctx hi lo = false) :
    processCc608 show_quantity new_channel ctx hi lo = (ctx, true) := by
  rw [processCc608, if_neg (by rw [h]; exact Bool.false_ne_true)]

theorem executed_cons (ctx : ClosedcpParam) (item : Item) (items : List Item) :
    executed show_quantity ctx (item :: items) =
      ((pairMachine show_quantity).outputs ctx item.pairs).filterMap (Option.filter isControl) ++
        executed show_quantity ((pairMachine show_quantity).final ctx item.pairs) items := by
  rw [executed, List.flatMap_cons, Machine.outputs_append, List.filterMap_append]
  rfl

variable (show_quantity) in
/-- A control code transmitted twice is executed once, unless the filter remembers it. -/
theorem executed_control (ctx : ClosedcpParam) (c : ControlCode) :
    ((pairMachine show_quantity).outputs ctx [c.pair, c.pair]).filterMap (Option.filter isControl) =
        (if c.pair = ctx.prev_cmd then [] else [c.pair]) ∧
      ((pairMachine show_quantity).final ctx [c.pair, c.pair]).prev_cmd = c.pair := by
  have hstep : ∀ ctx, (pairMachine show_quantity).step ctx c.pair =
      ((processCc608 show_quantity 1 ctx c.hi c.lo).1,
        if passes ctx c.hi c.lo then some c.pair else none) := fun _ => rfl
  have hdropped : ∀ ctx : ClosedcpParam, c.pair = ctx.prev_cmd →
      (pairMachine show_quantity).step ctx c.pair = (ctx, none) := by
    intro ctx hsame
    have hpasses : passes ctx c.hi c.lo = false := by
      rw [Bool.eq_false_iff, ne_eq, passes_control]
      exact not_not.mpr hsame
    rw [hstep, hpasses, processCc608_of_not_passes hpasses]
    rfl
  simp only [Machine.outputs_cons, Machine.outputs_nil, Machine.final_cons, Machine.final_nil]
  by_cases hsame : c.pair = ctx.prev_cmd
  · -- both copies are dropped
    rw [hdropped ctx hsame, hdropped ctx hsame, if_pos hsame]
    exact ⟨rfl, hsame.symm⟩
  · -- the first copy is executed, and remembered for the second
    have hfirst : (pairMachine show_quantity).step ctx c.pair =
        ((processCc608 show_quantity 1 ctx c.hi c.lo).1, some c.pair) := by
      rw [hstep, if_pos ((passes_control ctx c).mpr hsame)]
    have hprev : (processCc608 show_quantity 1 ctx c.hi c.lo).1.prev_cmd = c.pair :=
      prev_cmd_control hsame
    rw [hfirst, hdropped _ hprev.symm, if_neg hsame]
    refine ⟨?_, hprev⟩
    simp [Option.filter, c.isControl]

variable (show_quantity) in
/-- Text is not counted, and clears what the filter remembers. -/
theorem executed_text (ctx : ClosedcpParam) (p : TextPair)
    (hprev : ctx.prev_cmd = (0, 0) ∨ isControl ctx.prev_cmd = true) :
    ((pairMachine show_quantity).outputs ctx [p.pair]).filterMap (Option.filter isControl) = [] ∧
      ((pairMachine show_quantity).final ctx [p.pair]).prev_cmd = (0, 0) := by
  have hne : p.pair ≠ ctx.prev_cmd := by
    intro hsame
    rcases hprev with hzero | hcontrol
    · exact p.ne_zero (Prod.mk.inj (hsame.trans hzero))
    · rw [← hsame, p.not_isControl] at hcontrol
      exact Bool.noConfusion hcontrol
  have hpasses : passes ctx p.hi p.lo = true := by
    simp only [passes, decide_eq_true_eq]
    exact ⟨p.ne_zero, hne⟩
  have hstep : (pairMachine show_quantity).step ctx p.pair =
      ((processCc608 show_quantity 1 ctx p.hi p.lo).1, some p.pair) := by
    show (_, if passes ctx p.hi p.lo then some p.pair else none) = _
    rw [if_pos hpasses]
    rfl
  simp only [Machine.outputs_cons, Machine.outputs_nil, Machine.final_cons, Machine.final_nil]
  rw [hstep]
  constructor
  · simp [Option.filter, p.not_isControl]
  · rw [processCc608, if_pos hpasses]
    exact if_pos ⟨p.hi_ge, rfl⟩

variable (show_quantity) in
/-- A null pair changes nothing. -/
theorem executed_null (ctx : ClosedcpParam) :
    (pairMachine show_quantity).outputs ctx [(0, 0)] = [none] ∧
      (pairMachine show_quantity).final ctx [(0, 0)] = ctx :=
  ⟨rfl, rfl⟩

/-- The occurrences that are executed are those that differ from what the filter remembers. -/
theorem executed_eq_kept (items : List Item) (ctx : ClosedcpParam)
    (hprev : ctx.prev_cmd = (0, 0) ∨ isControl ctx.prev_cmd = true) :
    executed show_quantity ctx items = kept ctx.prev_cmd items := by
  induction items generalizing ctx with
  | nil => rfl
  | cons item items ih =>
    rw [executed_cons]
    cases item with
    | control c =>
      obtain ⟨hout, hnext⟩ := executed_control show_quantity ctx c
      rw [Item.pairs, hout, ih _ (Or.inr (by rw [hnext, c.isControl])), hnext, kept]
      split
      case isTrue hsame => rw [hsame]; rfl
      case isFalse => rfl
    | text p =>
      obtain ⟨hout, hnext⟩ := executed_text show_quantity ctx p hprev
      rw [Item.pairs, hout, ih _ (Or.inl hnext), hnext]
      rfl
    | null =>
      obtain ⟨hout, hnext⟩ := executed_null show_quantity ctx
      rw [Item.pairs, hout, hnext, ih ctx hprev]
      rfl

/-! ## Executed once -/

theorem length_kept_le (last : Pair) (items : List Item) :
    (kept last items).length ≤ (occurrences items).length := by
  induction items generalizing last with
  | nil => exact Nat.le_refl _
  | cons item items ih =>
    cases item with
    | control c =>
      have hrest := ih last
      have hnext := ih c.pair
      rw [kept]
      split <;> simp only [occurrences, List.length_cons] <;> omega
    | text p => exact ih (0, 0)
    | null => exact ih last

/-- All occurrences are kept where they are separated. -/
theorem kept_eq_occurrences_iff (last : Pair) (items : List Item) :
    kept last items = occurrences items ↔ Separated last items := by
  induction items generalizing last with
  | nil => exact ⟨fun _ => trivial, fun _ => rfl⟩
  | cons item items ih =>
    cases item with
    | control c =>
      rw [kept, occurrences, Separated]
      by_cases hsame : c.pair = last
      · rw [if_pos hsame]
        constructor
        · intro heq
          have hlen := congrArg List.length heq
          have hle := length_kept_le last items
          rw [List.length_cons] at hlen
          omega
        · exact fun h => absurd hsame h.1
      · rw [if_neg hsame, List.cons.injEq, ih]
        exact ⟨fun h => ⟨hsame, h.2⟩, fun h => ⟨rfl, h.2⟩⟩
    | text p => exact ih (0, 0)
    | null => exact ih last

/-- Every occurrence of a control code is executed once, in order, in exactly the streams in which
occurrences are separated. -/
theorem executed_once_iff (show_quantity : Int) (ctx : ScreenParam) (items : List Item) :
    executed show_quantity { ctx with prev_cmd := (0, 0) } items = occurrences items ↔
      Separated (0, 0) items := by
  rw [executed_eq_kept items _ (Or.inl rfl), kept_eq_occurrences_iff]

/-- The code for a carriage return. -/
def carriageReturn : ControlCode :=
  ⟨0x14, 0x2d, by decide, by decide, by decide, by decide⟩

/-- Of two carriage returns behind each other, one is executed. -/
theorem carriageReturn_executed_once :
    executed 1 {} [.control carriageReturn, .control carriageReturn] = [(0x14, 0x2d)] ∧
      occurrences [.control carriageReturn, .control carriageReturn] =
        [(0x14, 0x2d), (0x14, 0x2d)] ∧
      ¬ Separated (0, 0) [.control carriageReturn, .control carriageReturn] := by
  refine ⟨by decide, by decide, fun h => ?_⟩
  exact h.2.1 rfl

end Tntsat.CcParse
