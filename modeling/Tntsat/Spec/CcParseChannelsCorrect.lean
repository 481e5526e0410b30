import Tntsat.Spec.CcParseRepeatCorrect

/-!
# Channel separation

`pairsOf` are the pairs that a stream of triplets delivers to `process_cc608`, and `channelOne`
those of channel 1: a control code belongs to the channel that its first byte selects, every other
pair to the channel of the control code before.

What channel 2 sends has no effect as long as `new_channel` tells the channel of the pairs that
consult it, and as long as no control code of channel 1 comes behind a run of channel 2 that the
filter would have dropped without the run. `Apart` says so of a stream.

## Key results

- `execute_other_channel`: a pair of channel 2 is ignored
- `Tracks.step`: one triplet beside `process_cc608` for the pairs of channel 1 alone
- `screens_eq_of_apart`: streams with the same pairs of channel 1 leave the same screens, modes,
  cursors and drawing calls
-/

namespace Tntsat.CcParse

/-! ## The pairs of a stream -/

/-- The pair of a `0xFC` triplet, or of an SCTE 20 triplet of the first field. -/
def pairOf (top_field_first : Bool) (t : Triplet) : Option Pair :=
  if t.b0 = 0xfc then some (t.b1 &&& 0x7f, t.b2 &&& 0x7f)
  else if isScte20 t ∧ fieldNumber (fieldOrder top_field_first t) t = 0 then
    some (reverse8 t.b1 &&& 0x7f, reverse8 t.b2 &&& 0x7f)
  else none

/-- The field order behind a triplet. -/
def orderBehind (top_field_first : Bool) (t : Triplet) : Bool :=
  if t.b0 = 0xfc then top_field_first else fieldOrder top_field_first t

/-- The pairs of a stream all of whose triplets carry one. -/
def pairsOf : Bool → List Triplet → Option (List Pair)
  | _, [] => some []
  | top_field_first, t :: ts => do
    let p ← pairOf top_field_first t
    let ps ← pairsOf (orderBehind top_field_first t) ts
    some (p :: ps)

/-- A control code of channel 1. -/
def IsFirst (p : Pair) : Prop := 0x10 ≤ p.1 ∧ p.1 ≤ 0x17

/-- A control code of channel 2. -/
def IsSecond (p : Pair) : Prop := 0x18 ≤ p.1 ∧ p.1 ≤ 0x1f

instance (p : Pair) : Decidable (IsFirst p) := inferInstanceAs (Decidable (_ ∧ _))

instance (p : Pair) : Decidable (IsSecond p) := inferInstanceAs (Decidable (_ ∧ _))

/-- Whether the stream is on channel 1 behind a pair. -/
def onFirst (first : Bool) (p : Pair) : Bool :=
  if IsFirst p then true else if IsSecond p then false else first

/-- The pairs of channel 1. -/
def channelOne : Bool → List Pair → List Pair
  | _, [] => []
  | first, p :: ps =>
    if onFirst first p then p :: channelOne (onFirst first p) ps
    else channelOne (onFirst first p) ps

/-! ## Streams that keep the channels apart -/

/-- The value of `new_channel` at a pair: SCTE 20 triplets leave it as it is. -/
def newChannel (new_channel : UInt8) (t : Triplet) (p : Pair) : UInt8 :=
  if t.b0 = 0xfc then channelOf new_channel p.1 else new_channel

/-- The pairs for which `process_cc608` consults `new_channel`: text, and the commands of 0x14, 0x15
and 0x1c. -/
def Consults (p : Pair) : Prop := 0x20 ≤ p.1 ∨ p.1 = 0x14 ∨ p.1 = 0x15 ∨ p.1 = 0x1c

instance (p : Pair) : Decidable (Consults p) := inferInstanceAs (Decidable (_ ∨ _ ∨ _ ∨ _))

/-- What the filter remembers behind a pair of channel 1. -/
def remembered (last : Pair) (p : Pair) : Pair :=
  if p = (0, 0) ∨ p = last then last else prevCmd 1 p.1 p.2

/-- Where `new_channel` is consulted it tells the channel, and no control code of channel 1 behind a
run of channel 2 is the one that the filter would remember without the run. -/
def Apart : UInt8 → Bool → Pair → List Triplet → List Pair → Prop
  | new_channel, first, last, t :: ts, p :: ps =>
    (Consults p → newChannel new_channel t p = if onFirst first p then 1 else 2) ∧
      (first = false → IsFirst p → p ≠ last) ∧
      Apart (newChannel new_channel t p) (onFirst first p)
        (if onFirst first p then remembered last p else last) ts ps
  | _, _, _, _, _ => True

instance decidableApart : ∀ (new_channel : UInt8) (first : Bool) (last : Pair) (ts : List Triplet)
    (ps : List Pair), Decidable (Apart new_channel first last ts ps)
  | _, _, _, [], _ => inferInstanceAs (Decidable True)
  | _, _, _, _ :: _, [] => inferInstanceAs (Decidable True)
  | new_channel, first, last, t :: ts, p :: ps =>
    have := decidableApart (newChannel new_channel t p) (onFirst first p)
      (if onFirst first p then remembered last p else last) ts ps
    inferInstanceAs (Decidable (_ ∧ _ ∧ _))

variable {show_quantity : Int}

/-! ## One triplet -/

/-- A triplet that carries a pair hands it to `process_cc608`. -/
theorem ccTriplet_eq {s : State} {t : Triplet} {p : Pair}
    (h : pairOf s.top_field_first t = some p) :
    ccTriplet show_quantity s t =
      ({ s with
          new_channel := newChannel s.new_channel t p
          top_field_first := orderBehind s.top_field_first t }).pair show_quantity p.1 p.2 := by
  unfold pairOf at h
  unfold ccTriplet newChannel orderBehind
  by_cases hfc : t.b0 = 0xfc
  · rw [if_pos hfc] at h
    cases h
    rw [if_pos hfc, if_pos hfc, if_pos hfc]
  rw [if_neg hfc] at h
  rw [if_neg hfc, if_neg hfc, if_neg hfc]
  by_cases hfirst : isScte20 t ∧ fieldNumber (fieldOrder s.top_field_first t) t = 0
  · rw [if_pos hfirst] at h
    cases h
    rw [if_pos hfirst.1]
    dsimp only
    rw [if_pos hfirst.2]
  · rw [if_neg hfirst] at h
    exact absurd h (Option.some_ne_none p).symm

theorem ccTriplet_of_pairOf {s : State} {t : Triplet} {p : Pair}
    (h : pairOf s.top_field_first t = some p) :
    (ccTriplet show_quantity s t).1 =
      { ccParam := (processCc608 show_quantity (newChannel s.new_channel t p) s.ccParam p.1 p.2).1
        new_channel := newChannel s.new_channel t p
        top_field_first := orderBehind s.top_field_first t } :=
  congrArg Prod.fst (ccTriplet_eq h)

/-! ## Pairs that are ignored, and pairs that are not -/

/-- A pair that belongs to channel 2 is ignored where `new_channel` tells so. -/
theorem execute_other_channel {p : Pair} {new_channel : UInt8} (ctx : ScreenParam)
    (hp : ¬ IsFirst p) (hchannel : Consults p → new_channel = 2) :
    execute show_quantity new_channel ctx p.1 p.2 = some ctx := by
  have hlow : ∀ c : UInt8, 0x10 ≤ c → c ≤ 0x17 → p.1 ≠ c := fun c hge hle heq =>
    hp ⟨heq ▸ hge, heq ▸ hle⟩
  have h10 := hlow 0x10 (by decide) (by decide)
  have h11 := hlow 0x11 (by decide) (by decide)
  have h17 := hlow 0x17 (by decide) (by decide)
  have hpac : ¬ (p.1 ≥ 0x11 ∧ p.1 ≤ 0x17) := fun h => hp ⟨UInt8.le_trans (by decide) h.1, h.2⟩
  have hspecial : ¬ (p.1 ≥ 0x11 ∧ p.1 ≤ 0x13) := fun h => hpac ⟨h.1, UInt8.le_trans h.2 (by decide)⟩
  unfold execute
  rw [if_neg (by rintro (h | h); exacts [h10 h.1, hpac h.1]),
    if_neg (by rintro (h | h); exacts [h11 h.1, h17 h.1])]
  by_cases hmisc : p.1 = 0x14 ∨ p.1 = 0x15 ∨ p.1 = 0x1c
  · have htwo := hchannel (Or.inr hmisc)
    rw [if_pos hmisc, if_pos (by rw [htwo]; decide)]
  rw [if_neg hmisc, if_neg hspecial]
  by_cases htext : p.1 ≥ 0x20
  · have htwo := hchannel (Or.inl htext)
    rw [if_pos htext, if_pos (by rw [htwo]; decide)]
  · rw [if_neg htext, if_neg (fun h => h17 h.1)]

/-- Pairs that do not consult `new_channel` do not depend on it. -/
theorem execute_congr {p : Pair} {new_channel : UInt8} (ctx : ScreenParam)
    (hchannel : Consults p → new_channel = 1) :
    execute show_quantity new_channel ctx p.1 p.2 = execute show_quantity 1 ctx p.1 p.2 := by
  by_cases hconsults : Consults p
  · rw [hchannel hconsults]
  · have hmisc : ¬ (p.1 = 0x14 ∨ p.1 = 0x15 ∨ p.1 = 0x1c) := fun h => hconsults (Or.inr h)
    have htext : ¬ p.1 ≥ 0x20 := fun h => hconsults (Or.inl h)
    unfold execute
    rw [if_neg hmisc, if_neg hmisc, if_neg htext, if_neg htext]

theorem prevCmd_congr {p : Pair} {new_channel : UInt8} (hchannel : Consults p → new_channel = 1) :
    prevCmd new_channel p.1 p.2 = prevCmd 1 p.1 p.2 := by
  unfold prevCmd
  by_cases htext : p.1 ≥ 0x20
  · rw [hchannel (Or.inl htext)]
  · rw [if_neg (fun h => htext h.1), if_neg (fun h => htext h.1)]

/-! ## The pairs of channel 1 alone -/

/-- `process_cc608` for the pairs of channel 1. -/
def play (show_quantity : Int) (ctx : ClosedcpParam) (ps : List Pair) : ClosedcpParam :=
  ps.foldl (fun ctx p => (processCc608 show_quantity 1 ctx p.1 p.2).1) ctx

/-- A stream beside its pairs of channel 1: the screens are the same. On channel 1 the filters
remember the same pair, on channel 2 the stream's remembers no control code of channel 1. -/
structure Tracks (s : State) (first : Bool) (ctx : ClosedcpParam) : Prop where
  screens : s.ccParam.toScreenParam = ctx.toScreenParam
  same : first = true → s.ccParam.prev_cmd = ctx.prev_cmd
  other : first = false → ¬ IsFirst s.ccParam.prev_cmd

/-- What stands behind a pair that passes the filter. -/
theorem processCc608_of_passes {ctx : ClosedcpParam} {new_channel : UInt8} {p : Pair}
    (h : passes ctx p.1 p.2 = true) :
    (processCc608 show_quantity new_channel ctx p.1 p.2).1 =
      { (execute show_quantity new_channel ctx.toScreenParam p.1 p.2).getD ctx.toScreenParam with
        prev_cmd := prevCmd new_channel p.1 p.2 } := by
  rw [processCc608, if_pos h]

theorem passes_iff (ctx : ClosedcpParam) (p : Pair) :
    passes ctx p.1 p.2 = true ↔ p ≠ (0, 0) ∧ p ≠ ctx.prev_cmd := by
  simp only [passes, decide_eq_true_eq, ne_eq, Prod.ext_iff]

/-- The filter remembers the pairs of channel 1 alike. -/
theorem prev_cmd_processCc608 (show_quantity : Int) (ctx : ClosedcpParam) (p : Pair) :
    (processCc608 show_quantity 1 ctx p.1 p.2).1.prev_cmd = remembered ctx.prev_cmd p := by
  unfold remembered
  by_cases hpasses : passes ctx p.1 p.2 = true
  · have hnew := (passes_iff ctx p).mp hpasses
    rw [processCc608_of_passes hpasses, if_neg (not_or.mpr hnew)]
  · have hold := (passes_iff ctx p).not.mp hpasses
    rw [processCc608_of_not_passes (Bool.eq_false_of_not_eq_true hpasses),
      if_pos (by rw [not_and_or, not_not, not_not] at hold; exact hold)]

/-- A pair of channel 1 does the same in the stream and alone. -/
theorem Tracks.step_first {s : State} {first : Bool} {ctx : ClosedcpParam} (h : Tracks s first ctx)
    {t : Triplet} {p : Pair} (hp : pairOf s.top_field_first t = some p)
    (hon : onFirst first p = true) (hconsults : Consults p → newChannel s.new_channel t p = 1)
    (hfresh : first = false → IsFirst p → p ≠ ctx.prev_cmd) :
    Tracks (ccTriplet show_quantity s t).1 true
      (processCc608 show_quantity 1 ctx p.1 p.2).1 := by
  have hpasses : passes s.ccParam p.1 p.2 = passes ctx p.1 p.2 := by
    rw [Bool.eq_iff_iff, passes_iff, passes_iff]
    cases first with
    | true => rw [h.same rfl]
    | false =>
      -- the first pair behind a run is a control code of channel 1
      have hcode : IsFirst p := by
        by_contra hno
        simp [onFirst, hno] at hon
      have hrun : p ≠ s.ccParam.prev_cmd := fun heq => h.other rfl (heq ▸ hcode)
      exact and_congr_right fun _ => iff_of_true hrun (hfresh rfl hcode)
  rw [ccTriplet_of_pairOf hp]
  by_cases hpass : passes ctx p.1 p.2 = true
  · rw [processCc608_of_passes (hpasses.trans hpass), processCc608_of_passes hpass]
    refine ⟨?_, fun _ => prevCmd_congr hconsults, fun hno => absurd hno Bool.noConfusion⟩
    dsimp only
    rw [h.screens, execute_congr _ hconsults]
  · have hno := Bool.eq_false_of_not_eq_true hpass
    rw [processCc608_of_not_passes (hpasses.trans hno), processCc608_of_not_passes hno]
    refine ⟨h.screens, fun _ => ?_, fun hno => absurd hno Bool.noConfusion⟩
    cases first with
    | true => exact h.same rfl
    | false =>
      have hcode : IsFirst p := by
        by_contra hother
        simp [onFirst, hother] at hon
      rw [passes_iff, not_and_or, not_not, not_not] at hpass
      rcases hpass with hzero | hsame
      · exact absurd (hzero ▸ hcode) (by decide)
      · exact absurd hsame (hfresh rfl hcode)

/-- A pair of channel 2 leaves the screens as they are. -/
theorem Tracks.step_second {s : State} {first : Bool} {ctx : ClosedcpParam} (h : Tracks s first ctx)
    {t : Triplet} {p : Pair} (hp : pairOf s.top_field_first t = some p)
    (hon : onFirst first p = false) (hconsults : Consults p → newChannel s.new_channel t p = 2) :
    Tracks (ccTriplet show_quantity s t).1 false ctx := by
  have hno : ¬ IsFirst p := by
    intro hcode
    simp [onFirst, hcode] at hon
  rw [ccTriplet_of_pairOf hp]
  by_cases hpass : passes s.ccParam p.1 p.2 = true
  · rw [processCc608_of_passes hpass]
    refine ⟨?_, fun hyes => absurd hyes Bool.noConfusion, fun _ => ?_⟩
    · dsimp only
      rw [execute_other_channel _ hno hconsults]
      exact h.screens
    · have hkept : prevCmd (newChannel s.new_channel t p) p.1 p.2 = p := by
        refine if_neg fun htext => ?_
        have htwo := hconsults (Or.inl htext.1)
        rw [htwo] at htext
        exact absurd htext.2 (by decide)
      dsimp only
      rw [hkept]
      exact hno
  · rw [processCc608_of_not_passes (Bool.eq_false_of_not_eq_true hpass)]
    refine ⟨h.screens, fun hyes => absurd hyes Bool.noConfusion, fun _ => ?_⟩
    cases first with
    | false => exact h.other rfl
    | true =>
      -- a control code of channel 2 that the filter drops is the one it remembers
      rw [passes_iff, not_and_or, not_not, not_not] at hpass
      rcases hpass with hzero | hsame
      · rw [hzero] at hon
        exact absurd hon (by decide)
      · rw [← hsame]
        exact hno

/-- A stream that keeps the channels apart leaves the screens that its pairs of channel 1 leave
alone. -/
theorem Tracks.run {ts : List Triplet} {ps : List Pair} {s : State} {first : Bool}
    {ctx : ClosedcpParam} (h : Tracks s first ctx) (hps : pairsOf s.top_field_first ts = some ps)
    (happart : Apart s.new_channel first ctx.prev_cmd ts ps) :
    ((machine show_quantity).final s ts).ccParam.toScreenParam =
      (play show_quantity ctx (channelOne first ps)).toScreenParam := by
  induction ts generalizing ps s first ctx with
  | nil =>
    cases hps
    exact h.screens
  | cons t ts ih =>
    obtain ⟨p, hp, hrest⟩ := Option.bind_eq_some_iff.mp hps
    obtain ⟨ps', hps', hcons⟩ := Option.bind_eq_some_iff.mp hrest
    cases hcons
    obtain ⟨hconsults, hfresh, hnext⟩ := happart
    have hstep : (ccTriplet show_quantity s t).1 =
        { ccParam := (processCc608 show_quantity (newChannel s.new_channel t p) s.ccParam p.1 p.2).1
          new_channel := newChannel s.new_channel t p
          top_field_first := orderBehind s.top_field_first t } := ccTriplet_of_pairOf hp
    rw [Machine.final_cons]
    show ((machine show_quantity).final (ccTriplet show_quantity s t).1 ts).ccParam.toScreenParam = _
    cases hon : onFirst first p with
    | true =>
      rw [hon] at hconsults hnext
      rw [if_pos rfl, ← prev_cmd_processCc608 show_quantity ctx p] at hnext
      rw [channelOne, hon, if_pos rfl]
      -- a pair of channel one is played in both
      refine ih (h.step_first hp hon hconsults hfresh) ?_ ?_
      · rw [hstep]
        exact hps'
      · rw [hstep]
        exact hnext
    | false =>
      rw [hon] at hconsults hnext
      rw [channelOne, hon, if_neg Bool.false_ne_true]
      -- another pair changes nothing that channel one shows
      refine ih (h.step_second hp hon hconsults) ?_ ?_
      · rw [hstep]
        exact hps'
      · rw [hstep]
        exact hnext

/-! ## Channel separation -/

/-- The state in front of a stream: nothing is remembered, and the channel is 1. -/
def State.start (ctx : ScreenParam) (top_field_first : Bool) : State where
  ccParam := { ctx with prev_cmd := (0, 0) }
  new_channel := 1
  top_field_first := top_field_first

/-- Streams with the same pairs of channel 1 that keep the channels apart leave the same screens,
modes, cursors and drawing calls. -/
theorem screens_eq_of_apart (show_quantity : Int) (ctx : ScreenParam) (top_field_first : Bool)
    {ts ts' : List Triplet} {ps ps' : List Pair} (hps : pairsOf top_field_first ts = some ps)
    (hps' : pairsOf top_field_first ts' = some ps')
    (hsame : channelOne true ps = channelOne true ps')
    (hapart : Apart 1 true (0, 0) ts ps) (hapart' : Apart 1 true (0, 0) ts' ps') :
    ((machine show_quantity).final (.start ctx top_field_first) ts).ccParam.toScreenParam =
      ((machine show_quantity).final (.start ctx top_field_first) ts').ccParam.toScreenParam := by
  have hstart : Tracks (.start ctx top_field_first) true { ctx with prev_cmd := (0, 0) } :=
    ⟨rfl, fun _ => rfl, fun hno => absurd hno Bool.noConfusion⟩
  rw [hstart.run hps hapart, hstart.run hps' hapart', hsame]

/-- A `0xFC` triplet. -/
def fc (hi lo : UInt8) : Triplet := ⟨0xfc, hi, lo⟩

/-- An SCTE 20 triplet of the first field. -/
def scte20 (hi lo : UInt8) : Triplet := ⟨0x41, reverse8 hi, reverse8 lo⟩

/-- Text of channel 2 in front of a carriage return. -/
theorem screens_eq_of_apart_run :
    ((machine 1).final (.start {} false)
        [fc 0x94 0x29, fc 0x94 0x29, fc 0x61 0x62, fc 0x1c 0x25, fc 0x1c 0x25, fc 0x78 0x79,
          fc 0x94 0x2d, fc 0x94 0x2d]).ccParam.toScreenParam =
      ((machine 1).final (.start {} false)
        [fc 0x94 0x29, fc 0x94 0x29, fc 0x61 0x62, fc 0x94 0x2d,
          fc 0x94 0x2d]).ccParam.toScreenParam :=
  screens_eq_of_apart 1 {} false rfl rfl (by decide) (by decide) (by decide)

/-- Text of channel 2 is written to the screen of channel 1 where it comes in SCTE 20 triplets, and
where a tab of channel 2 stands in front of it. -/
theorem second_channel_written :
    (pairsOf false [scte20 0x14 0x29, scte20 0x14 0x29, scte20 0x1c 0x25, scte20 0x1c 0x25,
        scte20 0x78 0x79]).map (channelOne true) = some [(0x14, 0x29), (0x14, 0x29)] ∧
      ((machine 1).final (.start {} false) [scte20 0x14 0x29, scte20 0x14 0x29, scte20 0x1c 0x25,
        scte20 0x1c 0x25, scte20 0x78 0x79]).ccParam.cursor_column = 2 ∧
      (pairsOf false [fc 0x94 0x29, fc 0x94 0x29, fc 0x1f 0x21, fc 0x1f 0x21,
        fc 0x78 0x79]).map (channelOne true) = some [(0x14, 0x29), (0x14, 0x29)] ∧
      ((machine 1).final (.start {} false) [fc 0x94 0x29, fc 0x94 0x29, fc 0x1f 0x21,
        fc 0x1f 0x21, fc 0x78 0x79]).ccParam.cursor_column = 2 ∧
      ((machine 1).final (.start {} false)
        [fc 0x94 0x29, fc 0x94 0x29]).ccParam.cursor_column = 0 ∧
      ((machine 1).final (.start {} false)
        [scte20 0x14 0x29, scte20 0x14 0x29]).ccParam.cursor_column = 0 := by
  decide

/-- Two backspaces are one, but two where a code of channel 2 comes between them. -/
theorem second_channel_separates :
    (pairsOf false [fc 0x94 0x29, fc 0x94 0x29, fc 0x61 0x62, fc 0x94 0x21, fc 0x94 0x21,
        fc 0x1c 0x25, fc 0x1c 0x25, fc 0x94 0x21, fc 0x94 0x21]).map (channelOne true) =
      pairsOf false [fc 0x94 0x29, fc 0x94 0x29, fc 0x61 0x62, fc 0x94 0x21, fc 0x94 0x21,
        fc 0x94 0x21, fc 0x94 0x21] ∧
      ((machine 1).final (.start {} false) [fc 0x94 0x29, fc 0x94 0x29, fc 0x61 0x62,
        fc 0x94 0x21, fc 0x94 0x21, fc 0x1c 0x25, fc 0x1c 0x25, fc 0x94 0x21,
        fc 0x94 0x21]).ccParam.cursor_column = 0 ∧
      ((machine 1).final (.start {} false) [fc 0x94 0x29, fc 0x94 0x29, fc 0x61 0x62,
        fc 0x94 0x21, fc 0x94 0x21, fc 0x94 0x21,
        fc 0x94 0x21]).ccParam.cursor_column = 1 := by
  decide

end Tntsat.CcParse
