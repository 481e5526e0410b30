import Mathlib.Algebra.Group.Nat.Defs
import Mathlib.Data.Nat.Bitwise
import Tntsat.Spec.ScteSubtLayout

/-!
# The messages of SCTE subtitles

What the layout of a message prescribes, and what its decoding leaves in the output record.  The
upper three bits of the duration are put on its lower ones instead of in front of them, and with
them the bits in front of the field, so that only some durations come out right.

## Key results

- `SimpleBitmap.decode`: the bitmap of a well-formed message is decoded
- `Drawn.colour`: the colour of each pixel of the picture
- `message_iff`: the messages whose record is right
-/

namespace Tntsat.ScteSubtParse

open Store

/-! ## The layout of a message -/

/-- What stands behind the header of a message. -/
def bitmapData (section_ : List UInt8) : List UInt8 := section_.drop 16

/-- How many pixels are in a rectangle. -/
def Rect.size (r : Rect) : Nat := (r.bottom_h - r.top_h) * (r.bottom_v - r.top_v)

/-- A message with a simple bitmap that is coded in some codes.  What stands behind the codes is
    not looked at. -/
structure SimpleBitmap (section_ : List UInt8) (cs : List Code) : Prop where
  table_id : bitField section_ 0 8 = 0xC6
  subtitle_type : bitField section_ 96 4 = 1
  length : section_.length < 4294967296
  bitmap : (bitmapRect (bitmapData section_)).Proper
  frame : (frameRect (bitmapData section_)).Frames (bitmapRect (bitmapData section_))
  codes : codeBits cs <+:
    (bytesBits (bitmapData section_)).drop (codesStart (bitmapData section_))
  covers : (bitmapRect (bitmapData section_)).size ≤
    (expand ((bitmapRect (bitmapData section_)).bottom_h -
      (bitmapRect (bitmapData section_)).top_h) [] cs).length

/-- The pixels of the bitmap, row by row. -/
def pixelsOf (data : List UInt8) (cs : List Code) : List Bool :=
  (expand ((bitmapRect data).bottom_h - (bitmapRect data).top_h) [] cs).take (bitmapRect data).size

/-- The frames per second of a display standard, and the standard. -/
def standardOf : Nat → Nat × DisplayStandard
  | 0 => (30, ._720_480_30)
  | 1 => (25, ._720_576_25)
  | 2 => (60, ._1280_720_60)
  | 3 => (60, ._1920_1080_60)
  | _ => (25, ._720_576_25)

/-- The display standard of a message. -/
def displayStandardOf (section_ : List UInt8) : Nat × DisplayStandard :=
  standardOf (bitField section_ 59 5)

/-- The time in milliseconds at which a message is displayed: at once, or at its time stamp, which
    has begun anew when the clock is past it. -/
def startTime (section_ : List UInt8) (clock : Int) : Nat :=
  let pts := bitField section_ 64 32 / 90
  if bitField section_ 57 1 = 1 then u32OfInt clock
  else if pts < u32OfInt clock then pts + 2 ^ 32 / 90 else pts

/-- The frames for which a message is displayed. -/
def durationFrames (section_ : List UInt8) : Nat := bitField section_ 101 11

/-! ## The picture of a message -/

/-- The room for the outline or shadow. -/
def room (data : List UInt8) : Nat × Nat :=
  let near := bitField data (outlineStart data + 4) 4
  if outlineStyle data = 1 then (near, near)
  else if outlineStyle data = 2 then (bitField data (outlineStart data) 4, near)
  else (0, 0)

/-- The column of the screen in which the picture begins, which may be left of it. -/
def pictureLeft (data : List UInt8) : Int := (frameRect data).top_h - (room data).1

/-- The row of the screen in which the picture begins, which may be above it. -/
def pictureTop (data : List UInt8) : Int := (frameRect data).top_v - (room data).2

/-- The columns of the picture. -/
def pictureWidth (data : List UInt8) : Nat :=
  (frameRect data).bottom_h - (frameRect data).top_h + 2 * (room data).1

/-- The rows of the picture. -/
def pictureHeight (data : List UInt8) : Nat :=
  (frameRect data).bottom_v - (frameRect data).top_v + 2 * (room data).2

/-- A pixel of the bitmap that is on is at a position of the screen. -/
def Character (data : List UInt8) (pixels : List Bool) (x y : Int) : Prop :=
  let r := bitmapRect data
  ∃ bx < r.bottom_h - r.top_h, ∃ by_ < r.bottom_v - r.top_v,
    pixels.getD (by_ * (r.bottom_h - r.top_h) + bx) false = true ∧
      x = r.top_h + bx ∧ y = r.top_v + by_

/-- A position is no further from a character than the outline is thick. -/
def Outlined (data : List UInt8) (pixels : List Bool) (x y : Int) : Prop :=
  outlineStyle data = 1 ∧ ∃ cx cy, Character data pixels cx cy ∧
    (x - cx) * (x - cx) + (y - cy) * (y - cy) ≤ ((room data).1 * (room data).1 : Nat)

/-- A position is in the shadow of a character. -/
def Shadowed (data : List UInt8) (pixels : List Bool) (x y : Int) : Prop :=
  outlineStyle data = 2 ∧ Character data pixels (x - (room data).1) (y - (room data).2)

open Classical in
/-- The colour of a position: characters are in front of their outline or shadow, and these in
    front of the frame. -/
noncomputable def screenColour (data : List UInt8) (pixels : List Bool) (x y : Int) : Nat :=
  if Character data pixels x y then colourAt data 8
  else if Outlined data pixels x y ∨ Shadowed data pixels x y then
    colourAt data (outlineStart data + 8)
  else if isFramed data ≠ 0 then colourAt data 120
  else 0

/-- What a message prescribes for the output record but its duration. -/
structure Shown (section_ : List UInt8) (cs : List Code) (clock : Int) (out : ScteSubtOutput) :
    Prop where
  standard : out.enDispStandard = (displayStandardOf section_).2
  start : out.u32PTS = startTime section_ clock
  top : out.u32TopXPos = (bitmapRect (bitmapData section_)).top_h ∧
    out.u32TopYPos = (bitmapRect (bitmapData section_)).top_v
  bottom : out.u32ButtomXPos = (bitmapRect (bitmapData section_)).bottom_h ∧
    out.u32ButtomYPos = (bitmapRect (bitmapData section_)).bottom_v
  origin : out.u32FrameTopXPos = u32OfInt (pictureLeft (bitmapData section_)) ∧
    out.u32FrameTopYPos = u32OfInt (pictureTop (bitmapData section_))
  size : out.u32BitmapDataLen =
    pictureWidth (bitmapData section_) * pictureHeight (bitmapData section_) * SCTE_SUBT_BPP
  pixels : ∀ x < pictureWidth (bitmapData section_), ∀ y < pictureHeight (bitmapData section_),
    out.pu8SCTESubtData.read
        (y * (pictureWidth (bitmapData section_) * SCTE_SUBT_BPP) + 4 * x) 4 =
      colourBytes (screenColour (bitmapData section_) (pixelsOf (bitmapData section_) cs)
        (pictureLeft (bitmapData section_) + x) (pictureTop (bitmapData section_) + y))

/-- What a message prescribes for the output record. -/
structure Prescribed (section_ : List UInt8) (cs : List Code) (clock : Int)
    (out : ScteSubtOutput) : Prop where
  shown : Shown section_ cs clock out
  duration : out.u32Duration = durationFrames section_ * 1000 / (displayStandardOf section_).1

/-! ## The bitmap is decoded -/

/-- What the decoder knows of the properties when it draws the picture. -/
structure Drawn (data : List UInt8) (out : ScteSubtOutput) (d : Decoding) : Prop where
  known : BitmapKnown data out d
  frame : d.frame = frameRect data
  frameColor : isFramed data ≠ 0 → d.stOutputData.stFramed.u32FrameColor = colourAt data 120
  outline : OutlineKnown data d
  proper : d.Proper

namespace SimpleBitmap

variable {section_ : List UInt8} {cs : List Code} (h : SimpleBitmap section_ cs)

include h

theorem size_pos : 0 < (bitmapRect (bitmapData section_)).size :=
  Nat.mul_pos (Nat.sub_pos_of_lt h.bitmap.1) (Nat.sub_pos_of_lt h.bitmap.2)

/-- There are bits of codes behind the properties. -/
theorem codesStart_lt :
    codesStart (bitmapData section_) < 8 * (bitmapData section_).length := by
  have hpos := h.size_pos
  have hcovers := h.covers
  obtain ⟨tail, hcodes⟩ := h.codes
  cases cs with
  | nil =>
    rw [expand, List.length_nil] at hcovers
    omega
  | cons c cs =>
    have hlength := congrArg List.length hcodes
    have hc := c.bits_length_pos
    rw [codeBits_cons, List.length_append, List.length_append, List.length_drop,
      length_bytesBits] at hlength
    omega

theorem lt_length : 16 < section_.length := by
  have hlt := h.codesStart_lt
  rw [bitmapData, List.length_drop] at hlt
  omega

/-- The bitmap of a well-formed message is decoded to the pixels of its codes. -/
theorem decode (out : ScteSubtOutput) : ∃ d reads,
    decodeSimpleBitmap (section_.drop 16) (u32sub section_.length 16) out =
      some (drawBitmap d (pixelsOf (bitmapData section_) cs) reads) ∧
    Drawn (bitmapData section_) out d := by
  have hlength : u32sub section_.length 16 = (bitmapData section_).length := by
    rw [u32sub_of_le h.lt_length.le h.length, bitmapData, List.length_drop]
  have hstart := h.codesStart_lt
  have hbitmap := h.bitmap
  have hframes := h.frame
  have hcovers := h.covers
  obtain ⟨tail, hcodes⟩ := h.codes
  have hpos := h.size_pos
  rw [hlength]
  change ∃ d reads, decodeSimpleBitmap (bitmapData section_) _ out = _ ∧ _
  generalize bitmapData section_ = data at *
  have hne : data.length ≠ 0 := by omega
  have hstop : propertiesStop data ≤ 8 * data.length ∧ outlineStart data ≤ 8 * data.length ∧
      72 ≤ 8 * data.length := by
    simp only [codesStart, outlineStop, propertiesStop, outlineStart] at hstart ⊢
    split_ifs at hstart ⊢ <;> omega
  obtain ⟨hstop, houtline, h72⟩ := hstop
  obtain ⟨htaken, hknown⟩ := properties_fields data out
  obtain ⟨hknown, hrect⟩ := hknown h72
  obtain ⟨htaken', hknown', hframe'⟩ := readFrame_fields htaken hknown hrect
  obtain ⟨hframe', hcolor⟩ := hframe' houtline
  have hread := readOutline_fields htaken' hknown' houtline
  have hplaced := hread.placed hstop
  rcases decode_cases data hne out with ⟨hproper, -⟩ | ⟨-, hnot, -⟩ |
    ⟨hproper, hin, heq⟩
  · rw [hknown.bitmap] at hproper
    exact absurd hbitmap hproper
  · rw [hknown.bitmap, hframe'] at hnot
    exact absurd (fun _ => hframes) hnot
  · -- The reader is in front of the codes, and the loop reads them.
    have hready : (readOutline (readFrame (properties data data.length out))).bs.Ready := by
      refine ⟨hplaced.left, by rw [hplaced.start, hplaced.stop], ?_⟩
      have hposition := hplaced.position
      have hleft := hplaced.left
      have hend := hplaced.stop
      simp only [BsSub.bitPos] at hposition
      omega
    have hrest : (readOutline (readFrame (properties data data.length out))).bs.rest =
        (bytesBits data).drop (codesStart data) := by
      rw [BsSub.rest, hplaced.start, hplaced.position]
    have hfuel : (readOutline (readFrame (properties data data.length out))).bs.rest.length <
        8 * data.length + 9 := by
      rw [hrest, List.length_drop, length_bytesBits]
      omega
    obtain ⟨t, hloop, -⟩ := bitmapLoop_codes
      ((bitmapRect data).bottom_h - (bitmapRect data).top_h)
      (s := ((readOutline (readFrame (properties data data.length out))).bs, [])) hready
      (Nat.zero_le _) cs (hrest.trans hcodes.symm) hcovers
      hfuel
    have hcodesLoop : codesLoop (readFrame (properties data data.length out)) data.length =
        some (t, pixelsOf data cs) := by
      rw [codesLoop, hknown'.bitmap]
      exact hloop
    rw [hcodesLoop] at heq
    refine ⟨_, t.reads, heq, hread.known, hread.frame.1.trans hframe', fun hframed => ?_,
      hread.outline hstop, properties_proper hproper hin⟩
    rw [hread.frame.2]
    exact hcolor hframed

end SimpleBitmap

/-! ## The picture is drawn -/

namespace Drawn

variable {data : List UInt8} {out : ScteSubtOutput} {d : Decoding} (h : Drawn data out d)

include h

theorem margin : d.margin = room data := by
  unfold Decoding.margin room
  rw [h.known.outline_style]
  dsimp only
  split_ifs with hone htwo
  · rw [h.outline.thickness hone]
  · obtain ⟨hright, hbottom⟩ := h.outline.shadow htwo
    rw [hright, hbottom]
  · rfl

theorem width : d.width = pictureWidth data := by
  rw [Decoding.width, h.frame, h.margin, pictureWidth]

theorem height : d.height = pictureHeight data := by
  rw [Decoding.height, h.frame, h.margin, pictureHeight]

/-- A pixel of the picture is on when it is a character's on the screen. -/
theorem on_iff (pixels : List Bool) (x y : Nat) :
    d.On pixels x y ↔ Character data pixels (pictureLeft data + x) (pictureTop data + y) := by
  have hcolumn : (d.column : Int) = (bitmapRect data).top_h - pictureLeft data := by
    have hle := h.proper.top_h
    rw [h.known.bitmap, h.frame] at hle
    rw [Decoding.column, h.known.bitmap, h.frame, h.margin, pictureLeft]
    omega
  have hrow : (d.row : Int) = (bitmapRect data).top_v - pictureTop data := by
    have hle := h.proper.top_v
    rw [h.known.bitmap, h.frame] at hle
    rw [Decoding.row, h.known.bitmap, h.frame, h.margin, pictureTop]
    omega
  unfold Decoding.On Character
  rw [h.known.bitmap]
  dsimp only
  constructor
  · rintro ⟨bx, hbx, by_, hby, hon, rfl, rfl⟩
    exact ⟨bx, hbx, by_, hby, hon, by omega, by omega⟩
  · rintro ⟨bx, hbx, by_, hby, hon, hx, hy⟩
    exact ⟨bx, hbx, by_, hby, hon, by omega, by omega⟩

/-- A character's position on the screen is a pixel of the picture. -/
theorem exists_pixel {pixels : List Bool} {cx cy : Int} (hc : Character data pixels cx cy) :
    ∃ px py : Nat, cx = pictureLeft data + px ∧ cy = pictureTop data + py := by
  have hleft := h.proper.top_h
  have htop := h.proper.top_v
  rw [h.known.bitmap, h.frame] at hleft htop
  obtain ⟨bx, -, by_, -, -, rfl, rfl⟩ := hc
  refine ⟨((bitmapRect data).top_h + bx - pictureLeft data).toNat,
    ((bitmapRect data).top_v + by_ - pictureTop data).toNat, ?_, ?_⟩
  · simp only [pictureLeft]
    omega
  · simp only [pictureTop]
    omega

/-- A pixel of the picture that is not on is around one that is when it is in the outline or
    shadow of a character. -/
theorem around_iff {pixels : List Bool} {x y : Nat} (hoff : ¬ d.On pixels x y) :
    d.Around pixels x y ↔
      Outlined data pixels (pictureLeft data + x) (pictureTop data + y) ∨
        Shadowed data pixels (pictureLeft data + x) (pictureTop data + y) := by
  unfold Decoding.Around Outlined Shadowed
  rw [h.known.outline_style]
  refine or_congr (and_congr_right fun hone => ?_) (and_congr_right fun htwo => ?_)
  · have hroom : (room data).1 = d.outline_thickness := by
      rw [← h.margin, Decoding.margin, if_pos (h.known.outline_style.trans hone)]
    rw [hroom]
    -- The distance is the same on the screen as in the picture.
    have hsame : ∀ px py : Nat, Within d.outline_thickness (x, y) (px, py) ↔
        (pictureLeft data + x - (pictureLeft data + px)) *
            (pictureLeft data + x - (pictureLeft data + px)) +
          (pictureTop data + y - (pictureTop data + py)) *
            (pictureTop data + y - (pictureTop data + py)) ≤
          (d.outline_thickness * d.outline_thickness : Nat) := by
      intro px py
      rw [Int.add_sub_add_left, Int.add_sub_add_left, Within]
    constructor
    · rintro ⟨⟨px, py⟩, hon, -, hnear⟩
      exact ⟨_, _, (h.on_iff pixels px py).mp hon, (hsame px py).mp hnear⟩
    · rintro ⟨cx, cy, hc, hnear⟩
      obtain ⟨px, py, rfl, rfl⟩ := h.exists_pixel hc
      have hon := (h.on_iff pixels px py).mpr hc
      refine ⟨(px, py), hon, fun heq => hoff ?_, (hsame px py).mpr hnear⟩
      obtain ⟨rfl, rfl⟩ := Prod.mk.inj heq
      exact hon
  · have hroom : room data = (d.shadow_right, d.shadow_bottom) := by
      have hstyle := h.known.outline_style.trans htwo
      rw [← h.margin, Decoding.margin, if_neg (by omega), if_pos hstyle]
    rw [hroom]
    constructor
    · rintro ⟨⟨px, py⟩, hon, heq⟩
      obtain ⟨rfl, rfl⟩ := Prod.mk.inj heq
      have hc := (h.on_iff pixels px py).mp hon
      rw [show pictureLeft data + ((px + d.shadow_right : Nat) : Int) - (d.shadow_right : Nat) =
        pictureLeft data + px by omega, show pictureTop data + ((py + d.shadow_bottom : Nat) : Int) -
          (d.shadow_bottom : Nat) = pictureTop data + py by omega]
      exact hc
    · intro hc
      obtain ⟨px, py, hx, hy⟩ := h.exists_pixel hc
      rw [hx, hy] at hc
      exact ⟨(px, py), (h.on_iff pixels px py).mpr hc, Prod.ext (by dsimp only at hx ⊢; omega)
        (by dsimp only at hy ⊢; omega)⟩

/-- Each pixel of the picture has the colour of its position on the screen. -/
theorem colour (pixels : List Bool) (reads : List Nat) {x y : Nat} (hx : x < pictureWidth data)
    (hy : y < pictureHeight data) :
    (drawBitmap d pixels reads).stOutputData.pu8SCTESubtData.read
        (y * (pictureWidth data * SCTE_SUBT_BPP) + 4 * x) 4 =
      colourBytes (screenColour data pixels (pictureLeft data + x) (pictureTop data + y)) := by
  have hread := h.proper.read_drawStores pixels (m := fun _ => 0) (fun _ => rfl)
    (x := x) (y := y) (h.width ▸ hx) (h.height ▸ hy)
  rw [h.width] at hread
  refine hread.trans (congrArg colourBytes ?_)
  unfold screenColour
  by_cases hon : d.On pixels x y
  · rw [if_pos hon, if_pos ((h.on_iff pixels x y).mp hon), h.known.color]
  · rw [if_neg hon, if_neg fun hc => hon ((h.on_iff pixels x y).mpr hc)]
    by_cases haround : d.Around pixels x y
    · rw [if_pos haround, if_pos ((h.around_iff hon).mp haround)]
      refine h.outline.color ?_
      rw [← h.known.outline_style]
      exact haround.imp And.left And.left
    · rw [if_neg haround, if_neg fun hc => haround ((h.around_iff hon).mpr hc),
        h.known.is_framed]
      split_ifs with hframed
      · exact h.frameColor hframed
      · rfl

end Drawn

/-! ## The header is read -/

theorem displayStandard_eq (n : Nat) : displayStandard n = standardOf n := by
  match n with
  | 0 | 1 | 2 | 3 => rfl
  | n + 4 => simp [displayStandard, standardOf]

/-- The time stamp begins anew after 32 bits. -/
theorem pts_offset : PTS_OFFSET = 2 ^ 32 / 90 := by decide

theorem and_64 (n : Nat) : n &&& 0x40 ≠ 0 ↔ n / 64 % 2 = 1 := by
  have hbit : n &&& 0x40 = (n.testBit 6).toNat * 64 := Nat.and_two_pow n 6
  rw [Nat.testBit_eq_decide_div_mod_eq] at hbit
  rw [hbit]
  by_cases hone : n / 64 % 2 = 1
  · simp [hone]
  · simp [hone]

/-- The duration that is read: both bytes are put on each other. -/
def durationRead (section_ : List UInt8) : Nat :=
  ((section_.getD 12 0).toNat ||| (section_.getD 13 0).toNat) &&& 0x07ff

/-- The flags and the display standard of a header. -/
theorem byte_seven {section_ : List UInt8} (h : 16 < section_.length) :
    ((section_.getD 7 0).toNat &&& 0x40 ≠ 0 ↔ bitField section_ 57 1 = 1) ∧
      (section_.getD 7 0).toNat &&& 0x1f = bitField section_ 59 5 := by
  have hbyte : bitField section_ 56 8 = (section_.getD 7 0).toNat :=
    bitField_byte (n := 7) (by omega)
  have hclear : bitField section_ 56 8 = bitField section_ 56 1 * 128 + bitField section_ 57 7 :=
    bitField_add (j := 1) (k := 7) (by omega)
  have himmediate : bitField section_ 57 7 =
      bitField section_ 57 1 * 64 + bitField section_ 58 6 :=
    bitField_add (j := 1) (k := 6) (by omega)
  have hstandard : bitField section_ 58 6 =
      bitField section_ 58 1 * 32 + bitField section_ 59 5 :=
    bitField_add (j := 1) (k := 5) (by omega)
  have h57 := bitField_lt section_ 57 1
  have h58 := bitField_lt section_ 58 6
  have h59 := bitField_lt section_ 59 5
  have h31 : ∀ v, v &&& 0x1f = v % 32 := fun v => Nat.and_two_pow_sub_one_eq_mod v 5
  rw [and_64, h31, ← hbyte]
  omega

/-- The time stamp of a header. -/
theorem be32_field {section_ : List UInt8} (h : 16 < section_.length) :
    be32 (section_.drop 8) = bitField section_ 64 32 := by
  have hbyte : ∀ k < 4, ((section_.drop 8)[k]?.getD 0).toNat = bitField section_ (64 + 8 * k) 8 := by
    intro k hk
    rw [List.getElem?_drop, ← List.getD_eq_getElem?_getD, ← bitField_byte (by omega)]
    congr 1
    omega
  have h0 : bitField section_ 64 32 =
      bitField section_ 64 8 * 2 ^ 24 + bitField section_ 72 24 :=
    bitField_add (j := 8) (k := 24) (by omega)
  have h1 : bitField section_ 72 24 = bitField section_ 72 8 * 2 ^ 16 + bitField section_ 80 16 :=
    bitField_add (j := 8) (k := 16) (by omega)
  have h2 : bitField section_ 80 16 = bitField section_ 80 8 * 2 ^ 8 + bitField section_ 88 8 :=
    bitField_add (j := 8) (k := 8) (by omega)
  rw [be32, hbyte 0 (by omega), hbyte 1 (by omega), hbyte 2 (by omega), hbyte 3 (by omega), h0, h1,
    h2, Nat.add_assoc, Nat.add_assoc]

/-- What the header leaves in the output record before the bitmap is decoded. -/
theorem parseSection_header {section_ : List UInt8} (h : 16 < section_.length) (clock display : Int)
    (out : ScteSubtOutput) :
    ∃ (out' : ScteSubtOutput) (ret : Int → Int),
      parseSection (some clock) display section_ section_.length out =
        ((decodeSimpleBitmap (section_.drop 16) (u32sub section_.length 16) out').map fun d =>
          { d with ret := ret d.ret }) ∧
      out'.enDispStandard = (displayStandardOf section_).2 ∧
      out'.u32PTS = startTime section_ clock ∧
      out'.u32Duration = durationRead section_ * 1000 / (displayStandardOf section_).1 := by
  obtain ⟨himmediate, hstandard⟩ := byte_seven h
  have hpts := be32_field h
  have hlt := bitField_lt section_ 64 32
  unfold parseSection
  refine ⟨_, fun ret => if ret ≠ MT_SUCCESS ∨ display ≠ MT_SUCCESS then MT_FAILURE else MT_SUCCESS,
    rfl, ?_, ?_, ?_⟩
  · dsimp only
    rw [displayStandard_eq, hstandard]
    rfl
  · dsimp only
    rw [if_congr himmediate rfl rfl, hpts, u32_of_lt (by simp only [PTS_UNITS, pts_offset]; omega),
      pts_offset]
    rfl
  · dsimp only
    rw [displayStandard_eq, hstandard]
    rfl

/-- What drawing the picture changes of the output record. -/
theorem drawBitmap_output (d : Decoding) (pixels : List Bool) (reads : List Nat) :
    (drawBitmap d pixels reads).stOutputData =
      { d.stOutputData with
        u32FrameTopXPos := (pictureFrame d).top_h
        u32FrameTopYPos := (pictureFrame d).top_v
        u32FrameButtomXPos := (pictureFrame d).bottom_h
        u32FrameButtomYPos := (pictureFrame d).bottom_v
        u32BitmapDataLen := u32 (u32sub (pictureFrame d).bottom_h (pictureFrame d).top_h *
          u32sub (pictureFrame d).bottom_v (pictureFrame d).top_v * SCTE_SUBT_BPP)
        pu8SCTESubtData := runAll (fun _ => 0) (drawStores d pixels) } := rfl

/-- Where the picture that is drawn is on the screen, and its length. -/
theorem Drawn.place {data : List UInt8} {out : ScteSubtOutput} {d : Decoding}
    (h : Drawn data out d) (pixels : List Bool) (reads : List Nat) :
    ((drawBitmap d pixels reads).stOutputData.u32FrameTopXPos = u32OfInt (pictureLeft data) ∧
      (drawBitmap d pixels reads).stOutputData.u32FrameTopYPos = u32OfInt (pictureTop data)) ∧
    (drawBitmap d pixels reads).stOutputData.u32BitmapDataLen =
      pictureWidth data * pictureHeight data * SCTE_SUBT_BPP := by
  have hsub : ∀ a b : Nat, b ≤ 4294967296 → u32sub a b = u32OfInt ((a : Int) - b) := by
    intro a b hb
    simp only [u32sub, u32, u32OfInt]
    omega
  obtain ⟨hright, hbottom⟩ := h.proper.margin_lt
  obtain ⟨hwidth, hheight, -, -⟩ := h.proper.pictureFrame
  have hleft : (pictureFrame d).top_h = u32sub d.frame.top_h d.margin.1 := rfl
  have htop : (pictureFrame d).top_v = u32sub d.frame.top_v d.margin.2 := rfl
  rw [drawBitmap_output]
  dsimp only
  refine ⟨⟨?_, ?_⟩, ?_⟩
  · rw [hleft, hsub _ _ (by omega), h.frame, h.margin, pictureLeft]
  · rw [htop, hsub _ _ (by omega), h.frame, h.margin, pictureTop]
  · rw [hwidth, hheight, u32_of_lt h.proper.size_lt, h.width, h.height]

/-- What is known of the bitmap stays in the output record when the picture is drawn. -/
theorem Drawn.kept {data : List UInt8} {out : ScteSubtOutput} {d : Decoding}
    (h : Drawn data out d) (pixels : List Bool) (reads : List Nat) :
    ((drawBitmap d pixels reads).stOutputData.u32TopXPos = (bitmapRect data).top_h ∧
      (drawBitmap d pixels reads).stOutputData.u32TopYPos = (bitmapRect data).top_v) ∧
    ((drawBitmap d pixels reads).stOutputData.u32ButtomXPos = (bitmapRect data).bottom_h ∧
      (drawBitmap d pixels reads).stOutputData.u32ButtomYPos = (bitmapRect data).bottom_v) ∧
    (drawBitmap d pixels reads).stOutputData.enDispStandard = out.enDispStandard ∧
    (drawBitmap d pixels reads).stOutputData.u32PTS = out.u32PTS ∧
    (drawBitmap d pixels reads).stOutputData.u32Duration = out.u32Duration := by
  rw [drawBitmap_output]
  dsimp only
  exact ⟨h.known.top, h.known.bottom, h.known.standard, h.known.time⟩

/-- A well-formed message is decoded, and all but its duration is right. -/
theorem SimpleBitmap.parse {section_ : List UInt8} {cs : List Code} (h : SimpleBitmap section_ cs)
    (clock display : Int) (out : ScteSubtOutput) :
    ∃ d, parseSection (some clock) display section_ section_.length out = some d ∧
      Shown section_ cs clock d.stOutputData ∧
      d.stOutputData.u32Duration =
        durationRead section_ * 1000 / (displayStandardOf section_).1 := by
  obtain ⟨out', ret, hparse, hstandard, hstart, hduration⟩ :=
    parseSection_header h.lt_length clock display out
  obtain ⟨d, reads, hdecode, hdrawn⟩ := h.decode out'
  rw [hdecode, Option.map_some] at hparse
  obtain ⟨htop, hbottom, hstandard', hstart', hduration'⟩ :=
    hdrawn.kept (pixelsOf (bitmapData section_) cs) reads
  have hplace := hdrawn.place (pixelsOf (bitmapData section_) cs) reads
  exact ⟨_, hparse,
    { standard := hstandard'.trans hstandard
      start := hstart'.trans hstart
      top := htop
      bottom := hbottom
      origin := hplace.1
      size := hplace.2
      pixels := fun x hx y hy => hdrawn.colour _ reads hx hy },
    hduration'.trans hduration⟩

/-! ## The duration -/

/-- The durations that come out right: the upper bits are zero, and the bits in front of the field
    do not change the lower ones. -/
def DurationKept (section_ : List UInt8) : Prop :=
  durationFrames section_ < 256 ∧ (durationFrames section_).testBit 4 = true ∧
    (bitField section_ 100 1 = 1 → (durationFrames section_).testBit 3 = true)

instance (section_ : List UInt8) : Decidable (DurationKept section_) :=
  inferInstanceAs (Decidable (_ ∧ _ ∧ (_ → _)))

/-- A bit is put on a number that has it. -/
theorem two_pow_or_eq_iff (i n : Nat) : 2 ^ i ||| n = n ↔ n.testBit i = true := by
  constructor
  · intro h
    rw [← h, Nat.testBit_or, Nat.testBit_two_pow_self, Bool.true_or]
  · intro h
    refine Nat.eq_of_testBit_eq fun j => ?_
    rw [Nat.testBit_or, Nat.testBit_two_pow]
    by_cases hij : i = j
    · rw [← hij, h, Bool.or_true]
    · rw [decide_eq_false hij, Bool.false_or]

/-- Two bits are put on a number that has both. -/
theorem two_bits_or_eq_iff (n : Nat) :
    24 ||| n = n ↔ n.testBit 4 = true ∧ n.testBit 3 = true := by
  constructor
  · intro h
    rw [← h, Nat.testBit_or, Nat.testBit_or]
    exact ⟨rfl, rfl⟩
  · rintro ⟨h4, h3⟩
    have hboth : (24 : Nat) = 2 ^ 4 ||| 2 ^ 3 := rfl
    rw [hboth, Nat.or_assoc, (two_pow_or_eq_iff 3 n).mpr h3, (two_pow_or_eq_iff 4 n).mpr h4]

/-- The bytes of the duration put on each other are the duration. -/
theorem durationRead_eq_iff {section_ : List UInt8} (h : 16 < section_.length)
    (htype : bitField section_ 96 4 = 1) :
    durationRead section_ = durationFrames section_ ↔ DurationKept section_ := by
  have hbyte12 : bitField section_ 96 8 = (section_.getD 12 0).toNat :=
    bitField_byte (n := 12) (by omega)
  have hbyte13 : bitField section_ 104 8 = (section_.getD 13 0).toNat :=
    bitField_byte (n := 13) (by omega)
  have hfront : bitField section_ 96 8 = bitField section_ 96 4 * 16 + bitField section_ 100 4 :=
    bitField_add (j := 4) (k := 4) (by omega)
  have hreserved : bitField section_ 100 4 =
      bitField section_ 100 1 * 8 + bitField section_ 101 3 :=
    bitField_add (j := 1) (k := 3) (by omega)
  have hframes : bitField section_ 101 11 =
      bitField section_ 101 3 * 256 + bitField section_ 104 8 :=
    bitField_add (j := 3) (k := 8) (by omega)
  have h1 := bitField_lt section_ 100 1
  have h3 := bitField_lt section_ 101 3
  have h8 := bitField_lt section_ 104 8
  have hread : durationRead section_ = bitField section_ 96 8 ||| bitField section_ 104 8 := by
    have hor : bitField section_ 96 8 ||| bitField section_ 104 8 < 2 ^ 8 :=
      Nat.or_lt_two_pow (bitField_lt section_ 96 8) h8
    rw [durationRead, ← hbyte12, ← hbyte13]
    exact Nat.and_two_pow_sub_one_of_lt_two_pow (n := 11) (by omega)
  have hlt : durationRead section_ < 256 :=
    hread ▸ Nat.or_lt_two_pow (n := 8) (bitField_lt section_ 96 8) h8
  unfold DurationKept durationFrames
  rw [hframes]
  by_cases hzero : bitField section_ 101 3 = 0
  · rw [hread, hfront, htype, hreserved, hzero, Nat.zero_mul, Nat.zero_add, Nat.add_zero]
    -- The bits in front of the field are those of 16, or of 24 with the reserved bit.
    rcases Nat.lt_or_ge (bitField section_ 100 1) 1 with hlow | hhigh
    · obtain hnone : bitField section_ 100 1 = 0 := by omega
      have hone := two_pow_or_eq_iff 4 (bitField section_ 104 8)
      simp only [hnone, Nat.zero_mul, Nat.add_zero, Nat.one_mul, Nat.zero_ne_one, false_imp_iff,
        and_true]
      exact hone.trans ⟨fun hbit => ⟨h8, hbit⟩, And.right⟩
    · obtain hset : bitField section_ 100 1 = 1 := by omega
      have htwo := two_bits_or_eq_iff (bitField section_ 104 8)
      simp only [hset, Nat.one_mul, true_imp_iff]
      exact htwo.trans ⟨fun hbits => ⟨h8, hbits⟩, And.right⟩
  · constructor
    · intro heq
      omega
    · rintro ⟨hsmall, -⟩
      omega

/-- Durations in milliseconds are the same when they have the same frames. -/
theorem duration_ms_iff (section_ : List UInt8) (a b : Nat) :
    a * 1000 / (displayStandardOf section_).1 = b * 1000 / (displayStandardOf section_).1 ↔
      a = b := by
  have hrate : (displayStandardOf section_).1 = 25 ∨ (displayStandardOf section_).1 = 30 ∨
      (displayStandardOf section_).1 = 60 := by
    unfold displayStandardOf standardOf
    split <;> simp
  rcases hrate with hrate | hrate | hrate
  · rw [hrate]
    omega
  · rw [hrate]
    omega
  · rw [hrate]
    omega

/-! ## Messages -/

/-- A well-formed message leaves in the output record what its layout prescribes exactly when its
    duration is one that comes out right. -/
theorem message_iff {section_ : List UInt8} {cs : List Code} (h : SimpleBitmap section_ cs)
    (clock display : Int) (out : ScteSubtOutput) :
    (∃ d, parseSection (some clock) display section_ section_.length out = some d ∧
      Prescribed section_ cs clock d.stOutputData) ↔ DurationKept section_ := by
  obtain ⟨d, hparse, hshown, hduration⟩ := h.parse clock display out
  rw [← durationRead_eq_iff h.lt_length h.subtitle_type, ← duration_ms_iff section_]
  constructor
  · rintro ⟨d', hparse', hprescribed⟩
    obtain rfl := Option.some.inj (hparse.symm.trans hparse')
    exact hduration.symm.trans hprescribed.duration
  · intro hsame
    exact ⟨d, hparse, hshown, hduration.trans hsame⟩

/-- A message that shows one pixel for some frames. -/
def onePixel (frames : UInt8) : List UInt8 :=
  [0xC6, 0x30, 0x1D, 0x00, 0x65, 0x6E, 0x67, 0x20, 0, 0, 0, 0, 0x18, frames, 0, 0x0C] ++
    [0xF8, 0xFC, 0, 0, 0, 0, 0, 0x10, 0x01, 0, 0x01, 0x22] ++ [0, 0, 0, 0]

theorem onePixel_wellFormed {frames : UInt8} (h : frames = 30 ∨ frames = 100) :
    SimpleBitmap (onePixel frames) [.on 1] := by
  rcases h with rfl | rfl
  · exact ⟨by decide, by decide, by decide, by decide, by decide, by decide, by decide⟩
  · exact ⟨by decide, by decide, by decide, by decide, by decide, by decide, by decide⟩

theorem message_onePixel : ∃ d,
    parseSection (some 0) 0 (onePixel 30) (onePixel 30).length {} = some d ∧
      Prescribed (onePixel 30) [.on 1] 0 d.stOutputData :=
  (message_iff (onePixel_wellFormed (.inl rfl)) 0 0 {}).mpr (by decide)

/-- A message of 100 frames is shown for 124. -/
theorem hundred_frames_wrong : ¬ ∀ (section_ : List UInt8) (cs : List Code) (clock display : Int)
    (out : ScteSubtOutput), SimpleBitmap section_ cs →
      ∃ d, parseSection (some clock) display section_ section_.length out = some d ∧
        Prescribed section_ cs clock d.stOutputData := by
  intro h
  obtain ⟨d, hparse, hprescribed⟩ := h (onePixel 100) [.on 1] 0 0 {} (onePixel_wellFormed (.inr rfl))
  obtain ⟨d', hparse', -, hduration⟩ := (onePixel_wellFormed (.inr rfl)).parse 0 0 {}
  obtain rfl := Option.some.inj (hparse.symm.trans hparse')
  exact absurd (hduration.symm.trans hprescribed.duration) (by decide)

end Tntsat.ScteSubtParse
