import Tntsat.Spec.ScteSubtBits
import Tntsat.Spec.ScteSubtPicture

/-!
# The layout and the decoder of a simple bitmap

The properties of a bitmap stand in front of its codes, the frame and the outline or shadow only
when there are any.  A reader that has taken some bits is behind them, or it has read the byte
behind the last one.  What `DecodeSimpleBitmap` comes to, for any data: it ends, a picture is drawn
of proper properties only, and its pixels are set within the picture.

## Key results

- `readBitmap_fields`, `readFrame_fields`, `readOutline_fields`: the fields of the layout
- `readOutline_proper`: a picture is drawn of proper properties only
- `decode_cases`: the three ends of the decoder
- `decode_returns`: it ends
- `decode_within`: every pixel is set within the picture
-/

namespace Tntsat.ScteSubtParse

/-! ## The fields -/

/-- The style of the background. -/
def isFramed (data : List UInt8) : Nat := bitField data 5 1

/-- The style of the outline. -/
def outlineStyle (data : List UInt8) : Nat := bitField data 6 2

/-- A colour: luminance, opacity and chrominance. -/
def colourAt (data : List UInt8) (p : Nat) : Nat :=
  rgbOf (8 * bitField data p 5) (8 * bitField data (p + 6) 5) (8 * bitField data (p + 11) 5)
    (bitField data (p + 5) 1)

/-- Four positions. -/
def rectAt (data : List UInt8) (p : Nat) : Rect where
  top_h := bitField data p 12
  top_v := bitField data (p + 12) 12
  bottom_h := bitField data (p + 24) 12
  bottom_v := bitField data (p + 36) 12

/-- The rectangle of the bitmap. -/
def bitmapRect (data : List UInt8) : Rect := rectAt data 24

/-- The rectangle of the frame, which is that of the bitmap unless it is framed. -/
def frameRect (data : List UInt8) : Rect :=
  if isFramed data ≠ 0 then rectAt data 72 else bitmapRect data

/-- The bits in front of the outline or shadow. -/
def outlineStart (data : List UInt8) : Nat := if isFramed data ≠ 0 then 136 else 72

/-- The bits in front of the length of the bitmap. -/
def outlineStop (data : List UInt8) : Nat :=
  outlineStart data + if outlineStyle data = 0 then 0 else 24

/-- The bits in front of the codes. -/
def codesStart (data : List UInt8) : Nat := outlineStop data + 16

/-- The bitmap is not empty. -/
def Rect.Proper (r : Rect) : Prop := r.top_h < r.bottom_h ∧ r.top_v < r.bottom_v

/-- The bitmap is inside of its frame. -/
def Rect.Frames (frame bitmap : Rect) : Prop :=
  (frame.top_h ≤ bitmap.top_h ∧ frame.top_v ≤ bitmap.top_v) ∧
    (bitmap.bottom_h ≤ frame.bottom_h ∧ bitmap.bottom_v ≤ frame.bottom_v)

instance (r : Rect) : Decidable r.Proper := inferInstanceAs (Decidable (_ ∧ _))

instance (frame bitmap : Rect) : Decidable (frame.Frames bitmap) :=
  inferInstanceAs (Decidable (_ ∧ _))

/-! ## Reading bits in order -/

/-- The reader has taken `p` bits of the data, or it has read the byte behind them. -/
structure Taken (data : List UInt8) (p : Nat) (s : BsSub) : Prop where
  start : s.p_start = data
  enough : p ≤ 8 * data.length → s.Ready ∧ s.bitPos = p ∧ s.Inside
  short : 8 * data.length < p → s.Outside

theorem Taken.init {data : List UInt8} : Taken data 0 (bsSubInit data data.length) where
  start := rfl
  enough _ := ⟨⟨⟨Nat.zero_lt_succ 7, Nat.le_refl 8⟩, rfl, Nat.zero_le _⟩, rfl,
    by simp [BsSub.Inside, bsSubInit]⟩
  short h := absurd h (Nat.not_lt_zero _)

/-- Only bytes of the data have been read when there are as many bits. -/
theorem Taken.inside_iff {data : List UInt8} {p : Nat} {s : BsSub} (h : Taken data p s) :
    s.Inside ↔ p ≤ 8 * data.length := by
  constructor
  · intro hinside
    by_contra hlt
    exact BsSub.not_inside_iff.mpr (h.short (Nat.lt_of_not_le hlt)) hinside
  · exact fun hle => (h.enough hle).2.2

/-- A field is read. -/
theorem Taken.read {data : List UInt8} {p : Nat} {s : BsSub} (h : Taken data p s) (k : Nat) :
    Taken data (p + k) (s.read k).2 ∧
      (p + k ≤ 8 * data.length → (s.read k).1 = bitField data p k) := by
  have hreads := BsSub.readLoop_reads k k 0 s
  by_cases hp : p ≤ 8 * data.length
  · obtain ⟨hready, hpos, hinside⟩ := h.enough hp
    have hrest : s.rest = (bytesBits data).drop p := by rw [BsSub.rest, h.start, hpos]
    have hlength : s.rest.length = 8 * data.length - p := by
      rw [hrest, List.length_drop, length_bytesBits]
    refine ⟨⟨hreads.1.trans h.start, fun hle => ?_, fun hlt => ?_⟩, fun hle => ?_⟩
    · obtain ⟨-, hbehind⟩ := BsSub.read_rest hready (show k ≤ s.rest.length by omega)
      exact ⟨hbehind.ready, hpos ▸ hbehind.position, hbehind.inside hinside⟩
    · exact BsSub.read_short hready (by omega)
    · obtain ⟨hvalue, -⟩ := BsSub.read_rest hready (show k ≤ s.rest.length by omega)
      rw [hvalue, hrest, bitField]
  · exact ⟨⟨hreads.1.trans h.start, fun hle => by omega,
      fun _ => (h.short (Nat.lt_of_not_le hp)).read k⟩, fun hle => by omega⟩

/-- A field is read behind some bits that are skipped. -/
theorem Taken.skip_read {data : List UInt8} {p : Nat} {s : BsSub} (h : Taken data p s) {j k : Nat}
    (hj : j < 8) (hk : 0 < k) : Taken data (p + j + k) ((s.skip j).read k).2 ∧
      (p + j + k ≤ 8 * data.length → ((s.skip j).read k).1 = bitField data (p + j) k) := by
  have hreads := BsSub.readLoop_reads k k 0 (s.skip j)
  by_cases hp : p ≤ 8 * data.length
  · obtain ⟨hready, hpos, hinside⟩ := h.enough hp
    have hsize := hready.size
    rw [h.start] at hsize
    have hskip := BsSub.skip_rest hready (show s.bitPos + j < 8 * (s.p_end + 1) by omega)
    have hrest : (s.skip j).rest = (bytesBits data).drop (p + j) := by
      rw [BsSub.rest, hskip.position, hpos, hskip.start, h.start]
    have hlength : (s.skip j).rest.length = 8 * data.length - (p + j) := by
      rw [hrest, List.length_drop, length_bytesBits]
    refine ⟨⟨hreads.1.trans h.start, fun hle => ?_, fun hlt => ?_⟩, fun hle => ?_⟩
    · obtain ⟨-, hbehind⟩ := BsSub.read_rest hskip.ready (show k ≤ (s.skip j).rest.length by omega)
      refine ⟨hbehind.ready, ?_, hbehind.inside hinside⟩
      rw [hbehind.position, hskip.position, hpos]
    · exact BsSub.read_short hskip.ready (by omega)
    · obtain ⟨hvalue, -⟩ := BsSub.read_rest hskip.ready (show k ≤ (s.skip j).rest.length by omega)
      rw [hvalue, hrest, bitField]
  · have hout : (s.skip j).Outside := h.short (Nat.lt_of_not_le hp)
    exact ⟨⟨hreads.1.trans h.start, fun hle => by omega, fun _ => hout.read k⟩,
      fun hle => by omega⟩

/-! ## Colours and positions -/

/-- A colour is taken from its two bytes. -/
theorem yuv2rgb_field {data : List UInt8} {p : Nat} (h : p + 16 ≤ 8 * data.length) :
    yuv2rgb (bitField data p 8) (bitField data (p + 8) 8) = colourAt data p := by
  -- the 16 bits are luma, a transparency bit and two chroma values of 5 bits, the second of which
  -- lies across the bytes
  have hupper : bitField data p 8 = bitField data p 5 * 8 + bitField data (p + 5) 3 :=
    bitField_add (j := 5) (k := 3) (by omega)
  have hlower : bitField data (p + 5) 3 = bitField data (p + 5) 1 * 4 + bitField data (p + 6) 2 :=
    bitField_add (j := 1) (k := 2) (by omega)
  have hsecond : bitField data (p + 8) 8 =
      bitField data (p + 8) 3 * 32 + bitField data (p + 11) 5 :=
    bitField_add (j := 3) (k := 5) (by omega)
  have hcr : bitField data (p + 6) 5 = bitField data (p + 6) 2 * 8 + bitField data (p + 8) 3 :=
    bitField_add (j := 2) (k := 3) (by omega)
  have hy := bitField_lt data p 5
  have halpha := bitField_lt data (p + 5) 1
  have hhigh := bitField_lt data (p + 6) 2
  have hlow := bitField_lt data (p + 8) 3
  have hcb := bitField_lt data (p + 11) 5
  have h31 : ∀ v, v &&& 0x1f = v % 32 := fun v => Nat.and_two_pow_sub_one_eq_mod v 5
  have h1 : ∀ v, v &&& 0x01 = v % 2 := fun v => Nat.and_two_pow_sub_one_eq_mod v 1
  -- the code joins the two bytes to get the value that lies across them
  have hor : bitField data p 8 <<< 3 ||| bitField data (p + 8) 8 >>> 5 =
      bitField data p 8 * 8 + bitField data (p + 8) 3 := by
    have hshift : bitField data (p + 8) 8 >>> 5 = bitField data (p + 8) 3 := by
      rw [Nat.shiftRight_eq_div_pow, hsecond]
      omega
    rw [hshift, Nat.shiftLeft_eq, Nat.mul_comm,
      ← Nat.two_pow_add_eq_or_of_lt (i := 3) hlow, Nat.mul_comm]
  simp only [yuv2rgb, colourAt]
  rw [hor]
  simp only [h31, h1, Nat.shiftRight_eq_div_pow, Nat.shiftLeft_eq]
  rw [hcr, hupper, hlower, hsecond]
  congr 1
  · omega
  · omega
  · omega
  · omega

theorem Taken.readColor {data : List UInt8} {p : Nat} {s : BsSub} (h : Taken data p s) :
    Taken data (p + 16) (readColor s).2 ∧
      (p + 16 ≤ 8 * data.length → (readColor s).1 = colourAt data p) := by
  obtain ⟨h0, hvalue0⟩ := h.read 8
  obtain ⟨h1, hvalue1⟩ := h0.read 8
  refine ⟨h1, fun hle => ?_⟩
  simp only [ScteSubtParse.readColor]
  rw [hvalue0 (by omega), hvalue1 (by omega), yuv2rgb_field hle]

theorem Taken.readRect {data : List UInt8} {p : Nat} {s : BsSub} (h : Taken data p s) :
    Taken data (p + 48) (readRect s).2 ∧
      (p + 48 ≤ 8 * data.length → (readRect s).1 = rectAt data p) := by
  obtain ⟨h0, hvalue0⟩ := h.read 12
  obtain ⟨h1, hvalue1⟩ := h0.read 12
  obtain ⟨h2, hvalue2⟩ := h1.read 12
  obtain ⟨h3, hvalue3⟩ := h2.read 12
  refine ⟨h3, fun hle => ?_⟩
  simp only [ScteSubtParse.readRect]
  rw [hvalue0 (by omega), hvalue1 (by omega), hvalue2 (by omega), hvalue3 (by omega)]
  rfl

/-! ## The properties -/

/-- What the reader knows of the bitmap, and what it leaves of the output record. -/
structure BitmapKnown (data : List UInt8) (out : ScteSubtOutput) (d : Decoding) : Prop where
  is_framed : d.is_framed = isFramed data
  outline_style : d.outline_style = outlineStyle data
  bitmap : d.bitmap = bitmapRect data
  color : d.stOutputData.u32SubtColor = colourAt data 8
  top : d.stOutputData.u32TopXPos = (bitmapRect data).top_h ∧
    d.stOutputData.u32TopYPos = (bitmapRect data).top_v
  bottom : d.stOutputData.u32ButtomXPos = (bitmapRect data).bottom_h ∧
    d.stOutputData.u32ButtomYPos = (bitmapRect data).bottom_v
  standard : d.stOutputData.enDispStandard = out.enDispStandard
  time : d.stOutputData.u32PTS = out.u32PTS ∧ d.stOutputData.u32Duration = out.u32Duration

theorem readBitmap_fields {data : List UInt8} {s : BsSub} (h : Taken data 0 s)
    (out : ScteSubtOutput) :
    Taken data 72 (readBitmap s out).bs ∧
      (72 ≤ 8 * data.length → BitmapKnown data out (readBitmap s out) ∧
        (readBitmap s out).frame = bitmapRect data) := by
  obtain ⟨hframed, hframedValue⟩ := h.skip_read (j := 5) (k := 1) (by decide) (by decide)
  obtain ⟨hstyle, hstyleValue⟩ := hframed.read 2
  obtain ⟨hcolor, hcolorValue⟩ := hstyle.readColor
  obtain ⟨hrect, hrectValue⟩ := hcolor.readRect
  simp only [readBitmap]
  generalize readRect (readColor (((s.skip 5).read 1).2.read 2).2).2 = r at hrect hrectValue ⊢
  refine ⟨hrect, fun hle => ?_⟩
  have hrectValue : r.1 = bitmapRect data := hrectValue hle
  refine ⟨⟨hframedValue (by omega), hstyleValue (by omega), hrectValue, hcolorValue (by omega),
    ?_, ?_, rfl, rfl, rfl⟩, hrectValue⟩
  · rw [← hrectValue]
    exact ⟨rfl, rfl⟩
  · rw [← hrectValue]
    exact ⟨rfl, rfl⟩

/-- What is read of the frame. -/
theorem readFrame_fields {data : List UInt8} {out : ScteSubtOutput} {d : Decoding}
    (h : Taken data 72 d.bs) (hd : BitmapKnown data out d) (hframe : d.frame = bitmapRect data) :
    Taken data (outlineStart data) (readFrame d).bs ∧ BitmapKnown data out (readFrame d) ∧
      (outlineStart data ≤ 8 * data.length → (readFrame d).frame = frameRect data ∧
        (isFramed data ≠ 0 →
          (readFrame d).stOutputData.stFramed.u32FrameColor = colourAt data 120)) := by
  by_cases hframed : isFramed data = 0
  · have hbranch : ¬ d.is_framed ≠ 0 := not_not.mpr (hd.is_framed.trans hframed)
    simp only [readFrame, outlineStart, frameRect, if_neg hbranch, if_neg (not_not.mpr hframed)]
    exact ⟨h, hd, fun _ => ⟨hframe, fun hne => absurd hframed hne⟩⟩
  · have hbranch : d.is_framed ≠ 0 := fun hzero => hframed (hd.is_framed.symm.trans hzero)
    obtain ⟨hrect, hrectValue⟩ := h.readRect
    obtain ⟨hcolor, hcolorValue⟩ := hrect.readColor
    simp only [readFrame, outlineStart, frameRect, if_pos hbranch, if_pos hframed]
    exact ⟨hcolor, { hd with },
      fun hle => ⟨hrectValue (by omega), fun _ => hcolorValue (by omega)⟩⟩

/-- The bits of the properties that are read. -/
def propertiesStop (data : List UInt8) : Nat :=
  outlineStart data + if outlineStyle data = 1 ∨ outlineStyle data = 2 then 24 else 0

/-- What is read of the outline or shadow. -/
structure OutlineKnown (data : List UInt8) (d : Decoding) : Prop where
  thickness : outlineStyle data = 1 → d.outline_thickness = bitField data (outlineStart data + 4) 4
  shadow : outlineStyle data = 2 → d.shadow_right = bitField data (outlineStart data) 4 ∧
    d.shadow_bottom = bitField data (outlineStart data + 4) 4
  color : outlineStyle data = 1 ∨ outlineStyle data = 2 →
    d.stOutputData.unOutlineStyle = colourAt data (outlineStart data + 8)

/-- The reader is in front of the codes. -/
structure Placed (data : List UInt8) (s : BsSub) : Prop where
  start : s.p_start = data
  stop : s.p_end = data.length
  left : 0 < s.left ∧ s.left ≤ 8
  position : s.bitPos = codesStart data

theorem Placed.of_skip {data : List UInt8} {s : BsSub} (hstart : s.p_start = data)
    (hready : s.Ready) {count : Nat} (hpos : s.bitPos + count = codesStart data) :
    Placed data (s.skip count) := by
  obtain ⟨hskip, hleft⟩ := BsSub.skip_spec hready.left count
  exact ⟨hstart, hready.size.trans (by rw [hstart]), hleft, hskip.trans hpos⟩

theorem outlineStyle_lt (data : List UInt8) : outlineStyle data < 4 := bitField_lt data 6 2

/-- What comes of reading the outline or shadow. -/
structure OutlineRead (data : List UInt8) (out : ScteSubtOutput) (d d' : Decoding) : Prop where
  known : BitmapKnown data out d'
  frame : d'.frame = d.frame ∧ d'.stOutputData.stFramed = d.stOutputData.stFramed
  inside_iff : d'.bs.Inside ↔ propertiesStop data ≤ 8 * data.length
  placed : propertiesStop data ≤ 8 * data.length → Placed data d'.bs
  outline : propertiesStop data ≤ 8 * data.length → OutlineKnown data d'

section Outline

variable {data : List UInt8} {out : ScteSubtOutput} {d : Decoding}
  (h : Taken data (outlineStart data) d.bs) (hd : BitmapKnown data out d)

include h hd

theorem readOutline_outlined (hone : outlineStyle data = 1) :
    OutlineRead data out d (readOutline d) := by
  have hbranch : d.outline_style = 1 := hd.outline_style.trans hone
  have hstop : propertiesStop data = outlineStart data + 24 := by
    rw [propertiesStop, if_pos (.inl hone)]
  have hcodes : codesStart data = outlineStart data + 24 + 16 := by
    rw [codesStart, outlineStop, if_neg (by omega)]
  obtain ⟨hthick, hthickValue⟩ := h.skip_read (j := 4) (k := 4) (by decide) (by decide)
  obtain ⟨hcolor, hcolorValue⟩ := hthick.readColor
  simp only [readOutline, if_pos hbranch]
  refine ⟨{ hd with }, ⟨rfl, rfl⟩, hstop ▸ hcolor.inside_iff, fun hle => ?_, fun hle => ?_⟩
  · obtain ⟨hready, hpos, -⟩ := hcolor.enough (hstop ▸ hle)
    exact .of_skip hcolor.start hready (by rw [hcodes, hpos])
  · rw [hstop] at hle
    exact ⟨fun _ => hthickValue (by omega), fun htwo => absurd (hone.symm.trans htwo) (by decide),
      fun _ => hcolorValue (by omega)⟩

theorem readOutline_shadow (htwo : outlineStyle data = 2) :
    OutlineRead data out d (readOutline d) := by
  have hbranch : d.outline_style = 2 := hd.outline_style.trans htwo
  have hne : ¬ d.outline_style = 1 := by omega
  have hstop : propertiesStop data = outlineStart data + 24 := by
    rw [propertiesStop, if_pos (.inr htwo)]
  have hcodes : codesStart data = outlineStart data + 24 + 16 := by
    rw [codesStart, outlineStop, if_neg (by omega)]
  obtain ⟨hright, hrightValue⟩ := h.read 4
  obtain ⟨hbottom, hbottomValue⟩ := hright.read 4
  obtain ⟨hcolor, hcolorValue⟩ := hbottom.readColor
  simp only [readOutline, if_neg hne, if_pos hbranch]
  refine ⟨{ hd with }, ⟨rfl, rfl⟩, hstop ▸ hcolor.inside_iff, fun hle => ?_, fun hle => ?_⟩
  · obtain ⟨hready, hpos, -⟩ := hcolor.enough (hstop ▸ hle)
    exact .of_skip hcolor.start hready (by rw [hcodes, hpos])
  · rw [hstop] at hle
    exact ⟨fun hone => absurd (htwo.symm.trans hone) (by decide),
      fun _ => ⟨hrightValue (by omega), hbottomValue (by omega)⟩, fun _ => hcolorValue (by omega)⟩

theorem readOutline_none (hle : outlineStart data ≤ 8 * data.length)
    (hone : outlineStyle data ≠ 1) (htwo : outlineStyle data ≠ 2) :
    OutlineRead data out d (readOutline d) := by
  have hlt := outlineStyle_lt data
  have hne1 : ¬ d.outline_style = 1 := fun heq => hone (hd.outline_style.symm.trans heq)
  have hne2 : ¬ d.outline_style = 2 := fun heq => htwo (hd.outline_style.symm.trans heq)
  have hstop : propertiesStop data = outlineStart data := by
    rw [propertiesStop, if_neg (not_or.mpr ⟨hone, htwo⟩), Nat.add_zero]
  obtain ⟨hready, hpos, hinside⟩ := h.enough hle
  have hknown : ∀ bs : BsSub, OutlineKnown data { d with bs } := fun bs =>
    ⟨fun heq => absurd heq hone, fun heq => absurd heq htwo, fun heq => (heq.elim hone htwo).elim⟩
  by_cases hthree : outlineStyle data = 3
  -- a style that is reserved is skipped, which reads nothing
  · have hbranch : d.outline_style = 3 := hd.outline_style.trans hthree
    have hcodes : codesStart data = outlineStart data + 24 + 16 := by
      rw [codesStart, outlineStop, if_neg (by omega)]
    obtain ⟨hskip, hleft⟩ := BsSub.skip_spec hready.left 24
    obtain ⟨hskip', hleft'⟩ := BsSub.skip_spec hleft 16
    simp only [readOutline, if_neg hne1, if_neg hne2, if_pos hbranch]
    exact ⟨{ hd with }, ⟨rfl, rfl⟩, ⟨fun _ => hstop ▸ hle, fun _ => hinside⟩,
      fun _ => ⟨h.start, hready.size.trans (by rw [h.start]), hleft',
        by rw [hskip', hskip, hpos, hcodes]⟩,
      fun _ => hknown _⟩
  -- without a style there is nothing to skip but the length of the codes
  · have hbranch : ¬ d.outline_style = 3 := fun heq => hthree (hd.outline_style.symm.trans heq)
    have hcodes : codesStart data = outlineStart data + 16 := by
      rw [codesStart, outlineStop, if_pos (by omega), Nat.add_zero]
    simp only [readOutline, if_neg hne1, if_neg hne2, if_neg hbranch]
    exact ⟨{ hd with }, ⟨rfl, rfl⟩, ⟨fun _ => hstop ▸ hle, fun _ => hinside⟩,
      fun _ => .of_skip h.start hready (by rw [hcodes, hpos]), fun _ => hknown _⟩

/-- What is read of the outline or shadow, and where the reader is then. -/
theorem readOutline_fields (hle : outlineStart data ≤ 8 * data.length) :
    OutlineRead data out d (readOutline d) := by
  by_cases hone : outlineStyle data = 1
  · exact readOutline_outlined h hd hone
  · by_cases htwo : outlineStyle data = 2
    · exact readOutline_shadow h hd htwo
    · exact readOutline_none h hd hle hone htwo

end Outline

/-! ## Values that are read -/

theorem BsSub.readLoop_lt (fuel : Nat) {count k result : Nat} (s : BsSub) (hcount : count ≤ k)
    (hresult : result < 2 ^ k) : (BsSub.readLoop fuel count result s).1 < 2 ^ k := by
  induction fuel generalizing count result s with
  | zero => exact hresult
  | succ fuel ih =>
    have hmask : ∀ v j, v &&& mask j < 2 ^ j := fun v j => by
      rw [mask_and]
      exact Nat.mod_lt _ (Nat.two_pow_pos j)
    simp only [readLoop]
    split_ifs with hzero hend hle
    · exact hresult
    · exact hresult
    · exact Nat.or_lt_two_pow hresult
        ((hmask _ count).trans_le (Nat.pow_le_pow_right (by decide) hcount))
    · exact Nat.or_lt_two_pow hresult
        ((hmask _ count).trans_le (Nat.pow_le_pow_right (by decide) hcount))
    · refine ih _ (by omega) (Nat.or_lt_two_pow hresult ?_)
      have hleft : s.left ≤ count := by omega
      rw [Nat.shiftLeft_eq]
      calc _ < 2 ^ s.left * 2 ^ (count - s.left) :=
            Nat.mul_lt_mul_of_pos_right (hmask _ _) (Nat.two_pow_pos _)
        _ = 2 ^ count := by rw [← Nat.pow_add, Nat.add_sub_cancel' hleft]
        _ ≤ 2 ^ k := Nat.pow_le_pow_right (by decide) hcount

theorem BsSub.read_lt (s : BsSub) (k : Nat) : (s.read k).1 < 2 ^ k :=
  BsSub.readLoop_lt k s le_rfl (Nat.two_pow_pos k)

/-- The positions of a rectangle have twelve bits. -/
def Rect.Small (r : Rect) : Prop :=
  (r.top_h < 4096 ∧ r.top_v < 4096) ∧ (r.bottom_h < 4096 ∧ r.bottom_v < 4096)

theorem readRect_small (s : BsSub) : (readRect s).1.Small := by
  simp only [readRect, Rect.Small]
  exact ⟨⟨BsSub.read_lt _ 12, BsSub.read_lt _ 12⟩, BsSub.read_lt _ 12, BsSub.read_lt _ 12⟩

theorem readFrame_bitmap (d : Decoding) : (readFrame d).bitmap = d.bitmap := by
  simp only [readFrame]
  split <;> rfl

theorem readFrame_small {d : Decoding} (h : d.frame.Small) : (readFrame d).frame.Small := by
  simp only [readFrame]
  split
  · exact readRect_small _
  · exact h

theorem readFrame_frame {d : Decoding} (h : ¬ (readFrame d).is_framed ≠ 0) :
    (readFrame d).frame = d.frame := by
  simp only [readFrame] at h ⊢
  split
  · rename_i hframed
    rw [if_pos hframed] at h
    exact absurd hframed h
  · rfl

theorem readFrame_outline (d : Decoding) :
    (readFrame d).outline_thickness = d.outline_thickness ∧
      (readFrame d).shadow_right = d.shadow_right ∧
      (readFrame d).shadow_bottom = d.shadow_bottom := by
  simp only [readFrame]
  split <;> exact ⟨rfl, rfl, rfl⟩

theorem readOutline_rects (d : Decoding) :
    (readOutline d).bitmap = d.bitmap ∧ (readOutline d).frame = d.frame := by
  simp only [readOutline]
  split_ifs <;> exact ⟨rfl, rfl⟩

theorem readOutline_lt {d : Decoding}
    (h : d.outline_thickness < 16 ∧ d.shadow_right < 16 ∧ d.shadow_bottom < 16) :
    (readOutline d).outline_thickness < 16 ∧ (readOutline d).shadow_right < 16 ∧
      (readOutline d).shadow_bottom < 16 := by
  simp only [readOutline]
  split_ifs
  · exact ⟨BsSub.read_lt _ 4, h.2⟩
  · exact ⟨h.1, BsSub.read_lt _ 4, BsSub.read_lt _ 4⟩
  · exact h
  · exact h

/-- A picture is drawn of proper properties only. -/
theorem readOutline_proper {s : BsSub} {out : ScteSubtOutput}
    (hbitmap : (readBitmap s out).bitmap.Proper)
    (hframe : (readFrame (readBitmap s out)).is_framed ≠ 0 →
      (readFrame (readBitmap s out)).frame.Frames (readBitmap s out).bitmap) :
    (readOutline (readFrame (readBitmap s out))).Proper := by
  generalize hd : readBitmap s out = d at hbitmap hframe ⊢
  have hsmall : d.frame.Small := by
    rw [← hd]
    exact readRect_small _
  -- without a frame the code takes the bitmap's rectangle for it
  have hsame : d.frame = d.bitmap := by
    rw [← hd]
    rfl
  -- and without an outline its fields are zero
  have hzero : d.outline_thickness < 16 ∧ d.shadow_right < 16 ∧ d.shadow_bottom < 16 := by
    rw [← hd]
    have h16 : 0 < 16 := by decide
    exact ⟨h16, h16, h16⟩
  have hframes : (readFrame d).frame.Frames d.bitmap := by
    by_cases hframed : (readFrame d).is_framed ≠ 0
    · exact hframe hframed
    · rw [readFrame_frame hframed, hsame]
      exact ⟨⟨Nat.le_refl _, Nat.le_refl _⟩, Nat.le_refl _, Nat.le_refl _⟩
  obtain ⟨hright, hframe'⟩ := readOutline_rects (readFrame d)
  have houtline := readFrame_outline d
  obtain ⟨hthick, hshadow, hbottom⟩ := readOutline_lt (d := readFrame d) (by
    rw [houtline.1, houtline.2.1, houtline.2.2]
    exact hzero)
  rw [readFrame_bitmap] at hright
  have hlimit := readFrame_small hsmall
  exact
    { bitmap_h := by rw [hright]; exact hbitmap.1
      bitmap_v := by rw [hright]; exact hbitmap.2
      top_h := by rw [hright, hframe']; exact hframes.1.1
      top_v := by rw [hright, hframe']; exact hframes.1.2
      bottom_h := by rw [hright, hframe']; exact hframes.2.1
      bottom_v := by rw [hright, hframe']; exact hframes.2.2
      limit_h := by rw [hframe']; exact hlimit.2.1
      limit_v := by rw [hframe']; exact hlimit.2.2
      outline_thickness := hthick
      shadow_right := hshadow
      shadow_bottom := hbottom }

/-! ## The ends of the decoder -/

/-- The properties of a bitmap, as they are read. -/
def properties (data : List UInt8) (size : Nat) (out : ScteSubtOutput) : Decoding :=
  readBitmap (bsSubInit data size) out

/-- The loop over the bitmap, behind the properties. -/
def codesLoop (d : Decoding) (size : Nat) : Option (BsSub × List Bool) :=
  let bitmap_h := d.bitmap.bottom_h - d.bitmap.top_h
  let bitmap_v := d.bitmap.bottom_v - d.bitmap.top_v
  bitmapLoop bitmap_h (bitmap_h * bitmap_v) (8 * size + 9) ((readOutline d).bs, [])

/-- The decoder returns when the bitmap is empty or not inside of its frame, and draws the picture
    otherwise. -/
theorem decode_cases (data : List UInt8) {size : Nat} (hsize : size ≠ 0) (out : ScteSubtOutput) :
    (¬ (properties data size out).bitmap.Proper ∧
      decodeSimpleBitmap data size out = some
        { ret := MT_FAILURE, stOutputData := (properties data size out).stOutputData,
          reads := (properties data size out).bs.reads }) ∨
    ((properties data size out).bitmap.Proper ∧
      ¬ ((readFrame (properties data size out)).is_framed ≠ 0 →
        (readFrame (properties data size out)).frame.Frames
          (properties data size out).bitmap) ∧
      decodeSimpleBitmap data size out = some
        { ret := MT_FAILURE, stOutputData := (readFrame (properties data size out)).stOutputData,
          reads := (readFrame (properties data size out)).bs.reads }) ∨
    ((properties data size out).bitmap.Proper ∧
      ((readFrame (properties data size out)).is_framed ≠ 0 →
        (readFrame (properties data size out)).frame.Frames
          (properties data size out).bitmap) ∧
      decodeSimpleBitmap data size out =
        (codesLoop (readFrame (properties data size out)) size).map fun r =>
          drawBitmap (readOutline (readFrame (properties data size out))) r.2 r.1.reads) := by
  have hunfold := decodeSimpleBitmap.eq_1 data size out
  rw [if_neg hsize] at hunfold
  simp only [← properties.eq_1] at hunfold
  generalize properties data size out = d at hunfold ⊢
  have hbitmap := readFrame_bitmap d
  have hrects := readOutline_rects (readFrame d)
  -- the two guards of the code, in the order in which it tests them
  by_cases hproper : d.bitmap.Proper
  · have hguard : ¬ (d.bitmap.bottom_h ≤ d.bitmap.top_h ∨ d.bitmap.bottom_v ≤ d.bitmap.top_v) := by
      have h := hproper
      simp only [Rect.Proper] at h
      omega
    rw [if_neg hguard] at hunfold
    by_cases hframes : (readFrame d).is_framed ≠ 0 → (readFrame d).frame.Frames d.bitmap
    · refine .inr (.inr ⟨hproper, hframes, ?_⟩)
      rw [hunfold, if_neg, codesLoop, hrects.1]
      -- the second guard compares the frame with the bitmap
      rintro ⟨hframed, hout⟩
      have hin := hframes hframed
      rw [hbitmap] at hout
      simp only [Rect.Frames] at hin
      omega
    · refine .inr (.inl ⟨hproper, hframes, ?_⟩)
      rw [hunfold, if_pos]
      obtain ⟨hframed, hnot⟩ := Classical.not_imp.mp hframes
      refine ⟨hframed, ?_⟩
      rw [hbitmap]
      simp only [Rect.Frames] at hnot
      omega
  · refine .inl ⟨hproper, ?_⟩
    rw [hunfold, if_pos]
    simp only [Rect.Proper] at hproper
    omega

/-! ## The decoder ends -/

theorem BsSub.skip_moves {s : BsSub} (h : 0 < s.left ∧ s.left ≤ 8) (count : Nat) :
    s.Moves (s.skip count) := by
  obtain ⟨hpos, hleft⟩ := BsSub.skip_spec h count
  exact ⟨hleft, rfl, rfl, by omega, List.Subset.refl _⟩

theorem readColor_moves {s : BsSub} (h : 0 < s.left ∧ s.left ≤ 8) :
    s.Moves (readColor s).2 := by
  have hfirst := BsSub.read_moves h 8
  exact hfirst.trans (BsSub.read_moves hfirst.left 8)

theorem readRect_moves {s : BsSub} (h : 0 < s.left ∧ s.left ≤ 8) : s.Moves (readRect s).2 := by
  have h0 := BsSub.read_moves h 12
  have h1 := h0.trans (BsSub.read_moves h0.left 12)
  have h2 := h1.trans (BsSub.read_moves h1.left 12)
  exact h2.trans (BsSub.read_moves h2.left 12)

theorem readBitmap_moves {s : BsSub} (h : 0 < s.left ∧ s.left ≤ 8) (out : ScteSubtOutput) :
    s.Moves (readBitmap s out).bs := by
  have hskip := BsSub.skip_moves h 5
  have hframed := hskip.trans (BsSub.read_moves hskip.left 1)
  have hstyle := hframed.trans (BsSub.read_moves hframed.left 2)
  have hcolor := hstyle.trans (readColor_moves hstyle.left)
  simp only [readBitmap]
  exact hcolor.trans (readRect_moves hcolor.left)

theorem readFrame_moves {d : Decoding} (h : 0 < d.bs.left ∧ d.bs.left ≤ 8) :
    d.bs.Moves (readFrame d).bs := by
  by_cases hframed : d.is_framed ≠ 0
  · have hrect := readRect_moves h
    simp only [readFrame, if_pos hframed]
    exact hrect.trans (readColor_moves hrect.left)
  · simp only [readFrame, if_neg hframed]
    exact .refl h

theorem readOutline_moves {d : Decoding} (h : 0 < d.bs.left ∧ d.bs.left ≤ 8) :
    d.bs.Moves (readOutline d).bs := by
  by_cases hone : d.outline_style = 1
  · have hskip := BsSub.skip_moves h 4
    have hthick := hskip.trans (BsSub.read_moves hskip.left 4)
    have hcolor := hthick.trans (readColor_moves hthick.left)
    simp only [readOutline, if_pos hone]
    exact hcolor.trans (BsSub.skip_moves hcolor.left 16)
  · by_cases htwo : d.outline_style = 2
    · have hright := BsSub.read_moves h 4
      have hbottom := hright.trans (BsSub.read_moves hright.left 4)
      have hcolor := hbottom.trans (readColor_moves hbottom.left)
      simp only [readOutline, if_neg hone, if_pos htwo]
      exact hcolor.trans (BsSub.skip_moves hcolor.left 16)
    · simp only [readOutline, if_neg hone, if_neg htwo]
      split
      · have hskip := BsSub.skip_moves h 24
        exact hskip.trans (BsSub.skip_moves hskip.left 16)
      · exact BsSub.skip_moves h 16

/-- The properties are read from the beginning of the data. -/
theorem properties_moves (data : List UInt8) (size : Nat) (out : ScteSubtOutput) :
    (bsSubInit data size).Moves (properties data size out).bs :=
  readBitmap_moves ⟨Nat.zero_lt_succ 7, Nat.le_refl 8⟩ out

/-- The first byte is read, also when the data are empty. -/
theorem properties_reads (data : List UInt8) (size : Nat) (out : ScteSubtOutput) :
    0 ∈ (properties data size out).bs.reads := by
  have hread : 0 ∈ (((bsSubInit data size).skip 5).read 1).2.reads :=
    BsSub.read_reads (s := (bsSubInit data size).skip 5) Nat.one_ne_zero (Nat.zero_le size)
  have hskip := BsSub.skip_moves (s := bsSubInit data size) ⟨Nat.zero_lt_succ 7, Nat.le_refl 8⟩ 5
  have hstyle := BsSub.read_moves (BsSub.read_moves hskip.left 1).left 2
  have hcolor := hstyle.trans (readColor_moves hstyle.left)
  have hrect := hcolor.trans (readRect_moves hcolor.left)
  simp only [properties, readBitmap]
  exact hrect.reads hread

theorem properties_fields (data : List UInt8) (out : ScteSubtOutput) :
    Taken data 72 (properties data data.length out).bs ∧
      (72 ≤ 8 * data.length → BitmapKnown data out (properties data data.length out) ∧
        (properties data data.length out).frame = bitmapRect data) :=
  readBitmap_fields Taken.init out

theorem properties_proper {data : List UInt8} {size : Nat} {out : ScteSubtOutput}
    (hbitmap : (properties data size out).bitmap.Proper)
    (hframe : (readFrame (properties data size out)).is_framed ≠ 0 →
      (readFrame (properties data size out)).frame.Frames (properties data size out).bitmap) :
    (readOutline (readFrame (properties data size out))).Proper :=
  readOutline_proper hbitmap hframe

-- The reader is not to be run while terms are compared.
attribute [irreducible] properties

/-- The loop over the bitmap ends. -/
theorem codesLoop_returns (data : List UInt8) (size : Nat) (out : ScteSubtOutput) :
    ∃ t, codesLoop (readFrame (properties data size out)) size = some t := by
  have hbitmap := properties_moves data size out
  have hframe := hbitmap.trans (readFrame_moves hbitmap.left)
  have houtline := hframe.trans (readOutline_moves hframe.left)
  refine bitmapLoop_returns _ _ houtline.left (Nat.succ_pos _) ?_
  have hstop : (bsSubInit data size).p_end = size := rfl
  rw [houtline.stop, hstop]
  omega

/-- The decoder ends. -/
theorem decode_returns (data : List UInt8) (size : Nat) (out : ScteSubtOutput) :
    ∃ r, decodeSimpleBitmap data size out = some r := by
  by_cases hsize : size = 0
  · exact ⟨_, if_pos hsize⟩
  · rcases decode_cases data hsize out with ⟨-, heq⟩ | ⟨-, -, heq⟩ | ⟨-, -, heq⟩
    · exact ⟨_, heq⟩
    · exact ⟨_, heq⟩
    · obtain ⟨t, ht⟩ := codesLoop_returns data size out
      rw [heq, ht]
      exact ⟨_, rfl⟩

/-- Every pixel is set within the picture, whatever the data are. -/
theorem decode_within {data : List UInt8} {size : Nat} {out : ScteSubtOutput} {r : Decoded}
    (hr : decodeSimpleBitmap data size out = some r) :
    ∀ s ∈ r.stores, s.Within r.stOutputData.u32BitmapDataLen := by
  by_cases hsize : size = 0
  · rw [decodeSimpleBitmap, if_pos hsize] at hr
    cases hr
    simp
  · rcases decode_cases data hsize out with ⟨-, heq⟩ | ⟨-, -, heq⟩ |
      ⟨hbitmap, hframe, heq⟩
    · rw [heq] at hr
      cases hr
      simp
    · rw [heq] at hr
      cases hr
      simp
    -- only the last case draws, into a picture of the size of the frame
    · obtain ⟨t, ht⟩ := codesLoop_returns data size out
      rw [heq, ht] at hr
      cases hr
      have hproper := properties_proper hbitmap hframe
      obtain ⟨hwidth, hheight, -, -⟩ := hproper.pictureFrame
      have hlen : (drawBitmap (readOutline (readFrame (properties data size out))) t.2
          t.1.reads).stOutputData.u32BitmapDataLen =
          (readOutline (readFrame (properties data size out))).width *
            (readOutline (readFrame (properties data size out))).height * SCTE_SUBT_BPP := by
        rw [← u32_of_lt hproper.size_lt, ← hwidth, ← hheight]
        rfl
      rw [hlen]
      exact hproper.drawStores_within t.2

end Tntsat.ScteSubtParse
