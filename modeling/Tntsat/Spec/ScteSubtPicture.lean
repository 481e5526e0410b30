import Tntsat.Native.ScteSubtParse

/-!
# The pictures of SCTE subtitles

The picture of a bitmap is its frame with room for the outline or shadow.  Its positions are
computed with unsigned numbers that may pass below zero, but the differences are right.

## Key results

- `drawStores_within`: every pixel is set within the picture's bytes
- `read_drawStores`: the colour of each pixel
-/

namespace Tntsat.ScteSubtParse

open Store

/-! ## Pixels -/

/-- The bytes of a colour. -/
def colourBytes (value : Nat) : List UInt8 :=
  [UInt8.ofNat (value >>> 24), UInt8.ofNat (value >>> 16), UInt8.ofNat (value >>> 8),
    UInt8.ofNat value]

/-- The offset of a pixel. -/
theorem pixel_lt {w h : Nat} {p : Nat × Nat} (hp : p.1 < w ∧ p.2 < h) :
    p.2 * (w * SCTE_SUBT_BPP) + 4 * p.1 + 4 ≤ w * h * SCTE_SUBT_BPP := by
  have hrow : (p.2 + 1) * w ≤ h * w := Nat.mul_le_mul_right w hp.2
  rw [Nat.add_mul, Nat.one_mul] at hrow
  have hleft : p.2 * (w * SCTE_SUBT_BPP) = p.2 * w * 4 := by rw [← Nat.mul_assoc]; rfl
  have hright : w * h * SCTE_SUBT_BPP = h * w * 4 := by rw [Nat.mul_comm w]; rfl
  omega

/-- Different pixels are at different offsets. -/
theorem pixel_disjoint {w x y : Nat} (hx : x < w) {p : Nat × Nat} (hp : p.1 < w)
    (hne : (x, y) ≠ p) :
    y * (w * SCTE_SUBT_BPP) + 4 * x + 4 ≤ p.2 * (w * SCTE_SUBT_BPP) + 4 * p.1 ∨
      p.2 * (w * SCTE_SUBT_BPP) + 4 * p.1 + 4 ≤ y * (w * SCTE_SUBT_BPP) + 4 * x := by
  have hrow : ∀ k, k * (w * SCTE_SUBT_BPP) = k * w * 4 := fun k => by rw [← Nat.mul_assoc]; rfl
  rw [hrow, hrow]
  rcases Nat.lt_trichotomy y p.2 with hlt | heq | hgt
  · have hle : (y + 1) * w ≤ p.2 * w := Nat.mul_le_mul_right w hlt
    rw [Nat.add_mul, Nat.one_mul] at hle
    omega
  · have hcol : x ≠ p.1 := fun hcol => hne (Prod.ext hcol heq)
    subst heq
    omega
  · have hle : (p.2 + 1) * w ≤ y * w := Nat.mul_le_mul_right w hgt
    rw [Nat.add_mul, Nat.one_mul] at hle
    omega

/-- Pixels within a picture that is not too large are set within its bytes. -/
theorem setPixel_within {w h : Nat} (hsize : w * h * SCTE_SUBT_BPP < 4294967296) {p : Nat × Nat}
    (hp : p.1 < w ∧ p.2 < h) (value : Nat) :
    ∀ s ∈ setPixel (w * SCTE_SUBT_BPP) value p, s.Within (w * h * SCTE_SUBT_BPP) := by
  have hlt := pixel_lt hp
  simp only [setPixel, List.forall_mem_cons, within_set_iff, List.length_singleton]
  rw [u32_of_lt (by omega), u32_of_lt (by omega), u32_of_lt (by omega), u32_of_lt (by omega)]
  refine ⟨.inr ?_, .inr ?_, .inr ?_, .inr ?_, by simp⟩ <;> omega

/-- The four bytes of a pixel are set. -/
theorem runAll_setPixel (m : Memory UInt8) {w h : Nat}
    (hsize : w * h * SCTE_SUBT_BPP < 4294967296) {p : Nat × Nat} (hp : p.1 < w ∧ p.2 < h)
    (value : Nat) :
    runAll m (setPixel (w * SCTE_SUBT_BPP) value p) =
      m.write (p.2 * (w * SCTE_SUBT_BPP) + 4 * p.1) (colourBytes value) := by
  have hlt := pixel_lt hp
  simp only [setPixel, runAll, run, colourBytes]
  rw [u32_of_lt (by omega), u32_of_lt (by omega), u32_of_lt (by omega), u32_of_lt (by omega)]
  simp only [Memory.write_cons, Memory.write_nil]

/-- The last pixel that is set decides. -/
theorem read_setPixels (m : Memory UInt8) {w h : Nat}
    (hsize : w * h * SCTE_SUBT_BPP < 4294967296) (value : Nat) {pixels : List (Nat × Nat)}
    (hpixels : ∀ p ∈ pixels, p.1 < w ∧ p.2 < h) {x y : Nat} (hx : x < w) :
    (runAll m (pixels.flatMap (setPixel (w * SCTE_SUBT_BPP) value))).read
        (y * (w * SCTE_SUBT_BPP) + 4 * x) 4 =
      if (x, y) ∈ pixels then colourBytes value
      else m.read (y * (w * SCTE_SUBT_BPP) + 4 * x) 4 := by
  induction pixels generalizing m with
  | nil => rfl
  | cons p pixels ih =>
    obtain ⟨hp, hpixels⟩ := List.forall_mem_cons.mp hpixels
    rw [List.flatMap_cons, runAll_append, runAll_setPixel m hsize hp, ih _ hpixels]
    by_cases hmem : (x, y) ∈ pixels
    · rw [if_pos hmem, if_pos (List.mem_cons_of_mem _ hmem)]
    · rw [if_neg hmem]
      by_cases heq : (x, y) = p
      · subst heq
        rw [if_pos List.mem_cons_self]
        exact Memory.read_write_self m _ (colourBytes value)
      · rw [if_neg (by simp [heq, hmem])]
        exact Memory.read_write_disjoint m _ (pixel_disjoint hx hp.1 heq)

/-! ## The frame of the picture -/

/-- What `DecodeSimpleBitmap` has read when it draws the picture. -/
structure Decoding.Proper (d : Decoding) : Prop where
  bitmap_h : d.bitmap.top_h < d.bitmap.bottom_h
  bitmap_v : d.bitmap.top_v < d.bitmap.bottom_v
  top_h : d.frame.top_h ≤ d.bitmap.top_h
  top_v : d.frame.top_v ≤ d.bitmap.top_v
  bottom_h : d.bitmap.bottom_h ≤ d.frame.bottom_h
  bottom_v : d.bitmap.bottom_v ≤ d.frame.bottom_v
  limit_h : d.frame.bottom_h < 4096
  limit_v : d.frame.bottom_v < 4096
  outline_thickness : d.outline_thickness < 16
  shadow_right : d.shadow_right < 16
  shadow_bottom : d.shadow_bottom < 16

/-- The room for the outline or shadow. -/
def Decoding.margin (d : Decoding) : Nat × Nat :=
  if d.outline_style = 1 then (d.outline_thickness, d.outline_thickness)
  else if d.outline_style = 2 then (d.shadow_right, d.shadow_bottom)
  else (0, 0)

/-- The columns of the picture. -/
def Decoding.width (d : Decoding) : Nat := d.frame.bottom_h - d.frame.top_h + 2 * d.margin.1

/-- The rows of the picture. -/
def Decoding.height (d : Decoding) : Nat := d.frame.bottom_v - d.frame.top_v + 2 * d.margin.2

/-- The first column of the bitmap in the picture. -/
def Decoding.column (d : Decoding) : Nat := d.bitmap.top_h - d.frame.top_h + d.margin.1

/-- The first row of the bitmap in the picture. -/
def Decoding.row (d : Decoding) : Nat := d.bitmap.top_v - d.frame.top_v + d.margin.2

namespace Decoding.Proper

variable {d : Decoding}

theorem margin_lt (h : d.Proper) : d.margin.1 < 16 ∧ d.margin.2 < 16 := by
  simp only [Decoding.margin]
  split_ifs
  · exact ⟨h.outline_thickness, h.outline_thickness⟩
  · exact ⟨h.shadow_right, h.shadow_bottom⟩
  · exact ⟨by decide, by decide⟩

/-- The differences of positions that pass below zero are right. -/
theorem pictureFrame (h : d.Proper) :
    u32sub (ScteSubtParse.pictureFrame d).bottom_h (ScteSubtParse.pictureFrame d).top_h = d.width ∧
    u32sub (ScteSubtParse.pictureFrame d).bottom_v (ScteSubtParse.pictureFrame d).top_v =
      d.height ∧
    u32sub d.bitmap.top_h (ScteSubtParse.pictureFrame d).top_h = d.column ∧
    u32sub d.bitmap.top_v (ScteSubtParse.pictureFrame d).top_v = d.row := by
  obtain ⟨hright, hbottom⟩ := h.margin_lt
  obtain ⟨hbh, hbv, hth, htv, heh, hev, hlh, hlv, -, -, -⟩ := h
  have hframe : ScteSubtParse.pictureFrame d =
      { top_h := u32sub d.frame.top_h d.margin.1
        top_v := u32sub d.frame.top_v d.margin.2
        bottom_h := u32 (d.frame.bottom_h + d.margin.1)
        bottom_v := u32 (d.frame.bottom_v + d.margin.2) } := rfl
  simp only [hframe, Decoding.width, Decoding.height, Decoding.column, Decoding.row, u32sub, u32]
  omega

/-- The picture is not too large. -/
theorem size_lt (h : d.Proper) : d.width * d.height * SCTE_SUBT_BPP < 4294967296 := by
  obtain ⟨hright, hbottom⟩ := h.margin_lt
  have hwidth : d.width ≤ 4128 := by
    have := h.limit_h
    simp only [Decoding.width]
    omega
  have hheight : d.height ≤ 4128 := by
    have := h.limit_v
    simp only [Decoding.height]
    omega
  calc d.width * d.height * SCTE_SUBT_BPP ≤ 4128 * 4128 * 4 :=
        Nat.mul_le_mul_right 4 (Nat.mul_le_mul hwidth hheight)
    _ < 4294967296 := by decide

end Decoding.Proper

/-! ## What is drawn -/

theorem mem_framePixels {w h x y : Nat} : (x, y) ∈ framePixels w h ↔ x < w ∧ y < h := by
  simp only [framePixels, List.mem_flatMap, List.mem_map, List.mem_range, Prod.mk.injEq]
  constructor
  · rintro ⟨row, hrow, col, hcol, rfl, rfl⟩
    exact ⟨hcol, hrow⟩
  · rintro ⟨hx, hy⟩
    exact ⟨y, hy, x, hx, rfl, rfl⟩

/-- The pixel of the picture is one of the bitmap that is on. -/
def Decoding.On (d : Decoding) (bitmap : List Bool) (x y : Nat) : Prop :=
  ∃ bx < d.bitmap.bottom_h - d.bitmap.top_h, ∃ by_ < d.bitmap.bottom_v - d.bitmap.top_v,
    bitmap.getD (by_ * (d.bitmap.bottom_h - d.bitmap.top_h) + bx) false = true ∧
      x = bx + d.column ∧ y = by_ + d.row

/-- The pixels of the bitmap that are on, in the picture. -/
def Decoding.onPixels (d : Decoding) (bitmap : List Bool) : List (Nat × Nat) :=
  (bitmapPixels bitmap (d.bitmap.bottom_h - d.bitmap.top_h)
    (d.bitmap.bottom_v - d.bitmap.top_v)).map fun p => (p.1 + d.column, p.2 + d.row)

theorem mem_onPixels {d : Decoding} {bitmap : List Bool} {x y : Nat} :
    (x, y) ∈ d.onPixels bitmap ↔ d.On bitmap x y := by
  simp only [Decoding.onPixels, bitmapPixels, List.mem_map, List.mem_filter, Prod.exists,
    mem_framePixels, Prod.mk.injEq, Decoding.On]
  constructor
  · rintro ⟨bx, by_, ⟨⟨hx, hy⟩, hon⟩, rfl, rfl⟩
    exact ⟨bx, hx, by_, hy, hon, rfl, rfl⟩
  · rintro ⟨bx, hx, by_, hy, hon, rfl, rfl⟩
    exact ⟨bx, by_, ⟨⟨hx, hy⟩, hon⟩, rfl, rfl⟩

/-- Two pixels are no further apart than `t`. -/
def Within (t : Nat) (p q : Nat × Nat) : Prop :=
  ((p.1 : Int) - q.1) * (p.1 - q.1) + ((p.2 : Int) - q.2) * (p.2 - q.2) ≤ (t * t : Nat)

/-- Pixels that are no further apart than `t` are so in each direction. -/
theorem Within.natAbs_le {t : Nat} {p q : Nat × Nat} (h : Within t p q) :
    ((p.1 : Int) - q.1).natAbs ≤ t ∧ ((p.2 : Int) - q.2).natAbs ≤ t ∧
      ((p.1 : Int) - q.1).natAbs * ((p.1 : Int) - q.1).natAbs +
        ((p.2 : Int) - q.2).natAbs * ((p.2 : Int) - q.2).natAbs ≤ t * t := by
  have hle : ((p.1 : Int) - q.1).natAbs * ((p.1 : Int) - q.1).natAbs +
      ((p.2 : Int) - q.2).natAbs * ((p.2 : Int) - q.2).natAbs ≤ t * t := by
    rw [Within, ← Int.natAbs_mul_self (a := (p.1 : Int) - q.1),
      ← Int.natAbs_mul_self (a := (p.2 : Int) - q.2)] at h
    exact_mod_cast h
  have hof : ∀ {k : Nat}, k * k ≤ t * t → k ≤ t := fun hk => Nat.mul_self_le_mul_self_iff.mp hk
  exact ⟨hof (by omega), hof (by omega), hle⟩

/-- The pixels around one of the bitmap are those no further away than the thickness. -/
theorem mem_outlinePixels {t : Nat} {p : Nat × Nat} (hlo : t ≤ p.1 ∧ t ≤ p.2)
    (hhi : p.1 + t < 4294967296 ∧ p.2 + t < 4294967296) {x y : Nat} :
    (x, y) ∈ outlinePixels t p ↔ (x, y) ≠ p ∧ Within t (x, y) p := by
  obtain ⟨a, b⟩ := p
  have hsquare : ∀ k : Nat, ((k : Int)) * k = (k * k : Nat) := fun k => (Int.natCast_mul k k).symm
  simp only [outlinePixels, List.mem_flatMap, List.mem_range]
  constructor
  · rintro ⟨dy, hdy, dx, hdx, hmem⟩
    split at hmem
    · rename_i hcircle
      simp only [circle, decide_eq_true_eq] at hcircle
      obtain ⟨hpos, hle⟩ := hcircle
      rw [u32_of_lt (by omega), u32_of_lt (by omega), u32sub_of_le (by omega) (by omega),
        u32sub_of_le (by omega) (by omega)] at hmem
      -- The distances are `dx` and `dy` in each of the four corners.
      have hx : (x : Int) - a = dx ∨ (x : Int) - a = -dx := by
        simp only [List.mem_cons, Prod.mk.injEq, List.not_mem_nil, or_false] at hmem
        omega
      have hy : (y : Int) - b = dy ∨ (y : Int) - b = -dy := by
        simp only [List.mem_cons, Prod.mk.injEq, List.not_mem_nil, or_false] at hmem
        omega
      refine ⟨fun heq => ?_, ?_⟩
      · obtain ⟨rfl, rfl⟩ := Prod.mk.inj heq
        omega
      · have hxx : ((x : Int) - a) * (x - a) = (dx * dx : Nat) := by
          rw [← hsquare]
          rcases hx with h | h
          · rw [h]
          · rw [h, Int.neg_mul_neg]
        have hyy : ((y : Int) - b) * (y - b) = (dy * dy : Nat) := by
          rw [← hsquare]
          rcases hy with h | h
          · rw [h]
          · rw [h, Int.neg_mul_neg]
        simp only [Within, hxx, hyy]
        exact_mod_cast hle
    · simp at hmem
  · rintro ⟨hne, hle⟩
    obtain ⟨hdx, hdy, hle⟩ := Within.natAbs_le hle
    dsimp only at hdx hdy hle
    refine ⟨((y : Int) - b).natAbs, by omega, ((x : Int) - a).natAbs, by omega, ?_⟩
    have hpos : 0 < ((x : Int) - a).natAbs ∨ 0 < ((y : Int) - b).natAbs := by
      by_contra hzero
      exact hne (Prod.ext (by simp only; omega) (by simp only; omega))
    have hcircle : circle t ((y : Int) - b).natAbs ((x : Int) - a).natAbs = true := by
      simp only [circle, decide_eq_true_eq]
      exact ⟨hpos, hle⟩
    rw [if_pos hcircle, u32_of_lt (by omega), u32_of_lt (by omega),
      u32sub_of_le (by omega) (by omega), u32sub_of_le (by omega) (by omega)]
    simp only [List.mem_cons, Prod.mk.injEq, List.not_mem_nil, or_false]
    omega

namespace Decoding.Proper

variable {d : Decoding}

/-- The pixels of the bitmap are in the picture, with the room for the outline or shadow. -/
theorem onPixels_lt (h : d.Proper) (bitmap : List Bool) : ∀ p ∈ d.onPixels bitmap,
    (d.margin.1 ≤ p.1 ∧ d.margin.2 ≤ p.2) ∧
      p.1 + d.margin.1 < d.width ∧ p.2 + d.margin.2 < d.height := by
  rintro ⟨x, y⟩ hp
  obtain ⟨bx, hbx, by_, hby, -, rfl, rfl⟩ := mem_onPixels.mp hp
  obtain ⟨hbh, hbv, hth, htv, heh, hev, -⟩ := h
  simp only [Decoding.width, Decoding.height, Decoding.column, Decoding.row]
  omega

end Decoding.Proper

/-- The pixels of the outline or shadow. -/
def Decoding.aroundPixels (d : Decoding) (bitmap : List Bool) : List (Nat × Nat) :=
  if d.outline_style = 1 then (d.onPixels bitmap).flatMap (outlinePixels d.outline_thickness)
  else if d.outline_style = 2 then
    (d.onPixels bitmap).map fun p => (p.1 + d.shadow_right, p.2 + d.shadow_bottom)
  else []

/-- The pixel of the picture is around one of the bitmap that is on. -/
def Decoding.Around (d : Decoding) (bitmap : List Bool) (x y : Nat) : Prop :=
  (d.outline_style = 1 ∧
    ∃ p : Nat × Nat, d.On bitmap p.1 p.2 ∧ (x, y) ≠ p ∧ Within d.outline_thickness (x, y) p) ∨
  (d.outline_style = 2 ∧
    ∃ p : Nat × Nat, d.On bitmap p.1 p.2 ∧ (x, y) = (p.1 + d.shadow_right, p.2 + d.shadow_bottom))

namespace Decoding.Proper

variable {d : Decoding}

theorem mem_outline (h : d.Proper) (hstyle : d.outline_style = 1) {bitmap : List Bool}
    {p : Nat × Nat} (hp : p ∈ d.onPixels bitmap) {x y : Nat} :
    (x, y) ∈ outlinePixels d.outline_thickness p ↔
      (x, y) ≠ p ∧ Within d.outline_thickness (x, y) p := by
  have hmargin : d.margin = (d.outline_thickness, d.outline_thickness) := if_pos hstyle
  obtain ⟨hlo, hx, hy⟩ := h.onPixels_lt bitmap p hp
  have hwidth := h.limit_h
  have hheight := h.limit_v
  have hthick := h.outline_thickness
  rw [hmargin] at hlo hx hy
  simp only [Decoding.width, Decoding.height, hmargin] at hx hy
  exact mem_outlinePixels hlo ⟨by omega, by omega⟩

theorem mem_aroundPixels (h : d.Proper) {bitmap : List Bool} {x y : Nat} :
    (x, y) ∈ d.aroundPixels bitmap ↔ d.Around bitmap x y := by
  simp only [Decoding.aroundPixels, Decoding.Around]
  by_cases hone : d.outline_style = 1
  · rw [if_pos hone, List.mem_flatMap]
    simp only [hone, true_and, show (1 : Nat) ≠ 2 by decide, false_and, or_false]
    constructor
    · rintro ⟨p, hp, hmem⟩
      exact ⟨p, mem_onPixels.mp hp, (h.mem_outline hone hp).mp hmem⟩
    · rintro ⟨p, hp, hmem⟩
      exact ⟨p, mem_onPixels.mpr hp, (h.mem_outline hone (mem_onPixels.mpr hp)).mpr hmem⟩
  · rw [if_neg hone]
    by_cases htwo : d.outline_style = 2
    · rw [if_pos htwo, List.mem_map]
      simp only [htwo, true_and, show (2 : Nat) ≠ 1 by decide, false_and, false_or]
      constructor
      · rintro ⟨p, hp, heq⟩
        exact ⟨p, mem_onPixels.mp hp, heq.symm⟩
      · rintro ⟨p, hp, heq⟩
        exact ⟨p, mem_onPixels.mpr hp, heq.symm⟩
    · simp [hone, htwo]

/-- The pixels of the outline or shadow are in the picture. -/
theorem aroundPixels_lt (h : d.Proper) (bitmap : List Bool) :
    ∀ p ∈ d.aroundPixels bitmap, p.1 < d.width ∧ p.2 < d.height := by
  rintro ⟨x, y⟩ hmem
  rcases h.mem_aroundPixels.mp hmem with ⟨hstyle, p, hon, -, hnear⟩ | ⟨hstyle, p, hon, heq⟩
  · have hmargin : d.margin = (d.outline_thickness, d.outline_thickness) := if_pos hstyle
    obtain ⟨-, hx, hy⟩ := h.onPixels_lt bitmap p (mem_onPixels.mpr hon)
    rw [hmargin] at hx hy
    obtain ⟨hdx, hdy, -⟩ := hnear.natAbs_le
    dsimp only at hdx hdy
    constructor <;> omega
  · have hmargin : d.margin = (d.shadow_right, d.shadow_bottom) := by
      rw [Decoding.margin, if_neg (by omega), if_pos hstyle]
    obtain ⟨-, hx, hy⟩ := h.onPixels_lt bitmap p (mem_onPixels.mpr hon)
    obtain ⟨rfl, rfl⟩ := Prod.mk.inj heq
    rw [hmargin] at hx hy
    exact ⟨hx, hy⟩

/-- The stores of the picture, from the background to the characters. -/
theorem drawStores_eq (h : d.Proper) (bitmap : List Bool) :
    drawStores d bitmap =
      (if d.is_framed ≠ 0 then framePixels d.width d.height else []).flatMap
          (setPixel (d.width * SCTE_SUBT_BPP) d.stOutputData.stFramed.u32FrameColor) ++
        (d.aroundPixels bitmap).flatMap
          (setPixel (d.width * SCTE_SUBT_BPP) d.stOutputData.unOutlineStyle) ++
        (d.onPixels bitmap).flatMap
          (setPixel (d.width * SCTE_SUBT_BPP) d.stOutputData.u32SubtColor) := by
  obtain ⟨hwidth, hheight, hcolumn, hrow⟩ := h.pictureFrame
  have hlimit : d.width ≤ 4128 ∧ d.height ≤ 4128 := by
    obtain ⟨hright, hbottom⟩ := h.margin_lt
    have hlh := h.limit_h
    have hlv := h.limit_v
    simp only [Decoding.width, Decoding.height]
    omega
  -- No position in the picture is too large.
  have hon : (bitmapPixels bitmap (d.bitmap.bottom_h - d.bitmap.top_h)
      (d.bitmap.bottom_v - d.bitmap.top_v)).map (fun p =>
        (u32 (p.1 + d.column), u32 (p.2 + d.row))) = d.onPixels bitmap := by
    refine List.map_congr_left fun p hp => ?_
    obtain ⟨-, hx, hy⟩ := h.onPixels_lt bitmap _ (List.mem_map_of_mem hp)
    rw [u32_of_lt (by omega), u32_of_lt (by omega)]
  have hshadow : d.outline_style = 2 → (d.onPixels bitmap).map (fun p =>
      (u32 (p.1 + d.shadow_right), u32 (p.2 + d.shadow_bottom))) =
        (d.onPixels bitmap).map fun p => (p.1 + d.shadow_right, p.2 + d.shadow_bottom) := by
    intro hstyle
    refine List.map_congr_left fun p hp => ?_
    obtain ⟨-, hx, hy⟩ := h.onPixels_lt bitmap p hp
    have hright := h.shadow_right
    have hbottom := h.shadow_bottom
    rw [u32_of_lt (by omega), u32_of_lt (by omega)]
  simp only [drawStores, hwidth, hheight, hcolumn, hrow, hon, Decoding.aroundPixels]
  congr 1
  congr 1
  · split <;> rfl
  · split
    · rfl
    · split
      · rename_i hstyle
        rw [hshadow hstyle]
      · rfl

/-- Every pixel is set within the picture. -/
theorem drawStores_within (h : d.Proper) (bitmap : List Bool) :
    ∀ s ∈ drawStores d bitmap, s.Within (d.width * d.height * SCTE_SUBT_BPP) := by
  have hpixels : ∀ (pixels : List (Nat × Nat)) (value : Nat),
      (∀ p ∈ pixels, p.1 < d.width ∧ p.2 < d.height) →
      ∀ s ∈ pixels.flatMap (setPixel (d.width * SCTE_SUBT_BPP) value),
        s.Within (d.width * d.height * SCTE_SUBT_BPP) := by
    intro pixels value hpixels s hs
    obtain ⟨p, hp, hs⟩ := List.mem_flatMap.mp hs
    exact setPixel_within h.size_lt (hpixels p hp) value s hs
  rw [h.drawStores_eq]
  refine List.forall_mem_append.mpr ⟨List.forall_mem_append.mpr
    ⟨hpixels _ _ ?_, hpixels _ _ (h.aroundPixels_lt bitmap)⟩, hpixels _ _ ?_⟩
  · split
    · exact fun p hp => mem_framePixels.mp hp
    · simp
  · intro p hp
    obtain ⟨-, hx, hy⟩ := h.onPixels_lt bitmap p hp
    exact ⟨by omega, by omega⟩

open Classical in
/-- The colour of each pixel: that of the characters, the outline or shadow, or the frame. -/
theorem read_drawStores (h : d.Proper) (bitmap : List Bool) {m : Memory UInt8}
    (hm : ∀ a, m a = 0) {x y : Nat} (hx : x < d.width) (hy : y < d.height) :
    (runAll m (drawStores d bitmap)).read (y * (d.width * SCTE_SUBT_BPP) + 4 * x) 4 =
      colourBytes
        (if d.On bitmap x y then d.stOutputData.u32SubtColor
        else if d.Around bitmap x y then d.stOutputData.unOutlineStyle
        else if d.is_framed ≠ 0 then d.stOutputData.stFramed.u32FrameColor
        else 0) := by
  have hon : ∀ p ∈ d.onPixels bitmap, p.1 < d.width ∧ p.2 < d.height := fun p hp => by
    obtain ⟨-, hx, hy⟩ := h.onPixels_lt bitmap p hp
    exact ⟨by omega, by omega⟩
  rw [h.drawStores_eq, runAll_append, runAll_append,
    read_setPixels _ h.size_lt _ hon hx,
    read_setPixels _ h.size_lt _ (h.aroundPixels_lt bitmap) hx]
  simp only [mem_onPixels, h.mem_aroundPixels]
  split_ifs with hin haround hframed
  · rfl
  · rfl
  · rw [read_setPixels _ h.size_lt _ (fun p hp => mem_framePixels.mp hp) hx,
      if_pos (mem_framePixels.mpr ⟨hx, hy⟩)]
  · simp only [List.flatMap_nil, runAll, Memory.read, hm]
    rfl

end Decoding.Proper

end Tntsat.ScteSubtParse
