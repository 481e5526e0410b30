import Mathlib.Algebra.Group.Nat.Defs
import Mathlib.Data.UInt
import Tntsat.ForStd.Machine

/-!
# CEA-608 captions on a screen of characters (`mt_cc_parse.c`)

`CcProcess` takes triplets apart, `process_cc608` drops repeated commands and passes the others
to the functions that move a cursor over two screens of 15 rows and draw what is written.

A row is a vector of 33 cells. A load or a store outside its row is not carried out: the function
that makes it stops with `none`. What `pfnCCDisplay` has been called with is kept in `shown`.
-/

namespace Tntsat.CcParse

/-- `EIA608_SCREEN_ROWS`. -/
def eia608ScreenRows : Nat := 15

/-- `EIA608_SCREEN_COLUMNS`. -/
def eia608ScreenColumns : Nat := 32

/-- `eia608_mode_t`. -/
inductive Eia608Mode
  | popon
  | rollup2
  | rollup3
  | rollup4
  | painton
  | text
deriving DecidableEq

/-! ## Tables -/

/-- The numbers of `CcDisplayColor_t` that occur in `pac2_attribs`. -/
def ccColorBlue : UInt8 := 1
def ccColorGreen : UInt8 := 2
def ccColorRed : UInt8 := 3
def ccColorWhite : UInt8 := 4
def ccColorYellow : UInt8 := 5
def ccColorCyan : UInt8 := 7
def ccColorMagenta : UInt8 := 8

/-- The numbers of `enum cc_font`. -/
def ccFontRegular : UInt8 := 0
def ccFontItalics : UInt8 := 1
def ccFontUnderlined : UInt8 := 2
def ccFontUnderlinedItalics : UInt8 := 3

/-- The numbers of `enum cc_charset`. -/
def ccsetBasicAmerican : UInt8 := 0
def ccsetSpecialAmerican : UInt8 := 1
def ccsetExtendedSpanishFrenchMisc : UInt8 := 2
def ccsetExtendedPortugueseGermanDanish : UInt8 := 3

/-- One line of `charset_overrides`, from the entries that are given. -/
def overrides (entries : List (Nat × UInt16)) : Vector UInt16 128 :=
  Vector.ofFn fun i => (entries.lookup i.val).getD 0

/-- `charset_overrides`. -/
def charsetOverrides : Vector (Vector UInt16 128) 4 :=
  #v[overrides [(0x27, 0x2019), (0x2a, 0x00e1), (0x5c, 0x00e9), (0x5e, 0x00ed), (0x5f, 0x00f3),
      (0x60, 0x00fa), (0x7b, 0x00e7), (0x7c, 0x00f7), (0x7d, 0x00d1), (0x7e, 0x00f1),
      (0x7f, 0x2588)],
    overrides [(0x30, 0x00ae), (0x31, 0x00b0), (0x32, 0x00bd), (0x33, 0x00bf), (0x34, 0x2122),
      (0x35, 0x00a2), (0x36, 0x00a3), (0x37, 0x266a), (0x38, 0x00e0), (0x39, 0x00a0),
      (0x3a, 0x00e8), (0x3b, 0x00e2), (0x3c, 0x00ea), (0x3d, 0x00ee), (0x3e, 0x00f4),
      (0x3f, 0x00fb)],
    overrides [(0x20, 0x00c1), (0x21, 0x00c9), (0x22, 0x00d3), (0x23, 0x00da), (0x24, 0x00dc),
      (0x25, 0x00fc), (0x26, 0x00b4), (0x27, 0x00a1), (0x28, 0xff0a), (0x29, 0x2018),
      (0x2a, 0x2013), (0x2b, 0x00a9), (0x2c, 0x2120), (0x2d, 0x00b7), (0x2e, 0x201c),
      (0x2f, 0x201d), (0x30, 0x00c0), (0x31, 0x00c2), (0x32, 0x00c7), (0x33, 0x00c8),
      (0x34, 0x00ca), (0x35, 0x00cb), (0x36, 0x00eb), (0x37, 0x00ce), (0x38, 0x00cf),
      (0x39, 0x00ef), (0x3a, 0x00d4), (0x3b, 0x00d9), (0x3c, 0x00f9), (0x3d, 0x00db),
      (0x3e, 0x00ab), (0x3f, 0x00bb)],
    overrides [(0x20, 0x00c3), (0x21, 0x00e3), (0x22, 0x00cd), (0x23, 0x00cc), (0x24, 0x00ec),
      (0x25, 0x00d2), (0x26, 0x00f2), (0x27, 0x00d5), (0x28, 0x00f5), (0x29, 0x007b),
      (0x2a, 0x007d), (0x2b, 0x005c), (0x2c, 0x005e), (0x2d, 0x005f), (0x2e, 0xff5c),
      (0x2f, 0xff5e), (0x30, 0x00c4), (0x31, 0x00e4), (0x32, 0x00d6), (0x33, 0x00f6),
      (0x34, 0x00df), (0x35, 0x00a5), (0x36, 0x00a4), (0x37, 0x00a6), (0x38, 0x00c5),
      (0x39, 0x00e5), (0x3a, 0x00d8), (0x3b, 0x00f8), (0x3c, 0x250c), (0x3d, 0x2510),
      (0x3e, 0x2514), (0x3f, 0x2518)]]

/-- A line of `pac2_attribs`: color, font and indent. -/
structure PacAttrib where
  color : UInt8
  font : UInt8
  indent : Nat

/-- `pac2_attribs`. -/
def pac2Attribs : Vector PacAttrib 32 :=
  #v[⟨ccColorWhite, ccFontRegular, 0⟩, ⟨ccColorWhite, ccFontUnderlined, 0⟩,
    ⟨ccColorGreen, ccFontRegular, 0⟩, ⟨ccColorGreen, ccFontUnderlined, 0⟩,
    ⟨ccColorBlue, ccFontRegular, 0⟩, ⟨ccColorBlue, ccFontUnderlined, 0⟩,
    ⟨ccColorCyan, ccFontRegular, 0⟩, ⟨ccColorCyan, ccFontUnderlined, 0⟩,
    ⟨ccColorRed, ccFontRegular, 0⟩, ⟨ccColorRed, ccFontUnderlined, 0⟩,
    ⟨ccColorYellow, ccFontRegular, 0⟩, ⟨ccColorYellow, ccFontUnderlined, 0⟩,
    ⟨ccColorMagenta, ccFontRegular, 0⟩, ⟨ccColorMagenta, ccFontUnderlined, 0⟩,
    ⟨ccColorWhite, ccFontItalics, 0⟩, ⟨ccColorWhite, ccFontUnderlinedItalics, 0⟩,
    ⟨ccColorWhite, ccFontRegular, 0⟩, ⟨ccColorWhite, ccFontUnderlined, 0⟩,
    ⟨ccColorWhite, ccFontRegular, 4⟩, ⟨ccColorWhite, ccFontUnderlined, 4⟩,
    ⟨ccColorWhite, ccFontRegular, 8⟩, ⟨ccColorWhite, ccFontUnderlined, 8⟩,
    ⟨ccColorWhite, ccFontRegular, 12⟩, ⟨ccColorWhite, ccFontUnderlined, 12⟩,
    ⟨ccColorWhite, ccFontRegular, 16⟩, ⟨ccColorWhite, ccFontUnderlined, 16⟩,
    ⟨ccColorWhite, ccFontRegular, 20⟩, ⟨ccColorWhite, ccFontUnderlined, 20⟩,
    ⟨ccColorWhite, ccFontRegular, 24⟩, ⟨ccColorWhite, ccFontUnderlined, 24⟩,
    ⟨ccColorWhite, ccFontRegular, 28⟩, ⟨ccColorWhite, ccFontUnderlined, 28⟩]

/-- `MT_UNF_CC_COLOR_S`. -/
structure Color where
  u8Alpha : UInt8 := 0
  u8Red : UInt8 := 0
  u8Green : UInt8 := 0
  u8Blue : UInt8 := 0
deriving DecidableEq

/-- `getCcColor`. -/
def getCcColor (color : UInt32) : Color :=
  if color = 0xff0000ff then ⟨0xff, 0, 0, 0xff⟩
  else if color = 0xff00ff00 then ⟨0xff, 0, 0xff, 0⟩
  else if color = 0xffff0000 then ⟨0xff, 0xff, 0, 0⟩
  else if color = 0xffffffff then ⟨0xff, 0xff, 0xff, 0xff⟩
  else if color = 0xffffff00 then ⟨0xff, 0xff, 0xff, 0⟩
  else if color = 0xff000000 then ⟨0xff, 0, 0, 0⟩
  else if color = 0xff00ffff then ⟨0xff, 0, 0xff, 0xff⟩
  else if color = 0xffff00ff then ⟨0xff, 0xff, 0, 0xff⟩
  else {}

/-! ## The state -/

/-- A row of a screen: the columns, and one cell for a null character. -/
abbrev Row := Vector UInt8 33

/-- `struct eia608_screen`. -/
structure Eia608Screen where
  characters : Nat → Row
  charsets : Nat → Row
  colors : Nat → Row
  fonts : Nat → Row
  row_used : UInt16

/-- A screen of zeros. -/
def Eia608Screen.zero : Eia608Screen where
  characters _ := Vector.replicate 33 0
  charsets _ := Vector.replicate 33 0
  colors _ := Vector.replicate 33 0
  fonts _ := Vector.replicate 33 0
  row_used := 0

/-- `MT_UNF_CC_RECT_S`. -/
structure Rect where
  x : UInt16
  y : UInt16
  width : UInt16
  height : UInt16
deriving DecidableEq

/-- `MT_UNF_CC_DISPLAY_PARAM_S`, as far as it differs between calls. -/
inductive Display
  | drawText (stRect : Rect) (pu16Text : List UInt16) (u8TextLen : Nat)
      (stFgColor stBgColor stEdgeColor : Color)
  | fillRect (stRect : Rect)
deriving DecidableEq

/-- The fields of `CLOSEDCP_PARAM_S` that the commands read and write; zeroed ones have the default
values. -/
structure ScreenParam where
  real_time : Bool := false
  screen : Bool → Eia608Screen := fun _ => .zero
  active_screen : Bool := false
  cursor_row : UInt8 := 0
  cursor_column : UInt8 := 0
  cursor_color : UInt8 := 0
  cursor_font : UInt8 := 0
  cursor_charset : UInt8 := 0
  mode : Eia608Mode := .popon
  rollup : Nat := 0
  paint_num : Int := 0
  color : UInt32 := 0
  bgColor : UInt32 := 0
  u32DisplayWidth : UInt32 := 0
  u32DisplayHeight : UInt32 := 0
  shown : List Display := []

/-- `CLOSEDCP_PARAM_S`, with what only the filter for repetitions reads. -/
structure ClosedcpParam extends ScreenParam where
  prev_cmd : UInt8 × UInt8 := (0, 0)

/-- The parameters with one of the screens changed. -/
def ScreenParam.setScreen (ctx : ScreenParam) (k : Bool) (s : Eia608Screen) : ScreenParam :=
  { ctx with screen := fun j => if j = k then s else ctx.screen j }

/-- A call to `pfnCCDisplay`. -/
def ScreenParam.display (ctx : ScreenParam) (d : Display) : ScreenParam :=
  { ctx with shown := ctx.shown ++ [d] }

/-- A row put in the place of another. -/
def setRow (rows : Nat → Row) (r : Nat) (row : Row) : Nat → Row :=
  fun i => if i = r then row else rows i

/-- A row of a screen, which has fifteen. -/
def rowAt (rows : Nat → Row) (r : Nat) : Option Row :=
  if r < eia608ScreenRows then some (rows r) else none

/-- A store into a row. -/
def store (row : Row) (j : Nat) (v : UInt8) : Option Row :=
  if h : j < 33 then some (row.set j v) else none

/-- `SET_FLAG`. -/
def setFlag (var : UInt16) (val : Nat) : UInt16 := var ||| (1 <<< UInt16.ofNat val)

/-- `UNSET_FLAG`. -/
def unsetFlag (var : UInt16) (val : Nat) : UInt16 := var &&& ~~~(1 <<< UInt16.ofNat val)

/-- `CHECK_FLAG`. -/
def checkFlag (var : UInt16) (val : Nat) : Bool := var &&& (1 <<< UInt16.ofNat val) ≠ 0

/-! ## Drawing -/

/-- The code point of a character. -/
def unicodeOf (charset ch : UInt8) : Option UInt16 := do
  let entries ← charsetOverrides[charset.toNat]?
  let override ← entries[ch.toNat]?
  some (if override ≠ 0 then override else ch.toUInt16)

/-- The text of a row: the leading spaces, the characters behind them, and what `strlen` counts
of these. -/
structure Line where
  j : Nat
  unicode_characters : List UInt16
  length : Nat

/-- The scans over a row that `write_char` and `capture_screen` make: behind the leading spaces,
up to the null character or the last column. -/
def scanRow (row charset : Row) : Option Line := do
  let j ← row.toList.findIdx? (· ≠ 0x20)
  let cells := (((row.toList.zip charset.toList).take eia608ScreenColumns).drop j).takeWhile
    (·.1 ≠ 0)
  let unicode_characters ← cells.mapM fun cell => unicodeOf cell.2 cell.1
  let strlen ← row.toList.findIdx? (· = 0)
  some ⟨j, unicode_characters, strlen - j⟩

/-- `DRAWTEXT` for the text of a row. -/
def drawText (ctx : ScreenParam) (r : Nat) (line : Line) : Display :=
  let x := UInt32.ofNat line.j * (ctx.u32DisplayWidth / 32) + 50
  let lineHeight := (ctx.u32DisplayHeight - 2 * 20) / 15
  .drawText
    { x := x.toUInt16
      y := (20 + UInt32.ofNat r * lineHeight).toUInt16
      width := (ctx.u32DisplayWidth - x.toUInt16.toUInt32).toUInt16
      height := (if lineHeight > 50 then 50 else lineHeight).toUInt16 }
    line.unicode_characters (line.length % 256)
    (getCcColor ctx.color) (getCcColor ctx.bgColor) (getCcColor ctx.bgColor)

/-- `CcClearScreen`. -/
def ccClearScreen (ctx : ScreenParam) : ScreenParam :=
  ctx.display (.fillRect
    { x := 0
      y := 0
      width := (ctx.u32DisplayWidth - 1).toUInt16
      height := (ctx.u32DisplayHeight - 1).toUInt16 })

/-- The part of `write_char` that shows the row written to, once every `show_quantity` times. -/
def paint (show_quantity : Int) (ctx : ScreenParam) (row charset : Row) :
    Option ScreenParam := do
  let line ← scanRow row charset
  if line.length ≠ 0 then
    let ctx := { ctx with paint_num := ctx.paint_num + 1 }
    if ctx.paint_num ≥ show_quantity then
      let ctx := { ctx with paint_num := 0 }
      some (ctx.display (drawText ctx ctx.cursor_row.toNat line))
    else some ctx
  else some ctx

/-- `write_char`. -/
def writeChar (show_quantity : Int) (ctx : ScreenParam) (screen : Bool) (ch : UInt8) :
    Option ScreenParam :=
  if ctx.mode = .text then some ctx
  else do
    let col := ctx.cursor_column.toNat
    let r := ctx.cursor_row.toNat
    let s := ctx.screen screen
    let row ← rowAt s.characters r
    let row ← store row col ch
    let row ← store row (col + 1) 0
    let font ← store (s.fonts r) col ctx.cursor_font
    let charset ← store (s.charsets r) col ctx.cursor_charset
    let s :=
      { s with
        characters := setRow s.characters r row
        fonts := setRow s.fonts r font
        charsets := setRow s.charsets r charset }
    let ctx : ScreenParam := { ctx.setScreen screen s with cursor_charset := ccsetBasicAmerican }
    if ch ≠ 0 then
      let ctx :=
        if col < eia608ScreenColumns - 1 then { ctx with cursor_column := ctx.cursor_column + 1 }
        else ctx
      if ctx.mode ≠ .popon then paint show_quantity ctx row charset else some ctx
    else some ctx

/-- `get_writing_screen`. -/
def getWritingScreen (ctx : ScreenParam) : Bool :=
  if ctx.mode = .popon then !ctx.active_screen else ctx.active_screen

/-- One row of `capture_screen`. -/
def captureRow (ctx : ScreenParam) (i : Nat) : Option ScreenParam :=
  let s := ctx.screen ctx.active_screen
  if checkFlag s.row_used i then do
    let line ← scanRow (s.characters i) (s.charsets i)
    if line.length ≠ 0 then
      let ctx := { ctx with paint_num := 0 }
      some (ctx.display (drawText ctx i line))
    else some ctx
  else some ctx

/-- `capture_screen`. -/
def captureScreen (ctx : ScreenParam) : Option ScreenParam :=
  if (ctx.screen ctx.active_screen).row_used = 0 then some (ccClearScreen ctx)
  else (List.range eia608ScreenRows).foldlM captureRow ctx

/-! ## Commands -/

/-- `memcpy` of the columns of a row. -/
def copyColumns (dst src : Row) : Row :=
  Vector.ofFn fun i => if i.val < eia608ScreenColumns then src[i] else dst[i]

/-- One row of the second loop of `roll_up`. -/
def rollRow (s : Eia608Screen) (i_row : Nat) : Eia608Screen :=
  if s.row_used = 0 then s
  else
    let dst := i_row % eia608ScreenRows
    let src := (i_row + 1) % eia608ScreenRows
    { characters := setRow s.characters dst (copyColumns (s.characters dst) (s.characters src))
      colors := setRow s.colors dst (copyColumns (s.colors dst) (s.colors src))
      fonts := setRow s.fonts dst (copyColumns (s.fonts dst) (s.fonts src))
      charsets := setRow s.charsets dst (copyColumns (s.charsets dst) (s.charsets src))
      row_used := if checkFlag s.row_used src then setFlag s.row_used dst else s.row_used }

/-- `roll_up`; no more rows are kept than there are above the cursor. -/
def rollUp (ctx : ScreenParam) : ScreenParam :=
  if ctx.mode = .text then ctx
  else
    let cursor_row := ctx.cursor_row.toNat
    let k := getWritingScreen ctx
    let keep_lines := if cursor_row + 1 > ctx.rollup then ctx.rollup else cursor_row + 1
    let s := ctx.screen k
    let unused := (List.range eia608ScreenRows).filter fun i =>
      ¬ (i + keep_lines > cursor_row ∧ i ≤ cursor_row)
    let s := { s with row_used := unused.foldl unsetFlag s.row_used }
    let s := ((List.range keep_lines).map
      (fun i => cursor_row + i + 1 + eia608ScreenRows - keep_lines)).foldl rollRow s
    ctx.setScreen k { s with row_used := unsetFlag s.row_used cursor_row }

/-- The flag of the row under the cursor. -/
def useRow (ctx : ScreenParam) (screen : Bool) : ScreenParam :=
  ctx.setScreen screen
    { ctx.screen screen with
      row_used := setFlag (ctx.screen screen).row_used ctx.cursor_row.toNat }

/-- `handle_textattr`. -/
def handleTextattr (show_quantity : Int) (ctx : ScreenParam) (lo : UInt8) :
    Option ScreenParam := do
  let i := lo.toNat - 0x20
  let screen := getWritingScreen ctx
  if i ≥ 32 then some ctx
  else
    let attrib ← pac2Attribs[i]?
    let ctx := { ctx with cursor_color := attrib.color, cursor_font := attrib.font }
    writeChar show_quantity (useRow ctx screen) screen 0x20

/-- `row_map`: the row of a preamble, or 0 where the source has -1. -/
def rowMap : Vector Nat 16 := #v[11, 0, 1, 2, 3, 4, 12, 13, 14, 15, 5, 6, 7, 8, 9, 10]

/-- `n` calls to `write_char` with a space. -/
def writeSpaces (show_quantity : Int) (screen : Bool) : Nat → ScreenParam → Option ScreenParam
  | 0, ctx => some ctx
  | n + 1, ctx => do
    let ctx ← writeChar show_quantity ctx screen 0x20
    writeSpaces show_quantity screen n ctx

/-- `handle_pac`. -/
def handlePac (show_quantity : Int) (ctx : ScreenParam) (hi lo : UInt8) :
    Option ScreenParam := do
  let index : UInt8 := ((hi <<< (1 : UInt8)) &&& 0x0e) ||| ((lo >>> (5 : UInt8)) &&& 0x01)
  let screen := getWritingScreen ctx
  let row ← rowMap[index.toNat]?
  if row = 0 then some ctx
  else
    let attrib ← pac2Attribs[(lo &&& 0x1f).toNat]?
    writeSpaces show_quantity screen attrib.indent
      { ctx with
        cursor_row := UInt8.ofNat (row - 1)
        cursor_color := attrib.color
        cursor_font := attrib.font
        cursor_charset := ccsetBasicAmerican
        cursor_column := 0 }

/-- A row of spaces with its null character. -/
def blankRow : Row := Vector.ofFn fun i => if i.val < eia608ScreenColumns then 0x20 else 0

/-- `handle_edm`. -/
def handleEdm (ctx : ScreenParam) : Option ScreenParam :=
  captureScreen (ctx.setScreen ctx.active_screen
    { Eia608Screen.zero with
      characters := fun i => if i < eia608ScreenRows then blankRow else Vector.replicate 33 0 })

/-- `handle_eoc`. -/
def handleEoc (ctx : ScreenParam) : Option ScreenParam := do
  let ctx ← handleEdm ctx
  captureScreen { ctx with active_screen := !ctx.active_screen, cursor_column := 0 }

/-- `handle_delete_end_of_row`. -/
def handleDeleteEndOfRow (show_quantity : Int) (ctx : ScreenParam) : Option ScreenParam :=
  writeChar show_quantity ctx (getWritingScreen ctx) 0

/-- The cursor one column back, where there is one. -/
def backUp (ctx : ScreenParam) : ScreenParam :=
  if ctx.cursor_column > 0 then { ctx with cursor_column := ctx.cursor_column - 1 } else ctx

/-- The `switch` of `handle_char`. -/
def firstChar (show_quantity : Int) (ctx : ScreenParam) (screen : Bool) (hi : UInt8) :
    Option ScreenParam :=
  if hi = 0x11 then some { ctx with cursor_charset := ccsetSpecialAmerican }
  else if hi = 0x12 then
    some { backUp ctx with cursor_charset := ccsetExtendedSpanishFrenchMisc }
  else if hi = 0x13 then
    some { backUp ctx with cursor_charset := ccsetExtendedPortugueseGermanDanish }
  else writeChar show_quantity { ctx with cursor_charset := ccsetBasicAmerican } screen hi

/-- `handle_char`; its `char` parameters are signed, so bytes from 0x80 on are below 0x20. -/
def handleChar (show_quantity : Int) (ctx : ScreenParam) (hi lo : UInt8) : Option ScreenParam := do
  let screen := getWritingScreen ctx
  let ctx ← firstChar show_quantity (useRow ctx screen) screen hi
  if lo < 0x20 ∨ lo ≥ 0x80 then some ctx
  else if lo ≠ 0 then writeChar show_quantity ctx screen lo
  else some ctx

/-- `handle_erase`; `i_column` has 8 bits, and `i_column < 0` never holds. -/
def handleErase (ctx : ScreenParam) : Option ScreenParam :=
  let screen := getWritingScreen ctx
  let r := ctx.cursor_row.toNat
  let i_column := ctx.cursor_column - 1
  if ctx.mode = .text then some ctx
  else do
    let s := ctx.screen screen
    let row ← rowAt s.characters r
    let row ← store row i_column.toNat 0x20
    some { ctx.setScreen screen { s with characters := setRow s.characters r row } with
      cursor_column := ctx.cursor_column - 1 }

/-- The commands of 0x14, 0x15 and 0x1c. -/
def miscCommand (show_quantity : Int) (ctx : ScreenParam) (lo : UInt8) : Option ScreenParam :=
  if lo = 0x20 then some { ctx with mode := .popon }
  else if lo = 0x21 then handleErase ctx
  else if lo = 0x24 then handleDeleteEndOfRow show_quantity ctx
  else if lo = 0x25 then some { ctx with mode := .rollup2, rollup := lo.toNat - 0x23 }
  else if lo = 0x26 then some { ctx with mode := .rollup3, rollup := lo.toNat - 0x23 }
  else if lo = 0x27 then some { ctx with mode := .rollup4, rollup := lo.toNat - 0x23 }
  else if lo = 0x29 then some { ctx with mode := .painton }
  else if lo = 0x2b then some { ctx with mode := .text }
  else if lo = 0x2c then handleEdm ctx
  else if lo = 0x2d then
    let ctx := if ctx.real_time then ctx else rollUp ctx
    captureScreen (ccClearScreen { ctx with cursor_column := 0 })
  else if lo = 0x2e then
    some (ctx.setScreen (!ctx.active_screen)
      { ctx.screen (!ctx.active_screen) with row_used := 0 })
  else if lo = 0x2f then handleEoc ctx
  else some ctx

/-- `n` calls to `handle_char` with a space, for a tab. -/
def writeTabs (show_quantity : Int) : Nat → ScreenParam → Option ScreenParam
  | 0, ctx => some ctx
  | n + 1, ctx => do
    let ctx ← handleChar show_quantity ctx 0x20 0
    writeTabs show_quantity n ctx

/-- What `process_cc608` does with a pair that is no repetition. -/
def execute (show_quantity : Int) (new_channel : UInt8) (ctx : ScreenParam) (hi lo : UInt8) :
    Option ScreenParam :=
  if (hi = 0x10 ∧ lo ≥ 0x40 ∧ lo ≤ 0x5f) ∨ ((hi ≥ 0x11 ∧ hi ≤ 0x17) ∧ lo ≥ 0x40 ∧ lo ≤ 0x7f) then
    handlePac show_quantity ctx hi lo
  else if (hi = 0x11 ∧ lo ≥ 0x20 ∧ lo ≤ 0x2f) ∨ (hi = 0x17 ∧ lo ≥ 0x2e ∧ lo ≤ 0x2f) then
    handleTextattr show_quantity ctx lo
  else if hi = 0x14 ∨ hi = 0x15 ∨ hi = 0x1c then
    if new_channel ≠ 1 then some ctx else miscCommand show_quantity ctx lo
  else if hi ≥ 0x11 ∧ hi ≤ 0x13 then handleChar show_quantity ctx hi lo
  else if hi ≥ 0x20 then
    if new_channel ≠ 1 then some ctx
    else handleChar show_quantity ctx hi lo
  else if hi = 0x17 ∧ lo ≥ 0x21 ∧ lo ≤ 0x23 then writeTabs show_quantity (lo.toNat - 0x20) ctx
  else some ctx

/-- The pairs that `process_cc608` passes on: not null, and not the pair before. -/
def passes (ctx : ClosedcpParam) (hi lo : UInt8) : Bool :=
  ¬ (hi = 0 ∧ lo = 0) ∧ (hi, lo) ≠ ctx.prev_cmd

/-- `prev_cmd` behind a pair that is passed on: text that is written clears it. -/
def prevCmd (new_channel hi lo : UInt8) : UInt8 × UInt8 :=
  if hi ≥ 0x20 ∧ new_channel = 1 then (0, 0) else (hi, lo)

/-- `process_cc608`: the parameters behind it, and whether all accesses lie inside their rows.
Where one does not, the screens stay as they were. -/
def processCc608 (show_quantity : Int) (new_channel : UInt8) (ctx : ClosedcpParam)
    (hi lo : UInt8) : ClosedcpParam × Bool :=
  if passes ctx hi lo then
    let executed := execute show_quantity new_channel ctx.toScreenParam hi lo
    ({ executed.getD ctx.toScreenParam with prev_cmd := prevCmd new_channel hi lo },
      executed.isSome)
  else (ctx, true)

/-! ## Triplets -/

/-- `reverse8`. -/
def reverse8 (data : UInt8) : UInt8 :=
  (List.range 8).foldl
    (fun res k => (res <<< 1) ||| (if data &&& (1 <<< UInt8.ofNat k) ≠ 0 then 1 else 0)) 0

/-- Three bytes of `cc_data_buff`. -/
structure Triplet where
  b0 : UInt8
  b1 : UInt8
  b2 : UInt8
deriving DecidableEq

/-- The whole triplets of a buffer. -/
def triplets : List UInt8 → List Triplet
  | b0 :: b1 :: b2 :: rest => ⟨b0, b1, b2⟩ :: triplets rest
  | _ => []

/-- The parameters, with the statics `new_channel` and `top_field_first`. -/
structure State where
  ccParam : ClosedcpParam := {}
  new_channel : UInt8 := 1
  top_field_first : Bool := false

/-- The channel that a first byte of a pair selects. -/
def channelOf (new_channel hi : UInt8) : UInt8 :=
  if hi ≥ 0x10 ∧ hi ≤ 0x17 then 1
  else if hi ≥ 0x18 ∧ hi ≤ 0x1e then 2
  else new_channel

/-- A pair for `process_cc608`. -/
def State.pair (show_quantity : Int) (s : State) (hi lo : UInt8) : State × Bool :=
  let r := processCc608 show_quantity s.new_channel s.ccParam hi lo
  ({ s with ccParam := r.1 }, r.2)

/-- The first bytes of SCTE 20 triplets. -/
def isScte20 (t : Triplet) : Bool :=
  t.b0 &&& 0xf0 = 0x80 ∨ t.b0 &&& 0xf0 = 0x40 ∨ t.b0 &&& 0xf0 = 0x00

/-- `top_field_first` behind an SCTE 20 triplet, which need not tell it. -/
def fieldOrder (top_field_first : Bool) (t : Triplet) : Bool :=
  if t.b0 &&& 0xc0 = 0x40 then true
  else if t.b0 &&& 0xc0 = 0x80 then false
  else top_field_first

/-- `field_number` of an SCTE 20 triplet; 3 is treated as 1. -/
def fieldNumber (top_field_first : Bool) (t : Triplet) : UInt8 :=
  let field_number := ((t.b0 &&& 0x3) - 1) &&& 0x01
  if top_field_first then field_number else field_number ^^^ 0x01

/-- One turn of the loop of `CcProcess`. -/
def ccTriplet (show_quantity : Int) (s : State) (t : Triplet) : State × Bool :=
  if t.b0 = 0xfc then
    let hi := t.b1 &&& 0x7f
    let lo := t.b2 &&& 0x7f
    { s with new_channel := channelOf s.new_channel hi }.pair show_quantity hi lo
  else if isScte20 t then
    let s := { s with top_field_first := fieldOrder s.top_field_first t }
    if fieldNumber s.top_field_first t = 0 then
      s.pair show_quantity (reverse8 t.b1 &&& 0x7f) (reverse8 t.b2 &&& 0x7f)
    else (s, true)
  else (s, true)

/-- `CcProcess`, triplet by triplet; the output tells whether all accesses of the turn lie inside
their rows. -/
def machine (show_quantity : Int) : Machine State Triplet Bool where
  step := ccTriplet show_quantity

end Tntsat.CcParse
