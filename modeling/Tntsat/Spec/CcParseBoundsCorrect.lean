import Tntsat.ForStd.Gives
import Tntsat.Spec.CcParseChannelsCorrect

/-!
# Screen writes stay inside the screen

`RowOk` is what every writer leaves in a row: a null character in the last cell, where the scans
stop, and numbers in bounds of `charset_overrides`. `Bounded` says so of both screens, with a cursor
that stands on the screen. Every command keeps it but one: an erase in column 0, whose 8-bit
`i_column` is 255.

## Key results

- `scanRow_gives`: the scans over a row stop inside it
- `execute_gives`: a command keeps all accesses and the cursor on the screen
- `screens_inside_iff`: along every run from zeroed parameters, in exactly the runs that never erase in
  column 0
-/

namespace Tntsat.CcParse

/-! ## Rows -/

/-- What stands in a row and in its character sets. -/
structure RowOk (row charset : Row) : Prop where
  last : row[32] = 0
  chars : ∀ j (h : j < 33), row[j] < 0x80
  sets : ∀ j (h : j < 33), charset[j] < 4

theorem RowOk.zero : RowOk (Vector.replicate 33 0) (Vector.replicate 33 0) :=
  ⟨rfl, fun j h => by rw [Vector.getElem_replicate]; decide,
    fun j h => by rw [Vector.getElem_replicate]; decide⟩

theorem RowOk.blank : RowOk blankRow (Vector.replicate 33 0) := by
  refine ⟨rfl, fun j h => ?_, RowOk.zero.sets⟩
  rw [blankRow, Vector.getElem_ofFn]
  split <;> decide

/-- A character is written into a column, and a null character behind it. -/
theorem RowOk.write {row charset : Row} (h : RowOk row charset) {col : Nat} (hcol : col < 32)
    {ch cs : UInt8} (hch : ch < 0x80) (hcs : cs < 4) :
    RowOk ((row.set col ch).set (col + 1) 0) (charset.set col cs) := by
  refine ⟨?_, fun j hj => ?_, fun j hj => ?_⟩
  · rw [Vector.getElem_set]
    split
    · rfl
    · rw [Vector.getElem_set_ne _ _ (by omega)]
      exact h.last
  · rw [Vector.getElem_set]
    split
    · decide
    · rw [Vector.getElem_set]
      split
      · exact hch
      · exact h.chars j hj
  · rw [Vector.getElem_set]
    split
    · exact hcs
    · exact h.sets j hj

/-- A space is written into a column. -/
theorem RowOk.erase {row charset : Row} (h : RowOk row charset) {col : Nat} (hcol : col < 32) :
    RowOk (row.set col 0x20) charset := by
  refine ⟨?_, fun j hj => ?_, h.sets⟩
  · rw [Vector.getElem_set_ne _ _ (by omega)]
    exact h.last
  · rw [Vector.getElem_set]
    split
    · decide
    · exact h.chars j hj

/-- The columns of another row are copied, and the last cell stays. -/
theorem RowOk.copy {row charset row' charset' : Row} (h : RowOk row charset)
    (h' : RowOk row' charset') :
    RowOk (copyColumns row row') (copyColumns charset charset') := by
  refine ⟨?_, fun j hj => ?_, fun j hj => ?_⟩
  · rw [copyColumns, Vector.getElem_ofFn]
    exact h.last
  · rw [copyColumns, Vector.getElem_ofFn]
    split
    · exact h'.chars j hj
    · exact h.chars j hj
  · rw [copyColumns, Vector.getElem_ofFn]
    split
    · exact h'.sets j hj
    · exact h.sets j hj

/-- Character sets and characters in bounds are in bounds of `charset_overrides`. -/
theorem unicodeOf_gives {charset ch : UInt8} (hcs : charset < 4) (hch : ch < 0x80) :
    Gives (unicodeOf charset ch) fun _ => True := by
  have hcs' : charset.toNat < 4 := by simpa using UInt8.lt_iff_toNat_lt.mp hcs
  have hch' : ch.toNat < 128 := by simpa using UInt8.lt_iff_toNat_lt.mp hch
  unfold unicodeOf
  rw [Vector.getElem?_eq_getElem hcs']
  refine Gives.bind (Gives.some (P := fun _ => True) trivial) fun entries _ => ?_
  rw [Vector.getElem?_eq_getElem hch']
  exact Gives.bind (Gives.some (P := fun _ => True) trivial) fun override _ => Gives.some trivial

theorem findIdx_gives {l : List UInt8} {q : UInt8 → Bool} (h : ∃ x ∈ l, q x = true) :
    Gives (l.findIdx? q) fun _ => True := by
  obtain ⟨x, hx, hq⟩ := h
  have hsome : (l.findIdx? q).isSome = true := by
    rw [List.findIdx?_isSome, List.any_eq_true]
    exact ⟨x, hx, hq⟩
  obtain ⟨i, hi⟩ := Option.isSome_iff_exists.mp hsome
  exact ⟨i, hi, trivial⟩

/-- The scans over a row stop inside it. -/
theorem scanRow_gives {row charset : Row} (h : RowOk row charset) :
    Gives (scanRow row charset) fun _ => True := by
  have hlast : (0 : UInt8) ∈ row.toList := by
    rw [← h.last]
    exact Vector.mem_toList_iff.mpr (Vector.getElem_mem _)
  have hcell : ∀ cell ∈ row.toList.zip charset.toList, cell.2 < 4 ∧ cell.1 < 0x80 := by
    intro cell hmem
    obtain ⟨j, hj, rfl⟩ := List.getElem_of_mem hmem
    rw [List.length_zip, Vector.length_toList, Vector.length_toList] at hj
    rw [List.getElem_zip]
    exact ⟨h.sets j (by omega), h.chars j (by omega)⟩
  unfold scanRow
  refine Gives.bind (findIdx_gives ⟨0, hlast, rfl⟩) fun j _ => ?_
  refine Gives.bind (Gives.mapM fun cell hmem => ?_) fun unicode _ => ?_
  · have hmem' := List.mem_of_mem_take (List.mem_of_mem_drop
      ((List.takeWhile_sublist _).subset hmem))
    exact unicodeOf_gives (hcell cell hmem').1 (hcell cell hmem').2
  · exact Gives.bind (findIdx_gives ⟨0, hlast, rfl⟩) fun strlen _ => Gives.some trivial

/-! ## Screens -/

/-- All rows of a screen. -/
def ScreenOk (s : Eia608Screen) : Prop := ∀ i, RowOk (s.characters i) (s.charsets i)

theorem ScreenOk.setRow {s : Eia608Screen} (h : ScreenOk s) {row charset : Row}
    (hrow : RowOk row charset) (r : Nat) (fonts colors : Nat → Row) (row_used : UInt16) :
    ScreenOk
      { characters := CcParse.setRow s.characters r row
        charsets := CcParse.setRow s.charsets r charset
        colors := colors
        fonts := fonts
        row_used := row_used } := by
  intro i
  dsimp only [CcParse.setRow]
  split
  · exact hrow
  · exact h i

theorem setRow_self (rows : Nat → Row) (r : Nat) : CcParse.setRow rows r (rows r) = rows := by
  funext i
  unfold CcParse.setRow
  split
  case isTrue hi => rw [hi]
  case isFalse => rfl

/-- Both screens, and a cursor that stands on them. -/
structure Bounded (ctx : ScreenParam) : Prop where
  screens : ∀ k, ScreenOk (ctx.screen k)
  row : ctx.cursor_row < 15
  column : ctx.cursor_column < 32
  charset : ctx.cursor_charset < 4

theorem Bounded.zero : Bounded {} :=
  ⟨fun _ _ => RowOk.zero, by decide, by decide, by decide⟩

theorem Bounded.setScreen {ctx : ScreenParam} (h : Bounded ctx) (k : Bool) {s : Eia608Screen}
    (hs : ScreenOk s) : Bounded (ctx.setScreen k s) := by
  refine ⟨fun j => ?_, h.row, h.column, h.charset⟩
  dsimp only [ScreenParam.setScreen]
  split
  · exact hs
  · exact h.screens j

theorem Bounded.useRow {ctx : ScreenParam} (h : Bounded ctx) (k : Bool) : Bounded (useRow ctx k) :=
  h.setScreen k (h.screens k)

/-- Only the screens and the cursor count. -/
theorem Bounded.congr {ctx ctx' : ScreenParam} (h : Bounded ctx) (hscreen : ctx'.screen = ctx.screen)
    (hrow : ctx'.cursor_row = ctx.cursor_row) (hcolumn : ctx'.cursor_column = ctx.cursor_column)
    (hcharset : ctx'.cursor_charset = ctx.cursor_charset) : Bounded ctx' :=
  ⟨hscreen ▸ h.screens, hrow ▸ h.row, hcolumn ▸ h.column, hcharset ▸ h.charset⟩

variable {show_quantity : Int} {ctx : ScreenParam}

theorem paint_gives (h : Bounded ctx) {row charset : Row} (hrow : RowOk row charset) :
    Gives (paint show_quantity ctx row charset) Bounded := by
  unfold paint
  refine Gives.bind (scanRow_gives hrow) fun line _ => ?_
  refine Gives.ite (fun _ => Gives.ite (fun _ => Gives.some ?_) fun _ => Gives.some ?_)
    fun _ => Gives.some h
  · exact h.congr rfl rfl rfl rfl
  · exact h.congr rfl rfl rfl rfl

theorem rowAt_gives {rows : Nat → Row} {r : Nat} (h : r < 15) :
    Gives (rowAt rows r) (· = rows r) := ⟨rows r, if_pos h, rfl⟩

theorem store_gives {row : Row} {j : Nat} (h : j < 33) (v : UInt8) :
    Gives (store row j v) (· = row.set j v) := ⟨_, dif_pos h, rfl⟩

theorem Bounded.setCharset (h : Bounded ctx) (charset : UInt8) (hcs : charset < 4) :
    Bounded { ctx with cursor_charset := charset } :=
  ⟨h.screens, h.row, h.column, hcs⟩

/-- The cursor goes on unless it stands in the last column. -/
theorem Bounded.advance (h : Bounded ctx) :
    Bounded
      (if ctx.cursor_column.toNat < eia608ScreenColumns - 1 then
        { ctx with cursor_column := ctx.cursor_column + 1 }
      else ctx) := by
  split
  case isTrue hlt =>
    refine ⟨h.screens, h.row, ?_, h.charset⟩
    dsimp only
    rw [UInt8.lt_iff_toNat_lt, UInt8.toNat_add]
    simp [eia608ScreenColumns] at hlt ⊢
    omega
  case isFalse => exact h

theorem writeChar_gives (h : Bounded ctx) (k : Bool) {ch : UInt8} (hch : ch < 0x80) :
    Gives (writeChar show_quantity ctx k ch) Bounded := by
  have hr : ctx.cursor_row.toNat < 15 := by simpa using UInt8.lt_iff_toNat_lt.mp h.row
  have hcol : ctx.cursor_column.toNat < 32 := by simpa using UInt8.lt_iff_toNat_lt.mp h.column
  have hold := h.screens k ctx.cursor_row.toNat
  have hnew := hold.write hcol hch h.charset
  unfold writeChar
  refine Gives.ite (fun _ => Gives.some h) fun _ => ?_
  refine Gives.bind (rowAt_gives hr) ?_
  rintro row rfl
  refine Gives.bind (store_gives (Nat.lt_succ_of_lt hcol) ch) ?_
  rintro row rfl
  refine Gives.bind (store_gives (Nat.succ_lt_succ hcol) 0) ?_
  rintro row rfl
  refine Gives.bind (store_gives (Nat.lt_succ_of_lt hcol) ctx.cursor_font) fun font _ => ?_
  refine Gives.bind (store_gives (Nat.lt_succ_of_lt hcol) ctx.cursor_charset) ?_
  rintro charset rfl
  have hscreen := (h.screens k).setRow hnew ctx.cursor_row.toNat
    (setRow (ctx.screen k).fonts ctx.cursor_row.toNat font) (ctx.screen k).colors
    (ctx.screen k).row_used
  have hbasic := (h.setScreen k hscreen).setCharset ccsetBasicAmerican (by decide)
  refine Gives.ite (fun _ => ?_) fun _ => Gives.some hbasic
  exact Gives.ite (fun _ => paint_gives hbasic.advance hnew) fun _ => Gives.some hbasic.advance

/-! ## The commands -/

theorem captureRow_gives (h : Bounded ctx) (i : Nat) : Gives (captureRow ctx i) Bounded := by
  unfold captureRow
  refine Gives.ite (fun _ => ?_) fun _ => Gives.some h
  refine Gives.bind (scanRow_gives (h.screens _ i)) fun line _ => ?_
  exact Gives.ite (fun _ => Gives.some (h.congr rfl rfl rfl rfl)) fun _ => Gives.some h

theorem captureScreen_gives (h : Bounded ctx) : Gives (captureScreen ctx) Bounded := by
  unfold captureScreen
  refine Gives.ite (fun _ => Gives.some (h.congr rfl rfl rfl rfl)) fun _ => ?_
  exact Gives.foldlM (fun _ i hi => captureRow_gives hi i) _ h

theorem rollRow_ok {s : Eia608Screen} (h : ScreenOk s) (i_row : Nat) : ScreenOk (rollRow s i_row) := by
  unfold rollRow
  split
  · exact h
  · exact h.setRow ((h _).copy (h _)) _ _ _ _

theorem rollRows_ok (l : List Nat) {s : Eia608Screen} (h : ScreenOk s) :
    ScreenOk (l.foldl rollRow s) := by
  induction l generalizing s with
  | nil => exact h
  | cons i l ih => exact ih (rollRow_ok h i)

theorem Bounded.rollUp (h : Bounded ctx) : Bounded (rollUp ctx) := by
  unfold CcParse.rollUp
  split
  · exact h
  · exact h.setScreen _ (rollRows_ok (s := { ctx.screen _ with row_used := _ }) _ (h.screens _))

theorem handleTextattr_gives (h : Bounded ctx) {lo : UInt8} :
    Gives (handleTextattr show_quantity ctx lo) Bounded := by
  unfold handleTextattr
  dsimp only
  by_cases hlo : lo.toNat - 0x20 ≥ 32
  · rw [if_pos hlo]
    exact Gives.some h
  rw [if_neg hlo, Vector.getElem?_eq_getElem (by omega)]
  refine Gives.bind (Gives.some (P := fun _ => True) trivial) fun attrib _ => ?_
  have hattrib : Bounded { ctx with cursor_color := attrib.color, cursor_font := attrib.font } :=
    h.congr rfl rfl rfl rfl
  exact writeChar_gives (hattrib.useRow _) _ (by decide)

theorem writeSpaces_gives (k : Bool) (n : Nat) (h : Bounded ctx) :
    Gives (writeSpaces show_quantity k n ctx) Bounded := by
  induction n generalizing ctx with
  | zero => exact Gives.some h
  | succ n ih => exact Gives.bind (writeChar_gives h k (by decide)) fun ctx' h' => ih h'

/-- A preamble puts the cursor into one of the rows. -/
theorem rowMap_lt (i : Nat) (h : i < 16) : rowMap[i] ≤ 15 := by
  revert i
  decide

theorem handlePac_gives (h : Bounded ctx) (hi lo : UInt8) :
    Gives (handlePac show_quantity ctx hi lo) Bounded := by
  -- both indices are masked to the size of their tables
  have hindex : (((hi <<< (1 : UInt8)) &&& 0x0e) ||| ((lo >>> (5 : UInt8)) &&& 0x01)).toNat < 16 := by
    rw [UInt8.toNat_or]
    refine Nat.or_lt_two_pow (n := 4) ?_ ?_
    · rw [UInt8.toNat_and]
      exact lt_of_le_of_lt Nat.and_le_right (by decide)
    · rw [UInt8.toNat_and]
      exact lt_of_le_of_lt Nat.and_le_right (by decide)
  have hattrib : (lo &&& 0x1f).toNat < 32 := by
    rw [UInt8.toNat_and]
    exact lt_of_le_of_lt Nat.and_le_right (by decide)
  unfold handlePac
  dsimp only
  rw [Vector.getElem?_eq_getElem hindex]
  -- the table of rows holds nothing above 15
  refine Gives.bind (P := (· ≤ 15)) (Gives.some (rowMap_lt _ hindex)) fun row hrow => ?_
  refine Gives.ite (fun _ => Gives.some h) fun hzero => ?_
  rw [Vector.getElem?_eq_getElem hattrib]
  refine Gives.bind (Gives.some (P := fun _ => True) trivial) fun attrib _ => ?_
  have hzero32 : (0 : UInt8) < 32 := by decide
  have hbasic : ccsetBasicAmerican < 4 := by decide
  refine writeSpaces_gives _ _ ⟨h.screens, ?_, hzero32, hbasic⟩
  dsimp only
  rw [UInt8.lt_iff_toNat_lt, UInt8.toNat_ofNat']
  simp
  omega

theorem handleEdm_gives (h : Bounded ctx) : Gives (handleEdm ctx) Bounded := by
  unfold handleEdm
  refine captureScreen_gives (h.setScreen _ fun i => ?_)
  dsimp only
  split
  · exact RowOk.blank
  · exact RowOk.zero

theorem handleEoc_gives (h : Bounded ctx) : Gives (handleEoc ctx) Bounded := by
  unfold handleEoc
  refine Gives.bind (handleEdm_gives h) fun ctx' h' => ?_
  have hzero32 : (0 : UInt8) < 32 := by decide
  exact captureScreen_gives ⟨h'.screens, h'.row, hzero32, h'.charset⟩

theorem Bounded.backUp (h : Bounded ctx) : Bounded (backUp ctx) := by
  unfold CcParse.backUp
  split
  case isTrue hpos =>
    refine ⟨h.screens, h.row, ?_, h.charset⟩
    have hlt := UInt8.lt_iff_toNat_lt.mp h.column
    have hpos' := UInt8.lt_iff_toNat_lt.mp hpos
    dsimp only
    rw [UInt8.lt_iff_toNat_lt, UInt8.toNat_sub]
    simp at hlt hpos' ⊢
    omega
  case isFalse => exact h

theorem handleChar_gives (h : Bounded ctx) {hi : UInt8} (hhi : hi < 0x80) (lo : UInt8) :
    Gives (handleChar show_quantity ctx hi lo) Bounded := by
  unfold handleChar
  have huse := h.useRow (getWritingScreen ctx)
  refine Gives.bind (P := Bounded) ?_ fun ctx' h' => ?_
  · unfold firstChar
    refine Gives.ite (fun _ => Gives.some (huse.setCharset _ (by decide))) fun _ => ?_
    refine Gives.ite (fun _ => Gives.some (huse.backUp.setCharset _ (by decide))) fun _ => ?_
    refine Gives.ite (fun _ => Gives.some (huse.backUp.setCharset _ (by decide))) fun _ => ?_
    exact writeChar_gives (huse.setCharset _ (by decide)) _ hhi
  · refine Gives.ite (fun _ => Gives.some h') fun hlo => ?_
    refine Gives.ite (fun _ => writeChar_gives h' _ ?_) fun _ => Gives.some h'
    exact UInt8.not_le.mp fun hge => hlo (Or.inr hge)

theorem writeTabs_gives (n : Nat) (h : Bounded ctx) :
    Gives (writeTabs show_quantity n ctx) Bounded := by
  induction n generalizing ctx with
  | zero => exact Gives.some h
  | succ n ih => exact Gives.bind (handleChar_gives h (by decide) 0) fun ctx' h' => ih h'

/-- An erase that writes in front of the row. -/
def AtMargin (ctx : ScreenParam) : Prop := ctx.mode ≠ .text ∧ ctx.cursor_column = 0

/-- An erase stays on the screen unless the cursor stands in column 0. -/
theorem handleErase_gives (h : Bounded ctx) (hmargin : ¬ AtMargin ctx) :
    Gives (handleErase ctx) Bounded := by
  have hr : ctx.cursor_row.toNat < 15 := by simpa using UInt8.lt_iff_toNat_lt.mp h.row
  unfold handleErase
  refine Gives.ite (fun _ => Gives.some h) fun hmode => ?_
  have hcol : (ctx.cursor_column - 1).toNat < 32 := by
    have hlt := UInt8.lt_iff_toNat_lt.mp h.column
    have hne : ctx.cursor_column.toNat ≠ 0 := fun hzero =>
      hmargin ⟨hmode, UInt8.toNat_inj.mp hzero⟩
    rw [UInt8.toNat_sub]
    simp at hlt ⊢
    omega
  refine Gives.bind (rowAt_gives hr) ?_
  rintro row rfl
  refine Gives.bind (store_gives (Nat.lt_succ_of_lt hcol) 0x20) ?_
  rintro row rfl
  have hscreen := (h.screens (getWritingScreen ctx)).setRow
    ((h.screens (getWritingScreen ctx) ctx.cursor_row.toNat).erase hcol) ctx.cursor_row.toNat
    (ctx.screen (getWritingScreen ctx)).fonts (ctx.screen (getWritingScreen ctx)).colors
    (ctx.screen (getWritingScreen ctx)).row_used
  rw [setRow_self] at hscreen
  have hset := h.setScreen (getWritingScreen ctx) hscreen
  refine Gives.some ⟨hset.screens, hset.row, ?_, hset.charset⟩
  exact UInt8.lt_iff_toNat_lt.mpr hcol

/-- In column 0 it stores into cell 255 of a row of 33. -/
theorem handleErase_atMargin (h : AtMargin ctx) : handleErase ctx = none := by
  have hcol : (ctx.cursor_column - 1).toNat = 255 := by
    rw [h.2]
    rfl
  have hout : ∀ row, store row 255 0x20 = none := fun row => dif_neg (by decide)
  unfold handleErase
  rw [if_neg h.1, hcol]
  refine Option.bind_eq_none_iff.mpr fun row _ => ?_
  rw [hout]
  rfl

theorem miscCommand_gives (h : Bounded ctx) (lo : UInt8) (hmargin : lo = 0x21 → ¬ AtMargin ctx) :
    Gives (miscCommand show_quantity ctx lo) Bounded := by
  have hzero32 : (0 : UInt8) < 32 := by decide
  unfold miscCommand
  refine Gives.ite (fun _ => Gives.some (h.congr rfl rfl rfl rfl)) fun _ => ?_
  refine Gives.ite (fun hlo => handleErase_gives h (hmargin hlo)) fun _ => ?_
  refine Gives.ite (fun _ => writeChar_gives h _ (by decide)) fun _ => ?_
  refine Gives.ite (fun _ => Gives.some (h.congr rfl rfl rfl rfl)) fun _ => ?_
  refine Gives.ite (fun _ => Gives.some (h.congr rfl rfl rfl rfl)) fun _ => ?_
  refine Gives.ite (fun _ => Gives.some (h.congr rfl rfl rfl rfl)) fun _ => ?_
  refine Gives.ite (fun _ => Gives.some (h.congr rfl rfl rfl rfl)) fun _ => ?_
  refine Gives.ite (fun _ => Gives.some (h.congr rfl rfl rfl rfl)) fun _ => ?_
  refine Gives.ite (fun _ => handleEdm_gives h) fun _ => ?_
  refine Gives.ite (fun _ => ?_) fun _ => ?_
  · -- a carriage return
    have hrolled : Bounded (if ctx.real_time then ctx else rollUp ctx) := by
      split
      · exact h
      · exact h.rollUp
    exact captureScreen_gives ⟨hrolled.screens, hrolled.row, hzero32, hrolled.charset⟩
  refine Gives.ite (fun _ => Gives.some (h.setScreen _ (h.screens _))) fun _ => ?_
  exact Gives.ite (fun _ => handleEoc_gives h) fun _ => Gives.some h

/-- The command that erases the character in front of the cursor. -/
def IsErase (hi lo : UInt8) : Prop := (hi = 0x14 ∨ hi = 0x15 ∨ hi = 0x1c) ∧ lo = 0x21

/-- A command keeps all accesses and the cursor on the screen, unless it erases in column 0. -/
theorem execute_gives (show_quantity : Int) (h : Bounded ctx) {new_channel hi lo : UInt8} (hhi : hi < 0x80)
    (hmargin : ¬ (IsErase hi lo ∧ new_channel = 1 ∧ AtMargin ctx)) :
    Gives (execute show_quantity new_channel ctx hi lo) Bounded := by
  unfold execute
  refine Gives.ite (fun _ => handlePac_gives h hi lo) fun _ => ?_
  refine Gives.ite (fun _ => handleTextattr_gives h) fun _ => ?_
  refine Gives.ite (fun hmisc => ?_) fun _ => ?_
  · refine Gives.ite (fun _ => Gives.some h) fun hchannel => ?_
    exact miscCommand_gives h lo fun hlo hat => hmargin ⟨⟨hmisc, hlo⟩, not_not.mp hchannel, hat⟩
  refine Gives.ite (fun _ => handleChar_gives h hhi lo) fun _ => ?_
  refine Gives.ite (fun _ => Gives.ite (fun _ => Gives.some h) fun _ => handleChar_gives h hhi lo)
    fun _ => ?_
  exact Gives.ite (fun _ => writeTabs_gives _ h) fun _ => Gives.some h

/-- An erase in column 0 leaves the row. -/
theorem execute_erase (show_quantity : Int) {new_channel hi lo : UInt8} (herase : IsErase hi lo) (hchannel : new_channel = 1)
    (hat : AtMargin ctx) : execute show_quantity new_channel ctx hi lo = none := by
  obtain ⟨hhi, rfl⟩ := herase
  subst hchannel
  have hmisc : miscCommand show_quantity ctx 0x21 = none := handleErase_atMargin hat
  rcases hhi with rfl | rfl | rfl <;> exact hmisc

/-! ## Runs -/

/-- What is asked of one turn of `CcProcess`. -/
structure Inside (show_quantity : Int) (s : State) (t : Triplet) : Prop where
  accesses : ((machine show_quantity).step s t).2 = true
  row : ((machine show_quantity).step s t).1.ccParam.cursor_row.toNat < eia608ScreenRows
  column : ((machine show_quantity).step s t).1.ccParam.cursor_column.toNat < eia608ScreenColumns

/-- The triplet carries an erase that is executed while the cursor stands in column 0 and the mode
is not text. -/
def ErasesAtMargin (s : State) (t : Triplet) : Prop :=
  ∃ p, pairOf s.top_field_first t = some p ∧ passes s.ccParam p.1 p.2 = true ∧ IsErase p.1 p.2 ∧
    newChannel s.new_channel t p = 1 ∧ AtMargin s.ccParam.toScreenParam

/-- A triplet that carries no pair leaves the parameters alone. -/
theorem ccTriplet_of_pairOf_none (show_quantity : Int) {s : State} {t : Triplet}
    (h : pairOf s.top_field_first t = none) :
    (ccTriplet show_quantity s t).1.ccParam = s.ccParam ∧
      (ccTriplet show_quantity s t).2 = true := by
  unfold pairOf at h
  unfold ccTriplet
  by_cases hfc : t.b0 = 0xfc
  · rw [if_pos hfc] at h
    exact absurd h (Option.some_ne_none _)
  rw [if_neg hfc] at h
  rw [if_neg hfc]
  by_cases hscte : isScte20 t = true
  · by_cases hfield : fieldNumber (fieldOrder s.top_field_first t) t = 0
    · rw [if_pos ⟨hscte, hfield⟩] at h
      exact absurd h (Option.some_ne_none _)
    · rw [if_pos hscte]
      dsimp only
      rw [if_neg hfield]
      exact ⟨rfl, rfl⟩
  · rw [if_neg hscte]
    exact ⟨rfl, rfl⟩

/-- The parity bit is taken off. -/
theorem pairOf_lt {top_field_first : Bool} {t : Triplet} {p : Pair}
    (h : pairOf top_field_first t = some p) : p.1 < 0x80 := by
  have hmask : ∀ b : UInt8, b &&& 0x7f < 0x80 := by
    intro b
    rw [UInt8.lt_iff_toNat_lt, UInt8.toNat_and]
    exact lt_of_le_of_lt Nat.and_le_right (by decide)
  unfold pairOf at h
  split at h
  · cases h
    exact hmask _
  · split at h
    · cases h
      exact hmask _
    · exact absurd h (Option.some_ne_none p).symm

/-- One turn of `CcProcess` in front of which the cursor stands on the screen. -/
theorem ccTriplet_inside {s : State} (h : Bounded s.ccParam.toScreenParam) (t : Triplet) :
    (Inside show_quantity s t ↔ ¬ ErasesAtMargin s t) ∧
      (¬ ErasesAtMargin s t →
        Bounded ((machine show_quantity).step s t).1.ccParam.toScreenParam) := by
  have hinside : ∀ ctx : ClosedcpParam, Bounded ctx.toScreenParam →
      ctx.cursor_row.toNat < eia608ScreenRows ∧
        ctx.cursor_column.toNat < eia608ScreenColumns := fun ctx hctx =>
    ⟨UInt8.lt_iff_toNat_lt.mp hctx.row, UInt8.lt_iff_toNat_lt.mp hctx.column⟩
  have hgood : Bounded ((machine show_quantity).step s t).1.ccParam.toScreenParam →
      ((machine show_quantity).step s t).2 = true → Inside show_quantity s t := fun hb hacc =>
    ⟨hacc, (hinside _ hb).1, (hinside _ hb).2⟩
  show (_ ↔ _) ∧ (_ → Bounded (ccTriplet show_quantity s t).1.ccParam.toScreenParam)
  cases hp : pairOf s.top_field_first t with
  | none =>
    obtain ⟨hsame, hacc⟩ := ccTriplet_of_pairOf_none show_quantity hp
    have hnext : Bounded (ccTriplet show_quantity s t).1.ccParam.toScreenParam := by
      rw [hsame]
      exact h
    have hno : ¬ ErasesAtMargin s t := by
      rintro ⟨p, hp', -⟩
      rw [hp] at hp'
      exact absurd hp' (Option.some_ne_none p).symm
    exact ⟨iff_of_true (hgood hnext hacc) hno, fun _ => hnext⟩
  | some p =>
    have hparam : (ccTriplet show_quantity s t).1.ccParam =
        (processCc608 show_quantity (newChannel s.new_channel t p) s.ccParam p.1 p.2).1 := by
      rw [ccTriplet_of_pairOf hp]
    have hacc : (ccTriplet show_quantity s t).2 =
        (processCc608 show_quantity (newChannel s.new_channel t p) s.ccParam p.1 p.2).2 :=
      congrArg Prod.snd (ccTriplet_eq hp)
    by_cases hpass : passes s.ccParam p.1 p.2 = true
    · by_cases herase : IsErase p.1 p.2 ∧ newChannel s.new_channel t p = 1 ∧
          AtMargin s.ccParam.toScreenParam
      · -- the access is outside its row
        have hyes : ErasesAtMargin s t := ⟨p, hp, hpass, herase⟩
        have hnone := execute_erase show_quantity herase.1 herase.2.1 herase.2.2
        refine ⟨iff_of_false (fun hin => ?_) (not_not.mpr hyes), fun hno => absurd hyes hno⟩
        have hfalse : (ccTriplet show_quantity s t).2 = false := by
          rw [hacc, processCc608, if_pos hpass]
          dsimp only
          rw [hnone]
          rfl
        have htrue : (ccTriplet show_quantity s t).2 = true := hin.accesses
        rw [hfalse] at htrue
        exact Bool.noConfusion htrue
      · have hgives := execute_gives show_quantity h (pairOf_lt hp) herase
        have hno : ¬ ErasesAtMargin s t := by
          rintro ⟨p', hp', -, hrest⟩
          rw [hp] at hp'
          cases hp'
          exact herase hrest
        have hnext : Bounded (ccTriplet show_quantity s t).1.ccParam.toScreenParam := by
          rw [hparam, processCc608_of_passes hpass]
          exact hgives.getD _
        refine ⟨iff_of_true (hgood hnext ?_) hno, fun _ => hnext⟩
        show (ccTriplet show_quantity s t).2 = true
        rw [hacc, processCc608, if_pos hpass]
        exact hgives.isSome
    · have hdropped : processCc608 show_quantity (newChannel s.new_channel t p) s.ccParam p.1 p.2 =
          (s.ccParam, true) := processCc608_of_not_passes (Bool.eq_false_of_not_eq_true hpass)
      have hno : ¬ ErasesAtMargin s t := by
        rintro ⟨p', hp', hpass', -⟩
        rw [hp] at hp'
        cases hp'
        exact hpass hpass'
      have hnext : Bounded (ccTriplet show_quantity s t).1.ccParam.toScreenParam := by
        rw [hparam, hdropped]
        exact h
      refine ⟨iff_of_true (hgood hnext ?_) hno, fun _ => hnext⟩
      show (ccTriplet show_quantity s t).2 = true
      rw [hacc, hdropped]

/-- From zeroed parameters, all accesses of `CcProcess` lie inside their rows and the cursor stays
on the screen, in exactly the runs that never erase in column 0. -/
theorem screens_inside_iff (show_quantity : Int) (cc_data_buff : List UInt8) :
    (machine show_quantity).Always (Inside show_quantity) {} (triplets cc_data_buff) ↔
      (machine show_quantity).Always (fun s t => ¬ ErasesAtMargin s t) {}
        (triplets cc_data_buff) :=
  Machine.always_iff_of_invariant (I := fun s => Bounded s.ccParam.toScreenParam)
    (fun _ t h => (ccTriplet_inside h t).1) (fun _ t h hno => (ccTriplet_inside h t).2 hno)
    Bounded.zero

/-- A backspace as the first command. -/
theorem backspace_outside :
    (machine 1).outputs {} (triplets [0xfc, 0x94, 0x21]) = [false] ∧
      ¬ (machine 1).Always (Inside 1) {} (triplets [0xfc, 0x94, 0x21]) := by
  refine ⟨by decide, fun h => ?_⟩
  have haccesses := h.1.accesses
  revert haccesses
  decide

end Tntsat.CcParse
