/-
# Display.Layout -- what is printed, laid out in rows

The reference for text without backspace: glyphs with their colours, in rows that end with a
newline or with the 80th glyph (`Layout`).  The sheet is this layout (`laidOut_output`), but for
the cells: `vga_putchar_raw` extends the sign of a character into the colour, so a byte from 0x80
on appears with the attribute 0xFF (`packed_eq_iff`).  The screen and the scrollback hold the
layout exactly if every such byte among the lines they hold was printed with that attribute, and
the counter of lines has not overflowed (`laid_out_iff`).
-/
import XosKernel.Display.Paper

namespace XosKernel.Display

set_option autoImplicit false

/-! ## Rows -/

/-- A character and the colour that was in force. -/
structure Glyph where
  char : UInt8
  color : UInt8

/-- The byte below, the attribute above. -/
def Glyph.cell (g : Glyph) : UInt16 := g.char.toUInt16 ||| g.color.toUInt16 <<< (8 : UInt16)

/-- The rows that are ended, the one that is not, and the colour. -/
structure Layout where
  ended : List (List Glyph)
  current : List Glyph
  color : UInt8

namespace Layout

/-- A call of the output; a newline and the last glyph of a row end it. -/
def add (l : Layout) : Output → Layout
  | .setColor fg bg => { l with color := fg ||| bg <<< (4 : UInt8) }
  | .print c =>
      if c = 0x0A then { l with ended := l.ended ++ [l.current], current := [] }
      else
        let row := l.current ++ [⟨c, l.color⟩]
        if row.length = vgaWidth then { l with ended := l.ended ++ [row], current := [] }
        else { l with current := row }

def rows (l : Layout) : List (List Glyph) := l.ended ++ [l.current]

/-- The rows that do not fit the screen. -/
def scrolledOff (l : Layout) : Nat := l.rows.length - vgaHeight

/-- The glyph at a place. -/
def at_ (l : Layout) (i x : Nat) : Option Glyph := l.rows[i]?.bind (·[x]?)

end Layout

/-- The layout of all output after a `vga_clear` with this colour. -/
def layout (color : UInt8) (output : List Output) : Layout :=
  output.foldl Layout.add ⟨[], [], color⟩

/-- The cell of line `i`: of the ring for the lines above the screen. -/
def Vga.lineCell (v : Vga) (scrolledOff i x : Nat) : UInt16 :=
  if i < scrolledOff then v.scrollback (i % scrollbackLines * vgaWidth + x)
  else v.buffer ((i - scrolledOff) * vgaWidth + x)

/-- The variables hold the rows: the counters say how many are above the screen, the last 500 of
these and the ones on the screen show their glyphs, with spaces behind, and the cursor is behind
the last glyph. -/
structure Vga.HoldsRows (v : Vga) (l : Layout) : Prop where
  pos : v.pos = l.scrolledOff
  totalLines : v.totalLines = min l.scrolledOff scrollbackLines
  row : v.row + l.scrolledOff + 1 = l.rows.length
  column : v.column = l.current.length
  glyph : ∀ i x g, l.scrolledOff ≤ i + scrollbackLines → l.at_ i x = some g →
    v.lineCell l.scrolledOff i x = g.cell
  behind : ∀ i x, l.scrolledOff ≤ i + scrollbackLines → i < l.rows.length → x < vgaWidth →
    l.at_ i x = none → ∃ color, v.lineCell l.scrolledOff i x = space color

/-- Every byte from 0x80 on that is in the last 500 rows above the screen or on it was printed
with the attribute 0xFF, and less than 2^31 rows are above the screen. -/
def Layout.Fits (l : Layout) : Prop :=
  l.scrolledOff < 2 ^ 31 ∧ ∀ i x g, l.scrolledOff ≤ i + scrollbackLines →
    l.at_ i x = some g → g.char < 0x80 ∨ g.color = 0xFF

/-! ## Cells -/

/-- The bits of a cell: those of the character, and above them its sign or the colour. -/
theorem packed_bit (color c : UInt8) {i : Nat} (inside : i < 16) :
    (packed color c).toBitVec.getLsbD i =
      if i < 8 then c.toBitVec.getLsbD i
      else c.toBitVec.msb || color.toBitVec.getLsbD (i - 8) := by
  by_cases glyph : i < 8
  · simp [packed, inside, glyph, BitVec.getElem_signExtend]
  · simp [packed, inside, glyph, BitVec.getElem_signExtend]

theorem cell_bit (g : Glyph) {i : Nat} (inside : i < 16) :
    g.cell.toBitVec.getLsbD i =
      if i < 8 then g.char.toBitVec.getLsbD i else g.color.toBitVec.getLsbD (i - 8) := by
  by_cases glyph : i < 8
  · simp [Glyph.cell, inside, glyph]
  · have above : g.char.toBitVec.getLsbD i = false :=
      BitVec.getLsbD_of_ge _ _ (Nat.not_lt.mp glyph)
    simp [Glyph.cell, inside, glyph, above]

/-- The attribute is the colour if the sign of the character is not set or does not show. -/
theorem packed_eq_iff (g : Glyph) :
    packed g.color g.char = g.cell ↔ g.char < 0x80 ∨ g.color = 0xFF := by
  have plain : g.char < 0x80 ↔ g.char.toBitVec.msb = false := by
    rw [BitVec.msb_eq_decide, UInt8.lt_iff_toNat_lt]
    simp
  have full : ∀ i < 8, (0xFF : UInt8).toBitVec.getLsbD i = true := by decide
  rw [plain]
  constructor
  · intro same
    by_cases high : g.char.toBitVec.msb = false
    · exact .inl high
    · -- the bits above the character are all set, so those of the colour are
      refine .inr (UInt8.toBitVec_inj.mp (BitVec.eq_of_getLsbD_eq fun i inside => ?_))
      have bit := packed_bit g.color g.char (i := i + 8) (by omega)
      rw [same, cell_bit g (by omega), if_neg (by omega), if_neg (by omega), Nat.add_sub_cancel,
        Bool.eq_true_of_not_eq_false high, Bool.true_or] at bit
      rw [bit, full i inside]
  · intro harmless
    refine UInt16.toBitVec_inj.mp (BitVec.eq_of_getLsbD_eq fun i inside => ?_)
    rw [packed_bit g.color g.char inside, cell_bit g inside]
    split
    · rfl
    · rcases harmless with low | white
      · rw [low, Bool.false_or]
      · rw [white, full (i - 8) (by omega), Bool.or_true]

/-! ## The sheet is the layout -/

section LaidOut

/-- The sheet shows the rows; the cursor may be below the screen. -/
structure Paper.Shows (p : Paper) (l : Layout) : Prop where
  color : p.color = l.color
  line : p.top + p.row = l.ended.length
  column : p.column = l.current.length
  columnBound : p.column < vgaWidth
  width : ∀ i x g, l.at_ i x = some g → x < vgaWidth
  glyph : ∀ i x g, l.at_ i x = some g → p.cell i x = packed g.color g.char
  behind : ∀ i x, i < p.top + vgaHeight → l.at_ i x = none → ∃ color, p.cell i x = space color

/-- The same with the cursor on the screen. -/
structure Paper.LaidOut (p : Paper) (l : Layout) : Prop extends p.Shows l where
  top : p.top = l.scrolledOff
  rowBound : p.row < vgaHeight

namespace Layout

variable (l : Layout)

theorem rows_length : l.rows.length = l.ended.length + 1 := by simp [rows]

/-- The row that is not ended has no glyph behind its last one. -/
theorem at_current (x : Nat) : l.at_ l.ended.length x = l.current[x]? := by
  simp [at_, rows]

/-- Ending a row changes no glyph. -/
theorem at_endRow (i x : Nat) (current : List Glyph) (color : UInt8) :
    at_ ⟨l.ended ++ [current], [], color⟩ i x = at_ ⟨l.ended, current, color⟩ i x := by
  unfold at_ rows
  by_cases inside : i < (l.ended ++ [current]).length
  · rw [List.getElem?_append_left inside]
  · rw [List.getElem?_append_right (Nat.not_lt.mp inside),
      List.getElem?_eq_none (Nat.not_lt.mp inside)]
    by_cases last : i - (l.ended ++ [current]).length = 0
    · rw [last]
      rfl
    · rw [List.getElem?_eq_none (by simp only [List.length_singleton]; omega)]

/-- A glyph behind the last one. -/
theorem at_append (i x : Nat) (g : Glyph) :
    at_ { l with current := l.current ++ [g] } i x =
      if i = l.ended.length ∧ x = l.current.length then some g else l.at_ i x := by
  unfold at_ rows
  rcases Nat.lt_trichotomy i l.ended.length with before | here | after
  · rw [if_neg (by omega), List.getElem?_append_left before, List.getElem?_append_left before]
  · subst here
    simp only [List.getElem?_concat_length, Option.bind_some, true_and]
    by_cases last : x = l.current.length
    · rw [if_pos last, last, List.getElem?_concat_length]
    · rw [if_neg last]
      rcases Nat.lt_or_ge x l.current.length with inside | outside
      · rw [List.getElem?_append_left inside]
      · rw [List.getElem?_eq_none outside, List.getElem?_eq_none (by simp; omega)]
  · rw [if_neg (by omega), List.getElem?_eq_none (by simp; omega),
      List.getElem?_eq_none (by simp; omega)]

end Layout

variable {p : Paper} {l : Layout}

/-- A glyph on both. -/
theorem Paper.Shows.write (shows_ : p.Shows l) (c : UInt8) (row column : Nat) :
    (∀ i x g, ({ l with current := l.current ++ [⟨c, l.color⟩] } : Layout).at_ i x = some g →
      x < vgaWidth) ∧
    (∀ i x g, ({ l with current := l.current ++ [⟨c, l.color⟩] } : Layout).at_ i x = some g →
      ({ p.write (packed p.color c) with row, column } : Paper).cell i x =
        packed g.color g.char) ∧
    ∀ i x, i < p.top + vgaHeight →
      ({ l with current := l.current ++ [⟨c, l.color⟩] } : Layout).at_ i x = none →
      ∃ color, ({ p.write (packed p.color c) with row, column } : Paper).cell i x =
        space color := by
  simp only [Paper.write, Layout.at_append, shows_.line, shows_.column]
  refine ⟨?_, ?_, ?_⟩
  · intro i x g is
    by_cases here : i = l.ended.length ∧ x = l.current.length
    · rw [here.2, ← shows_.column]
      exact shows_.columnBound
    · rw [if_neg here] at is
      exact shows_.width i x g is
  · intro i x g is
    by_cases here : i = l.ended.length ∧ x = l.current.length
    · rw [if_pos here, Option.some.injEq] at is
      rw [if_pos here, ← is, shows_.color]
    · rw [if_neg here] at is
      rw [if_neg here]
      exact shows_.glyph i x g is
  · intro i x low is
    by_cases here : i = l.ended.length ∧ x = l.current.length
    · rw [if_pos here] at is
      cases is
    · rw [if_neg here] at is
      rw [if_neg here]
      exact shows_.behind i x low is

theorem Paper.Shows.place (shows_ : p.Shows l) {c : UInt8} (plain : c ≠ 0x08) :
    (p.place c).Shows (l.add (.print c)) ∧ (p.place c).top = p.top ∧
      ((p.place c).row = p.row ∨ (p.place c).row = p.row + 1 ∧ (p.place c).column = 0) := by
  have line := shows_.line
  have column := shows_.column
  have inside := shows_.columnBound
  unfold Paper.place
  simp only [Layout.add, if_neg plain]
  by_cases newline : c = 0x0A
  · rw [if_pos newline, if_pos newline]
    refine ⟨⟨shows_.color, ?_, rfl, Nat.zero_lt_succ 79, fun i x g is => ?_, fun i x g is => ?_,
      fun i x low is => ?_⟩, rfl, .inr ⟨rfl, rfl⟩⟩
    · simp only [List.length_append, List.length_singleton]
      omega
    · rw [Layout.at_endRow] at is
      exact shows_.width i x g is
    · rw [Layout.at_endRow] at is
      exact shows_.glyph i x g is
    · rw [Layout.at_endRow] at is
      exact shows_.behind i x low is
  · rw [if_neg newline, if_neg newline]
    have length : (l.current ++ [(⟨c, l.color⟩ : Glyph)]).length = p.column + 1 := by simp [column]
    have same : (p.write (packed p.color c)).column = p.column := rfl
    simp only [length, same]
    by_cases last : p.column + 1 = vgaWidth
    · simp only [if_pos last]
      obtain ⟨width, glyph, behind⟩ := shows_.write c (p.row + 1) 0
      refine ⟨⟨shows_.color, ?_, rfl, Nat.zero_lt_succ 79, fun i x g is => ?_,
        fun i x g is => ?_, fun i x low is => ?_⟩, rfl, .inr ⟨rfl, trivial⟩⟩
      · simp only [List.length_append, List.length_singleton]
        exact congrArg (· + 1) line
      · rw [Layout.at_endRow] at is
        exact width i x g is
      · rw [Layout.at_endRow] at is
        exact glyph i x g is
      · rw [Layout.at_endRow] at is
        exact behind i x low is
    · simp only [if_neg last]
      obtain ⟨width, glyph, behind⟩ := shows_.write c p.row (p.column + 1)
      refine ⟨⟨shows_.color, line, length.symm, ?_, width, glyph, behind⟩, rfl, .inl rfl⟩
      show p.column + 1 < vgaWidth
      omega

/-- A line is fed behind the last row, which has no glyph yet. -/
theorem Paper.Shows.feed (shows_ : p.Shows l) (below : p.row = vgaHeight)
    (first : p.column = 0) : p.feed.Shows l where
  color := shows_.color
  line := by
    show p.top + 1 + (vgaHeight - 1) = l.ended.length
    have high : vgaHeight = 25 := rfl
    have line := shows_.line
    omega
  column := shows_.column
  columnBound := shows_.columnBound
  width := shows_.width
  glyph i x g is := by
    have other : i ≠ p.top + vgaHeight := by
      rintro rfl
      have empty : l.current = [] := List.length_eq_zero_iff.mp (shows_.column.symm.trans first)
      rw [← below, shows_.line, Layout.at_current, empty] at is
      cases is
    show (if i = p.top + vgaHeight then space p.color else p.cell i x) = _
    rw [if_neg other]
    exact shows_.glyph i x g is
  behind i x low none_ := by
    show ∃ color, (if i = p.top + vgaHeight then space p.color else p.cell i x) = space color
    by_cases fed : i = p.top + vgaHeight
    · exact ⟨p.color, if_pos fed⟩
    · rw [if_neg fed]
      have low : i < p.top + 1 + vgaHeight := low
      exact shows_.behind i x (by omega) none_

theorem Paper.LaidOut.print (laid : p.LaidOut l) {c : UInt8} (plain : c ≠ 0x08) :
    (p.print c).LaidOut (l.add (.print c)) := by
  have low := laid.rowBound
  have top := laid.top
  have line := laid.line
  obtain ⟨placed, same, row⟩ := laid.toShows.place plain
  have line' := placed.line
  have rows := Layout.rows_length l
  have rows' := Layout.rows_length (l.add (.print c))
  unfold Paper.print
  unfold Layout.scrolledOff at top
  by_cases below : vgaHeight ≤ (p.place c).row
  · rw [if_pos below]
    refine ⟨placed.feed (by omega) (by omega), ?_, Nat.lt_succ_self 24⟩
    show (p.place c).top + 1 = (l.add (.print c)).rows.length - vgaHeight
    omega
  · rw [if_neg below]
    refine ⟨placed, ?_, Nat.not_le.mp below⟩
    unfold Layout.scrolledOff
    omega

/-- All output without backspace. -/
theorem Paper.LaidOut.run (laid : p.LaidOut l) (output : List Output)
    (plain : Output.print 0x08 ∉ output) :
    (output.foldl Output.onPaper p).LaidOut (output.foldl Layout.add l) := by
  induction output generalizing p l with
  | nil => exact laid
  | cons o rest ih =>
      rw [List.mem_cons, not_or] at plain
      refine ih ?_ plain.2
      cases o with
      | setColor fg bg =>
          exact ⟨⟨rfl, laid.line, laid.column, laid.columnBound, laid.width, laid.glyph,
            laid.behind⟩, laid.top, laid.rowBound⟩
      | print c =>
          refine laid.print ?_
          rintro rfl
          exact plain.1 rfl

theorem laidOut_clear (color : UInt8) : (Paper.clear color).LaidOut ⟨[], [], color⟩ where
  color := rfl
  line := rfl
  column := rfl
  columnBound := Nat.zero_lt_succ 79
  width i x g is := by cases i <;> cases is
  glyph i x g is := by cases i <;> cases is
  behind _ _ _ _ := ⟨color, rfl⟩
  top := rfl
  rowBound := Nat.zero_lt_succ 24

theorem laidOut_output (color : UInt8) (output : List Output)
    (plain : Output.print 0x08 ∉ output) :
    (output.foldl Output.onPaper (.clear color)).LaidOut (layout color output) :=
  (laidOut_clear color).run output plain

end LaidOut

/-! ## The screen and the scrollback -/

section HoldsRows

variable {v : Vga} {p : Paper} {l : Layout}

/-- The cells of the lines that are held. -/
theorem Vga.Prints.lineCell (prints : v.Prints p) {i x : Nat} (recent : p.top ≤ i + scrollbackLines)
    (low : i < p.top + vgaHeight) (inside : x < vgaWidth) : v.lineCell p.top i x = p.cell i x := by
  unfold Vga.lineCell
  split
  · next above => exact prints.ring i x above recent inside
  · next onScreen =>
      rw [prints.screen (i - p.top) x (by omega) inside]
      congr 1
      omega

/-- With the counter in range, the rows are held if their cells have the colours as attributes. -/
theorem holdsRows_iff (prints : v.Prints p) (laid : p.LaidOut l) (fits : p.top ≤ 2 ^ 31) :
    v.HoldsRows l ↔ l.Fits := by
  have rows := Layout.rows_length l
  have line := laid.line
  have low := laid.rowBound
  have cell : ∀ i x g, p.top ≤ i + scrollbackLines → l.at_ i x = some g →
      (v.lineCell p.top i x = g.cell ↔ g.char < 0x80 ∨ g.color = 0xFF) := by
    intro i x g recent is
    obtain ⟨row, there, -⟩ := Option.bind_eq_some_iff.mp is
    have inside := (List.getElem?_eq_some_iff.mp there).1
    rw [prints.lineCell recent (by omega) (laid.width i x g is), laid.glyph i x g is]
    exact packed_eq_iff g
  rw [Layout.Fits, ← laid.top]
  constructor
  · rintro ⟨pos, -, -, -, glyph, -⟩
    rw [← laid.top] at pos glyph
    refine ⟨Nat.lt_of_le_of_ne fits fun over_ => ?_, fun i x g recent is => ?_⟩
    · rw [prints.pos, over_] at pos
      exact absurd pos (by decide)
    · exact (cell i x g recent is).mp (glyph i x g recent is)
  · rintro ⟨small, harmless⟩
    refine ⟨?_, ?_, ?_, prints.column.trans laid.column, ?_, ?_⟩
    · rw [← laid.top, prints.pos, int32_of_small (by omega) (by omega)]
    · rw [← laid.top]
      exact prints.totalLines
    · rw [← laid.top, prints.row]
      omega
    · rw [← laid.top]
      exact fun i x g recent is => (cell i x g recent is).mpr (harmless i x g recent is)
    · rw [← laid.top]
      intro i x recent inside column none_
      rw [prints.lineCell recent (by omega) column]
      exact laid.behind i x (by omega) none_

/-- After any text without backspace, with any changes of colour, the screen and the scrollback
hold its rows exactly if no character's sign shows. -/
theorem laid_out_iff (before : Vga) (output : List Output) (plain : Output.print 0x08 ∉ output) :
    (∃ v, output.foldlM Output.run (vgaClear before) = some v ∧
      v.HoldsRows (layout before.color output)) ↔ (layout before.color output).Fits := by
  have laid := laidOut_output before.color output plain
  obtain ⟨goesOn, over_⟩ := prints_run before output
  by_cases fits : (output.foldl Output.onPaper (.clear before.color)).top ≤ 2 ^ 31
  · obtain ⟨v, ran, prints⟩ := goesOn fits
    rw [ran, ← holdsRows_iff prints laid fits]
    simp
  · rw [over_ (Nat.not_le.mp fits)]
    constructor
    · rintro ⟨v, ran, -⟩
      cases ran
    · rintro ⟨small, -⟩
      rw [← laid.top] at small
      omega

/-- `A`, then a byte of a file, in grey on black. -/
def highByte : List Output := [.print 0x41, .print 0xE9]

theorem highByte_laid_out_iff :
    (∃ v, highByte.foldlM Output.run (vgaInit .zero) = some v ∧
      v.HoldsRows (layout 7 highByte)) ↔ (layout 7 highByte).Fits :=
  laid_out_iff { Vga.zero with color := 7 } highByte (by decide)

/-- The byte appears white on white: the cell is 0xFFE9 where 0x07E9 is due. -/
theorem highByte_not_laid_out :
    ¬ ∀ (before : Vga) (output : List Output), Output.print 0x08 ∉ output →
      ∃ v, output.foldlM Output.run (vgaClear before) = some v ∧
        v.HoldsRows (layout before.color output) := by
  intro all
  obtain ⟨v, ran, holds⟩ := all { Vga.zero with color := 7 } highByte (by decide)
  have due : v.buffer 1 = Glyph.cell ⟨0xE9, 7⟩ := holds.glyph 0 1 ⟨0xE9, 7⟩ (Nat.zero_le _) rfl
  have cell : (highByte.foldlM Output.run (vgaClear { Vga.zero with color := 7 })).map
      (fun v => v.buffer 1) = some 0xFFE9 := by decide +kernel
  rw [ran, Option.map_some, Option.some.injEq] at cell
  rw [cell] at due
  exact absurd due (by decide)

end HoldsRows

end XosKernel.Display
