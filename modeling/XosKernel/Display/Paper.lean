/-
# Display.Paper -- the output as an endless sheet of lines

What the screen and the scrollback are for: the lines of the output, one below the other, of which
the screen shows 25 (`Paper`).  A character goes to the line of the cursor; below the last line of
the screen a new one is fed.  After any output since `vga_clear` the screen holds the lines from
`top` on, and the slot `i % 500` of the ring holds line `i`, for the last 500 lines above the
screen (`Vga.Prints`).  The counter `scrollback_pos` is an `int`: a run that feeds 2^31 lines
leaves it negative, and with the next one it is over (`prints_run`).
-/
import XosKernel.Display.Scrollback

namespace XosKernel.Display

set_option autoImplicit false

/-! ## The sheet -/

/-- Lines of cells, the line in the first row of the screen, the cursor and the colour. -/
structure Paper where
  cell : Nat → Nat → UInt16
  top : Nat
  row : Nat
  column : Nat
  color : UInt8

/-- The cell of a character, as `vga.c` packs it. -/
def packed (color c : UInt8) : UInt16 :=
  c.toInt8.toInt16.toUInt16 ||| color.toUInt16 <<< (8 : UInt16)

/-- The cell of a space. -/
def space (color : UInt8) : UInt16 := (0x20 : UInt16) ||| color.toUInt16 <<< (8 : UInt16)

namespace Paper

/-- Write the cell at the cursor. -/
def write (p : Paper) (cell : UInt16) : Paper :=
  { p with cell := fun i x => if i = p.top + p.row ∧ x = p.column then cell else p.cell i x }

/-- Print a character; the cursor may end up below the screen. -/
def place (p : Paper) (c : UInt8) : Paper :=
  if c = 0x0A then { p with column := 0, row := p.row + 1 }
  else if c = 0x08 then
    let p :=
      if 0 < p.column then { p with column := p.column - 1 }
      else if 0 < p.row then { p with row := p.row - 1, column := vgaWidth - 1 }
      else p
    p.write (space p.color)
  else
    let p := p.write (packed p.color c)
    if p.column + 1 = vgaWidth then { p with column := 0, row := p.row + 1 }
    else { p with column := p.column + 1 }

/-- A blank line comes up behind the last one of the screen, with the cursor in it. -/
def feed (p : Paper) : Paper :=
  { p with
    cell := fun i x => if i = p.top + vgaHeight then space p.color else p.cell i x
    top := p.top + 1
    row := vgaHeight - 1 }

def print (p : Paper) (c : UInt8) : Paper :=
  if vgaHeight ≤ (p.place c).row then (p.place c).feed else p.place c

/-- A new sheet. -/
def clear (color : UInt8) : Paper where
  cell _ _ := space color
  top := 0
  row := 0
  column := 0
  color := color

end Paper

/-- The calls of the output. -/
inductive Output where
  | print (c : UInt8)
  | setColor (fg bg : UInt8)
  deriving DecidableEq

/-- `vga_putchar_raw` or `vga_set_color` -/
def Output.run (v : Vga) : Output → Option Vga
  | print c => vgaPutcharRaw v c
  | setColor fg bg => some (vgaSetColor v fg bg)

/-- The same on the sheet. -/
def Output.onPaper (p : Paper) : Output → Paper
  | print c => p.print c
  | setColor fg bg => { p with color := fg ||| bg <<< (4 : UInt8) }

/-! ## Printing -/

/-- The variables hold the sheet. -/
structure Vga.Prints (v : Vga) (p : Paper) : Prop where
  row : v.row = p.row
  column : v.column = p.column
  color : v.color = p.color
  rowBound : p.row < vgaHeight
  columnBound : p.column < vgaWidth
  live : v.viewOffset = 0
  screen : ∀ y x, y < vgaHeight → x < vgaWidth → v.buffer (y * vgaWidth + x) = p.cell (p.top + y) x
  pos : v.pos = int32 p.top
  totalLines : v.totalLines = min p.top scrollbackLines
  ring : ∀ i x, i < p.top → p.top ≤ i + scrollbackLines → x < vgaWidth →
    v.scrollback (i % scrollbackLines * vgaWidth + x) = p.cell i x

/-- The cells of different places are different. -/
theorem cell_index_inj {y x y' x' : Nat} (inside : x < vgaWidth) (inside' : x' < vgaWidth) :
    y * vgaWidth + x = y' * vgaWidth + x' ↔ y = y' ∧ x = x' := by
  simp only [vgaWidth] at *
  omega

theorem cell_index_lt {y x : Nat} (low : y < vgaHeight) (inside : x < vgaWidth) :
    y * vgaWidth + x < screenSize := by
  simp only [vgaWidth, vgaHeight, screenSize] at *
  omega

/-- Scrolling moves every line up by one; the last is blank. -/
theorem Vga.scrollTo_screen (v : Vga) (lineIdx : Nat) {y x : Nat} (low : y < vgaHeight)
    (inside : x < vgaWidth) : (v.scrollTo lineIdx).buffer (y * vgaWidth + x) =
      if y < vgaHeight - 1 then v.buffer ((y + 1) * vgaWidth + x) else v.blank := by
  simp only [Vga.scrollTo, copyScreen, if_pos (cell_index_lt low inside)]
  by_cases last : y < vgaHeight - 1
  · have above : y * vgaWidth + x < (vgaHeight - 1) * vgaWidth := by
      simp only [vgaWidth, vgaHeight] at *
      omega
    have next : y * vgaWidth + x + vgaWidth = (y + 1) * vgaWidth + x := by
      simp only [vgaWidth]
      omega
    rw [if_pos above, if_pos last, next]
  · have behind : ¬ y * vgaWidth + x < (vgaHeight - 1) * vgaWidth := by
      simp only [vgaWidth, vgaHeight] at *
      omega
    rw [if_neg behind, if_neg last]

/-- The top line is stored in its slot of the ring; the other slots stay. -/
theorem Vga.scrollTo_ring (v : Vga) (lineIdx slot : Nat) {x : Nat} (inside : x < vgaWidth) :
    (v.scrollTo lineIdx).scrollback (slot * vgaWidth + x) =
      if slot = lineIdx then v.buffer x else v.scrollback (slot * vgaWidth + x) := by
  simp only [Vga.scrollTo]
  by_cases same : slot = lineIdx
  · rw [same, if_pos (by omega), if_pos rfl, Nat.add_sub_cancel_left]
  · have outside : ¬ (lineIdx * vgaWidth ≤ slot * vgaWidth + x ∧
        slot * vgaWidth + x < lineIdx * vgaWidth + vgaWidth) := by
      simp only [vgaWidth] at *
      omega
    rw [if_neg outside, if_neg same]

theorem clear_prints (v : Vga) : (vgaClear v).Prints (.clear v.color) where
  row := rfl
  column := rfl
  color := rfl
  rowBound := Nat.zero_lt_succ 24
  columnBound := Nat.zero_lt_succ 79
  live := rfl
  screen y x low inside := by
    show copyScreen v.buffer (fun _ => v.blank) _ = _
    rw [copyScreen, if_pos (cell_index_lt low inside)]
    rfl
  pos := by show (0 : Int) = int32 0; decide
  totalLines := by show (0 : Int) = ((min 0 scrollbackLines : Nat) : Int); decide
  ring i x above := absurd above (Nat.not_lt_zero i)

section Print

variable {v : Vga} {p : Paper}

/-- What the first part of a character leaves: the cursor may be below the screen. -/
structure Placed (v v' : Vga) (p p' : Paper) : Prop where
  frame : v' = { v with row := p'.row, column := p'.column, buffer := v'.buffer }
  kept : p'.top = p.top ∧ p'.color = p.color
  rowBound : p'.row ≤ vgaHeight
  columnBound : p'.column < vgaWidth
  screen : ∀ y x, y < vgaHeight → x < vgaWidth →
    v'.buffer (y * vgaWidth + x) = p'.cell (p.top + y) x
  above : ∀ i x, i < p.top → p'.cell i x = p.cell i x

/-- The same cell is written on both, at a cursor on the screen; then the cursor moves on. -/
theorem Vga.Prints.written (prints : v.Prints p) (row column row' column' : Nat) (cell : UInt16)
    (inside : column < vgaWidth) (rowBound : row' ≤ vgaHeight) (columnBound : column' < vgaWidth) :
    Placed v
      { Vga.setCell { v with row, column } cell with row := row', column := column' } p
      { Paper.write { p with row, column } cell with row := row', column := column' } := by
  refine ⟨rfl, ⟨rfl, rfl⟩, rowBound, columnBound, ?_, ?_⟩
  · intro y x y_low x_inside
    simp only [Vga.setCell, Paper.write, Function.update_apply, cell_index_inj x_inside inside,
      Nat.add_left_cancel_iff]
    rw [prints.screen y x y_low x_inside]
  · intro i x above
    simp only [Paper.write]
    rw [if_neg (by omega)]

theorem Vga.Prints.place (prints : v.Prints p) (c : UInt8) :
    Placed v (v.place c) p (p.place c) := by
  have wide : 1 < vgaWidth := by decide
  have written := prints.written
  obtain ⟨cell, top, row, column, color⟩ := p
  obtain rfl : v.row = row := prints.row
  obtain rfl : v.column = column := prints.column
  obtain rfl : v.color = color := prints.color
  have low : v.row < vgaHeight := prints.rowBound
  have inside : v.column < vgaWidth := prints.columnBound
  unfold Vga.place Paper.place
  by_cases newline : c = 0x0A
  · rw [if_pos newline, if_pos newline]
    exact ⟨rfl, ⟨rfl, rfl⟩, low, by dsimp only; omega, prints.screen, fun _ _ _ => rfl⟩
  rw [if_neg newline, if_neg newline]
  by_cases back : c = 0x08
  · rw [if_pos back, if_pos back]
    dsimp only
    split
    · exact written v.row (v.column - 1) v.row (v.column - 1) _ (by omega) (by omega) (by omega)
    split
    · exact written (v.row - 1) (vgaWidth - 1) (v.row - 1) (vgaWidth - 1) _ (by omega) (by omega)
        (by omega)
    · exact written v.row v.column v.row v.column _ inside (by omega) inside
  · rw [if_neg back, if_neg back]
    show Placed v (if v.column + 1 = vgaWidth then _ else _) _
      (if v.column + 1 = vgaWidth then _ else _)
    split
    · exact written v.row v.column (v.row + 1) 0 _ inside low (by omega)
    · exact written v.row v.column v.row (v.column + 1) _ inside (by omega) (by omega)

/-- No new line is fed. -/
theorem Vga.Prints.print_within (prints : v.Prints p) {c : UInt8}
    (within : (p.place c).row < vgaHeight) :
    vgaPutcharRaw v c = some (v.place c) ∧ (v.place c).Prints (p.place c) := by
  have placed := prints.place c
  obtain ⟨top, color⟩ := placed.kept
  have row : (v.place c).row = (p.place c).row := congrArg Vga.row placed.frame
  refine ⟨?_, row, congrArg Vga.column placed.frame, ?_, within, placed.columnBound, ?_, ?_, ?_,
    ?_, ?_⟩
  · rw [putchar_live prints.live, row, if_neg (Nat.not_le.mpr within)]
  · rw [placed.frame, color]
    exact prints.color
  · rw [placed.frame]
    exact prints.live
  · rw [top]
    exact placed.screen
  · rw [placed.frame, top]
    exact prints.pos
  · rw [placed.frame, top]
    exact prints.totalLines
  · intro i x inside recent column
    rw [top] at inside recent
    rw [placed.above i x inside, placed.frame]
    exact prints.ring i x inside recent column

/-- A line is fed, and the top line goes to the ring. -/
theorem Vga.Prints.print_feed (prints : v.Prints p) {c : UInt8}
    (below : vgaHeight ≤ (p.place c).row) (room : p.top < 2 ^ 31) :
    ∃ v', vgaPutcharRaw v c = some v' ∧ v'.Prints (p.place c).feed := by
  have placed := prints.place c
  obtain ⟨top, color⟩ := placed.kept
  have row : (v.place c).row = (p.place c).row := congrArg Vga.row placed.frame
  have pos : (v.place c).pos = p.top := by
    rw [placed.frame]
    exact prints.pos.trans (int32_of_small (by omega) (by omega))
  have slot : ((v.place c).pos.tmod scrollbackLines).toNat = p.top % scrollbackLines := by
    rw [pos]
    rfl
  have shown : ({ v.place c with row := vgaHeight - 1 } : Vga).blank = space (p.place c).color := by
    rw [placed.frame, color, ← prints.color]
    rfl
  rw [putchar_live prints.live, row, if_pos below, vgaScroll_eq (by dsimp only; omega)]
  refine ⟨_, rfl, ?_⟩
  dsimp only
  rw [slot]
  refine ⟨rfl, congrArg Vga.column placed.frame, ?_, Nat.lt_succ_self 24, placed.columnBound, ?_,
    ?_, ?_, ?_, ?_⟩
  · show (v.place c).color = (p.place c).color
    rw [placed.frame, color]
    exact prints.color
  · show (v.place c).viewOffset = 0
    rw [placed.frame]
    exact prints.live
  · intro y x low inside
    rw [Vga.scrollTo_screen _ _ low inside, shown]
    simp only [Paper.feed, top]
    by_cases last : y < vgaHeight - 1
    · rw [if_pos last, if_neg (by omega), placed.screen (y + 1) x (by omega) inside]
      congr 1
      omega
    · rw [if_neg last, if_pos (by omega)]
  · show int32 ((v.place c).pos + 1) = int32 (((p.place c).top + 1 : Nat) : Int)
    rw [pos, top]
    exact congrArg int32 (by omega)
  · show (if (v.place c).totalLines < scrollbackLines then int32 ((v.place c).totalLines + 1)
      else (v.place c).totalLines) = ((min ((p.place c).top + 1) scrollbackLines : Nat) : Int)
    have total : (v.place c).totalLines = min p.top scrollbackLines := by
      rw [placed.frame]
      exact prints.totalLines
    have many : scrollbackLines = 500 := rfl
    rw [total, top, many]
    by_cases more : ((min p.top 500 : Nat) : Int) < (500 : Nat)
    · rw [if_pos more, int32_of_small (by omega) (by omega)]
      omega
    · rw [if_neg more]
      omega
  · intro i x inside recent column
    have inside : i < p.top + 1 := top ▸ inside
    have recent : p.top + 1 ≤ i + scrollbackLines := top ▸ recent
    rw [Vga.scrollTo_ring _ _ _ column]
    simp only [Paper.feed, top]
    rw [if_neg (show ¬ i = p.top + vgaHeight by simp only [vgaHeight]; omega)]
    by_cases newest : i = p.top
    · rw [newest, if_pos rfl]
      have cell := placed.screen 0 x (by decide) column
      rwa [Nat.zero_mul, Nat.zero_add, Nat.add_zero] at cell
    · have other : i % scrollbackLines ≠ p.top % scrollbackLines := by
        simp only [scrollbackLines] at *
        omega
      rw [if_neg other, placed.above i x (by omega), placed.frame]
      exact prints.ring i x (by omega) (by omega) column

/-- The line that does not fit the counter. -/
theorem Vga.Prints.print_over (prints : v.Prints p) {c : UInt8}
    (below : vgaHeight ≤ (p.place c).row) (over_ : p.top = 2 ^ 31) :
    vgaPutcharRaw v c = none := by
  have placed := prints.place c
  have row : (v.place c).row = (p.place c).row := congrArg Vga.row placed.frame
  have pos : (v.place c).pos = -2 ^ 31 := by
    rw [placed.frame]
    show v.pos = -2 ^ 31
    rw [prints.pos, over_]
    decide
  rw [putchar_live prints.live, row, if_pos below]
  simp only [vgaScroll, pos]
  rw [if_pos (by decide)]

end Print

/-! ## Runs -/

/-- The sheet never loses a line. -/
theorem Output.top_le (p : Paper) (o : Output) :
    p.top ≤ (o.onPaper p).top ∧ (o.onPaper p).top ≤ p.top + 1 := by
  cases o with
  | setColor fg bg => exact ⟨Nat.le_refl _, Nat.le_succ _⟩
  | print c =>
      have kept : (p.place c).top = p.top := by
        unfold Paper.place
        split
        · rfl
        split
        · dsimp only
          split
          · rfl
          split <;> rfl
        · dsimp only
          split <;> rfl
      show p.top ≤ (p.print c).top ∧ (p.print c).top ≤ p.top + 1
      unfold Paper.print
      split
      · show p.top ≤ (p.place c).top + 1 ∧ (p.place c).top + 1 ≤ p.top + 1
        omega
      · omega

theorem Output.foldl_top_le (output : List Output) (p : Paper) :
    p.top ≤ (output.foldl Output.onPaper p).top := by
  induction output generalizing p with
  | nil => exact Nat.le_refl _
  | cons o rest ih => exact Nat.le_trans (o.top_le p).1 (ih _)

/-- One call: the variables keep holding the sheet as long as the counter does. -/
theorem Vga.Prints.run {v : Vga} {p : Paper} (prints : v.Prints p) (o : Output)
    (fits : p.top ≤ 2 ^ 31) :
    ((o.onPaper p).top ≤ 2 ^ 31 → ∃ v', o.run v = some v' ∧ v'.Prints (o.onPaper p)) ∧
      (2 ^ 31 < (o.onPaper p).top → o.run v = none) := by
  cases o with
  | setColor fg bg =>
      refine ⟨fun _ => ⟨_, rfl, ?_⟩, fun over_ => absurd fits (Nat.not_le.mpr over_)⟩
      exact ⟨prints.row, prints.column, rfl, prints.rowBound, prints.columnBound, prints.live,
        prints.screen, prints.pos, prints.totalLines, prints.ring⟩
  | print c =>
      have top := (prints.place c).kept.1
      simp only [Output.run, Output.onPaper, Paper.print]
      by_cases below : vgaHeight ≤ (p.place c).row
      · rw [if_pos below]
        have fed : (p.place c).feed.top = p.top + 1 := congrArg (· + 1) top
        rw [fed]
        exact ⟨fun room => prints.print_feed below room,
          fun over_ => prints.print_over below (by omega)⟩
      · rw [if_neg below, top]
        obtain ⟨is, after⟩ := prints.print_within (Nat.not_le.mp below)
        exact ⟨fun _ => ⟨_, is, after⟩, fun over_ => absurd fits (Nat.not_le.mpr over_)⟩

/-- All output: the run is over exactly if more than 2^31 lines are fed. -/
theorem Vga.Prints.runs {v : Vga} {p : Paper} (prints : v.Prints p) (output : List Output)
    (fits : p.top ≤ 2 ^ 31) :
    ((output.foldl Output.onPaper p).top ≤ 2 ^ 31 →
      ∃ v', output.foldlM Output.run v = some v' ∧
        v'.Prints (output.foldl Output.onPaper p)) ∧
      (2 ^ 31 < (output.foldl Output.onPaper p).top → output.foldlM Output.run v = none) := by
  induction output generalizing v p with
  | nil => exact ⟨fun _ => ⟨v, rfl, prints⟩, fun over_ => absurd fits (Nat.not_le.mpr over_)⟩
  | cons o rest ih =>
      obtain ⟨goesOn, ends⟩ := prints.run o fits
      rw [List.foldl_cons, List.foldlM_cons]
      by_cases room : (o.onPaper p).top ≤ 2 ^ 31
      · obtain ⟨v', is, after⟩ := goesOn room
        rw [is]
        exact ih after room
      · have over_ := Nat.not_le.mp room
        have later := Output.foldl_top_le rest (o.onPaper p)
        rw [ends over_]
        exact ⟨fun fits' => absurd fits' (by omega), fun _ => rfl⟩

/-- The output since a `vga_clear`. -/
theorem prints_run (before : Vga) (output : List Output) :
    ((output.foldl Output.onPaper (.clear before.color)).top ≤ 2 ^ 31 →
      ∃ v, output.foldlM Output.run (vgaClear before) = some v ∧
        v.Prints (output.foldl Output.onPaper (.clear before.color))) ∧
      (2 ^ 31 < (output.foldl Output.onPaper (.clear before.color)).top →
        output.foldlM Output.run (vgaClear before) = none) :=
  (clear_prints before).runs output (Nat.zero_le _)

end XosKernel.Display
