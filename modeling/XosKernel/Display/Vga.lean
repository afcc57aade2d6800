/-
# Display.Vga -- the text screen and its scrollback

`vga.c`: the cursor, the cells of the text memory, the ring of lines that were scrolled off, and
the view of them.  Arrays are functions of the index; loops over cells are written as what they
leave in each cell.  The variables of type `int` wrap as they do in the compiled code (`int32`).
A line that would go outside `scrollback_buffer` is `none`.

`char` is signed: `(uint16_t)c` extends the sign of a byte from 0x80 on into the attribute.
-/
import Mathlib.Algebra.Group.Nat.Defs
import Mathlib.Logic.Function.Basic

namespace XosKernel.Display

set_option autoImplicit false

/-- `VGA_WIDTH` -/
def vgaWidth : Nat := 80

/-- `VGA_HEIGHT` -/
def vgaHeight : Nat := 25

/-- `SCROLLBACK_LINES` -/
def scrollbackLines : Nat := 500

/-- The cells of the screen. -/
def screenSize : Nat := vgaHeight * vgaWidth

/-- A value of type `int`. -/
def int32 (x : Int) : Int := x.bmod (2 ^ 32)

/-- The variables of `vga.c`, and the registers of the CRT controller. -/
structure Vga where
  row : Nat
  column : Nat
  color : UInt8
  /-- the text memory -/
  buffer : Nat → UInt16
  /-- `scrollback_buffer` -/
  scrollback : Nat → UInt16
  /-- `scrollback_pos` -/
  pos : Int
  viewOffset : Int
  totalLines : Int
  /-- `current_screen` -/
  saved : Nat → UInt16
  screenSaved : Bool
  crtc : UInt8 → UInt8

namespace Vga

/-- `((uint16_t)' ') | ((uint16_t)vga_color << 8)` -/
def blank (v : Vga) : UInt16 := (0x20 : UInt16) ||| v.color.toUInt16 <<< (8 : UInt16)

/-- `((uint16_t)c) | ((uint16_t)vga_color << 8)` -/
def glyph (v : Vga) (c : UInt8) : UInt16 :=
  c.toInt8.toInt16.toUInt16 ||| v.color.toUInt16 <<< (8 : UInt16)

/-- Write one register through the ports 0x3D4 and 0x3D5. -/
def setRegister (v : Vga) (index value : UInt8) : Vga :=
  { v with crtc := Function.update v.crtc index value }

/-- The cell at the cursor. -/
def setCell (v : Vga) (cell : UInt16) : Vga :=
  { v with buffer := Function.update v.buffer (v.row * vgaWidth + v.column) cell }

end Vga

/-- The cells of one screen copied over another. -/
def copyScreen (dst src : Nat → UInt16) : Nat → UInt16 := fun i =>
  if i < screenSize then src i else dst i

/-- `vga_update_cursor` -/
def vgaUpdateCursor (v : Vga) : Vga :=
  let pos := UInt16.ofNat (v.row * vgaWidth + v.column)
  (v.setRegister 0x0F pos.toUInt8).setRegister 0x0E (pos >>> 8).toUInt8

/-- `vga_clear` -/
def vgaClear (v : Vga) : Vga :=
  vgaUpdateCursor { v with
    buffer := copyScreen v.buffer fun _ => v.blank
    row := 0
    column := 0
    pos := 0
    viewOffset := 0
    totalLines := 0 }

/-- `vga_init` -/
def vgaInit (v : Vga) : Vga :=
  vgaClear { v with
    row := 0
    column := 0
    color := 7
    pos := 0
    viewOffset := 0
    totalLines := 0
    screenSaved := false }

/-- `vga_set_color` -/
def vgaSetColor (v : Vga) (fg bg : UInt8) : Vga := { v with color := fg ||| bg <<< (4 : UInt8) }

/-- Scroll up by one line; the top line goes to line `lineIdx` of the ring. -/
def Vga.scrollTo (v : Vga) (lineIdx : Nat) : Vga :=
  { v with
    scrollback := fun i =>
      if lineIdx * vgaWidth ≤ i ∧ i < lineIdx * vgaWidth + vgaWidth then
        v.buffer (i - lineIdx * vgaWidth)
      else v.scrollback i
    pos := int32 (v.pos + 1)
    totalLines := if v.totalLines < scrollbackLines then int32 (v.totalLines + 1) else v.totalLines
    buffer := copyScreen v.buffer fun i =>
      if i < (vgaHeight - 1) * vgaWidth then v.buffer (i + vgaWidth) else v.blank }

/-- `vga_scroll` -/
def vgaScroll (v : Vga) : Option Vga :=
  let lineIdx := v.pos.tmod scrollbackLines
  if lineIdx < 0 then none else some (v.scrollTo lineIdx.toNat)

/-! ## The view -/

/-- Copy `current_screen` back if it is saved. -/
def Vga.restore (v : Vga) : Vga :=
  if v.screenSaved then { v with buffer := copyScreen v.buffer v.saved, screenSaved := false }
  else v

/-- `vga_scrollback_reset` -/
def vgaScrollbackReset (v : Vga) : Vga :=
  if v.viewOffset = 0 then v
  else vgaUpdateCursor { v with viewOffset := 0 }.restore

/-- `vga_scrollback_render` -/
def vgaScrollbackRender (v : Vga) : Vga :=
  if v.viewOffset = 0 then vgaUpdateCursor v
  else
    let startLine := int32 (int32 (v.pos - v.viewOffset) - vgaHeight)
    let cell (y x : Nat) : UInt16 :=
      let lineIdx := int32 (startLine + y)
      if lineIdx < 0 then v.blank
      else if lineIdx < v.pos then
        v.scrollback ((lineIdx.tmod scrollbackLines).toNat * vgaWidth + x)
      else v.blank
    -- 0x20 disables the cursor
    { v with buffer := copyScreen v.buffer fun i => cell (i / vgaWidth) (i % vgaWidth) }.setRegister
      0x0A 0x20

/-- `vga_scrollback_up` -/
def vgaScrollbackUp (v : Vga) (lines : Int) : Vga :=
  if v.totalLines = 0 then v
  else
    let v :=
      if v.viewOffset = 0 then { v with saved := copyScreen v.saved v.buffer, screenSaved := true }
      else v
    let offset := int32 (v.viewOffset + lines)
    vgaScrollbackRender
      { v with viewOffset := if v.totalLines < offset then v.totalLines else offset }

/-- `vga_scrollback_down` -/
def vgaScrollbackDown (v : Vga) (lines : Int) : Vga :=
  if v.viewOffset = 0 then v
  else
    let offset := int32 (v.viewOffset - lines)
    let v := { v with viewOffset := if offset < 0 then 0 else offset }
    if v.viewOffset = 0 then vgaUpdateCursor v.restore else vgaScrollbackRender v

/-! ## Output -/

/-- The first part of `vga_putchar_raw`: the cell, and the cursor behind it. -/
def Vga.place (v : Vga) (c : UInt8) : Vga :=
  if c = 0x0A then { v with column := 0, row := v.row + 1 }
  else if c = 0x08 then
    let v :=
      if 0 < v.column then { v with column := v.column - 1 }
      else if 0 < v.row then { v with row := v.row - 1, column := vgaWidth - 1 }
      else v
    v.setCell v.blank
  else
    let v := v.setCell (v.glyph c)
    if v.column + 1 = vgaWidth then { v with column := 0, row := v.row + 1 }
    else { v with column := v.column + 1 }

/-- `vga_putchar_raw` -/
def vgaPutcharRaw (v : Vga) (c : UInt8) : Option Vga :=
  let v := if 0 < v.viewOffset then vgaScrollbackReset v else v
  let v := v.place c
  if vgaHeight ≤ v.row then vgaScroll { v with row := vgaHeight - 1 } else some v

end XosKernel.Display
