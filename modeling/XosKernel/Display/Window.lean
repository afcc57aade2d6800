/-
# Display.Window -- the lines that a scrolled-back view shows

With the view `n` lines back the screen should show the 25 lines that end `n` lines above the
bottom of the live one (`Paper.ShownAt`).  `vga_scrollback_render` counts a screen too far: it
shows the lines that stand 25 lines above those (`render_cell`), and of these the ones that the
ring no longer holds read as newer ones.  So the view is right exactly if that makes no difference
to the text (`view_shown_iff`).
-/
import XosKernel.Display.Paper

namespace XosKernel.Display

set_option autoImplicit false

/-- The screen shows the 25 lines that end `n` lines above the bottom of the live screen.  With
`n` lines stored, the first of them is a stored line. -/
def Paper.ShownAt (p : Paper) (n : Nat) (buffer : Nat → UInt16) : Prop :=
  ∀ y x, y < vgaHeight → x < vgaWidth →
    buffer (y * vgaWidth + x) = p.cell (p.top - n + y) x

/-- The line 25 lines above line `i`: a blank one above the first line, and where the ring has a
newer line in its slot, that one.  With 2^31 lines, which the counter does not hold, every line
counts as blank. -/
def Paper.lineAbove (p : Paper) (i x : Nat) : UInt16 :=
  if i < vgaHeight ∨ 2 ^ 31 ≤ p.top then space p.color
  else if p.top ≤ i - vgaHeight + scrollbackLines then p.cell (i - vgaHeight) x
  else p.cell (i - vgaHeight + scrollbackLines) x

/-- Each of the 25 lines that end `n` lines above the bottom reads as the line above it does. -/
def Paper.RepeatsAt (p : Paper) (n : Nat) : Prop :=
  ∀ y x, y < vgaHeight → x < vgaWidth →
    p.cell (p.top - n + y) x = p.lineAbove (p.top - n + y) x

section Render

variable {v : Vga} {p : Paper} {n : Nat}

/-- The cells on the screen are those of the lines above the window. -/
theorem render_cell (prints : v.Prints p) (fits : p.top ≤ 2 ^ 31) (scrolled : 1 ≤ n)
    (stored : (n : Int) ≤ v.totalLines) (buffer saved : Nat → UInt16) (screenSaved : Bool)
    (crtc : UInt8 → UInt8) {y x : Nat} (low : y < vgaHeight) (inside : x < vgaWidth) :
    (vgaScrollbackRender { v with viewOffset := n, buffer, saved, screenSaved, crtc }).buffer
      (y * vgaWidth + x) = p.lineAbove (p.top - n + y) x := by
  have high : vgaHeight = 25 := rfl
  have many : scrollbackLines = 500 := rfl
  have total := prints.totalLines
  have blank : ({ v with viewOffset := (n : Int), buffer, saved, screenSaved, crtc } : Vga).blank =
      space p.color := by
    rw [← prints.color]
    rfl
  have place : (y * vgaWidth + x) / vgaWidth = y ∧ (y * vgaWidth + x) % vgaWidth = x := by
    simp only [vgaWidth] at *
    omega
  rw [vgaScrollbackRender, if_neg (by dsimp only; omega)]
  simp only [Vga.setRegister, copyScreen, if_pos (cell_index_lt low inside), place, blank]
  rw [Paper.lineAbove]
  by_cases over_ : 2 ^ 31 ≤ p.top
  · -- the counter is negative, and the window begins far behind it
    have pos : v.pos = -2 ^ 31 := by
      rw [prints.pos, show p.top = 2 ^ 31 by omega]
      decide
    have wraps : int32 (v.pos - n) = 2 ^ 31 - n := by
      rw [int32, Int.bmod_def]
      split <;> omega
    have line : int32 (int32 (int32 (v.pos - n) - (vgaHeight : Int)) + y) =
        2 ^ 31 - n - (vgaHeight : Int) + y := by
      rw [wraps, int32_of_small (x := 2 ^ 31 - n - (vgaHeight : Int)) (by omega) (by omega),
        int32_of_small (by omega) (by omega)]
    rw [line, if_pos (Or.inr over_), if_neg (by omega), if_neg (by omega)]
  · have pos : v.pos = p.top := prints.pos.trans (int32_of_small (by omega) (by omega))
    have line : int32 (int32 (int32 (v.pos - n) - (vgaHeight : Int)) + y) =
        p.top - n - (vgaHeight : Int) + y := by
      rw [pos, int32_of_small (x := (p.top : Int) - n) (by omega) (by omega),
        int32_of_small (x := (p.top : Int) - n - (vgaHeight : Int)) (by omega) (by omega),
        int32_of_small (by omega) (by omega)]
    rw [line, pos]
    by_cases first : p.top - n + y < vgaHeight
    · rw [if_pos (Or.inl first), if_pos (by omega)]
    · rw [if_neg (not_or.mpr ⟨first, over_⟩), if_neg (by omega), if_pos (by omega)]
      have natural : (p.top : Int) - n - (vgaHeight : Int) + y =
          ((p.top - n + y - vgaHeight : Nat) : Int) := by omega
      rw [natural]
      show v.scrollback ((p.top - n + y - vgaHeight) % scrollbackLines * vgaWidth + x) = _
      by_cases held : p.top ≤ p.top - n + y - vgaHeight + scrollbackLines
      · rw [if_pos held]
        exact prints.ring _ x (by omega) held inside
      · -- the slot has the line that came 500 lines later
        rw [if_neg held, ← Nat.add_mod_right]
        exact prints.ring _ x (by omega) (by omega) inside

/-- After any output since a `vga_clear` and for any stored number of lines, the view is right
exactly if the lines of the window read as the lines 25 above them. -/
theorem view_shown_iff (before : Vga) (output : List Output) (v : Vga)
    (ran : output.foldlM Output.run (vgaClear before) = some v) (n : Nat) (scrolled : 1 ≤ n)
    (stored : (n : Int) ≤ v.totalLines) (buffer saved : Nat → UInt16) (screenSaved : Bool)
    (crtc : UInt8 → UInt8) :
    (output.foldl Output.onPaper (.clear before.color)).ShownAt n
      (vgaScrollbackRender { v with viewOffset := n, buffer, saved, screenSaved, crtc }).buffer ↔
      (output.foldl Output.onPaper (.clear before.color)).RepeatsAt n := by
  obtain ⟨goesOn, over_⟩ := prints_run before output
  generalize output.foldl Output.onPaper (.clear before.color) = p at goesOn over_ ⊢
  by_cases fits : p.top ≤ 2 ^ 31
  · obtain ⟨v', ran', prints⟩ := goesOn fits
    obtain rfl : v = v' := Option.some.inj (ran.symm.trans ran')
    have cell := fun y x (low : y < vgaHeight) (inside : x < vgaWidth) =>
      render_cell prints fits scrolled stored buffer saved screenSaved crtc low inside
    constructor
    · intro shown y x low inside
      rw [← shown y x low inside, cell y x low inside]
    · intro repeats y x low inside
      rw [cell y x low inside, repeats y x low inside]
  · rw [over_ (Nat.not_le.mp fits)] at ran
    cases ran

end Render

/-- An `A` in the first line, which then scrolls off. -/
def oneLineOff : List Output := .print 0x41 :: List.replicate 25 (.print 0x0A)

/-- The view one line back is right exactly if this line and the screen read as blank lines. -/
theorem oneLineOff_shown_iff : ∃ v, oneLineOff.foldlM Output.run (vgaClear .zero) = some v ∧
    ((oneLineOff.foldl Output.onPaper (.clear Vga.zero.color)).ShownAt 1
      (vgaScrollbackRender { v with viewOffset := (1 : Nat) }).buffer ↔
      (oneLineOff.foldl Output.onPaper (.clear Vga.zero.color)).RepeatsAt 1) := by
  obtain ⟨v, ran, prints⟩ := (prints_run .zero oneLineOff).1 (by decide +kernel)
  have stored : ((1 : Nat) : Int) ≤ v.totalLines := by
    rw [prints.totalLines]
    decide +kernel
  exact ⟨v, ran, view_shown_iff .zero oneLineOff v ran 1 (Nat.le_refl 1) stored v.buffer v.saved
    v.screenSaved v.crtc⟩

/-- With the view one line back, the line that scrolled off is not on the screen. -/
theorem newest_line_not_shown :
    ¬ ∀ (before : Vga) (output : List Output) (v : Vga),
      output.foldlM Output.run (vgaClear before) = some v →
      ∀ n : Nat, 1 ≤ n → (n : Int) ≤ v.totalLines →
        (output.foldl Output.onPaper (.clear before.color)).ShownAt n
          (vgaScrollbackRender { v with viewOffset := n }).buffer := by
  intro all
  obtain ⟨v, ran, prints⟩ := (prints_run .zero oneLineOff).1 (by decide +kernel)
  have stored : ((1 : Nat) : Int) ≤ v.totalLines := by
    rw [prints.totalLines]
    decide +kernel
  have shown := all .zero oneLineOff v ran 1 (Nat.le_refl 1) stored 0 0 (by decide) (by decide)
  have cell := render_cell prints (by decide +kernel) (Nat.le_refl 1) stored v.buffer v.saved
    v.screenSaved v.crtc (y := 0) (x := 0) (by decide) (by decide)
  rw [cell] at shown
  exact absurd shown (by decide +kernel)

end XosKernel.Display
