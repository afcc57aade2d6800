/-
# Display.Scrollback -- looking back does not disturb the output

Two runs of the same calls, one of them without the calls that move the view.  A state of the
first belongs to one of the second (`Vga.Follows`) if resetting its view gives the same screen,
cursor and lines: while the view is scrolled back, the live screen is in `current_screen`.  Every
call keeps this as long as the two `int` variables that grow do not overflow
(`VgaCall.Small`), so it holds along every such run.
-/
import XosKernel.Display.Vga
import XosKernel.Theory.Steps
import Mathlib.Tactic.Linarith

namespace XosKernel.Display

open XosKernel.Theory

set_option autoImplicit false

theorem int32_of_small {x : Int} (low : -2 ^ 31 ≤ x) (high : x < 2 ^ 31) : int32 x = x := by
  unfold int32
  rw [Int.bmod_def]
  split <;> omega

/-- The screen, the cursor and the lines of the scrollback are the same. -/
structure SameOutput (v w : Vga) : Prop where
  screen : ∀ i, i < screenSize → v.buffer i = w.buffer i
  row : v.row = w.row
  column : v.column = w.column
  color : v.color = w.color
  scrollback : v.scrollback = w.scrollback
  pos : v.pos = w.pos
  totalLines : v.totalLines = w.totalLines

/-- The cursor is on the screen, the counters are in range, and while the view is scrolled back
there is a saved screen. -/
structure Vga.Bounded (v : Vga) : Prop where
  row : v.row < vgaHeight
  column : v.column < vgaWidth
  pos : 0 ≤ v.pos ∧ v.pos < 2 ^ 31
  totalLines : v.totalLines ≤ scrollbackLines
  viewOffset : 0 ≤ v.viewOffset ∧ v.viewOffset ≤ v.totalLines
  saved : v.viewOffset ≠ 0 → v.screenSaved = true

/-! ## Calls -/

/-- The calls of the interface; a number of lines is an `int` that is not negative. -/
inductive VgaCall where
  | putcharRaw (c : UInt8)
  | clear
  | setColor (fg bg : UInt8)
  | scrollbackUp (lines : Fin (2 ^ 31))
  | scrollbackDown (lines : Fin (2 ^ 31))
  | scrollbackReset

namespace VgaCall

def run (v : Vga) : VgaCall → Option Vga
  | putcharRaw c => vgaPutcharRaw v c
  | clear => some (vgaClear v)
  | setColor fg bg => some (vgaSetColor v fg bg)
  | scrollbackUp lines => some (vgaScrollbackUp v lines.val)
  | scrollbackDown lines => some (vgaScrollbackDown v lines.val)
  | scrollbackReset => some (vgaScrollbackReset v)

/-- A call in a run that has not failed. -/
def step (s : Option Vga) (call : VgaCall) : Option Vga := s.bind call.run

/-- The call is not one of `vga_scrollback_*`. -/
def isOutput : VgaCall → Bool
  | putcharRaw _ => true
  | clear => true
  | setColor _ _ => true
  | _ => false

end VgaCall

/-- The character moves the cursor below the last row. -/
def Vga.Scrolls (v : Vga) (c : UInt8) : Prop :=
  v.row + 1 = vgaHeight ∧ (c = 0x0A ∨ c ≠ 0x08 ∧ v.column + 1 = vgaWidth)

/-- Neither `scrollback_pos` nor `scrollback_view_offset` overflows in the call. -/
def VgaCall.Small (v : Vga) : VgaCall → Prop
  | putcharRaw c => v.Scrolls c → v.pos + 1 < 2 ^ 31
  | scrollbackUp lines => v.viewOffset + lines.val < 2 ^ 31
  | _ => True

instance (v : Vga) (c : UInt8) : Decidable (v.Scrolls c) :=
  inferInstanceAs (Decidable (_ ∧ (_ ∨ _)))

instance (v : Vga) : (call : VgaCall) → Decidable (call.Small v)
  | .putcharRaw c => inferInstanceAs (Decidable (v.Scrolls c → v.pos + 1 < 2 ^ 31))
  | .scrollbackUp lines => inferInstanceAs (Decidable (v.viewOffset + lines.val < 2 ^ 31))
  | .clear => .isTrue trivial
  | .setColor _ _ => .isTrue trivial
  | .scrollbackDown _ => .isTrue trivial
  | .scrollbackReset => .isTrue trivial

/-- The same in a run. -/
def VgaCall.SmallIn (s : Option Vga) (call : VgaCall) : Prop := ∀ v ∈ s, call.Small v

instance (s : Option Vga) (call : VgaCall) : Decidable (call.SmallIn s) :=
  inferInstanceAs (Decidable (∀ v ∈ s, call.Small v))

/-- After the calls the cursor is on the screen, and with the live view the output is that of the
same calls without the ones that move the view. -/
def VgaCall.Undisturbed (start : Vga) (calls : List VgaCall) : Prop :=
  ∃ v, calls.foldl step (some start) = some v ∧ v.row < vgaHeight ∧ v.column < vgaWidth ∧
    (v.viewOffset = 0 →
      ∃ w, (calls.filter isOutput).foldl step (some start) = some w ∧ SameOutput v w)

/-! ## Output -/

/-- What the first part of `vga_putchar_raw` changes. -/
theorem place_eq {v : Vga} (row : v.row < vgaHeight) (column : v.column < vgaWidth) (c : UInt8) :
    ∃ row' column' buffer, v.place c = { v with row := row', column := column', buffer } ∧
      column' < vgaWidth ∧ row' ≤ vgaHeight ∧ (row' = vgaHeight → v.Scrolls c) := by
  have wide : vgaWidth = 80 := rfl
  have high : vgaHeight = 25 := rfl
  unfold Vga.place
  split
  · next newline =>
      refine ⟨v.row + 1, 0, v.buffer, rfl, by omega, row, fun below => ⟨below, .inl newline⟩⟩
  split
  · split
    · exact ⟨v.row, v.column - 1, _, rfl, by omega, by omega, fun below => by omega⟩
    split
    · exact ⟨v.row - 1, vgaWidth - 1, _, rfl, by omega, by omega, fun below => by omega⟩
    · exact ⟨v.row, v.column, _, rfl, by omega, by omega, fun below => by omega⟩
  · next other =>
      dsimp only
      split
      · next ended =>
          exact ⟨v.row + 1, 0, _, rfl, by omega, row, fun below => ⟨below, .inr ⟨other, ended⟩⟩⟩
      · next more =>
          have more : v.column + 1 ≠ vgaWidth := more
          exact ⟨v.row, v.column + 1, _, rfl, by omega, by omega, fun below => by omega⟩

namespace SameOutput

variable {v w u : Vga}

theorem refl (v : Vga) : SameOutput v v := ⟨fun _ _ => rfl, rfl, rfl, rfl, rfl, rfl, rfl⟩

theorem trans (first : SameOutput v w) (second : SameOutput w u) : SameOutput v u where
  screen i low := (first.screen i low).trans (second.screen i low)
  row := first.row.trans second.row
  column := first.column.trans second.column
  color := first.color.trans second.color
  scrollback := first.scrollback.trans second.scrollback
  pos := first.pos.trans second.pos
  totalLines := first.totalLines.trans second.totalLines

theorem blank (same : SameOutput v w) : v.blank = w.blank := by
  rw [Vga.blank, same.color]
  rfl

theorem glyph (same : SameOutput v w) (c : UInt8) : v.glyph c = w.glyph c := by
  rw [Vga.glyph, same.color]
  rfl

/-- Both cursors are moved. -/
theorem move (same : SameOutput v w) (row column : Nat) :
    SameOutput { v with row, column } { w with row, column } :=
  ⟨same.screen, rfl, rfl, same.color, same.scrollback, same.pos, same.totalLines⟩

/-- The cells at both cursors are written. -/
theorem setCell (same : SameOutput v w) (cell : UInt16) :
    SameOutput (v.setCell cell) (w.setCell cell) := by
  refine ⟨fun i low => ?_, same.row, same.column, same.color, same.scrollback, same.pos,
    same.totalLines⟩
  show Function.update v.buffer (v.row * vgaWidth + v.column) cell i =
    Function.update w.buffer (w.row * vgaWidth + w.column) cell i
  rw [same.row, same.column, Function.update_apply, Function.update_apply, same.screen i low]

theorem erase (same : SameOutput v w) :
    SameOutput (v.setCell v.blank) (w.setCell w.blank) := by
  rw [← same.blank]
  exact same.setCell _

theorem place (same : SameOutput v w) (c : UInt8) : SameOutput (v.place c) (w.place c) := by
  unfold Vga.place
  dsimp only
  split
  · rw [← same.row]
    exact same.move _ _
  split
  · rw [← same.row, ← same.column]
    split
    · exact (same.move v.row (v.column - 1)).erase
    split
    · exact (same.move (v.row - 1) (vgaWidth - 1)).erase
    · exact same.erase
  · have written := same.setCell (v.glyph c)
    rw [← same.glyph c, ← written.row, ← written.column]
    split
    · exact written.move _ _
    · exact written.move _ _

theorem scrollTo (same : SameOutput v w) (lineIdx : Nat) :
    SameOutput (v.scrollTo lineIdx) (w.scrollTo lineIdx) := by
  refine ⟨fun i low => ?_, same.row, same.column, same.color, ?_, ?_, ?_⟩
  · simp only [Vga.scrollTo, copyScreen, if_pos low, same.blank]
    split
    · next above =>
        have rows : screenSize = (vgaHeight - 1) * vgaWidth + vgaWidth := rfl
        exact same.screen _ (by omega)
    · rfl
  · funext i
    simp only [Vga.scrollTo, same.scrollback]
    split
    · next here =>
        have rows : screenSize = (vgaHeight - 1) * vgaWidth + vgaWidth := rfl
        exact same.screen _ (by omega)
    · rfl
  · simp only [Vga.scrollTo, same.pos]
  · simp only [Vga.scrollTo, same.totalLines]

/-- The top line goes to the same place of the ring. -/
theorem scroll (same : SameOutput v w) {v' w' : Vga} (is : vgaScroll v = some v')
    (is_w : vgaScroll w = some w') : SameOutput v' w' := by
  simp only [vgaScroll] at is is_w
  rw [← same.pos] at is_w
  by_cases outside : v.pos.tmod scrollbackLines < 0
  · rw [if_pos outside] at is
    exact absurd is (by simp)
  · rw [if_neg outside, Option.some.injEq] at is is_w
    rw [← is, ← is_w]
    exact same.scrollTo _

end SameOutput

theorem vgaScroll_eq {v : Vga} (range : 0 ≤ v.pos) :
    vgaScroll v = some (v.scrollTo (v.pos.tmod scrollbackLines).toNat) := by
  unfold vgaScroll
  exact if_neg (Int.not_lt.mpr (Int.tmod_nonneg _ range))

/-- Scrolling keeps the bounds while `scrollback_pos` has room. -/
theorem Vga.Bounded.scrollTo {v : Vga} (bounded : v.Bounded) (live : v.viewOffset = 0)
    (room : v.pos + 1 < 2 ^ 31) (lineIdx : Nat) : (v.scrollTo lineIdx).Bounded := by
  obtain ⟨low, high⟩ := bounded.pos
  have few := bounded.totalLines
  have lines : scrollbackLines = 500 := rfl
  obtain ⟨-, some_⟩ := bounded.viewOffset
  refine ⟨bounded.row, bounded.column, ?_, ?_, ?_, bounded.saved⟩
  · show 0 ≤ int32 (v.pos + 1) ∧ int32 (v.pos + 1) < 2 ^ 31
    rw [int32_of_small (by omega) room]
    omega
  · show (if v.totalLines < scrollbackLines then int32 (v.totalLines + 1) else v.totalLines) ≤ _
    split
    · rw [int32_of_small (by omega) (by omega)]
      omega
    · exact few
  · show 0 ≤ v.viewOffset ∧ v.viewOffset ≤
      (if v.totalLines < scrollbackLines then int32 (v.totalLines + 1) else v.totalLines)
    split
    · rw [int32_of_small (by omega) (by omega)]
      omega
    · omega

section Putchar

variable {v w : Vga} {c : UInt8}

/-- A character on the live screen. -/
theorem putchar_live (live : v.viewOffset = 0) :
    vgaPutcharRaw v c =
      if vgaHeight ≤ (v.place c).row then vgaScroll { v.place c with row := vgaHeight - 1 }
      else some (v.place c) := by
  unfold vgaPutcharRaw
  rw [live]
  rfl

/-- It keeps the bounds. -/
theorem putchar_bounded (bounded : v.Bounded) (live : v.viewOffset = 0)
    (small : v.Scrolls c → v.pos + 1 < 2 ^ 31) :
    ∃ v', vgaPutcharRaw v c = some v' ∧ v'.Bounded ∧ v'.viewOffset = 0 := by
  rw [putchar_live live]
  obtain ⟨row, column, buffer, is, columnBound, rowBound, scrolls⟩ :=
    place_eq bounded.row bounded.column c
  rw [is]
  dsimp only
  by_cases below : vgaHeight ≤ row
  · have placed : Vga.Bounded { v with row := vgaHeight - 1, column, buffer } :=
      ⟨by show vgaHeight - 1 < vgaHeight; decide, columnBound, bounded.pos, bounded.totalLines,
        bounded.viewOffset, bounded.saved⟩
    rw [if_pos below, vgaScroll_eq placed.pos.1]
    exact ⟨_, rfl, placed.scrollTo live (small (scrolls (by omega))) _, live⟩
  · rw [if_neg below]
    exact ⟨_, rfl, ⟨by show row < vgaHeight; omega, columnBound, bounded.pos, bounded.totalLines,
      bounded.viewOffset, bounded.saved⟩, live⟩

/-- On two screens with the same output it leaves the same output. -/
theorem putchar_same (same : SameOutput v w) (live : v.viewOffset = 0) (live_w : w.viewOffset = 0)
    {v' w' : Vga} (is : vgaPutcharRaw v c = some v') (is_w : vgaPutcharRaw w c = some w') :
    SameOutput v' w' := by
  have placed := same.place c
  rw [putchar_live live] at is
  rw [putchar_live live_w, ← placed.row] at is_w
  split at is
  · next below =>
      rw [if_pos below] at is_w
      have moved : SameOutput { v.place c with row := vgaHeight - 1 }
          { w.place c with row := vgaHeight - 1 } :=
        ⟨placed.screen, rfl, placed.column, placed.color, placed.scrollback, placed.pos,
          placed.totalLines⟩
      exact moved.scroll is is_w
  · next above =>
      rw [if_neg above, Option.some.injEq] at is_w
      rw [Option.some.injEq] at is
      rw [← is, ← is_w]
      exact placed

end Putchar

theorem clear_bounded (v : Vga) : (vgaClear v).Bounded where
  row := by show 0 < vgaHeight; decide
  column := by show 0 < vgaWidth; decide
  pos := by show (0 : Int) ≤ 0 ∧ (0 : Int) < 2 ^ 31; decide
  totalLines := by show (0 : Int) ≤ scrollbackLines; decide
  viewOffset := ⟨Int.le_refl 0, Int.le_refl 0⟩
  saved := fun scrolled => absurd rfl scrolled

/-! ## The view -/

/-- The cell of the live screen. -/
def Vga.live (v : Vga) (i : Nat) : UInt16 := if v.viewOffset = 0 then v.buffer i else v.saved i

section View

variable {v w : Vga}

/-- Resetting the view of a screen gives the live screen. -/
theorem reset_eq (bounded : v.Bounded) :
    ∃ buffer screenSaved crtc, vgaScrollbackReset v =
        { v with viewOffset := 0, buffer, screenSaved, crtc } ∧
      ∀ i, i < screenSize → buffer i = v.live i := by
  unfold vgaScrollbackReset
  by_cases live : v.viewOffset = 0
  · rw [if_pos live]
    refine ⟨v.buffer, v.screenSaved, v.crtc, ?_, ?_⟩
    · rw [← live]
    · intro i _
      rw [Vga.live, if_pos live]
  · rw [if_neg live, Vga.restore, if_pos (bounded.saved live)]
    refine ⟨copyScreen v.buffer v.saved, false, _, rfl, ?_⟩
    intro i low
    rw [copyScreen, if_pos low, Vga.live, if_neg live]

theorem reset_viewOffset (bounded : v.Bounded) : (vgaScrollbackReset v).viewOffset = 0 := by
  obtain ⟨buffer, screenSaved, crtc, is, -⟩ := reset_eq bounded
  rw [is]

theorem reset_bounded (bounded : v.Bounded) : (vgaScrollbackReset v).Bounded := by
  obtain ⟨buffer, screenSaved, crtc, is, -⟩ := reset_eq bounded
  rw [is]
  obtain ⟨low, high⟩ := bounded.viewOffset
  exact ⟨bounded.row, bounded.column, bounded.pos, bounded.totalLines,
    ⟨Int.le_refl 0, Int.le_trans low high⟩, fun wrong => absurd rfl wrong⟩

theorem reset_of_live (live : v.viewOffset = 0) : vgaScrollbackReset v = v := by
  rw [vgaScrollbackReset, if_pos live]

/-- Rendering changes the text memory and the registers; with the live view, the registers only. -/
theorem render_eq (v : Vga) :
    ∃ buffer crtc, vgaScrollbackRender v = { v with buffer, crtc } ∧
      (v.viewOffset = 0 → buffer = v.buffer) := by
  unfold vgaScrollbackRender
  split
  · exact ⟨v.buffer, _, rfl, fun _ => rfl⟩
  · next scrolled => exact ⟨_, _, rfl, fun live => absurd live scrolled⟩

theorem render_bounded (bounded : v.Bounded) : (vgaScrollbackRender v).Bounded := by
  obtain ⟨buffer, crtc, is, -⟩ := render_eq v
  rw [is]
  exact ⟨bounded.row, bounded.column, bounded.pos, bounded.totalLines, bounded.viewOffset,
    bounded.saved⟩

/-- A change of the view that leaves the live screen. -/
theorem reset_same {offset : Int} {buffer saved : Nat → UInt16} {screenSaved : Bool}
    {crtc : UInt8 → UInt8} (bounded : v.Bounded)
    (bounded' : Vga.Bounded { v with viewOffset := offset, buffer, saved, screenSaved, crtc })
    (cells : ∀ i, i < screenSize →
      Vga.live { v with viewOffset := offset, buffer, saved, screenSaved, crtc } i = v.live i) :
    SameOutput
      (vgaScrollbackReset { v with viewOffset := offset, buffer, saved, screenSaved, crtc })
      (vgaScrollbackReset v) := by
  obtain ⟨_, _, _, is, restored⟩ := reset_eq bounded
  obtain ⟨_, _, _, is', restored'⟩ := reset_eq bounded'
  rw [is, is']
  refine ⟨fun i low => ?_, rfl, rfl, rfl, rfl, rfl, rfl⟩
  exact (restored' i low).trans ((cells i low).trans (restored i low).symm)

/-- Showing other lines, with the live screen saved. -/
theorem render_same {offset : Int} {saved : Nat → UInt16} {screenSaved : Bool}
    (bounded : v.Bounded)
    (bounded' : Vga.Bounded { v with viewOffset := offset, saved, screenSaved })
    (cells : ∀ i, i < screenSize →
      Vga.live { v with viewOffset := offset, saved, screenSaved } i = v.live i) :
    SameOutput
      (vgaScrollbackReset (vgaScrollbackRender { v with viewOffset := offset, saved, screenSaved }))
      (vgaScrollbackReset v) := by
  obtain ⟨buffer, crtc, is, kept⟩ := render_eq { v with viewOffset := offset, saved, screenSaved }
  have bounded'' := render_bounded bounded'
  rw [is] at bounded'' ⊢
  apply reset_same bounded bounded''
  intro i low
  rw [← cells i low]
  unfold Vga.live
  dsimp only
  split
  · next live => rw [kept live]
  · rfl

theorem up_same (bounded : v.Bounded) {lines : Nat} (small : v.viewOffset + lines < 2 ^ 31) :
    (vgaScrollbackUp v lines).Bounded ∧
      SameOutput (vgaScrollbackReset (vgaScrollbackUp v lines)) (vgaScrollbackReset v) := by
  obtain ⟨low, high⟩ := bounded.viewOffset
  unfold vgaScrollbackUp
  by_cases none_ : v.totalLines = 0
  · rw [if_pos none_]
    exact ⟨bounded, .refl _⟩
  rw [if_neg none_]
  have range : ∀ offset, (if v.totalLines < v.viewOffset + lines then v.totalLines
      else v.viewOffset + lines) = offset → v.viewOffset ≤ offset ∧ offset ≤ v.totalLines := by
    rintro _ rfl
    split <;> omega
  by_cases live : v.viewOffset = 0
  · -- the live screen is saved
    simp only [if_pos live, int32_of_small (x := v.viewOffset + lines) (by omega) small]
    generalize is : (if v.totalLines < v.viewOffset + lines then v.totalLines
      else v.viewOffset + lines) = offset
    obtain ⟨above, below⟩ := range offset is
    have bounded' : Vga.Bounded { v with
        viewOffset := offset, saved := copyScreen v.saved v.buffer, screenSaved := true } :=
      ⟨bounded.row, bounded.column, bounded.pos, bounded.totalLines,
        ⟨Int.le_trans low above, below⟩, fun _ => rfl⟩
    refine ⟨render_bounded bounded', render_same bounded bounded' ?_⟩
    intro i inside
    simp only [Vga.live, copyScreen, if_pos live, if_pos inside, ite_self]
  · simp only [if_neg live, int32_of_small (x := v.viewOffset + lines) (by omega) small]
    generalize is : (if v.totalLines < v.viewOffset + lines then v.totalLines
      else v.viewOffset + lines) = offset
    obtain ⟨above, below⟩ := range offset is
    have bounded' : Vga.Bounded { v with viewOffset := offset } :=
      ⟨bounded.row, bounded.column, bounded.pos, bounded.totalLines,
        ⟨Int.le_trans low above, below⟩, fun _ => bounded.saved live⟩
    refine ⟨render_bounded bounded', render_same bounded bounded' ?_⟩
    intro i _
    simp only [Vga.live, if_neg live, if_neg (show ¬ offset = 0 by omega)]

theorem down_same (bounded : v.Bounded) {lines : Nat} (small : lines < 2 ^ 31) :
    (vgaScrollbackDown v lines).Bounded ∧
      SameOutput (vgaScrollbackReset (vgaScrollbackDown v lines)) (vgaScrollbackReset v) := by
  obtain ⟨low, high⟩ := bounded.viewOffset
  have few := bounded.totalLines
  have many : scrollbackLines = 500 := rfl
  by_cases live : v.viewOffset = 0
  · rw [vgaScrollbackDown, if_pos live]
    exact ⟨bounded, .refl _⟩
  by_cases back : v.viewOffset ≤ lines
  · -- back at the live screen, as with a reset
    have is : vgaScrollbackDown v lines = vgaScrollbackReset v := by
      have bottom : (if v.viewOffset - lines < 0 then 0 else v.viewOffset - lines) = 0 := by
        split <;> omega
      simp only [vgaScrollbackDown, vgaScrollbackReset, if_neg live, bottom, if_true,
        int32_of_small (x := v.viewOffset - lines) (by omega) (by omega)]
    rw [is, reset_of_live (reset_viewOffset bounded)]
    exact ⟨reset_bounded bounded, .refl _⟩
  · have is : vgaScrollbackDown v lines =
        vgaScrollbackRender { v with viewOffset := v.viewOffset - lines } := by
      simp only [vgaScrollbackDown, if_neg live,
        int32_of_small (x := v.viewOffset - lines) (by omega) (by omega),
        if_neg (show ¬ v.viewOffset - lines < 0 by omega),
        if_neg (show ¬ v.viewOffset - lines = 0 by omega)]
    have bounded' : Vga.Bounded { v with viewOffset := v.viewOffset - lines } :=
      ⟨bounded.row, bounded.column, bounded.pos, bounded.totalLines,
        by dsimp only; omega, fun _ => bounded.saved live⟩
    rw [is]
    refine ⟨render_bounded bounded', render_same bounded bounded' ?_⟩
    intro i _
    unfold Vga.live
    rw [if_neg (show ¬ v.viewOffset - lines = 0 by omega), if_neg live]

end View

/-! ## Runs -/

/-- The state belongs to the state `w` of the run without the calls that move the view. -/
structure Vga.Follows (v w : Vga) : Prop where
  bounded : v.Bounded
  bounded_w : w.Bounded
  live_w : w.viewOffset = 0
  output : SameOutput (vgaScrollbackReset v) w

namespace Vga.Follows

variable {v w : Vga}

theorem putchar (follows : v.Follows w) {c : UInt8} (small : v.Scrolls c → v.pos + 1 < 2 ^ 31) :
    ∃ v' w', vgaPutcharRaw v c = some v' ∧ vgaPutcharRaw w c = some w' ∧ v'.Follows w' := by
  have back : vgaPutcharRaw v c = vgaPutcharRaw (vgaScrollbackReset v) c := by
    have first : (if 0 < v.viewOffset then vgaScrollbackReset v else v) = vgaScrollbackReset v := by
      obtain ⟨low, -⟩ := follows.bounded.viewOffset
      by_cases live : v.viewOffset = 0
      · rw [if_neg (by omega), reset_of_live live]
      · rw [if_pos (by omega)]
    rw [putchar_live (reset_viewOffset follows.bounded), vgaPutcharRaw, first]
  have small' : (vgaScrollbackReset v).Scrolls c → (vgaScrollbackReset v).pos + 1 < 2 ^ 31 := by
    obtain ⟨buffer, screenSaved, crtc, is, -⟩ := reset_eq follows.bounded
    rw [is]
    exact small
  have small_w : w.Scrolls c → w.pos + 1 < 2 ^ 31 := by
    unfold Vga.Scrolls at small' ⊢
    rw [← follows.output.row, ← follows.output.column, ← follows.output.pos]
    exact small'
  obtain ⟨v', is, bounded, live⟩ :=
    putchar_bounded (reset_bounded follows.bounded) (reset_viewOffset follows.bounded) small'
  obtain ⟨w', is_w, bounded_w, live_w⟩ := putchar_bounded follows.bounded_w follows.live_w small_w
  refine ⟨v', w', back.trans is, is_w, bounded, bounded_w, live_w, ?_⟩
  rw [reset_of_live live]
  exact putchar_same follows.output (reset_viewOffset follows.bounded) follows.live_w is is_w

theorem clear (follows : v.Follows w) : (vgaClear v).Follows (vgaClear w) := by
  obtain ⟨buffer, screenSaved, crtc, is, -⟩ := reset_eq follows.bounded
  have color : v.color = w.color := by
    have same := follows.output.color
    rw [is] at same
    exact same
  have scrollback : v.scrollback = w.scrollback := by
    have same := follows.output.scrollback
    rw [is] at same
    exact same
  refine ⟨clear_bounded v, clear_bounded w, rfl, ?_⟩
  rw [reset_of_live (show (vgaClear v).viewOffset = 0 from rfl)]
  refine ⟨fun i low => ?_, rfl, rfl, color, scrollback, rfl, rfl⟩
  show copyScreen v.buffer (fun _ => v.blank) i = copyScreen w.buffer (fun _ => w.blank) i
  rw [copyScreen, copyScreen, if_pos low, if_pos low, Vga.blank, color]
  rfl

theorem setColor (follows : v.Follows w) (fg bg : UInt8) :
    (vgaSetColor v fg bg).Follows (vgaSetColor w fg bg) := by
  have commutes : vgaScrollbackReset (vgaSetColor v fg bg) =
      vgaSetColor (vgaScrollbackReset v) fg bg := by
    by_cases live : v.viewOffset = 0
    · rw [reset_of_live live]
      exact reset_of_live live
    · have saved := follows.bounded.saved live
      rw [vgaScrollbackReset, vgaScrollbackReset, if_neg live,
        if_neg (show ¬ (vgaSetColor v fg bg).viewOffset = 0 from live), Vga.restore, Vga.restore,
        if_pos saved, if_pos (show (vgaSetColor v fg bg).screenSaved = true from saved)]
      rfl
  have bounded := follows.bounded
  have bounded_w := follows.bounded_w
  have same := follows.output
  refine ⟨⟨bounded.row, bounded.column, bounded.pos, bounded.totalLines, bounded.viewOffset,
    bounded.saved⟩, ⟨bounded_w.row, bounded_w.column, bounded_w.pos, bounded_w.totalLines,
    bounded_w.viewOffset, bounded_w.saved⟩, follows.live_w, ?_⟩
  rw [commutes]
  exact ⟨same.screen, same.row, same.column, rfl, same.scrollback, same.pos, same.totalLines⟩

/-- One call. -/
theorem call (follows : v.Follows w) {call : VgaCall} (small : call.Small v) :
    ∃ v' w', call.run v = some v' ∧ (if call.isOutput then call.run w else some w) = some w' ∧
      v'.Follows w' := by
  cases call with
  | putcharRaw c => exact follows.putchar small
  | clear => exact ⟨_, _, rfl, rfl, follows.clear⟩
  | setColor fg bg => exact ⟨_, _, rfl, rfl, follows.setColor fg bg⟩
  | scrollbackUp lines =>
      obtain ⟨bounded, same⟩ := up_same follows.bounded small
      exact ⟨_, w, rfl, rfl, bounded, follows.bounded_w, follows.live_w, same.trans follows.output⟩
  | scrollbackDown lines =>
      obtain ⟨bounded, same⟩ := down_same follows.bounded lines.isLt
      exact ⟨_, w, rfl, rfl, bounded, follows.bounded_w, follows.live_w, same.trans follows.output⟩
  | scrollbackReset =>
      have same : SameOutput (vgaScrollbackReset (vgaScrollbackReset v)) w := by
        rw [reset_of_live (reset_viewOffset follows.bounded)]
        exact follows.output
      exact ⟨_, w, rfl, rfl, reset_bounded follows.bounded, follows.bounded_w, follows.live_w, same⟩

/-- The calls of a run, none of which overflows. -/
theorem calls (calls : List VgaCall) (follows : v.Follows w)
    (small : EachStep VgaCall.step (fun s call => call.SmallIn s) (some v) calls) :
    ∃ v' w', calls.foldl VgaCall.step (some v) = some v' ∧
      (calls.filter VgaCall.isOutput).foldl VgaCall.step (some w) = some w' ∧ v'.Follows w' := by
  induction calls generalizing v w with
  | nil => exact ⟨v, w, rfl, rfl, follows⟩
  | cons call rest ih =>
      obtain ⟨v₁, w₁, is, is_w, follows₁⟩ := follows.call (small.1 v rfl)
      have step_v : VgaCall.step (some v) call = some v₁ := is
      have later := small.2
      rw [step_v] at later
      obtain ⟨v', w', run, run_w, follows'⟩ := ih follows₁ later
      refine ⟨v', w', ?_, ?_, follows'⟩
      · rw [List.foldl_cons, step_v]
        exact run
      · rw [List.filter_cons]
        split at is_w
        · next output =>
            rw [if_pos output, List.foldl_cons,
              show VgaCall.step (some w) call = some w₁ from is_w]
            exact run_w
        · next view =>
            rw [if_neg view, is_w]
            exact run_w

end Vga.Follows

theorem Vga.Follows.start (before : Vga) : (vgaInit before).Follows (vgaInit before) where
  bounded := clear_bounded _
  bounded_w := clear_bounded _
  live_w := rfl
  output := by
    rw [reset_of_live (show (vgaInit before).viewOffset = 0 from rfl)]
    exact .refl _

/-- After every call of a run without overflow the cursor is on the screen, and whenever the view
is live the output is as if nobody had looked back. -/
theorem viewing_undisturbed (before : Vga) (calls : List VgaCall)
    (small : EachStep VgaCall.step (fun s call => call.SmallIn s) (some (vgaInit before)) calls)
    (n : Nat) : VgaCall.Undisturbed (vgaInit before) (calls.take n) := by
  obtain ⟨v, w, run, run_w, follows⟩ :=
    Vga.Follows.calls (calls.take n) (.start before) (small.take n)
  refine ⟨v, run, follows.bounded.row, follows.bounded.column, fun live => ⟨w, run_w, ?_⟩⟩
  have same := follows.output
  rw [reset_of_live live] at same
  exact same

/-- All variables and the memory zero. -/
def Vga.zero : Vga :=
  ⟨0, 0, 0, fun _ => 0, fun _ => 0, 0, 0, 0, fun _ => 0, false, fun _ => 0⟩

/-- One line scrolls off; output while it is shown, and a second look. -/
def lookingBack : List VgaCall :=
  List.replicate 25 (.putcharRaw 0x0A) ++
    [.scrollbackUp 5, .putcharRaw 0x41, .scrollbackUp 5, .scrollbackReset]

theorem lookingBack_undisturbed :
    VgaCall.Undisturbed (vgaInit .zero) (lookingBack.take 29) :=
  viewing_undisturbed .zero lookingBack (by decide +kernel) 29

/-- One line scrolls off; two calls scroll up so far that the offset overflows. -/
def overflowingCalls : List VgaCall :=
  List.replicate 25 (.putcharRaw 0x0A) ++
    [.scrollbackUp 1, .scrollbackUp 2147483647, .putcharRaw 0x41, .scrollbackReset]

/-- The character that is printed then is lost. -/
theorem overflow_loses_output :
    ¬ ∀ n, VgaCall.Undisturbed (vgaInit .zero) (overflowingCalls.take n) := by
  intro all
  obtain ⟨v, run, -, -, output⟩ := all 29
  have seen : ((overflowingCalls.take 29).foldl VgaCall.step (some (vgaInit .zero))).map
      (fun v => (v.viewOffset, v.buffer (24 * 80))) = some (0, 0x0720) := by decide +kernel
  have printed : (((overflowingCalls.take 29).filter VgaCall.isOutput).foldl VgaCall.step
      (some (vgaInit .zero))).map (fun v => v.buffer (24 * 80)) = some 0x0741 := by decide +kernel
  rw [run, Option.map_some, Option.some.injEq, Prod.mk.injEq] at seen
  obtain ⟨w, run_w, same⟩ := output seen.1
  rw [run_w, Option.map_some, Option.some.injEq] at printed
  have cell := same.screen (24 * 80) (by decide)
  rw [seen.2, printed] at cell
  exact absurd cell (by decide)

end XosKernel.Display
