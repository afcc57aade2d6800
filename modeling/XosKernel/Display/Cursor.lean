/-
# Display.Cursor -- the hardware cursor while the view moves

The cursor-start register 0x0A of the CRT controller has a bit that turns the cursor off
(`Vga.cursorOn`).  `vga_scrollback_render` sets it; no function clears it again.  So the cursor is
where `vga_flush` should put it as long as nobody looks back, and from then on only while the view
is still scrolled (`cursor_right_iff`).
-/
import XosKernel.Display.Scrollback

namespace XosKernel.Display

open XosKernel.Theory

set_option autoImplicit false

/-- Bit 5 of the cursor-start register turns the cursor off. -/
def Vga.cursorOn (v : Vga) : Bool := v.crtc 0x0A &&& 0x20 == 0

/-- The place in the cursor-location registers. -/
def Vga.cursorPlace (v : Vga) : Nat := (v.crtc 0x0E).toNat * 256 + (v.crtc 0x0F).toNat

/-- `vga_putchar` -/
def vgaPutchar (v : Vga) (c : UInt8) : Option Vga := (vgaPutcharRaw v c).map vgaUpdateCursor

/-- `vga_write` -/
def vgaWrite (v : Vga) (str : List UInt8) : Option Vga :=
  (str.foldlM vgaPutcharRaw v).map vgaUpdateCursor

/-- `vga_flush` -/
def vgaFlush (v : Vga) : Vga := vgaUpdateCursor v

/-! ## Calls -/

/-- The functions of `vga.h` that change something, after `vga_init`. -/
inductive ScreenCall where
  | putcharRaw (c : UInt8)
  | putchar (c : UInt8)
  | write (str : List UInt8)
  | clear
  | setColor (fg bg : UInt8)
  | flush
  | scrollbackUp (lines : Int)
  | scrollbackDown (lines : Int)
  | scrollbackReset
  | scrollbackRender

def ScreenCall.run (v : Vga) : ScreenCall → Option Vga
  | putcharRaw c => vgaPutcharRaw v c
  | putchar c => vgaPutchar v c
  | write str => vgaWrite v str
  | clear => some (vgaClear v)
  | setColor fg bg => some (vgaSetColor v fg bg)
  | flush => some (vgaFlush v)
  | scrollbackUp lines => some (vgaScrollbackUp v lines)
  | scrollbackDown lines => some (vgaScrollbackDown v lines)
  | scrollbackReset => some (vgaScrollbackReset v)
  | scrollbackRender => some (vgaScrollbackRender v)

/-- The call leaves the live screen for stored lines: there are some, and it moves the view. -/
def ScreenCall.looksBack (v : Vga) : ScreenCall → Bool
  | scrollbackUp lines => v.totalLines != 0 && int32 (v.viewOffset + lines) != 0
  | _ => false

def ScreenCall.isFlush : ScreenCall → Bool
  | flush => true
  | _ => false

/-- A run: its state unless it has failed, whether the last call was `vga_flush`, and whether a
call has looked back. -/
structure ScreenRun where
  vga : Option Vga
  flushed : Bool
  looked : Bool

def ScreenRun.step (r : ScreenRun) (call : ScreenCall) : ScreenRun where
  vga := r.vga.bind call.run
  flushed := call.isFlush
  looked := r.looked || r.vga.any call.looksBack

/-- The state after `vga_init`. -/
def ScreenRun.start (before : Vga) : ScreenRun where
  vga := some (vgaInit before)
  flushed := false
  looked := false

/-- After a `vga_flush` with the live view the cursor is on, and at the row and column; with stored
lines on the screen it is off. -/
def ScreenRun.CursorRight (r : ScreenRun) : Prop :=
  ∀ v ∈ r.vga,
    (r.flushed = true → v.viewOffset = 0 →
      v.cursorOn = true ∧ v.cursorPlace = v.row * vgaWidth + v.column) ∧
    (v.viewOffset ≠ 0 → v.cursorOn = false)

/-- It is not the case that somebody has looked back and that `vga_flush` is called for the live
screen. -/
def ScreenRun.FlushedBeforeLook (r : ScreenRun) (call : ScreenCall) : Prop :=
  ∀ v ∈ r.vga, call.isFlush = true → r.looked = true → v.viewOffset ≠ 0

/-! ## What the functions leave -/

/-- The cursor is on the screen, and the number of stored lines is in range. -/
structure Vga.OnScreen (v : Vga) : Prop where
  row : v.row < vgaHeight
  column : v.column < vgaWidth
  totalLines : 0 ≤ v.totalLines ∧ v.totalLines ≤ scrollbackLines

/-- The cursor-start register is as it was, and the live screen is not left. -/
structure Vga.Stays (v v' : Vga) : Prop where
  onScreen : v'.OnScreen
  start : v'.crtc 0x0A = v.crtc 0x0A
  live : v.viewOffset = 0 → v'.viewOffset = 0

/-- What a call leaves: a call that looks back turns the cursor off, and any other may do so only
if the view is scrolled. -/
structure Vga.Leaves (v v' : Vga) (looks : Bool) : Prop where
  onScreen : v'.OnScreen
  start : v'.crtc 0x0A = v.crtc 0x0A ∨ v'.crtc 0x0A = 0x20
  looked : looks = true → v'.crtc 0x0A = 0x20
  stays : looks = false → v.viewOffset = 0 → v.Stays v'

section Stays

variable {v w u : Vga}

theorem Vga.Stays.trans (first : v.Stays w) (second : w.Stays u) : v.Stays u where
  onScreen := second.onScreen
  start := second.start.trans first.start
  live := second.live ∘ first.live

theorem Vga.OnScreen.stays (onScreen : v.OnScreen) : v.Stays v := ⟨onScreen, rfl, id⟩

theorem Vga.OnScreen.updateCursor (onScreen : v.OnScreen) : v.Stays (vgaUpdateCursor v) :=
  ⟨⟨onScreen.row, onScreen.column, onScreen.totalLines⟩, rfl, id⟩

/-- The registers hold the place that was written to them. -/
theorem Vga.OnScreen.place (onScreen : v.OnScreen) :
    (vgaUpdateCursor v).cursorPlace = v.row * vgaWidth + v.column := by
  have row := onScreen.row
  have column := onScreen.column
  have small : v.row * vgaWidth + v.column < 2 ^ 16 := by
    simp only [vgaHeight, vgaWidth] at *
    omega
  show (UInt16.ofNat (v.row * vgaWidth + v.column) >>> 8).toUInt8.toNat * 256 +
    (UInt16.ofNat (v.row * vgaWidth + v.column)).toUInt8.toNat = _
  generalize v.row * vgaWidth + v.column = place at small ⊢
  have whole : (UInt16.ofNat place).toNat = place := UInt16.toNat_ofNat_of_lt' small
  simp only [UInt16.toNat_toUInt8, UInt16.toNat_shiftRight, whole, UInt16.reduceToNat,
    Nat.shiftRight_eq_div_pow, Nat.reduceMod, Nat.reducePow]
  omega

theorem clear_stays (v : Vga) : v.Stays (vgaClear v) :=
  ⟨⟨Nat.zero_lt_succ 24, Nat.zero_lt_succ 79, Int.le_refl 0, by show (0 : Int) ≤ 500; decide⟩, rfl,
    fun _ => rfl⟩

theorem Vga.OnScreen.reset (onScreen : v.OnScreen) : v.Stays (vgaScrollbackReset v) := by
  unfold vgaScrollbackReset
  split
  · exact onScreen.stays
  · unfold Vga.restore
    split
    · exact ⟨⟨onScreen.row, onScreen.column, onScreen.totalLines⟩, rfl, fun _ => rfl⟩
    · exact ⟨⟨onScreen.row, onScreen.column, onScreen.totalLines⟩, rfl, fun _ => rfl⟩

theorem Vga.OnScreen.putcharRaw (onScreen : v.OnScreen) {c : UInt8}
    (is : vgaPutcharRaw v c = some w) : v.Stays w := by
  have back : v.Stays (if 0 < v.viewOffset then vgaScrollbackReset v else v) := by
    split
    · exact onScreen.reset
    · exact onScreen.stays
  unfold vgaPutcharRaw at is
  generalize (if 0 < v.viewOffset then vgaScrollbackReset v else v) = u at back is
  obtain ⟨row', column', buffer, placed, columnBound, rowBound, -⟩ :=
    place_eq back.onScreen.row back.onScreen.column c
  obtain ⟨low, few⟩ := back.onScreen.totalLines
  have many : scrollbackLines = 500 := rfl
  dsimp only at is
  rw [placed] at is
  split at is
  · simp only [vgaScroll] at is
    split at is
    · cases is
    · cases is
      refine ⟨⟨Nat.lt_succ_self 24, columnBound, ?_⟩, back.start, back.live⟩
      show 0 ≤ (if u.totalLines < scrollbackLines then int32 (u.totalLines + 1) else u.totalLines) ∧
        (if u.totalLines < scrollbackLines then int32 (u.totalLines + 1) else u.totalLines) ≤
          scrollbackLines
      split
      · rw [int32_of_small (by omega) (by omega)]
        omega
      · exact ⟨low, few⟩
  · next above =>
      cases is
      exact ⟨⟨Nat.not_le.mp above, columnBound, low, few⟩, back.start, back.live⟩

theorem Vga.OnScreen.writes (onScreen : v.OnScreen) {str : List UInt8}
    (is : str.foldlM vgaPutcharRaw v = some w) : v.Stays w := by
  induction str generalizing v with
  | nil =>
      cases is
      exact onScreen.stays
  | cons c rest ih =>
      rw [List.foldlM_cons] at is
      obtain ⟨u, first, later⟩ := Option.bind_eq_some_iff.mp is
      have stays := onScreen.putcharRaw first
      exact stays.trans (ih stays.onScreen later)

theorem Vga.Stays.leaves (stays : v.Stays w) : v.Leaves w false where
  onScreen := stays.onScreen
  start := .inl stays.start
  looked no := absurd no (by decide)
  stays _ _ := stays

/-- Rendering stored lines turns the cursor off. -/
theorem Vga.OnScreen.render_stored (onScreen : v.OnScreen) (scrolled : v.viewOffset ≠ 0) :
    (vgaScrollbackRender v).OnScreen ∧ (vgaScrollbackRender v).crtc 0x0A = 0x20 := by
  unfold vgaScrollbackRender
  rw [if_neg scrolled]
  exact ⟨⟨onScreen.row, onScreen.column, onScreen.totalLines⟩, rfl⟩

theorem Vga.OnScreen.render_live (onScreen : v.OnScreen) (live : v.viewOffset = 0) :
    v.Stays (vgaScrollbackRender v) := by
  unfold vgaScrollbackRender
  rw [if_pos live]
  exact onScreen.updateCursor

theorem Vga.OnScreen.render (onScreen : v.OnScreen) : v.Leaves (vgaScrollbackRender v) false := by
  by_cases live : v.viewOffset = 0
  · exact (onScreen.render_live live).leaves
  · obtain ⟨after, off⟩ := onScreen.render_stored live
    exact ⟨after, .inr off, fun no => absurd no (by decide), fun _ live' => absurd live' live⟩

/-- Without stored lines, or by no line, nothing is looked at. -/
theorem Vga.OnScreen.up (onScreen : v.OnScreen) (lines : Int) :
    v.Leaves (vgaScrollbackUp v lines) (ScreenCall.looksBack v (.scrollbackUp lines)) := by
  obtain ⟨low, -⟩ := onScreen.totalLines
  unfold vgaScrollbackUp ScreenCall.looksBack
  by_cases none_ : v.totalLines = 0
  · rw [if_pos none_, none_]
    exact onScreen.stays.leaves
  rw [if_neg none_]
  dsimp only
  generalize is : (if v.viewOffset = 0 then
    { v with saved := copyScreen v.saved v.buffer, screenSaved := true } else v) = u
  have same : u.OnScreen ∧ u.crtc = v.crtc ∧ u.viewOffset = v.viewOffset ∧
      u.totalLines = v.totalLines := by
    rw [← is]
    split
    · exact ⟨⟨onScreen.row, onScreen.column, onScreen.totalLines⟩, rfl, rfl, rfl⟩
    · exact ⟨onScreen, rfl, rfl, rfl⟩
  obtain ⟨onScreen_u, crtc, offset, total⟩ := same
  rw [offset, ← total]
  rw [← total] at low none_
  by_cases still : int32 (v.viewOffset + lines) = 0
  · -- the view is where the live screen is
    rw [still, if_neg (by omega), bne_self_eq_false, Bool.and_false]
    have after : Vga.OnScreen { u with viewOffset := 0 } :=
      ⟨onScreen_u.row, onScreen_u.column, onScreen_u.totalLines⟩
    have stays := after.render_live rfl
    exact Vga.Stays.leaves
      ⟨stays.onScreen, stays.start.trans (congrFun crtc 0x0A), fun _ => stays.live rfl⟩
  · have after : Vga.OnScreen { u with
        viewOffset := if u.totalLines < int32 (v.viewOffset + lines) then u.totalLines
          else int32 (v.viewOffset + lines) } :=
      ⟨onScreen_u.row, onScreen_u.column, onScreen_u.totalLines⟩
    have looks : (u.totalLines != 0 && int32 (v.viewOffset + lines) != 0) = true := by
      simp [none_, still]
    obtain ⟨onScreen', off⟩ := after.render_stored (by dsimp only; split <;> assumption)
    rw [looks]
    exact ⟨onScreen', .inr off, fun _ => off, fun no => absurd no (by decide)⟩

theorem Vga.OnScreen.down (onScreen : v.OnScreen) (lines : Int) :
    v.Leaves (vgaScrollbackDown v lines) false := by
  unfold vgaScrollbackDown
  by_cases live : v.viewOffset = 0
  · rw [if_pos live]
    exact onScreen.stays.leaves
  rw [if_neg live]
  dsimp only
  generalize (if int32 (v.viewOffset - lines) < 0 then 0 else int32 (v.viewOffset - lines)) = offset
  have moved : Vga.OnScreen { v with viewOffset := offset } :=
    ⟨onScreen.row, onScreen.column, onScreen.totalLines⟩
  by_cases back : offset = 0
  · rw [if_pos back]
    unfold Vga.restore
    split
    · exact ⟨⟨onScreen.row, onScreen.column, onScreen.totalLines⟩, .inl rfl,
        fun no => absurd no (by decide), fun _ live' => absurd live' live⟩
    · exact ⟨⟨onScreen.row, onScreen.column, onScreen.totalLines⟩, .inl rfl,
        fun no => absurd no (by decide), fun _ live' => absurd live' live⟩
  · rw [if_neg back]
    obtain ⟨after, off⟩ := moved.render_stored back
    exact ⟨after, .inr off, fun no => absurd no (by decide), fun _ live' => absurd live' live⟩

/-- Every call. -/
theorem Vga.OnScreen.call (onScreen : v.OnScreen) {call : ScreenCall}
    (is : call.run v = some w) : v.Leaves w (call.looksBack v) := by
  cases call with
  | putcharRaw c => exact (onScreen.putcharRaw is).leaves
  | putchar c =>
      obtain ⟨u, put, rfl⟩ := Option.map_eq_some_iff.mp is
      have stays := onScreen.putcharRaw put
      exact (stays.trans stays.onScreen.updateCursor).leaves
  | write str =>
      obtain ⟨u, put, rfl⟩ := Option.map_eq_some_iff.mp is
      have stays := onScreen.writes put
      exact (stays.trans stays.onScreen.updateCursor).leaves
  | clear =>
      cases is
      exact (clear_stays v).leaves
  | setColor fg bg =>
      cases is
      exact Vga.Stays.leaves ⟨⟨onScreen.row, onScreen.column, onScreen.totalLines⟩, rfl, id⟩
  | flush =>
      cases is
      exact onScreen.updateCursor.leaves
  | scrollbackUp lines =>
      cases is
      exact onScreen.up lines
  | scrollbackDown lines =>
      cases is
      exact onScreen.down lines
  | scrollbackReset =>
      cases is
      exact onScreen.reset.leaves
  | scrollbackRender =>
      cases is
      exact onScreen.render

end Stays

/-! ## Runs -/

/-- What holds in every state of a run, and after a `vga_flush`. -/
structure ScreenRun.Tracked (r : ScreenRun) : Prop where
  onScreen : ∀ v ∈ r.vga, v.OnScreen
  looked : r.looked = true → ∀ v ∈ r.vga, v.crtc 0x0A = 0x20
  live : r.looked = false → ∀ v ∈ r.vga, v.cursorOn = true ∧ v.viewOffset = 0
  placed : r.flushed = true → ∀ v ∈ r.vga, v.cursorPlace = v.row * vgaWidth + v.column

theorem ScreenRun.Tracked.step {r : ScreenRun} (tracked : r.Tracked) (call : ScreenCall) :
    (r.step call).Tracked := by
  cases at_ : r.vga with
  | none =>
      have failed : (r.step call).vga = none := by rw [ScreenRun.step, at_]; rfl
      constructor <;> simp [failed]
  | some v =>
      have onScreen := tracked.onScreen v at_
      have next : (r.step call).vga = call.run v := by rw [ScreenRun.step, at_]; rfl
      have looks : (r.step call).looked = (r.looked || call.looksBack v) := by
        rw [ScreenRun.step, at_]
        rfl
      refine ⟨fun w is => ?_, fun looked w is => ?_, fun looked w is => ?_, fun flushed w is => ?_⟩
      · rw [next] at is
        exact (onScreen.call is).onScreen
      · rw [next] at is
        rw [looks] at looked
        have leaves := onScreen.call is
        by_cases now : call.looksBack v = true
        · exact leaves.looked now
        · rw [Bool.eq_false_iff.mpr now, Bool.or_false] at looked
          rcases leaves.start with same | off
          · rw [same]
            exact tracked.looked looked v at_
          · exact off
      · rw [next] at is
        rw [looks, Bool.or_eq_false_iff] at looked
        obtain ⟨on, live⟩ := tracked.live looked.1 v at_
        have stays := (onScreen.call is).stays looked.2 live
        refine ⟨?_, stays.live live⟩
        rw [Vga.cursorOn, stays.start]
        exact on
      · have isFlush : call.isFlush = true := flushed
        rw [next] at is
        cases call with
        | flush =>
            cases is
            exact onScreen.place
        | _ => cases isFlush

theorem ScreenRun.Tracked.start {before : Vga} (on : before.cursorOn = true) :
    (ScreenRun.start before).Tracked where
  onScreen v is := by
    cases is
    exact (clear_stays _).onScreen
  looked no := by cases no
  live _ v is := by
    cases is
    exact ⟨on, rfl⟩
  placed no := by cases no

/-- A call under the condition leaves the cursor right. -/
theorem ScreenRun.Tracked.right {r : ScreenRun} (tracked : r.Tracked) {call : ScreenCall}
    (before : r.FlushedBeforeLook call) : (r.step call).CursorRight := by
  have after := tracked.step call
  intro w is
  refine ⟨fun flushed live => ⟨?_, after.placed flushed w is⟩, fun scrolled => ?_⟩
  · obtain ⟨v, at_, ran⟩ := Option.bind_eq_some_iff.mp is
    have isFlush : call.isFlush = true := flushed
    cases call with
    | flush =>
        cases ran
        have unlooked : r.looked = false :=
          Bool.eq_false_iff.mpr fun looked => before v at_ rfl looked live
        rw [← (tracked.live unlooked v at_).1]
        rfl
    | _ => cases isFlush
  · have looked : (r.step call).looked = true := by
      apply Bool.eq_true_of_not_eq_false
      intro unlooked
      exact scrolled (after.live unlooked w is).2
    rw [Vga.cursorOn, after.looked looked w is]
    rfl

/-- A `vga_flush` for the live screen leaves the cursor off once somebody has looked back. -/
theorem ScreenRun.Tracked.wrong {r : ScreenRun} (tracked : r.Tracked) {call : ScreenCall}
    (late : ¬ r.FlushedBeforeLook call) : ¬ (r.step call).CursorRight := by
  unfold ScreenRun.FlushedBeforeLook at late
  simp only [not_forall, not_not] at late
  obtain ⟨v, at_, isFlush, looked, live⟩ := late
  cases call with
  | flush =>
      intro right
      have ran : (r.step .flush).vga = some (vgaUpdateCursor v) := by
        rw [ScreenRun.step, at_]
        rfl
      obtain ⟨on, -⟩ := (right _ ran).1 rfl live
      have off : (vgaUpdateCursor v).crtc 0x0A = 0x20 := tracked.looked looked v at_
      rw [Vga.cursorOn, off] at on
      cases on
  | _ => cases isFlush

/-- Along a run of any calls after `vga_init` the cursor is right exactly if `vga_flush` is not
called for the live screen once somebody has looked back. -/
theorem cursor_right_iff (before : Vga) (on : before.cursorOn = true) (calls : List ScreenCall) :
    Always ScreenRun.step ScreenRun.CursorRight (.start before) calls ↔
      EachStep ScreenRun.step ScreenRun.FlushedBeforeLook (.start before) calls := by
  have holds : ∀ r : ScreenRun, r.Tracked ∧ r.CursorRight → r.CursorRight := fun r both => both.2
  have kept : ∀ (r : ScreenRun) (call : ScreenCall), r.Tracked ∧ r.CursorRight →
      r.FlushedBeforeLook call → (r.step call).Tracked ∧ (r.step call).CursorRight :=
    fun r call both before => ⟨both.1.step call, both.1.right before⟩
  have broken : ∀ (r : ScreenRun) (call : ScreenCall), r.Tracked ∧ r.CursorRight →
      ¬ r.FlushedBeforeLook call → ¬ (r.step call).CursorRight :=
    fun r call both late => both.1.wrong late
  have start : (ScreenRun.start before).CursorRight := by
    intro v is
    cases is
    exact ⟨fun flushed => (by cases flushed), fun scrolled => absurd rfl scrolled⟩
  exact always_iff_eachStep holds kept broken ⟨.start on, start⟩

/-- One line scrolls off; somebody looks at it and comes back, and the screen is flushed. -/
def lookedThenFlushed : List ScreenCall :=
  List.replicate 25 (.putcharRaw 0x0A) ++ [.scrollbackUp 5, .scrollbackReset, .flush]

theorem lookedThenFlushed_right_iff :
    Always ScreenRun.step ScreenRun.CursorRight (.start .zero) lookedThenFlushed ↔
      EachStep ScreenRun.step ScreenRun.FlushedBeforeLook (.start .zero) lookedThenFlushed :=
  cursor_right_iff .zero rfl lookedThenFlushed

/-- The cursor is off where it should be on. -/
theorem cursor_stays_off :
    ¬ ∀ (before : Vga) (calls : List ScreenCall), before.cursorOn = true →
      Always ScreenRun.step ScreenRun.CursorRight (.start before) calls := by
  intro all
  have right := (all .zero lookedThenFlushed rfl).last
  have ends : (lookedThenFlushed.foldl ScreenRun.step (.start .zero)).vga.map
      (fun v => (v.viewOffset, v.cursorOn)) = some (0, false) := by decide +kernel
  have flushed : (lookedThenFlushed.foldl ScreenRun.step (.start .zero)).flushed = true := by
    decide +kernel
  obtain ⟨v, is, shown⟩ := Option.map_eq_some_iff.mp ends
  obtain ⟨live, off⟩ := Prod.mk.inj shown
  obtain ⟨on, -⟩ := (right v is).1 flushed live
  rw [off] at on
  cases on

end XosKernel.Display
