/-
# Shell.Safety -- every access of `sh_readline` is inside its array

The loops of `sh_readline` copy strings between `buf`, `temp` and the rows of `history` up to the
NUL, without a bound.  They are safe because of what all keys keep: the line, the kept text and
every counted row hold a string of less than `SHELL_BUF_SIZE` characters (`Session.Sound`).  This
is so in every state of a session, also when the rows have been overwritten (`readline_safe`).
-/
import XosKernel.Shell.History

namespace XosKernel.Shell

open XosKernel.Lib XosKernel.Theory

set_option autoImplicit false

/-- No access was outside; the indices are in range, the rows are terminated, and whatever key
ends the line returns a terminated one. -/
def Session.Safe (s : Option Session) : Prop :=
  ∃ t, s = some t ∧ t.line.pos ≤ shellBufSize - 1 ∧ t.line.browsePos ≤ t.history.count ∧
    t.history.count ≤ historySize ∧
    (∀ i, i < t.history.count → ∃ text, cString (t.history.rows i) = some text) ∧
    (∃ text, cString t.line.temp = some text) ∧
    ∀ c h buf pos acts, readKey t.history t.line c = some (.done h buf pos, acts) →
      ∃ text, cString buf = some text ∧ text.length = pos

/-- The rows hold some lines, and the variables the state of some editor. -/
def Session.Sound (s : Session) : Prop :=
  ∃ lines e, s.history.Holds lines ∧ s.line.Shows e ∧ e.Within lines

section Sound

variable {s : Session}

/-- The line that is returned is terminated. -/
theorem Line.Shows.returned {l : Line} {e : Editor} (shows : l.Shows e) :
    cString (Function.update l.buf l.pos 0) = some e.text := by
  rw [cString_eq_some, ← shows.pos_eq, Function.update_self]
  exact ⟨l.text_terminated.trans shows.text, rfl, shows.fits⟩

/-- Only Enter ends the line, and what it returns is in `buf`. -/
theorem readKey_done {h h' : History} {l : Line} {c : UInt8} {buf : Buf} {pos : Nat}
    {acts : List TermAct} (is : readKey h l c = some (.done h' buf pos, acts)) :
    buf = Function.update l.buf l.pos 0 ∧ pos = l.pos := by
  unfold readKey readlineKey at is
  split at is
  · cases is
  split at is
  · cases is
  split at is
  · obtain ⟨moved, -, wrong⟩ := Option.bind_eq_some_iff.mp is
    cases wrong
  split at is
  · obtain ⟨moved, -, wrong⟩ := Option.bind_eq_some_iff.mp is
    cases wrong
  split at is
  · split at is
    · obtain ⟨added, -, returned⟩ := Option.bind_eq_some_iff.mp is
      cases returned
      exact ⟨rfl, rfl⟩
    · cases is
  · -- the other keys go on
    split at is
    · next erases =>
        have neither : c ≠ 3 ∧ c ≠ 24 := by
          rcases erases.1 with rfl | rfl <;> decide
        rw [controlKey, if_neg neither.1, if_neg neither.2] at is
        cases is
    split at is
    · cases is
    split at is
    · cases is
    · cases is

theorem Session.Sound.safe (sound : s.Sound) : Session.Safe (some s) := by
  obtain ⟨lines, e, holds, shows, within⟩ := sound
  have short := shows.fits.short
  have bound := holds.bound
  refine ⟨s, rfl, ?_, ?_, ?_, ?_, ⟨_, shows.saved⟩, ?_⟩
  · rw [shows.pos_eq]
    omega
  · rw [shows.browse, holds.count]
    exact within
  · rw [holds.count]
    exact bound
  · intro i low
    rw [holds.count] at low
    exact ⟨_, holds.rows i low⟩
  · intro c h buf pos acts is
    obtain ⟨rfl, rfl⟩ := readKey_done is
    exact ⟨e.text, shows.returned, shows.pos_eq.symm⟩

/-- Whatever line is entered, the rows hold lines again. -/
theorem History.Holds.entered {h : History} {lines : List (List UInt8)} (holds : h.Holds lines)
    {buf : Buf} {text : List UInt8} {n : Nat} (is : buf.toList 0 n = text) (fits : Fits text) :
    ∃ h' lines', h.add buf n = some h' ∧ h'.Holds lines' := by
  by_cases again : text = [] ∨ lines.getLast? = some text
  · exact ⟨h, lines, holds.add_again is fits again, holds⟩
  · refine ⟨h.stored buf n, ?_⟩
    have bound := holds.bound
    by_cases room : lines.length < historySize
    · exact ⟨_, holds.add_new is fits again, holds.append is fits room⟩
    · exact ⟨_, holds.add_new is fits again, holds.overwrite is fits (by omega)⟩

/-- Every key. -/
theorem Session.Sound.key (sound : s.Sound) (leave : Buf → Buf) (c : UInt8) :
    ∃ s', s.key leave c = some s' ∧ s'.Sound := by
  obtain ⟨lines, e, holds, shows, within⟩ := sound
  by_cases ends : c = 0x0A ∨ c = 0x0D
  · obtain ⟨buf, is, entered⟩ := readKey_enter (h := s.history) shows ends
    obtain ⟨h', lines', added, holds'⟩ := holds.entered is shows.fits
    rw [added, Option.map_some] at entered
    refine ⟨⟨h', .start h' (leave buf), remember s.lines (buf.toList 0 s.line.pos)⟩, ?_,
      lines', .start lines', holds', .start h' _ holds', Nat.le_refl _⟩
    rw [Session.key, entered]
    rfl
  · obtain ⟨l, acts, is, shows', -⟩ := readKey_refines holds shows within (not_or.mp ends)
    refine ⟨{ s with line := l }, ?_, lines, e.key lines c, holds, shows',
      Editor.within_key within c⟩
    rw [Session.key, is]
    rfl

end Sound

/-- Through any number of calls and any keys, no access is outside its array. -/
theorem readline_safe (leave : Buf → Buf) (buf : Buf) (keys : List UInt8) :
    Always (Session.step leave) Session.Safe (some (.start buf)) keys := by
  have kept : ∀ (s : Option Session) (c : UInt8), (∃ t, s = some t ∧ t.Sound) →
      ∃ t, Session.step leave s c = some t ∧ t.Sound := by
    rintro _ c ⟨t, rfl, sound⟩
    exact sound.key leave c
  have start : (Session.start buf).Sound :=
    ⟨[], .start [], .empty, .start _ buf .empty, Nat.le_refl _⟩
  refine (always_of_kept kept ⟨_, rfl, start⟩ keys).mono ?_
  rintro _ ⟨t, rfl, sound⟩
  exact sound.safe

end XosKernel.Shell
