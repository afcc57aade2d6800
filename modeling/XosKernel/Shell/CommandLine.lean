/-
# Shell.CommandLine -- every command line is cut into words and handled

For every line that fits the buffer `argv` holds its first 16 words (`shParse_words`), and the
handlers read no other element of `argv` and store nothing outside their local arrays, with two
exceptions.  `cmd_ping` takes the host from `argv[3]` when it has seen `-c` in an `argv` of three
elements, and `cmd_exec` copies its argument into 64 characters whatever its length.  A line is
handled without either exactly if it is not one of these commands (`handled_iff`).
-/
import XosKernel.Shell.Commands
import XosKernel.Theory.PathText

namespace XosKernel.Shell

open XosKernel.Lib XosKernel.Net XosKernel.Theory

set_option autoImplicit false

/-- The words of a line. -/
def words (text : Text) : List Text := components 0x20 text

/-! ## Cutting the line -/

section Words

theorem stringFrom_succ (a : Buf) (room i : Nat) : stringFrom a (room + 1) i =
    if a i = 0 then some [] else (stringFrom a room (i + 1)).map (a i :: ·) := rfl

/-- A string depends on what is behind its start only. -/
theorem stringFrom_congr {a b : Buf} {room i : Nat} (same : ∀ k, i ≤ k → a k = b k) :
    stringFrom a room i = stringFrom b room i := by
  induction room generalizing i with
  | zero => rfl
  | succ room ih =>
      rw [stringFrom_succ, stringFrom_succ, same i (Nat.le_refl i),
        ih fun k behind => same k (by omega)]

/-- A NUL in reach ends a string. -/
theorem stringFrom_isSome {a : Buf} {room i k : Nat} (low : i ≤ k) (high : k < i + room)
    (ended : a k = 0) : (stringFrom a room i).isSome = true := by
  induction room generalizing i with
  | zero => omega
  | succ room ih =>
      rw [stringFrom_succ]
      by_cases here : a i = 0
      · rw [if_pos here]
        rfl
      · rw [if_neg here, Option.isSome_map]
        refine ih ?_ (by omega)
        by_contra before
        obtain rfl : i = k := by omega
        exact here ended

/-- At a NUL the string is empty. -/
theorem stringFrom_of_zero {a : Buf} {room i : Nat} {text : Text}
    (holds : stringFrom a room i = some text) (ended : a i = 0) : text = [] := by
  cases room with
  | zero => cases holds
  | succ room =>
      rw [stringFrom_succ, if_pos ended] at holds
      cases holds
      rfl

theorem zero_of_stringFrom {a : Buf} {room i : Nat} (holds : stringFrom a room i = some []) :
    a i = 0 := by
  cases room with
  | zero => cases holds
  | succ room =>
      rw [stringFrom_succ] at holds
      split at holds
      · next ended => exact ended
      · obtain ⟨tail, -, wrong⟩ := Option.map_eq_some_iff.mp holds
        cases wrong

theorem stringFrom_cons {a : Buf} {room i : Nat} {c : UInt8} {text : Text}
    (holds : stringFrom a room i = some (c :: text)) :
    a i = c ∧ stringFrom a (room - 1) (i + 1) = some text := by
  cases room with
  | zero => cases holds
  | succ room =>
      rw [stringFrom_succ] at holds
      split at holds
      · cases holds
      · obtain ⟨tail, behind, same⟩ := Option.map_eq_some_iff.mp holds
        obtain ⟨rfl, rfl⟩ := List.cons.inj same
        exact ⟨rfl, behind⟩

/-- Spaces before a word do not count. -/
theorem skipSpaces_words {line : Buf} {room p : Nat} {rest : Text}
    (holds : stringFrom line room p = some rest) :
    ∃ k rest', skipSpaces line room p = some (p + k) ∧
      stringFrom line (room - k) (p + k) = some rest' ∧ words rest' = words rest ∧
      rest'.head? ≠ some 0x20 := by
  induction room generalizing p rest with
  | zero => cases holds
  | succ room ih =>
      by_cases space : line p = 0x20
      · have more : line p ≠ 0 := by
          rw [space]
          decide
        rw [stringFrom_succ, if_neg more] at holds
        obtain ⟨tail, behind, rfl⟩ := Option.map_eq_some_iff.mp holds
        obtain ⟨k, rest', is, holds', same, first⟩ := ih behind
        refine ⟨k + 1, rest', ?_, ?_, ?_, first⟩
        · rw [skipSpaces, if_pos space, is]
          exact congrArg some (by omega)
        · rw [show room + 1 - (k + 1) = room - k by omega, show p + (k + 1) = p + 1 + k by omega]
          exact holds'
        · rw [same, words, words, space, components_sep_cons]
      · refine ⟨0, rest, by rw [skipSpaces, if_neg space]; rfl, holds, rfl, ?_⟩
        rw [stringFrom_succ] at holds
        split at holds
        · cases holds
          exact fun wrong => by cases wrong
        · obtain ⟨tail, -, rfl⟩ := Option.map_eq_some_iff.mp holds
          rw [List.head?_cons, ne_eq, Option.some.injEq]
          exact space

/-- A word ends at a space or at the end, and with a NUL there it is a string. -/
theorem skipWord_word {line : Buf} {room p : Nat} {rest : Text}
    (holds : stringFrom line room p = some rest) :
    ∃ word rest', rest = word ++ rest' ∧ 0x20 ∉ word ∧
      (rest' = [] ∨ ∃ after, rest' = 0x20 :: after) ∧
      skipWord line room p = some (p + word.length) ∧
      stringFrom line (room - word.length) (p + word.length) = some rest' ∧
      ∀ line' : Buf, (∀ i, i < p + word.length → line' i = line i) →
        line' (p + word.length) = 0 → stringFrom line' room p = some word := by
  induction room generalizing p rest with
  | zero => cases holds
  | succ room ih =>
      have all := holds
      rw [stringFrom_succ] at holds
      by_cases inside : line p ≠ 0 ∧ line p ≠ 0x20
      · rw [if_neg inside.1] at holds
        obtain ⟨tail, behind, rfl⟩ := Option.map_eq_some_iff.mp holds
        obtain ⟨word, rest', rfl, free, ends, is, holds', string⟩ := ih behind
        have length : p + (line p :: word).length = p + 1 + word.length := by
          rw [List.length_cons]
          omega
        refine ⟨line p :: word, rest', rfl, ?_, ends, ?_, ?_, ?_⟩
        · rw [List.mem_cons, not_or]
          exact ⟨Ne.symm inside.2, free⟩
        · rw [skipWord, if_pos inside, is, length]
        · rw [length, List.length_cons, show room + 1 - (word.length + 1) = room - word.length by
            omega]
          exact holds'
        · rw [length]
          intro line' same ended
          rw [stringFrom_succ, same p (by omega), if_neg inside.1, string line' same ended]
          rfl
      · refine ⟨[], rest, rfl, List.not_mem_nil, ?_, ?_, all, ?_⟩
        · by_cases ended : line p = 0
          · rw [if_pos ended] at holds
            cases holds
            exact .inl rfl
          · rw [if_neg ended] at holds
            obtain ⟨tail, -, rfl⟩ := Option.map_eq_some_iff.mp holds
            have space : line p = 0x20 := by
              by_contra other
              exact inside ⟨ended, other⟩
            exact .inr ⟨tail, by rw [space]⟩
        · rw [skipWord, if_neg inside]
          rfl
        · intro line' _ ended
          rw [stringFrom_succ]
          exact if_pos ended

theorem parseWords_ended (slots : Nat) {line : Buf} {p : Nat} (ended : line p = 0) :
    parseWords slots line p = some (line, []) := by
  cases slots with
  | zero => rfl
  | succ slots => rw [parseWords, if_neg (not_not.mpr ended)]

/-- The loop over the words leaves what is before them. -/
theorem parseWords_words (slots : Nat) {line : Buf} {p : Nat} {rest : Text}
    (holds : stringFrom line (shellBufSize - p) p = some rest) :
    ∃ line' argv, parseWords slots line p = some (line', argv) ∧
      (∀ i, i < p → line' i = line i) ∧
      argv.mapM (wordAt line') = some ((words rest).take slots) := by
  induction slots generalizing line p rest with
  | zero => exact ⟨line, [], rfl, fun _ _ => rfl, by rw [List.take_zero]; rfl⟩
  | succ slots ih =>
      by_cases ended : line p = 0
      · refine ⟨line, [], parseWords_ended _ ended, fun _ _ => rfl, ?_⟩
        rw [stringFrom_of_zero holds ended]
        rfl
      obtain ⟨k, rest₁, skipped, holds₁, same, first⟩ := skipSpaces_words holds
      rw [Nat.sub_sub] at holds₁
      rw [parseWords, if_pos ended, skipped, ← same]
      simp only [Option.bind_eq_bind, Option.bind_some]
      by_cases last : line (p + k) = 0
      · -- only spaces
        rw [if_pos last, stringFrom_of_zero holds₁ last]
        exact ⟨line, [], rfl, fun _ _ => rfl, rfl⟩
      obtain ⟨word, rest₂, rfl, free, ends, stopped, holds₂, string⟩ := skipWord_word holds₁
      have some_ : word ≠ [] := by
        rintro rfl
        rcases ends with rfl | ⟨after, rfl⟩
        · exact last (zero_of_stringFrom holds₁)
        · exact first rfl
      rw [if_neg last, stopped]
      simp only [Option.bind_some]
      rcases ends with rfl | ⟨after, rfl⟩
      · -- the last word ends with the line
        have behind : line (p + k + word.length) = 0 := zero_of_stringFrom holds₂
        rw [behind, if_neg (by decide)]
        simp only [parseWords_ended slots behind, Option.bind_some]
        refine ⟨line, [p + k], rfl, fun _ _ => rfl, ?_⟩
        rw [List.append_nil, words, components_name free some_, List.take_succ_cons, List.take_nil]
        have at_ : wordAt line (p + k) = some word := string line (fun _ _ => rfl) behind
        rw [List.mapM_cons, at_]
        rfl
      · -- a space is behind the word
        have next := holds₂
        rw [Nat.sub_sub] at next
        obtain ⟨space, holds₃⟩ := stringFrom_cons next
        rw [space, if_pos rfl]
        dsimp only
        have updated : stringFrom (Function.update line (p + k + word.length) 0)
            (shellBufSize - (p + k + word.length + 1)) (p + k + word.length + 1) = some after := by
          rw [← Nat.sub_sub, ← holds₃]
          apply stringFrom_congr
          intro i behind
          rw [Function.update_of_ne (by omega)]
        obtain ⟨line', argv, parsed, kept, strings⟩ := ih updated
        rw [parsed]
        refine ⟨line', (p + k) :: argv, rfl, fun i before => ?_, ?_⟩
        · rw [kept i (by omega), Function.update_of_ne (by omega)]
        · have at_ : wordAt line' (p + k) = some word := by
            refine string line' (fun i before => ?_) ?_
            · rw [kept i (by omega), Function.update_of_ne (by omega)]
            · rw [kept _ (by omega), Function.update_self]
          have first_ : words (word ++ 0x20 :: after) = word :: words after := by
            rw [words, components_append_sep, components_name free some_]
            rfl
          rw [first_, List.take_succ_cons, List.mapM_cons, at_, strings]
          rfl

/-- For every line that fits the buffer, `argv` holds the first words. -/
theorem shParse_words {line : Buf} {text : Text} (holds : cString line = some text) :
    ∃ line' argv, shParse line = some (line', argv) ∧
      argv.mapM (wordAt line') = some ((words text).take maxArgs) := by
  obtain ⟨k, rest, skipped, holds', same, -⟩ := skipSpaces_words holds
  rw [shParse, skipped, ← same]
  simp only [Option.bind_eq_bind, Option.bind_some]
  by_cases ended : line (0 + k) = 0
  · rw [if_pos ended, stringFrom_of_zero holds' ended]
    exact ⟨line, [], rfl, rfl⟩
  · rw [if_neg ended]
    have start : stringFrom line (shellBufSize - (0 + k)) (0 + k) = some rest := by
      rw [Nat.zero_add] at holds' ⊢
      exact holds'
    obtain ⟨line', argv, parsed, -, strings⟩ := parseWords_words maxArgs start
    exact ⟨line', argv, parsed, strings⟩

end Words

/-! ## Local arrays -/

section Stores

/-- A string and its NUL have to fit. -/
theorem shStrcpy_some {size : Nat} (dst : Buf) {i : Nat} {src : Text}
    (room : i + src.length < size) :
    ∃ dst', shStrcpy size dst i src = some dst' ∧ dst' (i + src.length) = 0 := by
  induction src generalizing dst i with
  | nil => exact ⟨_, if_pos room, Function.update_self ..⟩
  | cons c rest ih =>
      rw [List.length_cons] at room ⊢
      obtain ⟨dst', copied, ended⟩ :=
        ih (i := i + 1) (Function.update dst i c) (by omega)
      refine ⟨dst', ?_, by rw [← ended]; congr 1; omega⟩
      rw [shStrcpy, storeAt, if_pos (by omega)]
      exact copied

theorem shStrcpy_none {size : Nat} {dst : Buf} {i : Nat} {src : Text}
    (long : size ≤ i + src.length) : shStrcpy size dst i src = none := by
  induction src generalizing dst i with
  | nil => exact if_neg (Nat.not_lt.mpr long)
  | cons c rest ih =>
      rw [List.length_cons] at long
      rw [shStrcpy]
      by_cases inside : i < size
      · rw [storeAt, if_pos inside]
        exact ih (by omega)
      · rw [storeAt, if_neg inside]
        rfl

/-- With its NUL inside the array a copy is a string there. -/
theorem copied_isSome_iff (size : Nat) (dst : Buf) (i : Nat) (src : Text) :
    ((shStrcpy size dst i src).bind fun dst' => stringFrom dst' size 0).isSome = true ↔
      ¬ size ≤ i + src.length := by
  by_cases long : size ≤ i + src.length
  · rw [shStrcpy_none long]
    exact iff_of_false Bool.false_ne_true (not_not.mpr long)
  · obtain ⟨dst', copied, ended⟩ := shStrcpy_some dst (Nat.not_le.mp long)
    rw [copied]
    exact iff_of_true (stringFrom_isSome (Nat.zero_le _) (by omega) ended) long

/-- A NUL that is stored inside the array ends a string. -/
theorem storeAt_string {size : Nat} (a : Buf) {i : Nat} (inside : i < size) :
    ∃ a' text, storeAt size a i 0 = some a' ∧ stringFrom a' size 0 = some text := by
  have holds : (stringFrom (Function.update a i 0) size 0).isSome = true :=
    stringFrom_isSome (Nat.zero_le i) (by omega) (Function.update_self i 0 a)
  obtain ⟨text, string⟩ := Option.isSome_iff_exists.mp holds
  exact ⟨_, text, if_pos inside, string⟩

/-- The argument of `exec` does not fit `path`, with the slash that it may need. -/
def PathTooLong (filename : Text) : Prop :=
  if filename.head? = some 0x2F then execPathSize ≤ filename.length
  else execPathSize ≤ filename.length + 1

instance (filename : Text) : Decidable (PathTooLong filename) := by
  unfold PathTooLong
  infer_instance

theorem execPath_isSome_iff (filename : Text) :
    (execPath filename).isSome = true ↔ ¬ PathTooLong filename := by
  unfold execPath PathTooLong
  by_cases absolute : filename.head? = some 0x2F
  · simp only [if_pos absolute]
    rw [← Nat.zero_add filename.length]
    exact copied_isSome_iff execPathSize (fun _ => 0) 0 filename
  · simp only [if_neg absolute]
    rw [storeAt, if_pos (by decide), Nat.add_comm]
    exact copied_isSome_iff execPathSize (Function.update (fun _ => 0) 0 0x2F) 1 filename

/-- `parse_ip4` stores nothing outside the four octets, whatever the argument. -/
theorem parseIp4Into_eq (s : Text) (octets : Buf) :
    parseIp4Into s octets = some (parseIp4 s octets) := by
  have loop : ∀ (s : Text) (i num : Nat) (octets : Buf),
      parseIp4Stores s i num octets = some (parseIp4Loop s i num octets) := by
    intro s
    induction s with
    | nil => intro i num octets; rfl
    | cons c rest ih =>
        intro i num octets
        rw [parseIp4Stores, parseIp4Loop]
        by_cases inside : i < 4
        · rw [if_pos inside, if_pos inside]
          split
          · dsimp only
            split
            · rfl
            · exact ih _ _ _
          split
          · rw [storeAt, if_pos inside]
            exact ih _ _ _
          · rfl
        · rw [if_neg inside, if_neg inside]
  rw [parseIp4Into, loop, parseIp4]
  cases parseIp4Loop s 0 0 octets with
  | none => rfl
  | some r =>
      obtain ⟨i, num, after⟩ := r
      by_cases ended : i = 3
      · by_cases small : num ≤ 255
        · simp [ended, small, storeAt]
        · simp [ended, small, storeAt]
      · simp [ended]

/-- There is room for all that is copied, and for the NUL. -/
theorem echoWord_some (arg : Text) (text : Buf) {pos : Nat} (room : pos < echoTextSize) :
    ∃ text' pos', echoWord text pos arg = some (text', pos') ∧ pos' < echoTextSize := by
  induction arg generalizing text pos with
  | nil => exact ⟨text, pos, rfl, room⟩
  | cons c rest ih =>
      rw [echoWord]
      split
      · rw [storeAt, if_pos room]
        exact ih _ (by omega)
      · exact ⟨text, pos, rfl, room⟩

theorem echoLoop_some {argv : List Text} {redirect : Nat} (inside : redirect ≤ argv.length)
    (left : Nat) (few : left ≤ redirect) (text : Buf) {pos : Nat} (room : pos < echoTextSize) :
    ∃ text' pos', echoLoop argv redirect left text pos = some (text', pos') ∧
      pos' < echoTextSize := by
  induction left generalizing text pos with
  | zero => exact ⟨text, pos, rfl, room⟩
  | succ left ih =>
      obtain ⟨text₁, pos₁, copied, room₁⟩ :=
        echoWord_some argv[redirect - (left + 1)] text room
      rw [echoLoop, List.getElem?_eq_getElem (by omega)]
      simp only [Option.bind_eq_bind, Option.bind_some, copied]
      split
      · rw [storeAt, if_pos room₁]
        exact ih (by omega) _ (by omega)
      · exact ih (by omega) _ room₁

end Stores

/-! ## Handlers -/

section Handlers

variable (outside : Outside) {argv : List Text}

theorem argOrEmpty_eq (argv : List Text) : argOrEmpty argv = some (argv.getD 1 []) := by
  unfold argOrEmpty
  by_cases given : 1 < argv.length
  · rw [if_pos given, List.getD_eq_getElem?_getD, List.getElem?_eq_getElem given]
    rfl
  · rw [if_neg given, List.getD_eq_getElem?_getD, List.getElem?_eq_none (by omega)]
    rfl

/-- Every chunk that is read leaves room for the NUL. -/
theorem catLoop_isSome (chunks : List CatChunk) (buf : Buf) :
    (catLoop chunks buf).isSome = true := by
  induction chunks generalizing buf with
  | nil => rfl
  | cons chunk rest ih =>
      rw [catLoop]
      split
      · rfl
      · have short : chunk.1.length < catBufSize := by
          have bound := chunk.2
          have size : catBufSize = 128 := rfl
          omega
        obtain ⟨buf', text, stored, string⟩ := storeAt_string
          (buf.blit 0 chunk.1.length fun i => chunk.1.getD i 0) short
        obtain ⟨later, read⟩ := Option.isSome_iff_exists.mp (ih buf')
        rw [stored]
        simp only [Option.bind_eq_bind, Option.bind_some, string, read]
        rfl

theorem cmdCat_isSome (filename : Text) : (cmdCat outside filename).isSome = true := by
  unfold cmdCat
  split
  · rfl
  split
  · rfl
  · next chunks _ =>
      obtain ⟨read, is⟩ := Option.isSome_iff_exists.mp (catLoop_isSome chunks fun _ => 0)
      rw [is]
      rfl

theorem cmdLog_isSome (argv : List Text) : (cmdLog outside argv).isSome = true := by
  unfold cmdLog
  split
  · rfl
  · rw [List.getElem?_eq_getElem (by omega)]
    simp only [Option.bind_eq_bind, Option.bind_some]
    split
    · rfl
    split
    · rfl
    split <;> rfl

theorem cmdPromptcolor_isSome (argv : List Text) : (cmdPromptcolor outside argv).isSome = true := by
  unfold cmdPromptcolor
  split
  · rfl
  split
  · rfl
  · rw [List.getElem?_eq_getElem (by omega), List.getElem?_eq_getElem (by omega)]
    simp only [Option.bind_eq_bind, Option.bind_some]
    split <;> rfl

theorem cmdEcho_isSome (argv : List Text) : (cmdEcho outside argv).isSome = true := by
  unfold cmdEcho
  split
  · rfl
  split
  · rfl
  · next redirect found =>
      split
      · rfl
      · next usable =>
          rw [not_or, Nat.not_le] at usable
          have inside : redirect ≤ argv.length := by omega
          obtain ⟨text, pos, copied, room⟩ := echoLoop_some inside (redirect - 1) (by omega)
            (fun _ => 0) (show 0 < echoTextSize by decide)
          obtain ⟨text', content, stored, string⟩ := storeAt_string text room
          rw [copied]
          simp only [Option.bind_eq_bind, Option.bind_some, stored, string,
            List.getElem?_eq_getElem usable.2]
          rfl

theorem cmdExec_isSome_iff (filename : Text) :
    (cmdExec outside filename).isSome = true ↔ ¬ PathTooLong filename := by
  unfold cmdExec
  by_cases none_ : filename = []
  · subst none_
    exact iff_of_true rfl (by decide)
  · rw [← execPath_isSome_iff]
    dsimp only
    rw [if_neg none_]
    cases execPath filename with
    | none => exact Iff.rfl
    | some path =>
        simp only [Option.bind_eq_bind, Option.bind_some]
        refine iff_of_true ?_ rfl
        split
        · rfl
        split <;> rfl

/-- Strings without NUL are compared character by character. -/
theorem shStrcmp_eq_zero_iff {s t : Text} (plain : 0 ∉ s) (plain' : 0 ∉ t) :
    shStrcmp s t = 0 ↔ s = t := by
  have positive : ∀ (c : UInt8) (rest : Text), 0 ∉ c :: rest → 0 < c.toNat := by
    intro c rest free
    rw [List.mem_cons, not_or] at free
    exact Nat.pos_of_ne_zero fun zero => free.1 (UInt8.toNat_inj.mp zero).symm
  induction s generalizing t with
  | nil =>
      cases t with
      | nil => exact iff_of_true rfl rfl
      | cons b t =>
          have above := positive b t plain'
          refine iff_of_false ?_ (List.cons_ne_nil b t).symm
          show -(b.toNat : Int) ≠ 0
          omega
  | cons a s ih =>
      cases t with
      | nil =>
          have above := positive a s plain
          refine iff_of_false ?_ (List.cons_ne_nil a s)
          show (a.toNat : Int) ≠ 0
          omega
      | cons b t =>
          rw [shStrcmp, List.cons.injEq]
          by_cases same : a = b
          · rw [if_pos same, and_iff_right same]
            exact ih (fun member => plain (List.mem_cons_of_mem _ member))
              fun member => plain' (List.mem_cons_of_mem _ member)
          · rw [if_neg same]
            refine iff_of_false ?_ fun both => same both.1
            intro equal
            exact same (UInt8.toNat_inj.mp (by omega))

/-- `-c` and a count, but no host. -/
theorem cmdPing_isSome_iff (net : Station) (passes : Nat) {rest : List Text}
    (plain : ∀ word ∈ rest, 0 ∉ word) :
    (cmdPing net (ascii "ping" :: rest) passes).isSome = true ↔
      ¬ ∃ count, rest = [ascii "-c", count] := by
  have handled : ∀ args, pingArgs (ascii "ping" :: rest) = some args →
      (cmdPing net (ascii "ping" :: rest) passes).isSome = true := by
    intro args is
    unfold cmdPing
    split
    · rfl
    · rw [is]
      dsimp only
      split <;> rfl
  rcases rest with _ | ⟨first, _ | ⟨second, _ | ⟨third, more⟩⟩⟩
  · refine iff_of_true rfl ?_
    rintro ⟨count, wrong⟩
    cases wrong
  · refine iff_of_true (handled (4, first) rfl) ?_
    rintro ⟨count, wrong⟩
    cases wrong
  · have option := shStrcmp_eq_zero_iff (plain first List.mem_cons_self)
      (show 0 ∉ ascii "-c" by decide)
    by_cases counted : first = ascii "-c"
    · -- the host would be behind the last argument
      have unset : pingArgs [ascii "ping", first, second] = none :=
        if_pos ⟨Nat.le_refl 3, option.mpr counted⟩
      have three : ¬ [ascii "ping", first, second].length < 2 :=
        Nat.not_lt.mpr (Nat.le_succ 2)
      refine iff_of_false ?_ fun none_ => none_ ⟨second, by rw [counted]⟩
      unfold cmdPing
      rw [if_neg three, unset]
      exact Bool.false_ne_true
    · have given : pingArgs [ascii "ping", first, second] = some (4, first) :=
        if_neg fun both => counted (option.mp both.2)
      refine iff_of_true (handled _ given) ?_
      rintro ⟨count, wrong⟩
      exact counted (List.cons.inj wrong).1
  · refine iff_of_true ?_ ?_
    · by_cases counted : 3 ≤ (ascii "ping" :: first :: second :: third :: more).length ∧
          shStrcmp first (ascii "-c") = 0
      · exact handled _ (if_pos counted)
      · exact handled _ (if_neg counted)
    · rintro ⟨count, wrong⟩
      cases wrong

end Handlers

/-! ## Command lines -/

/-- `ping -c` with a count and no host, or `exec` with a path that does not fit. -/
def Unhandled (argv : List Text) : Prop :=
  (∃ count, argv = [ascii "ping", ascii "-c", count]) ∨
    ∃ filename rest, argv = ascii "exec" :: filename :: rest ∧ PathTooLong filename

theorem dispatch_exec (outside : Outside) (passes : Nat) (rest : List Text) :
    dispatch outside passes (ascii "exec" :: rest) =
      (argOrEmpty (ascii "exec" :: rest)).bind (cmdExec outside) := rfl

theorem dispatch_ping (outside : Outside) (passes : Nat) (rest : List Text) :
    dispatch outside passes (ascii "ping" :: rest) =
      (cmdPing outside.station (ascii "ping" :: rest) passes).map (·.map .net) := rfl

theorem isSome_ite {α : Type} {p : Prop} [Decidable p] {a b : Option α}
    (left : a.isSome = true) (right : b.isSome = true) : (if p then a else b).isSome = true := by
  split
  · exact left
  · exact right

/-- Every other command is handled whatever its arguments are. -/
theorem dispatch_other (outside : Outside) (passes : Nat) {cmd : Text} {rest : List Text}
    (exec : shStrcmp cmd (ascii "exec") ≠ 0) (ping : shStrcmp cmd (ascii "ping") ≠ 0) :
    (dispatch outside passes (cmd :: rest)).isSome = true := by
  unfold dispatch
  simp only [argOrEmpty_eq, Option.bind_some, Option.map_some, if_neg exec, if_neg ping]
  -- the commands in the order of the source
  exact isSome_ite rfl <| isSome_ite rfl <| isSome_ite rfl <|
    isSome_ite (cmdCat_isSome outside _) <| isSome_ite rfl <| isSome_ite rfl <| isSome_ite rfl <|
    isSome_ite rfl <| isSome_ite rfl <| isSome_ite rfl <| isSome_ite (cmdEcho_isSome outside _) <|
    isSome_ite rfl <| isSome_ite (cmdLog_isSome outside _) <| isSome_ite rfl <| isSome_ite rfl <|
    isSome_ite rfl <| isSome_ite rfl <| isSome_ite (cmdPromptcolor_isSome outside _) <|
    isSome_ite rfl <| isSome_ite rfl <| isSome_ite rfl rfl

theorem dispatch_isSome_iff (outside : Outside) (passes : Nat) {argv : List Text}
    (plain : ∀ word ∈ argv, 0 ∉ word) :
    (dispatch outside passes argv).isSome = true ↔ ¬ Unhandled argv := by
  cases argv with
  | nil =>
      refine iff_of_true rfl ?_
      rintro (⟨count, wrong⟩ | ⟨filename, rest, wrong, -⟩) <;> cases wrong
  | cons cmd rest =>
      have command := plain cmd List.mem_cons_self
      by_cases exec : cmd = ascii "exec"
      · subst exec
        rw [dispatch_exec, argOrEmpty_eq, Option.bind_some, cmdExec_isSome_iff, not_iff_not]
        constructor
        · intro long
          cases rest with
          | nil => exact absurd long (show ¬ PathTooLong [] by decide)
          | cons filename more => exact .inr ⟨filename, more, rfl, long⟩
        · rintro (⟨count, wrong⟩ | ⟨filename, more, is, long⟩)
          · exact absurd (List.cons.inj wrong).1 (by decide)
          · rw [is]
            exact long
      by_cases ping : cmd = ascii "ping"
      · subst ping
        rw [dispatch_ping, Option.isSome_map,
          cmdPing_isSome_iff _ _ fun word member => plain word (List.mem_cons_of_mem _ member),
          not_iff_not]
        constructor
        · rintro ⟨count, rfl⟩
          exact .inl ⟨count, rfl⟩
        · rintro (⟨count, is⟩ | ⟨filename, more, wrong, -⟩)
          · exact ⟨count, (List.cons.inj is).2⟩
          · exact absurd (List.cons.inj wrong).1 (by decide)
      · have named := fun name (free : 0 ∉ ascii name) => shStrcmp_eq_zero_iff command free
        refine iff_of_true (dispatch_other outside passes ?_ ?_) ?_
        · exact fun same => exec ((named "exec" (by decide)).mp same)
        · exact fun same => ping ((named "ping" (by decide)).mp same)
        · rintro (⟨count, is⟩ | ⟨filename, more, is, -⟩)
          · exact ping (List.cons.inj is).1
          · exact exec (List.cons.inj is).1

/-- The line is cut into its first words; the handler reads what was set of `argv`, and stores
inside its local arrays, and so does `parse_ip4` with any argument. -/
structure LineHandled (outside : Outside) (passes : Nat) (line : Buf) (text : Text) : Prop where
  cut : ∃ line' argv, shParse line = some (line', argv) ∧
    argv.mapM (wordAt line') = some ((words text).take maxArgs)
  handled : (shParseAndRun outside passes line).isSome = true
  octets : ∀ s octets, parseIp4Into s octets = some (parseIp4 s octets)

/-- A line in the buffer of the shell is handled exactly if it is not `ping -c` without a host or
`exec` with a path that does not fit. -/
theorem handled_iff (outside : Outside) (passes : Nat) (line : Buf) (text : Text)
    (holds : cString line = some text) :
    LineHandled outside passes line text ↔ ¬ Unhandled ((words text).take maxArgs) := by
  obtain ⟨line', pointers, parsed, strings⟩ := shParse_words holds
  have ran : shParseAndRun outside passes line =
      dispatch outside passes ((words text).take maxArgs) := by
    rw [shParseAndRun, parsed]
    simp only [Option.bind_eq_bind, Option.bind_some, strings]
  have plain : ∀ word ∈ (words text).take maxArgs, 0 ∉ word := by
    intro word member nul
    have fits := (cString_eq_some.mp holds).2.2
    exact fits.plain (mem_of_mem_components nul (List.mem_of_mem_take member))
  rw [← dispatch_isSome_iff outside passes plain, ← ran]
  exact ⟨fun all => all.handled, fun handled =>
    ⟨⟨line', pointers, parsed, strings⟩, handled, parseIp4Into_eq⟩⟩

/-- A kernel whose file system has nothing. -/
def emptyOutside : Outside where
  fatCreate _ := false
  fatDelete _ := false
  fatMkdir _ := false
  fatChdir _ := false
  fatWrite _ _ := false
  fatReads _ := none
  elfLoad _ := none
  createUserTask _ _ := -1
  debugPrint := false
  debugLog := false
  promptFg := 2
  promptBg := 0
  station := demoStation

/-- A line in a buffer. -/
def lineOf (text : String) : Buf := fun i => (ascii text).getD i 0

theorem echo_handled_iff :
    LineHandled emptyOutside 4 (lineOf "echo a > b") (ascii "echo a > b") ↔
      ¬ Unhandled ((words (ascii "echo a > b")).take maxArgs) :=
  handled_iff emptyOutside 4 (lineOf "echo a > b") (ascii "echo a > b") (by decide)

/-- `ping -c 3` takes its host from an element of `argv` that was not set. -/
theorem ping_without_host_unhandled :
    ¬ ∀ (outside : Outside) (passes : Nat) (line : Buf) (text : Text),
      cString line = some text → LineHandled outside passes line text := by
  intro all
  have handled := (all emptyOutside 4 (lineOf "ping -c 3") (ascii "ping -c 3") (by decide)).handled
  exact absurd handled (by decide)

end XosKernel.Shell
