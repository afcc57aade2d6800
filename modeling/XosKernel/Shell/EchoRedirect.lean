/-
# Shell.EchoRedirect -- `echo` with a file to write to

The words of `echo w1 ... wk > f` go through three limits: the tokenizer keeps the first
`MAX_ARGS` words of the line, `cmd_echo` looks for the `>` among them, and the words before it are
joined again in an array of 256 characters.  The array is never too small, since the words with
one space between two are shorter than the line (`joined_short`).  The tokenizer is the limit that
matters: with 13 words the line has as many words as `argv` has elements, and with more the file
name or the `>` is cut off and nothing is written (`echo_redirect`).
-/
import XosKernel.Shell.CommandLine

namespace XosKernel.Shell

open XosKernel.Lib XosKernel.Net XosKernel.Theory

set_option autoImplicit false

/-- The calls of `fat32_write`, in their order. -/
def fatWrites (acts : List ShellAct) : List (Text × Text) :=
  acts.filterMap fun act =>
    match act with
    | .fatWrite path text => some (path, text)
    | _ => none

/-- Words with one space between two. -/
def joined (ws : List Text) : Text := [0x20].intercalate ws

theorem fatWrites_append (acts later : List ShellAct) :
    fatWrites (acts ++ later) = fatWrites acts ++ fatWrites later := List.filterMap_append

/-- Words that are printed with spaces between them. -/
theorem fatWrites_spaced (ws : List Text) :
    fatWrites ((ws.map fun arg => ShellAct.print (printf "%s" [.str arg])).intersperse
      (.print (printf " " []))) = [] := by
  induction ws with
  | nil => rfl
  | cons w rest ih =>
      cases rest with
      | nil => rfl
      | cons v rest => exact ih

/-! ## Joining words -/

theorem joined_cons_cons (w v : Text) (ws : List Text) :
    joined (w :: v :: ws) = w ++ 0x20 :: joined (v :: ws) := by
  rw [joined, List.intercalate_cons_cons, List.append_assoc]
  rfl

theorem joined_singleton (w : Text) : joined [w] = w := List.append_nil w

theorem joined_length_le (ws : List Text) :
    (joined ws).length ≤ (ws.map List.length).sum + ws.length := by
  induction ws with
  | nil => exact Nat.le_refl 0
  | cons w rest ih =>
      cases rest with
      | nil =>
          rw [joined_singleton, List.map_singleton, List.sum_singleton]
          exact Nat.le_add_right _ _
      | cons v rest =>
          rw [joined_cons_cons, List.length_append, List.length_cons, List.map_cons, List.sum_cons,
            List.length_cons]
          omega

theorem mem_joined {c : UInt8} {ws : List Text} (member : c ∈ joined ws) :
    c = 0x20 ∨ ∃ w ∈ ws, c ∈ w := by
  induction ws with
  | nil => cases member
  | cons w rest ih =>
      cases rest with
      | nil =>
          rw [joined_singleton] at member
          exact .inr ⟨w, List.mem_cons_self, member⟩
      | cons v rest =>
          rw [joined_cons_cons, List.mem_append, List.mem_cons] at member
          rcases member with first | space | later
          · exact .inr ⟨w, List.mem_cons_self, first⟩
          · exact .inl space
          · rcases ih later with space | ⟨u, inside, here⟩
            · exact .inl space
            · exact .inr ⟨u, List.mem_cons_of_mem _ inside, here⟩

/-- Words of a line that fits the buffer, joined, leave room in the array of `cmd_echo`. -/
theorem joined_short {text cmd sign file : Text} {ws : List Text} (fits : Fits text)
    (command : words text = cmd :: (ws ++ [sign, file])) : (joined ws).length < echoTextSize := by
  have bound : ((words text).map List.length).sum + (words text).length ≤ text.length + 1 :=
    components_length_le text
  have short : text.length < 256 := fits.short
  have joins := joined_length_le ws
  simp only [command, List.map_cons, List.map_append, List.sum_cons, List.sum_append,
    List.length_cons, List.length_append] at bound
  show _ < 256
  omega

/-! ## The loops of `cmd_echo` -/

/-- An argument that there is room for is copied whole. -/
theorem echoWord_copies (arg : Text) (text : Buf) (pos : Nat)
    (room : pos + arg.length ≤ echoTextSize - 1) :
    ∃ text', echoWord text pos arg = some (text', pos + arg.length) ∧
      text'.toList 0 (pos + arg.length) = text.toList 0 pos ++ arg := by
  induction arg generalizing text pos with
  | nil => exact ⟨text, rfl, (List.append_nil _).symm⟩
  | cons c rest ih =>
      have size : echoTextSize = 256 := rfl
      rw [List.length_cons] at room ⊢
      have length : pos + (rest.length + 1) = pos + 1 + rest.length := by omega
      obtain ⟨text', copied, holds⟩ := ih (Function.update text pos c) (pos + 1) (by omega)
      refine ⟨text', ?_, ?_⟩
      · rw [echoWord, if_pos (by omega), storeAt, if_pos (by omega), length]
        exact copied
      · rw [length, holds, toList_update, List.append_assoc, List.singleton_append]

/-- The loop over the arguments joins those that are left. -/
theorem echoLoop_joins (before after : List Text) (ws : List Text) (text : Buf) (pos : Nat)
    (room : pos + (joined ws).length ≤ echoTextSize - 1) :
    ∃ text', echoLoop (before ++ ws ++ after) (before.length + ws.length) ws.length text pos =
        some (text', pos + (joined ws).length) ∧
      text'.toList 0 (pos + (joined ws).length) = text.toList 0 pos ++ joined ws := by
  induction ws generalizing before text pos with
  | nil => exact ⟨text, rfl, (List.append_nil _).symm⟩
  | cons w rest ih =>
      have here : (before ++ w :: rest ++ after)[before.length + (rest.length + 1) -
          (rest.length + 1)]? = some w := by
        rw [Nat.add_sub_cancel, List.append_assoc, List.getElem?_append_right (Nat.le_refl _),
          Nat.sub_self]
        rfl
      rw [List.length_cons, echoLoop, here]
      cases rest with
      | nil =>
          rw [joined_singleton] at room ⊢
          obtain ⟨text', copied, holds⟩ := echoWord_copies w text pos room
          simp only [Option.bind_eq_bind, Option.bind_some, copied]
          exact ⟨text', rfl, holds⟩
      | cons v rest =>
          have size : echoTextSize = 256 := rfl
          have length : pos + (joined (w :: v :: rest)).length =
              pos + w.length + 1 + (joined (v :: rest)).length := by
            rw [joined_cons_cons, List.length_append, List.length_cons]
            omega
          rw [length] at room ⊢
          obtain ⟨text₁, copied, holds₁⟩ := echoWord_copies w text pos (by omega)
          obtain ⟨text₂, joins, holds₂⟩ := ih (before ++ [w])
            (Function.update text₁ (pos + w.length) 0x20) (pos + w.length + 1) room
          have more : 0 < (v :: rest).length ∧ pos + w.length < echoTextSize - 1 :=
            ⟨Nat.succ_pos _, by omega⟩
          simp only [Option.bind_eq_bind, Option.bind_some, copied]
          rw [if_pos more, storeAt, if_pos (by omega)]
          refine ⟨text₂, ?_, ?_⟩
          · rw [List.append_assoc before, List.singleton_append, List.length_append,
              List.length_singleton, Nat.add_assoc before.length, Nat.add_comm 1] at joins
            exact joins
          · rw [holds₂, toList_update, holds₁, joined_cons_cons]
            simp only [List.append_assoc, List.singleton_append]

/-! ## The redirection -/

section Redirect

variable {ws : List Text} (plain : ∀ w ∈ ws, 0 ∉ w) (free : ascii ">" ∉ ws)
include plain free

theorem findIdx?_sign : (ws.findIdx? fun arg => shStrcmp arg (ascii ">") = 0) = none := by
  rw [List.findIdx?_eq_none_iff]
  intro w member
  rw [decide_eq_false_iff_not, shStrcmp_eq_zero_iff (plain w member) (by decide)]
  rintro rfl
  exact free member

theorem redirectIndex_none (cmd : Text) : redirectIndex (cmd :: ws) = none := by
  rw [redirectIndex, List.tail_cons, findIdx?_sign plain free]
  rfl

theorem redirectIndex_some (cmd : Text) (rest : List Text) :
    redirectIndex (cmd :: (ws ++ ascii ">" :: rest)) = some (ws.length + 1) := by
  rw [redirectIndex, List.tail_cons, List.findIdx?_append, findIdx?_sign plain free,
    List.findIdx?_cons, if_pos (by decide), Option.map_some, Option.none_or, Option.map_some,
    Nat.zero_add]

/-- A file name behind the sign: the words before it are written there. -/
theorem cmdEcho_writes (outside : Outside) (cmd file : Text) (some_ : ws ≠ [])
    (short : (joined ws).length < echoTextSize) :
    ∃ acts, cmdEcho outside (cmd :: (ws ++ [ascii ">", file])) = some acts ∧
      fatWrites acts = [(file, joined ws)] := by
  have length : (cmd :: (ws ++ [ascii ">", file])).length = ws.length + 3 := by
    rw [List.length_cons, List.length_append]
    rfl
  have positive := List.length_pos_iff.mpr some_
  have usable : ¬ (ws.length + 1 = 1 ∨
      (cmd :: (ws ++ [ascii ">", file])).length ≤ ws.length + 1 + 1) := by
    rw [length]
    omega
  have size : echoTextSize = 256 := rfl
  obtain ⟨text, joins, holds⟩ := echoLoop_joins [cmd] [ascii ">", file] ws (fun _ => 0) 0
    (by omega)
  have name : (cmd :: (ws ++ [ascii ">", file]))[ws.length + 1 + 1]? = some file := by
    rw [List.getElem?_cons_succ, List.getElem?_append_right (Nat.le_add_right _ 1),
      Nat.add_sub_cancel_left]
    rfl
  rw [Nat.zero_add] at joins holds
  have content : stringFrom (Function.update text (joined ws).length 0) echoTextSize 0 =
      some (joined ws) := by
    rw [stringFrom_eq_some, Nat.zero_add, Function.update_self]
    refine ⟨?_, rfl, ?_, short⟩
    · refine Eq.trans ?_ holds
      apply Buf.toList_congr
      intro i _ before
      rw [Function.update_of_ne (by omega)]
    · intro nul
      rcases mem_joined nul with wrong | ⟨w, member, inside⟩
      · exact absurd wrong (by decide)
      · exact plain w member inside
  have loop : echoLoop (cmd :: (ws ++ [ascii ">", file])) (ws.length + 1) (ws.length + 1 - 1)
      (fun _ => 0) 0 = some (text, (joined ws).length) := by
    rw [← joins, Nat.add_sub_cancel, List.length_singleton, Nat.add_comm 1]
    rfl
  rw [cmdEcho, if_neg (by rw [length]; omega), redirectIndex_some plain free]
  dsimp only
  rw [if_neg usable, loop]
  simp only [Option.bind_eq_bind, Option.bind_some, storeAt, if_pos short, name, content]
  exact ⟨_, rfl, rfl⟩

/-- The sign is the last word: there is no file to write to. -/
theorem cmdEcho_sign_last (outside : Outside) (cmd : Text) :
    ∃ acts, cmdEcho outside (cmd :: (ws ++ [ascii ">"])) = some acts ∧ fatWrites acts = [] := by
  have length : (cmd :: (ws ++ [ascii ">"])).length = ws.length + 2 := by
    rw [List.length_cons, List.length_append]
    rfl
  rw [cmdEcho, if_neg (by rw [length]; omega), redirectIndex_some plain free]
  dsimp only
  rw [if_pos (.inr (by rw [length]))]
  exact ⟨_, rfl, rfl⟩

/-- Without a sign the words are printed. -/
theorem cmdEcho_prints (outside : Outside) (cmd : Text) :
    ∃ acts, cmdEcho outside (cmd :: ws) = some acts ∧ fatWrites acts = [] := by
  rw [cmdEcho, redirectIndex_none plain free]
  split
  · exact ⟨_, rfl, rfl⟩
  · refine ⟨_, rfl, ?_⟩
    rw [fatWrites_append, List.tail_cons, fatWrites_spaced]
    rfl

end Redirect

/-! ## The line -/

/-- For every line of `echo`, words, `>` and a file name, `fat32_write` is called once, with the
words joined, if there are at most 13 words, and is not called if there are more. -/
theorem echo_redirect (outside : Outside) (passes : Nat) {line : Buf} {text file : Text}
    {ws : List Text} (holds : cString line = some text)
    (command : words text = ascii "echo" :: (ws ++ [ascii ">", file])) (some_ : ws ≠ [])
    (free : ascii ">" ∉ ws) :
    (shParseAndRun outside passes line).map fatWrites =
      some (if ws.length + 3 ≤ maxArgs then [(file, joined ws)] else []) := by
  have fits := (cString_eq_some.mp holds).2.2
  obtain ⟨line', pointers, parsed, strings⟩ := shParse_words holds
  have ran : shParseAndRun outside passes line =
      cmdEcho outside ((words text).take maxArgs) := by
    rw [shParseAndRun, parsed]
    simp only [Option.bind_eq_bind, Option.bind_some, strings, command]
    rfl
  have plain : ∀ w ∈ ws, 0 ∉ w := by
    intro w member nul
    have inside : w ∈ words text := by
      rw [command]
      exact List.mem_cons_of_mem _ (List.mem_append_left _ member)
    exact fits.plain (mem_of_mem_components nul inside)
  have cut : (words text).take maxArgs =
      ascii "echo" :: (ws ++ [ascii ">", file]).take (maxArgs - 1) := by
    rw [command]
    rfl
  have limit : maxArgs = 16 := rfl
  rw [ran, cut]
  by_cases few : ws.length + 3 ≤ maxArgs
  · have whole : (ws ++ [ascii ">", file]).take (maxArgs - 1) = ws ++ [ascii ">", file] := by
      apply List.take_of_length_le
      rw [List.length_append, List.length_cons, List.length_singleton]
      omega
    obtain ⟨acts, is, writes⟩ := cmdEcho_writes plain free outside (ascii "echo") file some_
      (joined_short fits command)
    rw [whole, is, if_pos few, Option.map_some, writes]
  · rw [if_neg few]
    by_cases sign : ws.length + 2 = maxArgs
    · have front : (ws ++ [ascii ">", file]).take (maxArgs - 1) = ws ++ [ascii ">"] := by
        have kept : maxArgs - 1 = ws.length + 1 := by omega
        rw [kept, List.take_length_add_append]
        rfl
      obtain ⟨acts, is, writes⟩ := cmdEcho_sign_last plain free outside (ascii "echo")
      rw [front, is, Option.map_some, writes]
    · have front : (ws ++ [ascii ">", file]).take (maxArgs - 1) = ws.take (maxArgs - 1) :=
        List.take_append_of_le_length (by omega)
      obtain ⟨acts, is, writes⟩ := cmdEcho_prints
        (fun w member => plain w (List.mem_of_mem_take member))
        (fun member => free (List.mem_of_mem_take member)) outside (ascii "echo")
      rw [front, is, Option.map_some, writes]

theorem echo_redirect_two :
    (shParseAndRun emptyOutside 4 (lineOf "echo a b > c")).map fatWrites =
      some (if [ascii "a", ascii "b"].length + 3 ≤ maxArgs
        then [(ascii "c", joined [ascii "a", ascii "b"])] else []) :=
  echo_redirect emptyOutside 4
    (show cString (lineOf "echo a b > c") = some (ascii "echo a b > c") by decide) (by decide)
    (List.cons_ne_nil _ _) (by decide)

/-- With 14 words the file name is cut off. -/
theorem echo_of_fourteen_words :
    ¬ ∀ (outside : Outside) (passes : Nat) (line : Buf) (text file : Text) (ws : List Text),
      cString line = some text →
      words text = ascii "echo" :: (ws ++ [ascii ">", file]) → ws ≠ [] → ascii ">" ∉ ws →
      (shParseAndRun outside passes line).map fatWrites = some [(file, joined ws)] := by
  intro all
  have written := all emptyOutside 4 (lineOf "echo a b c d e f g h i j k l m n > o")
    (ascii "echo a b c d e f g h i j k l m n > o") (ascii "o")
    ((ascii "abcdefghijklmn").map fun c => [c]) (by decide) (by decide) (by decide) (by decide)
  exact absurd written (by decide)

end XosKernel.Shell
