/-
# Fat32.PathBounds -- where `fat32_chdir` writes into `current_path`

`pathWrites` lists the indices at which a successful `fat32_chdir` stores into the 256 bytes of
`current_path`.  Copying an absolute path and cutting the text for `..` stay inside.  Appending
a name stops at index 255, but the slash before it is stored without a look at the length: a
text of 255 bytes that does not end in a slash has no room for it, and the NUL goes to index
256 (`path_writes_inside_iff`).  What the stores leave is the text of the model
(`fat32Chdir_stores`).
-/
import XosKernel.Fat32.CurrentPath
import XosKernel.Theory.Steps

namespace XosKernel.Fat32

open XosKernel.Theory

set_option autoImplicit false

/-- `sizeof(current_path)` -/
def currentPathSize : Nat := 256

/-- The index of the NUL that `..` puts into the text. -/
def upLength (text : List UInt8) : Nat :=
  let len := text.length
  let len := if 1 < len ∧ charAt text (len - 1) = slash then len - 1 else len
  let len := lastSlash text len
  if len = 0 then 1 else len

/-- `len` before the name is appended. -/
def appendStart (text : List UInt8) : Nat :=
  if needsSlash text then text.length + 1 else text.length

/-- The indices of `current_path` that `fat32_chdir` stores to, in order, once it went to the
directory `dirname`. -/
def pathWrites (text path dirname : List UInt8) : List Nat :=
  if isAbsolute path then List.range (min path.length 255) ++ [min path.length 255]
  else if dirname = [dot] then []
  else if dirname = [dot, dot] then [upLength text]
  else
    let len := appendStart text
    let copied := min dirname.length (255 - len)
    (if needsSlash text then [text.length] else []) ++ List.range' len copied ++ [len + copied]

/-- The call goes to a directory, under a name. -/
def Enters (d : Driver) (path : CStr) (name : List UInt8) : Prop :=
  d.fsMounted = true ∧ ∃ nav d' e, (navigatePath path.1).run d = .ok (nav, d') ∧
    nav.entry = some e ∧ e.isDirectory = true ∧ nav.filename.getD [] = name

/-- Every index that the call stores to is inside of the array. -/
def WritesInside (d : Driver) (path : CStr) : Prop :=
  ∀ name, Enters d path name →
    ∀ i ∈ pathWrites d.fs.currentPath path.1 name, i < currentPathSize

/-- The array holds a string and its NUL. -/
def Terminated (d : Driver) : Prop := d.fs.currentPath.length < currentPathSize

/-- The text fills the array and does not end in a slash. -/
def PathFull (text : List UInt8) : Prop := text.length = 255 ∧ charAt text 254 ≠ slash

/-- The call appends no name to a text that fills the array. -/
def HasRoom (d : Driver) (path : CStr) : Prop :=
  ∀ name, Enters d path name → isAbsolute path.1 = false → name ≠ [dot] → name ≠ [dot, dot] →
    ¬ PathFull d.fs.currentPath

/-- One call; a call that stops leaves the state. -/
def chdirStep (d : Driver) (path : CStr) : Driver := leaves (fat32Chdir path) d

/-! ## One call -/

theorem lastSlash_le (text : List UInt8) (len : Nat) : lastSlash text len ≤ len := by
  induction len with
  | zero => exact Nat.le_refl 0
  | succ len ih =>
      rw [lastSlash]
      split
      · exact Nat.le_refl _
      · omega

theorem upLength_lt {text : List UInt8} (short : text.length < 256) : upLength text < 256 := by
  simp only [upLength]
  generalize cut : (if 1 < text.length ∧ charAt text (text.length - 1) = slash
    then text.length - 1 else text.length) = len
  have bound := lastSlash_le text len
  have within : len ≤ text.length := by
    rw [← cut]
    split <;> omega
  split <;> omega

/-- The slash does not fit exactly into a full text. -/
theorem appendStart_gt_iff {text : List UInt8} (short : text.length < 256) :
    255 < appendStart text ↔ PathFull text := by
  unfold appendStart PathFull
  by_cases full : text.length = 255
  · have slashed : needsSlash text = true ↔ charAt text 254 ≠ slash := by
      unfold needsSlash
      rw [full, if_pos (.inl (by decide))]
      simp
    by_cases need : needsSlash text = true
    · rw [if_pos need, full]
      simp [slashed.mp need]
    · rw [if_neg need, full]
      simp only [slashed, not_not] at need
      simp [need]
  · split <;> omega

/-- All indices are inside, except the NUL behind a slash that did not fit. -/
theorem pathWrites_inside_iff {text path name : List UInt8} (short : text.length < 256) :
    (∀ i ∈ pathWrites text path name, i < currentPathSize) ↔
      (isAbsolute path = false → name ≠ [dot] → name ≠ [dot, dot] → ¬ PathFull text) := by
  unfold pathWrites currentPathSize
  by_cases absolute : isAbsolute path = true
  · rw [if_pos absolute]
    simp only [absolute, Bool.true_eq_false, false_implies, iff_true]
    intro i member
    rw [List.mem_append, List.mem_range, List.mem_singleton] at member
    omega
  rw [if_neg absolute]
  have relative : isAbsolute path = false := by simpa using absolute
  by_cases here : name = [dot]
  · simp [here]
  rw [if_neg here]
  by_cases up : name = [dot, dot]
  · rw [if_pos up]
    have bound := upLength_lt short
    simp only [List.mem_singleton, forall_eq, bound, true_iff]
    exact fun _ _ other => absurd up other
  rw [if_neg up]
  simp only [relative, here, up, ne_eq, not_false_eq_true, true_implies]
  rw [← appendStart_gt_iff short]
  constructor
  · intro inside far
    have last := inside (appendStart text + min name.length (255 - appendStart text))
      (List.mem_append_right _ List.mem_cons_self)
    omega
  · intro fits i member
    rw [List.mem_append, List.mem_append, List.mem_range'_1, List.mem_singleton] at member
    rcases member with (slashed | copied) | last
    · split at slashed
      · rw [List.mem_singleton] at slashed
        omega
      · cases slashed
    · omega
    · omega

theorem writesInside_iff {d : Driver} (terminated : Terminated d) (path : CStr) :
    WritesInside d path ↔ HasRoom d path := by
  unfold WritesInside HasRoom
  constructor
  · intro inside name enters
    exact (pathWrites_inside_iff terminated).mp (inside name enters)
  · intro room name enters
    exact (pathWrites_inside_iff terminated).mpr (room name enters)

theorem setCurrentPath_terminated {text : List UInt8} {d d' : Driver}
    (returned : (setCurrentPath text).run d = .ok ((), d')) : Terminated d' := by
  unfold setCurrentPath at returned
  split at returned
  · cases returned
  · next short =>
      cases returned
      exact Nat.lt_of_not_le short

theorem updatePath_terminated {path name : List UInt8} {d d' : Driver} (terminated : Terminated d)
    (returned : (updatePath path name).run d = .ok ((), d')) : Terminated d' := by
  unfold updatePath at returned
  obtain ⟨_, _, got, rest⟩ := bind_returns returned
  cases got
  split at rest
  · exact setCurrentPath_terminated rest
  · split at rest
    · cases rest
      exact terminated
    · split at rest
      · exact setCurrentPath_terminated rest
      · exact setCurrentPath_terminated rest

/-- A call leaves a string with its NUL in the array, or does not return. -/
theorem chdirStep_terminated {d : Driver} (terminated : Terminated d) (path : CStr) :
    Terminated (chdirStep d path) := by
  unfold chdirStep leaves
  cases ran : (fat32Chdir path).run d with
  | error e => exact terminated
  | ok result =>
      obtain ⟨r, d'⟩ := result
      unfold fat32Chdir at ran
      obtain ⟨_, _, got, rest⟩ := bind_returns ran
      cases got
      split at rest
      · obtain ⟨nav, d₁, navigated, rest⟩ := bind_returns rest
        have fs := Driver.fs_of_disks (navigatePath_keeps inert_disks.steady _ _ _ _ navigated)
        have kept : Terminated d₁ := by
          unfold Terminated
          rw [fs]
          exact terminated
        cases entry : nav.entry with
        | none =>
            rw [entry] at rest
            cases rest
            exact kept
        | some e =>
            rw [entry] at rest
            simp only at rest
            split at rest
            · obtain ⟨_, d₂, moved, rest⟩ := bind_returns rest
              obtain ⟨_, d₃, texted, last⟩ := bind_returns rest
              cases moved
              cases last
              refine updatePath_terminated ?_ texted
              exact kept
            · cases rest
              exact kept
      · cases rest
        exact terminated

/-! ## The stores -/

/-- The characters that go to the indices of `pathWrites`. -/
def pathBytes (text path dirname : List UInt8) : List UInt8 :=
  if isAbsolute path then path.take 255 ++ [0]
  else if dirname = [dot] then []
  else if dirname = [dot, dot] then [0]
  else (if needsSlash text then [slash] else []) ++ dirname.take (255 - appendStart text) ++ [0]

/-- The array with the characters stored one after the other. -/
def storeChars (array : Buf) (chars : List (Nat × UInt8)) : Buf :=
  chars.foldl (fun array c => Function.update array c.1 c.2) array

/-- The array starts with the text and a NUL. -/
def HoldsText (array : Buf) (text : List UInt8) : Prop :=
  ∀ i, i ≤ text.length → array i = charAt text i

theorem storeChars_range' (bytes : List UInt8) (array : Buf) (start i : Nat) :
    storeChars array ((List.range' start bytes.length).zip bytes) i =
      if start ≤ i ∧ i < start + bytes.length then bytes.getD (i - start) 0 else array i := by
  induction bytes generalizing array start with
  | nil => simp [storeChars]
  | cons b bytes ih =>
      rw [List.length_cons, List.range'_succ, List.zip_cons_cons]
      refine (ih (Function.update array start b) (start + 1)).trans ?_
      by_cases first : i = start
      · subst first
        rw [if_neg (by omega), if_pos (by omega), Function.update_self, Nat.sub_self]
        rfl
      · rw [Function.update_of_ne first]
        by_cases inside : start + 1 ≤ i ∧ i < start + 1 + bytes.length
        · rw [if_pos inside, if_pos (by omega), show i - start = i - (start + 1) + 1 by omega,
            List.getD_cons_succ]
        · rw [if_neg inside, if_neg (by omega)]

theorem charAt_append_left {a b : List UInt8} {i : Nat} (inside : i < a.length) :
    charAt (a ++ b) i = charAt a i := by
  rw [charAt, charAt, List.getD_eq_getElem?_getD, List.getD_eq_getElem?_getD,
    List.getElem?_append_left inside]

/-- The stores behind a text that stays: it goes on with what is stored. -/
theorem HoldsText.append {array : Buf} {text : List UInt8} (holds : HoldsText array text)
    {n : Nat} (within : n ≤ text.length) (bytes : List UInt8) :
    HoldsText (storeChars array ((List.range' n (bytes ++ [0]).length).zip (bytes ++ [0])))
      (text.take n ++ bytes) := by
  intro i inside
  rw [List.length_append, List.length_take, Nat.min_eq_left within] at inside
  rw [storeChars_range', List.length_append, List.length_singleton]
  have cut : (text.take n).length = n := by rw [List.length_take, Nat.min_eq_left within]
  by_cases before : i < n
  · rw [if_neg (by omega), holds i (by omega), charAt_append_left (by omega), charAt, charAt,
      List.getD_eq_getElem?_getD, List.getD_eq_getElem?_getD, List.getElem?_take_of_lt before]
  obtain ⟨k, rfl⟩ : ∃ k, i = n + k := ⟨i - n, by omega⟩
  rw [if_pos (by omega), Nat.add_sub_cancel_left]
  change charAt (bytes ++ [0]) k = _
  have behind := charAt_append_right (text.take n) bytes k
  rw [cut] at behind
  rw [behind]
  by_cases last : k < bytes.length
  · exact charAt_append_left last
  · obtain rfl : k = bytes.length := by omega
    have nul : charAt bytes bytes.length = 0 := by
      rw [charAt, List.getD_eq_getElem?_getD, List.getElem?_eq_none (Nat.le_refl _)]
      rfl
    rw [nul]
    exact charAt_append_right bytes [0] 0

theorem appendStart_eq (text : List UInt8) :
    appendStart text = (if needsSlash text then text ++ [slash] else text).length := by
  unfold appendStart
  split
  · rw [List.length_append, List.length_singleton]
  · rfl

theorem upLength_le {text : List UInt8} (some_ : text ≠ []) : upLength text ≤ text.length := by
  have positive := List.length_pos_iff.mpr some_
  simp only [upLength]
  generalize cut : (if 1 < text.length ∧ charAt text (text.length - 1) = slash
    then text.length - 1 else text.length) = len
  have bound := lastSlash_le text len
  have within : len ≤ text.length := by
    rw [← cut]
    split <;> omega
  split <;> omega

/-- The slash, the name and the NUL go to consecutive indices behind the text. -/
theorem HoldsText.appendPath {array : Buf} {text : List UInt8} (holds : HoldsText array text)
    (name : List UInt8) :
    HoldsText (storeChars array
      (((if needsSlash text then [text.length] else []) ++
          List.range' (appendStart text) (min name.length (255 - appendStart text)) ++
          [appendStart text + min name.length (255 - appendStart text)]).zip
        ((if needsSlash text then [slash] else []) ++ name.take (255 - appendStart text) ++ [0])))
      (Fat32.appendPath text name) := by
  unfold Fat32.appendPath
  simp only
  rw [← appendStart_eq]
  have length : (name.take (255 - appendStart text)).length =
      min name.length (255 - appendStart text) := by rw [List.length_take, Nat.min_comm]
  by_cases slashed : needsSlash text = true
  · rw [if_pos slashed, if_pos slashed, if_pos slashed]
    have stored := holds.append (Nat.le_refl _) ([slash] ++ name.take (255 - appendStart text))
    rw [List.take_length, ← List.append_assoc] at stored
    have places : ([slash] ++ name.take (255 - appendStart text) ++ [0]).length =
        min name.length (255 - appendStart text) + 1 + 1 := by
      rw [List.length_append, List.length_append, length, List.length_singleton,
        List.length_singleton, Nat.add_comm 1]
    have start : appendStart text = text.length + 1 := if_pos slashed
    rw [places, List.range'_succ, ← start, List.range'_1_concat] at stored
    exact stored
  · rw [if_neg slashed, if_neg slashed, if_neg slashed]
    have stored := holds.append (Nat.le_refl _) (name.take (255 - appendStart text))
    have start : appendStart text = text.length := if_neg slashed
    rw [List.take_length, List.length_append, length, List.length_singleton,
      List.range'_1_concat, ← start] at stored
    exact stored

/-- After the stores the array holds the text that `updatePath` leaves. -/
theorem updatePath_stores {d d' : Driver} {path name : List UInt8} {array : Buf}
    (holds : HoldsText array d.fs.currentPath)
    (returned : (updatePath path name).run d = .ok ((), d')) :
    HoldsText (storeChars array ((pathWrites d.fs.currentPath path name).zip
      (pathBytes d.fs.currentPath path name))) d'.fs.currentPath := by
  have left : ∀ text, (setCurrentPath text).run d = .ok ((), d') → d'.fs.currentPath = text := by
    intro text stored
    unfold setCurrentPath at stored
    split at stored
    · cases stored
    · cases stored
      rfl
  unfold updatePath at returned
  obtain ⟨_, _, got, rest⟩ := bind_returns returned
  cases got
  unfold pathWrites pathBytes
  by_cases absolute : isAbsolute path = true
  · rw [if_pos absolute] at rest
    rw [if_pos absolute, if_pos absolute, left _ rest, ← List.range_succ, List.range_eq_range']
    have stored := holds.append (Nat.zero_le _) (path.take 255)
    rw [List.length_append, List.length_take, Nat.min_comm] at stored
    exact stored
  rw [if_neg absolute] at rest
  rw [if_neg absolute, if_neg absolute]
  by_cases here : name = [dot]
  · rw [if_pos here] at rest
    cases rest
    rw [if_pos here, if_pos here]
    exact holds
  rw [if_neg here] at rest
  rw [if_neg here, if_neg here]
  by_cases up : name = [dot, dot]
  · rw [if_pos up] at rest
    rw [if_pos up, if_pos up, left _ rest]
    by_cases empty : d.fs.currentPath = []
    · rw [empty] at holds ⊢
      intro i inside
      cases Nat.le_zero.mp inside
      exact holds 0 (Nat.le_refl 0)
    · have stored := holds.append (upLength_le empty) []
      rw [List.append_nil] at stored
      exact stored
  rw [if_neg up] at rest
  rw [if_neg up, if_neg up, left _ rest]
  exact holds.appendPath name

/-- A call that goes to a directory stores the text that it leaves; any other call leaves the
text. -/
theorem fat32Chdir_stores {d d' : Driver} {path : CStr} {r : Int} {array : Buf}
    (holds : HoldsText array d.fs.currentPath)
    (returned : (fat32Chdir path).run d = .ok (r, d')) :
    (∀ name, Enters d path name →
      HoldsText (storeChars array ((pathWrites d.fs.currentPath path.1 name).zip
        (pathBytes d.fs.currentPath path.1 name))) d'.fs.currentPath) ∧
    ((∀ name, ¬ Enters d path name) → d'.fs.currentPath = d.fs.currentPath) := by
  unfold fat32Chdir at returned
  obtain ⟨_, _, got, rest⟩ := bind_returns returned
  cases got
  by_cases mounted : d.fsMounted = true
  swap
  · rw [if_neg mounted] at rest
    cases rest
    exact ⟨fun name enters => absurd enters.1 mounted, fun _ => rfl⟩
  rw [if_pos mounted] at rest
  obtain ⟨nav, d₁, navigated, rest⟩ := bind_returns rest
  have fs := Driver.fs_of_disks (navigatePath_keeps inert_disks.steady _ _ _ _ navigated)
  have entered : ∀ name, Enters d path name → ∃ e, nav.entry = some e ∧ e.isDirectory = true ∧
      nav.filename.getD [] = name := by
    rintro name ⟨-, nav', d₂, e, ran, found⟩
    rw [navigated] at ran
    cases ran
    exact ⟨e, found⟩
  cases entry : nav.entry with
  | none =>
      rw [entry] at rest
      cases rest
      refine ⟨fun name enters => ?_, fun _ => by rw [fs]⟩
      obtain ⟨e, found, -⟩ := entered name enters
      rw [entry] at found
      cases found
  | some e =>
      rw [entry] at rest
      simp only at rest
      by_cases directory : e.isDirectory = true
      · rw [if_pos directory] at rest
        obtain ⟨_, d₂, moved, rest⟩ := bind_returns rest
        obtain ⟨_, d₃, texted, last⟩ := bind_returns rest
        cases moved
        cases last
        refine ⟨fun name enters => ?_, fun none_ => ?_⟩
        · obtain ⟨e', -, -, named⟩ := entered name enters
          rw [named] at texted
          rw [← fs] at holds ⊢
          exact updatePath_stores (d :=
            { d₁ with fs := { d₁.fs with currentDirCluster := e.firstCluster } }) holds texted
        · exact absurd ⟨mounted, nav, d₁, e, navigated, entry, directory, rfl⟩ (none_ _)
      · rw [if_neg directory] at rest
        cases rest
        refine ⟨fun name enters => ?_, fun _ => by rw [fs]⟩
        obtain ⟨e', found, isDirectory, -⟩ := entered name enters
        rw [entry] at found
        cases found
        exact absurd isDirectory directory

/-! ## Runs -/

/-- From every state whose `current_path` is a string, for every sequence of `fat32_chdir`
calls: `current_path` is a string in every state of the run and no call stores beyond its end,
if and only if no call of the run appends a name to a text that fills the array. -/
theorem path_writes_inside_iff (d : Driver) (start : Terminated d) (paths : List CStr) :
    Always chdirStep Terminated d paths ∧ EachStep chdirStep WritesInside d paths ↔
      EachStep chdirStep HasRoom d paths := by
  have kept : ∀ d path, Terminated d → Terminated (chdirStep d path) :=
    fun _ path holds => chdirStep_terminated holds path
  have same : EachStep chdirStep WritesInside d paths ↔ EachStep chdirStep HasRoom d paths :=
    eachStep_congr kept (fun _ path holds => writesInside_iff holds path) start paths
  rw [same]
  exact ⟨fun both => both.2, fun each => ⟨always_of_kept kept start paths, each⟩⟩

/-- 254 slashes and the directory `a`. -/
def longPath : CStr := .ofBytes (List.replicate 254 slash ++ [0x61])

/-- After mount, `chdir` with 255 bytes that name `a`, then `chdir b`: the slash goes to index
255 and the NUL to index 256. -/
theorem long_path_overflows :
    ¬ (Always chdirStep Terminated mountedAB [longPath, .ofBytes [0x62]] ∧
      EachStep chdirStep WritesInside mountedAB [longPath, .ofBytes [0x62]]) := by
  rintro ⟨-, -, second, -⟩
  have text : (chdirStep mountedAB longPath).fs.currentPath =
      List.replicate 254 slash ++ [0x61] := by decide +kernel
  have mounted : (chdirStep mountedAB longPath).fsMounted = true := by decide +kernel
  have navigated : Runs.check (navigatePath [0x62]) (chdirStep mountedAB longPath)
      (fun nav _ => nav.entry.any Dirent.isDirectory && nav.filename == some [0x62]) = true := by
    decide +kernel
  obtain ⟨nav, d', ran, holds⟩ := Runs.of_check navigated
  simp only [Bool.and_eq_true, beq_iff_eq] at holds
  obtain ⟨found, name⟩ := holds
  obtain ⟨e, entry, directory⟩ := Option.any_eq_true _ _ |>.mp found
  have enters : Enters (chdirStep mountedAB longPath) (.ofBytes [0x62]) [0x62] :=
    ⟨mounted, nav, d', e, ran, entry, directory, by rw [name]; rfl⟩
  have inside := second [0x62] enters 256 (by rw [text]; decide +kernel)
  exact absurd inside (by decide)

/-- `chdir a` after mount has room. -/
theorem short_path_inside :
    Always chdirStep Terminated mountedAB [.ofBytes [0x61]] ∧
      EachStep chdirStep WritesInside mountedAB [.ofBytes [0x61]] := by
  have root : mountedAB.fs.currentPath = [slash] := by decide +kernel
  refine (path_writes_inside_iff mountedAB (by rw [Terminated, root]; decide) _).mpr
    ⟨fun name _ _ _ _ full => ?_, trivial⟩
  rw [root] at full
  exact absurd full.1 (by decide)

end XosKernel.Fat32
