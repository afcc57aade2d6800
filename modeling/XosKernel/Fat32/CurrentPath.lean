/-
# Fat32.CurrentPath -- the text of the current path and the directory it names

`fat32_chdir` takes the new cluster from the disk and edits the text of the current path on
its own: it appends the last component of a relative path, or cuts the last one of the text
for `..`.  The two stay in step along every run in which each relative path moves from the
current directory by its last component only, and `..` meets a text that ends in an ordinary
name (`path_follows_cluster`); `chdir a/b` already leaves the text `/b`.
-/
import XosKernel.Fat32.OpenPath
import XosKernel.Theory.PathText

namespace XosKernel.Fat32

open XosKernel.Theory

set_option autoImplicit false

/-! ## The directory tree -/

/-- `fat32_find_in_directory` in the listing of a directory. -/
def Driver.find (d : Driver) (c : Nat) (name : List UInt8) : Option Dirent :=
  (lookup (nameMatch · name) (d.listing c)).map Prod.snd

/-- The subdirectory of a name. -/
def Driver.child (d : Driver) (c : Nat) (name : List UInt8) : Option Nat :=
  (d.find c name).bind fun e => if e.isDirectory then some e.firstCluster else none

/-- The directory that a list of names leads to. -/
def Driver.follow (d : Driver) (c : Nat) (names : List (List UInt8)) : Option Nat :=
  names.foldlM d.child c

/-- The directory that a text names, component by component from the root directory. -/
def Driver.resolve (d : Driver) (text : List UInt8) : Option Nat :=
  d.follow d.fs.rootDirCluster (components slash text)

/-- In the directories that can be reached, `.` is the directory itself and `..` the one it
was reached from; above the root directory there is only the root directory. -/
structure Tree (d : Driver) : Prop where
  here : ∀ names c c', d.follow d.fs.rootDirCluster names = some c →
    d.child c [dot] = some c' → c' = c
  parent : ∀ names c name q c', d.follow d.fs.rootDirCluster names = some c →
    name ≠ [dot] → name ≠ [dot, dot] → d.child c name = some q →
    d.child q [dot, dot] = some c' → c' = c
  top : ∀ c', d.child d.fs.rootDirCluster [dot, dot] = some c' → c' = d.fs.rootDirCluster

theorem Driver.follow_nil (d : Driver) (c : Nat) : d.follow c [] = some c := rfl

theorem Driver.follow_cons (d : Driver) (c : Nat) (name : List UInt8)
    (names : List (List UInt8)) :
    d.follow c (name :: names) = (d.child c name).bind fun q => d.follow q names := rfl

theorem Driver.follow_of_child {d d' : Driver} (child : d'.child = d.child) :
    d'.follow = d.follow := by
  funext c names
  unfold Driver.follow
  rw [child]

theorem Driver.follow_snoc (d : Driver) (c : Nat) (names : List (List UInt8))
    (name : List UInt8) :
    d.follow c (names ++ [name]) = (d.follow c names).bind fun c' => d.child c' name := by
  unfold follow
  rw [List.foldlM_append]
  change (List.foldlM d.child c names).bind _ = _
  congr 1
  funext c'
  rw [List.foldlM_cons]
  cases d.child c' name with
  | none => rfl
  | some q => rfl

theorem Driver.find_of_disks {d d' : Driver} (same : d'.disks = d.disks) : d'.find = d.find := by
  funext c name
  unfold find
  rw [Driver.listing_of_disks same]

theorem Driver.child_of_disks {d d' : Driver} (same : d'.disks = d.disks) :
    d'.child = d.child := by
  unfold child
  rw [Driver.find_of_disks same]

/-! ## Navigation -/

theorem findInDirectory_returns {d d' : Driver} (quiet : d.Quiet) {c : Nat} {name : List UInt8}
    {r : Option Dirent} (returned : (findInDirectory c name).run d = .ok (r, d')) :
    r = d.find c name := by
  unfold findInDirectory at returned
  obtain ⟨loaded, d₁, load, rest⟩ := bind_returns returned
  have buffer := loadDirectoryCluster_returns quiet load
  subst buffer
  have fs : d₁.fs = d.fs :=
    Driver.fs_of_disks (loadDirectoryCluster_keeps inert_disks.steady _ _ _ _ load)
  obtain ⟨found, d₂, scanned, last⟩ := bind_returns rest
  cases last
  rw [scanDirectory_returns scanned, fs]
  rfl

/-- The component buffer never holds a slash. -/
theorem walkPath_no_slash : ∀ (path : List UInt8) (c : Nat) (component : List UInt8)
    {d d' : Driver} {c' : Nat} {rest : List UInt8}, slash ∉ component →
    (walkPath path c component).run d = .ok (some (c', rest), d') → slash ∉ rest
  | [], c, component, d, d', c', rest, free, returned => by
      cases returned
      exact free
  | ch :: path, c, component, d, d', c', rest, free, returned => by
      unfold walkPath at returned
      split at returned
      · split at returned
        · exact walkPath_no_slash path c [] List.not_mem_nil returned
        · obtain ⟨found, d₁, -, after⟩ := bind_returns returned
          cases found with
          | none => cases after
          | some e =>
              simp only at after
              split at after
              · exact walkPath_no_slash path _ [] List.not_mem_nil after
              · cases after
      · rename_i other
        refine walkPath_no_slash path c _ ?_ returned
        split
        · rw [List.mem_append, List.mem_singleton, not_or]
          exact ⟨free, Ne.symm other⟩
        · exact free

/-- The walk follows the components of a path that fits its buffer. -/
theorem walkPath_follows : ∀ (path : List UInt8) (c : Nat) (component : List UInt8)
    {d d' : Driver} {c' : Nat} {rest : List UInt8}, d.Quiet →
    component.length + path.length ≤ 255 →
    (walkPath path c component).run d = .ok (some (c', rest), d') →
    ∃ names, componentsFrom slash component path = names ++ (if rest = [] then [] else [rest]) ∧
      d.follow c names = some c'
  | [], c, component, d, d', c', rest, _, _, returned => by
      cases returned
      exact ⟨[], rfl, rfl⟩
  | ch :: path, c, component, d, d', c', rest, quiet, short, returned => by
      rw [List.length_cons] at short
      unfold walkPath at returned
      unfold componentsFrom
      by_cases separator : ch = slash
      · rw [if_pos separator] at returned
        rw [if_pos separator]
        by_cases empty : component = []
        · rw [if_pos empty] at returned
          rw [if_pos empty]
          exact walkPath_follows path c [] quiet (by simp only [List.length_nil]; omega) returned
        · rw [if_neg empty] at returned
          rw [if_neg empty]
          obtain ⟨found, d₁, searched, after⟩ := bind_returns returned
          have disks := findInDirectory_keeps inert_disks.steady _ _ _ _ _ searched
          have hit := findInDirectory_returns quiet searched
          cases found with
          | none => cases after
          | some e =>
              simp only at after
              split at after
              · rename_i directory
                obtain ⟨names, split, follows⟩ := walkPath_follows path _ []
                  (Driver.quiet_of_disks disks quiet) (by simp only [List.length_nil]; omega) after
                rw [Driver.follow_of_child (Driver.child_of_disks disks)] at follows
                refine ⟨component :: names, by rw [split, List.cons_append], ?_⟩
                have step : d.child c component = some e.firstCluster := by
                  rw [Driver.child, ← hit, Option.bind_some, if_pos directory]
                rw [Driver.follow_cons, step]
                exact follows
              · cases after
      · rw [if_neg separator, if_pos (by omega)] at returned
        rw [if_neg separator]
        refine walkPath_follows path c _ quiet ?_ returned
        rw [List.length_append, List.length_singleton]
        omega

/-- What a navigation that found an entry reports. -/
theorem navigatePath_entry {d d' : Driver} (quiet : d.Quiet) {path : List UInt8} {nav : Nav}
    {e : Dirent} (returned : (navigatePath path).run d = .ok (nav, d'))
    (entry : nav.entry = some e) :
    ∃ c name, nav.parentCluster = some c ∧ nav.filename = some name ∧ name ≠ [] ∧
      slash ∉ name ∧ d.find c name = some e ∧
      (path.length ≤ 255 → ∃ names, components slash path = names ++ [name] ∧
        d.follow (d.fs.startCluster path) names = some c) := by
  unfold navigatePath at returned
  obtain ⟨_, _, got, rest⟩ := bind_returns returned
  cases got
  rw [walkPath_skipSlash] at rest
  obtain ⟨reached, d₁, walked, rest⟩ := bind_returns rest
  have disks := walkPath_keeps inert_disks.steady _ _ _ _ _ _ walked
  cases reached with
  | none =>
      cases rest
      cases entry
  | some q =>
      obtain ⟨c, component⟩ := q
      have noSlash := walkPath_no_slash path _ [] List.not_mem_nil walked
      cases component with
      | nil =>
          cases rest
          cases entry
      | cons ch tail =>
          obtain ⟨found, d₂, searched, last⟩ := bind_returns rest
          have hit := findInDirectory_returns (Driver.quiet_of_disks disks quiet) searched
          rw [Driver.find_of_disks disks] at hit
          cases found with
          | none =>
              cases last
              cases entry
          | some e' =>
              cases last
              cases entry
              refine ⟨c, ch :: tail, rfl, rfl, by simp, noSlash, hit.symm, fun short => ?_⟩
              exact walkPath_follows path _ [] quiet (by simpa using short) walked

/-! ## The edits of the text -/

/-- The text ends in an ordinary name: not in a slash, and not in `.` or `..`. -/
def EndsOrdinary (text : List UInt8) : Prop :=
  ∃ front name, text = front ++ slash :: name ∧ name ≠ [] ∧ slash ∉ name ∧ name ≠ [dot] ∧
    name ≠ [dot, dot]

theorem charAt_append_right (front back : List UInt8) (i : Nat) :
    charAt (front ++ back) (front.length + i) = charAt back i := by
  simp only [charAt, List.getD_eq_getElem?_getD]
  rw [List.getElem?_append_right (by omega), Nat.add_sub_cancel_left]

/-- The search for the last slash goes back over a name to the slash before it. -/
theorem lastSlash_name {front name : List UInt8} (noSlash : slash ∉ name) :
    ∀ k, k ≤ name.length + 1 →
      lastSlash (front ++ slash :: name) (front.length + k) = front.length
  | 0, _ => by
      cases front with
      | nil => rfl
      | cons c front =>
          have here : charAt (c :: front ++ slash :: name) (front.length + 1) = slash := by
            have := charAt_append_right (c :: front) (slash :: name) 0
            exact this
          change lastSlash (c :: front ++ slash :: name) (front.length + 1) = _
          unfold lastSlash
          rw [if_pos here]
          rfl
  | k + 1, bound => by
      have other : charAt (front ++ slash :: name) (front.length + k + 1) ≠ slash := by
        rw [Nat.add_assoc, charAt_append_right]
        change charAt name k ≠ slash
        intro same
        by_cases inside : k < name.length
        · refine noSlash ?_
          rw [← same]
          simp only [charAt, List.getD_eq_getElem?_getD, List.getElem?_eq_getElem inside,
            Option.getD_some]
          exact List.getElem_mem inside
        · simp only [charAt, List.getD_eq_getElem?_getD,
            List.getElem?_eq_none (Nat.le_of_not_lt inside), Option.getD_none] at same
          exact absurd same (by decide)
      rw [← Nat.add_assoc]
      unfold lastSlash
      rw [if_neg other]
      exact lastSlash_name noSlash k (by omega)

/-- Going up from an ordinary name leaves the components before it. -/
theorem components_upPath {front name : List UInt8} (nonempty : name ≠ [])
    (noSlash : slash ∉ name) :
    components slash (upPath (front ++ slash :: name)) = components slash front := by
  have length : (front ++ slash :: name).length = front.length + (name.length + 1) := by simp
  have last : charAt (front ++ slash :: name) ((front ++ slash :: name).length - 1) ≠ slash := by
    have positive := List.length_pos_iff.mpr nonempty
    rw [length, show front.length + (name.length + 1) - 1 = front.length + name.length by omega,
      charAt_append_right]
    obtain ⟨n, size⟩ : ∃ n, name.length = n + 1 := ⟨name.length - 1, by omega⟩
    rw [size]
    change charAt name n ≠ slash
    intro same
    refine noSlash ?_
    rw [← same]
    simp only [charAt, List.getD_eq_getElem?_getD, List.getElem?_eq_getElem (show n < name.length by
      omega), Option.getD_some]
    exact List.getElem_mem _
  have stays : (if 1 < (front ++ slash :: name).length ∧
      charAt (front ++ slash :: name) ((front ++ slash :: name).length - 1) = slash then
      (front ++ slash :: name).length - 1 else (front ++ slash :: name).length) =
      front.length + (name.length + 1) := by
    rw [if_neg fun both => last both.2, length]
  unfold upPath
  simp only
  rw [stays, lastSlash_name noSlash _ (Nat.le_refl _)]
  cases front with
  | nil =>
      change components slash [slash] = _
      simp
  | cons c front => rw [if_neg (by simp), List.take_left]

/-- Appending a name adds a component, if the name fits the text. -/
theorem components_appendPath {text name : List UInt8} (nonempty : name ≠ [])
    (noSlash : slash ∉ name) (short : (appendPath text name).length < 255) :
    components slash (appendPath text name) = components slash text ++ [name] := by
  unfold appendPath at short ⊢
  simp only at short ⊢
  by_cases need : needsSlash text = true
  · rw [if_pos need] at short ⊢
    simp only [List.length_append, List.length_take, List.length_singleton] at short
    rw [List.take_of_length_le (by simp only [List.length_append, List.length_singleton]; omega),
      List.append_assoc, List.singleton_append, components_append_name noSlash nonempty]
  · rw [if_neg need] at short ⊢
    simp only [List.length_append, List.length_take] at short
    rw [List.take_of_length_le (by omega)]
    -- without a slash to add the text ends in one
    obtain ⟨front, rfl⟩ : ∃ front, text = front ++ [slash] := by
      rcases List.eq_nil_or_concat text with rfl | ⟨front, c, rfl⟩
      · exact absurd rfl need
      · refine ⟨front, ?_⟩
        rw [List.concat_eq_append]
        have last : charAt (front ++ [c]) front.length = c := by
          have := charAt_append_right front [c] 0
          exact this
        by_contra other
        have differs : c ≠ slash := fun same => other (by rw [same])
        refine need ?_
        unfold needsSlash
        rw [List.concat_eq_append]
        simp only [List.length_append, List.length_singleton, Nat.add_sub_cancel, last]
        by_cases single : front = []
        · subst single
          have first : charAt [c] 0 = c := rfl
          simp [first, differs]
        · have := List.length_pos_iff.mpr single
          rw [if_pos (.inl (by omega))]
          simpa using differs
    rw [List.append_assoc, List.singleton_append, components_append_name noSlash nonempty,
      components_append_sep, components_nil, List.append_nil]

/-! ## One step and a whole run -/

/-- What `fat32_chdir` leaves. -/
theorem fat32Chdir_moves {d d' : Driver} {path : CStr} {r : Int}
    (returned : (fat32Chdir path).run d = .ok (r, d')) :
    d'.ata.media = d.ata.media ∧ d'.ata.fault = d.ata.fault ∧
      (d'.fs = d.fs ∨ ∃ nav d₁ e name, (navigatePath path.1).run d = .ok (nav, d₁) ∧
        nav.entry = some e ∧ e.isDirectory = true ∧ nav.filename.getD [] = name ∧
        d'.fs = { d.fs with
          currentDirCluster := e.firstCluster
          currentPath := editPath d.fs.currentPath path.1 name }) := by
  unfold fat32Chdir at returned
  obtain ⟨_, _, got, rest⟩ := bind_returns returned
  cases got
  split at rest
  · obtain ⟨nav, d₁, navigated, rest⟩ := bind_returns rest
    have disks := navigatePath_keeps inert_disks.steady _ _ _ _ navigated
    have fs := Driver.fs_of_disks disks
    have fault : d₁.ata.fault = d.ata.fault := congrArg (fun x => x.2.2.1) disks
    have media : d₁.ata.media = d.ata.media := congrArg (fun x => x.2.2.2) disks
    cases entry : nav.entry with
    | none =>
        rw [entry] at rest
        cases rest
        exact ⟨media, fault, .inl fs⟩
    | some e =>
        rw [entry] at rest
        simp only at rest
        split at rest
        · rename_i directory
          obtain ⟨_, d₂, moved, rest⟩ := bind_returns rest
          obtain ⟨_, d₃, texted, last⟩ := bind_returns rest
          cases moved
          cases last
          have same := updatePath_returns texted
          subst same
          refine ⟨media, fault, .inr ⟨nav, d₁, e, _, navigated, entry, directory, rfl, ?_⟩⟩
          rw [← fs]
        · cases rest
          exact ⟨media, fault, .inl fs⟩
  · cases rest
    exact ⟨rfl, rfl, .inl rfl⟩

/-- The tree does not depend on the current directory. -/
theorem Driver.child_of_moved {d d' : Driver} {c : Nat} {text : List UInt8}
    (media : d'.ata.media = d.ata.media)
    (fs : d'.fs = { d.fs with currentDirCluster := c, currentPath := text }) :
    d'.child = d.child := by
  funext x name
  unfold child find listing directory Ata.stream
  rw [fs, media]
  rfl

theorem Tree.moved {d d' : Driver} (tree : Tree d) (child : d'.child = d.child)
    (root : d'.fs.rootDirCluster = d.fs.rootDirCluster) : Tree d' := by
  have follow := Driver.follow_of_child child
  refine ⟨?_, ?_, ?_⟩
  · rw [follow, child, root]
    exact tree.here
  · rw [follow, child, root]
    exact tree.parent
  · rw [child, root]
    exact tree.top

/-- The path keeps the text in step with the directory: it is absolute, or the components
before the last one lead from the current directory back to it, and for `..` the text ends in
an ordinary name or is the root. -/
def InStep (d : Driver) (path : CStr) : Prop :=
  isAbsolute path.1 = true ∨
    ∀ nav d' e, (navigatePath path.1).run d = .ok (nav, d') → nav.entry = some e →
      e.isDirectory = true → nav.parentCluster = some d.fs.currentDirCluster ∧
        (nav.filename = some [dot, dot] →
          EndsOrdinary d.fs.currentPath ∨ d.fs.currentPath = [slash])

/-- On a correct tree, the text names the current directory. -/
structure Follows (d : Driver) : Prop where
  quiet : d.Quiet
  tree : Tree d
  resolved : d.resolve d.fs.currentPath = some d.fs.currentDirCluster

/-- A relative step by one name. -/
theorem Follows.relative {d : Driver} (follows : Follows d) {name : List UInt8} {q : Nat}
    (nonempty : name ≠ []) (noSlash : slash ∉ name)
    (moved : d.child d.fs.currentDirCluster name = some q)
    (up : name = [dot, dot] → EndsOrdinary d.fs.currentPath ∨ d.fs.currentPath = [slash])
    {path : List UInt8} (relative : ¬ isAbsolute path = true)
    (short : (editPath d.fs.currentPath path name).length < 255) :
    d.resolve (editPath d.fs.currentPath path name) = some q := by
  have resolved := follows.resolved
  unfold Driver.resolve at resolved ⊢
  unfold editPath at short ⊢
  rw [if_neg relative] at short ⊢
  by_cases here : name = [dot]
  · rw [if_pos here, resolved]
    rw [here] at moved
    rw [follows.tree.here _ _ _ resolved moved]
  rw [if_neg here] at short ⊢
  by_cases above : name = [dot, dot]
  · rw [if_pos above]
    rw [above] at moved
    rcases up above with ⟨front, last, text, full, free, notDot, notDotdot⟩ | text
    · rw [text, components_append_name free full, Driver.follow_snoc] at resolved
      obtain ⟨c, front_c, last_c⟩ := Option.bind_eq_some_iff.mp resolved
      rw [text, components_upPath full free, front_c,
        follows.tree.parent _ _ _ _ _ front_c notDot notDotdot last_c moved]
    · rw [text] at resolved ⊢
      rw [components_sep_cons, components_nil] at resolved
      obtain rootHere := Option.some.inj resolved
      rw [← rootHere] at moved
      rw [follows.tree.top q moved]
      rfl
  · rw [if_neg above] at short ⊢
    rw [components_appendPath nonempty noSlash short, Driver.follow_snoc, resolved,
      Option.bind_some, moved]

/-- One call of `fat32_chdir`, successful or not. -/
theorem Follows.step {d d' : Driver} (follows : Follows d) {path : CStr} (inStep : InStep d path)
    {r : Int} (returned : (fat32Chdir path).run d = .ok (r, d'))
    (short : d'.fs.currentPath.length < 255) : Follows d' := by
  obtain ⟨media, fault, fs | ⟨nav, d₁, e, name, navigated, entry, directory, filename, fs⟩⟩ :=
    fat32Chdir_moves returned
  · have child : d'.child = d.child := Driver.child_of_moved media fs
    have root : d'.fs.rootDirCluster = d.fs.rootDirCluster := by rw [fs]
    refine ⟨fun n => by rw [fault]; exact follows.quiet n, follows.tree.moved child root, ?_⟩
    unfold Driver.resolve
    rw [Driver.follow_of_child child, fs]
    exact follows.resolved
  · have child : d'.child = d.child := Driver.child_of_moved media fs
    have root : d'.fs.rootDirCluster = d.fs.rootDirCluster := by rw [fs]
    refine ⟨fun n => by rw [fault]; exact follows.quiet n, follows.tree.moved child root, ?_⟩
    suffices there : d.resolve (editPath d.fs.currentPath path.1 name) = some e.firstCluster by
      unfold Driver.resolve at there ⊢
      rw [Driver.follow_of_child child, fs]
      exact there
    rw [fs] at short
    obtain ⟨c, name', parent, filename', nonempty, noSlash, found, walked⟩ :=
      navigatePath_entry follows.quiet navigated entry
    obtain rfl : name' = name := by rw [← filename, filename', Option.getD_some]
    have moved : d.child c name' = some e.firstCluster := by
      rw [Driver.child, found, Option.bind_some, if_pos directory]
    by_cases absolute : isAbsolute path.1 = true
    · have edited : editPath d.fs.currentPath path.1 name' = path.1.take 255 := if_pos absolute
      rw [edited] at short ⊢
      have fits : path.1.length ≤ 255 := by
        change (path.1.take 255).length < 255 at short
        rw [List.length_take] at short
        omega
      obtain ⟨names, split, reached⟩ := walked fits
      have start : d.fs.startCluster path.1 = d.fs.rootDirCluster := if_pos absolute
      rw [start] at reached
      unfold Driver.resolve
      rw [List.take_of_length_le fits, split, Driver.follow_snoc, reached, Option.bind_some, moved]
    · rcases inStep with absolute' | condition
      · exact absurd absolute' absolute
      obtain ⟨current, up⟩ := condition nav d₁ e navigated entry directory
      rw [parent] at current
      cases current
      refine follows.relative nonempty noSlash moved (fun above => up ?_) absolute short
      rw [filename', above]

/-- The states that calls of `fat32_chdir` lead to, as long as they keep the text in step and
it stays below the limit. -/
inductive ChdirRun (d₀ : Driver) : Driver → Prop
  | start : ChdirRun d₀ d₀
  | step {d d' : Driver} {path : CStr} {r : Int} (before : ChdirRun d₀ d)
      (inStep : InStep d path) (returned : (fat32Chdir path).run d = .ok (r, d'))
      (short : d'.fs.currentPath.length < 255) : ChdirRun d₀ d'

/-- After `fat32_mount` the text names the root directory, which is the current one. -/
theorem Follows.of_mount {d d' : Driver} (quiet : d.Quiet) {disk partition : Nat}
    {info : Option Partition} (mounted : (fat32Mount disk partition info).run d = .ok (0, d'))
    (tree : Tree d') : Follows d' := by
  unfold fat32Mount at mounted
  cases info with
  | none => cases mounted
  | some part =>
      simp only at mounted
      split at mounted
      · cases mounted
      rw [run_bind_of_ok (ataReadSectors_run quiet _ _ _ _)] at mounted
      simp only at mounted
      split at mounted
      · split at mounted
        · cases mounted
        · obtain ⟨_, _, stored, last⟩ := bind_returns mounted
          cases stored
          cases last
          exact ⟨quiet, tree, rfl⟩
      · cases mounted

/-- In every state reached from `fat32_mount` by such calls, over a tree with correct dot
entries, the text of the current path leads from the root directory to the current one. -/
theorem path_follows_cluster {d₀ d₁ d : Driver} (quiet : d₀.Quiet) {disk partition : Nat}
    {info : Option Partition} (mounted : (fat32Mount disk partition info).run d₀ = .ok (0, d₁))
    (tree : Tree d₁) (run : ChdirRun d₁ d) :
    d.resolve d.fs.currentPath = some d.fs.currentDirCluster := by
  have follows : Follows d := by
    induction run with
    | start => exact Follows.of_mount quiet mounted tree
    | step _ inStep returned short ih => exact ih.step inStep returned short
  exact follows.resolved

/-! ## A mounted tree -/

theorem sameName_iff : ∀ text name : List UInt8,
    sameName text name = true ↔ text.map upper = name.map upper
  | [], [] => by simp [sameName]
  | [], n :: name => by simp [sameName]
  | e :: text, [] => by simp [sameName]
  | e :: text, n :: name => by simp [sameName, sameName_iff text name]

/-- An entry that a search for a text of dots finds is not found under another name. -/
theorem eq_of_nameMatch_dots {e : Dirent} {name dots : List UInt8} (all : ∀ c, c ∈ dots → c = dot)
    (found : nameMatch e name = true) (dotted : nameMatch e dots = true) : name = dots := by
  have same := ((sameName_iff _ _).mp found).symm.trans ((sameName_iff _ _).mp dotted)
  apply List.ext_getElem
  · simpa using congrArg List.length same
  · intro k low high
    have here := congrArg (fun l => l[k]?) same
    simp only [List.getElem?_map, List.getElem?_eq_getElem low, List.getElem?_eq_getElem high,
      Option.map_some, Option.some.injEq] at here
    have isDot := all _ (List.getElem_mem high)
    rw [isDot] at here ⊢
    exact eq_of_upper_eq here (.inl (by decide))

/-- A test of the dot entries: `pairs` are the directories with their parents. -/
def treeCheck (d : Driver) (pairs : List (Nat × Nat)) : Bool :=
  pairs.contains (d.fs.rootDirCluster, d.fs.rootDirCluster) &&
  pairs.all fun pair => pairs.any (fun other => other.1 = pair.2) &&
    (d.listing pair.1).all fun e => !e.isDirectory || e.skipped || (
      (!nameMatch e [dot] || e.firstCluster = pair.1) &&
      (!nameMatch e [dot, dot] || e.firstCluster = pair.2) &&
      (nameMatch e [dot] || nameMatch e [dot, dot] || pairs.contains (e.firstCluster, pair.1)))

/-- What the test says about a subdirectory that a search finds. -/
theorem child_of_check {d : Driver} {pairs : List (Nat × Nat)}
    (passed : treeCheck d pairs = true) {c p q : Nat} {name : List UInt8}
    (known : (c, p) ∈ pairs) (found : d.child c name = some q) :
    (name = [dot] → q = c) ∧ (name = [dot, dot] → q = p) ∧
      (name ≠ [dot] → name ≠ [dot, dot] → (q, c) ∈ pairs) := by
  obtain ⟨e, search, last⟩ := Option.bind_eq_some_iff.mp found
  obtain ⟨⟨i, e'⟩, hit, rfl⟩ := Option.map_eq_some_iff.mp search
  obtain ⟨slot, -, visible, named, -⟩ := lookup_eq_some.mp hit
  simp only at last
  split at last
  · rename_i directory
    cases last
    have all := List.all_eq_true.mp (Bool.and_eq_true_iff.mp passed).2 _ known
    have entry := List.all_eq_true.mp (Bool.and_eq_true_iff.mp all).2 e'
      (List.mem_of_getElem? slot)
    simp only [directory, visible, Bool.not_true, Bool.false_or, Bool.and_eq_true, Bool.or_eq_true,
      Bool.not_eq_true', decide_eq_true_eq, List.contains_iff_mem] at entry
    obtain ⟨⟨here, above⟩, rest⟩ := entry
    refine ⟨?_, ?_, ?_⟩
    · rintro rfl
      rcases here with differs | same
      · rw [named] at differs
        cases differs
      · exact same
    · rintro rfl
      rcases above with differs | same
      · rw [named] at differs
        cases differs
      · exact same
    · intro notDot notDotdot
      rcases rest with (dotted | dotted) | known'
      · exact absurd (eq_of_nameMatch_dots (by simp) named dotted) notDot
      · exact absurd (eq_of_nameMatch_dots (by simp) named dotted) notDotdot
      · exact known'
  · cases last

theorem Tree.of_check {d : Driver} {pairs : List (Nat × Nat)} (passed : treeCheck d pairs = true) :
    Tree d := by
  have root : (d.fs.rootDirCluster, d.fs.rootDirCluster) ∈ pairs :=
    List.contains_iff_mem.mp (Bool.and_eq_true_iff.mp passed).1
  have parents : ∀ c p, (c, p) ∈ pairs → ∃ p', (p, p') ∈ pairs := by
    intro c p known
    have all := List.all_eq_true.mp (Bool.and_eq_true_iff.mp passed).2 _ known
    obtain ⟨⟨x, y⟩, member, same⟩ := List.any_eq_true.mp (Bool.and_eq_true_iff.mp all).1
    obtain rfl : x = p := of_decide_eq_true same
    exact ⟨y, member⟩
  have reached : ∀ names c p c', (c, p) ∈ pairs → d.follow c names = some c' →
      ∃ p', (c', p') ∈ pairs := by
    intro names
    induction names with
    | nil =>
        intro c p c' known there
        cases there
        exact ⟨p, known⟩
    | cons name names ih =>
        intro c p c' known there
        rw [Driver.follow_cons] at there
        obtain ⟨q, step, rest⟩ := Option.bind_eq_some_iff.mp there
        obtain ⟨here, above, below⟩ := child_of_check passed known step
        by_cases isDot : name = [dot]
        · rw [here isDot] at rest
          exact ih c p c' known rest
        by_cases isDotdot : name = [dot, dot]
        · obtain ⟨p', known'⟩ := parents c p known
          rw [above isDotdot] at rest
          exact ih p p' c' known' rest
        · exact ih q c c' (below isDot isDotdot) rest
  refine ⟨?_, ?_, ?_⟩
  · intro names c c' there step
    obtain ⟨p, known⟩ := reached names _ _ c root there
    exact (child_of_check passed known step).1 rfl
  · intro names c name q c' there notDot notDotdot down up
    obtain ⟨p, known⟩ := reached names _ _ c root there
    have known' := (child_of_check passed known down).2.2 notDot notDotdot
    exact (child_of_check passed known' up).2.1 rfl
  · intro c' up
    exact (child_of_check passed root up).2.1 rfl

/-- A boot sector for the formatted volume. -/
def bootSector : Buf :=
  let b : Buf := Buf.putLe (Buf.putLe (fun _ => 0) 11 2 512) 13 1 1
  let b := Buf.putLe (Buf.putLe (Buf.putLe b 14 2 1) 16 1 1) 32 4 8
  Buf.putLe (Buf.putLe (Buf.putLe b 36 4 1) 44 4 2) 510 2 0xAA55

/-- The formatted volume after `mkdir a` and `mkdir a/b`, not mounted, with a boot sector. -/
def unmounted : Driver :=
  let d := leaves (fat32Mkdir .blank (.ofBytes [0x61, slash, 0x62])) withA
  { d with
    fsMounted := false
    ata := { d.ata with
      media := fun channel drive l => if l = 0 then bootSector else d.ata.media channel drive l } }

/-- The same, mounted. -/
def mountedAB : Driver := leaves (fat32Mount 0 0 (some ⟨partTypeFat32, 0⟩)) unmounted

theorem mountedAB_tree : Tree mountedAB := by
  have passed : treeCheck mountedAB [(2, 2), (3, 2), (4, 3)] = true := by decide +kernel
  exact Tree.of_check passed

/-- `chdir a/b` after mount: the text is `/b`, which names no directory. -/
theorem chdir_loses_step : ∃ d, (fat32Mount 0 0 (some ⟨partTypeFat32, 0⟩)).run unmounted =
      .ok (0, mountedAB) ∧ Tree mountedAB ∧
    (fat32Chdir (.ofBytes [0x61, slash, 0x62])).run mountedAB = .ok (0, d) ∧
    d.fs.currentPath.length < 255 ∧ d.resolve d.fs.currentPath ≠ some d.fs.currentDirCluster := by
  have mounted : Runs.check (fat32Mount 0 0 (some ⟨partTypeFat32, 0⟩)) unmounted
      (fun r _ => r = 0) = true := by decide +kernel
  obtain ⟨_, ran, zero⟩ := leaves_of_check mounted
  obtain rfl := of_decide_eq_true zero
  have moved : Runs.check (fat32Chdir (.ofBytes [0x61, slash, 0x62])) mountedAB (fun r d =>
      r = 0 && d.fs.currentPath.length < 255 &&
        d.resolve d.fs.currentPath ≠ some d.fs.currentDirCluster) = true := by decide +kernel
  obtain ⟨_, d, ran', holds⟩ := Runs.of_check moved
  simp only [Bool.and_eq_true, decide_eq_true_eq] at holds
  obtain ⟨⟨rfl, short⟩, lost⟩ := holds
  exact ⟨d, ran, mountedAB_tree, ran', short, lost⟩

/-- `chdir /a/b` and `chdir ..` after mount lead to `/a`. -/
theorem chdir_keeps_step : ∃ d, ChdirRun mountedAB d ∧ d.fs.currentPath = [slash, 0x61] ∧
    d.resolve d.fs.currentPath = some d.fs.currentDirCluster := by
  have mounted : Runs.check (fat32Mount 0 0 (some ⟨partTypeFat32, 0⟩)) unmounted
      (fun r _ => r = 0) = true := by decide +kernel
  obtain ⟨_, ran, zero⟩ := leaves_of_check mounted
  obtain rfl := of_decide_eq_true zero
  have first : Runs.check (fat32Chdir (.ofBytes [slash, 0x61, slash, 0x62])) mountedAB
      (fun _ d => d.fs.currentPath = [slash, 0x61, slash, 0x62]) = true := by decide +kernel
  obtain ⟨r₁, ran₁, text₁⟩ := leaves_of_check first
  have text₁ := of_decide_eq_true text₁
  have second : Runs.check (fat32Chdir (.ofBytes [dot, dot]))
      (leaves (fat32Chdir (.ofBytes [slash, 0x61, slash, 0x62])) mountedAB)
      (fun _ d => d.fs.currentPath = [slash, 0x61]) = true := by decide +kernel
  obtain ⟨r₂, ran₂, text₂⟩ := leaves_of_check second
  have text₂ := of_decide_eq_true text₂
  have at_b : ChdirRun mountedAB (leaves (fat32Chdir (.ofBytes [slash, 0x61, slash, 0x62]))
      mountedAB) :=
    .step .start (.inl (by decide)) ran₁ (by rw [text₁]; decide)
  have inStep : InStep (leaves (fat32Chdir (.ofBytes [slash, 0x61, slash, 0x62])) mountedAB)
      (.ofBytes [dot, dot]) := by
    have navigated : Runs.check (navigatePath (CStr.ofBytes [dot, dot]).1)
        (leaves (fat32Chdir (.ofBytes [slash, 0x61, slash, 0x62])) mountedAB)
        (fun nav d => nav.parentCluster = some d.fs.currentDirCluster) = true := by decide +kernel
    refine .inr fun nav d' e ran entry directory => ⟨?_, fun _ => .inl ?_⟩
    · have same := of_decide_eq_true ((Runs.of_check navigated).of_returned ran)
      have fs := Driver.fs_of_disks (navigatePath_keeps inert_disks.steady _ _ _ _ ran)
      rw [same, fs]
    · exact ⟨[slash, 0x61], [0x62], text₁, by decide, by decide, by decide, by decide⟩
  have run := at_b.step inStep ran₂ (by rw [text₂]; decide)
  have quiet : unmounted.Quiet := by
    have made : Runs.check (fat32Mkdir .blank (.ofBytes [0x61, slash, 0x62])) withA
        (fun r _ => r = 0) = true := by decide +kernel
    obtain ⟨_, ranAB, zeroAB⟩ := leaves_of_check made
    obtain rfl := of_decide_eq_true zeroAB
    exact (withA_wellFormed.mkdir_keeps
      (HasParent.of_check (by decide +kernel)) ranAB).1.good.noFault
  exact ⟨_, run, text₂, path_follows_cluster quiet ran mountedAB_tree run⟩

end XosKernel.Fat32
