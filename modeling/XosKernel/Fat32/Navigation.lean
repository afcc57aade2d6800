/-
# Fat32.Navigation -- what `fat32_navigate_path` returns

With no failing transfer, navigation is a function of the disk: it follows the components that
a slash comes behind and looks the last one up (`Driver.navigated`).  The component buffer cuts
a name off after 255 bytes, which makes no difference, since no entry has so long a name.  The
walk has three ends, and each sets other outputs: an entry is missing on the way (none), the
path ends in a slash (the parent only), or there is a last component (parent and name).
-/
import XosKernel.Fat32.CurrentPath

namespace XosKernel.Fat32

open XosKernel.Theory

set_option autoImplicit false

theorem Driver.roomy_of_disks {d d' : Driver} (same : d'.disks = d.disks) (roomy : d.Roomy) :
    d'.Roomy := by
  unfold Driver.Roomy
  rw [Driver.fs_of_disks same]
  exact roomy

/-! ## Lookups -/

theorem length_formatName_le (e : Dirent) : (formatName e).length ≤ 12 := by
  have base : (trimField (e.name.1.take 8)).length ≤ 8 :=
    (List.takeWhile_sublist _).length_le.trans (List.length_take_le _ _)
  have ext : (trimField (e.name.1.drop 8)).length ≤ 3 := by
    refine (List.takeWhile_sublist _).length_le.trans ?_
    rw [List.length_drop, e.name.2]
  simp only [formatName]
  split
  · rw [List.length_append, List.length_cons]
    omega
  · omega

/-- No entry has a name of more than twelve bytes. -/
theorem nameMatch_long {e : Dirent} {name : List UInt8} (long : 12 < name.length) :
    nameMatch e name = false := by
  by_contra found
  have same := (sameName_iff _ _).mp (Bool.not_eq_false _ ▸ found)
  have lengths := congrArg List.length same
  rw [List.length_map, List.length_map] at lengths
  have text : ((formatName e).takeWhile (· ≠ 0)).length ≤ 12 :=
    (List.takeWhile_sublist _).length_le.trans (length_formatName_le e)
  omega

/-- Cutting a name off at the end of the component buffer does not change what it finds. -/
theorem Driver.find_take (d : Driver) (c : Nat) (name : List UInt8) :
    d.find c (name.take 255) = d.find c name := by
  by_cases short : name.length ≤ 255
  · rw [List.take_of_length_le short]
  · have same : ∀ e, nameMatch e (name.take 255) = nameMatch e name := by
      intro e
      rw [nameMatch_long (by rw [List.length_take]; omega), nameMatch_long (by omega)]
    simp only [Driver.find, same]

theorem loadDirectoryCluster_loads {d : Driver} (quiet : d.Quiet) (c : Nat) :
    Runs (loadDirectoryCluster c) d fun r d' =>
      r = some (d.directory c) ∧ d'.disks = d.disks := by
  unfold loadDirectoryCluster
  refine Runs.get_bind (Runs.step (ataReadSectors_run quiet _ _ _ _) ?_)
  rw [if_pos rfl]
  exact Runs.pure ⟨rfl, rfl⟩

/-- A load delivers the bytes of the cluster. -/
theorem Driver.directory_contents {d : Driver} (good : d.Good) {c : Nat}
    (range : d.vol.InRange c) {i : Nat} (inside : i < d.vol.clusterSize) :
    d.directory c i = d.vol.bytes c i := by
  obtain ⟨r, d₁, ran, is, -⟩ := loadDirectoryCluster_loads good.noFault c
  obtain ⟨b, same, contents, -⟩ := (loadDirectoryCluster_runs good range).of_returned ran
  rw [is, Option.some.injEq] at same
  rw [same]
  exact contents i inside

/-- What a load delivers of a live directory. -/
theorem Driver.listing_eq_slots {d : Driver} (good : d.Good) {c : Nat} (range : d.vol.InRange c) :
    d.listing c = d.vol.slots c :=
  entries_eq_slots good.geometry fun _ inside => Driver.directory_contents good range inside

theorem findInDirectory_finds {d : Driver} (quiet : d.Quiet) (roomy : d.Roomy) (c : Nat)
    (name : List UInt8) :
    Runs (findInDirectory c name) d fun r d' => r = d.find c name ∧ d'.disks = d.disks := by
  have ran : Runs (findInDirectory c name) d fun _ _ => True := by
    refine Runs.bind (loadDirectoryCluster_loads quiet c) ?_
    rintro _ d₁ ⟨rfl, disks⟩
    exact Runs.step (scanDirectory_run (Driver.roomy_of_disks disks roomy) _ _)
      (Runs.pure trivial)
  obtain ⟨r, d', returned, -⟩ := ran
  exact ⟨r, d', returned, findInDirectory_returns quiet returned,
    findInDirectory_keeps inert_disks.steady _ _ _ _ _ returned⟩

/-! ## The walk -/

theorem Driver.child_of_find {d : Driver} {c : Nat} {name : List UInt8} {e : Dirent}
    (found : d.find c name = some e) :
    d.child c name = if e.isDirectory then some e.firstCluster else none := by
  rw [Driver.child, found, Option.bind_some]

/-- The walk follows the components before the last slash and keeps the last one. -/
theorem walkPath_returns : ∀ (path : List UInt8) (c : Nat) (buffer : List UInt8) (d d' : Driver)
    (r : Option (Nat × List UInt8)), d.Quiet →
    (walkPath path c (buffer.take 255)).run d = .ok (r, d') →
    r = (d.follow c (splitFrom slash buffer path).1).map fun c' =>
      (c', (splitFrom slash buffer path).2.take 255)
  | [], c, buffer, d, d', r, _, returned => by
      cases returned
      rfl
  | ch :: path, c, buffer, d, d', r, quiet, returned => by
      unfold walkPath at returned
      unfold splitFrom
      by_cases separator : ch = slash
      · rw [if_pos separator] at returned ⊢
        by_cases empty : buffer = []
        · rw [if_pos (by rw [empty, List.take_nil])] at returned
          rw [if_pos empty]
          exact walkPath_returns path c [] d d' r quiet returned
        · have nonempty : buffer.take 255 ≠ [] := by
            simpa [List.take_eq_nil_iff] using empty
          rw [if_neg nonempty] at returned
          rw [if_neg empty]
          obtain ⟨found, d₁, searched, rest⟩ := bind_returns returned
          have disks := findInDirectory_keeps inert_disks.steady _ _ _ _ _ searched
          rw [findInDirectory_returns quiet searched, Driver.find_take] at rest
          cases found : d.find c buffer with
          | none =>
              rw [found] at rest
              cases rest
              simp [Driver.follow, Driver.child, found]
          | some e =>
              have child := Driver.child_of_find found
              rw [found] at rest
              simp only at rest
              by_cases directory : e.isDirectory = true
              · rw [if_pos directory] at rest child
                have again := walkPath_returns path e.firstCluster [] d₁ d' r
                  (Driver.quiet_of_disks disks quiet) rest
                rw [Driver.follow_of_child (Driver.child_of_disks disks)] at again
                have step : d.follow c (buffer :: (splitFrom slash [] path).1) =
                    d.follow e.firstCluster (splitFrom slash [] path).1 := by
                  rw [Driver.follow_cons, child]
                  rfl
                rw [again, step]
              · rw [if_neg directory] at rest child
                cases rest
                simp [Driver.follow, child]
      · rw [if_neg separator] at returned ⊢
        have next : (if (buffer.take 255).length < 255 then buffer.take 255 ++ [ch]
            else buffer.take 255) = (buffer ++ [ch]).take 255 := by
          rw [List.length_take]
          by_cases short : buffer.length < 255
          · rw [if_pos (by omega), List.take_of_length_le (by omega),
              List.take_of_length_le (by rw [List.length_append]; simp; omega)]
          · rw [if_neg (by omega), List.take_append_of_le_length (by omega)]
        rw [next] at returned
        exact walkPath_returns path c (buffer ++ [ch]) d d' r quiet returned

/-- With directory buffers that hold a cluster, the walk never leaves one. -/
theorem walkPath_ends : ∀ (path : List UInt8) (c : Nat) (component : List UInt8) (d : Driver),
    d.Quiet → d.Roomy → Runs (walkPath path c component) d fun _ _ => True
  | [], _, _, _, _, _ => Runs.pure trivial
  | ch :: path, c, component, d, quiet, roomy => by
      unfold walkPath
      split
      · split
        · exact walkPath_ends path c [] d quiet roomy
        · refine Runs.bind (findInDirectory_finds quiet roomy c component) ?_
          rintro found d₁ ⟨-, disks⟩
          cases found with
          | none => exact Runs.pure trivial
          | some e =>
              simp only
              split
              · exact walkPath_ends path e.firstCluster [] d₁ (Driver.quiet_of_disks disks quiet)
                  (Driver.roomy_of_disks disks roomy)
              · exact Runs.pure trivial
      · exact walkPath_ends path c _ d quiet roomy

/-! ## Navigation -/

/-- The directory in which the last component of a path is looked up. -/
def Driver.parentOf (d : Driver) (path : List UInt8) : Option Nat :=
  d.follow (d.fs.startCluster path) (frontComponents slash path)

/-- What `fat32_navigate_path` returns and sets. -/
def Driver.navigated (d : Driver) (path : List UInt8) : Nav :=
  match d.parentOf path with
  | none => ⟨-1, none, none, none⟩
  | some c =>
      let last := lastComponent slash path
      if last = [] then ⟨0, some c, none, none⟩
      else
        match d.find c last with
        | some e => ⟨1, some c, some e, some (last.take 255)⟩
        | none => ⟨0, some c, none, some (last.take 255)⟩

section Outputs

variable {d : Driver} {path : List UInt8}

theorem navigated_nowhere (nowhere : d.parentOf path = none) :
    d.navigated path = ⟨-1, none, none, none⟩ := by
  simp only [Driver.navigated, nowhere]

theorem navigated_parent {c : Nat} (parent : d.parentOf path = some c) :
    (d.navigated path).parentCluster = some c := by
  simp only [Driver.navigated, parent]
  split
  · rfl
  · cases d.find c (lastComponent slash path) with
    | none => rfl
    | some e => rfl

theorem navigated_no_last {c : Nat} (parent : d.parentOf path = some c)
    (last : lastComponent slash path = []) : d.navigated path = ⟨0, some c, none, none⟩ := by
  simp only [Driver.navigated, parent, last, if_true]

theorem navigated_entry {c : Nat} (parent : d.parentOf path = some c)
    (last : lastComponent slash path ≠ []) :
    (d.navigated path).entry = d.find c (lastComponent slash path) ∧
      (d.navigated path).filename = some ((lastComponent slash path).take 255) := by
  simp only [Driver.navigated, parent, if_neg last]
  cases d.find c (lastComponent slash path) with
  | none => exact ⟨rfl, rfl⟩
  | some e => exact ⟨rfl, rfl⟩

end Outputs

theorem navigatePath_returns {d d' : Driver} (quiet : d.Quiet) {path : List UInt8} {nav : Nav}
    (returned : (navigatePath path).run d = .ok (nav, d')) : nav = d.navigated path := by
  unfold navigatePath at returned
  obtain ⟨_, _, got, rest⟩ := bind_returns returned
  cases got
  rw [walkPath_skipSlash] at rest
  obtain ⟨reached, d₁, walked, rest⟩ := bind_returns rest
  have disks := walkPath_keeps inert_disks.steady _ _ _ _ _ _ walked
  rw [walkPath_returns path _ [] d d₁ reached quiet walked] at rest
  unfold Driver.navigated Driver.parentOf frontComponents lastComponent
  cases followed : d.follow (d.fs.startCluster path) (splitFrom slash [] path).1 with
  | none =>
      rw [followed] at rest
      cases rest
      rfl
  | some c =>
      rw [followed, Option.map_some] at rest
      simp only at rest ⊢
      generalize (splitFrom slash [] path).2 = last at rest ⊢
      cases last with
      | nil =>
          cases rest
          rfl
      | cons ch name =>
          simp only [List.take_succ_cons] at rest ⊢
          obtain ⟨found, d₂, searched, rest⟩ := bind_returns rest
          have same : d₁.find c (ch :: name.take 254) = d.find c (ch :: name) := by
            rw [Driver.find_of_disks disks]
            exact Driver.find_take d c (ch :: name)
          rw [findInDirectory_returns (Driver.quiet_of_disks disks quiet) searched, same] at rest
          rw [if_neg (List.cons_ne_nil _ _)]
          cases found : d.find c (ch :: name) with
          | none =>
              rw [found] at rest
              cases rest
              rfl
          | some e =>
              rw [found] at rest
              cases rest
              rfl

theorem navigatePath_navigates {d : Driver} (quiet : d.Quiet) (roomy : d.Roomy)
    (path : List UInt8) :
    Runs (navigatePath path) d fun nav d' => nav = d.navigated path ∧ d'.disks = d.disks := by
  have ran : Runs (navigatePath path) d fun _ _ => True := by
    unfold navigatePath
    have walked := walkPath_ends (skipSlash path) (d.fs.startCluster path) [] d quiet roomy
    refine Runs.get_bind ?_
    obtain ⟨reached, d₁, walking, -⟩ := walked
    have disks := walkPath_keeps inert_disks.steady _ _ _ _ _ _ walking
    refine Runs.step walking ?_
    cases reached with
    | none => exact Runs.pure trivial
    | some q =>
        obtain ⟨c, component⟩ := q
        cases component with
        | nil => exact Runs.pure trivial
        | cons ch name =>
            refine Runs.bind (findInDirectory_finds (Driver.quiet_of_disks disks quiet)
              (Driver.roomy_of_disks disks roomy) c (ch :: name)) ?_
            rintro found d₂ -
            cases found with
            | none => exact Runs.pure trivial
            | some e => exact Runs.pure trivial
  obtain ⟨nav, d', returned, -⟩ := ran
  exact ⟨nav, d', returned, navigatePath_returns quiet returned,
    navigatePath_keeps inert_disks.steady _ _ _ _ returned⟩

end XosKernel.Fat32
