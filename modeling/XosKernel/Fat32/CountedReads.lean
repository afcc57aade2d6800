/-
# Fat32.CountedReads -- the transfers before the table is read

Path navigation loads one directory for each component it gets to, so with which transfer the
first table sector is read follows from the path and the directories (`Driver.loads`).  Up to
there it is enough that the loads work; what fails later is left open.
-/
import XosKernel.Fat32.UnsetLocals

namespace XosKernel.Fat32

open XosKernel.Theory

set_option autoImplicit false

/-- The driver after `n` more transfers that only read. -/
def Driver.later (d : Driver) (n : Nat) : Driver :=
  { d with ata := { d.ata with transfers := d.ata.transfers + n } }

/-- The next `n` transfers work. -/
def Driver.Works (d : Driver) (n : Nat) : Prop := ∀ i < n, d.ata.fault (d.ata.transfers + i) = none

/-- How many directories are loaded to look up one name after the other. -/
def Driver.loadsFrom (d : Driver) : Nat → List (List UInt8) → Nat
  | _, [] => 0
  | c, name :: names =>
      1 + match d.child c name with
        | some c' => d.loadsFrom c' names
        | none => 0

/-- How many directories `fat32_navigate_path` loads. -/
def Driver.loads (d : Driver) (path : List UInt8) : Nat :=
  d.loadsFrom (d.fs.startCluster path) (components slash path)

section Later

variable {d : Driver} {m n : Nat}

theorem Driver.Works.of_le (works : d.Works n) (le : m ≤ n) : d.Works m :=
  fun i below => works i (by omega)

theorem Driver.Works.next (works : d.Works (n + 1)) : d.ata.fault d.ata.transfers = none :=
  works 0 (by omega)

theorem Driver.Works.later (works : d.Works (m + n)) : (d.later m).Works n := by
  intro i below
  have held := works (m + i) (by omega)
  rw [← Nat.add_assoc] at held
  exact held

theorem Driver.later_later : (d.later m).later n = d.later (m + n) := by
  unfold Driver.later
  simp only [Nat.add_assoc]

theorem Driver.follow_later : (d.later n).follow = d.follow := Driver.follow_of_child rfl

theorem Driver.loadsFrom_later : ∀ (names : List (List UInt8)) (c : Nat),
    (d.later n).loadsFrom c names = d.loadsFrom c names
  | [], _ => rfl
  | name :: names, c => by
      rw [Driver.loadsFrom, Driver.loadsFrom, show (d.later n).child = d.child from rfl]
      cases d.child c name with
      | none => rfl
      | some c' => exact congrArg (1 + ·) (Driver.loadsFrom_later names c')

end Later

/-! ## Navigation -/

theorem loadDirectoryCluster_reads {d : Driver} (works : d.Works 1) (c : Nat) :
    (loadDirectoryCluster c).run d = .ok (some (d.directory c), d.later 1) := by
  rw [loadDirectoryCluster_run, if_pos works.next]
  rfl

theorem findInDirectory_reads {d : Driver} (roomy : d.Roomy) (works : d.Works 1) (c : Nat)
    (name : List UInt8) :
    (findInDirectory c name).run d = .ok (d.find c name, d.later 1) := by
  unfold findInDirectory
  rw [run_bind_of_ok (loadDirectoryCluster_reads works c)]
  simp only
  rw [run_bind_of_ok (scanDirectory_run (d := d.later 1) roomy _ _)]
  rfl

/-- Without the last component the walk loads no more. -/
theorem Driver.loadsFrom_append {d : Driver} (l : List (List UInt8)) : ∀ (names : List (List UInt8))
    (c : Nat), d.loadsFrom c (names ++ l) = d.loadsFrom c names +
      match d.follow c names with
      | some c' => d.loadsFrom c' l
      | none => 0
  | [], c => by simp [Driver.loadsFrom, Driver.follow]
  | name :: names, c => by
      rw [List.cons_append, Driver.loadsFrom, Driver.loadsFrom, Driver.follow_cons]
      cases child : d.child c name with
      | none => rfl
      | some c' =>
          simp only [Option.bind_some]
          rw [Driver.loadsFrom_append l names c', Nat.add_assoc]

/-- The walk loads one directory for each component that it follows. -/
theorem walkPath_reads : ∀ (path : List UInt8) (c : Nat) (buffer : List UInt8) (d : Driver),
    d.Roomy → d.Works (d.loadsFrom c (splitFrom slash buffer path).1) →
    (walkPath path c (buffer.take 255)).run d =
      .ok ((d.follow c (splitFrom slash buffer path).1).map fun c' =>
        (c', (splitFrom slash buffer path).2.take 255),
        d.later (d.loadsFrom c (splitFrom slash buffer path).1))
  | [], _, _, _, _, _ => rfl
  | ch :: path, c, buffer, d, roomy, works => by
      unfold walkPath
      unfold splitFrom at works ⊢
      by_cases separator : ch = slash
      · rw [if_pos separator] at works ⊢
        rw [if_pos separator]
        by_cases empty : buffer = []
        · rw [if_pos empty] at works ⊢
          rw [if_pos (by rw [empty, List.take_nil])]
          exact walkPath_reads path c [] d roomy works
        · have nonempty : buffer.take 255 ≠ [] := by
            simpa [List.take_eq_nil_iff] using empty
          rw [if_neg empty] at works ⊢
          rw [if_neg nonempty]
          simp only [Driver.loadsFrom] at works ⊢
          rw [run_bind_of_ok (findInDirectory_reads roomy (works.of_le (by omega)) c _),
            Driver.find_take, Driver.follow_cons]
          cases found : d.find c buffer with
          | none =>
              have child : d.child c buffer = none := by simp [Driver.child, found]
              rw [child]
              rfl
          | some e =>
              have child := Driver.child_of_find found
              by_cases directory : e.isDirectory = true
              · rw [if_pos directory] at child
                rw [child] at works ⊢
                simp only [if_pos directory, Option.bind_some]
                have again := walkPath_reads path e.firstCluster [] (d.later 1) roomy
                  (by rw [Driver.loadsFrom_later]; exact works.later)
                rw [List.take_nil, Driver.loadsFrom_later, Driver.later_later,
                  Driver.follow_later] at again
                exact again
              · rw [if_neg directory] at child
                rw [child]
                simp only [if_neg directory]
                rfl
      · rw [if_neg separator] at works ⊢
        rw [if_neg separator]
        have next : (if (buffer.take 255).length < 255 then buffer.take 255 ++ [ch]
            else buffer.take 255) = (buffer ++ [ch]).take 255 := by
          rw [List.length_take]
          by_cases short : buffer.length < 255
          · rw [if_pos (by omega), List.take_of_length_le (by omega),
              List.take_of_length_le (by rw [List.length_append]; simp; omega)]
          · rw [if_neg (by omega), List.take_append_of_le_length (by omega)]
        rw [next]
        exact walkPath_reads path c (buffer ++ [ch]) d roomy works

/-- If the loads of a path work, navigation reads as many directories and changes nothing else. -/
theorem navigatePath_reads {d : Driver} (roomy : d.Roomy) {path : List UInt8}
    (works : d.Works (d.loads path)) :
    (navigatePath path).run d = .ok (d.navigated path, d.later (d.loads path)) := by
  have got : (get : FatM Driver).run d = .ok (d, d) := rfl
  unfold navigatePath
  rw [run_bind_of_ok got, walkPath_skipSlash]
  rw [Driver.loads, components_eq_split, Driver.loadsFrom_append] at works ⊢
  have walked := walkPath_reads path (d.fs.startCluster path) [] d roomy
    (works.of_le (Nat.le_add_right _ _))
  rw [List.take_nil] at walked
  rw [run_bind_of_ok walked]
  unfold Driver.navigated Driver.parentOf
  unfold frontComponents lastComponent at works ⊢
  cases followed : d.follow (d.fs.startCluster path) (splitFrom slash [] path).1 with
  | none => rfl
  | some c =>
      rw [followed] at works
      simp only [Option.map_some] at works ⊢
      generalize (splitFrom slash [] path).2 = last at works ⊢
      cases last with
      | nil => rfl
      | cons ch name =>
          simp only [if_neg (List.cons_ne_nil ch name), List.take_succ_cons] at works ⊢
          have one : ∀ names : List UInt8, d.loadsFrom c [names] = 1 := by
            intro names
            rw [Driver.loadsFrom]
            cases d.child c names with
            | none => rfl
            | some _ => rfl
          rw [one] at works ⊢
          have same : d.find c (ch :: name.take 254) = d.find c (ch :: name) :=
            Driver.find_take d c (ch :: name)
          have looked := findInDirectory_reads (d := d.later _) roomy works.later c
            (ch :: name.take 254)
          rw [run_bind_of_ok looked, Driver.later_later, show (d.later _).find = d.find from rfl,
            same]
          cases d.find c (ch :: name) with
          | none => rfl
          | some e => rfl

/-- The first half of `fat32_write` loads the parent directory once more. -/
theorem writeTarget_reads {d : Driver} (roomy : d.Roomy) (locals : Locals) {path : CStr}
    (works : d.Works (d.loads path.1 + 1)) :
    ∃ n, (writeTarget locals path).run d =
        .ok (d.writeSlot locals (d.navigated path.1), d.later n) ∧
      (d.writeSlot locals (d.navigated path.1) ≠ none → n = d.loads path.1 + 1) := by
  have navigated := navigatePath_reads roomy (works.of_le (Nat.le_succ _))
  unfold writeTarget Driver.writeSlot
  rw [run_bind_of_ok navigated]
  simp only
  by_cases failed : (d.navigated path.1).result < 0
  · rw [if_pos failed, if_pos (.inl failed)]
    exact ⟨_, rfl, fun no => absurd rfl no⟩
  rw [if_neg failed]
  by_cases empty : (d.navigated path.1).filename.getD locals.filename.1 = []
  · rw [if_pos empty, if_pos (.inr empty)]
    exact ⟨_, rfl, fun no => absurd rfl no⟩
  rw [if_neg empty, if_neg (not_or.mpr ⟨failed, empty⟩)]
  cases makeName83 ((d.navigated path.1).filename.getD locals.filename.1) with
  | none => exact ⟨_, rfl, fun no => absurd rfl no⟩
  | some name =>
      refine ⟨d.loads path.1 + 1, ?_, fun _ => rfl⟩
      simp only [Option.bind_some]
      rw [run_bind_of_ok (loadDirectoryCluster_reads works.later _), Driver.later_later]
      simp only
      have got : ∀ d, (get : FatM Driver).run d = .ok (d, d) := fun _ => rfl
      rw [run_bind_of_ok (got _)]
      have listing : (d.later (d.loads path.1 + 1)).fs.entries
          ((d.later (d.loads path.1)).directory
            ((d.navigated path.1).parentCluster.getD locals.parentCluster)) =
          d.listing ((d.navigated path.1).parentCluster.getD locals.parentCluster) := rfl
      rw [listing]
      unfold choose
      cases scanWrite name (d.listing
          ((d.navigated path.1).parentCluster.getD locals.parentCluster)) 0 none with
      | existing slot => rfl
      | free slot => rfl
      | exhausted free =>
          simp only
          rw [run_bind_of_ok (endOfEntries_run (d := d.later _) roomy)]
          cases free with
          | none => rfl
          | some slot => rfl

/-! ## Loads that fail -/

/-- A search through a directory loads it; when that fails, it finds nothing. -/
theorem findInDirectory_either {d d' : Driver} (roomy : d.Roomy) {c : Nat} {name : List UInt8}
    {r : Option Dirent} (returned : (findInDirectory c name).run d = .ok (r, d')) :
    d' = d.later 1 ∧ (r = none ∨ r = d.find c name) := by
  by_cases works : d.ata.fault d.ata.transfers = none
  · have one : d.Works 1 := by
      intro i below
      obtain rfl : i = 0 := by omega
      exact works
    rw [findInDirectory_reads roomy one] at returned
    cases returned
    exact ⟨rfl, .inr rfl⟩
  · unfold findInDirectory at returned
    rw [run_bind_of_ok (loadDirectoryCluster_run d c), if_neg works] at returned
    cases returned
    exact ⟨rfl, .inl rfl⟩

/-- A walk ends where the directories lead, unless a load on the way fails. -/
theorem walkPath_either : ∀ (path : List UInt8) (c : Nat) (buffer : List UInt8) (d d' : Driver)
    (r : Option (Nat × List UInt8)), d.Roomy →
    (walkPath path c (buffer.take 255)).run d = .ok (r, d') →
    r = none ∨ d' = d.later (d.loadsFrom c (splitFrom slash buffer path).1) ∧
      r = (d.follow c (splitFrom slash buffer path).1).map fun c' =>
        (c', (splitFrom slash buffer path).2.take 255)
  | [], _, _, _, _, _, _, returned => by
      cases returned
      exact .inr ⟨rfl, rfl⟩
  | ch :: path, c, buffer, d, d', r, roomy, returned => by
      unfold walkPath at returned
      unfold splitFrom
      by_cases separator : ch = slash
      · rw [if_pos separator] at returned ⊢
        by_cases empty : buffer = []
        · rw [if_pos empty]
          rw [if_pos (by rw [empty, List.take_nil])] at returned
          exact walkPath_either path c [] d d' r roomy returned
        · have nonempty : buffer.take 255 ≠ [] := by
            simpa [List.take_eq_nil_iff] using empty
          rw [if_neg empty]
          rw [if_neg nonempty] at returned
          obtain ⟨found, d₁, searched, rest⟩ := bind_returns returned
          obtain ⟨rfl, either⟩ := findInDirectory_either roomy searched
          cases found with
          | none =>
              cases rest
              exact .inl rfl
          | some e =>
              have shown := either.resolve_left (Option.some_ne_none e)
              rw [Driver.find_take] at shown
              have child := Driver.child_of_find shown.symm
              simp only at rest ⊢
              rw [Driver.loadsFrom, Driver.follow_cons]
              by_cases directory : e.isDirectory = true
              · rw [if_pos directory] at rest child
                rw [child]
                rw [← List.take_nil] at rest
                have again := walkPath_either path e.firstCluster [] (d.later 1) d' r roomy rest
                rw [Driver.loadsFrom_later, Driver.later_later, Driver.follow_later] at again
                exact again
              · rw [if_neg directory] at rest
                cases rest
                exact .inl rfl
      · rw [if_neg separator] at returned ⊢
        have next : (if (buffer.take 255).length < 255 then buffer.take 255 ++ [ch]
            else buffer.take 255) = (buffer ++ [ch]).take 255 := by
          rw [List.length_take]
          by_cases short : buffer.length < 255
          · rw [if_pos (by omega), List.take_of_length_le (by omega),
              List.take_of_length_le (by rw [List.length_append]; simp; omega)]
          · rw [if_neg (by omega), List.take_append_of_le_length (by omega)]
        rw [next] at returned
        exact walkPath_either path c (buffer ++ [ch]) d d' r roomy returned

/-- Navigation that a failing load did not stop before the last component: all but the entry is as
it would be without. -/
structure Navigated (d : Driver) (path : List UInt8) (nav : Nav) (d' : Driver) : Prop where
  state : d' = d.later (d.loads path)
  parent : nav.parentCluster = (d.navigated path).parentCluster
  filename : nav.filename = (d.navigated path).filename
  negative : nav.result < 0 ↔ (d.navigated path).result < 0

theorem navigatePath_either {d d' : Driver} (roomy : d.Roomy) {path : List UInt8} {nav : Nav}
    (returned : (navigatePath path).run d = .ok (nav, d')) :
    nav = ⟨-1, none, none, none⟩ ∨ Navigated d path nav d' := by
  unfold navigatePath at returned
  obtain ⟨_, _, got, rest⟩ := bind_returns returned
  cases got
  rw [walkPath_skipSlash] at rest
  obtain ⟨reached, d₁, walked, rest⟩ := bind_returns rest
  rw [← List.take_nil] at walked
  rcases walkPath_either path _ [] d d₁ reached roomy walked with rfl | ⟨rfl, rfl⟩
  · cases rest
    exact .inl rfl
  have counted := d.loadsFrom_append [(splitFrom slash [] path).2] (splitFrom slash [] path).1
    (d.fs.startCluster path)
  cases followed : d.follow (d.fs.startCluster path) (splitFrom slash [] path).1 with
  | none =>
      rw [followed] at rest
      cases rest
      exact .inl rfl
  | some c =>
      rw [followed] at rest counted
      have parent : d.parentOf path = some c := followed
      have loads : components slash path = (splitFrom slash [] path).1 ++
          if (splitFrom slash [] path).2 = [] then [] else [(splitFrom slash [] path).2] :=
        components_eq_split path
      have file : lastComponent slash path = (splitFrom slash [] path).2 := rfl
      simp only [Option.map_some] at rest
      cases last : (splitFrom slash [] path).2 with
      | nil =>
          rw [last] at rest loads file
          cases rest
          refine .inr ⟨?_, ?_, ?_, ?_⟩
          · rw [Driver.loads, loads]
            simp
          · rw [navigated_no_last parent file]
          · rw [navigated_no_last parent file]
          · rw [navigated_no_last parent file]
      | cons ch name =>
          have given : lastComponent slash path ≠ [] := by
            rw [file, last]
            exact List.cons_ne_nil ch name
          obtain ⟨-, filename⟩ := navigated_entry parent given
          rw [file] at filename
          rw [last] at rest loads filename counted
          have one : d.loadsFrom c [ch :: name] = 1 := by
            rw [Driver.loadsFrom]
            cases d.child c (ch :: name) with
            | none => rfl
            | some _ => rfl
          simp only [List.take_succ_cons] at rest
          obtain ⟨found, d₂, searched, rest⟩ := bind_returns rest
          obtain ⟨rfl, -⟩ := findInDirectory_either (d := d.later _) roomy searched
          have state : (d.later (d.loadsFrom (d.fs.startCluster path)
              (splitFrom slash [] path).1)).later 1 = d.later (d.loads path) := by
            rw [Driver.later_later, Driver.loads, loads]
            simp only [List.cons_ne_nil, if_false]
            rw [counted]
            simp only [one]
          have positive : ¬ (d.navigated path).result < 0 := by
            simp only [Driver.navigated, parent, if_neg given]
            cases d.find c (lastComponent slash path) with
            | none => exact (by decide : ¬ (0 : Int) < 0)
            | some e => exact (by decide : ¬ (1 : Int) < 0)
          cases found with
          | none =>
              cases rest
              exact .inr ⟨state, (navigated_parent parent).symm, filename.symm,
                iff_of_false (by decide : ¬ (0 : Int) < 0) positive⟩
          | some e =>
              cases rest
              exact .inr ⟨state, (navigated_parent parent).symm, filename.symm,
                iff_of_false (by decide : ¬ (1 : Int) < 0) positive⟩

/-- Where the navigation ended is all that the choice of the entry depends on. -/
theorem Driver.writeSlot_congr {d : Driver} {locals : Locals} {nav nav' : Nav}
    (parent : nav.parentCluster = nav'.parentCluster) (filename : nav.filename = nav'.filename)
    (negative : nav.result < 0 ↔ nav'.result < 0) :
    d.writeSlot locals nav = d.writeSlot locals nav' := by
  unfold Driver.writeSlot
  rw [parent, filename]
  simp only [negative]

/-- Whatever fails, the first half of `fat32_write` decides on no other entry than without. -/
theorem writeTarget_either {d d' : Driver} (roomy : d.Roomy) {locals : Locals} {path : CStr}
    {t : WriteTarget} (returned : (writeTarget locals path).run d = .ok (some t, d')) :
    d.writeSlot locals (d.navigated path.1) = some t ∧ d' = d.later (d.loads path.1 + 1) := by
  unfold writeTarget at returned
  obtain ⟨nav, d₁, navigated, rest⟩ := bind_returns returned
  by_cases failed : nav.result < 0
  · rw [if_pos failed] at rest
    cases rest
  obtain ⟨rfl, parent, filename, negative⟩ := (navigatePath_either roomy navigated).resolve_left
    fun stopped => failed (by rw [stopped]; decide)
  rw [← Driver.writeSlot_congr parent filename negative]
  unfold Driver.writeSlot
  rw [if_neg failed] at rest
  simp only at rest ⊢
  by_cases empty : nav.filename.getD locals.filename.1 = []
  · rw [if_pos empty] at rest
    cases rest
  rw [if_neg empty] at rest
  rw [if_neg (not_or.mpr ⟨failed, empty⟩)]
  cases made : makeName83 (nav.filename.getD locals.filename.1) with
  | none =>
      rw [made] at rest
      cases rest
  | some name83 =>
      rw [made] at rest
      simp only at rest
      rw [run_bind_of_ok (loadDirectoryCluster_run _ _)] at rest
      split at rest
      · cases rest
      · next buffer loaded =>
        split at loaded
        · cases loaded
          have got : ∀ d, (get : FatM Driver).run d = .ok (d, d) := fun _ => rfl
          rw [run_bind_of_ok (got _)] at rest
          rw [Option.bind_some]
          have listing : (d.later (d.loads path.1)).fs.entries
              ((d.later (d.loads path.1)).directory (nav.parentCluster.getD locals.parentCluster)) =
              d.listing (nav.parentCluster.getD locals.parentCluster) := rfl
          simp only at rest
          rw [listing] at rest
          unfold choose
          cases scanned : scanWrite name83
              (d.listing (nav.parentCluster.getD locals.parentCluster)) 0 none with
          | existing slot =>
              rw [scanned] at rest
              cases rest
              exact ⟨rfl, rfl⟩
          | free slot =>
              rw [scanned] at rest
              cases rest
              exact ⟨rfl, rfl⟩
          | exhausted slot =>
              rw [scanned] at rest
              simp only at rest
              obtain ⟨_, d₂, ended, rest⟩ := bind_returns rest
              have ends := endOfEntries_run (d := (d.later (d.loads path.1)).later 1) roomy
              cases ends.symm.trans ended
              obtain ⟨is, state⟩ := Prod.mk.inj (Except.ok.inj rest)
              refine ⟨?_, state.symm⟩
              rw [← is]
              cases slot <;> rfl
        · cases loaded

end XosKernel.Fat32
