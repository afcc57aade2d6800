/-
# Fat32.Resolution -- how write, open and delete resolve a path, in every state

No well-formed volume is assumed here, only that no transfer fails.  A loaded directory is
then a function of the drives (`Driver.listing`), and the three resolvers are searches in
such listings: write follows path navigation and scans with `choose`, open and delete look
up one 8.3 name (`writeTarget_returns`, `openEntry_returns`, `deleteEntry_returns`).  The two
kinds of scan agree but for entries behind the end marker (`Stale`).
-/
import XosKernel.Fat32.Inert
import XosKernel.Fat32.NameSpec
import XosKernel.Fat32.WriteSpec

namespace XosKernel.Fat32

open XosKernel.Theory

set_option autoImplicit false

/-! ## Reading -/

/-- No transfer fails. -/
def Driver.Quiet (d : Driver) : Prop := ∀ n, d.ata.fault n = none

/-- What reading depends on. -/
def Driver.disks (d : Driver) :
    Fs × Bool × (Nat → Option Nat) × (Channel → DriveSelect → Nat → Buf) :=
  (d.fs, d.fsMounted, d.ata.fault, d.ata.media)

theorem inert_disks : ReadInert Driver.disks :=
  ⟨fun _ _ => rfl, fun _ _ => rfl, fun _ _ => rfl⟩

/-- What `fat32_load_directory_cluster` puts into its buffer. -/
def Driver.directory (d : Driver) (c : Nat) : Buf :=
  Buf.blit (fun _ => 0) 0 (d.fs.dirSectors * 512) (d.ata.stream (diskToAta d.fs.disk).1
    (diskToAta d.fs.disk).2 (d.fs.clusterToLba c))

/-- The entries of a directory, as the scans see them. -/
def Driver.listing (d : Driver) (c : Nat) : List Dirent := d.fs.entries (d.directory c)

section Disks

variable {d d' : Driver} (same : d'.disks = d.disks)
include same

theorem Driver.fs_of_disks : d'.fs = d.fs := congrArg (fun x => x.1) same

theorem Driver.quiet_of_disks (quiet : d.Quiet) : d'.Quiet := by
  have fault : d'.ata.fault = d.ata.fault := congrArg (fun x => x.2.2.1) same
  intro n
  rw [fault]
  exact quiet n

theorem Driver.directory_of_disks (c : Nat) : d'.directory c = d.directory c := by
  have media : d'.ata.media = d.ata.media := congrArg (fun x => x.2.2.2) same
  unfold directory Ata.stream
  rw [Driver.fs_of_disks same, media]

theorem Driver.listing_of_disks (c : Nat) : d'.listing c = d.listing c := by
  unfold listing
  rw [Driver.fs_of_disks same, Driver.directory_of_disks same]

end Disks

/-- The scans read only what a load delivers. -/
theorem Fs.entries_congr {fs : Fs} {b b' : Buf}
    (same : ∀ i, i < fs.dirSectors * 512 → b i = b' i) : fs.entries b = fs.entries b' := by
  apply List.map_congr_left
  intro i member
  rw [List.mem_range] at member
  apply Dirent.load_congr
  intro k hk
  apply same
  unfold Fs.maxEntries at member
  unfold Fs.dirSectors
  by_cases large : dirBufferSize < fs.sectorsPerCluster * 512
  · rw [if_pos large]
    simp only [direntSize, dirBufferSize] at member hk ⊢
    omega
  · rw [if_neg large]
    simp only [direntSize, dirBufferSize] at member hk ⊢
    omega

/-- A load delivers the whole directory, unless its transfer fails. -/
theorem loadDirectoryCluster_run (d : Driver) (c : Nat) : (loadDirectoryCluster c).run d =
    .ok (if d.ata.fault d.ata.transfers = none then some (d.directory c) else none,
      { d with ata := { d.ata with transfers := d.ata.transfers + 1 } }) := by
  unfold loadDirectoryCluster
  have start : (get : FatM Driver).run d = .ok (d, d) := rfl
  refine (run_bind_of_ok start).trans ?_
  cases fault : d.ata.fault d.ata.transfers with
  | none =>
      have read : ∀ b, (ataReadSectors d.fs.disk (d.fs.clusterToLba c) d.fs.dirSectors b).run d =
          .ok (((d.fs.dirSectors : Int), b.blit 0 (d.fs.dirSectors * 512)
            (d.ata.stream (diskToAta d.fs.disk).1 (diskToAta d.fs.disk).2 (d.fs.clusterToLba c))),
            { d with ata := { d.ata with transfers := d.ata.transfers + 1 } }) := by
        intro b
        change Except.ok ((_, _), _) = _
        simp only [Ata.readSectors, fault]
        rfl
      rw [run_bind_of_ok (read _), if_pos rfl, if_pos rfl]
      rfl
  | some k =>
      have read : ∀ b, ∃ b', (ataReadSectors d.fs.disk (d.fs.clusterToLba c) d.fs.dirSectors
          b).run d = .ok ((-1, b'),
            { d with ata := { d.ata with transfers := d.ata.transfers + 1 } }) := by
        intro b
        refine ⟨b.blit 0 (min k (d.fs.dirSectors - 1) * 512) (d.ata.stream
          (diskToAta d.fs.disk).1 (diskToAta d.fs.disk).2 (d.fs.clusterToLba c)), ?_⟩
        change Except.ok ((_, _), _) = _
        simp only [Ata.readSectors, fault]
        rfl
      obtain ⟨b', read⟩ := read (fun _ => 0)
      have failed : ¬ (-1 : Int) = d.fs.dirSectors := by omega
      rw [run_bind_of_ok read, if_neg failed, if_neg (Option.some_ne_none k)]
      rfl

theorem loadDirectoryCluster_returns {d d' : Driver} (quiet : d.Quiet) {c : Nat} {r : Option Buf}
    (returned : (loadDirectoryCluster c).run d = .ok (r, d')) : r = some (d.directory c) := by
  rw [loadDirectoryCluster_run, if_pos (quiet _)] at returned
  cases returned
  rfl

/-- A search through a directory sees its listing, unless its transfer fails. -/
theorem loadDirectoryCluster_some {d d' : Driver} {c : Nat} {b : Buf}
    (returned : (loadDirectoryCluster c).run d = .ok (some b, d')) :
    b = d.directory c ∧ d.ata.fault d.ata.transfers = none := by
  rw [loadDirectoryCluster_run] at returned
  by_cases fault : d.ata.fault d.ata.transfers = none
  · rw [if_pos fault] at returned
    cases returned
    exact ⟨rfl, fault⟩
  · rw [if_neg fault] at returned
    cases returned

theorem scanDirectory_returns {d d' : Driver} {test : Dirent → Bool} {b : Buf}
    {r : Option (Nat × Dirent)} (returned : (scanDirectory test b).run d = .ok (r, d')) :
    r = lookup test (d.fs.entries b) := by
  unfold scanDirectory at returned
  obtain ⟨_, _, got, rest⟩ := bind_returns returned
  cases got
  unfold lookup
  cases scanned : scanLive test (d.fs.entries b) 0 with
  | found slot e =>
      rw [scanned] at rest
      cases rest
      rfl
  | ended =>
      rw [scanned] at rest
      cases rest
      rfl
  | exhausted =>
      rw [scanned] at rest
      obtain ⟨_, _, -, last⟩ := bind_returns rest
      cases last
      rfl

/-- A search that finds an entry returns it. -/
theorem scanDirectory_found {d : Driver} {test : Dirent → Bool} {b : Buf} {hit : Nat × Dirent}
    (found : lookup test (d.fs.entries b) = some hit) :
    (scanDirectory test b).run d = .ok (some hit, d) := by
  unfold lookup at found
  unfold scanDirectory
  have start : (get : FatM Driver).run d = .ok (d, d) := rfl
  refine (run_bind_of_ok start).trans ?_
  cases scanned : scanLive test (d.fs.entries b) 0 with
  | found slot e =>
      rw [scanned] at found
      cases found
      rfl
  | ended =>
      rw [scanned] at found
      cases found
  | exhausted =>
      rw [scanned] at found
      cases found

/-! ## The three resolvers -/

/-- The slot `fat32_write` decides on, given where the navigation of its path ended. -/
def Driver.writeSlot (d : Driver) (locals : Locals) (nav : Nav) : Option WriteTarget :=
  let parent := nav.parentCluster.getD locals.parentCluster
  let name := nav.filename.getD locals.filename.1
  if nav.result < 0 ∨ name = [] then none
  else (makeName83 name).bind fun name83 =>
    (choose name83 (d.listing parent)).map fun s =>
      ⟨parent, d.directory parent, name83, s.1, s.2⟩

/-- What `fat32_write` decides on when its search returns. -/
theorem writeTarget_returns {d d' : Driver} (quiet : d.Quiet) {locals : Locals} {path : CStr}
    {w : Option WriteTarget} (returned : (writeTarget locals path).run d = .ok (w, d')) :
    ∃ nav d₁, (navigatePath path.1).run d = .ok (nav, d₁) ∧ w = d.writeSlot locals nav := by
  unfold writeTarget at returned
  obtain ⟨nav, d₁, navigated, rest⟩ := bind_returns returned
  refine ⟨nav, d₁, navigated, ?_⟩
  have same := navigatePath_keeps inert_disks.steady _ _ _ _ navigated
  unfold Driver.writeSlot
  by_cases failed : nav.result < 0
  · rw [if_pos failed] at rest
    cases rest
    simp only [if_pos (Or.inl failed)]
  rw [if_neg failed] at rest
  simp only at rest ⊢
  by_cases empty : nav.filename.getD locals.filename.1 = []
  · rw [if_pos empty] at rest
    cases rest
    rw [if_pos (.inr empty)]
  rw [if_neg empty] at rest
  rw [if_neg (by rintro (low | nil) <;> contradiction)]
  cases made : makeName83 (nav.filename.getD locals.filename.1) with
  | none =>
      rw [made] at rest
      cases rest
      rfl
  | some name83 =>
      rw [made] at rest
      obtain ⟨loaded, d₂, load, rest⟩ := bind_returns rest
      have buffer := loadDirectoryCluster_returns (Driver.quiet_of_disks same quiet) load
      rw [Driver.directory_of_disks same] at buffer
      subst buffer
      have fs : d₂.fs = d.fs :=
        Driver.fs_of_disks ((loadDirectoryCluster_keeps inert_disks.steady _ _ _ _ load).trans same)
      obtain ⟨_, _, got, rest⟩ := bind_returns rest
      cases got
      rw [fs] at rest
      rw [Option.bind_some]
      unfold choose Driver.listing
      cases scanned : scanWrite name83 (d.fs.entries
          (d.directory (nav.parentCluster.getD locals.parentCluster))) 0 none with
      | existing slot =>
          rw [scanned] at rest
          cases rest
          rfl
      | free slot =>
          rw [scanned] at rest
          cases rest
          rfl
      | exhausted slot =>
          rw [scanned] at rest
          obtain ⟨_, _, -, last⟩ := bind_returns rest
          cases last
          cases slot <;> rfl

/-- What `fat32_open` finds in a listing. -/
def Driver.openSlot (d : Driver) (path : List UInt8) : Option (Nat × Nat × Dirent) :=
  (makeName83 (skipSlash path)).bind fun name =>
    (lookup (fun e => e.name = name) (d.listing (d.fs.openCluster path))).bind fun hit =>
      if hit.2.isDirectory then none else some (d.fs.openCluster path, hit.1, hit.2)

theorem openEntry_returns {d d' : Driver} (quiet : d.Quiet) {path : CStr}
    {r : Option (Nat × Nat × Dirent)} (returned : (openEntry path).run d = .ok (r, d')) :
    r = d.openSlot path.1 := by
  unfold openEntry at returned
  obtain ⟨_, _, got, rest⟩ := bind_returns returned
  cases got
  obtain ⟨loaded, d₁, load, rest⟩ := bind_returns rest
  have buffer := loadDirectoryCluster_returns quiet load
  subst buffer
  have fs : d₁.fs = d.fs :=
    Driver.fs_of_disks (loadDirectoryCluster_keeps inert_disks.steady _ _ _ _ load)
  unfold Driver.openSlot
  cases made : makeName83 (skipSlash path.1) with
  | none =>
      rw [made] at rest
      cases rest
      rfl
  | some name =>
      rw [made] at rest
      obtain ⟨hit, d₂, scanned, last⟩ := bind_returns rest
      have found := scanDirectory_returns scanned
      rw [fs] at found
      rw [Option.bind_some, show d.listing (d.fs.openCluster path.1) =
        d.fs.entries (d.directory (d.fs.openCluster path.1)) from rfl, ← found]
      cases hit with
      | none =>
          cases last
          rfl
      | some q =>
          obtain ⟨slot, e⟩ := q
          cases last
          rfl

/-- `fat32_open` returns the handle of what it finds. -/
theorem fat32Open_found {d : Driver} (quiet : d.Quiet) (mounted : d.fsMounted = true) {path : CStr}
    {c i : Nat} {e : Dirent} (found : d.openSlot path.1 = some (c, i, e)) :
    ∃ d₁, (openEntry path).run d = .ok (some (c, i, e), d₁) ∧
      (fat32Open path).run d = .ok (true, { d₁ with openFile := d.fs.handle e }) := by
  obtain ⟨name, made, rest⟩ := Option.bind_eq_some_iff.mp found
  obtain ⟨⟨slot, e'⟩, hit, last⟩ := Option.bind_eq_some_iff.mp rest
  simp only at last
  split at last
  · cases last
  rename_i file
  cases last
  have start : (get : FatM Driver).run d = .ok (d, d) := rfl
  have load : (loadDirectoryCluster (d.fs.openCluster path.1)).run d =
      .ok (some (d.directory (d.fs.openCluster path.1)),
        { d with ata := { d.ata with transfers := d.ata.transfers + 1 } }) := by
    unfold loadDirectoryCluster
    refine (run_bind_of_ok start).trans ?_
    rw [run_bind_of_ok (ataReadSectors_run quiet _ _ _ _), if_pos rfl]
    rfl
  have scanned : (scanDirectory (fun e => e.name = name)
      (d.directory (d.fs.openCluster path.1))).run
        { d with ata := { d.ata with transfers := d.ata.transfers + 1 } } =
      .ok (some (i, e), { d with ata := { d.ata with transfers := d.ata.transfers + 1 } }) :=
    scanDirectory_found hit
  have ran : (openEntry path).run d = .ok (some (d.fs.openCluster path.1, i, e),
      { d with ata := { d.ata with transfers := d.ata.transfers + 1 } }) := by
    unfold openEntry
    refine (run_bind_of_ok start).trans ?_
    rw [run_bind_of_ok load]
    simp only [made]
    refine (run_bind_of_ok scanned).trans ?_
    simp only [if_neg file]
    rfl
  refine ⟨_, ran, ?_⟩
  unfold fat32Open
  refine (run_bind_of_ok start).trans ?_
  rw [if_pos mounted, run_bind_of_ok ran]
  rfl

/-- What `fat32_delete` finds in the listing of the root directory. -/
theorem deleteEntry_returns {d d' : Driver} (quiet : d.Quiet) {path : CStr}
    {r : Option (Nat × Dirent)} (returned : (deleteEntry path).run d = .ok (r, d')) :
    r = (makeName83 (skipSlash path.1)).bind fun name =>
      lookup (fun e => e.name = name) (d.listing d.fs.rootDirCluster) := by
  unfold deleteEntry at returned
  obtain ⟨ok, d₁, loaded, rest⟩ := bind_returns returned
  unfold loadRootDirectory at loaded
  obtain ⟨_, _, got, loaded⟩ := bind_returns loaded
  cases got
  rw [run_bind_of_ok (ataReadSectors_run quiet _ _ _ _)] at loaded
  obtain ⟨_, _, stored, last⟩ := bind_returns loaded
  cases stored
  cases last
  simp only [decide_true, if_true] at rest
  cases made : makeName83 (skipSlash path.1) with
  | none =>
      rw [made] at rest
      cases rest
      rfl
  | some name =>
      rw [made] at rest
      obtain ⟨_, _, got, rest⟩ := bind_returns rest
      cases got
      rw [scanDirectory_returns rest, Option.bind_some]
      -- the static buffer and a fresh one agree on what was loaded
      refine congrArg (lookup _) (Fs.entries_congr fun i hi => ?_)
      change Buf.blit d.rootDirBuffer 0 (d.fs.dirSectors * 512) _ i = d.directory _ i
      have inside : i < 0 + d.fs.dirSectors * 512 := by
        rw [Nat.zero_add]
        exact hi
      unfold Driver.directory
      rw [Buf.blit_of_inside (Nat.zero_le _) inside, Buf.blit_of_inside (Nat.zero_le _) inside]

/-- The slot of the root directory that `fat32_delete` finds. -/
def Driver.deleteSlot (d : Driver) (path : List UInt8) : Option (Nat × Dirent) :=
  (makeName83 (skipSlash path)).bind fun name =>
    lookup (fun e => e.name = name) (d.listing d.fs.rootDirCluster)

/-- The search of `fat32_delete` writes no drive. -/
theorem deleteEntry_keeps_disks (path : CStr) : Keeps Driver.disks (deleteEntry path) := by
  refine Keeps.bind (Keeps.get_bind fun d =>
    Keeps.bind (ataReadSectors_keeps inert_disks.steady _ _ _ _) fun _ =>
      Keeps.bind (Keeps.modify fun _ => rfl) fun _ => Keeps.pure _) fun ok => ?_
  refine Keeps.ite ?_ (Keeps.pure _)
  cases makeName83 (skipSlash path.1) with
  | none => exact Keeps.pure _
  | some name => exact Keeps.get_bind fun d => scanDirectory_keeps _ _

/-! ## Paths of one name -/

/-- A path of one component, after at most two slashes. -/
structure OneName (path name : List UInt8) : Prop where
  text : skipSlash (skipSlash path) = name
  nonempty : name ≠ []
  noSlash : slash ∉ name
  short : name.length ≤ 255

/-- A name that packs into 8.3 bytes has at most twelve characters. -/
theorem splitName_length : ∀ (name base ext : List UInt8) (sawDot : Bool)
    (r : List UInt8 × List UInt8), splitName name base ext sawDot = some r →
    base.length ≤ 8 → ext.length ≤ 3 →
    name.length + base.length + ext.length + (if sawDot then 1 else 0) ≤ 12
  | [], base, ext, sawDot, _, _, low, high => by
      simp only [List.length_nil]
      split <;> omega
  | c :: name, base, ext, sawDot, r, packed, low, high => by
      unfold splitName at packed
      rw [List.length_cons]
      split at packed
      · cases packed
      split at packed
      · split at packed
        · cases packed
        · rename_i fresh
          have rest := splitName_length name base ext true r packed low high
          rw [if_pos rfl] at rest
          rw [if_neg (by simpa using fresh)]
          omega
      split at packed
      · split at packed
        · cases packed
        · have rest := splitName_length name (base ++ [c]) ext sawDot r packed (by simp; omega) high
          rw [List.length_append, List.length_singleton] at rest
          omega
      · split at packed
        · cases packed
        · have rest := splitName_length name base (ext ++ [c]) sawDot r packed low (by simp; omega)
          rw [List.length_append, List.length_singleton] at rest
          omega

/-- Open and delete look only for paths of one name. -/
theorem OneName.of_made {path : List UInt8} {n : Name83}
    (made : makeName83 (skipSlash path) = some n) :
    ∃ name, OneName path name ∧ makeName83 name = some n := by
  obtain ⟨noSlash, again⟩ := makeName83_skipSlash made
  rw [skipSlash_of_not_mem noSlash] at again
  refine ⟨_, ⟨rfl, ?_, noSlash, ?_⟩, again⟩
  · intro empty
    rw [empty] at again
    cases again
  · unfold makeName83 at made
    cases text : skipSlash (skipSlash path) with
    | nil => exact Nat.zero_le _
    | cons c rest =>
        rw [text] at made
        obtain ⟨r, packed, -⟩ := Option.map_eq_some_iff.mp made
        have := splitName_length _ _ _ _ _ packed (by decide) (by decide)
        simp only [List.length_nil] at this
        omega

theorem OneName.made_eq {path name : List UInt8} (one : OneName path name) :
    makeName83 (skipSlash path) = makeName83 name := by
  unfold makeName83
  rw [one.text, skipSlash_of_not_mem one.noSlash]

/-- The first byte of a name in a path is no NUL. -/
theorem OneName.marked {path : CStr} {name : List UInt8} {n : Name83} (one : OneName path.1 name)
    (made : makeName83 name = some n) : n.1.getD 0 0 ≠ 0 := by
  refine makeName83_not_end (fun member => path.2 ?_) made
  rw [← one.text] at member
  exact mem_of_mem_skipSlash (mem_of_mem_skipSlash member)

theorem walkPath_skipSlash (path : List UInt8) (c : Nat) :
    walkPath (skipSlash path) c [] = walkPath path c [] := by
  cases path with
  | nil => rfl
  | cons ch rest =>
      change walkPath (if ch = slash then rest else ch :: rest) c [] = _
      by_cases here : ch = slash
      · rw [if_pos here, walkPath, if_pos here, if_pos rfl]
      · rw [if_neg here]

/-- The navigation of one name ends in the directory it starts in. -/
theorem OneName.navigated {d d' : Driver} {path name : List UInt8} (one : OneName path name)
    {nav : Nav} (returned : (navigatePath path).run d = .ok (nav, d')) :
    ¬ nav.result < 0 ∧ nav.parentCluster = some (d.fs.startCluster path) ∧
      nav.filename = some name := by
  unfold navigatePath at returned
  obtain ⟨_, _, got, rest⟩ := bind_returns returned
  cases got
  rw [← walkPath_skipSlash, one.text, walkPath_component name _ [] one.noSlash
    (by simpa using one.short), List.nil_append] at rest
  obtain ⟨_, _, walked, rest⟩ := bind_returns rest
  cases walked
  cases text : name with
  | nil => exact absurd text one.nonempty
  | cons ch tail =>
      rw [text] at rest
      obtain ⟨found, d₁, -, last⟩ := bind_returns rest
      cases found with
      | none =>
          cases last
          exact ⟨(by decide : ¬ (0 : Int) < 0), rfl, rfl⟩
      | some e =>
          cases last
          exact ⟨(by decide : ¬ (1 : Int) < 0), rfl, rfl⟩

/-- What write decides on for a path of one name. -/
theorem OneName.writeSlot_eq {d d' : Driver} {path : CStr} {name : List UInt8}
    (one : OneName path.1 name) (locals : Locals) {nav : Nav}
    (returned : (navigatePath path.1).run d = .ok (nav, d')) :
    d.writeSlot locals nav = (makeName83 name).bind fun n =>
      (choose n (d.listing (d.fs.startCluster path.1))).map fun s =>
        ⟨d.fs.startCluster path.1, d.directory (d.fs.startCluster path.1), n, s.1, s.2⟩ := by
  obtain ⟨followed, parent, filename⟩ := one.navigated returned
  unfold Driver.writeSlot
  simp only [parent, filename, Option.getD_some]
  rw [if_neg]
  rintro (failed | empty)
  · exact followed failed
  · exact one.nonempty empty

/-! ## The two kinds of scan -/

/-- An entry of the name stands behind the end marker, where only the scan of `fat32_write`
goes, because it met a free slot before. -/
def Stale (name : Name83) (l : List Dirent) : Prop :=
  ∃ (k m j : Nat) (s t e : Dirent), k < m ∧ m < j ∧ l[k]? = some s ∧ s.skipped = true ∧
    l[m]? = some t ∧ t.name0 = 0 ∧ l[j]? = some e ∧ e.skipped = false ∧ e.name = name ∧
    ∀ n, n < m → ∀ x, l[n]? = some x → passes (fun e => e.name = name) x

/-- An entry of the name stands before the end marker. -/
def Shows (name : Name83) (l : List Dirent) : Prop :=
  ∃ (i : Nat) (e : Dirent), l[i]? = some e ∧ e.name0 ≠ 0 ∧ e.skipped = false ∧ e.name = name ∧
    ∀ m, m < i → ∀ x, l[m]? = some x → x.name0 ≠ 0

/-- A search that meets an entry in use that passes finds one. -/
theorem lookup_ne_none {test : Dirent → Bool} {l : List Dirent} {j : Nat} {f : Dirent}
    (slot : l[j]? = some f) (marked : f.name0 ≠ 0) (visible : f.skipped = false)
    (passed : test f = true)
    (before : ∀ m, m < j → ∀ g, l[m]? = some g → g.name0 ≠ 0) : lookup test l ≠ none := by
  induction j using Nat.strong_induction_on generalizing f with
  | _ j earlier =>
      by_cases all : ∀ m, m < j → ∀ g, l[m]? = some g → passes test g
      · rw [lookup_eq_some.mpr ⟨slot, marked, visible, passed, all⟩]
        exact Option.some_ne_none _
      · simp only [not_forall] at all
        obtain ⟨m, low, g, at_m, stops⟩ := all
        have shown := before m low g at_m
        have both : g.skipped = false ∧ test g = true := by
          simpa [passes, shown] using stops
        exact earlier m low at_m shown both.1 both.2 fun k early => before k (by omega)

section Scans

variable {name : Name83} {l : List Dirent} {i : Nat}

theorem passes_of_misses {e : Dirent} (marked : e.name0 ≠ 0) (miss : misses name e) :
    passes (fun e => e.name = name) e :=
  ⟨marked, miss.imp id fun other => by simpa using other⟩

/-- What a search finds is what `fat32_write` overwrites. -/
theorem choose_of_lookup {e : Dirent} (found : lookup (fun e => e.name = name) l = some (i, e)) :
    choose name l = some (i, true) := by
  obtain ⟨slot, marked, visible, same, before⟩ := lookup_eq_some.mp found
  have named : e.name = name := by simpa using same
  have notPlain : ¬ plain name e := fun h => h.2.2 named
  unfold choose
  rcases scanWrite_cases name l 0 with ⟨-, all⟩ | ⟨n, x, at_n, plains, how⟩
  · exact absurd (all i e slot) notPlain
  have late : n ≤ i := by
    by_contra early
    exact notPlain (plains i (by omega) e slot)
  have here : ¬ n < i → n = i ∧ x = e := by
    intro notEarly
    obtain rfl : n = i := by omega
    rw [slot] at at_n
    exact ⟨rfl, (Option.some.inj at_n).symm⟩
  rw [Nat.zero_add] at how
  rcases how with ⟨ends, -⟩ | ⟨-, shown, sameName, ended⟩ | ⟨-, skip, ended⟩
  · by_cases early : n < i
    · exact absurd ends (before n early x at_n).1
    · obtain ⟨-, rfl⟩ := here early
      exact absurd ends marked
  · rw [ended]
    by_cases early : n < i
    · rcases (before n early x at_n).2 with skip | differs
      · rw [shown] at skip
        cases skip
      · simp [sameName] at differs
    · rw [(here early).1]
      rfl
  · have early : n < i := by
      by_contra notEarly
      obtain ⟨-, rfl⟩ := here notEarly
      rw [visible] at skip
      cases skip
    have at_i : (l.drop (n + 1))[i - (n + 1)]? = some e := by
      rw [List.getElem?_drop, show n + 1 + (i - (n + 1)) = i by omega]
      exact slot
    rw [ended]
    rcases scanWrite_known name n (l.drop (n + 1)) (n + 1) with
      ⟨m, y, hit, at_m, shown, sameName, between⟩ | ⟨-, all⟩
    · rw [hit]
      rw [List.getElem?_drop] at at_m
      -- both scans stop at the first visible entry of the name
      have first : n + 1 + m = i := by
        rcases Nat.lt_trichotomy (n + 1 + m) i with low | same | high
        · rcases (before _ low y at_m).2 with skip' | differs
          · rw [shown] at skip'
            cases skip'
          · simp [sameName] at differs
        · exact same
        · rcases between _ (by omega) e at_i with skip' | differs
          · rw [visible] at skip'
            cases skip'
          · exact absurd named differs
      rw [first]
      rfl
    · rcases all _ e at_i with skip' | differs
      · rw [visible] at skip'
        cases skip'
      · exact absurd named differs

/-- What `fat32_write` overwrites is what a search finds, unless it is stale. -/
theorem lookup_of_choose (chosen : choose name l = some (i, true)) (marked : name.1.getD 0 0 ≠ 0)
    (fresh : ¬ Stale name l) : ∃ e, lookup (fun e => e.name = name) l = some (i, e) := by
  obtain ⟨e, slot, visible, named, before⟩ := choose_existing chosen
  have shown : e.name0 ≠ 0 := by
    unfold Dirent.name0
    rw [named]
    exact marked
  refine ⟨e, lookup_eq_some.mpr ⟨slot, shown, visible, by simpa using named, ?_⟩⟩
  -- an end marker before the entry would make it stale
  have all : ∀ m, m < i → ∀ x, l[m]? = some x → x.name0 ≠ 0 := by
    intro m
    induction m using Nat.strong_induction_on with
    | _ m earlier =>
        intro low t at_m ends
        refine fresh ?_
        unfold choose at chosen
        rcases scanWrite_cases name l 0 with ⟨ended, -⟩ | ⟨n, x, at_n, plains, how⟩
        · rw [ended] at chosen
          cases chosen
        rw [Nat.zero_add] at how
        have beyond : ¬ m < n := fun early => (plains m early t at_m).1 ends
        rcases how with ⟨-, stop⟩ | ⟨-, -, -, stop⟩ | ⟨marked', skip, -⟩
        · rw [stop] at chosen
          cases chosen
        · rw [stop] at chosen
          cases chosen
          exact absurd low beyond
        · have ne : n ≠ m := by
            rintro rfl
            rw [at_n] at at_m
            cases at_m
            exact marked' ends
          refine ⟨n, m, i, x, t, e, by omega, low, at_n, skip, at_m, ends, slot, visible, named, ?_⟩
          intro k early y at_k
          exact passes_of_misses (earlier k early (by omega) y at_k) (before k (by omega) y at_k)
  intro m low x at_m
  exact passes_of_misses (all m low x at_m) (before m low x at_m)

/-- A search finds no stale entry, and no other one. -/
theorem Stale.lookup_eq_none (stale : Stale name l) :
    lookup (fun e => e.name = name) l = none := by
  obtain ⟨k, m, j, s, t, e, -, -, -, -, at_m, ends, -, -, -, before⟩ := stale
  by_contra some_
  obtain ⟨⟨i, x⟩, found⟩ := Option.ne_none_iff_exists'.mp some_
  obtain ⟨slot, marked, visible, same, passed⟩ := lookup_eq_some.mp found
  rcases Nat.lt_trichotomy i m with low | rfl | high
  · rcases (before i low x slot).2 with skip | differs
    · rw [visible] at skip
      cases skip
    · exact absurd same (by simpa using differs)
  · rw [slot] at at_m
    cases at_m
    exact marked ends
  · exact (passed m high t at_m).1 ends

/-- The scan of `fat32_write` finds a stale entry. -/
theorem Stale.chosen (stale : Stale name l) : ∃ i, choose name l = some (i, true) := by
  obtain ⟨k, m, j, s, t, e, low, high, at_k, skip, at_m, -, at_j, visible, named, before⟩ := stale
  have early : ∀ n x, l[n]? = some x → n ≤ k → x.name0 ≠ 0 ∧ (x.skipped = true ∨ x.name ≠ name) :=
    fun n x at_n bound => ⟨(before n (by omega) x at_n).1,
      (before n (by omega) x at_n).2.imp id fun other => by simpa using other⟩
  unfold choose
  rcases scanWrite_cases name l 0 with ⟨-, all⟩ | ⟨n, x, at_n, plains, how⟩
  · rw [(all k s at_k).2.1] at skip
    cases skip
  have bound : n ≤ k := by
    by_contra far
    rw [(plains k (by omega) s at_k).2.1] at skip
    cases skip
  obtain ⟨marked, misses⟩ := early n x at_n bound
  rcases how with ⟨ends, -⟩ | ⟨-, shown, same, -⟩ | ⟨-, -, ended⟩
  · exact absurd ends marked
  · rcases misses with hidden | other
    · rw [shown] at hidden
      cases hidden
    · exact absurd same other
  · -- behind the free slot the scan goes on to the entry
    rw [ended]
    rcases scanWrite_known name (0 + n) (l.drop (n + 1)) (0 + n + 1) with
      ⟨_, y, hit, -⟩ | ⟨-, all⟩
    · rw [hit]
      exact ⟨_, rfl⟩
    · have at_j' : (l.drop (n + 1))[j - (n + 1)]? = some e := by
        rw [List.getElem?_drop, show n + 1 + (j - (n + 1)) = j by omega]
        exact at_j
      rcases all _ e at_j' with hidden | other
      · rw [visible] at hidden
        cases hidden
      · exact absurd named other

theorem shows_iff : Shows name l ↔ ∃ i e, lookup (fun e => e.name = name) l = some (i, e) := by
  constructor
  · rintro ⟨i, e, slot, marked, visible, named, before⟩
    have never : lookup (fun e => e.name = name) l ≠ none :=
      lookup_ne_none slot marked visible (by simpa using named) before
    obtain ⟨⟨i', e'⟩, found⟩ := Option.ne_none_iff_exists'.mp never
    exact ⟨i', e', found⟩
  · rintro ⟨i, e, found⟩
    obtain ⟨slot, marked, visible, same, before⟩ := lookup_eq_some.mp found
    exact ⟨i, e, slot, marked, visible, by simpa using same,
      fun m low x at_m => (before m low x at_m).1⟩

/-- `fat32_write` overwrites an entry exactly if one is shown or stale. -/
theorem exists_choose_iff (marked : name.1.getD 0 0 ≠ 0) :
    (∃ i, choose name l = some (i, true)) ↔ Shows name l ∨ Stale name l := by
  constructor
  · rintro ⟨i, chosen⟩
    by_cases stale : Stale name l
    · exact .inr stale
    · obtain ⟨e, found⟩ := lookup_of_choose chosen marked stale
      exact .inl (shows_iff.mpr ⟨i, e, found⟩)
  · rintro (shown | stale)
    · obtain ⟨i, e, found⟩ := shows_iff.mp shown
      exact ⟨i, choose_of_lookup found⟩
    · exact stale.chosen

end Scans

end XosKernel.Fat32
