/-
# Fat32.CallDirectory -- which directory a call with one name reads and changes

A call with a relative path of one component finds its directory in two ways: `fat32_open` and
`fat32_list_directory` choose it themselves, all others go through `fat32_navigate_path`.  This
module says for each call what it does to a directory `c`: which entry of the listing of `c`
decides what it returns, and which slots it stores (`OpensIn`, `ListsIn`, `WritesIn`, `MakesIn`,
`EntersIn`).  Any transfer may fail, and the sectors may hold anything.
-/
import XosKernel.Fat32.UnsetLocals

namespace XosKernel.Fat32

open XosKernel.Theory

set_option autoImplicit false

/-! ## What a call does to a directory -/

/-- A relative path of one component. -/
def RelName := { path : CStr // path.1 ≠ [] ∧ slash ∉ path.1 }

/-- The text of the name. -/
def RelName.text (name : RelName) : List UInt8 := name.1.1

/-- The directory updates so far, the last one first. -/
def Driver.updates (d : Driver) : List WriteCommand :=
  d.ata.writes.filter fun w => w.buffer = .directory

/-- From `d` to `d'` only directories at these addresses were updated. -/
def UpdatesOnly (d : Driver) (places : Nat → Prop) (d' : Driver) : Prop :=
  ∃ new, d'.updates = new ++ d.updates ∧ ∀ w ∈ new, places w.lba

/-- The first transfer of a call from this state succeeds. -/
def Driver.FirstSucceeds (d : Driver) : Prop := d.ata.fault d.ata.transfers = none

instance (d : Driver) : Decidable d.FirstSucceeds := inferInstanceAs (Decidable (_ = none))

section Calls

variable (d : Driver) (c : Nat) (name : RelName)

/-- `fat32_open` opens what the listing of `c` shows under the name, and nothing else. -/
structure OpensIn (opened : Bool) (d' : Driver) : Prop where
  writes : d'.ata.writes = d.ata.writes
  found : opened = true → ∃ n i e, makeName83 name.text = some n ∧
    lookup (fun e => e.name = n) (d.listing c) = some (i, e) ∧ e.isDirectory = false ∧
    d'.openFile = d.fs.handle e
  missed : opened = false → d.fsMounted = true → d.FirstSucceeds → ∀ n i e,
    makeName83 name.text = some n →
    lookup (fun e => e.name = n) (d.listing c) = some (i, e) → e.isDirectory = true

/-- `fat32_list_directory` prints the listing of `c`. -/
structure ListsIn (r : Int × List Listed) (d' : Driver) : Prop where
  writes : d'.ata.writes = d.ata.writes
  lines : r.1 = 0 → r.2 = (listLoop (d.listing c)).1
  failed : r.1 ≠ 0 → ¬ (d.fsMounted = true ∧ d.FirstSucceeds)

/-- `fat32_write` updates no directory but `c`; it stores the entry in the slot that its scan of
`c` chooses for the name, and without such a slot it writes nothing. -/
structure WritesIn (r : Int) (d' : Driver) : Prop where
  updates : UpdatesOnly d (· = d.fs.clusterToLba c) d'
  stored : r = 0 → ∃ n s e, makeName83 name.text = some n ∧
    choose n (d.listing c) = some s ∧ e.name = n ∧ e.attributes = attrArchive ∧
    d'.WroteDirectory c ∧ d'.listing c = (d.listing c).set s.1 e
  untouched : (∀ n, makeName83 name.text = some n → choose n (d.listing c) = none) →
    r = -1 ∧ d'.ata.writes = d.ata.writes

/-- `fat32_mkdir` refuses a name that it sees in `c`.  It updates no directory but `c` and the
new one, whose `..` entry refers to `c`; the entry of the new directory goes into the first free
slot of `c`, as the allocation and the store of the new directory left it. -/
structure MakesIn (r : Int) (d' : Driver) : Prop where
  updates : ∃ new, UpdatesOnly d
    (fun lba => lba = d.fs.clusterToLba c ∨ lba = d.fs.clusterToLba new) d'
  refused : d.FirstSucceeds → d.find c name.text ≠ none → r = -1 ∧ d'.ata.writes = d.ata.writes
  stored : r = 0 → ∃ d₁ d₂ d₃ new n slot, d₁.disks = d.disks ∧
    (allocateClusterChain 1).run d₁ = .ok (some new, d₂) ∧
    (writeDirectoryCluster new (newDirectoryBuffer new c)).run d₂ = .ok (true, d₃) ∧
    makeName83 name.text = some n ∧ scanFree (d₃.listing c) 0 = some slot ∧
    d'.WroteDirectory c ∧ d'.listing c = (d₃.listing c).set slot (Dirent.newDirectory n new)

/-- `fat32_chdir` enters the directory that `c` shows under the name, or stays. -/
structure EntersIn (r : Int) (d' : Driver) : Prop where
  writes : d'.ata.writes = d.ata.writes
  entered : r = 0 → ∃ e, d.find c name.text = some e ∧ e.isDirectory = true ∧
    d'.fs.currentDirCluster = e.firstCluster
  stayed : r ≠ 0 → d'.fs.currentDirCluster = d.fs.currentDirCluster ∧
    (d.fsMounted = true → d.FirstSucceeds → ∀ e, d.find c name.text = some e →
      e.isDirectory = false)

end Calls

/-! ## Names -/

theorem RelName.noSlash (name : RelName) : slash ∉ name.text := name.2.2

theorem RelName.nonempty (name : RelName) : name.text ≠ [] := name.2.1

theorem RelName.relative (name : RelName) : isAbsolute name.text = false := by
  obtain ⟨⟨path, noNul⟩, -, noSlash⟩ := name
  cases path with
  | nil => rfl
  | cons c rest =>
      have other : c ≠ slash := fun same => noSlash (same ▸ List.mem_cons_self)
      simpa [isAbsolute, RelName.text] using other

/-- A name that does not fit the component buffer has no 8.3 form, cut off or not. -/
theorem makeName83_take (name : RelName) : makeName83 (name.text.take 255) =
    makeName83 name.text := by
  by_cases short : name.text.length ≤ 255
  · rw [List.take_of_length_le short]
  have long : ∀ text : List UInt8, slash ∉ text → 12 < text.length → makeName83 text = none := by
    intro text noSlash long
    by_contra made
    obtain ⟨n, made⟩ := Option.ne_none_iff_exists'.mp made
    unfold makeName83 at made
    rw [skipSlash_of_not_mem noSlash] at made
    cases text with
    | nil => cases made
    | cons ch rest =>
        obtain ⟨r, packed, -⟩ := Option.map_eq_some_iff.mp made
        have := splitName_length _ _ _ _ _ packed (by decide) (by decide)
        simp only [List.length_nil] at this
        omega
  have cut : 12 < (name.text.take 255).length := by
    rw [List.length_take]
    omega
  rw [long _ (fun member => name.noSlash (List.mem_of_mem_take member)) cut,
    long _ name.noSlash (by omega)]

/-- The walk ends where it starts, with as much of the name as the buffer takes. -/
theorem walkPath_noSlash : ∀ (path : List UInt8) (c : Nat) (component : List UInt8),
    slash ∉ path →
    walkPath path c (component.take 255) = pure (some (c, (component ++ path).take 255))
  | [], c, component, _ => by
      rw [List.append_nil]
      rfl
  | ch :: path, c, component, noSlash => by
      rw [List.mem_cons, not_or] at noSlash
      have next : (if (component.take 255).length < 255 then component.take 255 ++ [ch]
          else component.take 255) = (component ++ [ch]).take 255 := by
        rw [List.length_take]
        by_cases short : component.length < 255
        · rw [if_pos (by omega), List.take_of_length_le (by omega),
            List.take_of_length_le (by rw [List.length_append]; simp; omega)]
        · rw [if_neg (by omega), List.take_append_of_le_length (by omega)]
      rw [walkPath, if_neg (Ne.symm noSlash.1), next, walkPath_noSlash path c _ noSlash.2,
        List.append_assoc]
      rfl

theorem RelName.start (name : RelName) (fs : Fs) :
    fs.startCluster name.text = fs.currentDirCluster := by
  rw [Fs.startCluster, name.relative]
  rfl

/-- What a search through a directory returns, whatever its transfer does. -/
theorem findInDirectory_result {d d' : Driver} {c : Nat} {name : List UInt8}
    {r : Option Dirent} (returned : (findInDirectory c name).run d = .ok (r, d')) :
    r = if d.FirstSucceeds then d.find c name else none := by
  unfold findInDirectory at returned
  rw [run_bind_of_ok (loadDirectoryCluster_run d c)] at returned
  by_cases fault : d.FirstSucceeds
  · rw [if_pos (show d.ata.fault d.ata.transfers = none from fault)] at returned
    obtain ⟨found, d₂, scanned, last⟩ := bind_returns returned
    cases last
    rw [scanDirectory_returns scanned, if_pos fault]
    rfl
  · rw [if_neg (show ¬ d.ata.fault d.ata.transfers = none from fault)] at returned
    cases returned
    rw [if_neg fault]

/-- What navigation makes of one name, whatever its transfer does. -/
structure NavigatesName (d : Driver) (name : RelName) (nav : Nav) (d' : Driver) : Prop where
  disks : d'.disks = d.disks
  writes : d'.ata.writes = d.ata.writes
  parent : nav.parentCluster = some d.fs.currentDirCluster
  filename : nav.filename = some (name.text.take 255)
  entry : nav.entry = if d.FirstSucceeds then d.find d.fs.currentDirCluster name.text else none
  result : nav.result = if nav.entry = none then 0 else 1

theorem navigatePath_name {d d' : Driver} (name : RelName) {nav : Nav}
    (returned : (navigatePath name.text).run d = .ok (nav, d')) : NavigatesName d name nav d' := by
  have disks := navigatePath_keeps inert_disks.steady _ _ _ _ returned
  have writes := navigatePath_keeps inert_writes.steady _ _ _ _ returned
  unfold navigatePath at returned
  obtain ⟨_, _, got, rest⟩ := bind_returns returned
  cases got
  have walked := walkPath_noSlash name.text d.fs.currentDirCluster [] name.noSlash
  rw [List.take_nil, List.nil_append] at walked
  rw [skipSlash_of_not_mem name.noSlash, name.start, walked] at rest
  obtain ⟨_, _, walked, rest⟩ := bind_returns rest
  cases walked
  have shown := Driver.find_take d d.fs.currentDirCluster name.text
  cases text : name.text.take 255 with
  | nil =>
      rw [List.take_eq_nil_iff] at text
      exact absurd (text.resolve_left (by decide)) name.nonempty
  | cons ch tail =>
      rw [text] at rest shown
      obtain ⟨found, d₁, searched, last⟩ := bind_returns rest
      have result := findInDirectory_result searched
      rw [shown] at result
      cases found with
      | none =>
          cases last
          exact ⟨disks, writes, rfl, text.symm ▸ rfl, result, rfl⟩
      | some e =>
          cases last
          exact ⟨disks, writes, rfl, text.symm ▸ rfl, result, rfl⟩

/-! ## Calls that read -/

section Reads

variable {d d' : Driver}

theorem fat32Open_opensIn {name : RelName} {opened : Bool}
    (returned : (fat32Open name.1).run d = .ok (opened, d')) :
    OpensIn d (d.fs.openCluster name.text) name opened d' := by
  unfold fat32Open at returned
  obtain ⟨_, _, got, rest⟩ := bind_returns returned
  cases got
  split at rest
  swap
  · rename_i unmounted
    cases rest
    exact ⟨rfl, by simp, fun _ mounted => absurd mounted unmounted⟩
  obtain ⟨hit, d₁, searched, rest⟩ := bind_returns rest
  unfold openEntry at searched
  obtain ⟨_, _, got, searched⟩ := bind_returns searched
  cases got
  rw [run_bind_of_ok (loadDirectoryCluster_run d _)] at searched
  have text : skipSlash name.1.1 = name.text := skipSlash_of_not_mem name.noSlash
  by_cases fault : d.FirstSucceeds
  swap
  · rw [if_neg (show ¬ d.ata.fault d.ata.transfers = none from fault)] at searched
    cases searched
    cases rest
    exact ⟨rfl, by simp, fun _ _ succeeds => absurd succeeds fault⟩
  rw [if_pos (show d.ata.fault d.ata.transfers = none from fault), text] at searched
  simp only at searched
  cases made : makeName83 name.text with
  | none =>
      rw [made] at searched
      cases searched
      cases rest
      refine ⟨rfl, by simp, fun _ _ _ n i e made' => ?_⟩
      rw [made] at made'
      cases made'
  | some n =>
      rw [made] at searched
      obtain ⟨found, d₂, scanned, last⟩ := bind_returns searched
      have scans : Keeps (fun d : Driver => d) (scanDirectory (fun e => e.name = n)
        (d.directory (d.fs.openCluster name.text))) := scanDirectory_keeps _ _
      have kept : d₂ = _ := scans _ _ _ scanned
      have result := scanDirectory_returns scanned
      change found = lookup _ (d.listing (d.fs.openCluster name.text)) at result
      cases found with
      | none =>
          cases last
          cases rest
          refine ⟨by rw [kept], by simp, fun _ _ _ n' i e made' shown => ?_⟩
          cases made.symm.trans made'
          rw [shown] at result
          cases result
      | some hit =>
          obtain ⟨i, e⟩ := hit
          cases directory : e.isDirectory with
          | true =>
              simp only [directory, if_true] at last
              cases last
              cases rest
              refine ⟨by rw [kept], by simp, fun _ _ _ n' i' e' made' shown => ?_⟩
              cases made.symm.trans made'
              rw [shown] at result
              cases result
              exact directory
          | false =>
              simp only [directory] at last
              cases last
              obtain ⟨_, _, stored, last⟩ := bind_returns rest
              cases stored
              cases last
              refine ⟨by rw [kept], fun _ => ⟨n, i, e, made, result.symm, directory, ?_⟩, by simp⟩
              rw [kept]

theorem fat32ListDirectory_listsIn {r : Int × List Listed}
    (returned : (fat32ListDirectory []).run d = .ok (r, d')) : ListsIn d d.fs.listCluster r d' := by
  unfold fat32ListDirectory at returned
  obtain ⟨_, _, got, rest⟩ := bind_returns returned
  cases got
  split at rest
  swap
  · rename_i unmounted
    cases rest
    exact ⟨rfl, by simp, fun _ reads => unmounted reads.1⟩
  rw [if_pos rfl] at rest
  unfold listCluster at rest
  rw [run_bind_of_ok (loadDirectoryCluster_run d _)] at rest
  by_cases fault : d.FirstSucceeds
  swap
  · rw [if_neg (show ¬ d.ata.fault d.ata.transfers = none from fault)] at rest
    cases rest
    exact ⟨rfl, by simp, fun _ reads => fault reads.2⟩
  rw [if_pos (show d.ata.fault d.ata.transfers = none from fault)] at rest
  obtain ⟨_, _, got, rest⟩ := bind_returns rest
  cases got
  change _ = _ at rest
  cases lines : listLoop (d.listing d.fs.listCluster) with
  | mk shown ended =>
      have same : listLoop (d.fs.entries (d.directory d.fs.listCluster)) = (shown, ended) := lines
      simp only [same] at rest
      cases ended with
      | true =>
          cases rest
          exact ⟨rfl, fun _ => by rw [lines], fun failed => absurd rfl failed⟩
      | false =>
          obtain ⟨_, d₁, ended, last⟩ := bind_returns rest
          have ends : Keeps (fun d : Driver => d) d.fs.endOfEntries := endOfEntries_keeps _
          have kept : d₁ = _ := ends _ _ _ ended
          cases last
          refine ⟨by rw [kept], fun _ => by rw [lines], fun failed => absurd rfl failed⟩

end Reads

/-! ## Directory updates -/

/-- The file system record and the directory updates, which table and data writes leave alone. -/
def Driver.updateLog (d : Driver) : Fs × List WriteCommand := (d.fs, d.updates)

theorem inert_updateLog : Inert Driver.updateLog := by
  refine ⟨⟨fun _ _ => rfl, fun _ _ => rfl, fun _ _ => rfl⟩, fun d m w other => ?_⟩
  have passed : (w :: d.ata.writes).filter (fun w => w.buffer = .directory) = d.updates :=
    List.filter_cons_of_neg (by simpa using other)
  exact Prod.ext rfl passed

/-- The updates since `old` went to these places. -/
def Updating (fs : Fs) (old : List WriteCommand) (places : Nat → Prop) (d : Driver) : Prop :=
  d.fs = fs ∧ ∃ new, d.updates = new ++ old ∧ ∀ w ∈ new, places w.lba

section Updates

variable {fs : Fs} {old : List WriteCommand} {places : Nat → Prop}

theorem Updating.of_keeps {α : Type} {m : FatM α} (keeps : Keeps Driver.updateLog m) :
    Safe (Updating fs old places) (fun _ => True) m := by
  refine keeps.safe ?_
  rintro d d' same ⟨record, new, updates, inside⟩
  exact ⟨(congrArg Prod.fst same).trans record, new, (congrArg Prod.snd same).trans updates, inside⟩

theorem writeDirectoryCluster_updating {c : Nat} (here : places (fs.clusterToLba c)) (b : Buf) :
    Safe (Updating fs old places) (fun _ => True) (writeDirectoryCluster c b) := by
  refine Safe.get_bind fun d holds => Safe.ite (fun _ => Safe.throw trivial) fun _ => ?_
  refine Safe.bind (fun d' holds' => ⟨fun r d'' returned => ?_, fun _ _ => trivial⟩)
    fun _ => Safe.pure _
  obtain ⟨record, new, updates, inside⟩ := holds'
  have one : ∀ m n w, w.buffer = .directory → w.lba = d.fs.clusterToLba c →
      Updating fs old places { d' with ata := { d'.ata with
        media := m, transfers := n, writes := w :: d'.ata.writes } } := by
    intro m n w update address
    refine ⟨record, w :: new, ?_, ?_⟩
    · unfold Driver.updates at updates ⊢
      rw [List.filter_cons_of_pos (by simpa using update), updates]
      rfl
    · rintro w (_ | ⟨_, member⟩)
      · rw [address, holds.1]
        exact here
      · exact inside w member
  cases returned
  unfold Ata.writeSectors
  split
  · exact one _ _ _ rfl rfl
  · exact one _ _ _ rfl rfl

theorem refreshRoot_updating (c : Nat) :
    Safe (Updating fs old places) (fun _ => True) (refreshRoot c) := by
  refine Updating.of_keeps fun d r d' returned => ?_
  have same := refreshRoot_keeps_log c _ _ _ returned
  have record : d'.fs = d.fs := congrArg Prod.fst same
  have writes : d'.ata.writes = d.ata.writes := congrArg Prod.snd same
  unfold Driver.updateLog Driver.updates
  rw [record, writes]

theorem giveUp_updating (c : Nat) : Safe (Updating fs old places) (fun _ => True) (giveUp c) :=
  Updating.of_keeps (Keeps.bind (freeChainLoop_keeps inert_updateLog _ _) fun _ => Keeps.pure _)

/-- `fat32_write` updates the directory of its target. -/
theorem writeEntry_updating {t : WriteTarget} (here : places (fs.clusterToLba t.parentCluster))
    (data : List UInt8) : Safe (Updating fs old places) (fun _ => True) (writeEntry t data) := by
  refine Safe.get_bind fun d _ => ?_
  refine Safe.bind (Updating.of_keeps (freeOldChain_keeps inert_updateLog _)) fun _ => ?_
  refine Safe.ite (fun _ => ?_) fun _ => Safe.ite (fun _ => Safe.throw trivial) fun _ => ?_
  · refine Safe.bind (writeDirectoryCluster_updating here _) fun ok => Safe.ite (fun _ => ?_)
      fun _ => Safe.pure _
    exact Safe.bind (refreshRoot_updating _) fun _ => Safe.pure _
  refine Safe.bind (Updating.of_keeps (allocateClusterChain_keeps inert_updateLog _))
    fun allocated => ?_
  cases allocated with
  | none => exact Safe.pure _
  | some first =>
      refine Safe.get_bind fun d _ => ?_
      refine Safe.bind (Updating.of_keeps
        (writeLoop_keeps inert_updateLog (fun _ _ => rfl) _ _ _ _ _)) fun ok => ?_
      refine Safe.ite (fun _ => ?_) fun _ => giveUp_updating _
      refine Safe.bind (writeDirectoryCluster_updating here _) fun ok => ?_
      refine Safe.ite (fun _ => ?_) fun _ => giveUp_updating _
      exact Safe.bind (refreshRoot_updating _) fun ok =>
        Safe.ite (fun _ => Safe.pure _) fun _ => giveUp_updating _

/-- `fat32_mkdir` updates the parent and the new directory. -/
theorem mkdirAllocated_updating {parent new : Nat} (old_ : places (fs.clusterToLba parent))
    (new_ : places (fs.clusterToLba new)) (name : List UInt8) :
    Safe (Updating fs old places) (fun _ => True) (mkdirAllocated parent name new) := by
  refine Safe.bind (writeDirectoryCluster_updating new_ _) fun ok => ?_
  refine Safe.ite (fun _ => ?_) fun _ => giveUp_updating _
  refine Safe.bind (Updating.of_keeps (loadDirectoryCluster_keeps inert_updateLog.steady _))
    fun loaded => ?_
  cases loaded with
  | none => exact giveUp_updating _
  | some b =>
      cases makeName83 name with
      | none => exact giveUp_updating _
      | some name83 =>
          refine Safe.get_bind fun d _ => ?_
          cases scanFree (d.fs.entries b) 0 with
          | none =>
              exact Safe.bind (Updating.of_keeps (endOfEntries_keeps d.fs)) fun _ =>
                giveUp_updating _
          | some slot =>
              refine Safe.bind (writeDirectoryCluster_updating old_ _) fun ok => ?_
              refine Safe.ite (fun _ => ?_) fun _ => giveUp_updating _
              exact Safe.bind (refreshRoot_updating _) fun _ => Safe.pure _

end Updates

section Log

variable {d d₁ d' : Driver} {places : Nat → Prop}

/-- A call that updates these places from a state with the log of `d`. -/
theorem UpdatesOnly.of_safe {α : Type} {m : FatM α} {r : α}
    (safe : Safe (Updating d.fs d.updates places) (fun _ => True) m)
    (same : d₁.updateLog = d.updateLog) (returned : m.run d₁ = .ok (r, d')) :
    UpdatesOnly d places d' := by
  have start : Updating d.fs d.updates places d₁ :=
    ⟨congrArg Prod.fst same, [], congrArg Prod.snd same, by simp⟩
  exact ((safe d₁ start).1 r d' returned).2

theorem UpdatesOnly.of_writes (same : d'.ata.writes = d.ata.writes) : UpdatesOnly d places d' :=
  ⟨[], by rw [Driver.updates, same]; rfl, by simp⟩

end Log

/-! ## Calls that write -/

section Writes

variable {d d' : Driver}

/-- What `fat32_write` decides on for one name. -/
theorem writeTarget_name {name : RelName} {locals : Locals} {w : Option WriteTarget}
    (returned : (writeTarget locals name.1).run d = .ok (w, d')) :
    w = none ∨ ∃ n s, makeName83 name.text = some n ∧
      choose n (d.listing d.fs.currentDirCluster) = some s ∧
      w = some ⟨d.fs.currentDirCluster, d.directory d.fs.currentDirCluster, n, s.1, s.2⟩ := by
  unfold writeTarget at returned
  obtain ⟨nav, d₁, navigated, rest⟩ := bind_returns returned
  obtain ⟨disks, -, parent, filename, -, result⟩ := navigatePath_name name navigated
  have followed : ¬ nav.result < 0 := by
    rw [result]
    split <;> decide
  have some_ : name.text.take 255 ≠ [] := by
    rw [ne_eq, List.take_eq_nil_iff, not_or]
    exact ⟨by decide, name.nonempty⟩
  rw [if_neg followed] at rest
  simp only [parent, filename, Option.getD_some, if_neg some_, makeName83_take] at rest
  cases made : makeName83 name.text with
  | none =>
      rw [made] at rest
      cases rest
      exact .inl rfl
  | some n =>
      rw [made] at rest
      obtain ⟨loaded, d₂, load, rest⟩ := bind_returns rest
      have disks₂ := (loadDirectoryCluster_keeps inert_disks.steady _ _ _ _ load).trans disks
      cases loaded with
      | none =>
          cases rest
          exact .inl rfl
      | some b =>
          obtain ⟨rfl, -⟩ := loadDirectoryCluster_some load
          obtain ⟨_, _, got, rest⟩ := bind_returns rest
          cases got
          rw [Driver.directory_of_disks disks, Driver.fs_of_disks disks₂] at rest
          have chosen : choose n (d.listing d.fs.currentDirCluster) =
              (scanWrite n (d.fs.entries (d.directory d.fs.currentDirCluster)) 0 none).toOption :=
            rfl
          cases scanned : scanWrite n (d.fs.entries (d.directory d.fs.currentDirCluster)) 0 none with
          | existing slot =>
              rw [scanned] at rest chosen
              cases rest
              exact .inr ⟨n, _, rfl, chosen, rfl⟩
          | free slot =>
              rw [scanned] at rest chosen
              cases rest
              exact .inr ⟨n, _, rfl, chosen, rfl⟩
          | exhausted slot =>
              rw [scanned] at rest chosen
              obtain ⟨_, _, -, last⟩ := bind_returns rest
              cases last
              cases slot with
              | none => exact .inl rfl
              | some slot => exact .inr ⟨n, _, rfl, chosen, rfl⟩

theorem fat32Write_writesIn {name : RelName} {locals : Locals} {data : List UInt8} {r : Int}
    (returned : (fat32Write locals name.1 data).run d = .ok (r, d')) :
    WritesIn d d.fs.currentDirCluster name r d' := by
  unfold fat32Write at returned
  obtain ⟨_, _, got, rest⟩ := bind_returns returned
  cases got
  split at rest
  swap
  · cases rest
    exact ⟨.of_writes rfl, fun zero => absurd zero (by decide), fun _ => ⟨rfl, rfl⟩⟩
  obtain ⟨w, d₁, target, rest⟩ := bind_returns rest
  have disks := writeTarget_keeps inert_disks.steady _ _ _ _ _ target
  have writes := writeTarget_keeps inert_writes.steady _ _ _ _ _ target
  rcases writeTarget_name target with rfl | ⟨n, s, made, chosen, rfl⟩
  · cases rest
    exact ⟨.of_writes writes, fun zero => absurd zero (by decide), fun _ => ⟨rfl, writes⟩⟩
  have fs := Driver.fs_of_disks disks
  change (writeEntry _ data).run d₁ = _ at rest
  have updating : Safe (Updating d.fs d.updates (· = d.fs.clusterToLba d.fs.currentDirCluster))
      (fun _ => True) (writeEntry ⟨d.fs.currentDirCluster, d.directory d.fs.currentDirCluster, n,
        s.1, s.2⟩ data) := by
    refine writeEntry_updating ?_ data
    rfl
  refine ⟨.of_safe updating ?_ rest, ?_, fun nothing => ?_⟩
  · unfold Driver.updateLog Driver.updates
    rw [fs, writes]
  · rintro rfl
    obtain ⟨e, named, archive, -, wrote, listing⟩ := writeEntry_stores rest
    rw [fs] at listing
    exact ⟨n, s, e, made, chosen, named, archive, wrote, listing⟩
  · rw [nothing n made] at chosen
    cases chosen

theorem fat32Mkdir_makesIn {name : RelName} {locals : Locals} {r : Int}
    (returned : (fat32Mkdir locals name.1).run d = .ok (r, d')) :
    MakesIn d d.fs.currentDirCluster name r d' := by
  unfold fat32Mkdir at returned
  obtain ⟨_, _, got, rest⟩ := bind_returns returned
  cases got
  split at rest
  swap
  · cases rest
    exact ⟨⟨0, .of_writes rfl⟩, fun _ _ => ⟨rfl, rfl⟩, fun zero => absurd zero (by decide)⟩
  obtain ⟨nav, d₁, navigated, rest⟩ := bind_returns rest
  obtain ⟨disks, writes, parent, filename, entry, result⟩ := navigatePath_name name navigated
  by_cases found : nav.result = 1
  · rw [if_pos found] at rest
    cases rest
    exact ⟨⟨0, .of_writes writes⟩, fun _ _ => ⟨rfl, writes⟩, fun zero => absurd zero (by decide)⟩
  rw [if_neg found] at rest
  have unseen : d.FirstSucceeds → d.find d.fs.currentDirCluster name.text = none := by
    intro succeeds
    rw [if_pos succeeds] at entry
    rw [← entry]
    by_contra seen
    rw [if_neg seen] at result
    exact found result
  obtain ⟨allocated, d₂, allocating, rest⟩ := bind_returns rest
  have same : d₂.updateLog = d.updateLog := by
    rw [allocateClusterChain_keeps inert_updateLog _ _ _ _ allocating]
    unfold Driver.updateLog Driver.updates
    rw [Driver.fs_of_disks disks, writes]
  cases allocated with
  | none =>
      cases rest
      refine ⟨⟨0, [], ?_, by simp⟩, fun succeeds seen => absurd (unseen succeeds) seen,
        fun zero => absurd zero (by decide)⟩
      exact congrArg Prod.snd same
  | some new =>
      simp only [parent, filename, Option.getD_some] at rest
      refine ⟨⟨new, .of_safe (mkdirAllocated_updating (.inl rfl) (.inr rfl) _) same rest⟩,
        fun succeeds seen => absurd (unseen succeeds) seen, ?_⟩
      rintro rfl
      obtain ⟨d₃, n, slot, written, made, scanned, wrote, listing⟩ := mkdirAllocated_stores rest
      rw [makeName83_take] at made
      exact ⟨d₁, d₂, d₃, new, n, slot, disks, allocating, written, made, scanned, wrote, listing⟩

end Writes

/-! ## Change of directory -/

theorem updatePath_keeps {γ : Type} {part : Driver → γ}
    (edits : ∀ d text, part { d with fs := { d.fs with currentPath := text } } = part d)
    (path dirname : List UInt8) : Keeps part (updatePath path dirname) := by
  have stored : ∀ text, Keeps part (setCurrentPath text) := fun text =>
    Keeps.ite (Keeps.throw _) (Keeps.modify fun d => edits d text)
  refine Keeps.get_bind fun d => Keeps.ite (stored _) (Keeps.ite (Keeps.pure _) ?_)
  exact Keeps.ite (stored _) (stored _)

theorem fat32Chdir_entersIn {d d' : Driver} {name : RelName} {r : Int}
    (returned : (fat32Chdir name.1).run d = .ok (r, d')) :
    EntersIn d d.fs.currentDirCluster name r d' := by
  unfold fat32Chdir at returned
  obtain ⟨_, _, got, rest⟩ := bind_returns returned
  cases got
  split at rest
  swap
  · rename_i unmounted
    cases rest
    exact ⟨rfl, fun zero => absurd zero (by decide), fun _ =>
      ⟨rfl, fun mounted => absurd mounted unmounted⟩⟩
  obtain ⟨nav, d₁, navigated, rest⟩ := bind_returns rest
  obtain ⟨disks, writes, -, -, entry, -⟩ := navigatePath_name name navigated
  have current : d₁.fs.currentDirCluster = d.fs.currentDirCluster := by
    rw [Driver.fs_of_disks disks]
  cases seen : nav.entry with
  | none =>
      rw [seen] at rest entry
      cases rest
      refine ⟨writes, fun zero => absurd zero (by decide), fun _ => ⟨current, ?_⟩⟩
      intro _ succeeds e found
      rw [if_pos succeeds, found] at entry
      cases entry
  | some e =>
      rw [seen] at rest entry
      have found : d.find d.fs.currentDirCluster name.text = some e := by
        by_cases succeeds : d.FirstSucceeds
        · rw [if_pos succeeds] at entry
          exact entry.symm
        · rw [if_neg succeeds] at entry
          cases entry
      cases directory : e.isDirectory with
      | false =>
          simp only [directory] at rest
          cases rest
          refine ⟨writes, fun zero => absurd zero (by decide), fun _ => ⟨current, ?_⟩⟩
          intro _ _ e' found'
          rw [found] at found'
          cases found'
          exact directory
      | true =>
          simp only [directory, if_true] at rest
          obtain ⟨_, d₂, moved, rest⟩ := bind_returns rest
          obtain ⟨_, d₃, updated, last⟩ := bind_returns rest
          cases moved
          cases last
          have log : Keeps (fun d : Driver => d.ata.writes) _ :=
            updatePath_keeps (fun _ _ => rfl) name.1.1 (nav.filename.getD [])
          have here : Keeps (fun d : Driver => d.fs.currentDirCluster) _ :=
            updatePath_keeps (fun _ _ => rfl) name.1.1 (nav.filename.getD [])
          exact ⟨(log _ _ _ updated).trans writes, fun _ => ⟨e, found, directory,
            here _ _ _ updated⟩, fun nonzero => absurd rfl nonzero⟩

end XosKernel.Fat32
