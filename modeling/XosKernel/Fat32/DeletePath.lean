/-
# Fat32.DeletePath -- which entry a delete removes

`fat32_delete` searches the root directory for the 8.3 name of the whole path; `fat32_write`
follows the path from the current directory.  Which slot of which directory a call changes is
read off the disk and the last write command (`Removes`, `Overwrites`).
`delete_removes_overwritten_iff` says in every state when the two are the same slot: for one
name in the root directory, or when there is no entry for either.
-/
import XosKernel.Fat32.UnsetLocals

namespace XosKernel.Fat32

open XosKernel.Theory

set_option autoImplicit false

/-- `fat32_delete` marks the entry in the slot `i` of the directory `c` as deleted: it returns 0,
`c` is the last thing it wrote, and no other slot of `c` has changed. -/
def Removes (d : Driver) (path : CStr) (c i : Nat) : Prop :=
  ∃ d' e, (fat32Delete path).run d = .ok (0, d') ∧ (d.listing c)[i]? = some e ∧
    e.inUse = true ∧ d'.WroteDirectory c ∧ d'.listing c = (d.listing c).set i e.deleted

/-- `fat32_write` would overwrite the entry in the slot `i` of the directory `c`: its search ends
at an existing entry there, and whatever is written, a call that returns 0 puts a file of that
name into this slot, writes `c` last and changes no other slot of it. -/
def Overwrites (d : Driver) (locals : Locals) (path : CStr) (c i : Nat) : Prop :=
  d.fsMounted = true ∧ ∃ t, d.writeSlot locals (d.navigated path.1) = some t ∧
    t.existing = true ∧ t.slot = i ∧ d.fs.clusterToLba t.parentCluster = d.fs.clusterToLba c ∧
    ∀ data d', (fat32Write locals path data).run d = .ok (0, d') →
      ∃ e, e.name = t.name ∧ e.attributes = attrArchive ∧ d'.WroteDirectory c ∧
        d'.listing c = (d.listing c).set i e

/-- The name `fat32_write` packs: the last component as far as the buffer holds it, or what the
local holds if there is none. -/
def writtenName (locals : Locals) (path : CStr) : List UInt8 :=
  if lastComponent slash path.1 = [] then locals.filename.1
  else (lastComponent slash path.1).take 255

/-- On a mounted volume, the path is one name in the root directory, where no entry of it lies
behind the end marker; or there is no entry of the name that either call looks for, in the
directory it looks into. -/
def ResolvedAlike (d : Driver) (locals : Locals) (path : CStr) : Prop :=
  d.fsMounted = true →
    (∃ name n, OneName path.1 name ∧ makeName83 name = some n ∧
      d.fs.clusterToLba (d.fs.startCluster path.1) = d.fs.clusterToLba d.fs.rootDirCluster ∧
      ¬ Stale n (d.listing d.fs.rootDirCluster)) ∨
    ((∀ n, makeName83 (skipSlash path.1) = some n → ¬ Shows n (d.listing d.fs.rootDirCluster)) ∧
      ∀ p n, d.parentOf path.1 = some p → makeName83 (writtenName locals path) = some n →
        ¬ Shows n (d.listing p) ∧ ¬ Stale n (d.listing p))

/-! ## What delete removes -/

theorem Driver.listing_of_lba {d : Driver} {c c' : Nat}
    (same : d.fs.clusterToLba c = d.fs.clusterToLba c') : d.listing c = d.listing c' := by
  unfold listing directory
  rw [same]

/-- The search of `fat32_delete` leaves the root directory in its buffer. -/
theorem deleteEntry_loads {d d' : Driver} (quiet : d.Quiet) {path : CStr}
    {r : Option (Nat × Dirent)} (returned : (deleteEntry path).run d = .ok (r, d')) :
    d'.fs.entries d'.rootDirBuffer = d.listing d.fs.rootDirCluster := by
  have fs := Driver.fs_of_disks (deleteEntry_keeps_disks path _ _ _ returned)
  unfold deleteEntry at returned
  obtain ⟨ok, d₁, loaded, rest⟩ := bind_returns returned
  unfold loadRootDirectory at loaded
  obtain ⟨_, _, got, loaded⟩ := bind_returns loaded
  cases got
  rw [run_bind_of_ok (ataReadSectors_run quiet _ _ _ _)] at loaded
  obtain ⟨_, _, stored, last⟩ := bind_returns loaded
  cases stored
  cases last
  -- the scan keeps the buffer
  have same : d'.rootDirBuffer = Buf.blit d.rootDirBuffer 0 (d.fs.dirSectors * 512)
      (d.ata.stream (diskToAta d.fs.disk).1 (diskToAta d.fs.disk).2
        (d.fs.clusterToLba d.fs.rootDirCluster)) := by
    simp only [decide_true, if_true] at rest
    cases made : makeName83 (skipSlash path.1) with
    | none =>
        rw [made] at rest
        cases rest
        rfl
    | some name =>
        rw [made] at rest
        obtain ⟨_, _, got, rest⟩ := bind_returns rest
        cases got
        have scans : Keeps Driver.rootDirBuffer (scanDirectory (fun e => e.name = name)
          (Buf.blit d.rootDirBuffer 0 (d.fs.dirSectors * 512) (d.ata.stream
            (diskToAta d.fs.disk).1 (diskToAta d.fs.disk).2
            (d.fs.clusterToLba d.fs.rootDirCluster)))) := scanDirectory_keeps _ _
        exact scans _ _ _ rest
  rw [fs, same]
  refine Fs.entries_congr fun i hi => ?_
  have inside : i < 0 + d.fs.dirSectors * 512 := by
    rw [Nat.zero_add]
    exact hi
  unfold Driver.directory
  rw [Buf.blit_of_inside (Nat.zero_le _) inside, Buf.blit_of_inside (Nat.zero_le _) inside]

/-- The root directory that was saved is read back. -/
theorem saveRootDirectory_returns {d d' : Driver} (quiet : d.Quiet) {r : Int}
    (returned : saveRootDirectory.run d = .ok (r, d')) :
    r = 0 ∧ d'.settings = d.settings ∧ d'.WroteDirectory d.fs.rootDirCluster ∧
      d'.listing d.fs.rootDirCluster = d.fs.entries d.rootDirBuffer := by
  unfold saveRootDirectory at returned
  obtain ⟨_, _, got, rest⟩ := bind_returns returned
  cases got
  rw [run_bind_of_ok (ataWriteSectors_run quiet _ _ _ _ _)] at rest
  cases rest
  refine ⟨if_pos rfl, rfl, ⟨_, rfl⟩, Fs.entries_congr fun i hi => ?_⟩
  have inside : i < 0 + d.fs.dirSectors * 512 := by
    rw [Nat.zero_add]
    exact hi
  unfold Driver.directory
  rw [Buf.blit_of_inside (Nat.zero_le _) inside, Nat.sub_zero]
  exact Ata.stream_store hi

theorem inert_root : Inert fun d : Driver => (d.settings, d.rootDirBuffer) :=
  ⟨⟨fun _ _ => rfl, fun _ _ => rfl, fun _ _ => rfl⟩, fun _ _ _ _ => rfl⟩

/-- What `fat32_delete` returns and leaves on a mounted volume. -/
theorem fat32Delete_returns {d d' : Driver} (quiet : d.Quiet) (mounted : d.fsMounted = true)
    {path : CStr} {r : Int} (returned : (fat32Delete path).run d = .ok (r, d')) :
    (d.deleteSlot path.1 = none ∧ r = -1) ∨ ∃ i e, d.deleteSlot path.1 = some (i, e) ∧ r = 0 ∧
      d'.settings = d.settings ∧ d'.WroteDirectory d.fs.rootDirCluster ∧
      d'.listing d.fs.rootDirCluster = (d.listing d.fs.rootDirCluster).set i e.deleted := by
  unfold fat32Delete at returned
  obtain ⟨_, _, got, rest⟩ := bind_returns returned
  cases got
  rw [if_pos mounted] at rest
  obtain ⟨found, d₁, searched, rest⟩ := bind_returns rest
  have disks := deleteEntry_keeps_disks path _ _ _ searched
  have slot : found = d.deleteSlot path.1 := deleteEntry_returns quiet searched
  have loaded := deleteEntry_loads quiet searched
  subst slot
  cases slot : d.deleteSlot path.1 with
  | none =>
      rw [slot] at rest
      cases rest
      exact .inl ⟨rfl, rfl⟩
  | some hit =>
      obtain ⟨i, e⟩ := hit
      rw [slot] at rest
      obtain ⟨_, d₂, freed, rest⟩ := bind_returns rest
      have kept := freeOldChain_keeps inert_root _ _ _ _ freed
      have settings : d₂.settings = d₁.settings := congrArg Prod.fst kept
      have buffer : d₂.rootDirBuffer = d₁.rootDirBuffer := congrArg Prod.snd kept
      have fs : d₂.fs = d.fs := (Driver.fs_of_settings settings).trans (Driver.fs_of_disks disks)
      have quiet₂ := Driver.quiet_of_settings settings (Driver.quiet_of_disks disks quiet)
      obtain ⟨_, d₃, stored, rest⟩ := bind_returns rest
      cases stored
      obtain ⟨zero, same, wrote, listing⟩ := saveRootDirectory_returns
        (d := { d₂ with rootDirBuffer := Dirent.store d₂.rootDirBuffer (i * direntSize) e.deleted })
        quiet₂ rest
      refine .inr ⟨i, e, rfl, zero, same.trans
        (settings.trans (Driver.settings_of_disks disks)), ?_, ?_⟩
      · rw [← fs]
        exact wrote
      · rw [← fs]
        refine listing.trans ?_
        change d₂.fs.entries (Dirent.store d₂.rootDirBuffer (i * direntSize) e.deleted) = _
        rw [Fs.entries_store, buffer, fs, ← Driver.fs_of_disks disks, loaded,
          Driver.fs_of_disks disks]

theorem Dirent.deleted_not_inUse (e : Dirent) : e.deleted.inUse = false := by
  simp [Dirent.inUse, Dirent.name0, Dirent.deleted]

/-- What delete removes is what its search finds in the root directory. -/
theorem removes_iff {d d₂ : Driver} (quiet : d.Quiet) {path : CStr} {r : Int}
    (deleted : (fat32Delete path).run d = .ok (r, d₂)) (c i : Nat) :
    Removes d path c i ↔ d.fsMounted = true ∧
      d.fs.clusterToLba c = d.fs.clusterToLba d.fs.rootDirCluster ∧
      ∃ e, d.deleteSlot path.1 = some (i, e) := by
  by_cases mounted : d.fsMounted = true
  swap
  · refine iff_of_false ?_ fun h => mounted h.1
    rintro ⟨d', e, ran, -⟩
    unfold fat32Delete at ran
    obtain ⟨_, _, got, rest⟩ := bind_returns ran
    cases got
    rw [if_neg mounted] at rest
    cases rest
  rcases fat32Delete_returns quiet mounted deleted with
    ⟨nothing, failed⟩ | ⟨i', e', slot, rfl, settings, wrote, listing⟩
  · refine iff_of_false ?_ fun ⟨_, _, e, found⟩ => by rw [nothing] at found; cases found
    rintro ⟨d', e, ran, -⟩
    rw [deleted] at ran
    cases ran
    cases failed
  have fs := Driver.fs_of_settings settings
  obtain ⟨n, -, found⟩ := Option.bind_eq_some_iff.mp slot
  obtain ⟨at_slot, marked, visible, -, -⟩ := lookup_eq_some.mp found
  constructor
  · rintro ⟨d', e, ran, at_i, used, wrote', listing'⟩
    rw [deleted] at ran
    cases ran
    have same : d.fs.clusterToLba c = d.fs.clusterToLba d.fs.rootDirCluster := by
      obtain ⟨_, last⟩ := wrote
      obtain ⟨_, last'⟩ := wrote'
      rw [last] at last'
      simp only [Option.some.injEq, WriteCommand.mk.injEq] at last'
      obtain ⟨-, -, -, address, -⟩ := last'
      rw [fs] at address
      exact address.symm
    refine ⟨mounted, same, e', ?_⟩
    -- two different slots would leave an entry that is in use and deleted
    by_cases here : i' = i
    · rw [← here]
      exact slot
    · have same' : d₂.fs.clusterToLba c = d₂.fs.clusterToLba d.fs.rootDirCluster := fs ▸ same
      rw [Driver.listing_of_lba same', listing, Driver.listing_of_lba same] at listing'
      rw [Driver.listing_of_lba same] at at_i
      have inside := (List.getElem?_eq_some_iff.mp at_i).1
      have both := congrArg (fun l => l[i]?) listing'
      simp only [List.getElem?_set_ne here, List.getElem?_set_self inside, at_i,
        Option.some.injEq] at both
      rw [both, Dirent.deleted_not_inUse] at used
      cases used
  · rintro ⟨-, same, e, slot'⟩
    rw [slot] at slot'
    cases slot'
    refine ⟨d₂, e', deleted, ?_, ?_, ?_, ?_⟩
    · rw [Driver.listing_of_lba same]
      exact at_slot
    · exact Dirent.inUse_of_visible marked visible
    · obtain ⟨count, last⟩ := wrote
      refine ⟨count, ?_⟩
      rw [last, fs, same]
    · have same' : d₂.fs.clusterToLba c = d₂.fs.clusterToLba d.fs.rootDirCluster := fs ▸ same
      rw [Driver.listing_of_lba same', listing, Driver.listing_of_lba same]

/-! ## What write overwrites -/

theorem Driver.writeSlot_navigated (d : Driver) (locals : Locals) (path : CStr) :
    d.writeSlot locals (d.navigated path.1) = (d.parentOf path.1).bind fun p =>
      (makeName83 (writtenName locals path)).bind fun n =>
        (choose n (d.listing p)).map fun s => ⟨p, d.directory p, n, s.1, s.2⟩ := by
  cases parent : d.parentOf path.1 with
  | none => simp [Driver.writeSlot, navigated_nowhere parent]
  | some p =>
      have whole : d.writeSlot locals (d.navigated path.1) =
          if writtenName locals path = [] then none
          else (makeName83 (writtenName locals path)).bind fun n =>
            (choose n (d.listing p)).map fun s => ⟨p, d.directory p, n, s.1, s.2⟩ := by
        have directory := navigated_parent parent
        by_cases last : lastComponent slash path.1 = []
        · rw [navigated_no_last parent last]
          simp [Driver.writeSlot, writtenName, last]
        · have name := (navigated_entry parent last).2
          have followed : ¬ (d.navigated path.1).result < 0 := by
            simp only [Driver.navigated, parent, if_neg last]
            cases d.find p (lastComponent slash path.1) with
            | none => exact (by decide : ¬ (0 : Int) < 0)
            | some e => exact (by decide : ¬ (1 : Int) < 0)
          simp only [Driver.writeSlot, directory, name, followed, writtenName, if_neg last,
            Option.getD_some, false_or]
      rw [whole, Option.bind_some]
      split
      · rename_i empty
        rw [empty]
        rfl
      · rfl

/-- The byte that a written name starts with is no NUL. -/
theorem writtenName_marked {locals : Locals} {path : CStr} {n : Name83}
    (made : makeName83 (writtenName locals path) = some n) : n.1.getD 0 0 ≠ 0 := by
  refine makeName83_not_end (fun member => ?_) made
  unfold writtenName at member
  split at member
  · exact locals.filename.2 member
  · rename_i last
    have inside : lastComponent slash path.1 ∈ components slash path.1 := by
      rw [components_eq_split, if_neg last]
      exact List.mem_append_right _ (List.mem_singleton.mpr rfl)
    exact path.2 (mem_of_mem_components (List.mem_of_mem_take member) inside)

/-- What write overwrites is what its scan chooses in the parent directory. -/
theorem overwrites_iff {d : Driver} (quiet : d.Quiet) {locals : Locals} {path : CStr} (c i : Nat) :
    Overwrites d locals path c i ↔ d.fsMounted = true ∧ ∃ p n, d.parentOf path.1 = some p ∧
      makeName83 (writtenName locals path) = some n ∧
      d.fs.clusterToLba p = d.fs.clusterToLba c ∧ choose n (d.listing p) = some (i, true) := by
  refine and_congr_right fun mounted => ?_
  rw [Driver.writeSlot_navigated]
  constructor
  · rintro ⟨t, target, existing, rfl, same, -⟩
    obtain ⟨p, parent, target⟩ := Option.bind_eq_some_iff.mp target
    obtain ⟨n, made, target⟩ := Option.bind_eq_some_iff.mp target
    obtain ⟨⟨i, b⟩, chosen, rfl⟩ := Option.map_eq_some_iff.mp target
    obtain rfl : b = true := existing
    exact ⟨p, n, parent, made, same, chosen⟩
  · rintro ⟨p, n, parent, made, same, chosen⟩
    refine ⟨⟨p, d.directory p, n, i, true⟩, ?_, rfl, rfl, same, fun data d' returned => ?_⟩
    · rw [parent, Option.bind_some, made, Option.bind_some, chosen]
      rfl
    obtain ⟨-, nav, d₁, d₂, t, e, navigated, target, slot, named, archive, settings, wrote,
      listing⟩ := fat32Write_stores quiet returned
    rw [navigatePath_returns quiet navigated, Driver.writeSlot_navigated, parent,
      Option.bind_some, made, Option.bind_some, chosen] at slot
    cases slot
    have fs := Driver.fs_of_settings settings
    refine ⟨e, named, archive, ?_, ?_⟩
    · obtain ⟨count, last⟩ := wrote
      refine ⟨count, ?_⟩
      rw [last, fs, same]
    · have same' : d'.fs.clusterToLba p = d'.fs.clusterToLba c := by
        rw [fs]
        exact same
      rw [Driver.listing_of_lba same, Driver.listing_of_lba same'] at listing
      exact listing

/-! ## Delete and write -/

section OneName

variable {path : CStr} {name : List UInt8} (one : OneName path.1 name)
include one

theorem OneName.split : splitFrom slash [] path.1 = ([], name) := by
  have skip : ∀ text : List UInt8, splitFrom slash [] (skipSlash text) = splitFrom slash [] text := by
    intro text
    cases text with
    | nil => rfl
    | cons ch rest =>
        change splitFrom slash [] (if ch = slash then rest else ch :: rest) = _
        by_cases here : ch = slash
        · rw [if_pos here, splitFrom, if_pos here, if_pos rfl]
        · rw [if_neg here]
  have plain : ∀ (text buffer : List UInt8), slash ∉ text →
      splitFrom slash buffer text = ([], buffer ++ text) := by
    intro text
    induction text with
    | nil =>
        intro buffer _
        rw [splitFrom, List.append_nil]
    | cons ch rest again =>
        intro buffer noSlash
        rw [List.mem_cons, not_or] at noSlash
        rw [splitFrom, if_neg (Ne.symm noSlash.1), again _ noSlash.2, List.append_assoc]
        rfl
  rw [← skip, ← skip, one.text, plain name [] one.noSlash, List.nil_append]

theorem OneName.parentOf_eq (d : Driver) : d.parentOf path.1 = some (d.fs.startCluster path.1) := by
  unfold Driver.parentOf frontComponents
  rw [one.split]
  rfl

theorem OneName.writtenName_eq (locals : Locals) : writtenName locals path = name := by
  unfold writtenName lastComponent
  rw [one.split, if_neg one.nonempty, List.take_of_length_le one.short]

end OneName

/-- In every state without failing transfers from which `fat32_delete` returns, it removes
exactly the entry that `fat32_write` would overwrite if and only if the volume is not mounted,
or the path is one name in the root directory and not stale there, or there is no entry for
either. -/
theorem delete_removes_overwritten_iff {d d₂ : Driver} (quiet : d.Quiet) {locals : Locals}
    {path : CStr} {r : Int} (deleted : (fat32Delete path).run d = .ok (r, d₂)) :
    (∀ c i, Removes d path c i ↔ Overwrites d locals path c i) ↔ ResolvedAlike d locals path := by
  constructor
  · intro same mounted
    by_cases found : ∃ i e, d.deleteSlot path.1 = some (i, e)
    · obtain ⟨i, e, slot⟩ := found
      obtain ⟨n, made, found⟩ := Option.bind_eq_some_iff.mp slot
      obtain ⟨name, one, made'⟩ := OneName.of_made made
      have overwrites := (same d.fs.rootDirCluster i).mp
        ((removes_iff quiet deleted _ i).mpr ⟨mounted, rfl, e, slot⟩)
      obtain ⟨-, p, _, parent, -, root, -⟩ := (overwrites_iff quiet _ i).mp overwrites
      rw [one.parentOf_eq] at parent
      cases parent
      refine .inl ⟨name, n, one, made', root, fun stale => ?_⟩
      rw [stale.lookup_eq_none] at found
      cases found
    · refine .inr ⟨fun n made shown => found ?_, fun p n parent made => ?_⟩
      · obtain ⟨i, e, hit⟩ := shows_iff.mp shown
        refine ⟨i, e, ?_⟩
        unfold Driver.deleteSlot
        rw [made, Option.bind_some, hit]
      · rw [← not_or, ← exists_choose_iff (writtenName_marked made)]
        rintro ⟨i, chosen⟩
        obtain ⟨-, -, e, slot⟩ := (removes_iff quiet deleted p i).mp ((same p i).mpr
          ((overwrites_iff quiet p i).mpr ⟨mounted, p, n, parent, made, rfl, chosen⟩))
        exact found ⟨i, e, slot⟩
  · intro alike c i
    rw [removes_iff quiet deleted, overwrites_iff quiet]
    refine and_congr_right fun mounted => ?_
    rcases alike mounted with ⟨name, n, one, made, root, fresh⟩ | ⟨noDelete, noWrite⟩
    · rw [one.parentOf_eq, one.writtenName_eq]
      have slot : d.deleteSlot path.1 =
          lookup (fun e => e.name = n) (d.listing d.fs.rootDirCluster) := by
        unfold Driver.deleteSlot
        rw [one.made_eq, made, Option.bind_some]
      rw [slot]
      constructor
      · rintro ⟨here, e, found⟩
        refine ⟨_, n, rfl, made, root.trans here.symm, ?_⟩
        rw [Driver.listing_of_lba root]
        exact choose_of_lookup found
      · rintro ⟨p, n', parent, made', here, chosen⟩
        cases parent
        rw [made] at made'
        cases made'
        rw [Driver.listing_of_lba root] at chosen
        exact ⟨here.symm.trans root, lookup_of_choose chosen (one.marked made) fresh⟩
    · refine iff_of_false ?_ ?_
      · rintro ⟨-, e, slot⟩
        obtain ⟨n, made, found⟩ := Option.bind_eq_some_iff.mp slot
        exact noDelete n made (shows_iff.mpr ⟨i, e, found⟩)
      · rintro ⟨p, n, parent, made, -, chosen⟩
        have nothing := noWrite p n parent made
        rw [← not_or, ← exists_choose_iff (writtenName_marked made)] at nothing
        exact nothing ⟨i, chosen⟩

/-- The formatted volume after `mkdir a`, `write x`, `chdir a`, `write x`. -/
def withTwoX : Driver :=
  leaves (fat32Write .blank (.ofBytes [0x78]) [2]) (leaves (fat32Chdir (.ofBytes [0x61]))
    (leaves (fat32Write .blank (.ofBytes [0x78]) [1])
      (leaves (fat32Mkdir .blank (.ofBytes [0x61])) formatted)))

/-- In the directory `A`, `delete x` returns 0 and removes the `X` of the root directory, where
`write x` would overwrite the one in `A`. -/
theorem delete_removes_other : Removes withTwoX (.ofBytes [0x78]) 2 1 ∧
    Overwrites withTwoX .blank (.ofBytes [0x78]) 3 2 ∧
    ¬ ∀ c i, Removes withTwoX (.ofBytes [0x78]) c i ↔
      Overwrites withTwoX .blank (.ofBytes [0x78]) c i := by
  have quiet : withTwoX.Quiet := fun _ => rfl
  have mounted : withTwoX.fsMounted = true := by decide +kernel
  have ran : Runs.check (fat32Delete (.ofBytes [0x78])) withTwoX (fun _ _ => true) = true := by
    decide +kernel
  obtain ⟨r, d', deleted, -⟩ := Runs.of_check ran
  have found : (withTwoX.deleteSlot [0x78]).map Prod.fst = some 1 := by decide +kernel
  obtain ⟨⟨i, e⟩, slot, rfl⟩ := Option.map_eq_some_iff.mp found
  have removes : Removes withTwoX (.ofBytes [0x78]) 2 1 :=
    (removes_iff quiet deleted 2 1).mpr ⟨mounted, by decide +kernel, e, slot⟩
  have parent : withTwoX.parentOf [0x78] = some 3 := by decide +kernel
  have chosen : (makeName83 [0x78]).bind (fun n => choose n (withTwoX.listing 3)) =
      some (2, true) := by decide +kernel
  obtain ⟨n, made, chosen⟩ := Option.bind_eq_some_iff.mp chosen
  refine ⟨removes, (overwrites_iff quiet 3 2).mpr ⟨mounted, 3, n, parent, made, rfl, chosen⟩,
    fun same => ?_⟩
  obtain ⟨-, p, _, parent', -, root, -⟩ := (overwrites_iff quiet 2 1).mp ((same 2 1).mp removes)
  rw [show (CStr.ofBytes [0x78]).1 = [0x78] from rfl, parent] at parent'
  cases parent'
  exact absurd root (by decide +kernel)

/-- In the root directory, `delete x` and `write x` mean the same entry. -/
theorem delete_agrees_in_root : Removes withX (.ofBytes [0x78]) 2 0 ∧
    ∀ c i, Removes withX (.ofBytes [0x78]) c i ↔ Overwrites withX .blank (.ofBytes [0x78]) c i := by
  have quiet : withX.Quiet := withX_wellFormed.good.noFault
  have mounted : withX.fsMounted = true := withX_wellFormed.good.mounted
  have ran : Runs.check (fat32Delete (.ofBytes [0x78])) withX (fun _ _ => true) = true := by
    decide +kernel
  obtain ⟨r, d', deleted, -⟩ := Runs.of_check ran
  have found : (withX.deleteSlot [0x78]).map Prod.fst = some 0 := by decide +kernel
  obtain ⟨⟨i, e⟩, slot, rfl⟩ := Option.map_eq_some_iff.mp found
  have root : withX.fs.clusterToLba (withX.fs.startCluster (CStr.ofBytes [0x78]).1) =
      withX.fs.clusterToLba withX.fs.rootDirCluster := by decide +kernel
  refine ⟨(removes_iff quiet deleted 2 0).mpr ⟨mounted, by decide +kernel, e, slot⟩,
    (delete_removes_overwritten_iff quiet deleted).mpr fun _ => .inl ?_⟩
  obtain ⟨n, made, hit⟩ := Option.bind_eq_some_iff.mp slot
  obtain ⟨name, one, made'⟩ := OneName.of_made made
  refine ⟨name, n, one, made', root, fun stale => ?_⟩
  rw [stale.lookup_eq_none] at hit
  cases hit

end XosKernel.Fat32
