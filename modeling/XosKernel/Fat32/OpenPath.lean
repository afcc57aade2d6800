/-
# Fat32.OpenPath -- whether open finds what write wrote

`fat32_open` looks for one 8.3 name in the root or the current directory; `fat32_write`
follows the whole path.  The directory cluster is the last one a successful write puts on
disk (`fat32Write_stores`), so what open finds afterwards is a search in that listing, and
`open_finds_written_iff` says in every state when it is the entry that was written.
-/
import XosKernel.Fat32.Calls
import XosKernel.Fat32.Resolution

namespace XosKernel.Fat32

open XosKernel.Theory

set_option autoImplicit false

/-! ## What a successful write stores -/

/-- The parts of the state that no command changes but mount and chdir. -/
def Driver.settings (d : Driver) : Fs × Bool × (Nat → Option Nat) :=
  (d.fs, d.fsMounted, d.ata.fault)

theorem fixed_settings : Fixed Driver.settings :=
  ⟨⟨⟨fun _ _ => rfl, fun _ _ => rfl, fun _ _ => rfl⟩, fun _ _ _ _ => rfl⟩, fun _ _ _ _ => rfl⟩

theorem inert_settings : Inert Driver.settings := fixed_settings.toInert

section Settings

variable {d d' : Driver} (same : d'.settings = d.settings)
include same

theorem Driver.fs_of_settings : d'.fs = d.fs := congrArg (fun x => x.1) same

theorem Driver.mounted_of_settings : d'.fsMounted = d.fsMounted := congrArg (fun x => x.2.1) same

theorem Driver.quiet_of_settings (quiet : d.Quiet) : d'.Quiet := by
  have fault : d'.ata.fault = d.ata.fault := congrArg (fun x => x.2.2) same
  intro n
  rw [fault]
  exact quiet n

end Settings

theorem Driver.settings_of_disks {d d' : Driver} (same : d'.disks = d.disks) :
    d'.settings = d.settings :=
  congrArg (fun x => (x.1, x.2.1, x.2.2.1)) same

theorem refreshRoot_keeps_disks (parent : Nat) : Keeps Driver.disks (refreshRoot parent) := by
  refine Keeps.get_bind fun d => Keeps.ite ?_ (Keeps.pure _)
  refine Keeps.get_bind fun d =>
    Keeps.bind (ataReadSectors_keeps inert_disks.steady _ _ _ _) fun read => ?_
  exact Keeps.bind (Keeps.modify fun _ => rfl) fun _ => Keeps.pure _

/-- Replacing an entry in a buffer sets one slot of its listing. -/
theorem Fs.entries_store (fs : Fs) (b : Buf) (i : Nat) (e : Dirent) :
    fs.entries (Dirent.store b (i * direntSize) e) = (fs.entries b).set i e := by
  apply List.ext_getElem
  · simp [Fs.entries]
  · intro k low high
    simp only [Fs.entries, List.getElem_map, List.getElem_range, List.getElem_set]
    by_cases here : i = k
    · subst here
      rw [if_pos rfl, Dirent.load_store]
    · rw [if_neg here, Dirent.load_store_of_disjoint]
      simp only [direntSize]
      omega

/-- Sectors that were written are read back. -/
theorem Ata.stream_store {a : Ata} {channel : Channel} {drive : DriveSelect}
    {lba count n i : Nat} {w : List WriteCommand} {buffer : Buf} (inside : i < count * 512) :
    Ata.stream { a with
      media := a.store channel drive lba count buffer, transfers := n, writes := w } channel drive
      lba i = buffer i := by
  change (if channel = channel ∧ drive = drive ∧ lba28 lba ≤ lba28 lba + i / 512 ∧
      lba28 lba + i / 512 < lba28 lba + count then
        fun o => buffer ((lba28 lba + i / 512 - lba28 lba) * 512 + o)
      else a.media channel drive (lba28 lba + i / 512) : Buf) (i % 512) = buffer i
  rw [if_pos ⟨rfl, rfl, by omega, by omega⟩]
  refine congrArg buffer ?_
  omega

/-- What a write that did not fail leaves. -/
theorem ataWriteSectors_wrote {d d' : Driver} {source : WriteBuffer} {disk lba count : Nat}
    {b : Buf} (returned : (ataWriteSectors source disk lba count b).run d = .ok (count, d')) :
    d' = { d with ata := { d.ata with
      media := d.ata.store (diskToAta disk).1 (diskToAta disk).2 lba count b
      transfers := d.ata.transfers + 1
      writes := ⟨source, (diskToAta disk).1, (diskToAta disk).2, lba, count⟩ :: d.ata.writes } } := by
  change Except.ok ((d.ata.writeSectors source (diskToAta disk).1 (diskToAta disk).2 lba count b).1,
    _) = _ at returned
  simp only [Except.ok.injEq, Prod.mk.injEq] at returned
  obtain ⟨result, rfl⟩ := returned
  unfold Ata.writeSectors at result ⊢
  cases fault : d.ata.fault d.ata.transfers with
  | none => rfl
  | some k =>
      simp only [fault] at result
      omega

/-- What a successful write of a directory cluster leaves. -/
theorem writeDirectoryCluster_wrote {d d' : Driver} {c : Nat} {b : Buf}
    (returned : (writeDirectoryCluster c b).run d = .ok (true, d')) :
    ¬ dirBufferSize < d.fs.sectorsPerCluster * 512 ∧
      d' = { d with ata := { d.ata with
        media := d.ata.store (diskToAta d.fs.disk).1 (diskToAta d.fs.disk).2 (d.fs.clusterToLba c)
          d.fs.sectorsPerCluster b
        transfers := d.ata.transfers + 1
        writes := ⟨.directory, (diskToAta d.fs.disk).1, (diskToAta d.fs.disk).2,
          d.fs.clusterToLba c, d.fs.sectorsPerCluster⟩ :: d.ata.writes } } := by
  unfold writeDirectoryCluster at returned
  obtain ⟨_, _, got, rest⟩ := bind_returns returned
  cases got
  by_cases large : dirBufferSize < d.fs.sectorsPerCluster * 512
  · rw [if_pos large] at rest
    cases rest
  rw [if_neg large] at rest
  refine ⟨large, ?_⟩
  obtain ⟨written, d₁, wrote, last⟩ := bind_returns rest
  change Except.ok (decide (written = d.fs.sectorsPerCluster), d₁) = _ at last
  simp only [Except.ok.injEq, Prod.mk.injEq, decide_eq_true_eq] at last
  obtain ⟨rfl, rfl⟩ := last
  exact ataWriteSectors_wrote wrote

/-- A directory cluster that was written is read back. -/
theorem writeDirectoryCluster_listing {d d' : Driver} {c : Nat} {b : Buf}
    (returned : (writeDirectoryCluster c b).run d = .ok (true, d')) :
    d'.listing c = d.fs.entries b := by
  obtain ⟨small, rfl⟩ := writeDirectoryCluster_wrote returned
  refine Fs.entries_congr fun i hi => ?_
  have inside : i < d.fs.sectorsPerCluster * 512 := by
    have sectors : d.fs.dirSectors = d.fs.sectorsPerCluster := if_neg small
    rw [← sectors]
    exact hi
  unfold Driver.directory
  rw [Buf.blit_of_inside (Nat.zero_le _) (by rw [Nat.zero_add]; exact hi), Nat.sub_zero]
  exact Ata.stream_store inside

/-- The last write command went to the directory `c`. -/
def Driver.WroteDirectory (d : Driver) (c : Nat) : Prop :=
  ∃ count, d.ata.writes.head? = some ⟨.directory, (diskToAta d.fs.disk).1, (diskToAta d.fs.disk).2,
    d.fs.clusterToLba c, count⟩

/-- What the log of writes and the file system record say. -/
def Driver.log (d : Driver) : Fs × List WriteCommand := (d.fs, d.ata.writes)

theorem Driver.wroteDirectory_of_log {d d' : Driver} (same : d'.log = d.log) {c : Nat}
    (wrote : d.WroteDirectory c) : d'.WroteDirectory c := by
  have fs : d'.fs = d.fs := congrArg Prod.fst same
  have writes : d'.ata.writes = d.ata.writes := congrArg Prod.snd same
  unfold WroteDirectory
  rw [fs, writes]
  exact wrote

theorem writeDirectoryCluster_logs {d d' : Driver} {c : Nat} {b : Buf}
    (returned : (writeDirectoryCluster c b).run d = .ok (true, d')) : d'.WroteDirectory c := by
  obtain ⟨-, rfl⟩ := writeDirectoryCluster_wrote returned
  exact ⟨_, rfl⟩

theorem refreshRoot_keeps_log (parent : Nat) : Keeps Driver.log (refreshRoot parent) :=
  Keeps.get_bind fun _ => Keeps.ite
    (Keeps.get_bind fun _ => Keeps.bind (ataReadSectors_keeps (fun _ _ => rfl) _ _ _ _) fun _ =>
      Keeps.bind (Keeps.modify fun _ => rfl) fun _ => Keeps.pure _)
    (Keeps.pure _)

section Stores

variable {d d' : Driver} {t : WriteTarget}

theorem writeEmpty_stores {b : Buf}
    (returned : (writeEmpty t b).run d = .ok (0, d')) :
    d'.listing t.parentCluster = d.fs.entries b ∧ d'.settings = d.settings ∧
      d'.WroteDirectory t.parentCluster := by
  unfold writeEmpty at returned
  obtain ⟨ok, d₁, wrote, rest⟩ := bind_returns returned
  have settings := writeDirectoryCluster_keeps fixed_settings _ _ _ _ _ wrote
  cases ok with
  | true =>
      obtain ⟨_, d₂, refreshed, last⟩ := bind_returns rest
      cases last
      have disks := refreshRoot_keeps_disks _ _ _ _ refreshed
      rw [Driver.listing_of_disks disks]
      exact ⟨writeDirectoryCluster_listing wrote,
        (Driver.settings_of_disks disks).trans settings, Driver.wroteDirectory_of_log
          (refreshRoot_keeps_log _ _ _ _ refreshed) (writeDirectoryCluster_logs wrote)⟩
  | false => cases rest

theorem giveUp_not_zero {c : Nat} (returned : (giveUp c).run d = .ok (0, d')) : False := by
  obtain ⟨_, _, -, last⟩ := bind_returns returned
  cases last

theorem writeAllocated_stores {b : Buf} {data : List UInt8} {first : Nat}
    (returned : (writeAllocated t b data first).run d = .ok (0, d')) :
    d'.listing t.parentCluster = d.fs.entries (Dirent.store b (t.slot * direntSize)
        (Dirent.written t.name first data)) ∧ d'.settings = d.settings ∧
      d'.WroteDirectory t.parentCluster := by
  unfold writeAllocated at returned
  obtain ⟨_, _, got, rest⟩ := bind_returns returned
  cases got
  obtain ⟨ok, d₁, wrote, rest⟩ := bind_returns rest
  have settings₁ := writeLoop_keeps inert_settings (fun _ _ => rfl) _ _ _ _ _ _ _ _ wrote
  split at rest
  · obtain ⟨ok', d₂, stored, rest⟩ := bind_returns rest
    have settings₂ := writeDirectoryCluster_keeps fixed_settings _ _ _ _ _ stored
    cases ok' with
    | true =>
        have listing := writeDirectoryCluster_listing stored
        obtain ⟨ok'', d₃, refreshed, rest⟩ := bind_returns rest
        have disks := refreshRoot_keeps_disks _ _ _ _ refreshed
        split at rest
        · cases rest
          rw [Driver.listing_of_disks disks, listing, Driver.fs_of_settings settings₁]
          exact ⟨rfl, (Driver.settings_of_disks disks).trans (settings₂.trans settings₁),
            Driver.wroteDirectory_of_log (refreshRoot_keeps_log _ _ _ _ refreshed)
              (writeDirectoryCluster_logs stored)⟩
        · exact (giveUp_not_zero rest).elim
    | false => exact (giveUp_not_zero rest).elim
  · exact (giveUp_not_zero rest).elim

theorem writeEntry_stores {data : List UInt8}
    (returned : (writeEntry t data).run d = .ok (0, d')) :
    ∃ e, e.name = t.name ∧ e.attributes = attrArchive ∧ d'.settings = d.settings ∧
      d'.WroteDirectory t.parentCluster ∧
      d'.listing t.parentCluster = (d.fs.entries t.parentBuffer).set t.slot e := by
  unfold writeEntry at returned
  obtain ⟨_, _, got, rest⟩ := bind_returns returned
  cases got
  obtain ⟨_, d₁, freed, rest⟩ := bind_returns rest
  have settings₁ := freeOldChain_keeps inert_settings _ _ _ _ freed
  have fs₁ := Driver.fs_of_settings settings₁
  simp only at rest
  split at rest
  · obtain ⟨listing, settings, wrote⟩ := writeEmpty_stores rest
    refine ⟨Dirent.newFile t.name, rfl, rfl, settings.trans settings₁, wrote, ?_⟩
    rw [listing, fs₁, Fs.entries_store]
  split at rest
  · cases rest
  obtain ⟨first, d₂, allocated, rest⟩ := bind_returns rest
  have settings₂ := (allocateClusterChain_keeps inert_settings _ _ _ _ allocated).trans settings₁
  cases first with
  | none => cases rest
  | some first =>
      obtain ⟨listing, settings, wrote⟩ := writeAllocated_stores rest
      refine ⟨Dirent.written t.name first data, rfl, rfl, settings.trans settings₂, wrote, ?_⟩
      rw [listing, Driver.fs_of_settings settings₂, Dirent.store_store, Fs.entries_store]

/-- A write that returned 0 stored an entry in the slot it had decided on. -/
theorem fat32Write_stores (quiet : d.Quiet) {locals : Locals} {path : CStr} {data : List UInt8}
    (returned : (fat32Write locals path data).run d = .ok (0, d')) :
    d.fsMounted = true ∧ ∃ nav d₁ d₂ t e, (navigatePath path.1).run d = .ok (nav, d₁) ∧
      (writeTarget locals path).run d = .ok (some t, d₂) ∧ d.writeSlot locals nav = some t ∧
      e.name = t.name ∧ e.attributes = attrArchive ∧ d'.settings = d.settings ∧
      d'.WroteDirectory t.parentCluster ∧
      d'.listing t.parentCluster = (d.listing t.parentCluster).set t.slot e := by
  unfold fat32Write at returned
  obtain ⟨_, _, got, rest⟩ := bind_returns returned
  cases got
  split at rest
  · rename_i mounted
    obtain ⟨w, d₂, target, rest⟩ := bind_returns rest
    have disks := writeTarget_keeps inert_disks.steady _ _ _ _ _ target
    obtain ⟨nav, d₁, navigated, slot⟩ := writeTarget_returns quiet target
    cases w with
    | none => cases rest
    | some t =>
        obtain ⟨e, name, archive, settings, wrote, listing⟩ :=
          writeEntry_stores rest
        refine ⟨mounted, nav, d₁, d₂, t, e, navigated, target, slot.symm, name, archive,
          settings.trans (Driver.settings_of_disks disks), wrote, ?_⟩
        have buffer : t.parentBuffer = d.directory t.parentCluster := by
          unfold Driver.writeSlot at slot
          simp only at slot
          split at slot
          · cases slot
          obtain ⟨n, -, rest⟩ := Option.bind_eq_some_iff.mp slot.symm
          obtain ⟨s, -, rfl⟩ := Option.map_eq_some_iff.mp rest
          rfl
        rw [listing, buffer, Driver.fs_of_disks disks]
        rfl
  · cases rest

/-- A directory that was made has its entry in the first free slot that its parent shows once the
new cluster is filled. -/
theorem mkdirAllocated_stores {p new : Nat} {dirname : List UInt8}
    (returned : (mkdirAllocated p dirname new).run d = .ok (0, d')) :
    ∃ d₁ name slot,
      (writeDirectoryCluster new (newDirectoryBuffer new p)).run d = .ok (true, d₁) ∧
      makeName83 dirname = some name ∧ scanFree (d₁.listing p) 0 = some slot ∧
      d'.WroteDirectory p ∧
      d'.listing p = (d₁.listing p).set slot (Dirent.newDirectory name new) := by
  obtain ⟨ok, d₁, written, rest⟩ := bind_returns returned
  cases ok with
  | false => exact (giveUp_not_zero rest).elim
  | true =>
  obtain ⟨loaded, d₂, load, rest⟩ := bind_returns rest
  have disks := loadDirectoryCluster_keeps inert_disks.steady _ _ _ _ load
  cases loaded with
  | none => exact (giveUp_not_zero rest).elim
  | some b =>
  obtain ⟨rfl, -⟩ := loadDirectoryCluster_some load
  cases made : makeName83 dirname with
  | none =>
      rw [made] at rest
      exact (giveUp_not_zero rest).elim
  | some name =>
  rw [made] at rest
  obtain ⟨_, _, got, rest⟩ := bind_returns rest
  cases got
  rw [Driver.fs_of_disks disks, show d₁.fs.entries (d₁.directory p) = d₁.listing p from rfl] at rest
  cases scanned : scanFree (d₁.listing p) 0 with
  | none =>
      rw [scanned] at rest
      obtain ⟨_, _, -, rest⟩ := bind_returns rest
      exact (giveUp_not_zero rest).elim
  | some slot =>
  rw [scanned] at rest
  obtain ⟨ok, d₃, stored, rest⟩ := bind_returns rest
  cases ok with
  | false => exact (giveUp_not_zero rest).elim
  | true =>
  obtain ⟨_, d₄, refreshed, last⟩ := bind_returns rest
  cases last
  have disks' := refreshRoot_keeps_disks _ _ _ _ refreshed
  refine ⟨d₁, name, slot, written, rfl, scanned, ?_, ?_⟩
  · exact Driver.wroteDirectory_of_log (refreshRoot_keeps_log _ _ _ _ refreshed)
      (writeDirectoryCluster_logs stored)
  · rw [Driver.listing_of_disks disks', writeDirectoryCluster_listing stored,
      Driver.fs_of_disks disks, Fs.entries_store]
    rfl

end Stores

/-! ## Open after write -/

/-- From `d'`, `fat32_open` returns a handle to the entry in the slot that `fat32_write`
decided on in `d`. -/
def OpensWritten (d d' : Driver) (locals : Locals) (path : CStr) : Prop :=
  ∃ t d₁ e d₂, (writeTarget locals path).run d = .ok (some t, d₁) ∧
    (openEntry path).run d' = .ok (some (t.parentCluster, t.slot, e), d₂) ∧
    (fat32Open path).run d' = .ok (true, { d₂ with openFile := d'.fs.handle e })

/-- Open resolves the path as write does: it is one name, absolute or relative to a current
directory that open takes as it is, the name does not look deleted, and it is not stale. -/
def OpenReaches (d : Driver) (path : CStr) : Prop :=
  ∃ name n, OneName path.1 name ∧ makeName83 name = some n ∧
    (isAbsolute path.1 = true ∨ 2 ≤ d.fs.currentDirCluster ∨
      d.fs.currentDirCluster = d.fs.rootDirCluster) ∧
    n.1.getD 0 0 ≠ 0xE5 ∧ ¬ Stale n (d.listing (d.fs.startCluster path.1))

theorem Fs.openCluster_eq_iff (fs : Fs) (path : List UInt8) :
    fs.openCluster path = fs.startCluster path ↔ isAbsolute path = true ∨
      2 ≤ fs.currentDirCluster ∨ fs.currentDirCluster = fs.rootDirCluster := by
  unfold openCluster startCluster
  by_cases absolute : isAbsolute path = true
  · simp only [if_pos absolute]
    exact iff_of_true trivial (.inl absolute)
  by_cases low : fs.currentDirCluster < 2
  · simp only [if_neg absolute, if_pos low]
    constructor
    · exact fun same => .inr (.inr same.symm)
    · rintro (h | h | h)
      · exact absurd h absolute
      · omega
      · exact h.symm
  · simp only [if_neg absolute, if_neg low]
    exact iff_of_true trivial (.inr (.inl (by omega)))

section Slot

variable {n : Name83} {l : List Dirent} {i : Nat} {b : Bool} {e : Dirent}

/-- Before the slot that write chose a search meets neither the end marker nor the name,
unless the slot is stale. -/
theorem before_chosen (chosen : choose n l = some (i, b)) (marked : n.1.getD 0 0 ≠ 0)
    (fresh : ¬ Stale n l) :
    ∀ m, m < i → ∀ f, l[m]? = some f → f.name0 ≠ 0 ∧ misses n f := by
  cases b with
  | true =>
      obtain ⟨f, found⟩ := lookup_of_choose chosen marked fresh
      intro m early g at_m
      obtain ⟨shown, passing⟩ := (lookup_eq_some.mp found).2.2.2.2 m early g at_m
      exact ⟨shown, passing.imp id fun differs => by simpa using differs⟩
  | false =>
      obtain ⟨-, -, plains, -⟩ := choose_free chosen
      intro m early g at_m
      exact ⟨(plains m early g at_m).1, .inr (plains m early g at_m).2.2⟩

/-- Where a name is stale, the slot that write chose is behind the end marker. -/
theorem Stale.end_before (stale : Stale n l) (chosen : choose n l = some (i, b))
    (marked : n.1.getD 0 0 ≠ 0) : ∃ m t, m < i ∧ l[m]? = some t ∧ t.name0 = 0 := by
  obtain ⟨k, m, j, s, t, e, km, mj, at_k, skip, at_m, ends, at_j, visible, named, before⟩ := stale
  refine ⟨m, t, ?_, at_m, ends⟩
  by_contra late
  cases b with
  | true =>
      obtain ⟨f, slot, shown, same, -⟩ := choose_existing chosen
      by_cases here : i = m
      · subst here
        rw [slot] at at_m
        cases at_m
        rw [Dirent.name0_of_eq same] at ends
        exact marked ends
      · rcases (before i (by omega) f slot).2 with skipped | differs
        · rw [shown] at skipped
          cases skipped
        · simp [same] at differs
  | false =>
      obtain ⟨f, slot, plains, stops | ⟨-, -, none⟩⟩ := choose_free chosen
      · by_cases early : k < i
        · have shown := (plains k early s at_k).2.1
          rw [skip] at shown
          cases shown
        · exact (before i (by omega) f slot).1 stops
      · rcases none j e at_j with skipped | differs
        · rw [visible] at skipped
          cases skipped
        · exact differs named

end Slot

/-- In every state without failing transfers: after `fat32_write` returned 0, `fat32_open` of
the same path returns a handle to the entry that was written exactly when open resolves the
path as write does. -/
theorem open_finds_written_iff {d d' : Driver} (quiet : d.Quiet) {locals : Locals} {path : CStr}
    {data : List UInt8} (returned : (fat32Write locals path data).run d = .ok (0, d')) :
    OpensWritten d d' locals path ↔ OpenReaches d path := by
  obtain ⟨mounted, nav, d₁, d₂, t, e, navigated, target, slot, named, archive, settings, -,
    listing⟩ := fat32Write_stores quiet returned
  have quiet' := Driver.quiet_of_settings settings quiet
  have fs := Driver.fs_of_settings settings
  -- what write decided on, for a path of one name
  have decided : ∀ name n, OneName path.1 name → makeName83 name = some n →
      t.parentCluster = d.fs.startCluster path.1 ∧ t.name = n ∧
        choose n (d.listing t.parentCluster) = some (t.slot, t.existing) := by
    intro name n one made
    rw [one.writeSlot_eq locals navigated, made, Option.bind_some] at slot
    obtain ⟨s, chosen, rfl⟩ := Option.map_eq_some_iff.mp slot
    exact ⟨rfl, rfl, chosen⟩
  constructor
  · rintro ⟨t', d₃, e', d₄, target', opened, -⟩
    rw [target] at target'
    cases target'
    obtain ⟨n, made, rest⟩ := Option.bind_eq_some_iff.mp (openEntry_returns quiet' opened).symm
    obtain ⟨⟨i, f⟩, hit, last⟩ := Option.bind_eq_some_iff.mp rest
    simp only at last
    split at last
    · cases last
    simp only [Option.some.injEq, Prod.mk.injEq] at last
    obtain ⟨cluster, rfl, rfl⟩ := last
    obtain ⟨name, one, made'⟩ := OneName.of_made made
    obtain ⟨parent, rfl, chosen⟩ := decided name n one made'
    have marked := one.marked made'
    rw [cluster, listing] at hit
    rw [fs] at cluster
    obtain ⟨at_slot, -, visible, -, before⟩ := lookup_eq_some.mp hit
    refine ⟨name, t.name, one, made', ?_, ?_, fun stale => ?_⟩
    · rw [← Fs.openCluster_eq_iff, cluster, parent]
    · intro deleted
      have inside := (List.getElem?_eq_some_iff.mp at_slot).1
      rw [List.length_set] at inside
      rw [List.getElem?_set_self inside] at at_slot
      obtain rfl := Option.some.inj at_slot
      rw [← Dirent.name0_of_eq named] at deleted
      simp [Dirent.skipped, deleted] at visible
    · rw [← parent] at stale
      obtain ⟨m, x, early, at_m, ends⟩ := stale.end_before chosen marked
      refine (before m early x ?_).1 ends
      rw [List.getElem?_set_ne (by omega)]
      exact at_m
  · rintro ⟨name, n, one, made, reached, undeleted, fresh⟩
    obtain ⟨parent, same, chosen⟩ := decided name n one made
    have marked := one.marked made
    rw [← parent] at fresh
    have found := lookup_set (choose_lt chosen) (named.trans same)
      (by rw [Dirent.name0_of_eq (named.trans same)]; exact marked)
      (Dirent.visible_of_archive (named.trans same) undeleted archive)
      (before_chosen chosen marked fresh)
    have cluster : d'.fs.openCluster path.1 = t.parentCluster := by
      rw [fs, parent]
      exact (Fs.openCluster_eq_iff _ _).mpr reached
    have file : e.isDirectory = false := by
      rw [Dirent.isDirectory, archive]
      decide
    have opens : d'.openSlot path.1 = some (t.parentCluster, t.slot, e) := by
      unfold Driver.openSlot
      rw [one.made_eq, made, Option.bind_some, cluster, listing, found, Option.bind_some,
        if_neg (by rw [file]; decide)]
    obtain ⟨d₃, ran, opened⟩ := fat32Open_found quiet'
      ((Driver.mounted_of_settings settings).trans mounted) opens
    exact ⟨t, d₂, e, d₃, target, ran, opened⟩

/-- After `write a/b` open does not find `a/b`. -/
theorem open_misses_path : ∃ d', (fat32Write .blank (.ofBytes [0x61, slash, 0x62]) [1]).run withA =
    .ok (0, d') ∧ ¬ OpensWritten withA d' .blank (.ofBytes [0x61, slash, 0x62]) := by
  have wrote : Runs.check (fat32Write .blank (.ofBytes [0x61, slash, 0x62]) [1]) withA
      (fun r d => r = 0 && Runs.check (openEntry (.ofBytes [0x61, slash, 0x62])) d
        (fun hit _ => hit.isNone)) = true := by decide +kernel
  obtain ⟨_, d', ran, holds⟩ := Runs.of_check wrote
  obtain ⟨zero, missed⟩ := Bool.and_eq_true_iff.mp holds
  obtain rfl := of_decide_eq_true zero
  obtain ⟨hit, d₁, opened, none⟩ := Runs.of_check missed
  refine ⟨d', ran, ?_⟩
  rintro ⟨t, -, e, d₂, -, opened', -⟩
  rw [opened] at opened'
  cases opened'
  cases none

/-- After `write x` open finds `x`. -/
theorem open_finds_name : ∃ d', (fat32Write .blank (.ofBytes [0x78]) [1]).run formatted =
    .ok (0, d') ∧ OpensWritten formatted d' .blank (.ofBytes [0x78]) := by
  have wrote : Runs.check (fat32Write .blank (.ofBytes [0x78]) [1]) formatted (fun r _ => r = 0) =
      true := by decide +kernel
  obtain ⟨_, d', ran, zero⟩ := Runs.of_check wrote
  obtain rfl := of_decide_eq_true zero
  refine ⟨d', ran, (open_finds_written_iff (fun _ => rfl) ran).mpr ?_⟩
  have made : (makeName83 [0x78]).any fun n => n.1.getD 0 0 ≠ 0xE5 := by decide +kernel
  simp only [Option.any_eq_true] at made
  obtain ⟨n, same, undeleted⟩ := made
  refine ⟨[0x78], n, ⟨by decide +kernel, by decide, by decide, by decide⟩, same,
    .inr (.inl (by decide)), by simpa using undeleted, ?_⟩
  -- in an empty directory nothing is visible
  rintro ⟨k, m, j, s, t, e, km, mj, at_k, skip, -⟩
  have empty : (formatted.listing 2).all fun e => !e.skipped := by decide +kernel
  have shown := List.all_eq_true.mp empty s (List.mem_of_getElem? at_k)
  rw [skip] at shown
  cases shown

end XosKernel.Fat32
