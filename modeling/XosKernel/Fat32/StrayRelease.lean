/-
# Fat32.StrayRelease -- releases that leave the table

`fat32_free_cluster_chain` follows every number that `fat32_is_valid_cluster` accepts and sets
its entry, wherever that may be.  Which numbers it comes to follows from the entries on disk and
in the cached sector, which the release clears behind it, and from the transfers that fail, for
these end it (`Fs.Stays`).  Nothing is assumed about any of them.

The commands of a release are allowed exactly if no number on this walk lies behind the table
(`freeOldChain_allowed_iff`).
-/
import XosKernel.Fat32.FailingRelease
import XosKernel.Fat32.TableMap
import XosKernel.Fat32.Inert

namespace XosKernel.Fat32

open XosKernel.Theory

set_option autoImplicit false

/-! ## The walk -/

/-- What a release goes by: the entries on disk and in the cached sector, the number of that
sector, and the number of the next transfer. -/
structure TableView where
  disk : Nat → Nat
  cache : Nat → Nat
  cached : Nat
  next : Nat

section Walk

variable (fs : Fs) (fault : Nat → Option Nat)

/-- The entries of the sector of `c`, if it is the cached one or can be brought in. -/
def Fs.held (v : TableView) (c : Nat) : Nat → Nat :=
  if v.cached = fs.entrySector c then v.cache else v.disk

/-- What is left when the entry of `c` was looked up and cleared. -/
def Fs.passed (v : TableView) (c : Nat) : TableView where
  disk := Function.update v.disk c 0
  cache := Function.update (fs.held v c) c 0
  cached := fs.entrySector c
  next := fs.afterLookup v.next v.cached c + 2 * fs.numFats

/-- An update of the entry of `c` that begins with transfer `t` gets to a sector behind the last
table copy. -/
def Fs.Strays (t c : Nat) : Prop :=
  ∃ k < fs.numFats, fs.numFats * fs.sectorsPerFat ≤ k * fs.sectorsPerFat + c * 4 / 512 ∧
    ∀ n ≤ 2 * k, fault (t + n) = none

/-- The release from `c` on meets no number whose update strays.  It goes on behind a number if
its entry could be looked up and all copies of it were cleared. -/
def Fs.Stays (fs : Fs) (fault : Nat → Option Nat) : Nat → TableView → Nat → Prop
  | 0, _, _ => True
  | passes + 1, v, c => Accepted c →
      ¬ fs.Strays fault (fs.afterLookup v.next v.cached c) c ∧
        ((v.cached = fs.entrySector c ∨ fault v.next = none) →
          (∀ n < 2 * fs.numFats, fault (fs.afterLookup v.next v.cached c + n) = none) →
          fs.Stays fault passes (fs.passed v c) (fs.held v c c))

end Walk

/-- What a release from this state goes by. -/
def Driver.tableView (d : Driver) : TableView where
  disk := d.entry
  cache := entryIn d.fatSectorCache
  cached := d.fatCacheSector
  next := d.ata.transfers

/-- The release of a chain from this state meets no number whose update strays. -/
def Driver.ReleaseStays (d : Driver) (first : Nat) : Prop :=
  d.fs.Stays d.ata.fault (2 ^ 28) d.tableView first

/-! ## Numbers -/

section Numbers

variable {fs : Fs} {fault : Nat → Option Nat} (g : Geometry fs) {c t : Nat}
include g

theorem Geometry.lookupSector_accepted (accepted : Accepted c) :
    fs.lookupSector c = fs.entrySector c := by
  have disk := g.tables.on_disk
  have bound := (accepted_iff.mp accepted).2
  rw [Fs.lookupSector, Fs.entrySector, Nat.mod_eq_of_lt (show c * 4 < 2 ^ 32 by omega)]
  exact Nat.mod_eq_of_lt (by omega)

omit g in
theorem Fs.not_strays (inTable : fs.InTable c) : ¬ fs.Strays fault t c := by
  rintro ⟨k, copy, behind, -⟩
  have upTo : (k + 1) * fs.sectorsPerFat ≤ fs.numFats * fs.sectorsPerFat :=
    Nat.mul_le_mul_right _ copy
  rw [Nat.succ_mul] at upTo
  have index := inTable.2
  omega

/-- An update outside the table strays, unless a transfer fails in it. -/
theorem Geometry.inTable_of_stays (accepted : Accepted c) (stays : ¬ fs.Strays fault t c)
    (works : ∀ n < 2 * fs.numFats, fault (t + n) = none) : fs.InTable c := by
  have bound := (accepted_iff.mp accepted).2
  refine ⟨by omega, ?_⟩
  by_contra outside
  have fats := g.one_le_fats
  refine stays ⟨fs.numFats - 1, by omega, ?_, fun n upTo => works n (by omega)⟩
  obtain ⟨n, is⟩ : ∃ n, fs.numFats = n + 1 := ⟨fs.numFats - 1, by omega⟩
  rw [is, Nat.succ_mul, Nat.add_sub_cancel]
  omega

end Numbers

/-! ## The command log -/

/-- The log holds these commands, and perhaps later ones. -/
def Driver.Logged (old : List WriteCommand) (d : Driver) : Prop := old <:+ d.ata.writes

theorem grows_logged (old : List WriteCommand) : Grows (Driver.Logged old) :=
  ⟨⟨fun _ _ => rfl, fun _ _ => rfl, fun _ _ => rfl⟩,
    fun _ _ w logged => logged.trans (List.suffix_cons w _)⟩

/-- A command that gives only allowed commands does so before and behind any state in between. -/
theorem Inside.split {d d' d'' : Driver} (inside : Inside d d'') (fs_eq : d'.fs = d.fs)
    (early : d'.Logged d.ata.writes) (late : d''.Logged d'.ata.writes) :
    Inside d d' ∧ Inside d' d'' := by
  obtain ⟨all, writes, allowed⟩ := inside.writes
  obtain ⟨first, writes'⟩ := early
  obtain ⟨rest, writes''⟩ := late
  have parts : all = rest ++ first := by
    rw [← writes', ← List.append_assoc, writes] at writes''
    exact (List.append_cancel_right writes'').symm
  subst parts
  refine ⟨⟨fs_eq, first, writes'.symm, fun w member => ?_⟩,
    ⟨inside.fs_eq.trans fs_eq.symm, rest, writes''.symm, fun w member => ?_⟩⟩
  · exact allowed w (List.mem_append_right rest member)
  · rw [fs_eq]
    exact allowed w (List.mem_append_left first member)

/-! ## One pass -/

/-- The command that writes sector `j` of a table copy. -/
def Driver.copyCommand (d : Driver) (k j : Nat) : WriteCommand :=
  ⟨.table, (diskToAta d.fs.disk).1, (diskToAta d.fs.disk).2,
    (d.fs.fatStart + k * d.fs.sectorsPerFat + j) % 2 ^ 32, 1⟩

/-- A copy for which a transfer each works is followed by the rest. -/
theorem works_shift {fault : Nat → Option Nat} {t : Nat} (read : fault t = none)
    (write : fault (t + 1) = none) (b : Nat) :
    (∀ n < b + 2, fault (t + n) = none) ↔ ∀ n < b, fault (t + 1 + 1 + n) = none := by
  constructor
  · intro works n below
    rw [← works (n + 2) (by omega)]
    exact congrArg fault (by omega)
  · rintro works (_ | _ | n) below
    · exact read
    · exact write
    · rw [← works n (by omega)]
      exact congrArg fault (by omega)

/-- The commands for the copies from number `fat` on are that for `fat` and those behind it. -/
theorem copyCommand_cases {d : Driver} {j fat copies : Nat} {w : WriteCommand}
    (read : d.ata.fault d.ata.transfers = none)
    (write : d.ata.fault (d.ata.transfers + 1) = none) :
    (∃ k < copies + 1, (∀ n ≤ 2 * k, d.ata.fault (d.ata.transfers + n) = none) ∧
        w = d.copyCommand (fat + k) j) ↔
      (∃ k < copies, (∀ n ≤ 2 * k, d.ata.fault (d.ata.transfers + 1 + 1 + n) = none) ∧
        w = d.copyCommand (fat + 1 + k) j) ∨ w = d.copyCommand fat j := by
  have shift := fun k => works_shift read write (2 * k + 1)
  constructor
  · rintro ⟨_ | k, copy, works, rfl⟩
    · exact .inr rfl
    · refine .inl ⟨k, by omega, fun n upTo => ?_, by rw [show fat + (k + 1) = fat + 1 + k by omega]⟩
      exact (shift k).mp (fun m below => works m (by omega)) n (by omega)
  · rintro (⟨k, copy, works, rfl⟩ | rfl)
    · refine ⟨k + 1, by omega, fun n upTo => ?_, by rw [show fat + (k + 1) = fat + 1 + k by omega]⟩
      exact (shift k).mpr (fun m below => works m (by omega)) n (by omega)
    · refine ⟨0, by omega, fun n upTo => ?_, rfl⟩
      obtain rfl : n = 0 := by omega
      exact read

/-- The loop over the table copies: what it returns, and the commands that it gives. -/
theorem setFatCopies_logs (j off x : Nat) : ∀ (copies fat : Nat) (d : Driver),
    Runs (setFatCopies j off x fat copies) d fun ok d' => d'.fs = d.fs ∧
      d'.ata.fault = d.ata.fault ∧
      (ok = true ↔ ∀ n < 2 * copies, d.ata.fault (d.ata.transfers + n) = none) ∧
      ∃ new, d'.ata.writes = new ++ d.ata.writes ∧ ∀ w, w ∈ new ↔ ∃ k < copies,
        (∀ n ≤ 2 * k, d.ata.fault (d.ata.transfers + n) = none) ∧ w = d.copyCommand (fat + k) j
  | 0, fat, d => by
      refine Runs.pure ⟨rfl, rfl, by simp, [], rfl, fun w => ?_⟩
      simp
  | copies + 1, fat, d => by
      unfold setFatCopies
      refine Runs.get_bind ?_
      cases read : d.ata.fault d.ata.transfers with
      | some k =>
          refine Runs.step (ataReadSectors_failed read _ _ _ _) ?_
          rw [if_neg (show ¬ (-1 : Int) = 1 by decide)]
          have fails : ¬ d.ata.fault d.ata.transfers = none := by simp [read]
          refine Runs.pure ⟨rfl, rfl, iff_of_false Bool.false_ne_true fun works =>
            fails (works 0 (by omega)), [], rfl, fun w => iff_of_false List.not_mem_nil ?_⟩
          rintro ⟨k, -, works, -⟩
          exact fails (works 0 (Nat.zero_le _))
      | none =>
          refine Runs.step (ataReadSectors_ok read _ _ _ _) ?_
          rw [if_pos (by rfl)]
          cases write : d.ata.fault (d.ata.transfers + 1) with
          | some k =>
              refine Runs.step (ataWriteSectors_failed (d := d.ticked) write _ _ _ _ _) ?_
              rw [if_neg (show ¬ (-1 : Int) = 1 by decide)]
              have fails : ¬ d.ata.fault (d.ata.transfers + 1) = none := by simp [write]
              refine Runs.pure ⟨rfl, rfl, iff_of_false Bool.false_ne_true fun works =>
                fails (works 1 (by omega)), [d.copyCommand fat j], rfl, fun w => ?_⟩
              rw [List.mem_singleton]
              constructor
              · rintro rfl
                refine ⟨0, by omega, fun n upTo => ?_, rfl⟩
                obtain rfl : n = 0 := by omega
                exact read
              · rintro ⟨_ | k, -, works, rfl⟩
                · rfl
                · exact absurd (works 1 (by omega)) fails
          | none =>
              refine Runs.step (ataWriteSectors_ok (d := d.ticked) write _ _ _ _ _) ?_
              rw [if_pos (by rfl)]
              refine Runs.mono (setFatCopies_logs j off x copies (fat + 1) _) ?_
              rintro ok d' ⟨fs_eq, fault, all, new, writes, given⟩
              refine ⟨fs_eq, fault, all.trans (works_shift read write _).symm,
                new ++ [d.copyCommand fat j], ?_, fun w => ?_⟩
              · rw [List.append_assoc]
                exact writes
              · rw [List.mem_append, List.mem_singleton, copyCommand_cases read write]
                exact or_congr_left (given w)

section Entry

variable {d : Driver} {c k : Nat}

/-- The sector of an entry is one of the table copies, or lies behind them. -/
theorem allows_copyCommand_iff (g : Geometry d.fs) (accepted : Accepted c)
    (copy : k < d.fs.numFats) : d.fs.Allows (d.copyCommand k (c * 4 / 512)) ↔
      k * d.fs.sectorsPerFat + c * 4 / 512 < d.fs.numFats * d.fs.sectorsPerFat := by
  have disk := g.tables.on_disk
  have bound := (accepted_iff.mp accepted).2
  have before : k * d.fs.sectorsPerFat ≤ d.fs.numFats * d.fs.sectorsPerFat :=
    Nat.mul_le_mul_right _ (by omega)
  have place : (d.copyCommand k (c * 4 / 512)).lba =
      d.fs.fatStart + k * d.fs.sectorsPerFat + c * 4 / 512 := Nat.mod_eq_of_lt (by omega)
  constructor
  · intro allowed
    obtain ⟨-, k', copy', j', index, same⟩ := allowed.table rfl
    have inside := d.fs.tableSector_lt copy' index
    rw [place] at same
    omega
  · intro inside
    have size : 0 < d.fs.sectorsPerFat := by
      by_contra none
      rw [Nat.eq_zero_of_not_pos none, Nat.mul_zero, Nat.mul_zero] at inside
      omega
    have parts := Nat.div_add_mod (k * d.fs.sectorsPerFat + c * 4 / 512) d.fs.sectorsPerFat
    refine ⟨rfl, fun _ => ⟨rfl, (k * d.fs.sectorsPerFat + c * 4 / 512) / d.fs.sectorsPerFat,
      Nat.div_lt_of_lt_mul ?_, (k * d.fs.sectorsPerFat + c * 4 / 512) % d.fs.sectorsPerFat,
      Nat.mod_lt _ size, ?_⟩, fun no => absurd rfl no⟩
    · rwa [Nat.mul_comm d.fs.sectorsPerFat]
    · rw [Nat.mul_comm d.fs.sectorsPerFat] at parts
      rw [place, Fs.tableSector]
      omega

/-- `fat32_set_fat_entry` for an accepted number: the commands are allowed if they do not stray. -/
structure Stored (d d' : Driver) (c : Nat) (z : Int) : Prop where
  fs_eq : d'.fs = d.fs
  fault : d'.ata.fault = d.ata.fault
  done : z = 0 ↔ ∀ n < 2 * d.fs.numFats, d.ata.fault (d.ata.transfers + n) = none
  writes : ∃ new, d'.ata.writes = new ++ d.ata.writes ∧
    ((∀ w ∈ new, d.fs.Allows w) ↔ ¬ d.fs.Strays d.ata.fault d.ata.transfers c)

theorem setFatEntry_stored (g : Geometry d.fs) (accepted : Accepted c) (x : Nat) :
    Runs (setFatEntry c x) d fun z d' => Stored d d' c z := by
  have bound := (accepted_iff.mp accepted).2
  have offset : c * 4 % 2 ^ 32 = c * 4 := Nat.mod_eq_of_lt (by omega)
  unfold setFatEntry
  refine Runs.get_bind ?_
  simp only [offset]
  refine Runs.bind (setFatCopies_logs _ _ _ _ _ d) ?_
  rintro ok d₁ ⟨fs_eq, fault, all, new, writes, given⟩
  have strays : (∀ w ∈ new, d.fs.Allows w) ↔ ¬ d.fs.Strays d.ata.fault d.ata.transfers c := by
    constructor
    · rintro allowed ⟨k, copy, behind, works⟩
      have member := (given (d.copyCommand k (c * 4 / 512))).mpr
        ⟨k, copy, works, by rw [Nat.zero_add]⟩
      have inside := (allows_copyCommand_iff g accepted copy).mp (allowed _ member)
      omega
    · intro stays w member
      obtain ⟨k, copy, works, rfl⟩ := (given w).mp member
      rw [Nat.zero_add, allows_copyCommand_iff g accepted copy]
      by_contra behind
      exact stays ⟨k, copy, by omega, works⟩
  cases ok with
  | true =>
      rw [if_pos rfl]
      refine Runs.modify_bind (Runs.pure ?_)
      have works := iff_of_true (rfl : (0 : Int) = 0) (all.mp rfl)
      split
      · exact ⟨fs_eq, fault, works, new, writes, strays⟩
      · exact ⟨fs_eq, fault, works, new, writes, strays⟩
  | false =>
      rw [if_neg Bool.false_ne_true]
      exact Runs.pure ⟨fs_eq, fault, iff_of_false (by decide) fun works =>
        absurd (all.mpr works) Bool.false_ne_true, new, writes, strays⟩

end Entry

/-! ## What the release sees -/

/-- The state has the table that the view describes. -/
structure Driver.Views (d : Driver) (v : TableView) : Prop where
  disk : ∀ y, d.fs.InTable y → v.disk y = d.entry y
  cache : ∀ y, d.fs.InTable y → d.fatCacheSector = d.fs.entrySector y →
    v.cache y = entryIn d.fatSectorCache y
  cached : v.cached = d.fatCacheSector
  next : v.next = d.ata.transfers

theorem Driver.views_tableView (d : Driver) : d.Views d.tableView :=
  ⟨fun _ _ => rfl, fun _ _ _ => rfl, rfl, rfl⟩

section Views

variable {d d' : Driver} {v : TableView} {c : Nat}

/-- The lookup of an accepted number. -/
structure Seen (d : Driver) (v : TableView) (c next : Nat) (d' : Driver) : Prop where
  fs_eq : d'.fs = d.fs
  fault : d'.ata.fault = d.ata.fault
  writes : d'.ata.writes = d.ata.writes
  transfers : d'.ata.transfers = d.fs.afterLookup v.next v.cached c
  answer : (v.cached = d.fs.entrySector c ∨ d.ata.fault v.next = none) → d.fs.InTable c →
    next = d.fs.held v c c ∧ d'.Views
      ⟨v.disk, d.fs.held v c, d.fs.entrySector c, d.fs.afterLookup v.next v.cached c⟩
  failed : ¬ (v.cached = d.fs.entrySector c ∨ d.ata.fault v.next = none) → next = 0

theorem nextCluster_seen (g : Geometry d.fs) (views : d.Views v) (accepted : Accepted c) :
    Runs (nextCluster c) d fun next d' => Seen d v c next d' := by
  have place := g.lookupSector_accepted accepted
  have tag := views.cached
  by_cases cached : v.cached = d.fs.entrySector c
  · have held : d.fs.held v c = v.cache := if_pos cached
    have count : d.fs.afterLookup v.next v.cached c = v.next := if_pos cached
    have here : d.fatCacheSector = d.fs.entrySector c := tag.symm.trans cached
    refine ⟨_, d, nextCluster_cached (place.trans here.symm), rfl, rfl, rfl, ?_, ?_, ?_⟩
    · rw [count, views.next]
    · intro _ inTable
      rw [held, count, entryOffset_eq inTable]
      exact ⟨(views.cache c inTable here).symm, views.disk, views.cache, here.symm, views.next⟩
    · exact fun no => absurd (.inl cached) no
  · have held : d.fs.held v c = v.disk := if_neg cached
    have count : d.fs.afterLookup v.next v.cached c = v.next + 1 := if_neg cached
    have absent : d.fs.lookupSector c ≠ d.fatCacheSector := by
      rw [place, ← tag]
      exact fun same => cached same.symm
    cases fails : d.ata.fault d.ata.transfers with
    | some k =>
        have failed : ¬ (v.cached = d.fs.entrySector c ∨ d.ata.fault v.next = none) := by
          rw [views.next, fails]
          simp [cached]
        refine ⟨0, d.ticked, nextCluster_fails absent fails, rfl, rfl, rfl, ?_, ?_, fun _ => rfl⟩
        · rw [count, views.next]
          rfl
        · exact fun works => absurd works failed
    | none =>
        refine (nextCluster_reads absent fails).mono ?_
        rintro r d' ⟨rfl, fetched⟩
        rw [place] at fetched
        have loaded := fetched.loaded
        obtain ⟨_, rfl⟩ := fetched.frame
        refine ⟨rfl, rfl, rfl, ?_, ?_, ?_⟩
        · rw [count, views.next]
        · intro _ inTable
          have small : lba28 (d.fs.entrySector c) = d.fs.entrySector c :=
            (g.table0_sector inTable.2).2
          rw [small] at loaded
          rw [held, count, Driver.stored_eq g inTable]
          refine ⟨(views.disk c inTable).symm, views.disk, fun y inTable' same => ?_, rfl, ?_⟩
          · change d.fs.entrySector c = d.fs.entrySector y at same
            rw [same] at loaded
            exact (views.disk y inTable').trans (entryIn_congr loaded).symm
          · rw [views.next]
        · intro no
          rw [views.next] at no
          exact absurd (.inr fails) no

/-- The loop over the copies, when it succeeds. -/
theorem setFatCopies_updated {x : Nat} : ∀ (copies fat : Nat) (d d' : Driver),
    (setFatCopies (c * 4 % 2 ^ 32 / 512) (entryOffset c) x fat copies).run d = .ok (true, d') →
    Updated d d' c x fat copies copies
  | 0, fat, d, d', returned => by
      cases returned
      exact Updated.zero c x fat 0 (fun none => absurd none (Nat.lt_irrefl 0)) (fun _ => rfl)
        ⟨d.ata.transfers, d.ata.writes, rfl⟩
  | copies + 1, fat, d, d', returned => by
      obtain ⟨-, -, all, -⟩ := (setFatCopies_logs _ _ x (copies + 1) fat d).of_returned returned
      have works := all.mp rfl
      have read : d.ata.fault d.ata.transfers = none := works 0 (by omega)
      have write : d.ata.fault (d.ata.transfers + 1) = none := works 1 (by omega)
      unfold setFatCopies at returned
      obtain ⟨_, _, got, rest⟩ := bind_returns returned
      cases got
      obtain ⟨_, d₁, reading, rest⟩ := bind_returns rest
      rw [ataReadSectors_ok read] at reading
      cases reading
      rw [if_pos (by rfl)] at rest
      obtain ⟨_, d₂, writing, rest⟩ := bind_returns rest
      rw [ataWriteSectors_ok (by exact write)] at writing
      cases writing
      rw [if_pos (by rfl)] at rest
      have first := rewrote_one (d.fs.copySector fat c) (entryOffset c) x
        (d.ata.transfers + 2) _ fun _ inside => d.sector_read _ (fun _ => 0) inside
      exact Updated.succ read write first rfl (setFatCopies_updated copies (fat + 1) _ d' rest)

/-- `fat32_set_fat_entry`, when it succeeds. -/
theorem setFatEntry_updated {x : Nat} (returned : (setFatEntry c x).run d = .ok (0, d')) :
    ∃ d₁, Updated d d₁ c x 0 d.fs.numFats d.fs.numFats ∧
      d' = if d₁.fatCacheSector = d₁.fs.lookupSector c then
        { d₁ with fatSectorCache := d₁.fatSectorCache.putLe (entryOffset c) 4 x } else d₁ := by
  unfold setFatEntry at returned
  obtain ⟨_, _, got, rest⟩ := bind_returns returned
  cases got
  obtain ⟨ok, d₁, copied, rest⟩ := bind_returns rest
  cases ok with
  | false => cases rest
  | true =>
      rw [if_pos rfl] at rest
      obtain ⟨_, d₂, synced, last⟩ := bind_returns rest
      cases last
      exact ⟨d₁, setFatCopies_updated _ _ _ _ copied,
        (congrArg Prod.snd (Except.ok.inj synced)).symm⟩

/-- A successful update of the sector in the cache is seen on disk and in the cache. -/
theorem setFatEntry_views (g : Geometry d.fs) (inTable : d.fs.InTable c)
    (views : d.Views v) (here : v.cached = d.fs.entrySector c)
    (returned : (setFatEntry c 0).run d = .ok (0, d')) :
    d'.Views ⟨Function.update v.disk c 0, Function.update v.cache c 0, d.fs.entrySector c,
      v.next + 2 * d.fs.numFats⟩ := by
  obtain ⟨d₁, updated, is⟩ := setFatEntry_updated returned
  have transfers := updated.finished rfl
  have fats := g.one_le_fats
  have entry := fun {y} => updated.entry g inTable (y := y)
  obtain ⟨media, t, w, rfl⟩ := updated.rewrote.frame
  have tag : d.fatCacheSector = d.fs.lookupSector c := by
    rw [← views.cached, here, g.lookupSector_eq inTable]
  change d' = if d.fatCacheSector = d.fs.lookupSector c then _ else _ at is
  rw [if_pos tag] at is
  subst is
  refine ⟨fun y other => ?_, fun y other same => ?_, ?_, ?_⟩
  · have now := entry other
    change _ = if _ then _ else d.entry y at now
    refine Eq.trans ?_ now.symm
    change Function.update v.disk c 0 y = _
    by_cases mine : y = c
    · rw [mine, Function.update_self, if_pos ⟨fats, rfl⟩, Nat.zero_mod]
    · rw [Function.update_of_ne mine, if_neg fun both => mine both.2]
      exact views.disk y other
  · change d.fatCacheSector = d.fs.entrySector y at same
    have block : y * 4 / 512 = c * 4 / 512 := by
      rw [← views.cached, here, Fs.entrySector, Fs.entrySector] at same
      omega
    have put := entryIn_putLe d.fatSectorCache (c := c) (y := y) 0 block
    change Function.update v.cache c 0 y = entryIn (d.fatSectorCache.putLe (entryOffset c) 4 0) y
    rw [entryOffset_eq inTable, put]
    by_cases mine : y = c
    · rw [mine, Function.update_self, if_pos rfl, Nat.zero_mod]
    · rw [Function.update_of_ne mine, if_neg mine]
      exact views.cache y other same
  · exact here.symm.trans views.cached
  · rw [views.next]
    exact transfers.symm

end Views

/-! ## The release -/

section Release

/-- A pass that works and goes on leaves what `Fs.passed` says. -/
theorem Seen.views {d d₁ d₂ : Driver} {v : TableView} {c next : Nat} (g : Geometry d.fs)
    (seen : Seen d v c next d₁) (inTable : d.fs.InTable c)
    (works : v.cached = d.fs.entrySector c ∨ d.ata.fault v.next = none)
    (set : (setFatEntry c 0).run d₁ = .ok (0, d₂)) : d₂.Views (d.fs.passed v c) := by
  obtain ⟨-, views⟩ := seen.answer works inTable
  have views₂ := setFatEntry_views (seen.fs_eq.symm ▸ g) (seen.fs_eq.symm ▸ inTable) views
    (by rw [seen.fs_eq]) set
  rw [seen.fs_eq] at views₂
  exact views₂

/-- If the walk stays in the table, the loop returns, and all its commands are allowed. -/
theorem freeChainLoop_inside (passes : Nat) {v : TableView} {c : Nat} {d : Driver}
    (g : Geometry d.fs) (views : d.Views v) (stays : d.fs.Stays d.ata.fault passes v c)
    (enough : d.linked.card < passes) :
    Runs (freeChainLoop passes c) d fun _ d' => Inside d d' := by
  induction passes generalizing v c d with
  | zero => exact absurd enough (Nat.not_lt_zero _)
  | succ passes ih =>
      rw [freeChainLoop]
      by_cases accepted : Accepted c
      swap
      · rw [if_neg accepted]
        exact Runs.pure (Inside.refl d)
      rw [if_pos accepted]
      obtain ⟨stays, onward⟩ := stays accepted
      obtain ⟨next, d₁, looked, seen⟩ := nextCluster_seen g views accepted
      have g₁ : Geometry d₁.fs := seen.fs_eq.symm ▸ g
      obtain ⟨z, d₂, set, stored⟩ := setFatEntry_stored g₁ accepted 0
      refine Runs.step looked (Runs.step set ?_)
      obtain ⟨fs_eq, fault, done, new, writes, allowed⟩ := stored
      rw [seen.fs_eq, seen.fault, seen.transfers] at done allowed
      rw [seen.writes] at writes
      rw [seen.fs_eq] at fs_eq
      have inside : Inside d d₂ := ⟨fs_eq, new, writes, allowed.mpr stays⟩
      by_cases success : z = 0
      swap
      · rw [if_neg success]
        exact Runs.pure inside
      subst success
      rw [if_pos rfl]
      have works := done.mp rfl
      have inTable := g.inTable_of_stays accepted stays works
      by_cases last : (isEndOfChain next || next == 0) = true
      · rw [if_pos last]
        exact Runs.pure inside
      rw [if_neg last]
      have nonzero : next ≠ 0 := fun zero => last (by simp [zero])
      have reads : v.cached = d.fs.entrySector c ∨ d.ata.fault v.next = none := by
        by_contra fails
        exact nonzero (seen.failed fails)
      -- the entry that was followed is cleared, so fewer are left to follow
      obtain ⟨still, sees⟩ := (nextCluster_still g inTable).of_returned looked
      obtain ⟨step, cleared⟩ :=
        (setFatEntry_step g₁ (seen.fs_eq.symm ▸ inTable) 0).of_returned set
      have second : Step (fun _ z => z = 0) d d₂ :=
        Step.trans (still.mono fun _ _ no => no.elim) (step.mono fun _ _ both => both.2)
      have fewer : d₂.linked ⊂ d.linked := by
        refine Finset.ssubset_iff_of_subset second.linked_subset |>.mpr ⟨c, ?_, fun again => ?_⟩
        · exact Driver.mem_linked.mpr
            ⟨accepted, inTable, next, sees.resolve_left nonzero, nonzero⟩
        · obtain ⟨-, -, x, seen', other⟩ := Driver.mem_linked.mp again
          exact other (cleared rfl x seen')
      have less := Finset.card_lt_card fewer
      have stays₂ := onward reads works
      rw [← (seen.answer reads inTable).1, ← fs_eq, ← seen.fault, ← fault] at stays₂
      refine Runs.mono (ih (fs_eq.symm ▸ g) ?_ stays₂ (by omega)) fun _ _ rest =>
        inside.trans rest
      rw [fs_eq]
      exact seen.views g inTable reads set

/-- A loop that returned, and gave only allowed commands, stayed in the table. -/
theorem freeChainLoop_stays : ∀ (passes : Nat) (v : TableView) (c : Nat) (d : Driver),
    Geometry d.fs → d.Views v → ∀ r d', (freeChainLoop passes c).run d = .ok (r, d') →
    Inside d d' → d.fs.Stays d.ata.fault passes v c
  | 0, _, _, _, _, _, _, _, _, _ => trivial
  | passes + 1, v, c, d, g, views, r, d', returned, inside => by
      intro accepted
      rw [freeChainLoop, if_pos accepted] at returned
      obtain ⟨next, d₁, looked, rest⟩ := bind_returns returned
      have seen := (nextCluster_seen g views accepted).of_returned looked
      have g₁ : Geometry d₁.fs := seen.fs_eq.symm ▸ g
      obtain ⟨z, d₂, set, last⟩ := bind_returns rest
      obtain ⟨fs_eq, fault, done, new, writes, allowed⟩ :=
        (setFatEntry_stored g₁ accepted 0).of_returned set
      rw [seen.fs_eq, seen.fault, seen.transfers] at done allowed
      rw [seen.writes] at writes
      rw [seen.fs_eq] at fs_eq
      have rises : Rises (Driver.Logged d₂.ata.writes) (if z = 0 then
          if (isEndOfChain next || next == 0) = true then pure 0 else freeChainLoop passes next
        else pure (-1)) :=
        Rises.ite (Rises.ite (Rises.pure _)
          (freeChainLoop_rises (grows_logged _) passes next)) (Rises.pure _)
      obtain ⟨inside₂, later⟩ := inside.split fs_eq ⟨new, writes.symm⟩
        (rises _ _ _ last List.suffix_rfl)
      have stays : ¬ d.fs.Strays d.ata.fault (d.fs.afterLookup v.next v.cached c) c := by
        rw [← allowed]
        obtain ⟨new', writes', allowed'⟩ := inside₂.writes
        rw [writes] at writes'
        rw [List.append_cancel_right writes']
        exact allowed'
      refine ⟨stays, fun reads works => ?_⟩
      have inTable := g.inTable_of_stays accepted stays works
      obtain rfl : z = 0 := done.mpr works
      obtain ⟨answer, -⟩ := seen.answer reads inTable
      have views₂ := seen.views g inTable reads set
      rw [if_pos rfl] at last
      rw [← answer]
      by_cases ends : (isEndOfChain next || next == 0) = true
      · -- an end of the chain is no number to go on with
        cases passes with
        | zero => trivial
        | succ passes =>
            intro goes
            have bound := accepted_iff.mp goes
            simp only [isEndOfChain, Bool.or_eq_true, decide_eq_true_eq, beq_iff_eq] at ends
            omega
      · rw [if_neg ends] at last
        have rest := freeChainLoop_stays passes _ next d₂ (fs_eq.symm ▸ g) views₂ r d' last later
        rw [fs_eq, fault, seen.fault] at rest
        exact rest

variable {d d' : Driver} {c : Nat}

theorem Driver.releaseStays_of_low (low : c < 2) : d.ReleaseStays c :=
  fun accepted => absurd (accepted_iff.mp accepted).1 (by omega)

theorem freeOldChain_inside (g : Geometry d.fs) (stays : d.ReleaseStays c) :
    Runs (freeOldChain c) d fun _ d' => Inside d d' := by
  unfold freeOldChain
  split
  · exact Runs.bind (freeChainLoop_inside (2 ^ 28) g d.views_tableView stays d.card_linked_lt)
      fun _ _ inside => Runs.pure inside
  · exact Runs.pure (Inside.refl d)

theorem freeOldChain_stays (g : Geometry d.fs) {u : Unit}
    (returned : (freeOldChain c).run d = .ok (u, d')) (inside : Inside d d') :
    d.ReleaseStays c := by
  unfold freeOldChain at returned
  split at returned
  · obtain ⟨r, d₁, looped, last⟩ := bind_returns returned
    cases last
    exact freeChainLoop_stays (2 ^ 28) _ c d g d.views_tableView r d' looped inside
  · next low => exact Driver.releaseStays_of_low (by omega)

end Release

/-! ## Without failing transfers -/

section Calm

/-- With a true cache and no failing transfer, the walk is that of the entries on disk. -/
theorem Fs.Stays.inTable {fs : Fs} {fault : Nat → Option Nat} (g : Geometry fs)
    (calm : ∀ n, fault n = none) (passes : Nat) {v : TableView} {c : Nat}
    (stays : fs.Stays fault passes v c)
    (coherent : ∀ y, fs.InTable y → v.cached = fs.entrySector y → v.cache y = v.disk y)
    (accepted : Accepted c) (enough : (linked v.disk Accepted numbers).card < passes) :
    ∀ x, Visits v.disk Accepted c x → fs.InTable x := by
  induction passes generalizing v c with
  | zero => exact absurd enough (Nat.not_lt_zero _)
  | succ passes ih =>
      obtain ⟨stays, onward⟩ := stays accepted
      have inTable := g.inTable_of_stays accepted stays fun n _ => calm _
      have rest := onward (.inr (calm _)) fun n _ => calm _
      have held : ∀ y, fs.InTable y → fs.entrySector c = fs.entrySector y →
          fs.held v c y = v.disk y := by
        intro y other same
        unfold Fs.held
        split
        · next cached => exact coherent y other (cached.trans same)
        · rfl
      rw [held c inTable rfl] at rest
      by_cases goes : Accepted (v.disk c)
      · have unlinked : ¬ Accepted 0 := by decide
        have member : c ∈ numbers := Finset.mem_range.mpr (accepted_iff.mp accepted).2
        have fewer := linked_erase member goes unlinked
        have later := ih rest ?_ goes
          (by change (linked (Function.update v.disk c 0) Accepted numbers).card < passes; omega)
        · intro x visits
          rcases (Visits.erase goes unlinked).mp visits with rfl | onward
          · exact inTable
          · exact later x onward
        · intro y other same
          change Function.update (fs.held v c) c 0 y = Function.update v.disk c 0 y
          by_cases mine : y = c
          · rw [mine, Function.update_self, Function.update_self]
          · rw [Function.update_of_ne mine, Function.update_of_ne mine]
            exact held y other same
      · intro x visits
        rw [(Visits.of_stop goes).mp visits]
        exact inTable

variable {d : Driver} {first : Nat}

/-- The entries once the chain from `first` on is released: those on the walk are 0. -/
noncomputable def Driver.released (d : Driver) (first : Nat) : Nat → Nat :=
  if Accepted first then clearVisited d.entry Accepted first d.entry else d.entry

theorem Driver.links_copyEntry (d : Driver) : links (d.copyEntry 0) = d.entry := by
  funext c
  rw [links, Driver.copyEntry, Fs.tableSector_zero]
  rfl

theorem freeOldChain_released (g : Geometry d.fs) (lookable : d.Lookable)
    (stays : d.ReleaseStays first) : Runs (freeOldChain first) d fun _ d' => d'.fs = d.fs ∧
      ∃ m, d'.Maps (fun _ => False) m ∧ links m = d.released first := by
  have maps := lookable.maps
  unfold freeOldChain Driver.released
  by_cases accepted : Accepted first
  · have coherent : ∀ y, d.fs.InTable y → d.fatCacheSector = d.fs.entrySector y →
        entryIn d.fatSectorCache y = d.entry y := by
      intro y inTable tag
      refine entryIn_congr fun o byte => ?_
      rw [lookable.coherent (by rw [tag, Fs.entrySector]; omega)
        (by rw [tag, Fs.entrySector]; have := inTable.2; omega) o byte, tag]
    have few : (linked d.entry Accepted numbers).card + 1 < 2 ^ 28 := card_linked_lt
    have inTable := stays.inTable g lookable.noFault _ coherent accepted
      (Nat.lt_of_succ_lt few)
    rw [if_pos (accepted_iff.mp accepted).1, if_pos accepted]
    refine Runs.bind (freeClusterChain_walks maps accepted ?_) ?_
    · rw [d.links_copyEntry]
      exact inTable
    · rintro _ d' ⟨-, effect⟩
      refine Runs.pure ⟨effect.fs_eq, _, effect.maps, ?_⟩
      funext x
      rw [d.links_copyEntry]
      by_cases visits : Visits d.entry Accepted first x
      · rw [links, clearVisited_of_visits visits, clearVisited_of_visits visits, Nat.zero_mod]
      · rw [links, clearVisited_of_not visits, clearVisited_of_not visits, ← d.links_copyEntry]
        rfl
  · rw [if_neg accepted]
    split
    · next low =>
        unfold freeClusterChain
        obtain ⟨passes, is⟩ : ∃ passes, 2 ^ 28 = passes + 1 := ⟨2 ^ 28 - 1, rfl⟩
        rw [is, freeChainLoop, if_neg accepted]
        exact Runs.pure ⟨rfl, _, maps, d.links_copyEntry⟩
    · exact Runs.pure ⟨rfl, _, maps, d.links_copyEntry⟩

end Calm

end XosKernel.Fat32
