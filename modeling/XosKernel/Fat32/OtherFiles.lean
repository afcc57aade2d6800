/-
# Fat32.OtherFiles -- the files a call is not about

A write, a delete or a mkdir touches one slot (`Vol.Touches`), so every other file keeps its
entry and its contents.  It is also found again under its name, with one exception:
`fat32_mkdir` compares the text of the last component, not its 8.3 name, so a name such as
`foo.` passes its check and puts a second entry `FOO` into the first free slot.  If that slot
comes before the file of this name, open finds the directory and refuses it
(`call_keeps_other_files_iff`).
-/
import XosKernel.Fat32.Directories
import XosKernel.Fat32.RoundTrip

namespace XosKernel.Fat32

open XosKernel.Theory

set_option autoImplicit false

/-! ## Opening and reading a file of a directory -/

/-- The driver with `c` as its current directory. -/
def Driver.enter (d : Driver) (c : Nat) : Driver :=
  { d with fs := { d.fs with currentDirCluster := c } }

/-- Open a file and read from it: its size and the answers, if there is such a file. -/
def openReads (path : CStr) (counts : List Nat) :
    FatM (Option (Nat × List (Int × List UInt8))) := do
  if ← fat32Open path then
    let d ← get
    let answers ← readAll counts
    return some (d.openFile.fileSize, answers)
  else
    return none

/-- In `d'` the path opens the slot `hit`, and reads deliver what they deliver in `d`: the
same size and the same bytes. -/
structure StillOpens (d d' : Driver) (path : CStr) (hit : Nat × Nat × Dirent) : Prop where
  entry : Runs (openEntry path) d' fun r _ => r = some hit
  reads : ∀ counts, ∃ r, Runs (openReads path counts) d (fun r' _ => r' = some r) ∧
    Runs (openReads path counts) d' fun r' _ => r' = some r

/-- From `d` to `d'` every live file that is not the target stays in its slot; from every
live directory it is opened under the names that opened it before, and has the same size and
bytes. -/
structure FilesKept (d d' : Driver) (target : Nat → Nat → Prop) : Prop where
  live : ∀ p i f, d.vol.Live p i f → f.isDirectory = false → ¬ target p i → d'.vol.Live p i f
  opens : ∀ c, d.vol.Dir c → ∀ path p i f d₁,
    (openEntry path).run (d.enter c) = .ok (some (p, i, f), d₁) → ¬ target p i →
    StillOpens (d.enter c) (d'.enter c) path (p, i, f)

theorem Driver.Good.enter {d : Driver} (good : d.Good) (c : Nat) : (d.enter c).Good :=
  good.setCurrent c d.fs.currentPath

/-- What opening and reading a file delivers. -/
theorem openReads_runs {d : Driver} (good : d.Good) {path : CStr} {c i : Nat} {e : Dirent}
    (range : d.vol.InRange (d.fs.openCluster path.1))
    (found : d.vol.openMatch (d.fs.openCluster path.1) path.1 = some (c, i, e))
    (readable : d.vol.Readable (d.fs.handle e)) (counts : List Nat) :
    Runs (openReads path counts) d fun r _ =>
      r = some (e.fileSize.toNat, d.vol.readAll (d.fs.handle e) counts) := by
  refine Runs.bind (fat32Open_runs good path range) ?_
  rintro ok d₁ ⟨good₁, fs, vol, ⟨none, -⟩ | ⟨c', i', e', found', rfl, handle⟩⟩
  · rw [found] at none
    cases none
  rw [found] at found'
  cases found'
  simp only [if_true]
  refine Runs.get_bind ?_
  have readable₁ : d₁.vol.Readable d₁.openFile := by rw [vol, handle]; exact readable
  have disk : d₁.openFile.disk = d₁.fs.disk := by rw [handle, fs]; rfl
  refine Runs.bind (readAll_runs counts d₁ good₁ disk readable₁) ?_
  rintro answers d₂ ⟨rfl, -⟩
  rw [vol, handle]
  exact Runs.pure rfl

/-! ## Searching a directory with one slot replaced -/

/-- A search that found a slot finds it again after another slot was replaced, if it passes
over what is there now. -/
theorem lookup_replaced {test : Dirent → Bool} {l l' : List Dirent} {i j : Nat} {f : Dirent}
    (rest : ∀ k, k ≠ i → l'[k]? = l[k]?) (found : lookup test l = some (j, f)) (other : j ≠ i)
    (skips : i < j → ∀ e', l'[i]? = some e' → passes test e') :
    lookup test l' = some (j, f) := by
  obtain ⟨slot, marked, visible, hit, before⟩ := lookup_eq_some.mp found
  refine lookup_eq_some.mpr ⟨by rw [rest j other]; exact slot, marked, visible, hit, ?_⟩
  intro m early e' at_m
  by_cases here : m = i
  · subst here
    exact skips early e' at_m
  · rw [rest m here] at at_m
    exact before m early e' at_m

/-- What an open that succeeds found. -/
theorem Vol.openMatch_eq_some {v : Vol} {c p i : Nat} {path : CStr} {f : Dirent}
    (found : v.openMatch c path.1 = some (p, i, f)) : p = c ∧ f.isDirectory = false ∧
      ∃ name, makeName83 (skipSlash path.1) = some name ∧
        lookup (fun e => e.name = name) (v.slots c) = some (i, f) := by
  obtain ⟨name, made, rest⟩ := Option.bind_eq_some_iff.mp found
  obtain ⟨⟨i', f'⟩, hit, last⟩ := Option.bind_eq_some_iff.mp rest
  simp only at last
  split at last
  · cases last
  · rename_i file
    cases last
    exact ⟨rfl, by simpa using file, name, made, hit⟩

/-- An open that found an entry of a live directory found a live file. -/
theorem Vol.openMatch_live {v : Vol} {c p i : Nat} {path : CStr} {f : Dirent} (dir : v.Dir c)
    (found : v.openMatch c path.1 = some (p, i, f)) : v.Live p i f := by
  obtain ⟨rfl, -, name, made, hit⟩ := Vol.openMatch_eq_some found
  obtain ⟨slot, marked, visible, same, -⟩ := lookup_eq_some.mp hit
  have named : f.name = name := by simpa using same
  have proper := makeName83_not_dots made
  refine ⟨dir, slot, Dirent.inUse_of_visible marked visible, ?_⟩
  simp [Dirent.isDots, named, proper.1, proper.2]

/-! ## What a touched slot leaves of the others -/

/-- The slot a write chose holds nothing that a search for a later file stops at: the name
of the later file is another one. -/
theorem Vol.over_place {v : Vol} {start : Nat} {locals : Locals} {path : CStr} {pl : Place}
    {e e' f : Dirent} {name : Name83} {j : Nat} (place : v.place start locals path.1 = some pl)
    (placed : v.Placed pl e)
    (found : lookup (fun e => e.name = name) (v.slots pl.parent) = some (j, f))
    (late : pl.slot < j) (now : e' = e ∨ e'.name = pl.name) :
    passes (fun e => e.name = name) e' := by
  obtain ⟨slot, -, visible, same, before⟩ := lookup_eq_some.mp found
  have passed := before pl.slot late e placed.slot
  rcases now with rfl | renamed
  · exact passed
  refine ⟨by rw [Dirent.name0_of_eq renamed]; exact placed.marked, .inr ?_⟩
  simp only [renamed, decide_eq_false_iff_not]
  rintro rfl
  obtain ⟨-, -, -, -, chosen⟩ := Vol.place_eq_some place
  cases existing : pl.existing with
  | true =>
      rw [existing] at chosen
      obtain ⟨e₁, at_slot, shown, sameName, -⟩ := choose_existing chosen
      rw [placed.slot] at at_slot
      cases at_slot
      rcases passed.2 with skip | differs
      · rw [shown] at skip
        cases skip
      · simp [sameName] at differs
  | false =>
      rw [existing] at chosen
      obtain ⟨e₁, at_slot, -, ends | ⟨-, -, all⟩⟩ := choose_free chosen
      · rw [placed.slot] at at_slot
        cases at_slot
        exact passed.1 ends
      · rcases all j f slot with skip | differs
        · rw [visible] at skip
          cases skip
        · simp [differs] at same

/-- A mkdir that fails leaves the volume, or writes to a free cluster. -/
theorem Vol.mkdir_failed {v : Vol} {start : Nat} {locals : Locals} {path : List UInt8}
    (failed : (v.mkdir start locals path).1 ≠ 0) :
    (v.mkdir start locals path).2 = v ∨
      ∃ c b, v.fat c = 0 ∧ (v.mkdir start locals path).2 = v.setBytes c b := by
  unfold mkdir at failed ⊢
  simp only at failed ⊢
  split at failed
  · rename_i taken
    rw [if_pos taken]
    exact .inl rfl
  rename_i fresh
  rw [if_neg fresh]
  cases free : v.freeClusters with
  | nil => exact .inl rfl
  | cons c rest =>
      rw [free] at failed
      have unused : v.fat c = 0 := (mem_freeClusters.mp (by rw [free]; exact List.mem_cons_self)).2
      simp only at failed ⊢
      split
      · exact .inr ⟨c, _, unused, rfl⟩
      · rename_i name made
        simp only [made] at failed
        split
        · exact .inr ⟨c, _, unused, rfl⟩
        · rename_i slot scanned
          simp only [scanned] at failed
          exact absurd rfl failed

/-- `fat32_mkdir` will succeed and put its entry before a file of the same 8.3 name. -/
def MkdirShadows (d : Driver) (path : CStr) : Prop :=
  ∃ nav d' parent dirname name slot j f, (navigatePath path.1).run d = .ok (nav, d') ∧
    nav.result ≠ 1 ∧ nav.parentCluster = some parent ∧ nav.filename = some dirname ∧
    makeName83 dirname = some name ∧ d.vol.freeClusters ≠ [] ∧
    scanFree (d.vol.slots parent) 0 = some slot ∧
    lookup (fun e => e.name = name) (d.vol.slots parent) = some (j, f) ∧
    f.isDirectory = false ∧ slot < j

theorem Driver.openCluster_dir {d : Driver} {c : Nat} (dir : d.vol.Dir c) (path : List UInt8) :
    d.vol.Dir ((d.enter c).fs.openCluster path) := by
  unfold Fs.openCluster
  split
  · exact ⟨_, .root⟩
  split
  · exact ⟨_, .root⟩
  · exact dir

section Kept

variable {d d' : Driver} (wf : WellFormed d)
include wf

theorem WellFormed.readable {p i : Nat} {f : Dirent} (live : d.vol.Live p i f) :
    f.firstCluster = 0 ∨ ∃ l, d.vol.ChainFrom f.firstCluster l := by
  by_cases empty : f.firstCluster = 0
  · exact .inl empty
  · exact .inr (wf.owned.chains _ _ (.entry live empty))

/-- A file whose chain two volumes agree on reads the same from both. -/
theorem WellFormed.reads_same {p i q j : Nat} {f : Dirent} (touches : d.vol.Touches d'.vol p i)
    (dir : d.vol.Dir p) (live : d.vol.Live q j f) (file : f.isDirectory = false)
    (other : (q, j) ≠ (p, i)) (counts : List Nat) :
    d'.vol.Readable (d.fs.handle f) ∧
      d'.vol.readAll (d.fs.handle f) counts = d.vol.readAll (d.fs.handle f) counts := by
  rcases wf.readable live with empty | ⟨l, chain⟩
  · have nothing : d.vol.Agree d'.vol [] := ⟨touches.spc, by simp, by simp⟩
    exact ⟨.inl empty, Vol.readAll_congr nothing counts _ (.inl empty)⟩
  · have agree := touches.agree wf.owned.toSound dir live other file chain
    exact ⟨.inr ⟨l, touches.chain_mono live other chain⟩,
      Vol.readAll_congr agree counts _ (.inr ⟨l, chain, fun _ member => member⟩)⟩

/-- Touching a slot keeps the other files, if searches for them pass over the slot. -/
theorem WellFormed.files_kept {p i : Nat} {target : Nat → Nat → Prop} (good' : d'.Good)
    (disk : ∀ f, d'.fs.handle f = d.fs.handle f) (touches : d.vol.Touches d'.vol p i)
    (dir : d.vol.Dir p)
    (file : ∀ e, (d.vol.slots p)[i]? = some e → e.inUse = true → e.isDirectory = false)
    (hit : ∀ q j f, d.vol.Live q j f → ¬ target q j → (q, j) ≠ (p, i))
    (skips : ∀ name j f, lookup (fun e => e.name = name) (d.vol.slots p) = some (j, f) →
      f.isDirectory = false → i < j → ∀ e', (d'.vol.slots p)[i]? = some e' →
      passes (fun e => e.name = name) e') : FilesKept d d' target := by
  refine ⟨?_, ?_⟩
  · intro q j f live _ notTarget
    exact touches.live_mono file live (hit q j f live notTarget)
  intro c current path q j f d₁ ran notTarget
  have dirO := Driver.openCluster_dir current path.1
  obtain ⟨matched, -⟩ := (openEntry_runs (wf.good.enter c) path
    (wf.owned.inRange_dir dirO)).of_returned ran
  change some (q, j, f) = d.vol.openMatch ((d.enter c).fs.openCluster path.1) path.1 at matched
  have same : (d'.enter c).fs.openCluster path.1 = (d.enter c).fs.openCluster path.1 := by
    have root : d'.fs.rootDirCluster = d.fs.rootDirCluster := touches.root
    unfold Fs.openCluster
    change (if _ then d'.fs.rootDirCluster else if _ then d'.fs.rootDirCluster else c) = _
    rw [root]
    rfl
  have live := Vol.openMatch_live dirO matched.symm
  obtain ⟨rfl, fileFound, name, made, found⟩ := Vol.openMatch_eq_some matched.symm
  have other := hit _ j f live notTarget
  -- the search in the changed directory, or in one that is as it was
  have found' : lookup (fun e => e.name = name)
      (d'.vol.slots ((d.enter c).fs.openCluster path.1)) = some (j, f) := by
    by_cases here : (d.enter c).fs.openCluster path.1 = p
    · rw [here] at found other dirO ⊢
      refine lookup_replaced (i := i) (fun k ne => touches.slots p dirO k ?_) found ?_
        (skips name j f found fileFound)
      · exact fun h => ne (Prod.mk.inj h).2
      · rintro rfl
        exact other rfl
    · have rest : d'.vol.slots ((d.enter c).fs.openCluster path.1) =
          d.vol.slots ((d.enter c).fs.openCluster path.1) := by
        apply List.ext_getElem?
        intro k
        exact touches.slots _ dirO k fun h => here (Prod.mk.inj h).1
      rw [rest]
      exact found
  have range' : (d'.enter c).vol.InRange ((d'.enter c).fs.openCluster path.1) := by
    have inside := wf.owned.inRange_dir dirO
    rw [same]
    change 2 ≤ _ ∧ _ < d'.vol.total + 2
    rw [touches.total]
    exact inside
  have matched' : (d'.enter c).vol.openMatch ((d'.enter c).fs.openCluster path.1) path.1 =
      some ((d.enter c).fs.openCluster path.1, j, f) := by
    rw [same]
    change d'.vol.openMatch _ _ = _
    unfold Vol.openMatch
    rw [made, Option.bind_some, found', Option.bind_some, if_neg (by rw [fileFound]; decide)]
  refine ⟨?_, ?_⟩
  · refine Runs.mono (openEntry_runs (good'.enter c) path range') ?_
    rintro _ d₂ ⟨rfl, -⟩
    exact matched'
  intro counts
  obtain ⟨readable', reads⟩ := wf.reads_same touches dir live fileFound other counts
  refine ⟨_, openReads_runs (wf.good.enter c) (wf.owned.inRange_dir dirO) matched.symm
    (wf.readable live) counts, ?_⟩
  have handle : (d'.enter c).fs.handle f = (d.enter c).fs.handle f := disk f
  refine Runs.mono (openReads_runs (good'.enter c) range' matched'
    (by rw [handle]; exact readable') counts) ?_
  rintro r _ rfl
  rw [handle]
  exact congrArg (fun answers => some (f.fileSize.toNat, answers)) reads

/-- A change behind the last slot of the root, where nothing is, keeps all files. -/
theorem WellFormed.files_kept_outside {target : Nat → Nat → Prop} (good' : d'.Good)
    (disk : ∀ f, d'.fs.handle f = d.fs.handle f)
    (touches : d.vol.Touches d'.vol d.vol.root (d.vol.spc * 16)) : FilesKept d d' target := by
  have outside : ∀ c, (d.vol.slots c)[d.vol.spc * 16]? = none := by
    intro c
    rw [List.getElem?_eq_none_iff, Vol.length_slots]
  refine wf.files_kept good' disk touches ⟨_, .root⟩ ?_ ?_ ?_
  · intro e slot
    rw [outside] at slot
    cases slot
  · rintro q j f live - ⟨rfl, rfl⟩
    have slot := live.slot
    rw [outside] at slot
    cases slot
  · intro name j f found _ late
    have bound := (List.getElem?_eq_some_iff.mp (lookup_eq_some.mp found).1).1
    rw [Vol.length_slots] at bound
    omega

theorem WellFormed.files_kept_of_eq {target : Nat → Nat → Prop} (good' : d'.Good)
    (disk : ∀ f, d'.fs.handle f = d.fs.handle f) (same : d'.vol = d.vol) :
    FilesKept d d' target := by
  refine wf.files_kept_outside good' disk ?_
  rw [same]
  exact Vol.Touches.refl _ _ _

theorem WellFormed.write_files_kept {locals : Locals} {path : CStr} {data : List UInt8} {r : Int}
    {target : Nat → Nat → Prop}
    (target_iff : ∀ p i, target p i ↔ ∃ t d', (writeTarget locals path).run d = .ok (some t, d') ∧
      t.parentCluster = p ∧ t.slot = i)
    (file : WriteMatchesFile d locals path)
    (returned : (fat32Write locals path data).run d = .ok (r, d')) : FilesKept d d' target := by
  obtain ⟨good', fs, same | ⟨pl, e, place, placed, notDir, touches, stored⟩⟩ :=
    wf.write_touches file returned
  · exact wf.files_kept_of_eq good' (by rw [fs]; exact fun _ => rfl) same
  · refine wf.files_kept good' (by rw [fs]; exact fun _ => rfl) touches placed.dir ?_ ?_ ?_
    · intro f slot
      rw [placed.slot] at slot
      cases slot
      exact notDir
    · intro q j f _ notTarget
      exact wf.write_target place placed ((not_congr (target_iff q j)).mp notTarget)
    · intro name j f found _ late e' at_slot
      refine Vol.over_place place placed found late ?_
      rcases stored with unchanged | ⟨e₁, now, renamed⟩
      · rw [unchanged] at at_slot
        exact .inl (Option.some.inj at_slot).symm
      · rw [now] at at_slot
        cases at_slot
        exact .inr renamed

theorem WellFormed.delete_files_kept {path : CStr} {r : Int} {locals : Locals}
    (file : DeleteMatchesFile d path) (returned : (fat32Delete path).run d = .ok (r, d')) :
    FilesKept d d' ((Call.delete path).Target d locals) := by
  obtain ⟨good', fs, same | ⟨i, e, found, live, notDir, touches, stored⟩⟩ :=
    wf.delete_touches file returned
  · exact wf.files_kept_of_eq good' (by rw [fs]; exact fun _ => rfl) same
  · refine wf.files_kept good' (by rw [fs]; exact fun _ => rfl) touches ⟨_, .root⟩ ?_ ?_ ?_
    · intro f slot _
      rw [live.slot] at slot
      cases slot
      exact notDir
    · rintro q j f - notTarget ⟨rfl, rfl⟩
      obtain ⟨_, d₁, ran, rfl, -⟩ :=
        deleteEntry_runs wf.good (wf.owned.inRange_dir ⟨_, .root⟩) path
      rw [found] at ran
      exact notTarget ⟨e, d₁, ran, rfl⟩
    · intro name j f _ _ _ e' at_slot
      rw [stored] at at_slot
      cases at_slot
      exact ⟨(by decide : (0xE5 : UInt8) ≠ 0), .inl rfl⟩

/-- A shadowing mkdir, read off the volume. -/
theorem WellFormed.shadows_eq {path : CStr} {p : Nat} {dirname : List UInt8}
    (parentCluster : (d.vol.navigate (d.fs.startCluster path.1) path.1).parentCluster = some p)
    (reported : (d.vol.navigate (d.fs.startCluster path.1) path.1).filename = some dirname) :
    MkdirShadows d path ↔ (d.vol.navigate (d.fs.startCluster path.1) path.1).result ≠ 1 ∧
      ∃ name slot j f, makeName83 dirname = some name ∧ d.vol.freeClusters ≠ [] ∧
        scanFree (d.vol.slots p) 0 = some slot ∧
        lookup (fun e => e.name = name) (d.vol.slots p) = some (j, f) ∧
        f.isDirectory = false ∧ slot < j := by
  obtain ⟨nav, d₁, ran, rfl, -⟩ := (wf.navigates path.1).runs
  constructor
  · rintro ⟨nav', d₂, p', dirname', name, slot, j, f, ran', fresh, parent, text, rest⟩
    rw [ran] at ran'
    cases ran'
    rw [parentCluster] at parent
    rw [reported] at text
    cases parent
    cases text
    exact ⟨fresh, name, slot, j, f, rest⟩
  · rintro ⟨fresh, name, slot, j, f, rest⟩
    exact ⟨_, d₁, p, dirname, name, slot, j, f, ran, fresh, parentCluster, reported, rest⟩

/-- A directory entry before a file of its name hides the file from open. -/
theorem WellFormed.hidden {p i j : Nat} {e' f : Dirent} {dirname : List UInt8} {name : Name83}
    (good' : d'.Good) (fs : d'.fs = d.fs) (dir : d.vol.Dir p) (text : (0 : UInt8) ∉ dirname)
    (made : makeName83 dirname = some name)
    (found : lookup (fun e => e.name = name) (d.vol.slots p) = some (j, f))
    (file : f.isDirectory = false) (stored : (d'.vol.slots p)[i]? = some e')
    (named : e'.name = name) (visible : e'.skipped = false) (early : i < j) :
    ¬ FilesKept d d' fun _ _ => False := by
  obtain ⟨noSlash, opened⟩ := makeName83_skipSlash made
  have low := (wf.owned.inRange_dir dir).1
  have range := wf.owned.inRange_dir dir
  have relative : isAbsolute (skipSlash dirname) = false := by
    unfold isAbsolute
    cases first : skipSlash dirname with
    | nil => rfl
    | cons c rest =>
        rw [first, List.mem_cons, not_or] at noSlash
        simpa using Ne.symm noSlash.1
  have cluster : ∀ d₀ : Driver, (d₀.enter p).fs.openCluster (skipSlash dirname) = p := by
    intro d₀
    unfold Fs.openCluster
    rw [if_neg (by rw [relative]; decide)]
    exact if_neg (by
      change ¬ p < 2
      omega)
  intro kept
  let path : CStr := ⟨skipSlash dirname, fun member => text (mem_of_mem_skipSlash member)⟩
  have matched : d.vol.openMatch p path.1 = some (p, j, f) := by
    unfold Vol.openMatch
    rw [opened, Option.bind_some, found, Option.bind_some, if_neg (by rw [file]; decide)]
  obtain ⟨_, d₁, ran, rfl, -⟩ := openEntry_runs (wf.good.enter p) path
    (by rw [cluster]; exact range)
  rw [cluster] at ran
  have ran' : (openEntry path).run (d.enter p) = .ok (some (p, j, f), d₁) := by
    rw [ran]
    exact congrArg (fun r => Except.ok (r, d₁)) matched
  obtain ⟨_, d₂, after, same⟩ := (kept.opens p dir path p j f d₁ ran' id).entry
  have range' : (d'.enter p).vol.InRange p := by
    change 2 ≤ p ∧ p < d'.fs.totalClusters + 2
    rw [fs]
    exact range
  obtain ⟨result, -⟩ := (openEntry_runs (good'.enter p) path
    (by rw [cluster]; exact range')).of_returned after
  rw [same, cluster] at result
  obtain ⟨-, -, name', made', again⟩ := Vol.openMatch_eq_some result.symm
  rw [opened] at made'
  cases made'
  have passed := (lookup_eq_some.mp again).2.2.2.2 i early e' stored
  rcases passed.2 with skip | differs
  · rw [visible] at skip
    cases skip
  · simp [named] at differs

theorem WellFormed.mkdir_files_kept {locals : Locals} {path : CStr} {r : Int}
    (parent : HasParent d path) (returned : (fat32Mkdir locals path).run d = .ok (r, d')) :
    FilesKept d d' (fun _ _ => False) ↔ ¬ MkdirShadows d path := by
  have sound := wf.owned.toSound
  have navigates := wf.navigates path.1
  obtain ⟨dirname, reported, printable⟩ := wf.filename parent
  have followed := Vol.navigate_followed reported
  obtain ⟨result, effect⟩ :=
    (fat32Mkdir_runs wf.good sound locals navigates followed).of_returned returned
  obtain ⟨p, parentCluster, dir⟩ := navigates.reaches followed
  have disk : ∀ f, d'.fs.handle f = d.fs.handle f := by
    rw [effect.fs_eq]
    exact fun _ => rfl
  rw [wf.shadows_eq parentCluster reported]
  by_cases ok : (d.vol.mkdir (d.fs.startCluster path.1) locals path.1).1 = 0
  · obtain ⟨fresh, c, rest, name, i, free, made, scanned, left⟩ := Vol.mkdir_ok ok
    rw [parentCluster, Option.getD_some] at scanned left
    rw [reported, Option.getD_some] at made
    obtain ⟨n, e, index, slot, available, before⟩ := Vol.scanFree_eq_some scanned
    rw [Nat.zero_add] at index
    subst index
    have notUsed : ∀ {P : Prop}, e.inUse = true → P := by
      rintro P used
      rcases available with ends | deleted
      · simp [Dirent.inUse, ends] at used
      · simp [Dirent.inUse, deleted] at used
    have cluster : c ∈ d.vol.freeClusters := by rw [free]; exact List.mem_cons_self
    obtain ⟨x, -⟩ := sound.exchange_mkdir wf.good.geometry.one_le_spc name dir cluster slot
      (by by_contra used; exact notUsed (by simpa using used))
    have touches := x.touches sound notUsed notUsed
    rw [← left, ← effect.vol_eq] at touches
    have stored : (d'.vol.slots p)[i]? = some (Dirent.newDirectory name c) := by
      rw [effect.vol_eq, left, x.here, List.getElem?_set_self (List.getElem?_eq_some_iff.mp slot).1]
    have marked := makeName83_not_end printable.no_nul made
    have undeleted : (Dirent.newDirectory name c).name0 ≠ 0xE5 :=
      makeName83_not_deleted printable made
    have visible : (Dirent.newDirectory name c).skipped = false := by
      have short : (Dirent.newDirectory name c).attributes ≠ attrLfn :=
        (by decide : attrDirectory ≠ attrLfn)
      simp [Dirent.skipped, undeleted, short]
    constructor
    · rintro kept ⟨-, name', i', j, f, made', -, scanned', found, file, early⟩
      rw [made] at made'
      cases made'
      rw [scanned] at scanned'
      cases scanned'
      refine wf.hidden effect.good effect.fs_eq dir printable.no_nul made found file stored rfl
        visible early kept
    · intro clear
      refine wf.files_kept effect.good disk touches dir ?_ ?_ ?_
      · intro e₁ at_slot
        rw [slot] at at_slot
        cases at_slot
        exact notUsed
      · rintro q j f live - ⟨rfl, rfl⟩
        have at_slot := live.slot
        rw [slot] at at_slot
        cases at_slot
        exact notUsed live.used
      · intro name' j f found file early e' at_slot
        rw [stored] at at_slot
        cases at_slot
        refine ⟨marked, .inr ?_⟩
        simp only [decide_eq_false_iff_not]
        rintro rfl
        exact clear ⟨fresh, _, i, j, f, made, by rw [free]; simp, scanned, found, file, early⟩
  · refine iff_of_true ?_ ?_
    · rcases Vol.mkdir_failed ok with same | ⟨c, b, free, left⟩
      · exact wf.files_kept_of_eq effect.good disk (effect.vol_eq.trans same)
      · refine wf.files_kept_outside effect.good disk ?_
        rw [effect.vol_eq, left]
        exact sound.touches_free free b _ _
    · rintro ⟨fresh, name, i, j, f, made, free, scanned, -⟩
      refine ok ?_
      obtain ⟨c, rest, split⟩ := List.exists_cons_of_ne_nil free
      unfold Vol.mkdir
      simp only [if_neg fresh, split, reported, parentCluster, Option.getD_some, made, scanned]

end Kept

/-- The call is a mkdir that hides a file. -/
def Call.Shadows (d : Driver) : Call → Prop
  | .mkdir path => MkdirShadows d path
  | .write _ _ => False
  | .create _ => False
  | .delete _ => False
  | .chdir _ => False

/-- A proper call on a well-formed volume, whatever it returns, keeps all other files -- found
under their names, with their sizes and bytes -- exactly when it is no mkdir that puts its
entry before a file of the same 8.3 name. -/
theorem call_keeps_other_files_iff {d d' : Driver} (wf : WellFormed d) {c : Call}
    {locals : Locals} (proper : c.Proper d locals) {r : Int}
    (returned : (c.run locals).run d = .ok (r, d')) :
    FilesKept d d' (c.Target d locals) ↔ ¬ c.Shadows d := by
  cases c with
  | write path data =>
      exact iff_of_true (wf.write_files_kept (fun _ _ => Iff.rfl) proper.2 returned) id
  | create path =>
      exact iff_of_true (wf.write_files_kept (fun _ _ => Iff.rfl) proper.2 returned) id
  | delete path => exact iff_of_true (wf.delete_files_kept proper returned) id
  | mkdir path => exact wf.mkdir_files_kept proper returned
  | chdir path =>
      refine iff_of_true ?_ id
      obtain ⟨good, vol, moved⟩ :=
        fat32Chdir_returns wf.good wf.owned.closed (wf.start path.1) returned
      refine wf.files_kept_of_eq good ?_ vol
      rcases moved with ⟨-, fs⟩ | ⟨e, text, -, -, -, -, fs⟩
      · rw [fs]
        exact fun _ => rfl
      · rw [fs]
        exact fun _ => rfl

/-! ## A file that is hidden -/

theorem MkdirShadows.of_check {d : Driver} {path : CStr}
    (passed : Runs.check (navigatePath path.1) d (fun nav _ => nav.result ≠ 1 &&
      nav.parentCluster.any fun parent => nav.filename.any fun dirname =>
        (makeName83 dirname).any fun name => d.vol.freeClusters ≠ [] &&
          (scanFree (d.vol.slots parent) 0).any fun slot =>
            (lookup (fun e => e.name = name) (d.vol.slots parent)).any fun hit =>
              !hit.2.isDirectory && slot < hit.1) = true) : MkdirShadows d path := by
  obtain ⟨nav, d', ran, holds⟩ := Runs.of_check passed
  simp only [Bool.and_eq_true, decide_eq_true_eq, Option.any_eq_true, Bool.not_eq_true'] at holds
  obtain ⟨fresh, parent, parentCluster, dirname, text, name, made, free, slot, scanned,
    ⟨j, f⟩, found, file, early⟩ := holds
  exact ⟨nav, d', parent, dirname, name, slot, j, f, ran, fresh, parentCluster, text, made, free,
    scanned, found, file, early⟩

/-- The formatted volume after `write x` and `write foo`. -/
def withFoo : Driver :=
  leaves (fat32Write .blank (.ofBytes [0x66, 0x6F, 0x6F]) [2])
    (leaves (fat32Write .blank (.ofBytes [0x78]) [1]) formatted)

/-- The same after `delete x`: the slot before `FOO` is free. -/
def withGap : Driver := leaves (fat32Delete (.ofBytes [0x78])) withFoo

theorem withFoo_wellFormed : WellFormed withFoo := by
  have first : Runs.check (fat32Write .blank (.ofBytes [0x78]) [1]) formatted
      (fun r _ => r = 0) = true := by decide +kernel
  obtain ⟨_, ran₁, zero₁⟩ := leaves_of_check first
  obtain rfl := of_decide_eq_true zero₁
  have wf := (formatted_wellFormed.write_keeps (HasParent.of_check (by decide +kernel))
    (WriteMatchesFile.of_check (by decide +kernel)) ran₁).1
  have second : Runs.check (fat32Write .blank (.ofBytes [0x66, 0x6F, 0x6F]) [2])
      (leaves (fat32Write .blank (.ofBytes [0x78]) [1]) formatted) (fun r _ => r = 0) = true := by
    decide +kernel
  obtain ⟨_, ran₂, zero₂⟩ := leaves_of_check second
  obtain rfl := of_decide_eq_true zero₂
  exact (wf.write_keeps (HasParent.of_check (by decide +kernel))
    (WriteMatchesFile.of_check (by decide +kernel)) ran₂).1

theorem DeleteMatchesFile.of_check {d : Driver} {path : CStr}
    (passed : Runs.check (deleteEntry path) d (fun hit _ =>
      hit.all fun hit => !hit.2.isDirectory) = true) : DeleteMatchesFile d path := by
  intro slot e d' ran
  have holds := (Runs.of_check passed).of_returned ran
  simpa using holds

theorem withGap_wellFormed : WellFormed withGap := by
  have deleted : Runs.check (fat32Delete (.ofBytes [0x78])) withFoo (fun r _ => r = 0) = true := by
    decide +kernel
  obtain ⟨_, ran, zero⟩ := leaves_of_check deleted
  obtain rfl := of_decide_eq_true zero
  exact (withFoo_wellFormed.delete_keeps (DeleteMatchesFile.of_check (by decide +kernel)) ran).1

/-- `mkdir foo.` returns 0 and the file `FOO` is no longer found. -/
theorem mkdir_hides_file : ∃ d',
    (fat32Mkdir .blank (.ofBytes [0x66, 0x6F, 0x6F, dot])).run withGap = .ok (0, d') ∧
      ¬ FilesKept withGap d'
        ((Call.mkdir (.ofBytes [0x66, 0x6F, 0x6F, dot])).Target withGap .blank) := by
  have made : Runs.check (fat32Mkdir .blank (.ofBytes [0x66, 0x6F, 0x6F, dot])) withGap
      (fun r _ => r = 0) = true := by decide +kernel
  obtain ⟨_, ran, zero⟩ := leaves_of_check made
  obtain rfl := of_decide_eq_true zero
  refine ⟨_, ran, fun kept => ?_⟩
  exact (withGap_wellFormed.mkdir_files_kept (HasParent.of_check (by decide +kernel)) ran).mp kept
    (MkdirShadows.of_check (by decide +kernel))

/-- Overwriting `FOO` keeps all other files. -/
theorem overwrite_keeps_files : ∃ d',
    (fat32Write .blank (.ofBytes [0x66, 0x6F, 0x6F]) [3, 4]).run withFoo = .ok (0, d') ∧
      FilesKept withFoo d'
        ((Call.write (.ofBytes [0x66, 0x6F, 0x6F]) [3, 4]).Target withFoo .blank) := by
  have wrote : Runs.check (fat32Write .blank (.ofBytes [0x66, 0x6F, 0x6F]) [3, 4]) withFoo
      (fun r _ => r = 0) = true := by decide +kernel
  obtain ⟨_, ran, zero⟩ := leaves_of_check wrote
  obtain rfl := of_decide_eq_true zero
  have proper : (Call.write (.ofBytes [0x66, 0x6F, 0x6F]) [3, 4]).Proper withFoo .blank :=
    ⟨HasParent.of_check (by decide +kernel), WriteMatchesFile.of_check (by decide +kernel)⟩
  exact ⟨_, ran, (call_keeps_other_files_iff withFoo_wellFormed proper ran).mpr id⟩

end XosKernel.Fat32
