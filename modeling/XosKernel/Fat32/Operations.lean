/-
# Fat32.Operations -- the file operations on a sound volume

On a volume that meets the ownership invariant every operation returns, and what it does is
a function of the volume: `fat32Write_runs`, `fat32Delete_runs`, `fat32Mkdir_runs`,
`fat32Chdir_returns`.  The chain that a write or a delete gives back is the one its entry
owns, so it is a terminated chain and does not visit the directory (`Sound.releases`).
-/
import XosKernel.Fat32.Inert
import XosKernel.Fat32.NameSpec
import XosKernel.Fat32.Ownership
import XosKernel.Fat32.WriteSpec

namespace XosKernel.Fat32

open XosKernel.Theory

set_option autoImplicit false

/-! ## The components of a path -/

namespace Vol

variable {v : Vol}

/-- The last component consists of characters of the path. -/
theorem walk_component : ∀ (path : List UInt8) (c : Nat) (component : List UInt8) (c' : Nat)
    (rest : List UInt8), v.walk path c component = some (c', rest) →
    ∀ x, x ∈ rest → x ∈ component ∨ x ∈ path
  | [], c, component, c', rest, reached, x, member => by
      cases reached
      exact .inl member
  | ch :: path, c, component, c', rest, reached, x, member => by
      have later : (x ∈ ([] : List UInt8) ∨ x ∈ path) → x ∈ component ∨ x ∈ ch :: path := by
        rintro (impossible | inside)
        · cases impossible
        · exact .inr (List.mem_cons_of_mem _ inside)
      unfold walk at reached
      split at reached
      · split at reached
        · exact later (walk_component path c [] c' rest reached x member)
        · cases found : v.find c component with
          | none => rw [found] at reached; cases reached
          | some e =>
              rw [found] at reached
              simp only at reached
              split at reached
              · exact later (walk_component path _ [] c' rest reached x member)
              · cases reached
      · rcases walk_component path c _ c' rest reached x member with old | inside
        · split at old
          · rcases List.mem_append.mp old with before | here
            · exact .inl before
            · rw [List.mem_singleton] at here
              exact .inr (here ▸ List.mem_cons_self)
          · exact .inl old
        · exact .inr (List.mem_cons_of_mem _ inside)

/-- What a navigation reports about the last component. -/
theorem navigate_filename {start : Nat} {path name : List UInt8}
    (reported : (v.navigate start path).filename = some name) :
    name ≠ [] ∧ ∀ x, x ∈ name → x ∈ path := by
  unfold navigate at reported
  cases reached : v.walk (skipSlash path) start [] with
  | none => rw [reached] at reported; cases reported
  | some q =>
      obtain ⟨c, component⟩ := q
      rw [reached] at reported
      have inside : ∀ x, x ∈ component → x ∈ path := by
        intro x member
        rcases walk_component _ _ _ _ _ reached x member with impossible | inside
        · cases impossible
        · exact mem_of_mem_skipSlash inside
      cases component with
      | nil => cases reported
      | cons ch component =>
          have same : name = ch :: component := by
            simp only at reported
            cases found : v.find c (ch :: component) with
            | none => rw [found] at reported; exact (Option.some.inj reported).symm
            | some e => rw [found] at reported; exact (Option.some.inj reported).symm
          rw [same]
          exact ⟨by simp, inside⟩

/-- A navigation that reports a last component followed the path to its parent. -/
theorem navigate_followed {start : Nat} {path name : List UInt8}
    (reported : (v.navigate start path).filename = some name) :
    ¬ (v.navigate start path).result < 0 := by
  unfold navigate at reported ⊢
  cases reached : v.walk (skipSlash path) start [] with
  | none => rw [reached] at reported; cases reported
  | some q =>
      obtain ⟨c, component⟩ := q
      cases component with
      | nil => exact (by decide : ¬ (0 : Int) < 0)
      | cons ch component =>
          simp only
          cases v.find c (ch :: component) with
          | none => exact (by decide : ¬ (0 : Int) < 0)
          | some e => exact (by decide : ¬ (1 : Int) < 0)

/-- What a place says about the path. -/
theorem place_eq_some {start : Nat} {locals : Locals} {path : CStr} {pl : Place}
    (placed : v.place start locals path.1 = some pl) :
    ¬ (v.navigate start path.1).result < 0 ∧
      pl.parent = (v.navigate start path.1).parentCluster.getD locals.parentCluster ∧
      makeName83 ((v.navigate start path.1).filename.getD locals.filename.1) = some pl.name ∧
      (0 : UInt8) ∉ (v.navigate start path.1).filename.getD locals.filename.1 ∧
      choose pl.name (v.slots pl.parent) = some (pl.slot, pl.existing) := by
  unfold place at placed
  by_cases failed : (v.navigate start path.1).result < 0
  · simp only [if_pos failed] at placed
    cases placed
  simp only [if_neg failed] at placed
  have text : (0 : UInt8) ∉ (v.navigate start path.1).filename.getD locals.filename.1 := by
    cases reported : (v.navigate start path.1).filename with
    | none => exact locals.filename.2
    | some name => exact fun member => path.2 ((navigate_filename reported).2 _ member)
  split at placed
  · cases placed
  cases made : makeName83 ((v.navigate start path.1).filename.getD locals.filename.1) with
  | none => rw [made] at placed; cases placed
  | some name83 =>
      rw [made] at placed
      obtain ⟨⟨slot, existing⟩, chosen, rfl⟩ := Option.map_eq_some_iff.mp placed
      exact ⟨failed, rfl, rfl, text, chosen⟩

/-! ## What a slot gives back -/

/-- The chain that emptying a slot of a live directory gives back. -/
theorem Sound.releases (sound : v.Sound) {d i : Nat} {e : Dirent} (dir : v.Dir d)
    (slot : (v.slots d)[i]? = some e) (named : e.inUse = true → e.isDots = false) :
    ∃ old, v.Releases e.firstCluster old ∧ d ∉ old := by
  cases used : e.inUse with
  | false => exact ⟨[], .inl ⟨by rw [sound.clean d dir i e slot used]; decide, rfl⟩, by simp⟩
  | true =>
      have live : v.Live d i e := ⟨dir, slot, used, named used⟩
      by_cases empty : e.firstCluster = 0
      · exact ⟨[], .inl ⟨by omega, rfl⟩, by simp⟩
      · obtain ⟨l, chain⟩ := sound.chains _ _ (.entry live empty)
        exact ⟨l, .inr chain, sound.parent_not_mem live chain⟩

/-- What stands in the slot that `fat32_write` chose. -/
structure Placed (v : Vol) (pl : Place) (e : Dirent) : Prop where
  dir : v.Dir pl.parent
  inside : pl.slot < v.spc * 16
  slot : (v.slots pl.parent)[pl.slot]? = some e
  used : e.inUse = pl.existing
  named : pl.existing = true → e.name = pl.name
  proper : pl.name ≠ dotName ∧ pl.name ≠ dotdotName
  marked : pl.name.1.getD 0 0 ≠ 0

theorem Placed.not_dots {pl : Place} {e : Dirent} (placed : v.Placed pl e) :
    e.inUse = true → e.isDots = false := by
  intro used
  rw [placed.used] at used
  have same := placed.named used
  simp [Dirent.isDots, same, placed.proper.1, placed.proper.2]

theorem Placed.live {pl : Place} {e : Dirent} (placed : v.Placed pl e)
    (existing : pl.existing = true) : v.Live pl.parent pl.slot e := by
  have used : e.inUse = true := placed.used.trans existing
  exact ⟨placed.dir, placed.slot, used, placed.not_dots used⟩

/-- On a sound volume the chosen slot holds the live entry of the name, or none. -/
theorem Sound.placed (sound : v.Sound) {start : Nat} {locals : Locals} {path : CStr} {pl : Place}
    (placed : v.place start locals path.1 = some pl) (dir : v.Dir pl.parent) :
    ∃ e, v.Placed pl e := by
  obtain ⟨-, -, made, text, chosen⟩ := place_eq_some placed
  have proper := makeName83_not_dots made
  have marked := makeName83_not_end text made
  have inside : pl.slot < v.spc * 16 := by
    have := choose_lt chosen
    rwa [length_slots] at this
  cases existing : pl.existing with
  | true =>
      rw [existing] at chosen
      obtain ⟨e, slot, visible, same, -⟩ := choose_existing chosen
      have used : e.inUse = true := by
        refine Dirent.inUse_of_visible ?_ visible
        rw [Dirent.name0, same]
        exact marked
      exact ⟨e, dir, inside, slot, used.trans existing.symm, fun _ => same, proper, marked⟩
  | false =>
      rw [existing] at chosen
      obtain ⟨e, slot, -, how⟩ := choose_free chosen
      have unused : e.inUse = false := by
        cases used : e.inUse with
        | false => rfl
        | true =>
            exfalso
            rcases how with ends | ⟨-, skip, -⟩
            · simp [Dirent.inUse, ends] at used
            · have short := sound.noLongNames _ dir _ e slot used
              have deleted : e.name0 = 0xE5 := by
                simpa [Dirent.skipped, short] using skip
              simp [Dirent.inUse, deleted] at used
      refine ⟨e, dir, inside, slot, unused.trans existing.symm, ?_, proper, marked⟩
      rw [existing]
      intro impossible
      cases impossible

end Vol

/-! ## Write -/

/-- The directory that holds the chosen slot, read from the loaded buffer. -/
theorem load_eq_slot {v : Vol} {b : Buf} {c i : Nat} {e : Dirent}
    (contents : ∀ k, k < v.clusterSize → b k = v.bytes c k) (slot : (v.slots c)[i]? = some e) :
    Dirent.load b (i * direntSize) = e := by
  have inside : i < v.spc * 16 := by
    have := (List.getElem?_eq_some_iff.mp slot).1
    rwa [Vol.length_slots] at this
  rw [Vol.getElem?_slots inside] at slot
  rw [← Option.some.inj slot]
  apply Dirent.load_congr
  intro k hk
  apply contents
  simp only [Vol.clusterSize, direntSize] at hk ⊢
  omega

section Sound

variable {d : Driver} (good : d.Good) (sound : d.vol.Sound)
include good sound

/-- `fat32_write` on a sound volume: it fails without a place, and else writes there. -/
theorem fat32Write_runs (locals : Locals) {path : CStr} (data : List UInt8)
    (navigates : Navigates d d.vol.Dir path.1) :
    Runs (fat32Write locals path data) d fun r d' =>
      (d.vol.place (d.fs.startCluster path.1) locals path.1 = none ∧ r = -1 ∧
        Effect d d' d.vol) ∨
      ∃ pl e old, d.vol.place (d.fs.startCluster path.1) locals path.1 = some pl ∧
        d.vol.Placed pl e ∧ d.vol.Releases e.firstCluster old ∧ pl.parent ∉ old ∧
        r = (d.vol.writeAt pl old data).1 ∧ Effect d d' (d.vol.writeAt pl old data).2 := by
  unfold fat32Write
  refine Runs.get_bind ?_
  rw [if_pos good.mounted]
  refine Runs.bind (writeTarget_runs good (fun c dir => sound.inRange_dir dir) locals path
    navigates) ?_
  rintro r d₁ ⟨resolved, place, loaded⟩
  cases r with
  | none => exact Runs.pure (.inl ⟨place.symm, rfl, resolved⟩)
  | some t =>
      obtain ⟨dir, contents⟩ := loaded t rfl
      have placed : d.vol.place (d.fs.startCluster path.1) locals path.1 = some t.place :=
        place.symm
      obtain ⟨e, at_slot⟩ := sound.placed placed dir
      obtain ⟨old, releases, apart⟩ := sound.releases dir at_slot.slot at_slot.not_dots
      have root : d₁.vol.InRange d₁.vol.root := by
        rw [resolved.root_eq]
        exact (resolved.inRange_iff _).mpr (sound.inRange_dir ⟨_, .root⟩)
      have entry := load_eq_slot contents at_slot.slot
      refine Runs.mono (writeEntry_runs old resolved.good
        ((resolved.inRange_iff _).mpr (sound.inRange_dir dir)) root
        (by rw [resolved.vol_eq]; exact sound.fat_dir_ne_zero dir)
        (by rw [resolved.vol_eq]; exact contents)
        (by rw [resolved.vol_eq]; exact entry.symm ▸ releases) apart) ?_
      rintro r d₂ ⟨rfl, wrote⟩
      rw [resolved.vol_eq] at wrote ⊢
      exact .inr ⟨t.place, e, old, placed, at_slot, releases, apart, rfl, resolved.trans wrote⟩

end Sound

/-! ## Delete -/

theorem Driver.Good.setRootDirBuffer {d : Driver} (good : d.Good) (b : Buf) :
    Driver.Good { d with rootDirBuffer := b } :=
  ⟨good.geometry, good.mounted, good.noFault, good.copies, good.coherent⟩

/-- What `fat32_delete` finds: a slot of the root directory. -/
def Vol.deleteMatch (v : Vol) (path : List UInt8) : Option (Nat × Dirent) :=
  (makeName83 (skipSlash path)).bind fun name => lookup (fun e => e.name = name) (v.slots v.root)

theorem deleteEntry_runs {d : Driver} (good : d.Good) (root : d.vol.InRange d.vol.root)
    (path : CStr) :
    Runs (deleteEntry path) d fun r d' => r = d.vol.deleteMatch path.1 ∧ Effect d d' d.vol ∧
      ∀ i, i < d.vol.clusterSize → d'.rootDirBuffer i = d.vol.bytes d.vol.root i := by
  unfold deleteEntry Vol.deleteMatch
  refine Runs.bind (loadRootDirectory_runs good root) ?_
  rintro _ d₁ ⟨rfl, loaded, contents⟩
  simp only [if_true]
  cases makeName83 (skipSlash path.1) with
  | none => exact Runs.pure ⟨rfl, loaded, contents⟩
  | some name =>
      refine Runs.get_bind ?_
      refine ⟨_, _, scanDirectory_run loaded.good.geometry.roomy _ _, ?_, loaded, contents⟩
      rw [loaded.fs_eq, entries_eq_slots good.geometry contents]
      rfl

theorem saveRootDirectory_runs {d : Driver} (good : d.Good) (root : d.vol.InRange d.vol.root) :
    Runs saveRootDirectory d fun r d' => r = 0 ∧
      Effect d d' (d.vol.setBytes d.vol.root d.rootDirBuffer) := by
  unfold saveRootDirectory
  refine Runs.get_bind ?_
  rw [good.geometry.dirSectors_eq]
  refine Runs.step (ataWriteSectors_run good.noFault _ _ _ _ _) (Runs.pure ⟨by simp, ?_⟩)
  exact good.effect_wrote root d.rootDirBuffer

theorem Vol.deleteMatch_eq_some {v : Vol} {path : CStr} {i : Nat} {e : Dirent}
    (found : v.deleteMatch path.1 = some (i, e)) :
    (v.slots v.root)[i]? = some e ∧ e.inUse = true ∧ e.isDots = false := by
  obtain ⟨name, made, hit⟩ := Option.bind_eq_some_iff.mp found
  obtain ⟨slot, marked, visible, same, -⟩ := lookup_eq_some.mp hit
  have named : e.name = name := by simpa using same
  have proper := makeName83_not_dots made
  refine ⟨slot, Dirent.inUse_of_visible marked visible, ?_⟩
  simp [Dirent.isDots, named, proper.1, proper.2]

/-- `fat32_delete` on a good volume with its root directory: where the release of what it finds
stays among the clusters, the root directory is written back with the entry deleted. -/
theorem fat32Delete_clears {d : Driver} (good : d.Good) (root : d.vol.InRange d.vol.root)
    {path : CStr} {i : Nat} {e : Dirent} (found : d.vol.deleteMatch path.1 = some (i, e))
    {old : List Nat} (clears : d.vol.Clears e.firstCluster old) :
    Runs (fat32Delete path) d fun r d' =>
      r = 0 ∧ Effect d d' ((d.vol.freeAll old).setSlot d.vol.root i e.deleted) := by
  unfold fat32Delete
  refine Runs.get_bind ?_
  rw [if_pos good.mounted]
  refine Runs.bind (deleteEntry_runs good root path) ?_
  rintro _ d₁ ⟨rfl, searched, contents⟩
  rw [found]
  have clears₁ : d₁.vol.Clears e.firstCluster old := by rw [searched.vol_eq]; exact clears
  -- releasing the chain leaves the loaded root directory in its buffer
  obtain ⟨_, d₂, ran, released⟩ := freeOldChain_clears searched.good clears₁
  have buffer : d₂.rootDirBuffer = d₁.rootDirBuffer :=
    freeOldChain_keeps inert_rootDirBuffer _ _ _ _ ran
  rw [searched.vol_eq] at released
  refine Runs.step ran (Runs.modify_bind ?_)
  have good₃ := released.good.setRootDirBuffer
    (Dirent.store d₂.rootDirBuffer (i * direntSize) e.deleted)
  have effect := searched.trans released
  have root₃ : d₂.vol.InRange d₂.vol.root := by
    rw [effect.root_eq]
    exact (effect.inRange_iff _).mpr root
  refine Runs.mono (saveRootDirectory_runs good₃ root₃) ?_
  rintro _ d₄ ⟨rfl, saved⟩
  have stored : d₂.vol.setBytes d₂.vol.root
      (Dirent.store d₂.rootDirBuffer (i * direntSize) e.deleted) =
      (d.vol.freeAll old).setSlot d.vol.root i e.deleted := by
    rw [effect.root_eq, ← released.vol_eq]
    apply Vol.setBytes_store
    intro k hk
    rw [buffer, released.vol_eq]
    exact contents k (by rwa [effect.clusterSize_eq] at hk)
  refine ⟨rfl, saved.good, ?_, ?_, ?_⟩
  · exact saved.fs_eq.trans effect.fs_eq
  · exact saved.file_eq.trans effect.file_eq
  · exact saved.vol_eq.trans stored

/-- `fat32_delete` on a sound volume. -/
theorem fat32Delete_runs {d : Driver} (good : d.Good) (sound : d.vol.Sound) (path : CStr) :
    Runs (fat32Delete path) d fun r d' =>
      (d.vol.deleteMatch path.1 = none ∧ r = -1 ∧ Effect d d' d.vol) ∨
      ∃ i e old, d.vol.deleteMatch path.1 = some (i, e) ∧ d.vol.Releases e.firstCluster old ∧
        d.vol.root ∉ old ∧ r = 0 ∧
        Effect d d' ((d.vol.freeAll old).setSlot d.vol.root i e.deleted) := by
  have dir : d.vol.Dir d.vol.root := ⟨_, .root⟩
  have root := sound.inRange_dir dir
  cases found : d.vol.deleteMatch path.1 with
  | none =>
      unfold fat32Delete
      refine Runs.get_bind ?_
      rw [if_pos good.mounted]
      refine Runs.bind (deleteEntry_runs good root path) ?_
      rintro _ d₁ ⟨rfl, searched, -⟩
      rw [found]
      exact Runs.pure (.inl ⟨rfl, rfl, searched⟩)
  | some hit =>
      obtain ⟨i, e⟩ := hit
      obtain ⟨slot, -, named⟩ := Vol.deleteMatch_eq_some found
      obtain ⟨old, releases, apart⟩ := sound.releases dir slot fun _ => named
      refine Runs.mono (fat32Delete_clears good root found
        (releases.clears good.geometry.range_lt_end)) ?_
      rintro _ d' ⟨rfl, effect⟩
      exact .inr ⟨i, e, old, rfl, releases, apart, rfl, effect⟩

/-! ## Make directory -/

/-- The volume with the cluster `c` allocated as a directory in `parent`, before the entry
for it is stored. -/
def Vol.withDirectory (v : Vol) (c parent : Nat) : Vol :=
  (v.setFat c 0x0FFFFFFF).setBytes c (newDirectoryBuffer c parent)

/-- `fat32_mkdir` on the volume, for a path that can be followed: what it returns and leaves.
A failure after the allocation leaves the new directory in a cluster that is free again. -/
def Vol.mkdir (v : Vol) (start : Nat) (locals : Locals) (path : List UInt8) : Int × Vol :=
  let nav := v.navigate start path
  let parent := nav.parentCluster.getD locals.parentCluster
  if nav.result = 1 then (-1, v)
  else
    match v.freeClusters with
    | [] => (-1, v)
    | c :: _ =>
        match makeName83 (nav.filename.getD locals.filename.1) with
        | none => (-1, v.setBytes c (newDirectoryBuffer c parent))
        | some name =>
            match scanFree (v.slots parent) 0 with
            | none => (-1, v.setBytes c (newDirectoryBuffer c parent))
            | some slot =>
                (0, (v.withDirectory c parent).setSlot parent slot (Dirent.newDirectory name c))

/-- When `fat32_mkdir` succeeds, and what it leaves then. -/
theorem Vol.mkdir_ok {v : Vol} {start : Nat} {locals : Locals} {path : List UInt8}
    (ok : (v.mkdir start locals path).1 = 0) :
    (v.navigate start path).result ≠ 1 ∧ ∃ c rest name slot, v.freeClusters = c :: rest ∧
      makeName83 ((v.navigate start path).filename.getD locals.filename.1) = some name ∧
      scanFree (v.slots ((v.navigate start path).parentCluster.getD locals.parentCluster)) 0 =
        some slot ∧
      (v.mkdir start locals path).2 =
        (v.withDirectory c ((v.navigate start path).parentCluster.getD
          locals.parentCluster)).setSlot
          ((v.navigate start path).parentCluster.getD locals.parentCluster) slot
          (Dirent.newDirectory name c) := by
  unfold mkdir at ok ⊢
  by_cases exists_ : (v.navigate start path).result = 1
  · simp only [if_pos exists_] at ok
    cases ok
  simp only [if_neg exists_] at ok ⊢
  refine ⟨exists_, ?_⟩
  cases free : v.freeClusters with
  | nil => rw [free] at ok; cases ok
  | cons c rest =>
      rw [free] at ok
      cases made : makeName83 ((v.navigate start path).filename.getD locals.filename.1) with
      | none => rw [made] at ok; cases ok
      | some name =>
          rw [made] at ok
          cases scanned : scanFree (v.slots ((v.navigate start path).parentCluster.getD
              locals.parentCluster)) 0 with
          | none => simp only [scanned] at ok; cases ok
          | some slot => exact ⟨c, rest, name, slot, rfl, rfl, rfl, by simp only⟩

theorem giveUp_runs {d : Driver} (good : d.Good) {c : Nat} {l : List Nat}
    (chain : d.vol.ChainFrom c l) :
    Runs (giveUp c) d fun r d' => r = -1 ∧ Effect d d' (d.vol.freeAll l) := by
  refine Runs.bind (freeClusterChain_clears good (chain.clears good.geometry.range_lt_end)) ?_
  rintro _ d' ⟨rfl, freed⟩
  exact Runs.pure ⟨rfl, freed⟩

/-- Giving the new directory back clears its link again. -/
theorem Vol.withDirectory_freeAll {v : Vol} {c parent : Nat} (free : v.fat c = 0) :
    (v.withDirectory c parent).freeAll [c] = v.setBytes c (newDirectoryBuffer c parent) := by
  have links : (fun x => if x ∈ [c] then 0 else Function.update v.fat c 0x0FFFFFFF x) = v.fat := by
    funext x
    by_cases here : x = c
    · rw [if_pos (by simp [here]), here, free]
    · rw [if_neg (by simp [here]), Function.update_of_ne here]
  simp only [withDirectory, setBytes, setFat, freeAll, clusterSize, links]
  rfl

theorem Vol.withDirectory_chain {v : Vol} {c parent : Nat} (range : v.InRange c) :
    (v.withDirectory c parent).ChainFrom c [c] := by
  refine Chain.last range ?_
  change 0x0FFFFFF8 ≤ Function.update v.fat c 0x0FFFFFFF c
  rw [Function.update_self]
  decide

/-- Adding the entry: it goes to the first free slot of the parent, and without one the new
cluster is given back. -/
theorem addDirectory_runs {d : Driver} (good : d.Good) {p c : Nat} (parent : d.vol.InRange p)
    (root : d.vol.InRange d.vol.root) (chain : d.vol.ChainFrom c [c]) {b : Buf}
    (contents : ∀ i, i < d.vol.clusterSize → b i = d.vol.bytes p i) (name : Name83) :
    Runs (addDirectory p c b name) d fun r d' =>
      match scanFree (d.vol.slots p) 0 with
      | none => r = -1 ∧ Effect d d' (d.vol.freeAll [c])
      | some slot => r = 0 ∧ Effect d d' (d.vol.setSlot p slot (Dirent.newDirectory name c)) := by
  unfold addDirectory
  refine Runs.get_bind ?_
  rw [entries_eq_slots good.geometry contents]
  cases scanFree (d.vol.slots p) 0 with
  | none => exact Runs.step (endOfEntries_run good.geometry.roomy) (giveUp_runs good chain)
  | some slot =>
      refine storeEntry_runs good parent root contents ?_
      exact fun d' stored => Runs.pure ⟨rfl, stored⟩

/-- The rest of `fat32_mkdir`, from a volume `v` on which the cluster `c` was just allocated. -/
theorem mkdirAllocated_runs {d : Driver} {v : Vol} {p c : Nat} {dirname : List UInt8}
    (good : d.Good) (vol : d.vol = v.setFat c 0x0FFFFFFF) (parent : v.InRange p)
    (root : v.InRange v.root) (range : v.InRange c) (unused : v.fat c = 0) (other : p ≠ c) :
    Runs (mkdirAllocated p dirname c) d fun r d' =>
      match makeName83 dirname with
      | none => r = -1 ∧ Effect d d' (v.setBytes c (newDirectoryBuffer c p))
      | some name =>
          match scanFree (v.slots p) 0 with
          | none => r = -1 ∧ Effect d d' (v.setBytes c (newDirectoryBuffer c p))
          | some slot => r = 0 ∧
              Effect d d' ((v.withDirectory c p).setSlot p slot (Dirent.newDirectory name c)) := by
  have ranges : ∀ x, d.vol.InRange x ↔ v.InRange x := by
    intro x
    rw [vol]
    rfl
  unfold mkdirAllocated
  refine Runs.bind (writeDirectoryCluster_runs good ((ranges c).mpr range)
    (newDirectoryBuffer c p)) ?_
  rintro _ d₁ ⟨rfl, written⟩
  rw [vol] at written
  change Effect d d₁ (v.withDirectory c p) at written
  simp only [if_true]
  refine Runs.bind (loadDirectoryCluster_runs written.good
    ((written.inRange_iff p).mpr ((ranges p).mpr parent))) ?_
  rintro _ d₂ ⟨b, rfl, contents, loaded⟩
  rw [written.vol_eq] at contents loaded
  have effect := written.trans loaded
  have chain : d₂.vol.ChainFrom c [c] := by
    rw [effect.vol_eq]
    exact Vol.withDirectory_chain range
  simp only
  cases makeName83 dirname with
  | none =>
      refine Runs.mono (giveUp_runs effect.good chain) ?_
      rintro r d' ⟨rfl, freed⟩
      rw [effect.vol_eq, Vol.withDirectory_freeAll unused] at freed
      exact ⟨rfl, effect.trans freed⟩
  | some name =>
      have slots : d₂.vol.slots p = v.slots p := by
        have bytes : (v.withDirectory c p).bytes p = v.bytes p :=
          Vol.setBytes_bytes_of_ne _ other
        rw [effect.vol_eq, Vol.slots, bytes]
        rfl
      have root₂ : d₂.vol.InRange d₂.vol.root := by
        rw [effect.root_eq, effect.inRange_iff, ranges, vol]
        exact root
      refine Runs.mono (addDirectory_runs effect.good
        ((effect.inRange_iff p).mpr ((ranges p).mpr parent)) root₂ chain
        (by rw [effect.vol_eq]; exact contents) name) ?_
      intro r d' added
      rw [slots, effect.vol_eq] at added
      simp only
      cases free : scanFree (v.slots p) 0 with
      | none =>
          rw [free, Vol.withDirectory_freeAll unused] at added
          exact ⟨added.1, effect.trans added.2⟩
      | some slot =>
          rw [free] at added
          exact ⟨added.1, effect.trans added.2⟩

/-- `fat32_mkdir` on a sound volume, for a path that can be followed. -/
theorem fat32Mkdir_runs {d : Driver} (good : d.Good) (sound : d.vol.Sound) (locals : Locals)
    {path : CStr} (navigates : Navigates d d.vol.Dir path.1)
    (followed : ¬ (d.vol.navigate (d.fs.startCluster path.1) path.1).result < 0) :
    Runs (fat32Mkdir locals path) d fun r d' =>
      r = (d.vol.mkdir (d.fs.startCluster path.1) locals path.1).1 ∧
      Effect d d' (d.vol.mkdir (d.fs.startCluster path.1) locals path.1).2 := by
  obtain ⟨p, parent, dir⟩ := navigates.reaches followed
  unfold fat32Mkdir Vol.mkdir
  refine Runs.get_bind ?_
  rw [if_pos good.mounted]
  refine Runs.bind navigates.runs ?_
  rintro nav d₁ ⟨rfl, walked⟩
  simp only [parent, Option.getD_some]
  split
  · exact Runs.pure ⟨rfl, walked⟩
  refine Runs.bind (allocateClusterChain_runs walked.good 1) ?_
  rintro _ d₂ ⟨rfl, linked⟩
  rw [walked.vol_eq] at linked ⊢
  cases free : d.vol.freeClusters with
  | nil =>
      have failed : d.vol.allocate 1 = (none, d.vol) := by
        simp [Vol.allocate, free, Vol.linkTo, relink]
      rw [failed] at linked ⊢
      exact Runs.pure ⟨rfl, walked.trans linked⟩
  | cons c rest =>
      have allocated : d.vol.allocate 1 = (some c, d.vol.setFat c 0x0FFFFFFF) := by
        simp [Vol.allocate, free, Vol.linkTo, relink, Vol.setFat]
      have cluster : c ∈ d.vol.freeClusters := by rw [free]; exact List.mem_cons_self
      obtain ⟨range, unused⟩ := Vol.mem_freeClusters.mp cluster
      have other : p ≠ c := by
        rintro rfl
        exact sound.fat_dir_ne_zero dir unused
      rw [allocated] at linked ⊢
      have effect := walked.trans linked
      refine Runs.mono (mkdirAllocated_runs effect.good effect.vol_eq (sound.inRange_dir dir)
        (sound.inRange_dir ⟨_, .root⟩) range unused other) ?_
      intro r d' made
      simp only
      cases name : makeName83 ((d.vol.navigate (d.fs.startCluster path.1) path.1).filename.getD
          locals.filename.1) with
      | none =>
          rw [name] at made
          exact ⟨made.1, effect.trans made.2⟩
      | some packed =>
          rw [name] at made
          simp only at made ⊢
          cases slot : scanFree (d.vol.slots p) 0 with
          | none =>
              rw [slot] at made
              exact ⟨made.1, effect.trans made.2⟩
          | some i =>
              rw [slot] at made
              exact ⟨made.1, effect.trans made.2⟩

/-! ## Change directory -/

/-- The entry a navigation found, if it did. -/
theorem Vol.navigate_entry {v : Vol} {S : Nat → Prop} (closed : v.Closed S) {start : Nat}
    (inside : S start) {path : List UInt8} {e : Dirent}
    (found : (v.navigate start path).entry = some e) (directory : e.isDirectory = true) :
    S e.firstCluster := by
  unfold Vol.navigate at found
  cases reached : v.walk (skipSlash path) start [] with
  | none => rw [reached] at found; cases found
  | some q =>
      obtain ⟨c, component⟩ := q
      have member := Vol.walk_mem closed _ _ _ inside _ _ reached
      rw [reached] at found
      cases component with
      | nil => cases found
      | cons ch component =>
          simp only at found
          cases hit : v.find c (ch :: component) with
          | none => rw [hit] at found; cases found
          | some e' =>
              rw [hit] at found
              cases found
              exact (closed c member).2 _ e hit directory

theorem setCurrentPath_returns {text : List UInt8} {d d' : Driver}
    (returned : (setCurrentPath text).run d = .ok ((), d')) :
    d' = { d with fs := { d.fs with currentPath := text } } := by
  unfold setCurrentPath at returned
  split at returned
  · cases returned
  · cases returned
    rfl

/-- The text that `fat32_chdir` leaves, once it went to the directory `dirname`. -/
def editPath (text path dirname : List UInt8) : List UInt8 :=
  if isAbsolute path then path.take 255
  else if dirname = [dot] then text
  else if dirname = [dot, dot] then upPath text
  else appendPath text dirname

/-- The text part of `fat32_chdir` changes the text only. -/
theorem updatePath_returns {path dirname : List UInt8} {d d' : Driver}
    (returned : (updatePath path dirname).run d = .ok ((), d')) :
    d' = { d with fs := { d.fs with currentPath := editPath d.fs.currentPath path dirname } } := by
  unfold updatePath at returned
  unfold editPath
  obtain ⟨_, _, got, rest⟩ := bind_returns returned
  cases got
  by_cases absolute : isAbsolute path = true
  · rw [if_pos absolute] at rest ⊢
    exact setCurrentPath_returns rest
  rw [if_neg absolute] at rest ⊢
  by_cases here : dirname = [dot]
  · rw [if_pos here] at rest ⊢
    cases rest
    rfl
  rw [if_neg here] at rest ⊢
  by_cases up : dirname = [dot, dot]
  · rw [if_pos up] at rest ⊢
    exact setCurrentPath_returns rest
  · rw [if_neg up] at rest ⊢
    exact setCurrentPath_returns rest

theorem Driver.Good.setCurrent {d : Driver} (good : d.Good) (c : Nat) (text : List UInt8) :
    Driver.Good { d with fs := { d.fs with currentDirCluster := c, currentPath := text } } :=
  ⟨⟨good.geometry.one_le_spc, good.geometry.spc_le, good.geometry.one_le_fats,
    good.geometry.table_fits, good.geometry.data_after_tables, good.geometry.on_disk⟩,
    good.mounted, good.noFault, good.copies, good.coherent⟩

/-- `fat32_chdir` leaves the volume alone; when it returns 0 the current directory is the
one the path leads to. -/
theorem fat32Chdir_returns {S : Nat → Prop} {d d' : Driver} {r : Int} (good : d.Good)
    (closed : d.vol.Closed S) {path : CStr} (inside : S (d.fs.startCluster path.1))
    (returned : (fat32Chdir path).run d = .ok (r, d')) :
    d'.Good ∧ d'.vol = d.vol ∧
      ((r = -1 ∧ d'.fs = d.fs) ∨
        ∃ e text, r = 0 ∧ (d.vol.navigate (d.fs.startCluster path.1) path.1).entry = some e ∧
          e.isDirectory = true ∧ S e.firstCluster ∧
          d'.fs = { d.fs with currentDirCluster := e.firstCluster, currentPath := text }) := by
  unfold fat32Chdir at returned
  obtain ⟨_, _, got, returned⟩ := bind_returns returned
  cases got
  rw [if_pos good.mounted] at returned
  obtain ⟨nav, d₁, walked, returned⟩ := bind_returns returned
  obtain ⟨rfl, effect⟩ := (navigatePath_runs good closed path.1 inside).of_returned walked
  cases found : (d.vol.navigate (d.fs.startCluster path.1) path.1).entry with
  | none =>
      rw [found] at returned
      cases returned
      exact ⟨effect.good, effect.vol_eq, .inl ⟨rfl, effect.fs_eq⟩⟩
  | some e =>
      rw [found] at returned
      simp only at returned
      split at returned
      · rename_i directory
        obtain ⟨_, d₂, moved, rest⟩ := bind_returns returned
        obtain ⟨_, d₃, texted, last⟩ := bind_returns rest
        cases moved
        cases last
        have same := updatePath_returns texted
        subst same
        generalize editPath _ _ _ = text
        refine ⟨effect.good.setCurrent e.firstCluster text, effect.vol_eq, .inr ?_⟩
        refine ⟨e, text, rfl, rfl, directory, Vol.navigate_entry closed inside found directory, ?_⟩
        rw [← effect.fs_eq]
      · cases returned
        exact ⟨effect.good, effect.vol_eq, .inl ⟨rfl, effect.fs_eq⟩⟩

end XosKernel.Fat32
