/-
# Fat32.Calls -- runs of file system calls

A well-formed state has a good driver, an owned volume and a live current directory.  The
calls that change files and directories keep it (`write_keeps`, `delete_keeps`,
`mkdir_keeps`, `chdir_keeps`), so every sequence of them does
(`ownership_along_calls`): the chains of live files and directories stay disjoint, closed
and allocated, the current directory stays alive, and no cluster leaks.
-/
import XosKernel.Fat32.Invariant

namespace XosKernel.Fat32

open XosKernel.Theory

set_option autoImplicit false

/-- A mounted volume that meets the ownership invariant, with a live current directory. -/
structure WellFormed (d : Driver) : Prop where
  good : d.Good
  owned : d.vol.Owned
  current : d.vol.Dir d.fs.currentDirCluster

/-- The entry in the slot that `fat32_write` chose. -/
def WriteTarget.entry (t : WriteTarget) : Dirent :=
  Dirent.load t.parentBuffer (t.slot * direntSize)

/-- The path has an existing parent directory and a printable last component. -/
def HasParent (d : Driver) (path : CStr) : Prop :=
  ∃ nav d' name, (navigatePath path.1).run d = .ok (nav, d') ∧ nav.filename = some name ∧
    Printable name

/-- The entry that `fat32_write` would overwrite is a file. -/
def WriteMatchesFile (d : Driver) (locals : Locals) (path : CStr) : Prop :=
  ∀ t d', (writeTarget locals path).run d = .ok (some t, d') → t.existing = true →
    t.entry.isDirectory = false

/-- The entry that `fat32_delete` would remove is a file. -/
def DeleteMatchesFile (d : Driver) (path : CStr) : Prop :=
  ∀ slot e d', (deleteEntry path).run d = .ok (some (slot, e), d') → e.isDirectory = false

section WellFormed

variable {d d' : Driver} (wf : WellFormed d)
include wf

theorem WellFormed.start (path : List UInt8) : d.vol.Dir (d.fs.startCluster path) := by
  unfold Fs.startCluster
  split
  · exact ⟨_, .root⟩
  · exact wf.current

theorem WellFormed.navigates (path : List UInt8) : Navigates d d.vol.Dir path :=
  Navigates.of_closed wf.good wf.owned.closed path (wf.start path)

theorem WellFormed.small : d.vol.total + 2 ≤ 0x0FFFFFF8 := wf.good.geometry.range_lt_end

theorem WellFormed.dir_lt {c : Nat} (dir : d.vol.Dir c) : c < 2 ^ 32 := by
  have range := (wf.owned.inRange_dir dir).2
  have := wf.small
  omega

/-- What the volume says about a path with an existing parent. -/
theorem WellFormed.filename {path : CStr} (parent : HasParent d path) :
    ∃ name, (d.vol.navigate (d.fs.startCluster path.1) path.1).filename = some name ∧
      Printable name := by
  obtain ⟨nav, d', name, ran, reported, printable⟩ := parent
  obtain ⟨rfl, -⟩ := (wf.navigates path.1).runs.of_returned ran
  exact ⟨name, reported, printable⟩

/-- The place that the volume names is the one `fat32_write` works on. -/
theorem WellFormed.target {path : CStr} {locals : Locals} {pl : Place} {e : Dirent}
    (place : d.vol.place (d.fs.startCluster path.1) locals path.1 = some pl)
    (placed : d.vol.Placed pl e) :
    ∃ t d', (writeTarget locals path).run d = .ok (some t, d') ∧ t.place = pl ∧ t.entry = e := by
  obtain ⟨r, d', ran, -, same, loaded⟩ := writeTarget_runs wf.good
    (fun c dir => wf.owned.inRange_dir dir) locals path (wf.navigates path.1)
  rw [place] at same
  obtain ⟨t, rfl, rfl⟩ := Option.map_eq_some_iff.mp same
  exact ⟨t, d', ran, rfl, load_eq_slot (loaded t rfl).2 placed.slot⟩

/-- An exchange that an operation made keeps the state well-formed and leaks nothing. -/
theorem WellFormed.exchanged {v' : Vol} {p i : Nat} {e e' : Dirent} {old taken : List Nat}
    (effect : Effect d d' v') (x : d.vol.Exchange v' p i e e' old taken)
    (named : e.inUse = true → e.isDots = false) (fillable : d.vol.Fillable p i)
    (storable : v'.Storable e' taken)
    (made : e'.inUse = true → e'.isDirectory = true → v'.NewDirectory p e'.firstCluster) :
    WellFormed d' ∧ ∀ y, d'.vol.Leaked y → d.vol.Leaked y := by
  have sound := wf.owned.toSound
  refine ⟨⟨effect.good, ?_, ?_⟩, ?_⟩
  · rw [effect.vol_eq]
    exact x.owned sound named wf.owned (wf.dir_lt x.dir) fillable storable made
  · rw [effect.vol_eq, effect.fs_eq]
    obtain ⟨q, isDir⟩ := wf.current
    exact ⟨q, (x.replaced sound named (fillable.file e x.slot)).isDir_mono fillable isDir⟩
  · intro y leak
    rw [effect.vol_eq] at leak
    exact x.leaked sound named fillable storable made leak

/-- A write that succeeds is an exchange in the slot it chose. -/
theorem WellFormed.write_exchange {locals : Locals} {path : CStr} {data name : List UInt8}
    (reported : (d.vol.navigate (d.fs.startCluster path.1) path.1).filename = some name)
    (undeleted : (0xE5 : UInt8) ∉ name) (file : WriteMatchesFile d locals path)
    (returned : (fat32Write locals path data).run d = .ok (0, d')) :
    ∃ pl e e' old taken v', d.vol.place (d.fs.startCluster path.1) locals path.1 = some pl ∧
      makeName83 name = some pl.name ∧ d.vol.Placed pl e ∧ Effect d d' v' ∧
      d.vol.Exchange v' pl.parent pl.slot e e' old taken ∧ e'.name = pl.name ∧
      e'.isDirectory = false ∧ d.vol.Fillable pl.parent pl.slot ∧ v'.Storable e' taken := by
  have sound := wf.owned.toSound
  rcases (fat32Write_runs wf.good sound locals data (wf.navigates path.1)).of_returned returned with
    ⟨-, impossible, -⟩ | ⟨pl, e, old, place, placed, releases, apart, ok, effect⟩
  · cases impossible
  obtain ⟨-, -, made, -, -⟩ := Vol.place_eq_some place
  rw [reported] at made
  have notDir : e.inUse = true → e.isDirectory = false := by
    intro used
    obtain ⟨t, d₁, ran, rfl, rfl⟩ := wf.target place placed
    exact file t d₁ ran (placed.used.symm.trans used)
  obtain ⟨e', taken, x, named, attributes, chain, none⟩ :=
    sound.exchange_write wf.small placed releases apart ok.symm
  refine ⟨pl, e, e', old, taken, _, place, made, placed, effect, x, named, ?_,
    sound.fillable_write place placed notDir, ?_⟩
  · rw [Dirent.isDirectory, attributes]
    rfl
  · exact Vol.storable_entry named placed.marked (makeName83_undeleted undeleted made)
      placed.proper (by rw [attributes]; decide) chain none

theorem WellFormed.write_keeps {locals : Locals} {path : CStr} {data : List UInt8}
    (parent : HasParent d path) (file : WriteMatchesFile d locals path)
    (returned : (fat32Write locals path data).run d = .ok (0, d')) :
    WellFormed d' ∧ ∀ y, d'.vol.Leaked y → d.vol.Leaked y := by
  obtain ⟨name, reported, printable⟩ := wf.filename parent
  obtain ⟨pl, e, e', old, taken, v', -, -, placed, effect, x, -, notDir, fillable, storable⟩ :=
    wf.write_exchange reported printable.undeleted file returned
  refine wf.exchanged effect x placed.not_dots fillable storable ?_
  intro _ directory
  rw [notDir] at directory
  cases directory

theorem WellFormed.delete_keeps {path : CStr} (file : DeleteMatchesFile d path)
    (returned : (fat32Delete path).run d = .ok (0, d')) :
    WellFormed d' ∧ ∀ y, d'.vol.Leaked y → d.vol.Leaked y := by
  have sound := wf.owned.toSound
  rcases (fat32Delete_runs wf.good sound path).of_returned returned with
    ⟨-, impossible, -⟩ | ⟨i, e, old, found, releases, apart, -, effect⟩
  · cases impossible
  obtain ⟨slot, used, named⟩ := Vol.deleteMatch_eq_some found
  have notDir : e.isDirectory = false := by
    obtain ⟨r, d₁, ran, rfl, -⟩ := deleteEntry_runs wf.good (sound.inRange_dir ⟨_, .root⟩) path
    rw [found] at ran
    exact file i e d₁ ran
  have fillable : d.vol.Fillable d.vol.root i :=
    Vol.fillable_of_slot slot (fun _ => notDir) (fun _ => named)
      (sound.visible_before ⟨_, .root⟩ slot used)
  refine wf.exchanged effect (Vol.exchange_delete slot releases) (fun _ => named) fillable
    (Vol.storable_deleted e) ?_
  intro impossible
  cases impossible

/-- What a successful mkdir did: the entry `name` for the cluster `c` went to the slot `i` of
the directory `p`, which was free. -/
structure MadeIn (d d' : Driver) (p c i : Nat) (name : Name83) (e : Dirent) : Prop where
  dir : d.vol.Dir p
  free : c ∈ d.vol.freeClusters
  slot : (d.vol.slots p)[i]? = some e
  available : e.name0 = 0 ∨ e.name0 = 0xE5
  before : ∀ m, m < i → ∀ f, (d.vol.slots p)[m]? = some f → f.name0 ≠ 0 ∧ f.name0 ≠ 0xE5
  marked : name.1.getD 0 0 ≠ 0
  undeleted : name.1.getD 0 0 ≠ 0xE5
  effect : Effect d d' ((d.vol.withDirectory c p).setSlot p i (Dirent.newDirectory name c))

omit wf in
theorem MadeIn.unused {p c i : Nat} {name : Name83} {e : Dirent} (made : MadeIn d d' p c i name e) :
    e.inUse = false := by
  rcases made.available with ends | deleted
  · simp [Dirent.inUse, ends]
  · simp [Dirent.inUse, deleted]

theorem MadeIn.first {p c i : Nat} {name : Name83} {e : Dirent} (made : MadeIn d d' p c i name e) :
    (Dirent.newDirectory name c).firstCluster = c := by
  refine Dirent.firstCluster_newDirectory name ?_
  have := (Vol.mem_freeClusters.mp made.free).1.2
  have := wf.small
  omega

/-- Making a directory is an exchange in a free slot. -/
theorem MadeIn.exchange {p c i : Nat} {name : Name83} {e : Dirent}
    (made : MadeIn d d' p c i name e) :
    d.vol.Exchange d'.vol p i e (Dirent.newDirectory name c) [] [c] ∧ d'.vol.NewDirectory p c := by
  rw [made.effect.vol_eq]
  exact wf.owned.toSound.exchange_mkdir wf.good.geometry.one_le_spc name made.dir made.free
    made.slot made.unused

omit wf in
theorem MadeIn.fillable {p c i : Nat} {name : Name83} {e : Dirent}
    (made : MadeIn d d' p c i name e) : d.vol.Fillable p i := by
  have notUsed : ∀ {P : Prop}, e.inUse = true → P := by
    intro P used
    rw [made.unused] at used
    cases used
  exact Vol.fillable_of_slot made.slot notUsed notUsed
    fun j f early at_j => (made.before j early f at_j).1

/-- When `fat32_mkdir` returns 0 for a path that was followed. -/
theorem WellFormed.mkdir_made {locals : Locals} {path : CStr} {dirname : List UInt8}
    (reported : (d.vol.navigate (d.fs.startCluster path.1) path.1).filename = some dirname)
    (noNul : (0 : UInt8) ∉ dirname) (undeleted : (0xE5 : UInt8) ∉ dirname)
    (returned : (fat32Mkdir locals path).run d = .ok (0, d')) :
    ∃ p c i name e,
      (d.vol.navigate (d.fs.startCluster path.1) path.1).parentCluster = some p ∧
      (d.vol.navigate (d.fs.startCluster path.1) path.1).result ≠ 1 ∧
      makeName83 dirname = some name ∧ MadeIn d d' p c i name e := by
  have sound := wf.owned.toSound
  have navigates := wf.navigates path.1
  have followed := Vol.navigate_followed reported
  obtain ⟨ok, effect⟩ :=
    (fat32Mkdir_runs wf.good sound locals navigates followed).of_returned returned
  obtain ⟨p, parentCluster, dir⟩ := navigates.reaches followed
  obtain ⟨fresh, c, rest, name, i, free, made, scanned, result⟩ := Vol.mkdir_ok ok.symm
  rw [parentCluster, Option.getD_some] at scanned result
  rw [reported, Option.getD_some] at made
  rw [result] at effect
  obtain ⟨n, e, index, slot, available, before⟩ := Vol.scanFree_eq_some scanned
  rw [Nat.zero_add] at index
  subst index
  refine ⟨p, c, i, name, e, parentCluster, fresh, made, ?_⟩
  exact {
    dir, slot, available, before, effect
    free := by rw [free]; exact List.mem_cons_self
    marked := makeName83_not_end noNul made
    undeleted := makeName83_undeleted undeleted made }

theorem MadeIn.storable {p c i : Nat} {name : Name83} {e : Dirent}
    (made : MadeIn d d' p c i name e) (proper : name ≠ dotName ∧ name ≠ dotdotName) :
    d'.vol.Storable (Dirent.newDirectory name c) [c] := by
  have first := made.first wf
  refine Vol.storable_entry rfl made.marked made.undeleted proper
    (by decide : attrDirectory ≠ attrLfn) ?_ ?_
  · rw [first]
    exact fun _ => (made.exchange wf).2.chain
  · rw [first]
    intro zero
    have := (Vol.mem_freeClusters.mp made.free).1.1
    omega

/-- The rest of the volume is as it was. -/
theorem MadeIn.replaced {p c i : Nat} {name : Name83} {e : Dirent}
    (made : MadeIn d d' p c i name e) (proper : name ≠ dotName ∧ name ≠ dotdotName) :
    d.vol.Replaced d'.vol p i (Dirent.newDirectory name c) ∧
      d.vol.Filling d'.vol p i (Dirent.newDirectory name c) := by
  have notUsed : ∀ {P : Prop}, e.inUse = true → P := by
    intro P used
    rw [made.unused] at used
    cases used
  obtain ⟨x, -⟩ := made.exchange wf
  exact ⟨x.replaced wf.owned.toSound notUsed notUsed,
    x.filling wf.owned.toSound notUsed (made.storable wf proper)⟩

/-- Making a directory keeps the state well-formed and leaks nothing. -/
theorem MadeIn.keeps {p c i : Nat} {name : Name83} {e : Dirent} (made : MadeIn d d' p c i name e)
    (proper : name ≠ dotName ∧ name ≠ dotdotName) :
    WellFormed d' ∧ ∀ y, d'.vol.Leaked y → d.vol.Leaked y := by
  have notUsed : ∀ {P : Prop}, e.inUse = true → P := by
    intro P used
    rw [made.unused] at used
    cases used
  obtain ⟨x, fresh⟩ := made.exchange wf
  have same : Effect d d' d'.vol :=
    ⟨made.effect.good, made.effect.fs_eq, made.effect.file_eq, rfl⟩
  refine wf.exchanged same x notUsed made.fillable (made.storable wf proper) ?_
  intro _ _
  rw [made.first wf]
  exact fresh

theorem WellFormed.mkdir_keeps {locals : Locals} {path : CStr} (parent : HasParent d path)
    (returned : (fat32Mkdir locals path).run d = .ok (0, d')) :
    WellFormed d' ∧ ∀ y, d'.vol.Leaked y → d.vol.Leaked y := by
  obtain ⟨text, reported, printable⟩ := wf.filename parent
  obtain ⟨p, c, i, name, e, -, -, named, made⟩ :=
    wf.mkdir_made reported printable.no_nul printable.undeleted returned
  exact made.keeps wf (makeName83_not_dots named)

theorem WellFormed.chdir_keeps {path : CStr} {r : Int}
    (returned : (fat32Chdir path).run d = .ok (r, d')) :
    WellFormed d' ∧ ∀ y, d'.vol.Leaked y → d.vol.Leaked y := by
  obtain ⟨good, vol, moved⟩ :=
    fat32Chdir_returns wf.good wf.owned.closed (wf.start path.1) returned
  refine ⟨⟨good, by rw [vol]; exact wf.owned, ?_⟩, fun y leak => by rwa [vol] at leak⟩
  rw [vol]
  rcases moved with ⟨-, fs⟩ | ⟨e, text, -, -, -, dir, fs⟩
  · rw [fs]
    exact wf.current
  · rw [fs]
    exact dir

end WellFormed

/-! ## Sequences of calls -/

/-- The calls that change files and directories. -/
inductive Call where
  | write (path : CStr) (data : List UInt8)
  | create (path : CStr)
  | delete (path : CStr)
  | mkdir (path : CStr)
  | chdir (path : CStr)

/-- A call, with what its uninitialised locals hold. -/
def Call.run (locals : Locals) : Call → FatM Int
  | .write path data => fat32Write locals path data
  | .create path => fat32Create locals path
  | .delete path => fat32Delete path
  | .mkdir path => fat32Mkdir locals path
  | .chdir path => fat32Chdir path

/-- The calls considered: a write or delete matches no directory, and a path that is written
or made has an existing parent and a printable last component. -/
def Call.Proper (d : Driver) (locals : Locals) : Call → Prop
  | .write path _ => HasParent d path ∧ WriteMatchesFile d locals path
  | .create path => HasParent d path ∧ WriteMatchesFile d locals path
  | .delete path => DeleteMatchesFile d path
  | .mkdir path => HasParent d path
  | .chdir _ => True

/-- `Reaches d calls d'`: the calls, one after the other and all returning 0, lead from `d`
to `d'`. -/
inductive Reaches : Driver → List Call → Driver → Prop
  | done (d : Driver) : Reaches d [] d
  | call {d d₁ d₂ : Driver} {c : Call} {rest : List Call} (locals : Locals)
      (proper : c.Proper d locals) (returned : (c.run locals).run d = .ok (0, d₁))
      (after : Reaches d₁ rest d₂) :
      Reaches d (c :: rest) d₂

/-- One call keeps the state well-formed and leaks nothing. -/
theorem WellFormed.call_keeps {d d' : Driver} (wf : WellFormed d) {c : Call} {locals : Locals}
    (proper : c.Proper d locals) (returned : (c.run locals).run d = .ok (0, d')) :
    WellFormed d' ∧ ∀ y, d'.vol.Leaked y → d.vol.Leaked y := by
  cases c with
  | write path data => exact wf.write_keeps proper.1 proper.2 returned
  | create path => exact wf.write_keeps proper.1 proper.2 returned
  | delete path => exact wf.delete_keeps proper returned
  | mkdir path => exact wf.mkdir_keeps proper returned
  | chdir path => exact wf.chdir_keeps returned

theorem WellFormed.reaches_keeps {d d' : Driver} {calls : List Call} (run : Reaches d calls d') :
    WellFormed d → WellFormed d' ∧ ∀ y, d'.vol.Leaked y → d.vol.Leaked y := by
  induction run with
  | done d => exact fun wf => ⟨wf, fun _ leak => leak⟩
  | call locals proper returned _ ih =>
      intro wf
      obtain ⟨wf₁, leaks⟩ := wf.call_keeps proper returned
      obtain ⟨wf₂, leaks'⟩ := ih wf₁
      exact ⟨wf₂, fun y leak => leaks y (leaks' y leak)⟩

/-! ## A formatted volume -/

/-- An empty volume of six clusters of one sector, with the root directory in cluster 2. -/
def formatted : Driver where
  ata :=
    { media := fun _ _ l => if l = 1 then Buf.putLe (fun _ => 0) 8 4 0x0FFFFFFF else fun _ => 0
      fault := fun _ => none
      transfers := 0 }
  fs :=
    { disk := 0, partition := 0, startLba := 0, fatStart := 1, dataStart := 2, rootDirCluster := 2
      sectorsPerFat := 1, numFats := 1, bytesPerSector := 512, sectorsPerCluster := 1
      totalClusters := 6, currentDirCluster := 2, currentPath := [slash] }
  fsMounted := true
  rootDirBuffer := fun _ => 0
  fatSectorCache := fun _ => 0
  fatCacheSector := 0xFFFFFFFF
  openFile := ⟨0, 0, 0, 0, 0, 0, 0, 0⟩
  fileClusterBuf := fun _ => 0

theorem formatted_good : formatted.Good where
  geometry := ⟨by decide, by decide, by decide, by decide, by decide, by decide⟩
  mounted := rfl
  noFault := fun _ => rfl
  copies := by
    intro k hk j _ o _
    obtain rfl : k = 0 := by
      change k < 1 at hk
      omega
    rw [Nat.zero_mul, Nat.add_zero]
  coherent := by
    intro _ high
    exact absurd high (by decide)

theorem formatted_slots (c : Nat) {i : Nat} {e : Dirent}
    (slot : (formatted.vol.slots c)[i]? = some e) : e = Dirent.zero := by
  have empty : formatted.vol.bytes c = fun _ => 0 := by
    funext k
    by_cases inside : (2 ≤ c ∧ c < 8) ∧ k < 512
    · rw [Driver.vol_bytes formatted inside.1 inside.2]
      change (if 2 + (c - 2) * 1 + k / 512 = 1 then _ else fun _ => 0 : Buf) (k % 512) = 0
      rw [if_neg (by omega)]
    · exact Driver.vol_bytes_outside formatted inside
  simp only [Vol.slots, empty, Dirent.load_zero, List.getElem?_map, Option.map_eq_some_iff] at slot
  obtain ⟨-, -, same⟩ := slot
  exact same.symm

theorem formatted_isDir {p d : Nat} (isDir : formatted.vol.IsDir p d) : p = 2 ∧ d = 2 := by
  cases isDir with
  | root => exact ⟨rfl, rfl⟩
  | sub _ slot used _ _ =>
      rw [formatted_slots _ slot] at used
      cases used

theorem formatted_chain : formatted.vol.ChainFrom 2 [2] :=
  Chain.last (by decide) (by decide)

theorem formatted_owned : formatted.vol.Owned := by
  have noEntry : ∀ d i e, ¬ formatted.vol.Live d i e := by
    intro d i e live
    have used := live.used
    rw [formatted_slots d live.slot] at used
    cases used
  have rootOnly : ∀ o c, formatted.vol.Owns o c → o = none ∧ c = 2 := by
    intro o c owns
    cases owns with
    | root => exact ⟨rfl, rfl⟩
    | entry live _ => exact absurd live (noEntry _ _ _)
  refine { chains := ?_, disjoint := ?_, directories := ?_, noLongNames := ?_, clean := ?_
           zeroTail := ?_, oneCluster := ?_, dots := ?_ }
  · intro o c owns
    obtain ⟨-, rfl⟩ := rootOnly o c owns
    exact ⟨[2], formatted_chain⟩
  · intro o o' c c' l l' owns owns' different
    exact absurd ((rootOnly o c owns).1.trans (rootOnly o' c' owns').1.symm) different
  · intro d i e live
    exact absurd live (noEntry d i e)
  · intro d _ i e slot used
    rw [formatted_slots d slot] at used
    cases used
  · intro d _ i e slot _
    rw [formatted_slots d slot]
    rfl
  · intro d _ i j e e' _ _ _ slot
    exact formatted_slots d slot
  · rintro d ⟨p, isDir⟩
    obtain ⟨-, rfl⟩ := formatted_isDir isDir
    exact formatted_chain
  · intro p d _ i e slot used
    rw [formatted_slots d slot] at used
    cases used

theorem formatted_wellFormed : WellFormed formatted :=
  ⟨formatted_good, formatted_owned, ⟨2, .root⟩⟩

/-- After every sequence of calls that returned 0 from a well-formed state: distinct live
files and directories have disjoint chains, every chain ends and its clusters are in range
and allocated, the current directory is live, the state is well-formed again, and every
leaked cluster was leaked before. -/
theorem ownership_along_calls {d d' : Driver} {calls : List Call} (wf : WellFormed d)
    (run : Reaches d calls d') :
    (∀ o o' c c' l l', d'.vol.Owns o c → d'.vol.Owns o' c' → o ≠ o' →
      d'.vol.ChainFrom c l → d'.vol.ChainFrom c' l' → l.Disjoint l') ∧
    (∀ o c, d'.vol.Owns o c → ∃ l, d'.vol.ChainFrom c l ∧
      ∀ x, x ∈ l → d'.vol.InRange x ∧ d'.vol.fat x ≠ 0) ∧
    d'.vol.Dir d'.fs.currentDirCluster ∧
    WellFormed d' ∧
    ∀ x, d'.vol.Leaked x → d.vol.Leaked x := by
  obtain ⟨wf', leaks⟩ := WellFormed.reaches_keeps run wf
  refine ⟨wf'.owned.disjoint, ?_, wf'.current, wf', leaks⟩
  intro o c owns
  obtain ⟨l, chain⟩ := wf'.owned.chains o c owns
  exact ⟨l, chain, fun x member => ⟨chain.valid_of_mem x member, chain.fat_ne_zero x member⟩⟩

/-- A text argument. -/
def CStr.ofBytes (text : List UInt8) : CStr := ⟨text.filter (· ≠ 0), by simp⟩

/-- Locals that hold nothing. -/
def Locals.blank : Locals := ⟨0, CStr.ofBytes []⟩

theorem HasParent.of_check {d : Driver} {path : CStr}
    (passed : Runs.check (navigatePath path.1) d (fun nav _ =>
      nav.filename.any fun name => name.all fun c => 0x20 ≤ c.toNat && c.toNat ≤ 0x7E) = true) :
    HasParent d path := by
  obtain ⟨nav, d', ran, holds⟩ := Runs.of_check passed
  cases reported : nav.filename with
  | none => rw [reported] at holds; cases holds
  | some name =>
      rw [reported] at holds
      refine ⟨nav, d', name, ran, reported, fun c member => ?_⟩
      have := List.all_eq_true.mp holds c member
      simpa using this

theorem WriteMatchesFile.of_check {d : Driver} {locals : Locals} {path : CStr}
    (passed : Runs.check (writeTarget locals path) d (fun target _ =>
      target.all fun t => !(t.existing && t.entry.isDirectory)) = true) :
    WriteMatchesFile d locals path := by
  intro t d' ran existing
  have holds := (Runs.of_check passed).of_returned ran
  simpa [existing] using holds

/-- The formatted volume after `mkdir a`. -/
def withA : Driver := leaves (fat32Mkdir .blank (.ofBytes [0x61])) formatted

theorem withA_wellFormed : WellFormed withA := by
  have made : Runs.check (fat32Mkdir .blank (.ofBytes [0x61])) formatted (fun r _ => r = 0) =
      true := by decide +kernel
  obtain ⟨_, ran, zero⟩ := leaves_of_check made
  obtain rfl := of_decide_eq_true zero
  exact (formatted_wellFormed.mkdir_keeps (HasParent.of_check (by decide +kernel)) ran).1

/-- The formatted volume with one file of one byte: clusters 4 to 7 are free. -/
def withX : Driver := leaves (fat32Write .blank (.ofBytes [0x78]) [1]) formatted

theorem withX_wellFormed : WellFormed withX := by
  have wrote : Runs.check (fat32Write .blank (.ofBytes [0x78]) [1]) formatted
      (fun r _ => r = 0) = true := by decide +kernel
  obtain ⟨_, ran, zero⟩ := leaves_of_check wrote
  obtain rfl := of_decide_eq_true zero
  exact (formatted_wellFormed.write_keeps (HasParent.of_check (by decide +kernel))
    (WriteMatchesFile.of_check (by decide +kernel)) ran).1

/-- `mkdir a`, `write a/b`, `chdir a` on the formatted volume. -/
theorem ownership_after_three_calls : ∃ d', Reaches formatted
    [.mkdir (.ofBytes [0x61]), .write (.ofBytes [0x61, slash, 0x62]) [1, 2],
      .chdir (.ofBytes [0x61])] d' ∧ d'.fs.currentDirCluster = 3 ∧ WellFormed d' := by
  have first : Runs.check (fat32Mkdir .blank (.ofBytes [0x61])) formatted (fun r _ => r = 0) =
      true := by decide +kernel
  obtain ⟨_, ran₁, zero₁⟩ := leaves_of_check first
  have second : Runs.check (fat32Write .blank (.ofBytes [0x61, slash, 0x62]) [1, 2])
      (leaves (fat32Mkdir .blank (.ofBytes [0x61])) formatted) (fun r _ => r = 0) = true := by
    decide +kernel
  obtain ⟨_, ran₂, zero₂⟩ := leaves_of_check second
  have third : Runs.check (fat32Chdir (.ofBytes [0x61]))
      (leaves (fat32Write .blank (.ofBytes [0x61, slash, 0x62]) [1, 2])
        (leaves (fat32Mkdir .blank (.ofBytes [0x61])) formatted))
      (fun r d => r = 0 && d.fs.currentDirCluster = 3) = true := by decide +kernel
  obtain ⟨_, ran₃, zero₃⟩ := leaves_of_check third
  simp only [decide_eq_true_eq, Bool.and_eq_true] at zero₁ zero₂ zero₃
  obtain ⟨zero₃, current⟩ := zero₃
  subst zero₁ zero₂ zero₃
  have run : Reaches formatted [.mkdir (.ofBytes [0x61]),
      .write (.ofBytes [0x61, slash, 0x62]) [1, 2], .chdir (.ofBytes [0x61])] _ :=
    .call .blank (HasParent.of_check (by decide +kernel)) ran₁
      (.call .blank ⟨HasParent.of_check (by decide +kernel),
        WriteMatchesFile.of_check (by decide +kernel)⟩ ran₂
        (.call .blank trivial ran₃ (.done _)))
  exact ⟨_, run, current, (ownership_along_calls formatted_wellFormed run).2.2.2.1⟩

end XosKernel.Fat32
