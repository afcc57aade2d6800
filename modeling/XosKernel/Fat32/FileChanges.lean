/-
# Fat32.FileChanges -- the calls change the store as their names say

A write puts its data under the directory and the 8.3 name that its path leads to, if it
returns 0.  If it fails it leaves the volume: data of at most one cluster runs out of space
only where the old file had no cluster to give back (`write_swaps`).  A delete drops the name
from the root directory, whatever directory the path is relative to.  `mkdir` and `chdir` leave
every file.  `files_after_calls` follows a whole run.
-/
import XosKernel.Fat32.FailedWrite
import XosKernel.Fat32.FileStore

namespace XosKernel.Fat32

open XosKernel.Theory

set_option autoImplicit false

/-! ## Write -/

/-- The chosen slot is the only one of the name. -/
theorem Covering.place_fresh {d : Driver} (covering : Covering d) {start : Nat} {locals : Locals}
    {path : CStr} {pl : Place} {e : Dirent}
    (place : d.vol.place start locals path.1 = some pl) (placed : d.vol.Placed pl e) :
    ∀ j f, d.vol.Live pl.parent j f → j ≠ pl.slot → f.name ≠ pl.name := by
  intro j f live other same
  have sound := covering.owned.toSound
  obtain ⟨marked, visible⟩ := live.visible sound
  obtain ⟨-, -, -, -, chosen⟩ := Vol.place_eq_some place
  cases existing : pl.existing with
  | true =>
      have at_slot := placed.live existing
      exact other
        (covering.distinct _ _ _ _ _ live at_slot (same.trans (placed.named existing).symm))
  | false =>
      rw [existing] at chosen
      obtain ⟨e₁, slot, before, ends | ⟨-, -, all⟩⟩ := choose_free chosen
      · rcases Nat.lt_or_ge j pl.slot with early | late
        · exact (before j early f live.slot).2.2 same
        · -- behind the end marker everything is zero
          have zero := sound.zeroTail _ placed.dir pl.slot j e₁ f (by omega) slot ends live.slot
          rw [zero] at marked
          exact marked rfl
      · rcases all j f live.slot with skip | differs
        · rw [visible] at skip
          cases skip
        · exact differs same

/-- An entry of at most one cluster, and its bytes. -/
theorem Vol.contents_one {v : Vol} {e : Dirent} {data : List UInt8}
    (size : e.fileSize.toNat = data.length) (fits : data.length ≤ v.clusterSize)
    (range : data ≠ [] → v.InRange e.firstCluster)
    (bytes : ∀ i, i < data.length → v.bytes e.firstCluster i = data.getD i 0) :
    v.ChainCovers e.firstCluster e.fileSize.toNat ∧ v.contents e = data := by
  rw [Vol.contents, size]
  constructor
  · intro k more
    have first : k = 0 := by
      by_contra later
      have := Nat.mul_le_mul_right v.clusterSize (Nat.one_le_iff_ne_zero.mpr later)
      omega
    subst first
    exact range (List.ne_nil_of_length_pos (by omega))
  · apply List.ext_getElem
    · exact Vol.length_fileBytes ..
    · intro i low high
      have inside : i < v.clusterSize := by omega
      simp only [Vol.fileBytes, List.getElem_map, List.getElem_range, Nat.div_eq_of_lt inside,
        Nat.mod_eq_of_lt inside]
      change v.bytes e.firstCluster i = _
      rw [bytes i high]
      simp [high]

/-- `fat32_write` on a covering volume either leaves it, or stores the entry that it should. -/
theorem Covering.write_swaps {d d' : Driver} (covering : Covering d) {locals : Locals} {path : CStr}
    {data name : List UInt8} {r : Int}
    (reported : (d.vol.navigate (d.fs.startCluster path.1) path.1).filename = some name)
    (printable : Printable name) (file : WriteMatchesFile d locals path)
    (fits : data.length ≤ d.vol.clusterSize)
    (returned : (fat32Write locals path data).run d = .ok (r, d')) :
    (r ≠ 0 ∧ Effect d d' d.vol) ∨
      ∃ pl e e', r = 0 ∧ d.vol.place (d.fs.startCluster path.1) locals path.1 = some pl ∧
        makeName83 name = some pl.name ∧ d.vol.Placed pl e ∧ WellFormed d' ∧
        d.vol.Swapped d'.vol pl.parent pl.slot e' ∧ e'.name = pl.name ∧ e'.inUse = true ∧
        e'.isDirectory = false ∧ d'.vol.contents e' = data := by
  have wf := covering.toWellFormed
  have sound := wf.owned.toSound
  rcases (fat32Write_runs wf.good sound locals data (wf.navigates path.1)).of_returned returned with
    ⟨-, rfl, effect⟩ | ⟨pl, e, old, place, placed, releases, apart, rfl, effect⟩
  · exact .inl ⟨by decide, effect⟩
  obtain ⟨-, -, made, -, -⟩ := Vol.place_eq_some place
  rw [reported] at made
  have size : d.vol.clusterSize ≤ 4096 := by
    have := wf.good.geometry.spc_le
    change d.fs.sectorsPerCluster * 512 ≤ 4096
    omega
  rcases d.vol.writeAt_cases pl old data with ⟨ok, -⟩ | ⟨failed, nonempty, none_, result⟩
  swap
  · -- one cluster is missing only if the old chain was empty too, and then nothing changed
    have length := List.length_pos_iff.mpr nonempty
    rw [clustersNeeded_one size length fits] at none_
    have nothing : d.vol.available old = 0 := by omega
    have none_old := Vol.released_nil releases nothing
    subst none_old
    have noFree : d.vol.freeClusters = [] := by
      unfold Vol.available at nothing
      rw [Vol.freeAll_nil] at nothing
      exact List.length_eq_zero_iff.mp nothing
    rw [result, Vol.freeAll_nil, noFree] at effect
    exact .inl ⟨by rw [failed]; decide, effect⟩
  obtain ⟨e', taken, x, same, archive, chain, none_⟩ :=
    sound.exchange_write wf.small placed releases apart ok
  have notDir := (wf.matchesFile_iff place placed).mp file
  have undeleted := makeName83_undeleted printable.undeleted made
  have used : e'.inUse = true := Vol.inUse_of_name same placed.marked undeleted
  have plain : e'.isDirectory = false := by
    rw [Dirent.isDirectory, archive]
    rfl
  have noDirectory : e'.inUse = true → e'.isDirectory = true →
      (d.vol.writeAt pl old data).2.NewDirectory pl.parent e'.firstCluster := by
    intro _ directory
    rw [plain] at directory
    cases directory
  have fillable := sound.fillable_write place placed notDir
  have storable : (d.vol.writeAt pl old data).2.Storable e' taken :=
    Vol.storable_entry same placed.marked undeleted placed.proper (by rw [archive]; decide) chain
      none_
  have slot : ((d.vol.writeAt pl old data).2.slots pl.parent)[pl.slot]? = some e' := by
    rw [x.here, List.getElem?_set_self (by rw [Vol.length_slots]; exact placed.inside)]
  obtain ⟨fileSize, -, bytes⟩ :=
    written_contents sound wf.small size fits placed.dir apart ok slot
  obtain ⟨covers, held⟩ := Vol.contents_one (v := (d.vol.writeAt pl old data).2) fileSize
    (by rw [Vol.clusterSize, x.spc]; exact fits)
    (fun nonempty => (bytes nonempty).1.valid_of_mem _ (bytes nonempty).1.head_mem)
    (fun i inside => (bytes (List.ne_nil_of_length_pos (by omega))).2 i inside)
  refine .inr ⟨pl, e, e', ok, place, made, placed, ?_, ?_, same, used, plain, ?_⟩
  · exact (wf.exchanged effect x placed.not_dots fillable storable noDirectory).1
  · rw [effect.vol_eq]
    refine x.swapped sound fillable storable noDirectory ?_ fun _ _ => covers
    rw [same]
    exact fun _ => covering.place_fresh place placed
  · rw [effect.vol_eq]
    exact held

/-! ## The change that a call makes -/

/-- The directory and the 8.3 name that a path leads to. -/
def Driver.key (d : Driver) (path : CStr) : Option (Nat × Name83) :=
  match (navigatePath path.1).run d with
  | .ok (nav, _) => do
      let parent ← nav.parentCluster
      let text ← nav.filename
      let name ← makeName83 text
      return (parent, name)
  | .error _ => none

/-- The key that `fat32_delete` drops: it looks in the root directory only. -/
def Driver.rootKey (d : Driver) (path : CStr) : Option (Nat × Name83) :=
  (makeName83 (skipSlash path.1)).map fun name => (d.fs.rootDirCluster, name)

/-- What a call that returned `r` should have done to the files. -/
def Call.changes (d : Driver) (r : Int) : Call → List (Change (Nat × Name83) (List UInt8))
  | .write path data => if r = 0 then ((d.key path).map (Change.put · data)).toList else []
  | .create path => if r = 0 then ((d.key path).map (Change.put · [])).toList else []
  | .delete path => if r = 0 then ((d.rootKey path).map Change.drop).toList else []
  | .mkdir _ => []
  | .chdir _ => []

/-- `fat32_mkdir` does not find the text it is given, but its 8.3 name is there. -/
def MakesDouble (d : Driver) (path : CStr) : Prop :=
  ∃ nav d' key i e, (navigatePath path.1).run d = .ok (nav, d') ∧ nav.result ≠ 1 ∧
    d.key path = some key ∧ d.vol.Live key.1 i e ∧ e.name = key.2

/-- A write that needs at most one cluster, and a `mkdir` that makes no second entry of a
name. -/
def Call.Tame (d : Driver) : Call → Prop
  | .write _ data => data.length ≤ d.fs.sectorsPerCluster * 512
  | .create _ => True
  | .delete _ => True
  | .mkdir path => ¬ MakesDouble d path
  | .chdir _ => True

/-- `Performs d changes d'`: the calls of a run from `d` to `d'` returned, 0 or not, and these
are the changes that they should have made. -/
inductive Performs : Driver → List (Change (Nat × Name83) (List UInt8)) → Driver → Prop
  | done (d : Driver) : Performs d [] d
  | call {d d₁ d₂ : Driver} {c : Call} {r : Int}
      {rest : List (Change (Nat × Name83) (List UInt8))} (locals : Locals)
      (proper : c.Proper d locals) (tame : c.Tame d) (returned : (c.run locals).run d = .ok (r, d₁))
      (after : Performs d₁ rest d₂) : Performs d (c.changes d r ++ rest) d₂

section Calls

variable {d d' : Driver} (covering : Covering d)
include covering

theorem Covering.key_eq {path : CStr} {dirname : List UInt8} {p : Nat}
    (parent : (d.vol.navigate (d.fs.startCluster path.1) path.1).parentCluster = some p)
    (reported : (d.vol.navigate (d.fs.startCluster path.1) path.1).filename = some dirname) :
    d.key path = (makeName83 dirname).map fun name => (p, name) := by
  obtain ⟨nav, d₁, ran, rfl, -⟩ := (covering.toWellFormed.navigates path.1).runs
  unfold Driver.key
  rw [ran]
  simp only [parent, reported]
  change (makeName83 dirname).bind (fun name => some (p, name)) = _
  cases makeName83 dirname <;> rfl

theorem Covering.write_changes {locals : Locals} {path : CStr} {data : List UInt8} {r : Int}
    (parent : HasParent d path) (file : WriteMatchesFile d locals path)
    (fits : data.length ≤ d.fs.sectorsPerCluster * 512)
    (returned : (fat32Write locals path data).run d = .ok (r, d')) :
    Covering d' ∧ d'.files = d.files.after ((Call.write path data).changes d r) := by
  obtain ⟨dirname, reported, printable⟩ := covering.toWellFormed.filename parent
  rcases covering.write_swaps reported printable file fits returned with
    ⟨failed, effect⟩ | ⟨pl, e, e', rfl, place, made, placed, wf', swapped, named, used, plain, held⟩
  · rw [Call.changes, if_neg failed]
    exact covering.of_effect effect
  obtain ⟨followed, at_parent, -, -, -⟩ := Vol.place_eq_some place
  obtain ⟨p, parentCluster, -⟩ := (covering.toWellFormed.navigates path.1).reaches followed
  rw [parentCluster, Option.getD_some] at at_parent
  subst at_parent
  have key := covering.key_eq parentCluster reported
  rw [Call.changes, if_pos rfl, key, made]
  refine ⟨covering.swapped wf' swapped, ?_⟩
  refine (Store.picture_changed (.put (pl.parent, pl.name) data) covering.distinct.single ?_ ?_).2
  · -- the new file is the only one of its name
    intro x
    rw [covering.holds_iff swapped]
    simp only [Change.key, Change.content]
    constructor
    · rintro (⟨j, f, live, other, same, -, -⟩ | ⟨-, -, -, rfl⟩)
      · refine absurd same (covering.place_fresh place placed j f live fun here => other ?_)
        rw [here]
      · rw [held]
    · rintro ⟨rfl⟩
      exact .inr ⟨by rw [named], used, plain, held⟩
  · intro key x other
    refine covering.holds_elsewhere swapped ?_ ?_
    · intro f live _ same
      have slot := live.slot
      rw [placed.slot] at slot
      cases slot
      rw [placed.named (placed.used.symm.trans live.used)] at same
      exact other same
    · intro _ _ same
      rw [named] at same
      exact other same

theorem Covering.delete_changes {path : CStr} {r : Int} (file : DeleteMatchesFile d path)
    (returned : (fat32Delete path).run d = .ok (r, d')) :
    Covering d' ∧ d'.files = d.files.after ((Call.delete path).changes d r) := by
  have wf := covering.toWellFormed
  have sound := wf.owned.toSound
  rcases (fat32Delete_runs wf.good sound path).of_returned returned with
    ⟨-, rfl, effect⟩ | ⟨i, e, old, found, releases, apart, rfl, effect⟩
  · rw [Call.changes, if_neg (by decide)]
    exact covering.of_effect effect
  obtain ⟨slot, used, named⟩ := Vol.deleteMatch_eq_some found
  obtain ⟨name, made, hit⟩ := Option.bind_eq_some_iff.mp found
  have same : e.name = name := by simpa using (lookup_eq_some.mp hit).2.2.2.1
  have notDir : e.isDirectory = false := by
    obtain ⟨_, d₁, ran, rfl, -⟩ := deleteEntry_runs wf.good (sound.inRange_dir ⟨_, .root⟩) path
    rw [found] at ran
    exact file i e d₁ ran
  have live : d.vol.Live d.vol.root i e := ⟨⟨_, .root⟩, slot, used, named⟩
  have unused : e.deleted.inUse = true → ∀ {P : Prop}, P := by
    intro impossible
    cases impossible
  have x := Vol.exchange_delete slot releases
  have fillable : d.vol.Fillable d.vol.root i :=
    Vol.fillable_of_slot slot (fun _ => notDir) (fun _ => named)
      (sound.visible_before ⟨_, .root⟩ slot used)
  have swapped : d.vol.Swapped d'.vol d.vol.root i e.deleted := by
    rw [effect.vol_eq]
    exact x.swapped sound fillable (Vol.storable_deleted e) (fun used => unused used)
      (fun used => unused used) fun used => unused used
  have wf' := (wf.delete_keeps file returned).1
  have key : d.rootKey path = some (d.vol.root, e.name) := by
    rw [Driver.rootKey, made, same]
    rfl
  rw [Call.changes, if_pos rfl, key]
  refine ⟨covering.swapped wf' swapped, ?_⟩
  refine (Store.picture_changed (.drop (d.vol.root, e.name)) covering.distinct.single ?_ ?_).2
  · intro x
    rw [covering.holds_iff swapped]
    simp only [Change.key, Change.content]
    constructor
    · rintro (⟨j, f, at_j, other, same, -, -⟩ | ⟨-, used, -, -⟩)
      · refine absurd ?_ other
        rw [covering.distinct _ _ _ _ _ at_j live same]
      · exact unused used
    · intro impossible
      cases impossible
  · intro key x other
    refine covering.holds_elsewhere swapped ?_ fun used => unused used
    intro f at_i _ here
    have at_slot := at_i.slot
    rw [slot] at at_slot
    cases at_slot
    exact other here

theorem Covering.mkdir_keeps_files {locals : Locals} {path : CStr} {r : Int}
    (parent : HasParent d path) (single : ¬ MakesDouble d path)
    (returned : (fat32Mkdir locals path).run d = .ok (r, d')) :
    Covering d' ∧ d'.files = d.files := by
  have wf := covering.toWellFormed
  have sound := wf.owned.toSound
  obtain ⟨dirname, reported, printable⟩ := wf.filename parent
  have followed := Vol.navigate_followed reported
  obtain ⟨result, effect⟩ := (fat32Mkdir_runs wf.good sound locals (wf.navigates path.1)
    followed).of_returned returned
  by_cases zero : r = 0
  swap
  · rw [result] at zero
    rcases Vol.mkdir_failed zero with same | ⟨c, b, free, left⟩
    · exact covering.of_effect (same ▸ effect)
    · exact covering.setBytes_free free (left ▸ effect)
  subst zero
  obtain ⟨p, c, i, name, e, parentCluster, absent, named, made⟩ :=
    wf.mkdir_made reported printable.no_nul printable.undeleted returned
  have proper := makeName83_not_dots named
  obtain ⟨x, newDirectory⟩ := made.exchange wf
  have first := made.first wf
  have directory : (Dirent.newDirectory name c).isDirectory = true :=
    (by decide : (attrDirectory &&& attrDirectory != 0) = true)
  have notFile : (Dirent.newDirectory name c).isDirectory = false → ∀ {P : Prop}, P := by
    intro impossible
    rw [directory] at impossible
    cases impossible
  have notUsed : e.inUse = true → ∀ {P : Prop}, P := by
    intro used
    rw [made.unused] at used
    cases used
  have swapped : d.vol.Swapped d'.vol p i (Dirent.newDirectory name c) := by
    refine x.swapped sound made.fillable (made.storable wf proper) ?_ ?_
      fun _ file => notFile file
    · intro _ _
      rw [first]
      exact newDirectory
    · -- another entry of the name would make this one a second
      intro _ j f live _ same
      obtain ⟨nav, d₁, ran, rfl, -⟩ := (wf.navigates path.1).runs
      refine single ⟨_, d₁, (p, name), j, f, ran, absent, ?_, live, same⟩
      rw [covering.key_eq parentCluster reported, named]
      rfl
  refine ⟨covering.swapped (made.keeps wf proper).1 swapped, Store.picture_congr fun key x => ?_⟩
  refine covering.holds_elsewhere swapped ?_ fun _ file => notFile file
  intro f live _
  have slot := live.slot
  rw [made.slot] at slot
  cases slot
  exact notUsed live.used

theorem Covering.call_changes {c : Call} {locals : Locals} {r : Int} (proper : c.Proper d locals)
    (tame : c.Tame d) (returned : (c.run locals).run d = .ok (r, d')) :
    Covering d' ∧ d'.files = d.files.after (c.changes d r) := by
  cases c with
  | write path data => exact covering.write_changes proper.1 proper.2 tame returned
  | create path => exact covering.write_changes proper.1 proper.2 (Nat.zero_le _) returned
  | delete path => exact covering.delete_changes proper returned
  | mkdir path => exact covering.mkdir_keeps_files proper tame returned
  | chdir path =>
      have wf := covering.toWellFormed
      obtain ⟨good, vol, moved⟩ :=
        fat32Chdir_returns wf.good wf.owned.closed (wf.start path.1) returned
      refine covering.of_eq good vol ?_
      rcases moved with ⟨-, fs⟩ | ⟨e, text, -, -, -, dir, fs⟩
      · rw [fs]
        exact wf.current
      · rw [fs]
        exact dir

end Calls

/-- After any run of calls on a covering volume, failing ones among them, the files are those that
the changes leave, and the volume is covering again. -/
theorem files_after_calls {d d' : Driver} {changes : List (Change (Nat × Name83) (List UInt8))}
    (covering : Covering d) (run : Performs d changes d') :
    Covering d' ∧ d'.files = d.files.after changes := by
  induction run with
  | done d => exact ⟨covering, rfl⟩
  | call locals proper tame returned _ ih =>
      obtain ⟨covering₁, changed⟩ := covering.call_changes proper tame returned
      obtain ⟨covering₂, rest⟩ := ih covering₁
      exact ⟨covering₂, by rw [rest, changed, Store.after_append]⟩

/-! ## A file that comes and goes -/

theorem formatted_covering : Covering formatted := by
  have noEntry : ∀ c i e, ¬ formatted.vol.Live c i e := by
    intro c i e live
    have used := live.used
    rw [formatted_slots c live.slot] at used
    cases used
  exact {
    toWellFormed := formatted_wellFormed
    distinct := fun c i j e f live => absurd live (noEntry c i e)
    covered := fun c i e live => absurd live (noEntry c i e) }

/-- The 8.3 name `X`. -/
def nameX : Name83 := ⟨0x58 :: List.replicate 10 0x20, rfl⟩

theorem wroteX : ∃ r, (fat32Write .blank (.ofBytes [0x78]) [1]).run formatted = .ok (r, withX) ∧
    r = 0 := by
  have wrote : Runs.check (fat32Write .blank (.ofBytes [0x78]) [1]) formatted
      (fun r _ => r = 0) = true := by decide +kernel
  obtain ⟨r, ran, zero⟩ := leaves_of_check wrote
  exact ⟨r, ran, of_decide_eq_true zero⟩

theorem formatted_key : formatted.key (.ofBytes [0x78]) = some (2, nameX) := by decide +kernel

theorem withX_covering :
    Covering withX ∧ withX.files = formatted.files.after [.put (2, nameX) [1]] := by
  obtain ⟨r, ran, rfl⟩ := wroteX
  have changed := formatted_covering.write_changes (HasParent.of_check (by decide +kernel))
    (WriteMatchesFile.of_check (by decide +kernel)) (by decide) ran
  rw [Call.changes, if_pos rfl, formatted_key] at changed
  exact changed

/-- `write x` and `delete x`: the store without `X`. -/
theorem files_after_write_and_delete : ∃ d',
    Performs formatted [.put (2, nameX) [1], .drop (2, nameX)] d' ∧
      d'.files = formatted.files.after [.put (2, nameX) [1], .drop (2, nameX)] := by
  obtain ⟨r, ran, rfl⟩ := wroteX
  have deleted : Runs.check (fat32Delete (.ofBytes [0x78])) withX (fun r _ => r = 0) = true := by
    decide +kernel
  obtain ⟨r', ran', zero⟩ := leaves_of_check deleted
  obtain rfl := of_decide_eq_true zero
  have second : (Call.delete (.ofBytes [0x78])).changes withX 0 = [.drop (2, nameX)] := by
    have key : withX.rootKey (.ofBytes [0x78]) = some (2, nameX) := by decide +kernel
    rw [Call.changes, if_pos rfl, key]
    rfl
  have first : (Call.write (.ofBytes [0x78]) [1]).changes formatted 0 = [.put (2, nameX) [1]] := by
    rw [Call.changes, if_pos rfl, formatted_key]
    rfl
  have run : Performs formatted ((Call.write (.ofBytes [0x78]) [1]).changes formatted 0 ++
      ((Call.delete (.ofBytes [0x78])).changes withX 0 ++ [])) _ :=
    .call .blank ⟨HasParent.of_check (by decide +kernel),
      WriteMatchesFile.of_check (by decide +kernel)⟩ (by decide : 1 ≤ 1 * 512) ran
      (.call .blank (DeleteMatchesFile.of_check (by decide +kernel)) trivial ran' (.done _))
  rw [first, second] at run
  exact ⟨_, run, (files_after_calls formatted_covering run).2⟩

end XosKernel.Fat32
