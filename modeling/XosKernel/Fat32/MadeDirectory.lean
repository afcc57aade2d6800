/-
# Fat32.MadeDirectory -- a directory just made can be entered and left again

After a `fat32_mkdir` that returned 0, the path is followed as before and its last component is
found: a second `fat32_mkdir` refuses it, and `fat32_chdir` enters a directory that holds `.` and
`..` only, from which `..` leads back to the parent.  The new entry could hide nothing that the
path needs, because mkdir had looked for its name first (`MadeIn.follow`).

The one exception is the text of the current path: a relative path cannot be appended to 255
characters that do not end in a slash (`made_directory_entered_iff`).
-/
import XosKernel.Fat32.ChangeDirectory
import XosKernel.Fat32.MadeNames
import XosKernel.Fat32.OtherFiles

namespace XosKernel.Fat32

open XosKernel.Theory

set_option autoImplicit false

/-! ## 8.3 names -/

/-- A printable character that is neither blank nor dot nor slash. -/
def NameChar (c : UInt8) : Prop :=
  0x20 < c.toNat ∧ c.toNat ≤ 0x7E ∧ c ≠ dot ∧ c ≠ slash

/-- One to eight characters, and after a dot one to three more. -/
structure ShortName (text : List UInt8) : Prop where
  parts : ∃ base ext : List UInt8, base ≠ [] ∧ base.length ≤ 8 ∧ ext.length ≤ 3 ∧
    (∀ c ∈ base, NameChar c) ∧ (∀ c ∈ ext, NameChar c) ∧
    (text = base ∧ ext = [] ∨ ext ≠ [] ∧ text = base ++ dot :: ext)

theorem NameChar.ne_space {c : UInt8} (char : NameChar c) : c ≠ space := by
  rintro rfl
  exact absurd char.1 (by decide)

theorem NameChar.ne_nul {c : UInt8} (char : NameChar c) : c ≠ 0 := by
  rintro rfl
  exact absurd char.1 (by decide)

section ShortName

variable {text : List UInt8} (short : ShortName text)
include short

/-- The characters of an 8.3 name. -/
theorem ShortName.chars : ∀ c ∈ text, c = dot ∨ NameChar c := by
  obtain ⟨base, ext, -, -, -, bases, exts, ⟨rfl, -⟩ | ⟨-, rfl⟩⟩ := short.parts
  · exact fun c member => .inr (bases c member)
  · intro c member
    rw [List.mem_append, List.mem_cons] at member
    rcases member with inBase | rfl | inExt
    · exact .inr (bases c inBase)
    · exact .inl rfl
    · exact .inr (exts c inExt)

theorem ShortName.plain : Plain text where
  nonempty := by
    obtain ⟨base, ext, some, -, -, -, -, ⟨rfl, -⟩ | ⟨-, rfl⟩⟩ := short.parts
    · exact some
    · simp
  noSlash := by
    intro member
    rcases short.chars _ member with isDot | char
    · exact absurd isDot (by decide)
    · exact char.2.2.2 rfl
  noBlank := by
    intro member
    rcases short.chars _ member with isDot | char
    · exact absurd isDot (by decide)
    · exact char.ne_space rfl
  noNul := by
    intro member
    rcases short.chars _ member with isDot | char
    · exact absurd isDot (by decide)
    · exact char.ne_nul rfl
  low := by
    intro c member
    rcases short.chars c member with rfl | char
    · decide
    · exact char.2.1

/-- An 8.3 name starts with a character that is no dot. -/
theorem ShortName.head : ∃ c rest, text = c :: rest ∧ c ≠ dot := by
  obtain ⟨base, ext, some, -, -, bases, -, ⟨rfl, -⟩ | ⟨-, rfl⟩⟩ := short.parts
  · obtain ⟨c, rest, rfl⟩ := List.exists_cons_of_ne_nil some
    exact ⟨c, rest, rfl, (bases c List.mem_cons_self).2.2.1⟩
  · obtain ⟨c, rest, rfl⟩ := List.exists_cons_of_ne_nil some
    exact ⟨c, rest ++ dot :: ext, rfl, (bases c List.mem_cons_self).2.2.1⟩

theorem ShortName.ne_dots : text ≠ [dot] ∧ text ≠ [dot, dot] := by
  obtain ⟨c, rest, rfl, other⟩ := short.head
  exact ⟨fun same => other (List.cons.inj same).1, fun same => other (List.cons.inj same).1⟩

theorem ShortName.noFinal : ¬ EndsInDot text := by
  rintro ⟨front, final, noDot, -⟩
  obtain ⟨base, ext, -, -, -, bases, exts, ⟨rfl, -⟩ | ⟨some, rfl⟩⟩ := short.parts
  · have member : dot ∈ text := by
      rw [final]
      exact List.mem_append_right _ List.mem_cons_self
    exact (bases dot member).2.2.1 rfl
  · obtain ⟨init, last, rfl⟩ : ∃ init last, ext = init ++ [last] :=
      ⟨ext.dropLast, ext.getLast some, (List.dropLast_append_getLast some).symm⟩
    have ends : (base ++ dot :: init) ++ [last] = front ++ [dot] := by
      rw [← final, List.append_assoc, List.cons_append]
    have same := List.append_inj_right' ends rfl
    exact (exts last (List.mem_append_right _ List.mem_cons_self)).2.2.1 (List.cons.inj same).1

end ShortName

/-! ## The path afterwards -/

/-- Two texts that match one entry match the same entries. -/
theorem nameMatch_congr {e : Dirent} {text text' : List UInt8} (found : nameMatch e text = true)
    (found' : nameMatch e text' = true) (f : Dirent) : nameMatch f text = nameMatch f text' := by
  have same : text.map upper = text'.map upper :=
    ((sameName_iff _ _).mp found).symm.trans ((sameName_iff _ _).mp found')
  rw [Bool.eq_iff_iff]
  unfold nameMatch
  rw [sameName_iff, sameName_iff, same]

section Made

variable {d d' : Driver} (wf : WellFormed d)
include wf

theorem WellFormed.find_eq {c : Nat} (dir : d.vol.Dir c) (name : List UInt8) :
    d.find c name = d.vol.find c name := by
  unfold Driver.find Vol.find
  rw [Driver.listing_eq_slots wf.good (wf.owned.inRange_dir dir)]

/-- A subdirectory of a live directory is live. -/
theorem WellFormed.child_dir {c c' : Nat} {name : List UInt8} (dir : d.vol.Dir c)
    (child : d.child c name = some c') : d.vol.Dir c' := by
  rw [Driver.child, wf.find_eq dir] at child
  obtain ⟨e, found, rest⟩ := Option.bind_eq_some_iff.mp child
  split at rest
  · next directory =>
      cases rest
      exact (wf.owned.closed c dir).2 name e found directory
  · cases rest

variable {p c i : Nat} {name : Name83} {e : Dirent} (made : MadeIn d d' p c i name e)
  (proper : name ≠ dotName ∧ name ≠ dotdotName) {last : List UInt8}
  (hit : nameMatch (Dirent.newDirectory name c) last = true) (fresh : d.vol.find p last = none)
include made

/-- The parent afterwards. -/
theorem MadeIn.slots : d'.vol.slots p = (d.vol.slots p).set i (Dirent.newDirectory name c) :=
  (made.exchange wf).1.here

omit wf in
theorem MadeIn.visible : (Dirent.newDirectory name c).name0 ≠ 0 ∧
    (Dirent.newDirectory name c).skipped = false := by
  have undeleted : (Dirent.newDirectory name c).name0 ≠ 0xE5 := made.undeleted
  have short : (Dirent.newDirectory name c).attributes ≠ attrLfn :=
    (by decide : attrDirectory ≠ attrLfn)
  exact ⟨made.marked, by simp [Dirent.skipped, undeleted, short]⟩

include hit fresh

/-- The new directory is found under its name. -/
theorem MadeIn.found : d'.vol.find p last = some (Dirent.newDirectory name c) := by
  have inside := (List.getElem?_eq_some_iff.mp made.slot).1
  have none : lookup (nameMatch · last) (d.vol.slots p) = none := Option.map_eq_none_iff.mp fresh
  have there : lookup (nameMatch · last) (d'.vol.slots p) =
      some (i, Dirent.newDirectory name c) := by
    rw [made.slots wf]
    refine lookup_eq_some.mpr ⟨List.getElem?_set_self inside, made.visible.1, made.visible.2, hit,
      ?_⟩
    intro m early f at_m
    rw [List.getElem?_set_ne (by omega)] at at_m
    refine ⟨(made.before m early f at_m).1, ?_⟩
    by_contra stops
    have both : f.skipped = false ∧ nameMatch f last = true := by
      simpa using stops
    exact lookup_ne_none at_m (made.before m early f at_m).1 both.1 both.2
      (fun k low g at_k => (made.before k (by omega) g at_k).1) none
  rw [Vol.find, there]
  rfl

/-- A name that was found is found again: the new entry has another one. -/
theorem MadeIn.find_kept {q : Nat} (dir : d.vol.Dir q) {text : List UInt8} {f : Dirent}
    (found : d.vol.find q text = some f) : d'.vol.find q text = some f := by
  by_cases here : q = p
  · subst here
    obtain ⟨⟨j, f'⟩, at_j, rfl⟩ := Option.map_eq_some_iff.mp found
    obtain ⟨slot, marked, visible, -, -⟩ := lookup_eq_some.mp at_j
    have used := Dirent.inUse_of_visible marked visible
    have other : j ≠ i := by
      rintro rfl
      rw [made.slot] at slot
      cases slot
      rw [made.unused] at used
      cases used
    have differs : nameMatch (Dirent.newDirectory name c) text = false := by
      by_contra same
      have texts := nameMatch_congr (by simpa using same) hit
      simp only [Vol.find, texts] at found
      rw [Vol.find] at fresh
      rw [found] at fresh
      cases fresh
    have kept : lookup (nameMatch · text) (d'.vol.slots q) = some (j, f') := by
      refine lookup_replaced (i := i) (fun k ne => ?_) at_j other ?_
      · rw [made.slots wf, List.getElem?_set_ne (Ne.symm ne)]
      · intro _ e' at_i
        have inside := (List.getElem?_eq_some_iff.mp made.slot).1
        rw [made.slots wf, List.getElem?_set_self inside] at at_i
        cases at_i
        exact ⟨made.visible.1, .inr differs⟩
    rw [Vol.find, kept]
    rfl
  · have slots : d'.vol.slots q = d.vol.slots q := by
      rw [made.effect.vol_eq, Vol.slots_setSlot_of_ne here]
      unfold Vol.withDirectory
      rw [Vol.slots_setBytes_of_ne]
      · rfl
      · rintro rfl
        exact wf.owned.toSound.fat_dir_ne_zero dir (Vol.mem_freeClusters.mp made.free).2
    rw [Vol.find, slots]
    exact found

include proper

/-- A way through the tree is still there. -/
theorem MadeIn.follow (names : List (List UInt8)) {q q' : Nat} (dir : d.vol.Dir q)
    (reached : d.follow q names = some q') : d'.follow q names = some q' := by
  have wf' := (made.keeps wf proper).1
  induction names generalizing q with
  | nil =>
      rw [Driver.follow_nil] at reached ⊢
      exact reached
  | cons text names ih =>
      have dir' : d'.vol.Dir q := by
        obtain ⟨a, isDir⟩ := dir
        exact ⟨a, (made.replaced wf proper).1.isDir_mono made.fillable isDir⟩
      rw [Driver.follow_cons] at reached ⊢
      obtain ⟨q₁, child, rest⟩ := Option.bind_eq_some_iff.mp reached
      have child' : d'.child q text = some q₁ := by
        have found := child
        rw [Driver.child, wf.find_eq dir] at found
        obtain ⟨f, found, directory⟩ := Option.bind_eq_some_iff.mp found
        rw [Driver.child, wf'.find_eq dir', made.find_kept wf hit fresh dir found]
        exact directory
      rw [child']
      exact ih (wf.child_dir dir child) rest

end Made

/-! ## Using the directory -/

/-- The live entries of a directory: their names and first clusters. -/
def Vol.liveEntries (v : Vol) (c : Nat) : List (Name83 × Nat) :=
  ((v.slots c).filter Dirent.inUse).map fun e => (e.name, e.firstCluster)

/-- `..` -/
def upward : CStr := ⟨[dot, dot], by decide⟩

/-- What a directory made at the path in the directory `p` is good for: it cannot be made again,
it can be entered, it holds `.` and `..` for itself and `p`, and `..` leads back. -/
structure Navigable (d : Driver) (path : CStr) (p : Nat) : Prop where
  again : ∀ locals, Runs (fat32Mkdir locals path) d fun r d₁ =>
    r = -1 ∧ d₁.ata.media = d.ata.media
  enters : Runs (fat32Chdir path) d fun r d₁ => r = 0 ∧
    d₁.vol.liveEntries d₁.fs.currentDirCluster =
      [(dotName, d₁.fs.currentDirCluster), (dotdotName, p)] ∧
    Runs (fat32Chdir upward) d₁ fun r d₂ => r = 0 ∧ d₂.fs.currentDirCluster = p

theorem Dirent.isDirectory_newDirectory (name : Name83) (c : Nat) :
    (Dirent.newDirectory name c).isDirectory = true := by
  show (attrDirectory &&& attrDirectory != 0) = true
  decide

/-- `..` leads from a new directory to its parent. -/
theorem WellFormed.leaves_new {d : Driver} (wf : WellFormed d) (terminated : Terminated d) {p : Nat}
    (fresh : d.vol.NewDirectory p d.fs.currentDirCluster) (small : p < 2 ^ 32) :
    Runs (fat32Chdir upward) d fun r d' => r = 0 ∧ d'.fs.currentDirCluster = p := by
  have matches_up : ∀ c, nameMatch (Dirent.newDirectory dotdotName c) [dot, dot] = true := by
    intro c
    show sameName (List.takeWhile _ (formatName { Dirent.zero with name := dotdotName })) _ = _
    decide
  have passes_here : ∀ c, nameMatch (Dirent.newDirectory dotName c) [dot, dot] = false := by
    intro c
    show sameName (List.takeWhile _ (formatName { Dirent.zero with name := dotName })) _ = _
    decide
  have found : d.find d.fs.currentDirCluster [dot, dot] =
      some (Dirent.newDirectory dotdotName p) := by
    have there : lookup (nameMatch · [dot, dot]) (d.vol.slots d.fs.currentDirCluster) =
        some (1, Dirent.newDirectory dotdotName p) := by
      rw [fresh.slots]
      refine lookup_eq_some.mpr ⟨rfl, (by decide : dot ≠ 0), ?_, matches_up p, ?_⟩
      · show (decide (dot = 0xE5) || decide (attrDirectory = attrLfn)) = false
        decide
      · intro m early f at_m
        obtain rfl : m = 0 := by omega
        cases at_m
        exact ⟨(by decide : dot ≠ 0), .inr (passes_here _)⟩
    rw [wf.find_eq wf.current, Vol.find, there]
    rfl
  have parent : d.parentOf upward.1 = some d.fs.currentDirCluster := rfl
  refine Runs.mono (fat32Chdir_goes wf.good.noFault wf.good.geometry.roomy wf.good.mounted
    terminated parent (by decide) found (Dirent.isDirectory_newDirectory _ _) ?_) ?_
  · exact fun _ _ up => absurd rfl up
  · rintro r d' ⟨zero, cluster, -⟩
    exact ⟨zero, cluster.trans (Dirent.firstCluster_newDirectory dotdotName small)⟩

theorem Vol.NewDirectory.liveEntries {v : Vol} {p c : Nat} (fresh : v.NewDirectory p c)
    (own : c < 2 ^ 32) (parent : p < 2 ^ 32) :
    v.liveEntries c = [(dotName, c), (dotdotName, p)] := by
  have none : (List.replicate (v.spc * 16 - 2) Dirent.zero).filter Dirent.inUse = [] := by
    rw [List.filter_eq_nil_iff]
    intro e member
    rw [List.eq_of_mem_replicate member]
    decide
  have here : (Dirent.newDirectory dotName c).inUse = true := rfl
  have up : (Dirent.newDirectory dotdotName p).inUse = true := rfl
  unfold Vol.liveEntries
  rw [fresh.slots, List.filter_cons_of_pos here, List.filter_cons_of_pos up, none]
  simp only [List.map_cons, List.map_nil, Dirent.firstCluster_newDirectory _ own,
    Dirent.firstCluster_newDirectory _ parent]
  rfl

/-- A new directory that a path leads to is usable exactly if the text has room for the path. -/
theorem WellFormed.navigable_iff {d : Driver} (wf : WellFormed d) (terminated : Terminated d)
    {path : CStr} {p c : Nat} {name : Name83} (parent : d.parentOf path.1 = some p)
    (last : lastComponent slash path.1 ≠ []) (dir : d.vol.Dir p)
    (found : d.find p (lastComponent slash path.1) = some (Dirent.newDirectory name c))
    (newDir : d.vol.NewDirectory p (Dirent.newDirectory name c).firstCluster) :
    Navigable d path p ↔ PathFits d path.1 := by
  have directory := Dirent.isDirectory_newDirectory name c
  have quiet := wf.good.noFault
  have roomy := wf.good.geometry.roomy
  constructor
  · intro navigable
    by_contra overflow
    obtain ⟨r, d₁, ran, -⟩ := navigable.enters
    rw [fat32Chdir_overflows quiet roomy wf.good.mounted terminated parent last found directory
      overflow] at ran
    cases ran
  · intro fits
    constructor
    · intro locals
      obtain ⟨nav, d₁, navigated, is, disks⟩ := navigatePath_navigates quiet roomy path.1
      have exists_ : nav.result = 1 := by
        rw [is]
        simp only [Driver.navigated, parent, if_neg last, found]
      have media : d₁.ata.media = d.ata.media := congrArg (fun x => x.2.2.2) disks
      exact ⟨-1, d₁, fat32Mkdir_exists wf.good.mounted navigated exists_ locals, rfl, media⟩
    · obtain ⟨r, d₁, ran, zero, cluster, terminated₁⟩ := fat32Chdir_goes quiet roomy
        wf.good.mounted terminated parent last found directory fits
      obtain ⟨-, vol, -⟩ := fat32Chdir_returns wf.good wf.owned.closed (wf.start path.1) ran
      have wf₁ := (wf.chdir_keeps ran).1
      have entered : d₁.vol.NewDirectory p d₁.fs.currentDirCluster := by
        rw [vol, cluster]
        exact newDir
      have small := wf.dir_lt dir
      refine ⟨r, d₁, ran, zero, ?_, wf₁.leaves_new terminated₁ entered small⟩
      exact entered.liveEntries (wf₁.dir_lt wf₁.current) small

/-- On a well-formed volume the path is followed through live directories. -/
theorem WellFormed.navigate_eq {d : Driver} (wf : WellFormed d) (path : List UInt8) :
    d.vol.navigate (d.fs.startCluster path) path = d.navigated path := by
  obtain ⟨nav, d₁, ran, is, -⟩ := (wf.navigates path).runs
  have navigates := navigatePath_navigates wf.good.noFault wf.good.geometry.roomy path
  obtain ⟨is', -⟩ := navigates.of_returned ran
  exact is.symm.trans is'

/-- On a well-formed volume with any live current directory, for every path with a parent
directory and an 8.3 name as its last component: after a `fat32_mkdir` that returned 0 the new
directory is navigable, if and only if the path is absolute or the text of the current path has room
for a slash. -/
theorem made_directory_entered_iff {d d' : Driver} (wf : WellFormed d) (terminated : Terminated d)
    {path : CStr} {p : Nat} (parent : d.parentOf path.1 = some p)
    (short : ShortName (lastComponent slash path.1)) {locals : Locals}
    (returned : (fat32Mkdir locals path).run d = .ok (0, d')) :
    Navigable d' path p ↔ (isAbsolute path.1 = false → ¬ PathFull d.fs.currentPath) := by
  have plain := short.plain
  obtain ⟨-, file⟩ := navigated_entry parent plain.nonempty
  rw [← wf.navigate_eq path.1] at file
  obtain ⟨p', c, i, name, e, parent', fresh, named, made⟩ := wf.mkdir_made file
    (plain.take 255 (by decide)).noNul (plain.take 255 (by decide)).undeleted returned
  rw [wf.navigate_eq path.1] at parent' fresh
  obtain rfl : p' = p := Option.some.inj (parent'.symm.trans (navigated_parent parent))
  rw [take_of_made plain named] at named
  have proper := makeName83_not_dots named
  have hit : nameMatch (Dirent.newDirectory name c) (lastComponent slash path.1) = true :=
    match_of_made plain plain named short.noFinal named
  have absent : d.vol.find p' (lastComponent slash path.1) = none := by
    rw [← wf.find_eq made.dir]
    by_contra some
    obtain ⟨f, found⟩ := Option.ne_none_iff_exists'.mp some
    refine fresh ?_
    simp only [Driver.navigated, parent, if_neg plain.nonempty, found]
  have wf' := (made.keeps wf proper).1
  have fs : d'.fs = d.fs := made.effect.fs_eq
  have start : d'.fs.startCluster path.1 = d.fs.startCluster path.1 := by rw [fs]
  have parent₁ : d'.parentOf path.1 = some p' := by
    unfold Driver.parentOf
    rw [start]
    exact made.follow wf proper hit absent _ (wf.start path.1) parent
  have dir' : d'.vol.Dir p' := by
    obtain ⟨a, isDir⟩ := made.dir
    exact ⟨a, (made.replaced wf proper).1.isDir_mono made.fillable isDir⟩
  have found : d'.find p' (lastComponent slash path.1) = some (Dirent.newDirectory name c) := by
    rw [wf'.find_eq dir']
    exact made.found wf hit absent
  have terminated' : Terminated d' := by
    unfold Terminated
    rw [fs]
    exact terminated
  have fits_iff : PathFits d' path.1 ↔
      (isAbsolute path.1 = false → ¬ PathFull d.fs.currentPath) := by
    unfold PathFits
    rw [fs]
    exact ⟨fun fits relative => fits relative short.ne_dots.1 short.ne_dots.2,
      fun room relative _ _ => room relative⟩
  rw [← fits_iff]
  have newDir : d'.vol.NewDirectory p' (Dirent.newDirectory name c).firstCluster := by
    rw [made.first wf]
    exact (made.exchange wf).2
  exact wf'.navigable_iff terminated' parent₁ plain.nonempty dir' found newDir

/-- `mkdir a` on the formatted volume. -/
theorem first_directory_navigable : Navigable withA (.ofBytes [0x61]) 2 := by
  have made : Runs.check (fat32Mkdir .blank (.ofBytes [0x61])) formatted (fun r _ => r = 0) =
      true := by decide +kernel
  obtain ⟨r, ran, zero⟩ := leaves_of_check made
  obtain rfl := of_decide_eq_true zero
  have parent : formatted.parentOf (CStr.ofBytes [0x61]).1 = some 2 := by decide +kernel
  have short : ShortName (lastComponent slash (CStr.ofBytes [0x61]).1) := by
    have last : lastComponent slash (CStr.ofBytes [0x61]).1 = [0x61] := by decide
    rw [last]
    refine ⟨[0x61], [], by decide, by decide, by decide, ?_, by simp, .inl ⟨rfl, rfl⟩⟩
    rintro c member
    rw [List.mem_singleton.mp member]
    exact ⟨by decide, by decide, by decide, by decide⟩
  have text : formatted.fs.currentPath.length = 1 := by decide
  have terminated : Terminated formatted := by
    rw [Terminated, text]
    decide
  refine (made_directory_entered_iff formatted_wellFormed terminated parent short ran).mpr ?_
  intro _ full
  rw [PathFull, text] at full
  exact absurd full.1 (by decide)

/-- The volume with the directory `a`, entered by a path of 255 characters. -/
def deepInA : Driver := chdirStep withA longPath

theorem deepInA_wellFormed : WellFormed deepInA := by
  have went : Runs.check (fat32Chdir longPath) withA (fun r _ => r = 0) = true := by decide +kernel
  obtain ⟨r, ran, -⟩ := leaves_of_check went
  exact (withA_wellFormed.chdir_keeps ran).1

/-- There `mkdir b` returns 0, but `chdir b` writes past the end of the text. -/
theorem deep_directory_unreachable : WellFormed deepInA ∧
    ∃ d', (fat32Mkdir .blank (.ofBytes [0x62])).run deepInA = .ok (0, d') ∧
      ¬ Navigable d' (.ofBytes [0x62]) 3 := by
  have made : Runs.check (fat32Mkdir .blank (.ofBytes [0x62])) deepInA (fun r _ => r = 0) =
      true := by decide +kernel
  obtain ⟨r, ran, zero⟩ := leaves_of_check made
  obtain rfl := of_decide_eq_true zero
  refine ⟨deepInA_wellFormed, _, ran, fun navigable => ?_⟩
  have fails : Runs.check (fat32Chdir (.ofBytes [0x62]))
      (leaves (fat32Mkdir .blank (.ofBytes [0x62])) deepInA) (fun _ _ => true) = false := by
    decide +kernel
  obtain ⟨r, d₁, went, -⟩ := navigable.enters
  rw [Runs.check, went] at fails
  cases fails

end XosKernel.Fat32
