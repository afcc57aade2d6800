/-
# Fat32.OneDirectory -- do all calls mean the same current directory?

FAT32 writes cluster 0 into a `..` entry that leads to the root.  `fat32_chdir` takes the number
as it is; `fat32_open` and `fat32_list_directory` read 0 as the root afterwards, and
`fat32_navigate_path`, through which all other calls find their directory, does not.  So the
calls agree exactly as long as the current directory is named by a cluster of its own
(`oneDirectory_iff`), and only `fat32_chdir` can change that (`one_directory_along_calls`).
-/
import XosKernel.Fat32.CallDirectory

namespace XosKernel.Fat32

open XosKernel.Theory

set_option autoImplicit false

/-! ## Calls with a relative name -/

inductive DirCall where
  | openFile (name : RelName)
  | list
  | write (locals : Locals) (name : RelName) (data : List UInt8)
  | create (locals : Locals) (name : RelName)
  | mkdir (locals : Locals) (name : RelName)
  | chdir (name : RelName)

def DirCall.exec : DirCall → FatM Unit
  | .openFile name => do let _ ← fat32Open name.1
  | .list => do let _ ← fat32ListDirectory []
  | .write locals name data => do let _ ← fat32Write locals name.1 data
  | .create locals name => do let _ ← fat32Create locals name.1
  | .mkdir locals name => do let _ ← fat32Mkdir locals name.1
  | .chdir name => do let _ ← fat32Chdir name.1

/-- `fat32_navigate_path` looks up the last component in the directory `c`. -/
def NavigatesIn (d : Driver) (path : List UInt8) (c : Nat) : Prop :=
  Runs (walkPath (skipSlash path) (d.fs.startCluster path) []) d fun r _ =>
    ∃ component, r = some (c, component)

/-- The call acts on the directory `c`: it looks its name up there, and its result and the slots
it stores are those of `c`. -/
def DirCall.ActsOn (d : Driver) (c : Nat) : DirCall → Prop
  | .openFile name => d.fs.openCluster name.text = c ∧
      ∀ r d', (fat32Open name.1).run d = .ok (r, d') → OpensIn d c name r d'
  | .list => d.fs.listCluster = c ∧
      ∀ r d', (fat32ListDirectory []).run d = .ok (r, d') → ListsIn d c r d'
  | .write locals name data => NavigatesIn d name.text c ∧
      ∀ r d', (fat32Write locals name.1 data).run d = .ok (r, d') → WritesIn d c name r d'
  | .create locals name => NavigatesIn d name.text c ∧
      ∀ r d', (fat32Create locals name.1).run d = .ok (r, d') → WritesIn d c name r d'
  | .mkdir locals name => NavigatesIn d name.text c ∧
      ∀ r d', (fat32Mkdir locals name.1).run d = .ok (r, d') → MakesIn d c name r d'
  | .chdir name => NavigatesIn d name.text c ∧
      ∀ r d', (fat32Chdir name.1).run d = .ok (r, d') → EntersIn d c name r d'

/-- The current directory by the FAT32 rule: 0 stands for the root directory. -/
def Fs.meantDirectory (fs : Fs) : Nat :=
  if fs.currentDirCluster = 0 then fs.rootDirCluster else fs.currentDirCluster

/-- All calls act on the current directory. -/
def OneDirectory (d : Driver) : Prop := ∀ call : DirCall, call.ActsOn d d.fs.meantDirectory

/-! ## One state -/

theorem navigatesIn_iff (d : Driver) (name : RelName) (c : Nat) :
    NavigatesIn d name.text c ↔ d.fs.currentDirCluster = c := by
  have walked := walkPath_noSlash name.text d.fs.currentDirCluster [] name.noSlash
  rw [List.take_nil, List.nil_append] at walked
  rw [NavigatesIn, skipSlash_of_not_mem name.noSlash, name.start, walked]
  constructor
  · rintro ⟨_, _, ran, component, rfl⟩
    cases ran
    rfl
  · rintro rfl
    exact Runs.pure ⟨_, rfl⟩

/-- A cluster number that every call takes for the same directory. -/
def Fs.Named (fs : Fs) (c : Nat) : Prop := 2 ≤ c ∨ c = fs.rootDirCluster

theorem openCluster_relative (fs : Fs) (name : RelName) :
    fs.openCluster name.text =
      if fs.currentDirCluster < 2 then fs.rootDirCluster else fs.currentDirCluster := by
  rw [Fs.openCluster, name.relative]
  rfl

theorem oneDirectory_iff (d : Driver) : OneDirectory d ↔ d.fs.Named d.fs.currentDirCluster := by
  have dotName : RelName := ⟨CStr.ofBytes [dot], by decide⟩
  constructor
  · intro one
    have opened := (one (.openFile dotName)).1
    have navigated := (navigatesIn_iff d dotName _).mp (one (.chdir dotName)).1
    rw [openCluster_relative, ← navigated] at opened
    rw [Fs.Named]
    split at opened
    · exact .inr opened.symm
    · omega
  · intro named call
    have meant : d.fs.meantDirectory = d.fs.currentDirCluster := by
      simp only [Fs.meantDirectory, Fs.Named] at named ⊢
      split <;> omega
    rw [meant]
    have navigated : ∀ name : RelName, NavigatesIn d name.text d.fs.currentDirCluster :=
      fun name => (navigatesIn_iff d name _).mpr rfl
    cases call with
    | openFile name =>
        have cluster : d.fs.openCluster name.text = d.fs.currentDirCluster := by
          rw [openCluster_relative]
          simp only [Fs.Named] at named
          split <;> omega
        exact ⟨cluster, fun r d' returned => cluster ▸ fat32Open_opensIn returned⟩
    | list =>
        have cluster : d.fs.listCluster = d.fs.currentDirCluster := meant
        exact ⟨cluster, fun r d' returned => cluster ▸ fat32ListDirectory_listsIn returned⟩
    | write locals name data =>
        exact ⟨navigated name, fun r d' returned => fat32Write_writesIn returned⟩
    | create locals name =>
        exact ⟨navigated name, fun r d' returned => fat32Write_writesIn returned⟩
    | mkdir locals name =>
        exact ⟨navigated name, fun r d' returned => fat32Mkdir_makesIn returned⟩
    | chdir name => exact ⟨navigated name, fun r d' returned => fat32Chdir_entersIn returned⟩

/-! ## What a call does to the current directory -/

/-- The current and the root directory. -/
def Driver.directories (d : Driver) : Nat × Nat := (d.fs.currentDirCluster, d.fs.rootDirCluster)

theorem fixed_directories : Fixed Driver.directories :=
  ⟨⟨⟨fun _ _ => rfl, fun _ _ => rfl, fun _ _ => rfl⟩, fun _ _ _ _ => rfl⟩, fun _ _ _ _ => rfl⟩

section Keeps

variable {γ : Type} {part : Driver → γ}

/-- A part of the state that the buffers and the handle do not reach either. -/
structure Untouched (part : Driver → γ) : Prop extends Fixed part where
  rootBuffer : ∀ d b, part { d with rootDirBuffer := b } = part d
  clusterBuffer : ∀ d b, part { d with fileClusterBuf := b } = part d
  handle : ∀ d f, part { d with openFile := f } = part d

variable (untouched : Untouched part)
include untouched

theorem openEntry_keeps (path : CStr) : Keeps part (openEntry path) := by
  refine Keeps.get_bind fun d => ?_
  refine Keeps.bind (loadDirectoryCluster_keeps untouched.steady _) fun loaded => ?_
  cases loaded with
  | none => exact Keeps.pure _
  | some b =>
      cases makeName83 (skipSlash path.1) with
      | none => exact Keeps.pure _
      | some name =>
          refine Keeps.bind (scanDirectory_keeps _ _) fun found => ?_
          cases found with
          | none => exact Keeps.pure _
          | some r => exact Keeps.pure _

theorem fat32Open_keeps (path : CStr) : Keeps part (fat32Open path) := by
  refine Keeps.get_bind fun d => Keeps.ite ?_ (Keeps.pure _)
  refine Keeps.bind (openEntry_keeps untouched path) fun found => ?_
  cases found with
  | none => exact Keeps.pure _
  | some r => exact Keeps.bind (Keeps.modify fun d => untouched.handle d _) fun _ => Keeps.pure _

theorem fat32ListDirectory_keeps (path : List UInt8) : Keeps part (fat32ListDirectory path) := by
  have listed : ∀ c, Keeps part (listCluster c) := by
    intro c
    refine Keeps.bind (loadDirectoryCluster_keeps untouched.steady _) fun loaded => ?_
    cases loaded with
    | none => exact Keeps.pure _
    | some b =>
        refine Keeps.get_bind fun d => ?_
        obtain ⟨lines, ended⟩ := listLoop (d.fs.entries b)
        cases ended with
        | true => exact Keeps.pure _
        | false =>
            exact Keeps.bind (endOfEntries_keeps d.fs) fun _ => Keeps.pure _
  refine Keeps.get_bind fun d => Keeps.ite ?_ (Keeps.pure _)
  exact Keeps.ite (listed _) (Keeps.ite (listed _) (Keeps.pure _))

theorem refreshRoot_keeps (parent : Nat) : Keeps part (refreshRoot parent) := by
  refine Keeps.get_bind fun d => Keeps.ite (Keeps.get_bind fun d => ?_) (Keeps.pure _)
  refine Keeps.bind (ataReadSectors_keeps untouched.steady _ _ _ _) fun read => ?_
  exact Keeps.bind (Keeps.modify fun d => untouched.rootBuffer d _) fun _ => Keeps.pure _

theorem giveUp_keeps (first : Nat) : Keeps part (giveUp first) :=
  Keeps.bind (freeChainLoop_keeps untouched.toInert _ _) fun _ => Keeps.pure _

theorem writeEntry_keeps (target : WriteTarget) (data : List UInt8) :
    Keeps part (writeEntry target data) := by
  refine Keeps.get_bind fun d => ?_
  refine Keeps.bind (freeOldChain_keeps untouched.toInert _) fun _ => Keeps.ite ?_ ?_
  · refine Keeps.bind (writeDirectoryCluster_keeps untouched.toFixed _ _) fun ok => ?_
    exact Keeps.ite (Keeps.bind (refreshRoot_keeps untouched _) fun _ => Keeps.pure _)
      (Keeps.pure _)
  · refine Keeps.ite (Keeps.throw _) ?_
    refine Keeps.bind (allocateClusterChain_keeps untouched.toInert _) fun allocated => ?_
    cases allocated with
    | none => exact Keeps.pure _
    | some first =>
        refine Keeps.get_bind fun d => ?_
        refine Keeps.bind (writeLoop_keeps untouched.toInert untouched.clusterBuffer _ _ _ _ _)
          fun ok => Keeps.ite ?_ (giveUp_keeps untouched _)
        refine Keeps.bind (writeDirectoryCluster_keeps untouched.toFixed _ _)
          fun ok => Keeps.ite ?_ (giveUp_keeps untouched _)
        refine Keeps.bind (refreshRoot_keeps untouched _) fun ok => ?_
        exact Keeps.ite (Keeps.pure _) (giveUp_keeps untouched _)

theorem fat32Write_keeps (locals : Locals) (path : CStr) (data : List UInt8) :
    Keeps part (fat32Write locals path data) := by
  refine Keeps.get_bind fun d => Keeps.ite ?_ (Keeps.pure _)
  refine Keeps.bind (writeTarget_keeps untouched.steady _ _) fun target => ?_
  cases target with
  | none => exact Keeps.pure _
  | some target => exact writeEntry_keeps untouched target data

theorem fat32Mkdir_keeps (locals : Locals) (path : CStr) : Keeps part (fat32Mkdir locals path) := by
  refine Keeps.get_bind fun d => Keeps.ite ?_ (Keeps.pure _)
  refine Keeps.bind (navigatePath_keeps untouched.steady _) fun nav => ?_
  refine Keeps.ite (Keeps.pure _) ?_
  refine Keeps.bind (allocateClusterChain_keeps untouched.toInert _) fun allocated => ?_
  cases allocated with
  | none => exact Keeps.pure _
  | some new =>
      refine Keeps.bind (writeDirectoryCluster_keeps untouched.toFixed _ _)
        fun ok => Keeps.ite ?_ (giveUp_keeps untouched _)
      refine Keeps.bind (loadDirectoryCluster_keeps untouched.steady _) fun loaded => ?_
      cases loaded with
      | none => exact giveUp_keeps untouched _
      | some b =>
          cases makeName83 (nav.filename.getD locals.filename.1) with
          | none => exact giveUp_keeps untouched _
          | some name =>
              refine Keeps.get_bind fun d => ?_
              cases scanFree (d.fs.entries b) 0 with
              | none =>
                  exact Keeps.bind (endOfEntries_keeps d.fs) fun _ =>
                    giveUp_keeps untouched _
              | some slot =>
                  refine Keeps.bind (writeDirectoryCluster_keeps untouched.toFixed _ _)
                    fun ok => Keeps.ite ?_ (giveUp_keeps untouched _)
                  exact Keeps.bind (refreshRoot_keeps untouched _) fun _ => Keeps.pure _

end Keeps

theorem untouched_directories : Untouched Driver.directories :=
  ⟨fixed_directories, fun _ _ => rfl, fun _ _ => rfl, fun _ _ => rfl⟩

/-- `fat32_chdir` stays where it is, or takes the cluster number of the entry it found. -/
theorem chdir_directories {d d' : Driver} {path : CStr} {r : Int}
    (returned : (fat32Chdir path).run d = .ok (r, d')) :
    (d'.directories = d.directories ∧ ∀ nav d₁, d.fsMounted = true →
        (navigatePath path.1).run d = .ok (nav, d₁) → ∀ e, nav.entry = some e →
        e.isDirectory = false) ∨
      ∃ nav d₁ e, d.fsMounted = true ∧ (navigatePath path.1).run d = .ok (nav, d₁) ∧
        nav.entry = some e ∧ e.isDirectory = true ∧
        d'.directories = (e.firstCluster, d.fs.rootDirCluster) := by
  simp only [fat32Chdir] at returned
  obtain ⟨_, _, got, rest⟩ := bind_returns returned
  cases got
  cases mounted : d.fsMounted with
  | false =>
      simp only [mounted] at rest
      cases rest
      exact .inl ⟨rfl, fun _ _ absurd_ => by cases absurd_⟩
  | true =>
      simp only [mounted, if_true] at rest
      obtain ⟨nav, d₁, navigated, rest⟩ := bind_returns rest
      have same := navigatePath_keeps fixed_directories.steady path.1 _ _ _ navigated
      cases found : nav.entry with
      | none =>
          rw [found] at rest
          cases rest
          refine .inl ⟨same, fun nav' d₂ _ again e entry => ?_⟩
          rw [navigated] at again
          cases again
          rw [found] at entry
          cases entry
      | some e =>
          rw [found] at rest
          cases directory : e.isDirectory with
          | false =>
              simp only [directory] at rest
              cases rest
              refine .inl ⟨same, fun nav' d₂ _ again e' entry => ?_⟩
              rw [navigated] at again
              cases again
              rw [found] at entry
              cases entry
              exact directory
          | true =>
              simp only at rest
              rw [if_pos directory] at rest
              obtain ⟨_, d₂, moved, rest⟩ := bind_returns rest
              obtain ⟨_, d₃, updated, last⟩ := bind_returns rest
              cases moved
              cases last
              refine .inr ⟨nav, d₁, e, rfl, navigated, found, directory, ?_⟩
              have edits : Keeps Driver.directories _ :=
                updatePath_keeps (fun _ _ => rfl) path.1 (nav.filename.getD [])
              have kept := edits _ _ _ updated
              have root : d₁.fs.rootDirCluster = d.fs.rootDirCluster := congrArg Prod.snd same
              rw [kept, ← root]
              rfl

/-! ## Runs -/

/-- The entry that the call enters, if it is a change of directory, has a cluster of its own. -/
def DirCall.EntersNamed (d : Driver) : DirCall → Prop
  | .chdir name => ∀ nav d₁, d.fsMounted = true → (navigatePath name.1.1).run d = .ok (nav, d₁) →
      ∀ e, nav.entry = some e → e.isDirectory = true → d.fs.Named e.firstCluster
  | _ => True

/-- In every state of the run all calls act on the current directory. -/
def KeepsOneDirectory (d : Driver) : List DirCall → Prop
  | [] => OneDirectory d
  | call :: rest =>
      OneDirectory d ∧ ∀ d', call.exec.run d = .ok ((), d') → KeepsOneDirectory d' rest

/-- Every change of directory in the run enters a directory with a cluster of its own. -/
def EntersNamedOnly (d : Driver) : List DirCall → Prop
  | [] => True
  | call :: rest =>
      ∀ d', call.exec.run d = .ok ((), d') → call.EntersNamed d ∧ EntersNamedOnly d' rest

theorem exec_returns {m : FatM Int} {d d' : Driver}
    (returned : (do let _ ← m).run d = .ok ((), d')) : ∃ r, m.run d = .ok (r, d') := by
  obtain ⟨r, _, ran, last⟩ := bind_returns returned
  cases last
  exact ⟨r, ran⟩

/-- A call keeps the current directory named, if and only if it enters a named one. -/
theorem DirCall.named_iff {d d' : Driver} (call : DirCall)
    (named : d.fs.Named d.fs.currentDirCluster) (returned : call.exec.run d = .ok ((), d')) :
    d'.fs.Named d'.fs.currentDirCluster ↔ call.EntersNamed d := by
  have stays : d'.directories = d.directories → d'.fs.Named d'.fs.currentDirCluster := by
    intro same
    have current : d'.fs.currentDirCluster = d.fs.currentDirCluster := congrArg Prod.fst same
    have root : d'.fs.rootDirCluster = d.fs.rootDirCluster := congrArg Prod.snd same
    simpa only [Fs.Named, current, root] using named
  have kept : ∀ {α : Type} {m : FatM α}, Keeps Driver.directories m →
      Keeps Driver.directories (do let _ ← m : FatM Unit) :=
    fun keeps => Keeps.bind keeps fun _ => Keeps.pure _
  cases call with
  | openFile name =>
      exact iff_of_true (stays (kept (fat32Open_keeps untouched_directories _) _ _ _ returned))
        trivial
  | list =>
      exact iff_of_true
        (stays (kept (fat32ListDirectory_keeps untouched_directories _) _ _ _ returned)) trivial
  | write locals name data =>
      exact iff_of_true
        (stays (kept (fat32Write_keeps untouched_directories _ _ _) _ _ _ returned)) trivial
  | create locals name =>
      exact iff_of_true
        (stays (kept (fat32Write_keeps untouched_directories _ _ _) _ _ _ returned)) trivial
  | mkdir locals name =>
      exact iff_of_true
        (stays (kept (fat32Mkdir_keeps untouched_directories _ _) _ _ _ returned)) trivial
  | chdir name =>
      obtain ⟨r, ran⟩ := exec_returns returned
      obtain ⟨same, none⟩ | ⟨nav, d₁, e, mounted, navigated, found, directory, entered⟩ :=
        chdir_directories ran
      · refine iff_of_true (stays same) fun nav d₁ mounted navigated e found directory => ?_
        rw [none nav d₁ mounted navigated e found] at directory
        cases directory
      · have current : d'.fs.currentDirCluster = e.firstCluster := congrArg Prod.fst entered
        have root : d'.fs.rootDirCluster = d.fs.rootDirCluster := congrArg Prod.snd entered
        have same : d'.fs.Named d'.fs.currentDirCluster ↔ d.fs.Named e.firstCluster := by
          simp only [Fs.Named, current, root]
        rw [same]
        constructor
        · intro own nav' d₂ _ again e' found' _
          rw [navigated] at again
          cases again
          rw [found] at found'
          cases found'
          exact own
        · intro enters
          exact enters nav d₁ mounted navigated e found directory

/-- For every run of calls, on every volume: in all its states open, list, write, create, mkdir
and chdir act on one directory if and only if the run starts in a directory with a cluster of
its own and enters only such. -/
theorem one_directory_along_calls (d : Driver) (calls : List DirCall) :
    KeepsOneDirectory d calls ↔
      d.fs.Named d.fs.currentDirCluster ∧ EntersNamedOnly d calls := by
  induction calls generalizing d with
  | nil =>
      simp only [KeepsOneDirectory, EntersNamedOnly, and_true]
      exact oneDirectory_iff d
  | cons call rest ih =>
      simp only [KeepsOneDirectory, EntersNamedOnly, oneDirectory_iff d]
      constructor
      · rintro ⟨named, later⟩
        refine ⟨named, fun d' returned => ?_⟩
        obtain ⟨named', enters⟩ := (ih d').mp (later d' returned)
        exact ⟨(call.named_iff named returned).mp named', enters⟩
      · rintro ⟨named, enters⟩
        refine ⟨named, fun d' returned => ?_⟩
        obtain ⟨now, later⟩ := enters d' returned
        exact (ih d').mpr ⟨(call.named_iff named returned).mpr now, later⟩

/-! ## A volume that follows the rule -/

/-- The formatted volume with a directory `a`, whose `..` entry holds 0 for the root. -/
def zeroDotdot : Driver :=
  let d := leaves (fat32Mkdir .blank (.ofBytes [0x61])) formatted
  { d with
    ata := { d.ata with
      media := fun channel drive l =>
        if l = 3 then
          Dirent.store (d.ata.media channel drive l) direntSize (Dirent.newDirectory dotdotName 0)
        else d.ata.media channel drive l } }

def nameA : RelName := ⟨.ofBytes [0x61], by decide⟩
def nameDotdot : RelName := ⟨.ofBytes [dot, dot], by decide⟩

/-- After `chdir a` and `chdir ..` open means the root, and write means cluster 0. -/
theorem calls_part_after_dotdot :
    ¬ KeepsOneDirectory zeroDotdot [.chdir nameA, .chdir nameDotdot] := by
  have first : Runs.check (DirCall.chdir nameA).exec zeroDotdot
      (fun _ d => d.fs.currentDirCluster = 3) = true := by decide +kernel
  have second : Runs.check (DirCall.chdir nameDotdot).exec
      (leaves (DirCall.chdir nameA).exec zeroDotdot)
      (fun _ d => d.fs.currentDirCluster = 0 && d.fs.rootDirCluster = 2) = true := by
    decide +kernel
  obtain ⟨_, ran₁, -⟩ := leaves_of_check first
  obtain ⟨_, ran₂, up⟩ := leaves_of_check second
  simp only [Bool.and_eq_true, decide_eq_true_eq] at up
  rintro ⟨-, later⟩
  have named := (oneDirectory_iff _).mp ((later _ ran₁).2 _ ran₂)
  rw [Fs.Named, up.1, up.2] at named
  omega

end XosKernel.Fat32
