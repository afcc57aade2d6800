/-
# Fat32.Frame -- what an operation leaves alone

Whatever a write, a delete or a mkdir returns, it touches one slot, the chain of the entry
in it and clusters that were free (`Vol.Touches`).  The chains of all other live entries, and
the other slots, are as they were, so every other file reads back the same
(`Touches.agree`) -- if it is still found.
-/
import XosKernel.Fat32.Calls
import XosKernel.Fat32.ReadSpec

namespace XosKernel.Fat32

open XosKernel.Theory

set_option autoImplicit false

namespace Vol

variable {v v' : Vol} {p i : Nat} {e e' : Dirent} {old taken : List Nat}

/-- From `v` to `v'` nothing changed but the slot `i` of the directory `p`, the chain of the
entry in it, and clusters that no live entry owns. -/
structure Touches (v v' : Vol) (p i : Nat) : Prop where
  spc : v'.spc = v.spc
  total : v'.total = v.total
  root : v'.root = v.root
  fat : ∀ o c l, v.Owns o c → o ≠ some (p, i) → v.ChainFrom c l → ∀ x, x ∈ l → v'.fat x = v.fat x
  bytes : ∀ o c l, v.Owns o c → o ≠ some (p, i) → v.ChainFrom c l → ∀ x, x ∈ l → x ≠ p →
    v'.bytes x = v.bytes x
  slots : ∀ d, v.Dir d → ∀ j, (d, j) ≠ (p, i) → (v'.slots d)[j]? = (v.slots d)[j]?

theorem Touches.refl (v : Vol) (p i : Nat) : v.Touches v p i :=
  ⟨rfl, rfl, rfl, fun _ _ _ _ _ _ _ _ => rfl, fun _ _ _ _ _ _ _ _ _ => rfl, fun _ _ _ _ => rfl⟩

/-- Filling a free cluster touches nothing live. -/
theorem Sound.touches_free (sound : v.Sound) {c : Nat} (free : v.fat c = 0) (b : Buf)
    (p i : Nat) : v.Touches (v.setBytes c b) p i where
  spc := rfl
  total := rfl
  root := rfl
  fat := fun _ _ _ _ _ _ _ _ => rfl
  bytes := by
    intro o a l owns _ chain x member _
    refine setBytes_bytes_of_ne _ ?_
    rintro rfl
    exact chain.fat_ne_zero x member free
  slots := by
    intro d dir j _
    rw [slots_setBytes_of_ne]
    rintro rfl
    exact sound.fat_dir_ne_zero dir free

/-- An exchange in a slot without a directory touches that slot. -/
theorem Exchange.touches (x : v.Exchange v' p i e e' old taken) (sound : v.Sound)
    (named : e.inUse = true → e.isDots = false) (file : e.inUse = true → e.isDirectory = false) :
    v.Touches v' p i where
  spc := x.spc
  total := x.total
  root := x.root
  fat := (x.replaced sound named file).links
  bytes := by
    intro o c l owns other chain y member ne
    exact x.bytes y (x.taken_disjoint sound named owns other chain y member) ne
  slots := by
    intro d dir j other
    by_cases here : d = p
    · subst here
      rw [x.here, List.getElem?_set_ne]
      rintro rfl
      exact other rfl
    · rw [(x.replaced sound named file).elsewhere d dir here]

/-! ## A write without space -/

/-- The clusters that are free once the chain `old` is released. -/
def available (v : Vol) (old : List Nat) : Nat := (v.freeAll old).freeClusters.length

/-- `fat32_write` fails in a place exactly when there are too few clusters; it has then
linked all of those there are. -/
theorem writeAt_cases (v : Vol) (pl : Place) (old : List Nat) (data : List UInt8) :
    ((v.writeAt pl old data).1 = 0 ∧
      (data = [] ∨ (clustersNeeded v.clusterSize data.length + 1) / 2 ≤ v.available old)) ∨
    ((v.writeAt pl old data).1 = -1 ∧ data ≠ [] ∧
      ¬ (clustersNeeded v.clusterSize data.length + 1) / 2 ≤ v.available old ∧
      (v.writeAt pl old data).2 = (v.freeAll old).linkTo
        ((v.freeAll old).freeClusters.getLastD 0) (v.freeAll old).freeClusters) := by
  unfold writeAt available
  by_cases empty : data = []
  · simp only [if_pos empty]
    exact .inl ⟨trivial, .inl empty⟩
  simp only [if_neg empty]
  unfold allocate
  by_cases none : clustersNeeded v.clusterSize data.length = 0
  · simp only [if_pos none]
    exact .inl ⟨trivial, .inr (by rw [none]; exact Nat.zero_le _)⟩
  simp only [if_neg none]
  by_cases enough : (clustersNeeded v.clusterSize data.length + 1) / 2 ≤
      (v.freeAll old).freeClusters.length
  · simp only [if_pos enough]
    cases front : (v.freeAll old).freeClusters.head? with
    | none =>
        rw [List.head?_eq_none_iff] at front
        rw [front] at enough
        simp at enough
        omega
    | some first => exact .inl ⟨rfl, .inr enough⟩
  · simp only [if_neg enough]
    exact .inr ⟨trivial, empty, enough, trivial⟩

/-- A failed write links the clusters it took among themselves: it frees none of them and
closes no chain. -/
theorem failed_links (small : v.total + 2 ≤ 0x0FFFFFF8) {c : Nat}
    (free : c ∈ (v.freeAll old).freeClusters) :
    ((v.freeAll old).linkTo ((v.freeAll old).freeClusters.getLastD 0)
        (v.freeAll old).freeClusters).fat c ≠ 0 ∧
      ((v.freeAll old).linkTo ((v.freeAll old).freeClusters.getLastD 0)
        (v.freeAll old).freeClusters).fat c < 0x0FFFFFF8 := by
  have range : ∀ y, y ∈ (v.freeAll old).freeClusters → 2 ≤ y ∧ y < v.total + 2 :=
    fun y member => (mem_freeClusters.mp member).1
  have last : (v.freeAll old).freeClusters.getLastD 0 ∈ (v.freeAll old).freeClusters := by
    rw [List.getLastD_eq_getLast?, List.getLast?_eq_some_getLast (List.ne_nil_of_mem free)]
    exact List.getLast_mem _
  -- a link that is none of these numbers is none of the clusters
  have avoids : ∀ z, (∀ y, y ∈ (v.freeAll old).freeClusters → y ≠ z) →
      relink (v.freeAll old).fat ((v.freeAll old).freeClusters.getLastD 0)
        (v.freeAll old).freeClusters c ≠ z :=
    fun z other => relink_ne other (other _ last) c free
  refine ⟨avoids 0 fun y member => ?_, ?_⟩
  · have := (range y member).1
    omega
  · by_contra closed
    refine avoids _ (fun y member => ?_) rfl
    have := (range y member).2
    change ¬ relink _ _ _ _ < _ at closed
    omega

/-- A failed write touches the slot it chose, though it leaves the entry there. -/
theorem Sound.touches_failed (sound : v.Sound) (dir : v.Dir p) (slot : (v.slots p)[i]? = some e)
    (releases : v.Releases e.firstCluster old) (named : e.inUse = true → e.isDots = false)
    (t : Nat) : v.Touches ((v.freeAll old).linkTo t (v.freeAll old).freeClusters) p i where
  spc := rfl
  total := rfl
  root := rfl
  fat := by
    intro o c l owns other chain x member
    have kept := sound.released_disjoint dir slot releases named owns other chain x member
    have link : (v.freeAll old).fat x = v.fat x := if_neg kept
    have busy : x ∉ (v.freeAll old).freeClusters := by
      intro free
      have zero := (mem_freeClusters.mp free).2
      rw [link] at zero
      exact chain.fat_ne_zero x member zero
    exact (relink_of_not_mem busy).trans link
  bytes := fun _ _ _ _ _ _ _ _ _ => rfl
  slots := fun _ _ _ _ => rfl

/-! ## What is kept -/

section Touches

variable (t : v.Touches v' p i)
include t

/-- The live directories stay, if the slot holds none. -/
theorem Touches.isDir_mono (file : ∀ e, (v.slots p)[i]? = some e → e.inUse = true →
    e.isDirectory = false) {a b : Nat} (h : v.IsDir a b) : v'.IsDir a b := by
  induction h with
  | root => rw [← t.root]; exact .root
  | @sub q d j f parent slot used named directory ih =>
      refine .sub (i := j) ih ?_ used named directory
      rw [t.slots d ⟨q, parent⟩ j]
      · exact slot
      · rintro ⟨rfl, rfl⟩
        rw [file f slot used] at directory
        cases directory

/-- The other live entries stay. -/
theorem Touches.live_mono (file : ∀ e, (v.slots p)[i]? = some e → e.inUse = true →
    e.isDirectory = false) {d j : Nat} {f : Dirent} (live : v.Live d j f)
    (other : (d, j) ≠ (p, i)) : v'.Live d j f := by
  obtain ⟨q, isDir⟩ := live.dir
  refine ⟨⟨q, t.isDir_mono file isDir⟩, ?_, live.used, live.named⟩
  rw [t.slots d live.dir j other]
  exact live.slot

/-- The chains of the other entries stay. -/
theorem Touches.chain_mono {d j : Nat} {f : Dirent} {l : List Nat} (live : v.Live d j f)
    (other : (d, j) ≠ (p, i)) (chain : v.ChainFrom f.firstCluster l) :
    v'.ChainFrom f.firstCluster l := by
  have full : f.firstCluster ≠ 0 := by
    have := (chain.valid_of_mem _ chain.head_mem).1
    omega
  exact chain.frame t.total (t.fat _ _ _ (.entry live full) (fun h => other (Option.some.inj h))
    chain)

/-- The contents of the other files stay. -/
theorem Touches.agree (sound : v.Sound) (dir : v.Dir p) {d j : Nat} {f : Dirent} {l : List Nat}
    (live : v.Live d j f) (other : (d, j) ≠ (p, i)) (file : f.isDirectory = false)
    (chain : v.ChainFrom f.firstCluster l) : v.Agree v' l := by
  have full : f.firstCluster ≠ 0 := by
    have := (chain.valid_of_mem _ chain.head_mem).1
    omega
  have owns := Owns.entry live full
  have apart : some (d, j) ≠ some (p, i) := fun h => other (Option.some.inj h)
  refine ⟨t.spc, t.fat _ _ _ owns apart chain, ?_⟩
  intro x member
  refine t.bytes _ _ _ owns apart chain x member ?_
  rintro rfl
  refine sound.dir_not_mem owns ?_ chain dir member
  intro g slot
  rw [live.slot] at slot
  cases slot
  exact file

end Touches

end Vol

/-! ## The slot a call works on -/

/-- The slot that a call overwrites or empties. -/
def Call.Target (d : Driver) (locals : Locals) : Call → Nat → Nat → Prop
  | .write path _, p, i => ∃ t d', (writeTarget locals path).run d = .ok (some t, d') ∧
      t.parentCluster = p ∧ t.slot = i
  | .create path, p, i => ∃ t d', (writeTarget locals path).run d = .ok (some t, d') ∧
      t.parentCluster = p ∧ t.slot = i
  | .delete path, p, i => ∃ e d', (deleteEntry path).run d = .ok (some (i, e), d') ∧
      d.fs.rootDirCluster = p
  | .mkdir _, _, _ => False
  | .chdir _, _, _ => False

section Touched

variable {d d' : Driver} (wf : WellFormed d)
include wf

/-- The matched entry, read off the volume. -/
theorem WellFormed.matchesFile_iff {path : CStr} {locals : Locals} {pl : Place} {e : Dirent}
    (place : d.vol.place (d.fs.startCluster path.1) locals path.1 = some pl)
    (placed : d.vol.Placed pl e) :
    WriteMatchesFile d locals path ↔ (e.inUse = true → e.isDirectory = false) := by
  obtain ⟨t, d₁, ran, samePlace, sameEntry⟩ := wf.target place placed
  constructor
  · intro file used
    rw [← sameEntry]
    refine file t d₁ ran ?_
    have existing := placed.used.symm.trans used
    rw [← samePlace] at existing
    exact existing
  · intro file t' d₂ ran' existing
    rw [ran] at ran'
    cases ran'
    rw [sameEntry]
    refine file (placed.used.trans ?_)
    rw [← samePlace]
    exact existing

theorem WellFormed.write_target {path : CStr} {locals : Locals} {pl : Place} {e : Dirent}
    (place : d.vol.place (d.fs.startCluster path.1) locals path.1 = some pl)
    (placed : d.vol.Placed pl e) {p i : Nat}
    (other : ¬ ∃ t d', (writeTarget locals path).run d = .ok (some t, d') ∧
      t.parentCluster = p ∧ t.slot = i) : (p, i) ≠ (pl.parent, pl.slot) := by
  obtain ⟨t, d₁, ran, rfl, -⟩ := wf.target place placed
  rintro ⟨rfl, rfl⟩
  exact other ⟨t, d₁, ran, rfl, rfl⟩

/-- What a write that matches no directory touches, whatever it returns. -/
theorem WellFormed.write_touches {locals : Locals} {path : CStr} {data : List UInt8} {r : Int}
    (file : WriteMatchesFile d locals path)
    (returned : (fat32Write locals path data).run d = .ok (r, d')) :
    d'.Good ∧ d'.fs = d.fs ∧
      (d'.vol = d.vol ∨
        ∃ pl e, d.vol.place (d.fs.startCluster path.1) locals path.1 = some pl ∧
          d.vol.Placed pl e ∧ (e.inUse = true → e.isDirectory = false) ∧
          d.vol.Touches d'.vol pl.parent pl.slot ∧
          ((d'.vol.slots pl.parent)[pl.slot]? = some e ∨
            ∃ e', (d'.vol.slots pl.parent)[pl.slot]? = some e' ∧ e'.name = pl.name)) := by
  have sound := wf.owned.toSound
  rcases (fat32Write_runs wf.good sound locals data (wf.navigates path.1)).of_returned returned with
    ⟨-, -, effect⟩ | ⟨pl, e, old, place, placed, releases, apart, -, effect⟩
  · exact ⟨effect.good, effect.fs_eq, .inl effect.vol_eq⟩
  refine ⟨effect.good, effect.fs_eq, .inr ⟨pl, e, place, placed, ?_⟩⟩
  have notDir := (wf.matchesFile_iff place placed).mp file
  refine ⟨notDir, ?_⟩
  rw [effect.vol_eq]
  rcases d.vol.writeAt_cases pl old data with ⟨ok, -⟩ | ⟨-, -, -, result⟩
  · obtain ⟨e', taken, x, same, -⟩ := sound.exchange_write wf.small placed releases apart ok
    refine ⟨x.touches sound placed.not_dots notDir, .inr ⟨e', ?_, same⟩⟩
    rw [x.here, List.getElem?_set_self (by rw [Vol.length_slots]; exact placed.inside)]
  · rw [result]
    exact ⟨sound.touches_failed placed.dir placed.slot releases placed.not_dots _,
      .inl placed.slot⟩

/-- What a delete that matches no directory touches. -/
theorem WellFormed.delete_touches {path : CStr} {r : Int} (file : DeleteMatchesFile d path)
    (returned : (fat32Delete path).run d = .ok (r, d')) :
    d'.Good ∧ d'.fs = d.fs ∧
      (d'.vol = d.vol ∨
        ∃ i e, d.vol.deleteMatch path.1 = some (i, e) ∧ d.vol.Live d.vol.root i e ∧
          e.isDirectory = false ∧ d.vol.Touches d'.vol d.vol.root i ∧
          (d'.vol.slots d.vol.root)[i]? = some e.deleted) := by
  have sound := wf.owned.toSound
  have root : d.vol.Dir d.vol.root := ⟨_, .root⟩
  rcases (fat32Delete_runs wf.good sound path).of_returned returned with
    ⟨-, -, effect⟩ | ⟨i, e, old, found, releases, apart, -, effect⟩
  · exact ⟨effect.good, effect.fs_eq, .inl effect.vol_eq⟩
  obtain ⟨slot, used, named⟩ := Vol.deleteMatch_eq_some found
  have notDir : e.isDirectory = false := by
    obtain ⟨_, d₁, ran, rfl, -⟩ := deleteEntry_runs wf.good (sound.inRange_dir root) path
    rw [found] at ran
    exact file i e d₁ ran
  have x := Vol.exchange_delete slot releases
  refine ⟨effect.good, effect.fs_eq,
    .inr ⟨i, e, found, ⟨root, slot, used, named⟩, notDir, ?_, ?_⟩⟩
  · rw [effect.vol_eq]
    exact x.touches sound (fun _ => named) fun _ => notDir
  · rw [effect.vol_eq, x.here, List.getElem?_set_self (List.getElem?_eq_some_iff.mp slot).1]

end Touched

end XosKernel.Fat32
