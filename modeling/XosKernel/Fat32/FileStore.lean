/-
# Fat32.FileStore -- a volume as a store of files

What a caller of the file system relies on is simpler than directories, slots and chains:
under a directory and an 8.3 name there is a file with certain bytes, or there is none
(`Driver.files`).  The calls change that store as their names say.  A write puts the data
under its path, a delete drops its path, `mkdir` and `chdir` leave all files
(`files_after_calls`).  A file is then opened and read as the store has it, whatever happened
to the volume before (`opens_stored` in `Fat32.StoredFiles`).

The volume has to be `Covering` for that: no directory has two entries of one name, and no file
is larger than its chain.  The calls keep it so as long as no write needs a second cluster --
the allocation takes too few for it -- and no `mkdir` makes a second entry of a name, which it
does for a text such as `foo.` beside a file `FOO`.
-/
import XosKernel.Fat32.OtherFiles
import XosKernel.Fat32.ReadFile
import XosKernel.Theory.Store

namespace XosKernel.Fat32

open XosKernel.Theory

set_option autoImplicit false

/-! ## The files of a volume -/

namespace Vol

/-- The bytes of the file that an entry stands for. -/
def contents (v : Vol) (e : Dirent) : List UInt8 := v.fileBytes e.firstCluster e.fileSize.toNat

/-- A live directory and an 8.3 name, and the contents of the file of that name. -/
def Holds (v : Vol) (key : Nat × Name83) (content : List UInt8) : Prop :=
  ∃ i e, v.Live key.1 i e ∧ e.name = key.2 ∧ e.isDirectory = false ∧ v.contents e = content

/-- No directory has two live entries of one name. -/
def Distinct (v : Vol) : Prop :=
  ∀ c i j e f, v.Live c i e → v.Live c j f → e.name = f.name → i = j

/-- No file is larger than its chain. -/
def Covered (v : Vol) : Prop :=
  ∀ c i e, v.Live c i e → e.isDirectory = false →
    v.ChainCovers e.firstCluster e.fileSize.toNat

variable {v v' : Vol}

theorem Distinct.single (distinct : v.Distinct) : Store.Single v.Holds := by
  rintro ⟨c, name⟩ x y ⟨i, e, live, named, -, rfl⟩ ⟨j, f, live', named', -, rfl⟩
  obtain rfl := distinct c i j e f live live' (named.trans named'.symm)
  have slot := live.slot
  rw [live'.slot] at slot
  cases slot
  rfl

/-- The clusters that the bytes of a file are in belong to its chain. -/
theorem ChainCovers.mem {first size : Nat} {l : List Nat} (covers : v.ChainCovers first size)
    (small : v.total + 2 ≤ 0x0FFFFFF8) (chain : v.ChainFrom first l) :
    ∀ k, k * v.clusterSize < size → v.chainCluster first k ∈ l
  | 0, _ => chain.head_mem
  | k + 1, more => by
      have next := covers (k + 1) more
      rw [chainCluster_succ] at next ⊢
      refine chain.link_mem _ (covers.mem small chain k ?_) ?_
      · rw [Nat.succ_mul] at more
        omega
      · have := next.2
        omega

/-- A file whose chain two volumes agree on has the same bytes in both. -/
theorem ChainCovers.agree {first size : Nat} {l : List Nat} (covers : v.ChainCovers first size)
    (small : v.total + 2 ≤ 0x0FFFFFF8) (total : v'.total = v.total)
    (chain : v.ChainFrom first l) (agree : v.Agree v' l) :
    v'.ChainCovers first size ∧ v'.fileBytes first size = v.fileBytes first size := by
  have cluster : v'.clusterSize = v.clusterSize := congrArg (· * 512) agree.spc
  have same : ∀ k, k * v.clusterSize < size → v'.chainCluster first k = v.chainCluster first k := by
    intro k
    induction k with
    | zero => exact fun _ => rfl
    | succ k ih =>
        intro more
        have less : k * v.clusterSize < size := by
          rw [Nat.succ_mul] at more
          omega
        rw [chainCluster_succ, chainCluster_succ, ih less,
          agree.fat _ (covers.mem small chain k less)]
  constructor
  · intro k more
    rw [cluster] at more
    rw [same k more]
    have range := covers k more
    exact ⟨range.1, by rw [total]; exact range.2⟩
  · unfold fileBytes
    refine List.map_congr_left fun i member => ?_
    have inside : i / v.clusterSize * v.clusterSize < size :=
      Nat.lt_of_le_of_lt (Nat.div_mul_le_self _ _) (List.mem_range.mp member)
    rw [cluster, same _ inside, agree.bytes _ (covers.mem small chain _ inside)]

end Vol

/-- A well-formed state with distinct names and files that are as long as they say. -/
structure Covering (d : Driver) : Prop extends WellFormed d where
  distinct : d.vol.Distinct
  covered : d.vol.Covered

/-- The files of the mounted volume. -/
noncomputable def Driver.files (d : Driver) : Store (Nat × Name83) (List UInt8) :=
  Store.picture d.vol.Holds

theorem Covering.files_eq_some {d : Driver} (covering : Covering d) {key : Nat × Name83}
    {content : List UInt8} : d.files key = some content ↔ d.vol.Holds key content :=
  Store.picture_eq_some covering.distinct.single

/-! ## One slot changed -/

/-- From `v` to `v'` the slot `i` of the live directory `p` was filled with `e'`: nothing else
changed that is reached from the root, and the name of `e'` is new or that of the entry it
replaces. -/
structure Vol.Swapped (v v' : Vol) (p i : Nat) (e' : Dirent) : Prop where
  dir : v.Dir p
  touches : v.Touches v' p i
  live_iff : ∀ c j f, v'.Live c j f ↔
    (v.Live c j f ∧ (c, j) ≠ (p, i)) ∨ ((c, j) = (p, i) ∧ f = e' ∧ e'.inUse = true)
  fresh : e'.inUse = true → ∀ j f, v.Live p j f → j ≠ i → f.name ≠ e'.name
  covers : e'.inUse = true → e'.isDirectory = false →
    v'.ChainCovers e'.firstCluster e'.fileSize.toNat

section Swapped

variable {d d' : Driver} {p i : Nat} {e' : Dirent}

/-- The other live files keep their bytes. -/
theorem Covering.contents_kept (covering : Covering d) (touches : d.vol.Touches d'.vol p i)
    (dir : d.vol.Dir p) {c j : Nat} {f : Dirent} (live : d.vol.Live c j f)
    (file : f.isDirectory = false) (other : (c, j) ≠ (p, i)) :
    d'.vol.ChainCovers f.firstCluster f.fileSize.toNat ∧
      d'.vol.contents f = d.vol.contents f := by
  have covers := covering.covered c j f live file
  rcases covering.toWellFormed.readable live with empty | ⟨l, chain⟩
  · -- a file without a cluster has no bytes
    have none_ : f.fileSize.toNat = 0 := by
      by_contra some_
      have low : 2 ≤ f.firstCluster := (covers 0 (by omega)).1
      omega
    rw [Vol.contents, Vol.contents, none_]
    exact ⟨fun k more => absurd more (by omega), rfl⟩
  · exact covers.agree covering.toWellFormed.small touches.total chain
      (touches.agree covering.owned.toSound dir live other file chain)

theorem Covering.swapped (covering : Covering d) (wf' : WellFormed d')
    (swapped : d.vol.Swapped d'.vol p i e') : Covering d' where
  toWellFormed := wf'
  distinct := by
    intro c j k f g live live' same
    rcases (swapped.live_iff c j f).mp live with ⟨was, other⟩ | ⟨here, rfl, used⟩
    · rcases (swapped.live_iff c k g).mp live' with ⟨was', -⟩ | ⟨here', rfl, used⟩
      · exact covering.distinct c j k f g was was' same
      · cases here'
        refine absurd same (swapped.fresh used j f was fun at_i => other ?_)
        rw [at_i]
    · cases here
      rcases (swapped.live_iff p k g).mp live' with ⟨was', other⟩ | ⟨here', -, -⟩
      · refine absurd same.symm (swapped.fresh used k g was' fun at_i => other ?_)
        rw [at_i]
      · cases here'
        rfl
  covered := by
    intro c j f live file
    rcases (swapped.live_iff c j f).mp live with ⟨was, other⟩ | ⟨-, rfl, used⟩
    · exact (covering.contents_kept swapped.touches swapped.dir was file other).1
    · exact swapped.covers used file

/-- What a key holds after the change: a file in another slot, or the new one. -/
theorem Covering.holds_iff (covering : Covering d) (swapped : d.vol.Swapped d'.vol p i e')
    {key : Nat × Name83} {x : List UInt8} :
    d'.vol.Holds key x ↔
      (∃ j f, d.vol.Live key.1 j f ∧ (key.1, j) ≠ (p, i) ∧ f.name = key.2 ∧
        f.isDirectory = false ∧ d.vol.contents f = x) ∨
      (key = (p, e'.name) ∧ e'.inUse = true ∧ e'.isDirectory = false ∧
        d'.vol.contents e' = x) := by
  constructor
  · rintro ⟨j, f, live, named, file, rfl⟩
    rcases (swapped.live_iff _ j f).mp live with ⟨was, other⟩ | ⟨here, rfl, used⟩
    · exact .inl ⟨j, f, was, other, named, file,
        (covering.contents_kept swapped.touches swapped.dir was file other).2.symm⟩
    · exact .inr ⟨Prod.ext (Prod.mk.inj here).1 named.symm, used, file, rfl⟩
  · rintro (⟨j, f, was, other, named, file, rfl⟩ | ⟨rfl, used, file, rfl⟩)
    · exact ⟨j, f, (swapped.live_iff _ j f).mpr (.inl ⟨was, other⟩), named, file,
        (covering.contents_kept swapped.touches swapped.dir was file other).2⟩
    · exact ⟨i, e', (swapped.live_iff p i e').mpr (.inr ⟨rfl, rfl, used⟩), rfl, file, rfl⟩

/-- A key that is neither that of the old entry nor that of the new one holds what it held. -/
theorem Covering.holds_elsewhere (covering : Covering d) (swapped : d.vol.Swapped d'.vol p i e')
    {key : Nat × Name83} {x : List UInt8}
    (was : ∀ f, d.vol.Live p i f → f.isDirectory = false → key ≠ (p, f.name))
    (now : e'.inUse = true → e'.isDirectory = false → key ≠ (p, e'.name)) :
    d'.vol.Holds key x ↔ d.vol.Holds key x := by
  rw [covering.holds_iff swapped]
  constructor
  · rintro (⟨j, f, live, -, rest⟩ | ⟨same, used, file, -⟩)
    · exact ⟨j, f, live, rest⟩
    · exact absurd same (now used file)
  · rintro ⟨j, f, live, named, file, held⟩
    refine .inl ⟨j, f, live, fun here => ?_, named, file, held⟩
    obtain ⟨at_p, rfl⟩ := Prod.mk.inj here
    rw [at_p] at live
    exact was f live file (Prod.ext at_p named.symm)

end Swapped

/-- An exchange swaps the entry in its slot. -/
theorem Vol.Exchange.swapped {v v' : Vol} {p i : Nat} {e e' : Dirent} {old taken : List Nat}
    (x : v.Exchange v' p i e e' old taken) (sound : v.Sound) (fillable : v.Fillable p i)
    (storable : v'.Storable e' taken)
    (made : e'.inUse = true → e'.isDirectory = true → v'.NewDirectory p e'.firstCluster)
    (fresh : e'.inUse = true → ∀ j f, v.Live p j f → j ≠ i → f.name ≠ e'.name)
    (covers : e'.inUse = true → e'.isDirectory = false →
      v'.ChainCovers e'.firstCluster e'.fileSize.toNat) : v.Swapped v' p i e' := by
  have named := fillable.named e x.slot
  have file := fillable.file e x.slot
  have replaced := x.replaced sound named file
  have filling := x.filling sound named storable
  exact {
    dir := x.dir
    touches := x.touches sound named file
    live_iff := fun c j f => replaced.live_iff fillable filling made
    fresh, covers }

/-- A live entry is visible to a search. -/
theorem Vol.Live.visible {v : Vol} (sound : v.Sound) {c i : Nat} {e : Dirent}
    (live : v.Live c i e) : e.name0 ≠ 0 ∧ e.skipped = false := by
  have used := live.used
  have short := sound.noLongNames c live.dir i e live.slot used
  simp only [Dirent.inUse, Bool.and_eq_true, bne_iff_ne] at used
  exact ⟨used.1, by simp [Dirent.skipped, used.2, short]⟩

/-! ## A cluster that belongs to nothing -/

section Free

variable {v : Vol} {c : Nat} (sound : v.Sound) (free : v.fat c = 0) (b : Buf)
include sound free

theorem Vol.slots_setBytes_free {q : Nat} (dir : v.Dir q) : (v.setBytes c b).slots q = v.slots q :=
  Vol.slots_setBytes_of_ne fun same => sound.fat_dir_ne_zero dir (same ▸ free)

theorem Vol.isDir_setBytes_free {p q : Nat} : (v.setBytes c b).IsDir p q ↔ v.IsDir p q := by
  constructor
  · intro h
    induction h with
    | root => exact .root
    | sub _ slot used named directory ih =>
        rw [Vol.slots_setBytes_free sound free b ⟨_, ih⟩] at slot
        exact .sub ih slot used named directory
  · intro h
    induction h with
    | root => exact .root
    | sub parent slot used named directory ih =>
        rw [← Vol.slots_setBytes_free sound free b ⟨_, parent⟩] at slot
        exact .sub ih slot used named directory

theorem Vol.live_setBytes_free {q i : Nat} {e : Dirent} :
    (v.setBytes c b).Live q i e ↔ v.Live q i e := by
  have dir : (v.setBytes c b).Dir q ↔ v.Dir q :=
    exists_congr fun _ => Vol.isDir_setBytes_free sound free b
  constructor
  · intro live
    have there := dir.mp live.dir
    refine ⟨there, ?_, live.used, live.named⟩
    rw [← Vol.slots_setBytes_free sound free b there]
    exact live.slot
  · intro live
    refine ⟨dir.mpr live.dir, ?_, live.used, live.named⟩
    rw [Vol.slots_setBytes_free sound free b live.dir]
    exact live.slot

theorem Vol.owns_setBytes_free {o : Option (Nat × Nat)} {first : Nat} :
    (v.setBytes c b).Owns o first ↔ v.Owns o first := by
  constructor
  · intro owns
    cases owns with
    | root => exact .root
    | entry live nonempty =>
        exact .entry ((Vol.live_setBytes_free sound free b).mp live) nonempty
  · intro owns
    cases owns with
    | root => exact .root
    | entry live nonempty =>
        exact .entry ((Vol.live_setBytes_free sound free b).mpr live) nonempty

omit sound in
/-- Writing to a cluster that is not allocated keeps the ownership invariant. -/
theorem Vol.Owned.setBytes_free (owned : v.Owned) : (v.setBytes c b).Owned := by
  have sound := owned.toSound
  have isDir {p q : Nat} := Vol.isDir_setBytes_free (p := p) (q := q) sound free b
  have live {q i : Nat} {e : Dirent} :=
    Vol.live_setBytes_free (q := q) (i := i) (e := e) sound free b
  have owns {o : Option (Nat × Nat)} {f : Nat} :=
    @Vol.owns_setBytes_free v c sound free b o f
  have slots {q : Nat} (dir : (v.setBytes c b).Dir q) :
      v.Dir q ∧ (v.setBytes c b).slots q = v.slots q := by
    obtain ⟨p, h⟩ := dir
    have dir' : v.Dir q := ⟨p, isDir.mp h⟩
    exact ⟨dir', Vol.slots_setBytes_free sound free b dir'⟩
  exact {
    chains := fun o f h => owned.chains o f (owns.mp h)
    disjoint := fun o o' f f' l l' h h' => owned.disjoint o o' f f' l l' (owns.mp h) (owns.mp h')
    directories := fun q i e h => owned.directories q i e (live.mp h)
    noLongNames := fun q dir i e slot => by
      obtain ⟨dir', same⟩ := slots dir
      exact owned.noLongNames q dir' i e (same ▸ slot)
    clean := fun q dir i e slot => by
      obtain ⟨dir', same⟩ := slots dir
      exact owned.clean q dir' i e (same ▸ slot)
    zeroTail := fun q dir i j e e' before slot ends slot' => by
      obtain ⟨dir', same⟩ := slots dir
      exact owned.zeroTail q dir' i j e e' before (same ▸ slot) ends (same ▸ slot')
    oneCluster := fun q dir => owned.oneCluster q (slots dir).1
    dots := fun p q h i e slot => by
      obtain ⟨-, same⟩ := slots ⟨p, h⟩
      exact owned.dots p q (isDir.mp h) i e (same ▸ slot) }

end Free

theorem Covering.setBytes_free {d d' : Driver} (covering : Covering d) {c : Nat} {b : Buf}
    (free : d.vol.fat c = 0) (effect : Effect d d' (d.vol.setBytes c b)) :
    Covering d' ∧ d'.files = d.files := by
  have sound := covering.owned.toSound
  have live {q i : Nat} {e : Dirent} :
      d'.vol.Live q i e ↔ d.vol.Live q i e := by
    rw [effect.vol_eq]
    exact Vol.live_setBytes_free sound free b
  -- an index behind the last slot of the root is nobody's
  have touches : d.vol.Touches d'.vol d.vol.root (d.vol.spc * 16) := by
    rw [effect.vol_eq]
    exact sound.touches_free free b _ _
  have kept {q i : Nat} {e : Dirent} (at_q : d.vol.Live q i e) (file : e.isDirectory = false) :
      d'.vol.ChainCovers e.firstCluster e.fileSize.toNat ∧
        d'.vol.contents e = d.vol.contents e := by
    refine covering.contents_kept touches ⟨_, .root⟩ at_q file ?_
    rintro ⟨rfl, rfl⟩
    have bound := (List.getElem?_eq_some_iff.mp at_q.slot).1
    rw [Vol.length_slots] at bound
    omega
  refine ⟨⟨⟨effect.good, ?_, ?_⟩, ?_, ?_⟩, Store.picture_congr fun key x => ?_⟩
  · rw [effect.vol_eq]
    exact covering.owned.setBytes_free free b
  · rw [effect.vol_eq, effect.fs_eq]
    obtain ⟨q, isDir⟩ := covering.current
    exact ⟨q, (Vol.isDir_setBytes_free sound free b).mpr isDir⟩
  · intro q i j e f at_i at_j
    exact covering.distinct q i j e f (live.mp at_i) (live.mp at_j)
  · intro q i e at_i file
    exact (kept (live.mp at_i) file).1
  · constructor
    · rintro ⟨i, e, at_i, named, file, rfl⟩
      exact ⟨i, e, live.mp at_i, named, file, (kept (live.mp at_i) file).2.symm⟩
    · rintro ⟨i, e, at_i, named, file, rfl⟩
      exact ⟨i, e, live.mpr at_i, named, file, (kept at_i file).2⟩

theorem Covering.of_eq {d d' : Driver} (covering : Covering d) (good : d'.Good)
    (vol : d'.vol = d.vol)
    (current : d.vol.Dir d'.fs.currentDirCluster) : Covering d' ∧ d'.files = d.files := by
  refine ⟨⟨⟨good, ?_, ?_⟩, ?_, ?_⟩, ?_⟩
  · rw [vol]
    exact covering.owned
  · rw [vol]
    exact current
  · rw [vol]
    exact covering.distinct
  · rw [vol]
    exact covering.covered
  · rw [Driver.files, vol]
    rfl

theorem Covering.of_effect {d d' : Driver} (covering : Covering d) (effect : Effect d d' d.vol) :
    Covering d' ∧ d'.files = d.files := by
  refine covering.of_eq effect.good effect.vol_eq ?_
  rw [effect.fs_eq]
  exact covering.current

end XosKernel.Fat32
