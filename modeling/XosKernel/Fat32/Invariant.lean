/-
# Fat32.Invariant -- the operations keep the ownership invariant

Write, delete and mkdir all do the same to a sound volume: they give back the chain of one
slot, take some free clusters, and store an entry into that slot.  `Vol.Exchange` is that
description, `Exchange.replaced` the frame it gives, and the three operations are instances
of it (`Sound.exchange_write`, `exchange_delete`, `exchange_mkdir`).

The invariant over whole runs of calls is in `Fat32.Calls`.
-/
import XosKernel.Fat32.Operations

namespace XosKernel.Fat32

open XosKernel.Theory

set_option autoImplicit false

theorem Dirent.load_zero (off : Nat) : Dirent.load (fun _ => 0) off = Dirent.zero := by
  simp only [Dirent.load, Dirent.zero, Buf.le, Buf.toList]
  rfl

theorem Dirent.firstCluster_newFile (name : Name83) : (Dirent.newFile name).firstCluster = 0 := by
  show (0 : UInt16).toNat * 2 ^ 16 + (0 : UInt16).toNat = 0
  decide

theorem Dirent.firstCluster_written (name : Name83) {first : Nat} (data : List UInt8)
    (bound : first < 2 ^ 32) : (Dirent.written name first data).firstCluster = first :=
  Dirent.firstCluster_setFirstCluster (Dirent.newFile name) first bound

namespace Vol

variable {v v' : Vol} {p i : Nat} {e e' : Dirent} {old taken : List Nat}

/-- From `v` to `v'` the entry `e` in the slot `i` of the directory `p` was exchanged for
`e'`: the chain `old` of the one was released, the clusters `taken` were used for the other. -/
structure Exchange (v v' : Vol) (p i : Nat) (e e' : Dirent) (old taken : List Nat) : Prop where
  spc : v'.spc = v.spc
  total : v'.total = v.total
  root : v'.root = v.root
  dir : v.Dir p
  slot : (v.slots p)[i]? = some e
  releases : v.Releases e.firstCluster old
  free : ∀ x, x ∈ taken → v.fat x = 0 ∨ x ∈ old
  fat : ∀ x, x ∉ taken → x ∉ old → v'.fat x = v.fat x
  cleared : ∀ x, x ∉ taken → x ∈ old → v'.fat x = 0
  bytes : ∀ x, x ∉ taken → x ≠ p → v'.bytes x = v.bytes x
  here : v'.slots p = (v.slots p).set i e'

/-- The chain an exchange releases is the one the slot owns. -/
theorem Releases.eq_of_owns {c : Nat} {l : List Nat} (releases : v.Releases e.firstCluster old)
    (slot : (v.slots p)[i]? = some e) (owns : v.Owns (some (p, i)) c) (chain : v.ChainFrom c l) :
    l = old := by
  cases owns with
  | entry live full =>
      have same := live.slot
      rw [slot] at same
      cases same
      rcases releases with ⟨low, -⟩ | chain'
      · have := (chain.valid_of_mem _ chain.head_mem).1
        omega
      · exact chain.deterministic chain'

/-- The chain that emptying a slot gives back belongs to no other owner. -/
theorem Sound.released_disjoint (sound : v.Sound) (dir : v.Dir p)
    (slot : (v.slots p)[i]? = some e) (releases : v.Releases e.firstCluster old)
    (named : e.inUse = true → e.isDots = false) {o : Option (Nat × Nat)} {c : Nat} {l : List Nat}
    (owns : v.Owns o c) (other : o ≠ some (p, i)) (chain : v.ChainFrom c l) :
    ∀ y, y ∈ l → y ∉ old := by
  intro y member released
  rcases releases with ⟨-, rfl⟩ | chain'
  · cases released
  · have full : e.firstCluster ≠ 0 := by
      have := (chain'.valid_of_mem _ chain'.head_mem).1
      omega
    have used : e.inUse = true := by
      by_contra unused
      exact full (sound.clean p dir i e slot (by simpa using unused))
    have live : v.Live p i e := ⟨dir, slot, used, named used⟩
    exact sound.disjoint _ _ _ _ _ _ owns (.entry live full) other chain chain' member released

section Exchange

variable (x : v.Exchange v' p i e e' old taken) (sound : v.Sound)
  (named : e.inUse = true → e.isDots = false)
include x sound named

theorem Exchange.old_disjoint {o : Option (Nat × Nat)} {c : Nat} {l : List Nat}
    (owns : v.Owns o c) (other : o ≠ some (p, i)) (chain : v.ChainFrom c l) :
    ∀ y, y ∈ l → y ∉ old :=
  sound.released_disjoint x.dir x.slot x.releases named owns other chain

/-- The clusters taken belong to no other owner. -/
theorem Exchange.taken_disjoint {o : Option (Nat × Nat)} {c : Nat} {l : List Nat}
    (owns : v.Owns o c) (other : o ≠ some (p, i)) (chain : v.ChainFrom c l) :
    ∀ y, y ∈ l → y ∉ taken := by
  intro y member inside
  rcases x.free y inside with free | released
  · exact chain.fat_ne_zero y member free
  · exact x.old_disjoint sound named owns other chain y member released

/-- The frame of an exchange, if the slot held no directory. -/
theorem Exchange.replaced (file : e.inUse = true → e.isDirectory = false) :
    v.Replaced v' p i e' where
  spc := x.spc
  total := x.total
  root := x.root
  dir := x.dir
  here := x.here
  elsewhere := by
    intro d dir ne
    obtain ⟨o, owner, directory⟩ := sound.owns_dir dir
    obtain ⟨l, chain⟩ := sound.chains o d owner
    have other : o ≠ some (p, i) := by
      rintro rfl
      have isDir := directory p i e rfl x.slot
      cases owner with
      | entry live _ =>
          have same := live.slot
          rw [x.slot] at same
          cases same
          rw [file live.used] at isDir
          cases isDir
    have untaken := x.taken_disjoint sound named owner other chain d chain.head_mem
    simp only [slots, x.spc, x.bytes d untaken ne]
  links := by
    intro o c l owns other chain y member
    exact x.fat y (x.taken_disjoint sound named owns other chain y member)
      (x.old_disjoint sound named owns other chain y member)

/-- What an exchange may store: a deleted entry without clusters, or an ordinary entry that
owns exactly the clusters taken. -/
structure Storable (v' : Vol) (e' : Dirent) (taken : List Nat) : Prop where
  marked : e'.name0 ≠ 0
  cleared : e'.inUse = false → e'.firstCluster = 0
  short : e'.inUse = true → e'.attributes ≠ attrLfn
  named : e'.inUse = true → e'.isDots = false
  chain : e'.firstCluster ≠ 0 → v'.ChainFrom e'.firstCluster taken
  none : e'.firstCluster = 0 → taken = []

theorem Exchange.filling (storable : v'.Storable e' taken) : v.Filling v' p i e' where
  marked := storable.marked
  cleared := storable.cleared
  short := storable.short
  named := storable.named
  chain := by
    intro _ full
    refine ⟨taken, storable.chain full, ?_⟩
    intro o c m owns other chain y inside member
    exact x.taken_disjoint sound named owns other chain y member inside

/-- Nothing leaks in an exchange. -/
theorem Exchange.leaked (fillable : v.Fillable p i) (storable : v'.Storable e' taken)
    (made : e'.inUse = true → e'.isDirectory = true → v'.NewDirectory p e'.firstCluster)
    {y : Nat} (leak : v'.Leaked y) : v.Leaked y := by
  have replaced := x.replaced sound named (fillable.file e x.slot)
  refine replaced.leaked fillable (x.filling sound named storable) made ?_ leak
  intro z allocated
  by_cases inside : z ∈ taken
  · have full : e'.firstCluster ≠ 0 := by
      intro empty
      rw [storable.none empty] at inside
      cases inside
    have used : e'.inUse = true := by
      by_contra unused
      exact full (storable.cleared (by simpa using unused))
    exact .inl ⟨taken, used, storable.chain full, inside⟩
  · have kept : z ∉ old := fun released => allocated (x.cleared z inside released)
    refine .inr ⟨by rw [← x.fat z inside kept]; exact allocated, ?_⟩
    intro c l owns chain member
    exact kept (x.releases.eq_of_owns x.slot owns chain ▸ member)

/-- An exchange keeps the invariant. -/
theorem Exchange.owned (owned : v.Owned) (small : p < 2 ^ 32) (fillable : v.Fillable p i)
    (storable : v'.Storable e' taken)
    (made : e'.inUse = true → e'.isDirectory = true → v'.NewDirectory p e'.firstCluster) :
    v'.Owned :=
  (x.replaced sound named (fillable.file e x.slot)).owned fillable
    (x.filling sound named storable) made small owned

end Exchange

/-! ## The three operations -/

/-- The clusters that a write takes were free, or are those it releases. -/
theorem takes_free {data : List UInt8} :
    ∀ x, x ∈ (v.freeAll old).takes data → v.fat x = 0 ∨ x ∈ old := by
  intro x member
  have free := (mem_freeClusters.mp (List.mem_of_mem_take member)).2
  by_cases released : x ∈ old
  · exact .inr released
  · simp only [freeAll, if_neg released] at free
    exact .inl free

/-- The entry a successful write stores, and its first cluster. -/
theorem writeAt_ok {pl : Place} {data : List UInt8}
    (ok : (v.writeAt pl old data).1 = 0) :
    (data = [] ∧ (v.writeAt pl old data).2 =
        (v.freeAll old).setSlot pl.parent pl.slot (Dirent.newFile pl.name)) ∨
      ∃ first linked, data ≠ [] ∧
        (v.freeAll old).allocate (clustersNeeded v.clusterSize data.length) =
          (some first, linked) ∧
        (v.writeAt pl old data).2 =
          (linked.writeData ((v.freeAll old).takes data) data (data.length % 2 ^ 32)).setSlot
            pl.parent pl.slot (Dirent.written pl.name first data) := by
  unfold writeAt at ok ⊢
  by_cases empty : data = []
  · exact .inl ⟨empty, by simp only [if_pos empty]⟩
  · simp only [if_neg empty] at ok ⊢
    cases result : (v.freeAll old).allocate (clustersNeeded v.clusterSize data.length) with
    | mk res linked =>
        rw [result] at ok
        cases res with
        | none => cases ok
        | some first => exact .inr ⟨first, linked, empty, rfl, rfl⟩

theorem setSlot_slots_self {w : Vol} {d j : Nat} {f : Dirent} (spc : w.spc = v.spc)
    (bytes : w.bytes d = v.bytes d) : (w.setSlot d j f).slots d = (v.slots d).set j f := by
  rw [slots_setSlot_self]
  simp only [slots, spc, bytes]

/-- A successful write is an exchange in the slot it chose. -/
theorem Sound.exchange_write (sound : v.Sound) (small : v.total + 2 ≤ 0x0FFFFFF8) {pl : Place}
    (placed : v.Placed pl e) (releases : v.Releases e.firstCluster old)
    (apart : pl.parent ∉ old) {data : List UInt8} (ok : (v.writeAt pl old data).1 = 0) :
    ∃ e' taken, v.Exchange (v.writeAt pl old data).2 pl.parent pl.slot e e' old taken ∧
      e'.name = pl.name ∧ e'.attributes = attrArchive ∧
      (e'.firstCluster ≠ 0 → (v.writeAt pl old data).2.ChainFrom e'.firstCluster taken) ∧
      (e'.firstCluster = 0 → taken = []) := by
  rcases writeAt_ok ok with ⟨-, result⟩ | ⟨first, linked, -, allocated, result⟩
  · rw [result]
    refine ⟨Dirent.newFile pl.name, [], ?_, rfl, rfl,
      fun full => absurd (Dirent.firstCluster_newFile _) full, fun _ => rfl⟩
    exact {
      spc := rfl, total := rfl, root := rfl, dir := placed.dir, slot := placed.slot
      releases := releases
      free := fun _ member => absurd member List.not_mem_nil
      fat := fun _ _ kept => if_neg kept
      cleared := fun _ _ released => if_pos released
      bytes := fun _ _ ne => setBytes_bytes_of_ne _ ne
      here := setSlot_slots_self rfl rfl }
  · rw [result]
    have small' : (v.freeAll old).total + 2 ≤ 0x0FFFFFF8 := small
    obtain ⟨spc, total, root, bytes⟩ := linked.writeData_frame ((v.freeAll old).takes data) data
      (data.length % 2 ^ 32)
    have fat : ((linked.writeData ((v.freeAll old).takes data) data
        (data.length % 2 ^ 32)).setSlot pl.parent pl.slot
        (Dirent.written pl.name first data)).fat = linked.fat :=
      writeData_fat _ _ _ _
    have untaken : pl.parent ∉ (v.freeAll old).takes data := by
      intro member
      rcases takes_free _ member with free | released
      · exact sound.fat_dir_ne_zero placed.dir free
      · exact apart released
    -- the allocation links the clusters taken and touches nothing else
    have links : linked.spc = v.spc ∧ linked.total = v.total ∧ linked.root = v.root ∧
        linked.bytes = v.bytes ∧
        (∀ x, x ∉ (v.freeAll old).takes data → linked.fat x = (v.freeAll old).fat x) ∧
        ((first = 0 ∧ (v.freeAll old).takes data = []) ∨
          linked.ChainFrom first ((v.freeAll old).takes data)) := by
      rcases allocate_some small' allocated with ⟨zero, rfl, rfl⟩ | ⟨rest, split, rfl, chain⟩
      · refine ⟨rfl, rfl, rfl, rfl, fun _ _ => rfl, .inl ⟨rfl, ?_⟩⟩
        unfold takes
        have count : clustersNeeded (v.freeAll old).clusterSize data.length = 0 := zero
        rw [count]
        rfl
      · have taken : (v.freeAll old).takes data = first :: rest := split
        rw [taken]
        refine ⟨rfl, rfl, rfl, rfl, ?_, .inr chain⟩
        intro x outside
        exact relink_of_not_mem outside
    obtain ⟨spc', total', root', bytes', kept, chain⟩ := links
    have firstCluster : (Dirent.written pl.name first data).firstCluster = first := by
      refine Dirent.firstCluster_written pl.name data ?_
      rcases chain with ⟨rfl, -⟩ | chain
      · decide
      · have range := (chain.valid_of_mem _ chain.head_mem).2
        rw [total'] at range
        omega
    refine ⟨Dirent.written pl.name first data, (v.freeAll old).takes data, ?_, rfl, rfl, ?_, ?_⟩
    · exact {
        spc := spc.trans spc', total := total.trans total', root := root.trans root'
        dir := placed.dir, slot := placed.slot, releases := releases
        free := takes_free
        fat := fun x outside notOld => by
          rw [fat, kept x outside]
          exact if_neg notOld
        cleared := fun x outside released => by
          rw [fat, kept x outside]
          exact if_pos released
        bytes := fun x outside ne => by
          rw [setSlot, setBytes_bytes_of_ne _ ne, bytes x outside, bytes']
        here := setSlot_slots_self (spc.trans spc') (by rw [bytes _ untaken, bytes']) }
    · rw [firstCluster]
      intro full
      rcases chain with ⟨rfl, -⟩ | chain
      · exact absurd rfl full
      · exact chain.frame total fun x _ => by rw [fat]
    · rw [firstCluster]
      intro empty
      rcases chain with ⟨-, none⟩ | chain
      · exact none
      · have := (chain.valid_of_mem _ chain.head_mem).1
        omega

/-- A delete is an exchange in the slot it found. -/
theorem exchange_delete (slot : (v.slots v.root)[i]? = some e)
    (releases : v.Releases e.firstCluster old) :
    v.Exchange ((v.freeAll old).setSlot v.root i e.deleted) v.root i e e.deleted old [] where
  spc := rfl
  total := rfl
  root := rfl
  dir := ⟨_, .root⟩
  slot := slot
  releases := releases
  free := fun _ member => absurd member List.not_mem_nil
  fat := fun _ _ kept => if_neg kept
  cleared := fun _ _ released => if_pos released
  bytes := fun _ _ ne => setBytes_bytes_of_ne _ ne
  here := setSlot_slots_self rfl rfl

theorem scanFree_eq_some {l : List Dirent} : ∀ {k j : Nat}, scanFree l k = some j →
    ∃ n e, j = k + n ∧ l[n]? = some e ∧ (e.name0 = 0 ∨ e.name0 = 0xE5) ∧
      ∀ m, m < n → ∀ e', l[m]? = some e' → e'.name0 ≠ 0 ∧ e'.name0 ≠ 0xE5 := by
  induction l with
  | nil =>
      intro k j found
      cases found
  | cons x l ih =>
      intro k j found
      unfold scanFree at found
      split at found
      · cases found
        exact ⟨0, x, rfl, rfl, ‹_›, by omega⟩
      · rename_i taken
        obtain ⟨n, e, rfl, at_n, free, before⟩ := ih found
        refine ⟨n + 1, e, by omega, by simpa using at_n, free, ?_⟩
        intro m hm e' at_m
        cases m with
        | zero =>
            have same : x = e' := by simpa using at_m
            rw [← same]
            exact not_or.mp taken
        | succ m => exact before m (by omega) e' (by simpa using at_m)

/-- The slots of the cluster `fat32_mkdir` fills. -/
theorem newDirectory_slots {c parent : Nat} (positive : 1 ≤ v.spc) :
    (v.withDirectory c parent).slots c =
      Dirent.newDirectory dotName c :: Dirent.newDirectory dotdotName parent ::
        List.replicate (v.spc * 16 - 2) Dirent.zero := by
  unfold withDirectory
  rw [slots_setBytes_self]
  obtain ⟨n, count⟩ : ∃ n, v.spc * 16 = n + 2 := ⟨v.spc * 16 - 2, by omega⟩
  have size : (v.setFat c 0x0FFFFFFF).spc * 16 = n + 2 := count
  rw [size, count, Nat.add_sub_cancel]
  apply List.ext_getElem
  · simp
  intro k low high
  simp only [List.getElem_map, List.getElem_range, newDirectoryBuffer]
  rcases k with _ | _ | k
  · rw [Dirent.load_store_of_disjoint (by simp [direntSize])]
    exact Dirent.load_store _ _ _
  · rw [Nat.one_mul]
    exact Dirent.load_store _ _ _
  · rw [Dirent.load_store_of_disjoint (by simp only [direntSize]; omega),
      Dirent.load_store_of_disjoint (by simp only [direntSize]; omega), Dirent.load_zero]
    simp

/-- The new directory holds `.` and `..` only, in a chain of its own. -/
theorem newDirectory_made (positive : 1 ≤ v.spc) (name : Name83) {c : Nat}
    (free : c ∈ v.freeClusters) (other : c ≠ p) :
    ((v.withDirectory c p).setSlot p i (Dirent.newDirectory name c)).NewDirectory p c := by
  constructor
  · rw [slots_setSlot_of_ne other]
    exact newDirectory_slots positive
  · have chain : (v.withDirectory c p).ChainFrom c [c] :=
      withDirectory_chain (mem_freeClusters.mp free).1
    exact chain

/-- Making a directory is an exchange in the free slot it found. -/
theorem Sound.exchange_mkdir (sound : v.Sound) (positive : 1 ≤ v.spc) (name : Name83) {c : Nat}
    (dir : v.Dir p) (free : c ∈ v.freeClusters) (slot : (v.slots p)[i]? = some e)
    (unused : e.inUse = false) :
    v.Exchange ((v.withDirectory c p).setSlot p i (Dirent.newDirectory name c)) p i e
        (Dirent.newDirectory name c) [] [c] ∧
      ((v.withDirectory c p).setSlot p i (Dirent.newDirectory name c)).NewDirectory p c := by
  obtain ⟨-, zero⟩ := mem_freeClusters.mp free
  have other : c ≠ p := by
    rintro rfl
    exact sound.fat_dir_ne_zero dir zero
  refine ⟨?_, newDirectory_made positive name free other⟩
  exact {
    spc := rfl, total := rfl, root := rfl, dir := dir, slot := slot
    releases := .inl ⟨by rw [sound.clean p dir i e slot unused]; decide, rfl⟩
    free := fun x member => .inl (by rw [List.mem_singleton.mp member]; exact zero)
    fat := fun x outside _ => Function.update_of_ne (by simpa using outside) _ _
    cleared := fun _ _ released => absurd released List.not_mem_nil
    bytes := fun x outside ne => by
      rw [setSlot, setBytes_bytes_of_ne _ ne]
      exact setBytes_bytes_of_ne _ (by simpa using outside)
    here := setSlot_slots_self rfl (setBytes_bytes_of_ne _ (Ne.symm other)) }

/-! ## Filling the slots the operations choose -/

/-- Nothing before the slot of an entry is an end marker. -/
theorem Sound.visible_before (sound : v.Sound) (dir : v.Dir p) (slot : (v.slots p)[i]? = some e)
    (used : e.inUse = true) : ∀ (j : Nat) (f : Dirent), j < i → (v.slots p)[j]? = some f →
      f.name0 ≠ 0 := by
  intro j f before slot' ends
  rw [sound.zeroTail p dir j i f e before slot' ends slot] at used
  cases used

theorem fillable_of_slot (slot : (v.slots p)[i]? = some e)
    (file : e.inUse = true → e.isDirectory = false) (named : e.inUse = true → e.isDots = false)
    (before : ∀ (j : Nat) (f : Dirent), j < i → (v.slots p)[j]? = some f → f.name0 ≠ 0) :
    v.Fillable p i where
  inside := by
    have := (List.getElem?_eq_some_iff.mp slot).1
    rwa [length_slots] at this
  file := by
    intro f slot'
    rw [slot] at slot'
    cases slot'
    exact file
  named := by
    intro f slot'
    rw [slot] at slot'
    cases slot'
    exact named
  visible := before

theorem Sound.fillable_write (sound : v.Sound) {start : Nat} {locals : Locals} {path : CStr}
    {pl : Place} (place : v.place start locals path.1 = some pl) (placed : v.Placed pl e)
    (file : e.inUse = true → e.isDirectory = false) : v.Fillable pl.parent pl.slot := by
  obtain ⟨-, -, -, -, chosen⟩ := place_eq_some place
  refine fillable_of_slot placed.slot file placed.not_dots ?_
  cases existing : pl.existing with
  | true => exact sound.visible_before placed.dir placed.slot (placed.used.trans existing)
  | false =>
      rw [existing] at chosen
      obtain ⟨-, -, before, -⟩ := choose_free chosen
      exact fun j f early slot => (before j early f slot).1

/-! ## What the operations store -/

/-- An entry with the name of a printable text is in use. -/
theorem inUse_of_name {name : Name83} (same : e.name = name) (marked : name.1.getD 0 0 ≠ 0)
    (undeleted : name.1.getD 0 0 ≠ 0xE5) : e.inUse = true := by
  simp only [Dirent.inUse, Bool.and_eq_true, bne_iff_ne, Dirent.name0_of_eq same]
  exact ⟨marked, undeleted⟩

theorem storable_entry {name : Name83} (same : e'.name = name) (marked : name.1.getD 0 0 ≠ 0)
    (undeleted : name.1.getD 0 0 ≠ 0xE5) (proper : name ≠ dotName ∧ name ≠ dotdotName)
    (short : e'.attributes ≠ attrLfn)
    (chain : e'.firstCluster ≠ 0 → v'.ChainFrom e'.firstCluster taken)
    (none : e'.firstCluster = 0 → taken = []) : v'.Storable e' taken where
  marked := by rw [Dirent.name0_of_eq same]; exact marked
  cleared := by
    rw [inUse_of_name same marked undeleted]
    intro impossible
    cases impossible
  short := fun _ => short
  named := by
    intro _
    simp [Dirent.isDots, same, proper.1, proper.2]
  chain := chain
  none := none

theorem firstCluster_deleted (e : Dirent) : e.deleted.firstCluster = 0 := by
  show (0 : UInt16).toNat * 2 ^ 16 + (0 : UInt16).toNat = 0
  decide

theorem storable_deleted (e : Dirent) : v'.Storable e.deleted [] where
  marked := (by decide : (0xE5 : UInt8) ≠ 0)
  cleared := fun _ => firstCluster_deleted e
  short := fun used => by cases used
  named := fun used => by cases used
  chain := fun full => absurd (firstCluster_deleted e) full
  none := fun _ => rfl

end Vol

end XosKernel.Fat32
