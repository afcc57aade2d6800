/-
# Fat32.Ownership -- which entry owns which clusters

The live directories of a volume are the root and what is reached from it through directory
entries other than `.` and `..` (`Vol.IsDir`, with the parent); the live entries are the ones
in their slots (`Vol.Live`).  The root and every live entry with a first cluster own the
chain from it (`Vol.Owns`).  `Vol.Sound` is the ownership invariant: owned chains end, they
are pairwise disjoint, and slots without an entry own nothing.  `Vol.Owned` adds what path
navigation relies on: one cluster a directory, and `.` and `..` entries that tell the truth.

Every operation that changes the volume fills or empties one slot (`Vol.Replaced`).
`Replaced.sound` and `Replaced.owned` say when that keeps the invariant; the operations only
have to name the slot and the clusters they take and give back.
-/
import XosKernel.Fat32.Allocation
import XosKernel.Fat32.DirSpec
import XosKernel.Fat32.Paths

namespace XosKernel.Fat32

open XosKernel.Theory

set_option autoImplicit false

/-- A slot that holds an entry. -/
def Dirent.inUse (e : Dirent) : Bool := e.name0 != 0 && e.name0 != 0xE5

/-- An entry that is neither an end marker nor passed over is in use. -/
theorem Dirent.inUse_of_visible {e : Dirent} (marked : e.name0 ≠ 0) (visible : e.skipped = false) :
    e.inUse = true := by
  have undeleted : e.name0 ≠ 0xE5 := by
    intro deleted
    simp [Dirent.skipped, deleted] at visible
  simp [Dirent.inUse, marked, undeleted]

/-- The entries `.` and `..`. -/
def Dirent.isDots (e : Dirent) : Bool := e.name == dotName || e.name == dotdotName

theorem Dirent.firstCluster_lt (e : Dirent) : e.firstCluster < 2 ^ 32 := by
  have high := e.firstClusterHigh.toNat_lt
  have low := e.firstClusterLow.toNat_lt
  simp only [Dirent.firstCluster]
  omega

theorem Dirent.firstCluster_newDirectory (name : Name83) {cluster : Nat}
    (bound : cluster < 2 ^ 32) : (Dirent.newDirectory name cluster).firstCluster = cluster :=
  Dirent.firstCluster_setFirstCluster _ cluster bound

namespace Vol

variable {v v' : Vol}

/-! ## Live directories and entries -/

/-- `v.IsDir p d`: the cluster `d` is a live directory with parent `p`.  The root is its
own parent. -/
inductive IsDir (v : Vol) : Nat → Nat → Prop
  | root : IsDir v v.root v.root
  | sub {p d i : Nat} {e : Dirent} (parent : IsDir v p d) (slot : (v.slots d)[i]? = some e)
      (used : e.inUse = true) (named : e.isDots = false) (directory : e.isDirectory = true) :
      IsDir v d e.firstCluster

/-- A live directory. -/
def Dir (v : Vol) (d : Nat) : Prop := ∃ p, v.IsDir p d

/-- The slot `i` of the directory `d` holds the live entry `e`. -/
structure Live (v : Vol) (d i : Nat) (e : Dirent) : Prop where
  dir : v.Dir d
  slot : (v.slots d)[i]? = some e
  used : e.inUse = true
  named : e.isDots = false

/-- What owns the chain from a cluster: the root directory (`none`), or the entry in a
slot. -/
inductive Owns (v : Vol) : Option (Nat × Nat) → Nat → Prop
  | root : Owns v none v.root
  | entry {d i : Nat} {e : Dirent} (live : v.Live d i e) (nonempty : e.firstCluster ≠ 0) :
      Owns v (some (d, i)) e.firstCluster

/-- The ownership invariant. -/
structure Sound (v : Vol) : Prop where
  chains : ∀ o c, v.Owns o c → ∃ l, v.ChainFrom c l
  disjoint : ∀ o o' c c' l l', v.Owns o c → v.Owns o' c' → o ≠ o' →
    v.ChainFrom c l → v.ChainFrom c' l' → l.Disjoint l'
  directories : ∀ d i e, v.Live d i e → e.isDirectory = true → e.firstCluster ≠ 0
  noLongNames : ∀ d, v.Dir d → ∀ (i : Nat) (e : Dirent), (v.slots d)[i]? = some e →
    e.inUse = true → e.attributes ≠ attrLfn
  clean : ∀ d, v.Dir d → ∀ (i : Nat) (e : Dirent), (v.slots d)[i]? = some e →
    e.inUse = false → e.firstCluster = 0
  zeroTail : ∀ d, v.Dir d → ∀ (i j : Nat) (e e' : Dirent), i < j → (v.slots d)[i]? = some e →
    e.name0 = 0 → (v.slots d)[j]? = some e' → e' = Dirent.zero

/-- The invariant with what navigation relies on. -/
structure Owned (v : Vol) : Prop extends Sound v where
  oneCluster : ∀ d, v.Dir d → v.ChainFrom d [d]
  dots : ∀ p d, v.IsDir p d → ∀ (i : Nat) (e : Dirent), (v.slots d)[i]? = some e →
    e.inUse = true →
    (e.name = dotName → e.firstCluster = d) ∧ (e.name = dotdotName → e.firstCluster = p)

/-- An allocated cluster that no live entry owns. -/
def Leaked (v : Vol) (x : Nat) : Prop :=
  v.InRange x ∧ v.fat x ≠ 0 ∧ ∀ o c l, v.Owns o c → v.ChainFrom c l → x ∉ l

theorem IsDir.parent {p d : Nat} (h : v.IsDir p d) : v.Dir p := by
  cases h with
  | root => exact ⟨_, .root⟩
  | sub parent _ _ _ _ => exact ⟨_, parent⟩

theorem Live.subdirectory {d i : Nat} {e : Dirent} (live : v.Live d i e)
    (directory : e.isDirectory = true) : v.IsDir d e.firstCluster := by
  obtain ⟨p, parent⟩ := live.dir
  exact .sub parent live.slot live.used live.named directory

theorem Owns.first_eq {d i c : Nat} {e : Dirent} (owns : v.Owns (some (d, i)) c)
    (live : v.Live d i e) : c = e.firstCluster := by
  cases owns with
  | entry live' _ =>
      have same := live'.slot
      rw [live.slot] at same
      cases same
      rfl

/-- An allocated cluster of a chain is not free. -/
theorem ChainFrom.fat_ne_zero {c : Nat} {l : List Nat} (chain : v.ChainFrom c l) :
    ∀ x, x ∈ l → v.fat x ≠ 0 := by
  intro x member
  rcases chain.next_of_mem x member with ends | range
  · omega
  · have := range.1
    omega

namespace Sound

/-- A live directory owns its cluster, through the root or through a directory entry. -/
theorem owns_dir (sound : v.Sound) {d : Nat} (dir : v.Dir d) :
    ∃ o, v.Owns o d ∧ ∀ p i e, o = some (p, i) → (v.slots p)[i]? = some e →
      e.isDirectory = true := by
  obtain ⟨p, isDir⟩ := dir
  cases isDir with
  | root =>
      refine ⟨none, .root, ?_⟩
      intro p i e impossible
      cases impossible
  | @sub q _ i e parent slot used named directory =>
      have live : v.Live p i e := ⟨⟨q, parent⟩, slot, used, named⟩
      refine ⟨some (p, i), .entry live (sound.directories p i e live directory), ?_⟩
      rintro _ _ e' ⟨rfl, rfl⟩ slot'
      rw [slot] at slot'
      cases slot'
      exact directory

theorem chain_dir (sound : v.Sound) {d : Nat} (dir : v.Dir d) : ∃ l, v.ChainFrom d l := by
  obtain ⟨o, owns, -⟩ := sound.owns_dir dir
  exact sound.chains o d owns

theorem inRange_dir (sound : v.Sound) {d : Nat} (dir : v.Dir d) : v.InRange d := by
  obtain ⟨l, chain⟩ := sound.chain_dir dir
  exact chain.valid_of_mem d chain.head_mem

theorem fat_dir_ne_zero (sound : v.Sound) {d : Nat} (dir : v.Dir d) : v.fat d ≠ 0 := by
  obtain ⟨l, chain⟩ := sound.chain_dir dir
  exact chain.fat_ne_zero d chain.head_mem

/-- The chain of a slot without a directory entry visits no directory. -/
theorem dir_not_mem (sound : v.Sound) {p i c d : Nat} {l : List Nat}
    (owns : v.Owns (some (p, i)) c) (file : ∀ e, (v.slots p)[i]? = some e → e.isDirectory = false)
    (chain : v.ChainFrom c l) (dir : v.Dir d) : d ∉ l := by
  obtain ⟨o, owner, directory⟩ := sound.owns_dir dir
  obtain ⟨m, chain'⟩ := sound.chains o d owner
  have other : some (p, i) ≠ o := by
    rintro rfl
    cases owner with
    | entry live _ =>
        have isDir := directory p i _ rfl live.slot
        rw [file _ live.slot] at isDir
        cases isDir
  have apart := sound.disjoint _ _ _ _ _ _ owns owner other chain chain'
  exact fun member => apart member chain'.head_mem

/-- Different slots have different first clusters. -/
theorem owner_unique (sound : v.Sound) {o o' : Option (Nat × Nat)} {c : Nat} (owns : v.Owns o c)
    (owns' : v.Owns o' c) : o = o' := by
  by_contra different
  obtain ⟨l, chain⟩ := sound.chains o c owns
  exact sound.disjoint o o' c c l l owns owns' different chain chain chain.head_mem
    chain.head_mem

/-- No directory holds an entry for itself, apart from `.` and `..`. -/
theorem no_self (sound : v.Sound) {p d : Nat} (isDir : v.IsDir p d) :
    ∀ i e, v.Live d i e → e.firstCluster ≠ d := by
  induction isDir with
  | root =>
      intro i e live same
      have full : e.firstCluster ≠ 0 := by
        have := (sound.inRange_dir live.dir).1
        omega
      have owns := Owns.entry live full
      rw [same] at owns
      cases sound.owner_unique owns .root
  | @sub p d j e' parent slot used named directory ih =>
      intro i e live same
      have live' : v.Live d j e' := ⟨⟨p, parent⟩, slot, used, named⟩
      have owns' := Owns.entry live' (sound.directories d j e' live' directory)
      have owns := Owns.entry live (by rw [same]; exact sound.directories d j e' live' directory)
      rw [same] at owns
      -- the two entries are the same one, so it already stood in its own parent
      cases sound.owner_unique owns owns'
      exact ih _ e' live' rfl

/-- The chain of an entry does not visit the directory that holds the entry. -/
theorem parent_not_mem (sound : v.Sound) {d i : Nat} {e : Dirent} {l : List Nat}
    (live : v.Live d i e) (chain : v.ChainFrom e.firstCluster l) : d ∉ l := by
  intro member
  have full : e.firstCluster ≠ 0 := by
    have := (chain.valid_of_mem _ chain.head_mem).1
    omega
  obtain ⟨o, owner, -⟩ := sound.owns_dir live.dir
  obtain ⟨m, chain'⟩ := sound.chains o d owner
  by_cases same : some (d, i) = o
  · subst same
    obtain ⟨p, isDir⟩ := live.dir
    exact sound.no_self isDir i e live (owner.first_eq live).symm
  · exact sound.disjoint _ _ _ _ _ _ (.entry live full) owner same chain chain' member
      chain'.head_mem

end Sound

/-! ## Navigation stays on live directories -/

theorem find_slot {c : Nat} {name : List UInt8} {e : Dirent} (found : v.find c name = some e) :
    ∃ i : Nat, (v.slots c)[i]? = some e ∧ e.inUse = true := by
  unfold find at found
  rw [Option.map_eq_some_iff] at found
  obtain ⟨⟨i, e'⟩, hit, rfl⟩ := found
  obtain ⟨slot, marked, visible, -, -⟩ := lookup_eq_some.mp hit
  exact ⟨i, slot, Dirent.inUse_of_visible marked visible⟩

/-- The live directories are closed under navigation. -/
theorem Owned.closed (owned : v.Owned) : v.Closed v.Dir := by
  intro c dir
  refine ⟨owned.inRange_dir dir, ?_⟩
  intro name e found directory
  obtain ⟨i, slot, used⟩ := find_slot found
  obtain ⟨p, isDir⟩ := dir
  have dots := owned.dots p c isDir i e slot used
  by_cases dot : e.name = dotName
  · rw [dots.1 dot]
    exact ⟨p, isDir⟩
  · by_cases dotdot : e.name = dotdotName
    · rw [dots.2 dotdot]
      exact isDir.parent
    · have named : e.isDots = false := by simp [Dirent.isDots, dot, dotdot]
      exact ⟨c, .sub isDir slot used named directory⟩

/-! ## Filling a slot -/

/-- `v'` is `v` with the slot `i` of the directory `p` set to `e`: the other live slots and
the links of the chains they own are as they were. -/
structure Replaced (v v' : Vol) (p i : Nat) (e : Dirent) : Prop where
  spc : v'.spc = v.spc
  total : v'.total = v.total
  root : v'.root = v.root
  dir : v.Dir p
  here : v'.slots p = (v.slots p).set i e
  elsewhere : ∀ d, v.Dir d → d ≠ p → v'.slots d = v.slots d
  links : ∀ o c l, v.Owns o c → o ≠ some (p, i) → v.ChainFrom c l →
    ∀ x, x ∈ l → v'.fat x = v.fat x

/-- What may stand in a slot that is filled: nothing that hides other slots, no directory,
and neither `.` nor `..`. -/
structure Fillable (v : Vol) (p i : Nat) : Prop where
  inside : i < v.spc * 16
  file : ∀ e, (v.slots p)[i]? = some e → e.inUse = true → e.isDirectory = false
  named : ∀ e, (v.slots p)[i]? = some e → e.inUse = true → e.isDots = false
  visible : ∀ (j : Nat) (e : Dirent), j < i → (v.slots p)[j]? = some e → e.name0 ≠ 0

/-- What a filled slot may hold: a deleted entry without clusters, or an ordinary entry
whose chain no other live entry owns. -/
structure Filling (v v' : Vol) (p i : Nat) (e : Dirent) : Prop where
  marked : e.name0 ≠ 0
  cleared : e.inUse = false → e.firstCluster = 0
  short : e.inUse = true → e.attributes ≠ attrLfn
  named : e.inUse = true → e.isDots = false
  chain : e.inUse = true → e.firstCluster ≠ 0 → ∃ l, v'.ChainFrom e.firstCluster l ∧
    ∀ o c m, v.Owns o c → o ≠ some (p, i) → v.ChainFrom c m → l.Disjoint m

/-- A directory just made in the directory `p`: `.` and `..` and zeros. -/
structure NewDirectory (v : Vol) (p d : Nat) : Prop where
  slots : v.slots d = Dirent.newDirectory dotName d :: Dirent.newDirectory dotdotName p ::
    List.replicate (v.spc * 16 - 2) Dirent.zero
  chain : v.ChainFrom d [d]

/-- What the slots of a new directory hold. -/
theorem NewDirectory.slot_cases {p d j : Nat} {e : Dirent} (fresh : v.NewDirectory p d)
    (slot : (v.slots d)[j]? = some e) :
    (j = 0 ∧ e = Dirent.newDirectory dotName d) ∨ (j = 1 ∧ e = Dirent.newDirectory dotdotName p) ∨
      e = Dirent.zero := by
  rw [fresh.slots] at slot
  rcases j with _ | _ | j
  · exact .inl ⟨rfl, (Option.some.inj slot).symm⟩
  · exact .inr (.inl ⟨rfl, (Option.some.inj slot).symm⟩)
  · simp only [List.getElem?_cons_succ, List.getElem?_replicate] at slot
    split at slot
    · exact .inr (.inr (Option.some.inj slot).symm)
    · cases slot

/-- A new directory holds no entries but `.` and `..`. -/
theorem NewDirectory.no_entry {p d j : Nat} {e : Dirent} (fresh : v.NewDirectory p d)
    (slot : (v.slots d)[j]? = some e) (used : e.inUse = true) : e.isDots = true := by
  rcases fresh.slot_cases slot with ⟨-, rfl⟩ | ⟨-, rfl⟩ | rfl
  · rfl
  · rfl
  · cases used

theorem ChainFrom.frame {c : Nat} {l : List Nat} (chain : v.ChainFrom c l)
    (total : v'.total = v.total) (same : ∀ x, x ∈ l → v'.fat x = v.fat x) :
    v'.ChainFrom c l := by
  have range : v'.InRange = v.InRange := by
    funext x
    simp only [InRange, total]
  unfold ChainFrom
  rw [range]
  exact Chain.congr chain same

namespace Replaced

variable {p i : Nat} {e : Dirent}

/-- The slots of a live directory afterwards. -/
theorem slot_iff (r : v.Replaced v' p i e) (inside : i < v.spc * 16) {d : Nat} (dir : v.Dir d)
    (j : Nat) (e' : Dirent) :
    (v'.slots d)[j]? = some e' ↔
      if d = p ∧ j = i then e' = e else (v.slots d)[j]? = some e' := by
  by_cases parent : d = p
  · subst parent
    rw [r.here]
    by_cases same : j = i
    · subst same
      rw [if_pos ⟨rfl, rfl⟩, List.getElem?_set_self (by rw [length_slots]; exact inside)]
      exact ⟨fun h => (Option.some.inj h).symm, fun h => by rw [h]⟩
    · rw [if_neg fun both => same both.2, List.getElem?_set_ne (Ne.symm same)]
  · rw [r.elsewhere d dir parent, if_neg fun both => parent both.1]

theorem isDir_mono (r : v.Replaced v' p i e) (fillable : v.Fillable p i) {a b : Nat}
    (h : v.IsDir a b) : v'.IsDir a b := by
  induction h with
  | root => rw [← r.root]; exact .root
  | @sub q d j e' parent slot used named directory ih =>
      refine .sub (i := j) ih ?_ used named directory
      rw [r.slot_iff fillable.inside ⟨q, parent⟩, if_neg]
      · exact slot
      · rintro ⟨rfl, rfl⟩
        rw [fillable.file e' slot used] at directory
        cases directory

/-- The live directories afterwards: those from before, and the one made. -/
theorem isDir_iff (r : v.Replaced v' p i e) (fillable : v.Fillable p i)
    (filling : v.Filling v' p i e)
    (made : e.inUse = true → e.isDirectory = true → v'.NewDirectory p e.firstCluster)
    {a b : Nat} :
    v'.IsDir a b ↔ v.IsDir a b ∨
      (e.inUse = true ∧ e.isDirectory = true ∧ a = p ∧ b = e.firstCluster) := by
  constructor
  · intro h
    induction h with
    | root => rw [r.root]; exact .inl .root
    | @sub q d j e' parent slot used named directory ih =>
        rcases ih with old | ⟨newUsed, isDir, rfl, rfl⟩
        · rw [r.slot_iff fillable.inside ⟨q, old⟩] at slot
          split at slot
          · obtain ⟨⟨rfl, rfl⟩, rfl⟩ := And.intro ‹d = p ∧ j = i› slot
            exact .inr ⟨used, directory, rfl, rfl⟩
          · exact .inl (.sub old slot used named directory)
        · rw [(made newUsed isDir).no_entry slot used] at named
          cases named
  · rintro (old | ⟨used, directory, rfl, rfl⟩)
    · exact r.isDir_mono fillable old
    · obtain ⟨q, parent⟩ := r.dir
      refine .sub (i := i) (r.isDir_mono fillable parent) ?_ used (filling.named used) directory
      rw [r.slot_iff fillable.inside ⟨q, parent⟩, if_pos ⟨rfl, rfl⟩]

section Preservation

variable (r : v.Replaced v' p i e) (fillable : v.Fillable p i) (filling : v.Filling v' p i e)
  (made : e.inUse = true → e.isDirectory = true → v'.NewDirectory p e.firstCluster)
include r fillable filling made

/-- The directories afterwards, without their parents. -/
theorem dir_cases {d : Nat} (dir : v'.Dir d) :
    v.Dir d ∨ (e.inUse = true ∧ e.isDirectory = true ∧ d = e.firstCluster ∧
      v'.NewDirectory p d) := by
  obtain ⟨q, isDir⟩ := dir
  rcases (r.isDir_iff fillable filling made).mp isDir with old | ⟨used, directory, rfl, rfl⟩
  · exact .inl ⟨q, old⟩
  · exact .inr ⟨used, directory, rfl, made used directory⟩

/-- The live entries afterwards: the others from before, and the one stored. -/
theorem live_iff {d j : Nat} {e' : Dirent} :
    v'.Live d j e' ↔
      (v.Live d j e' ∧ (d, j) ≠ (p, i)) ∨ ((d, j) = (p, i) ∧ e' = e ∧ e.inUse = true) := by
  constructor
  · intro live
    rcases r.dir_cases fillable filling made live.dir with old | ⟨-, -, -, fresh⟩
    · have slot := (r.slot_iff fillable.inside old j e').mp live.slot
      split at slot
      · obtain ⟨⟨rfl, rfl⟩, rfl⟩ := And.intro ‹d = p ∧ j = i› slot
        exact .inr ⟨rfl, rfl, live.used⟩
      · rename_i other
        refine .inl ⟨⟨old, slot, live.used, live.named⟩, ?_⟩
        rintro ⟨rfl, rfl⟩
        exact other ⟨rfl, rfl⟩
    · have named := live.named
      rw [fresh.no_entry live.slot live.used] at named
      cases named
  · have still : ∀ {d}, v.Dir d → v'.Dir d := fun ⟨q, old⟩ => ⟨q, r.isDir_mono fillable old⟩
    rintro (⟨live, other⟩ | ⟨same, rfl, used⟩)
    · refine ⟨still live.dir, ?_, live.used, live.named⟩
      rw [r.slot_iff fillable.inside live.dir, if_neg]
      · exact live.slot
      · rintro ⟨rfl, rfl⟩
        exact other rfl
    · cases same
      refine ⟨still r.dir, ?_, used, filling.named used⟩
      rw [r.slot_iff fillable.inside r.dir, if_pos ⟨rfl, rfl⟩]

/-- The owners afterwards. -/
theorem owns_iff {o : Option (Nat × Nat)} {c : Nat} :
    v'.Owns o c ↔ (v.Owns o c ∧ o ≠ some (p, i)) ∨
      (o = some (p, i) ∧ c = e.firstCluster ∧ e.firstCluster ≠ 0 ∧ e.inUse = true) := by
  constructor
  · intro owns
    cases owns with
    | root => rw [r.root]; exact .inl ⟨.root, by simp⟩
    | @entry d j e' live nonempty =>
        rcases (r.live_iff fillable filling made).mp live with ⟨old, other⟩ | ⟨same, rfl, used⟩
        · exact .inl ⟨.entry old nonempty, fun h => other (Option.some.inj h)⟩
        · exact .inr ⟨by rw [same], rfl, nonempty, used⟩
  · rintro (⟨owns, other⟩ | ⟨rfl, rfl, nonempty, used⟩)
    · cases owns with
      | root => rw [← r.root]; exact .root
      | @entry d j e' live nonempty =>
          refine .entry ((r.live_iff fillable filling made).mpr (.inl ⟨live, ?_⟩)) nonempty
          exact fun h => other (by rw [h])
    · exact .entry ((r.live_iff fillable filling made).mpr (.inr ⟨rfl, rfl, used⟩)) nonempty

/-- The chain of an owner afterwards: the one it had, or the one of the stored entry. -/
theorem chain_cases (sound : v.Sound) {o : Option (Nat × Nat)} {c : Nat} {l : List Nat}
    (owns : v'.Owns o c) (chain : v'.ChainFrom c l) :
    (v.Owns o c ∧ o ≠ some (p, i) ∧ v.ChainFrom c l) ∨
      (o = some (p, i) ∧ ∀ o c m, v.Owns o c → o ≠ some (p, i) → v.ChainFrom c m →
        l.Disjoint m) := by
  rcases (r.owns_iff fillable filling made).mp owns with ⟨old, other⟩ | ⟨rfl, rfl, full, used⟩
  · obtain ⟨m, chain'⟩ := sound.chains o c old
    have kept := chain'.frame r.total (r.links o c m old other chain')
    cases kept.deterministic chain
    exact .inl ⟨old, other, chain'⟩
  · obtain ⟨m, chain', apart⟩ := filling.chain used full
    cases chain'.deterministic chain
    exact .inr ⟨rfl, apart⟩

theorem zeroTail (sound : v.Sound) {d : Nat} (dir : v'.Dir d) {j k : Nat} {a b : Dirent}
    (before : j < k) (slot : (v'.slots d)[j]? = some a) (ends : a.name0 = 0)
    (slot' : (v'.slots d)[k]? = some b) : b = Dirent.zero := by
  rcases r.dir_cases fillable filling made dir with old | ⟨-, -, -, fresh⟩
  · rw [r.slot_iff fillable.inside old] at slot slot'
    split at slot
    · exact absurd ends (by rw [slot]; exact filling.marked)
    · split at slot'
      · obtain ⟨⟨rfl, rfl⟩, rfl⟩ := And.intro ‹d = p ∧ k = i› slot'
        exact absurd ends (fillable.visible j a before slot)
      · exact sound.zeroTail d old j k a b before slot ends slot'
  · rcases fresh.slot_cases slot with ⟨-, rfl⟩ | ⟨-, rfl⟩ | rfl
    · cases ends
    · cases ends
    · rcases fresh.slot_cases slot' with ⟨rfl, -⟩ | ⟨rfl, -⟩ | zero
      · omega
      · have first : j = 0 := by omega
        subst first
        rw [fresh.slots] at slot
        cases slot
      · exact zero

/-- Filling a slot keeps the ownership invariant. -/
theorem sound (sound : v.Sound) : v'.Sound where
  chains := by
    intro o c owns
    rcases (r.owns_iff fillable filling made).mp owns with ⟨old, other⟩ | ⟨rfl, rfl, full, used⟩
    · obtain ⟨l, chain⟩ := sound.chains o c old
      exact ⟨l, chain.frame r.total (r.links o c l old other chain)⟩
    · obtain ⟨l, chain, -⟩ := filling.chain used full
      exact ⟨l, chain⟩
  disjoint := by
    intro o o' c c' l l' owns owns' different chain chain'
    rcases r.chain_cases fillable filling made sound owns chain with
      ⟨old, other, was⟩ | ⟨rfl, apart⟩ <;>
    rcases r.chain_cases fillable filling made sound owns' chain' with
      ⟨old', other', was'⟩ | ⟨rfl, apart'⟩
    · exact sound.disjoint o o' c c' l l' old old' different was was'
    · exact fun x inside inside' => apart' o c l old other was inside' inside
    · exact apart o' c' l' old' other' was'
    · exact absurd rfl different
  directories := by
    intro d j e' live directory
    rcases (r.live_iff fillable filling made).mp live with ⟨old, -⟩ | ⟨-, rfl, used⟩
    · exact sound.directories d j e' old directory
    · have range := (made used directory).chain.valid_of_mem e'.firstCluster (by simp)
      have := range.1
      omega
  noLongNames := by
    intro d dir j e' slot used
    rcases r.dir_cases fillable filling made dir with old | ⟨-, -, -, fresh⟩
    · rw [r.slot_iff fillable.inside old] at slot
      split at slot
      · rw [slot] at used ⊢
        exact filling.short used
      · exact sound.noLongNames d old j e' slot used
    · rcases fresh.slot_cases slot with ⟨-, rfl⟩ | ⟨-, rfl⟩ | rfl
      · exact (by decide : attrDirectory ≠ attrLfn)
      · exact (by decide : attrDirectory ≠ attrLfn)
      · cases used
  clean := by
    intro d dir j e' slot unused
    rcases r.dir_cases fillable filling made dir with old | ⟨-, -, -, fresh⟩
    · rw [r.slot_iff fillable.inside old] at slot
      split at slot
      · rw [slot] at unused ⊢
        exact filling.cleared unused
      · exact sound.clean d old j e' slot unused
    · rcases fresh.slot_cases slot with ⟨-, rfl⟩ | ⟨-, rfl⟩ | rfl
      · cases unused
      · cases unused
      · rfl
  zeroTail := by
    intro d dir j k a b before slot ends slot'
    exact r.zeroTail fillable filling made sound dir before slot ends slot'

/-- Filling a slot keeps what navigation relies on. -/
theorem owned (small : p < 2 ^ 32) (owned : v.Owned) : v'.Owned where
  toSound := r.sound fillable filling made owned.toSound
  oneCluster := by
    intro d dir
    rcases r.dir_cases fillable filling made dir with old | ⟨-, -, -, fresh⟩
    · obtain ⟨o, owns, directory⟩ := owned.owns_dir old
      refine (owned.oneCluster d old).frame r.total
        (r.links o d [d] owns ?_ (owned.oneCluster d old))
      -- the slot that is filled holds no directory
      rintro rfl
      cases owns with
      | entry live _ =>
          have isDir := directory p i _ rfl live.slot
          rw [fillable.file _ live.slot live.used] at isDir
          cases isDir
    · exact fresh.chain
  dots := by
    intro q d isDir j e' slot used
    rcases (r.isDir_iff fillable filling made).mp isDir with old | ⟨newUsed, directory, rfl, rfl⟩
    · rw [r.slot_iff fillable.inside ⟨q, old⟩] at slot
      split at slot
      · rw [slot] at used ⊢
        have named := filling.named used
        simp only [Dirent.isDots, Bool.or_eq_false_iff, beq_eq_false_iff_ne] at named
        exact ⟨fun h => absurd h named.1, fun h => absurd h named.2⟩
      · exact owned.dots q d old j e' slot used
    · have fresh := made newUsed directory
      rcases fresh.slot_cases slot with ⟨-, rfl⟩ | ⟨-, rfl⟩ | rfl
      · refine ⟨fun _ => Dirent.firstCluster_newDirectory dotName e.firstCluster_lt, fun h => ?_⟩
        exact absurd h (by decide : dotName ≠ dotdotName)
      · refine ⟨fun h => ?_, fun _ => Dirent.firstCluster_newDirectory dotdotName small⟩
        exact absurd h (by decide : dotdotName ≠ dotName)
      · cases used

/-- Nothing leaks when the clusters in use afterwards are those of the new chain and those
in use before, without the old chain. -/
theorem leaked
    (accounted : ∀ x, v'.fat x ≠ 0 →
      (∃ l, e.inUse = true ∧ v'.ChainFrom e.firstCluster l ∧ x ∈ l) ∨
      (v.fat x ≠ 0 ∧ ∀ c l, v.Owns (some (p, i)) c → v.ChainFrom c l → x ∉ l))
    {x : Nat} (leak : v'.Leaked x) : v.Leaked x := by
  obtain ⟨range, allocated, unowned⟩ := leak
  have range' : v.InRange x := by simpa only [InRange, r.total] using range
  rcases accounted x allocated with ⟨l, used, chain, member⟩ | ⟨was, outside⟩
  · have full : e.firstCluster ≠ 0 := by
      have := (chain.valid_of_mem _ chain.head_mem).1
      omega
    have owns := (r.owns_iff fillable filling made).mpr (.inr ⟨rfl, rfl, full, used⟩)
    exact absurd member (unowned _ _ l owns chain)
  · refine ⟨range', was, ?_⟩
    intro o c l owns chain member
    by_cases here : o = some (p, i)
    · subst here
      exact outside c l owns chain member
    · have kept := chain.frame r.total (r.links o c l owns here chain)
      exact unowned o c l ((r.owns_iff fillable filling made).mpr (.inl ⟨owns, here⟩)) kept member

end Preservation

end Replaced

end Vol

end XosKernel.Fat32
