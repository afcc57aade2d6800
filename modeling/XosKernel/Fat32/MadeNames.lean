/-
# Fat32.MadeNames -- no two entries of one name

`fat32_mkdir` asks path navigation whether a name exists, and `fat32_write` compares packed
names.  As long as no last component ends in its only dot, the two lookups see the same entry
of a directory (`lookups_agree`), and no sequence of the two calls puts a second entry of the
same eleven bytes into a live directory (`names_agree_iff`).  `mkdir a` and `mkdir a.` do.

The runs start from any volume whose directories are in order (`Vol.Orderly`).  They leave out what
destroys directories in other ways: a new directory without a parent, and a write that releases or
takes a cluster of a directory or matches one.
-/
import XosKernel.Fat32.DeletePath
import XosKernel.Fat32.Directories
import XosKernel.Fat32.NameMatch

namespace XosKernel.Fat32

open XosKernel.Theory

set_option autoImplicit false

/-! ## Lookups in a directory -/

/-- A search sees only entries in use. -/
theorem lookup_congr {test test' : Dirent → Bool} {l : List Dirent}
    (same : ∀ e ∈ l, e.inUse = true → test e = test' e) : lookup test l = lookup test' l := by
  have scans : ∀ (l : List Dirent) (k : Nat), (∀ e ∈ l, e.inUse = true → test e = test' e) →
      scanLive test l k = scanLive test' l k := by
    intro l
    induction l with
    | nil => exact fun _ _ => rfl
    | cons e l ih =>
        intro k same
        have rest := ih (k + 1) fun f member => same f (List.mem_cons_of_mem _ member)
        unfold scanLive
        split
        · rfl
        · split
          · exact rest
          · have used : e.inUse = true := by
              apply Dirent.inUse_of_visible
              · assumption
              · simpa using ‹¬ e.skipped = true›
            rw [same e List.mem_cons_self used, rest]
  unfold lookup
  rw [scans l 0 same]

theorem lookup_none_of_false {test : Dirent → Bool} {l : List Dirent}
    (never : ∀ e ∈ l, e.inUse = true → test e = false) : lookup test l = none := by
  by_contra some
  obtain ⟨⟨i, e⟩, found⟩ := Option.ne_none_iff_exists'.mp some
  obtain ⟨slot, marked, visible, passed, -⟩ := lookup_eq_some.mp found
  rw [never e (List.mem_of_getElem? slot) (Dirent.inUse_of_visible marked visible)] at passed
  cases passed

/-- A directory whose entries are `.`, `..` and packed names, with nothing behind the end
marker. -/
structure Tidy (l : List Dirent) : Prop where
  packed : ∀ e ∈ l, e.inUse = true → e.isDots = true ∨
    ∃ text, Plain text ∧ makeName83 text = some e.name
  ended : ∀ (i j : Nat) (e f : Dirent), i < j → l[i]? = some e → e.name0 = 0 → l[j]? = some f →
    f.inUse = false

/-- `.` and `..` match no other text. -/
theorem nameMatch_dots {e : Dirent} (dots : e.isDots = true) {text : List UInt8}
    (found : nameMatch e text = true) : text = [dot] ∨ text = [dot, dot] := by
  have single : ∀ c ∈ [dot], c = dot := by simp
  have double : ∀ c ∈ [dot, dot], c = dot := by simp
  rw [Dirent.isDots, Bool.or_eq_true, beq_iff_eq, beq_iff_eq] at dots
  rcases dots with name | name
  · refine .inl (eq_of_nameMatch_dots single found ?_)
    unfold nameMatch formatName
    rw [name]
    decide
  · refine .inr (eq_of_nameMatch_dots double found ?_)
    unfold nameMatch formatName
    rw [name]
    decide

section Lookups

variable {l : List Dirent} (tidy : Tidy l) {text : List UInt8} (plain : Plain text)
  (noFinal : ¬ EndsInDot text) (notUp : text ≠ [dot, dot])
include tidy plain noFinal notUp

/-- On the entries of a tidy directory the two comparisons agree. -/
theorem nameMatch_iff_made {e : Dirent} (member : e ∈ l) (used : e.inUse = true) :
    nameMatch e text = true ↔ makeName83 text = some e.name := by
  rcases tidy.packed e member used with dots | ⟨text', plain', made⟩
  · constructor
    · intro found
      rcases nameMatch_dots dots found with rfl | rfl
      · exact absurd ⟨[], rfl, by simp, by simp⟩ noFinal
      · exact absurd rfl notUp
    · intro made
      have proper := makeName83_not_dots made
      simp [Dirent.isDots, proper.1, proper.2] at dots
  · exact (matches_made_iff plain).mpr noFinal e text' plain' made

/-- Path navigation finds the entry that open and delete find, and that write overwrites. -/
theorem lookups_agree :
    lookup (nameMatch · text) l =
        (makeName83 text).bind (fun name => lookup (fun e => e.name = name) l) ∧
      ∀ i, (∃ e, lookup (nameMatch · text) l = some (i, e)) ↔
        ∃ name, makeName83 text = some name ∧ choose name l = some (i, true) := by
  have agree := fun e member used =>
    @nameMatch_iff_made l tidy text plain noFinal notUp e member used
  have same : lookup (nameMatch · text) l =
      (makeName83 text).bind (fun name => lookup (fun e => e.name = name) l) := by
    cases made : makeName83 text with
    | none =>
        refine lookup_none_of_false fun e member used => ?_
        by_contra found
        have packed := (agree e member used).mp (by simpa using found)
        rw [made] at packed
        cases packed
    | some name =>
        refine lookup_congr fun e member used => ?_
        have pair := agree e member used
        rw [made, Option.some.injEq] at pair
        by_cases here : e.name = name
        · simp [pair.mpr here.symm, here]
        · simp [mt pair.mp (Ne.symm here), here]
  refine ⟨same, fun i => ?_⟩
  rw [same]
  constructor
  · rintro ⟨e, found⟩
    obtain ⟨name, made, found⟩ := Option.bind_eq_some_iff.mp found
    exact ⟨name, made, choose_of_lookup found⟩
  · rintro ⟨name, made, chosen⟩
    have fresh : ¬ Stale name l := by
      rintro ⟨k, m, j, s, t, e, -, late, -, -, at_m, ends, at_j, visible, named, -⟩
      have shown : e.name0 ≠ 0 := by
        rw [Dirent.name0_of_eq named]
        exact makeName83_not_end plain.noNul made
      have used := Dirent.inUse_of_visible shown visible
      rw [tidy.ended m j t e late at_m ends at_j] at used
      cases used
    obtain ⟨e, found⟩ := lookup_of_choose chosen (makeName83_not_end plain.noNul made) fresh
    exact ⟨e, Option.bind_eq_some_iff.mpr ⟨name, made, found⟩⟩

end Lookups

/-! ## Entries of one name -/

/-- An entry that stands for a name: not free, and no part of a long name. -/
def Dirent.Named (e : Dirent) : Prop := e.name0 ≠ 0 ∧ e.skipped = false

theorem Dirent.Named.inUse {e : Dirent} (named : e.Named) : e.inUse = true :=
  Dirent.inUse_of_visible named.1 named.2

namespace Vol

variable {v v' : Vol} {p i : Nat} {old taken : List Nat}

/-- No live directory holds two entries of the same eleven bytes. -/
def NoTwins (v : Vol) : Prop :=
  ∀ c, v.Dir c → ∀ (j k : Nat) (f g : Dirent), j ≠ k → (v.slots c)[j]? = some f →
    (v.slots c)[k]? = some g → f.Named → g.Named → f.name ≠ g.name

/-- Every live directory is one cluster with nothing in use behind the end marker, and holds no two
entries of the same eleven bytes. -/
structure Orderly (v : Vol) : Prop where
  chain : ∀ c, v.Dir c → v.ChainFrom c [c]
  ended : ∀ c, v.Dir c → ∀ (j k : Nat) (f g : Dirent), j < k → (v.slots c)[j]? = some f →
    f.name0 = 0 → (v.slots c)[k]? = some g → g.inUse = false
  noTwins : v.NoTwins

namespace Orderly

variable (orderly : v.Orderly)
include orderly

theorem inRange {c : Nat} (dir : v.Dir c) : v.InRange c :=
  (orderly.chain c dir).valid_of_mem c List.mem_cons_self

theorem not_free {c : Nat} (dir : v.Dir c) : v.fat c ≠ 0 :=
  (orderly.chain c dir).fat_ne_zero c List.mem_cons_self

/-- Nothing before an entry in use is an end marker. -/
theorem before {c k : Nat} {g : Dirent} (dir : v.Dir c) (slot : (v.slots c)[k]? = some g)
    (used : g.inUse = true) (j : Nat) (early : j < k) (f : Dirent)
    (slot' : (v.slots c)[j]? = some f) : f.name0 ≠ 0 := by
  intro ends
  rw [orderly.ended c dir j k f g early slot' ends slot] at used
  cases used

/-- A search for what an entry of the directory passes finds one. -/
theorem lookup_slot {c j : Nat} {f : Dirent} {test : Dirent → Bool} (dir : v.Dir c)
    (slot : (v.slots c)[j]? = some f) (named : f.Named) (passed : test f = true) :
    lookup test (v.slots c) ≠ none :=
  lookup_ne_none slot named.1 named.2 passed fun m early g at_m =>
    orderly.before dir slot named.inUse m early g at_m

end Orderly

/-- What may be stored in the slot `i` of the directory `p`: an entry that is no end marker; and
if it is in use, no end marker stands before the slot and no other slot has its name, and it names
no directory but a new one. -/
structure Fits (v v' : Vol) (p i : Nat) (e : Dirent) : Prop where
  marked : e.name0 ≠ 0
  front : e.inUse = true → ∀ (j : Nat) (f : Dirent), j < i → (v.slots p)[j]? = some f → f.name0 ≠ 0
  unique : e.Named → ∀ (j : Nat) (f : Dirent), j ≠ i → (v.slots p)[j]? = some f → f.Named →
    f.name ≠ e.name
  made : e.inUse = true → e.isDirectory = true → v'.NewDirectory p e.firstCluster

/-- A new directory holds one `.` and one `..`. -/
theorem NewDirectory.noTwins {c : Nat} (fresh : v.NewDirectory p c) {j k : Nat} {f g : Dirent}
    (other : j ≠ k) (at_j : (v.slots c)[j]? = some f) (at_k : (v.slots c)[k]? = some g)
    (named : f.Named) (named' : g.Named) : f.name ≠ g.name := by
  have different : dotName ≠ dotdotName := by decide
  rcases fresh.slot_cases at_j with ⟨rfl, rfl⟩ | ⟨rfl, rfl⟩ | rfl
  · rcases fresh.slot_cases at_k with ⟨rfl, rfl⟩ | ⟨rfl, rfl⟩ | rfl
    · exact absurd rfl other
    · exact different
    · exact absurd rfl named'.1
  · rcases fresh.slot_cases at_k with ⟨rfl, rfl⟩ | ⟨rfl, rfl⟩ | rfl
    · exact Ne.symm different
    · exact absurd rfl other
    · exact absurd rfl named'.1
  · exact absurd rfl named.1

/-- The end marker of a new directory stands behind `.` and `..`. -/
theorem NewDirectory.ended {c : Nat} (fresh : v.NewDirectory p c) {j k : Nat} {f g : Dirent}
    (late : j < k) (at_j : (v.slots c)[j]? = some f) (ends : f.name0 = 0)
    (at_k : (v.slots c)[k]? = some g) : g.inUse = false := by
  rcases fresh.slot_cases at_k with ⟨rfl, -⟩ | ⟨rfl, -⟩ | rfl
  · omega
  · obtain rfl : j = 0 := by omega
    rw [fresh.slots] at at_j
    cases at_j
    cases ends
  · rfl

section Refilled

variable (refilled : v.Refilled v' p i old taken) (orderly : v.Orderly)
  (apart : ∀ c, v.Dir c → c ∉ old ∧ c ∉ taken)
  (stored : v.Dir p → ∀ e, (v'.slots p)[i]? = some e →
    (v.slots p)[i]? = some e ∨ v.Fits v' p i e)
include refilled apart stored

/-- The directories afterwards. -/
theorem Refilled.dir_cases {a b : Nat} (isDir : v'.IsDir a b) :
    v.Dir b ∨ v'.NewDirectory p b := by
  induction isDir with
  | root =>
      rw [refilled.root]
      exact .inl ⟨_, .root⟩
  | @sub q c j f parent slot used named directory ih =>
      rcases ih with was | fresh
      · have kept : (v.slots c)[j]? = some f → v.Dir f.firstCluster := by
          intro slot
          obtain ⟨a, isDir⟩ := was
          exact ⟨c, .sub isDir slot used named directory⟩
        by_cases here : (c, j) = (p, i)
        · cases here
          rcases stored was f slot with same | fits
          · exact .inl (kept same)
          · exact .inr (fits.made used directory)
        · rw [refilled.slots c (apart c was).2 j here] at slot
          exact .inl (kept slot)
      · rw [fresh.no_entry slot used] at named
        cases named

include orderly

theorem Refilled.ended {c j k : Nat} {f g : Dirent} (dir : v.Dir c) (late : j < k)
    (at_j : (v'.slots c)[j]? = some f) (ends : f.name0 = 0) (at_k : (v'.slots c)[k]? = some g) :
    g.inUse = false := by
  have same := refilled.slots c (apart c dir).2
  by_cases first : (c, j) = (p, i)
  · cases first
    rw [same k fun both => by cases both; omega] at at_k
    rcases stored dir f at_j with at_j | fits
    · exact orderly.ended p dir i k f g late at_j ends at_k
    · exact absurd ends fits.marked
  rw [same j first] at at_j
  by_cases second : (c, k) = (p, i)
  · cases second
    rcases stored dir g at_k with at_k | fits
    · exact orderly.ended p dir j i f g late at_j ends at_k
    · by_contra used
      exact fits.front (by simpa using used) j f late at_j ends
  · rw [same k second] at at_k
    exact orderly.ended c dir j k f g late at_j ends at_k

theorem Refilled.noTwins {c j k : Nat} {f g : Dirent} (dir : v.Dir c) (other : j ≠ k)
    (at_j : (v'.slots c)[j]? = some f) (at_k : (v'.slots c)[k]? = some g) (named : f.Named)
    (named' : g.Named) : f.name ≠ g.name := by
  have same := refilled.slots c (apart c dir).2
  by_cases first : (c, j) = (p, i)
  · cases first
    rw [same k fun both => by cases both; exact other rfl] at at_k
    rcases stored dir f at_j with at_j | fits
    · exact orderly.noTwins p dir i k f g other at_j at_k named named'
    · exact (fits.unique named k g other.symm at_k named').symm
  rw [same j first] at at_j
  by_cases second : (c, k) = (p, i)
  · cases second
    rcases stored dir g at_k with at_k | fits
    · exact orderly.noTwins p dir j i f g other at_j at_k named named'
    · exact fits.unique named' j f other at_j named
  · rw [same k second] at at_k
    exact orderly.noTwins c dir j k f g other at_j at_k named named'

/-- A call that takes no cluster of a directory, and stores at most an entry that fits, leaves the
directories in order. -/
theorem Refilled.keepsOrder : v'.Orderly := by
  have cases_ : ∀ {c}, v'.Dir c → v.Dir c ∨ v'.NewDirectory p c :=
    fun ⟨_, isDir⟩ => refilled.dir_cases apart stored isDir
  refine ⟨fun c dir => ?_, fun c dir j k f g late at_j ends at_k => ?_,
    fun c dir j k f g other at_j at_k named named' => ?_⟩
  · rcases cases_ dir with was | fresh
    · refine (orderly.chain c was).frame refilled.total fun x member => ?_
      rw [List.mem_singleton.mp member]
      exact refilled.fat c (apart c was).1 (apart c was).2
    · exact fresh.chain
  · rcases cases_ dir with was | fresh
    · exact refilled.ended orderly apart stored was late at_j ends at_k
    · exact fresh.ended late at_j ends at_k
  · rcases cases_ dir with was | fresh
    · exact refilled.noTwins orderly apart stored was other at_j at_k named named'
    · exact fresh.noTwins other at_j at_k named named'

end Refilled

/-- The slot of a buffer that an entry was stored in holds the entry. -/
theorem slot_setBytes_store {w : Vol} {b : Buf} {e f : Dirent}
    (slot : ((w.setBytes p (Dirent.store b (i * direntSize) e)).slots p)[i]? = some f) : f = e := by
  have inside := (List.getElem?_eq_some_iff.mp slot).1
  rw [length_slots] at inside
  have inside : i < w.spc * 16 := inside
  rw [slots_setBytes_self, List.getElem?_map, List.getElem?_range inside, Option.map_some,
    Dirent.load_store] at slot
  exact (Option.some.inj slot).symm

/-- A write leaves its slot, or puts a file of the name into it. -/
theorem writeOver_slot {t : WriteTarget} {data : List UInt8} {e : Dirent}
    (slot : ((v.writeOver t old data).2.slots t.parentCluster)[t.slot]? = some e) :
    (v.slots t.parentCluster)[t.slot]? = some e ∨
      (e.name = t.name ∧ e.attributes = attrArchive) := by
  unfold writeOver at slot
  by_cases empty : data = []
  · simp only [if_pos empty] at slot
    exact .inr (slot_setBytes_store slot ▸ ⟨rfl, rfl⟩)
  simp only [if_neg empty] at slot
  cases result : (v.freeAll old).allocate (clustersNeeded v.clusterSize data.length) with
  | mk res w =>
      rw [result] at slot
      cases res with
      | none =>
          rw [allocate_none result] at slot
          exact .inl slot
      | some first => exact .inr (slot_setBytes_store slot ▸ ⟨rfl, rfl⟩)

end Vol

/-! ## One call -/

section Steps

variable {d d' : Driver} (good : d.Good) (orderly : d.vol.Orderly)
include good orderly

omit good in
/-- An entry under the name that a write packs fits into the slot that its scan chooses. -/
theorem write_fits {t : WriteTarget} {v' : Vol} {e : Dirent} (dir : d.vol.Dir t.parentCluster)
    (chosen : choose t.name (d.vol.slots t.parentCluster) = some (t.slot, t.existing))
    (marked : t.name.1.getD 0 0 ≠ 0) (named : e.name = t.name) (file : e.attributes = attrArchive) :
    d.vol.Fits v' t.parentCluster t.slot e := by
  have shown : e.name0 ≠ 0 := by
    rw [Dirent.name0_of_eq named]
    exact marked
  have noDirectory : e.isDirectory = false := by
    rw [Dirent.isDirectory, file]
    decide
  have notMade : e.inUse = true → e.isDirectory = true →
      v'.NewDirectory t.parentCluster e.firstCluster := by
    intro _ directory
    rw [noDirectory] at directory
    cases directory
  cases existing : t.existing with
  | true =>
      rw [existing] at chosen
      obtain ⟨f, slot, visible, same, -⟩ := choose_existing chosen
      have live : f.Named := ⟨by rw [Dirent.name0_of_eq same]; exact marked, visible⟩
      refine ⟨shown, fun _ j g early at_j => orderly.before dir slot live.inUse j early g at_j,
        fun _ j g other at_j named' => ?_, notMade⟩
      rw [named, ← same]
      exact orderly.noTwins _ dir j _ g f other at_j slot named' live
  | false =>
      rw [existing] at chosen
      obtain ⟨f, slot, before, how⟩ := choose_free chosen
      refine ⟨shown, fun _ j g early at_j => (before j early g at_j).1,
        fun _ j g other at_j named' => ?_, notMade⟩
      rw [named]
      rcases how with ends | ⟨-, -, all⟩
      · by_cases early : j < t.slot
        · exact (before j early g at_j).2.2
        · have used := named'.inUse
          rw [orderly.ended _ dir t.slot j f g (by omega) slot ends at_j] at used
          cases used
      · rcases all j g at_j with skip | differs
        · rw [named'.2] at skip
          cases skip
        · exact differs

/-- `fat32_write`, whatever it returns. -/
theorem write_orderly {path : CStr} {locals : Locals} {data : List UInt8} {r : Int}
    (spares : WriteSparesDirectories d locals path data)
    (returned : (fat32Write locals path data).run d = .ok (r, d')) :
    d'.Good ∧ d'.vol.Orderly := by
  cases target : d.writeSlot locals (d.navigated path.1) with
  | none =>
      obtain ⟨-, idle⟩ := (fat32Write_untargeted good.noFault good.geometry.roomy path good.mounted
        target data).of_returned returned
      rw [Driver.vol_of_idle idle]
      exact ⟨Driver.good_of_idle idle good, orderly⟩
  | some t =>
      obtain ⟨-, -, root, parent, old, clears, apart⟩ := spares t target
      obtain ⟨contents, chosen⟩ := Driver.writeSlot_contents good target parent
      obtain ⟨-, vol, good'⟩ :=
        (fat32Write_writes good target root parent clears data).of_returned returned
      have marked : t.name.1.getD 0 0 ≠ 0 := by
        rw [Driver.writeSlot_navigated] at target
        obtain ⟨p, -, target⟩ := Option.bind_eq_some_iff.mp target
        obtain ⟨n, made, target⟩ := Option.bind_eq_some_iff.mp target
        obtain ⟨s, -, rfl⟩ := Option.map_eq_some_iff.mp target
        exact writtenName_marked made
      have refilled := Vol.writeOver_refilled old data good.geometry.range_lt_end contents
      rw [vol]
      refine ⟨good', refilled.keepsOrder orderly (fun c dir => apart c ⟨c, dir, .start⟩) ?_⟩
      intro dir e slot
      refine (Vol.writeOver_slot slot).imp_right fun stored => ?_
      exact write_fits orderly dir chosen marked stored.1 stored.2

/-- A directory is made only under a name that no entry has. -/
theorem mkdir_unique {path : List UInt8} {p : Nat} {name : Name83}
    (parent : d.parentOf path = some p) (dir : d.vol.Dir p)
    (plain : Plain (lastComponent slash path)) (noFinal : ¬ EndsInDot (lastComponent slash path))
    (fresh : (d.navigated path).result ≠ 1)
    (made : makeName83 (lastComponent slash path) = some name) (j : Nat) (f : Dirent)
    (slot : (d.vol.slots p)[j]? = some f) (named : f.Named) : f.name ≠ name := by
  rintro rfl
  have found := match_of_made plain plain made noFinal made
  have seen : lookup (nameMatch · (lastComponent slash path)) (d.vol.slots p) ≠ none :=
    orderly.lookup_slot dir slot named found
  rw [← Driver.listing_eq_slots good (orderly.inRange dir)] at seen
  obtain ⟨hit, some⟩ := Option.ne_none_iff_exists'.mp seen
  have entry : d.find p (lastComponent slash path) = .some hit.2 := by
    rw [Driver.find, some]
    rfl
  refine fresh ?_
  simp only [Driver.navigated, parent, if_neg plain.nonempty, entry]

omit orderly in
/-- What `fat32_mkdir` leaves when the path has a parent in use: nothing, a cluster that is free
again with other contents, or a new directory. -/
theorem mkdir_leaves {path : CStr} {locals : Locals} {p : Nat} {r : Int}
    (root : d.vol.InRange d.vol.root) (parent : d.parentOf path.1 = some p)
    (range : d.vol.InRange p) (used : d.vol.fat p ≠ 0) (last : lastComponent slash path.1 ≠ [])
    (returned : (fat32Mkdir locals path).run d = .ok (r, d')) :
    d'.Good ∧ (d'.vol = d.vol ∨ ∃ c, c ∈ d.vol.freeClusters ∧ c ≠ p ∧
      ((∃ b, d'.vol = d.vol.setBytes c b) ∨ ∃ name i, (d.navigated path.1).result ≠ 1 ∧
        makeName83 ((lastComponent slash path.1).take 255) = some name ∧
        scanFree (d.vol.slots p) 0 = some i ∧
        d'.vol = (d.vol.withDirectory c p).setSlot p i (Dirent.newDirectory name c))) := by
  obtain ⟨nav, d₁, ran, is, -⟩ := navigatePath_navigates good.noFault good.geometry.roomy path.1
  have idle := navigatePath_keeps steady_idle _ _ _ _ ran
  have vol := Driver.vol_of_idle idle
  have good₁ := Driver.good_of_idle idle good
  have directory := navigated_parent parent
  obtain ⟨-, file⟩ := navigated_entry parent last
  rw [← is] at directory file
  by_cases fresh : nav.result = 1
  · rw [fat32Mkdir_exists good.mounted ran fresh] at returned
    cases returned
    exact ⟨good₁, .inl vol⟩
  rw [fat32Mkdir_after good.mounted ran fresh, directory, file] at returned
  obtain ⟨a, d₂, allocating, rest⟩ := bind_returns returned
  obtain ⟨rfl, linked⟩ := (allocateClusterChain_runs good₁ 1).of_returned allocating
  rw [vol] at linked rest
  cases free : d.vol.freeClusters with
  | nil =>
      have failed : d.vol.allocate 1 = (none, d.vol) := by
        simp [Vol.allocate, free, Vol.linkTo, relink]
      rw [failed] at linked rest
      cases rest
      exact ⟨linked.good, .inl linked.vol_eq⟩
  | cons c l =>
      have allocated : d.vol.allocate 1 = (some c, d.vol.setFat c 0x0FFFFFFF) := by
        simp [Vol.allocate, free, Vol.linkTo, relink, Vol.setFat]
      obtain ⟨inside, unused⟩ := Vol.mem_freeClusters.mp (free ▸ List.mem_cons_self)
      have other : c ≠ p := by
        rintro rfl
        exact used unused
      rw [allocated] at linked rest
      have result := (mkdirAllocated_runs linked.good linked.vol_eq range root inside unused
        other.symm).of_returned rest
      simp only [Option.getD_some] at result
      cases made : makeName83 ((lastComponent slash path.1).take 255) with
      | none =>
          rw [made] at result
          exact ⟨result.2.good, .inr ⟨c, List.mem_cons_self, other, .inl ⟨_, result.2.vol_eq⟩⟩⟩
      | some name =>
          rw [made] at result
          simp only at result
          cases slot : scanFree (d.vol.slots p) 0 with
          | none =>
              rw [slot] at result
              exact ⟨result.2.good, .inr ⟨c, List.mem_cons_self, other, .inl ⟨_, result.2.vol_eq⟩⟩⟩
          | some i =>
              rw [slot] at result
              refine ⟨result.2.good, .inr ⟨c, List.mem_cons_self, other, .inr ⟨name, i, ?_⟩⟩⟩
              exact ⟨is ▸ fresh, rfl, rfl, result.2.vol_eq⟩

/-- `fat32_mkdir`, whatever it returns. -/
theorem mkdir_orderly {path : CStr} {locals : Locals} {p : Nat} {r : Int}
    (parent : d.parentOf path.1 = some p) (range : d.vol.InRange p) (used : d.vol.fat p ≠ 0)
    (plain : Plain (lastComponent slash path.1))
    (noFinal : ¬ EndsInDot (lastComponent slash path.1))
    (returned : (fat32Mkdir locals path).run d = .ok (r, d')) :
    d'.Good ∧ d'.vol.Orderly := by
  have root : d.vol.InRange d.vol.root := orderly.inRange ⟨_, .root⟩
  obtain ⟨good', same | ⟨c, free, other, leaves⟩⟩ :=
    mkdir_leaves good root parent range used plain.nonempty returned
  · rw [same]
    exact ⟨good', orderly⟩
  obtain ⟨-, unused⟩ := Vol.mem_freeClusters.mp free
  have apart : ∀ x, d.vol.Dir x → x ∉ ([] : List Nat) ∧ x ∉ [c] := by
    intro x dir
    refine ⟨List.not_mem_nil, fun member => orderly.not_free dir ?_⟩
    rwa [List.mem_singleton.mp member]
  rcases leaves with ⟨b, vol⟩ | ⟨name, i, fresh, made, scanned, vol⟩
  · have refilled : d.vol.Refilled d'.vol p d.vol.spc [] [c] := by
      rw [vol]
      refine ⟨rfl, rfl, fun _ _ _ => rfl, fun a outside j _ => ?_⟩
      rw [Vol.slots_setBytes_of_ne (by simpa using outside)]
    refine ⟨good', refilled.keepsOrder orderly apart fun dir e slot => .inl ?_⟩
    rw [vol, Vol.slots_setBytes_of_ne other.symm] at slot
    exact slot
  · have whole := take_of_made plain made
    rw [whole] at made
    obtain ⟨n, f, index, slot, available, before⟩ := Vol.scanFree_eq_some scanned
    rw [Nat.zero_add] at index
    subst index
    have refilled : d.vol.Refilled d'.vol p i [] [c] := by
      rw [vol]
      refine ⟨rfl, rfl, fun x _ outside => Function.update_of_ne (by simpa using outside) _ _,
        fun a outside j ne => ?_⟩
      refine Vol.slots_setBytes_store rfl (fun k _ => ?_) (fun _ => ?_) ne
      · exact congrFun (Vol.setBytes_bytes_of_ne _ other.symm) k
      · exact Vol.setBytes_bytes_of_ne _ (by simpa using outside)
    refine ⟨good', refilled.keepsOrder orderly apart fun dir e slot' => .inr ?_⟩
    rw [vol] at slot'
    obtain rfl := Vol.slot_setBytes_store slot'
    have number : (Dirent.newDirectory name c).firstCluster = c := by
      refine Dirent.firstCluster_newDirectory name ?_
      have := (Vol.mem_freeClusters.mp free).1.2
      have small : d.vol.total + 2 ≤ 0x0FFFFFF8 := good.geometry.range_lt_end
      omega
    refine ⟨makeName83_not_end plain.noNul made, fun _ j g early at_j => (before j early g at_j).1,
      fun _ j g _ at_j named => mkdir_unique good orderly parent dir plain noFinal fresh made j g
        at_j named, fun _ _ => ?_⟩
    rw [number, vol]
    exact Vol.newDirectory_made good.geometry.one_le_spc name free other

omit orderly in
/-- `fat32_chdir` leaves the volume alone. -/
theorem chdir_keeps_volume {path : CStr} {r : Int}
    (returned : (fat32Chdir path).run d = .ok (r, d')) : d'.Good ∧ d'.vol = d.vol := by
  unfold fat32Chdir at returned
  obtain ⟨_, _, got, returned⟩ := bind_returns returned
  cases got
  rw [if_pos good.mounted] at returned
  obtain ⟨nav, d₁, walked, returned⟩ := bind_returns returned
  have idle := navigatePath_keeps steady_idle _ _ _ _ walked
  have good₁ := Driver.good_of_idle idle good
  have vol := Driver.vol_of_idle idle
  cases found : nav.entry with
  | none =>
      rw [found] at returned
      cases returned
      exact ⟨good₁, vol⟩
  | some e =>
      rw [found] at returned
      simp only at returned
      split at returned
      · obtain ⟨_, d₂, moved, rest⟩ := bind_returns returned
        obtain ⟨_, d₃, texted, last⟩ := bind_returns rest
        cases moved
        cases last
        rw [updatePath_returns texted]
        exact ⟨good₁.setCurrent e.firstCluster _, vol⟩
      · cases returned
        exact ⟨good₁, vol⟩

end Steps

/-! ## Runs -/

/-- The calls considered: a directory is made in a parent that exists and is in use, under a plain
last component that does not end in its only dot; a write matches no directory, and releases and
takes no cluster of one. -/
def Call.Careful (d : Driver) (locals : Locals) : Call → Prop
  | .mkdir path => (∃ p, d.parentOf path.1 = some p ∧ d.vol.InRange p ∧ d.vol.fat p ≠ 0) ∧
      Plain (lastComponent slash path.1) ∧ ¬ EndsInDot (lastComponent slash path.1)
  | .write path data => WriteSparesDirectories d locals path data
  | .create path => WriteSparesDirectories d locals path []
  | .chdir _ => True
  | .delete _ => False

/-- `CarefulRun d calls d'`: the calls, one after the other and whatever they return, lead from
`d` to `d'`. -/
inductive CarefulRun : Driver → List Call → Driver → Prop
  | done (d : Driver) : CarefulRun d [] d
  | call {d d₁ d₂ : Driver} {c : Call} {rest : List Call} {r : Int} (locals : Locals)
      (careful : c.Careful d locals) (returned : (c.run locals).run d = .ok (r, d₁))
      (after : CarefulRun d₁ rest d₂) : CarefulRun d (c :: rest) d₂

/-- One call leaves the directories in order. -/
theorem call_orderly {d d' : Driver} (good : d.Good) (orderly : d.vol.Orderly)
    {c : Call} {locals : Locals} (careful : c.Careful d locals) {r : Int}
    (returned : (c.run locals).run d = .ok (r, d')) : d'.Good ∧ d'.vol.Orderly := by
  cases c with
  | mkdir path =>
      obtain ⟨⟨p, parent, range, used⟩, plain, noFinal⟩ := careful
      exact mkdir_orderly good orderly parent range used plain noFinal returned
  | write path data => exact write_orderly good orderly careful returned
  | create path => exact write_orderly good orderly careful returned
  | chdir path =>
      obtain ⟨good', vol⟩ := chdir_keeps_volume good returned
      rw [vol]
      exact ⟨good', orderly⟩
  | delete path => exact absurd careful id

theorem CarefulRun.orderly {d d' : Driver} {calls : List Call}
    (run : CarefulRun d calls d') :
    d.Good → d.vol.Orderly → d'.Good ∧ d'.vol.Orderly := by
  induction run with
  | done d => exact fun good orderly => ⟨good, orderly⟩
  | call locals careful returned _ ih =>
      intro good orderly
      obtain ⟨good₁, orderly₁⟩ := call_orderly good orderly careful returned
      exact ih good₁ orderly₁

/-- A well-formed volume without twins is in order. -/
theorem WellFormed.orderly {d : Driver} (wf : WellFormed d) (twins : d.vol.NoTwins) :
    d.vol.Orderly where
  chain := wf.owned.oneCluster
  ended := by
    intro c dir j k f g late at_j ends at_k
    rw [wf.owned.zeroTail c dir j k f g late at_j ends at_k]
    rfl
  noTwins := twins

/-- For every plain text, matching and packing agree on all packed entries exactly if the text
does not end in its only dot.  For such a text other than `..`, the lookups of path navigation,
of open and delete, and of write see the same entry of every tidy directory.  And from every volume
whose directories are in order, no run of calls that makes directories under such names only, in
parents that exist, and whose writes spare the directories puts two entries of the same eleven
bytes into one directory. -/
theorem names_agree_iff {text : List UInt8} (plain : Plain text) :
    ((∀ (e : Dirent) text', Plain text' → makeName83 text' = some e.name →
      (nameMatch e text = true ↔ makeName83 text = some e.name)) ↔ ¬ EndsInDot text) ∧
    (¬ EndsInDot text → text ≠ [dot, dot] → ∀ l, Tidy l →
      lookup (nameMatch · text) l =
          (makeName83 text).bind (fun name => lookup (fun e => e.name = name) l) ∧
        ∀ i, (∃ e, lookup (nameMatch · text) l = some (i, e)) ↔
          ∃ name, makeName83 text = some name ∧ choose name l = some (i, true)) ∧
    (∀ d calls d', d.Good → d.vol.Orderly → CarefulRun d calls d' → d'.vol.NoTwins) :=
  ⟨matches_made_iff plain,
    fun noFinal notUp _ tidy => lookups_agree tidy plain noFinal notUp,
    fun _ _ _ good orderly run => (run.orderly good orderly).2.noTwins⟩

theorem formatted_orderly : formatted.vol.Orderly := by
  refine formatted_wellFormed.orderly fun c _ j k f g _ at_j _ named => ?_
  have used := named.inUse
  rw [formatted_slots c at_j] at used
  cases used

/-- `mkdir a` on the formatted volume. -/
theorem one_directory_alone : ∃ d', CarefulRun formatted [.mkdir (.ofBytes [0x61])] d' ∧
    d'.vol.NoTwins := by
  have made : Runs.check (fat32Mkdir .blank (.ofBytes [0x61])) formatted (fun r _ => r = 0) =
      true := by decide +kernel
  obtain ⟨r, d', ran, -⟩ := Runs.of_check made
  have parent : ∃ p, formatted.parentOf [0x61] = some p ∧ formatted.vol.InRange p ∧
      formatted.vol.fat p ≠ 0 := by
    have root : formatted.vol.Dir 2 := ⟨2, .root⟩
    exact ⟨2, by decide +kernel, formatted_orderly.inRange root, formatted_orderly.not_free root⟩
  have plain : Plain [0x61] := ⟨by decide, by decide, by decide, by decide, by simp⟩
  have noFinal : ¬ EndsInDot [0x61] := by
    rintro ⟨base, split, -⟩
    have dots : dot ∈ [(0x61 : UInt8)] := by
      rw [split]
      exact List.mem_append_right _ List.mem_cons_self
    exact absurd dots (by decide)
  have run : CarefulRun formatted [.mkdir (.ofBytes [0x61])] d' :=
    .call .blank ⟨parent, plain, noFinal⟩ ran (.done d')
  exact ⟨d', run,
    (names_agree_iff plain).2.2 _ _ _ formatted_wellFormed.good formatted_orderly run⟩

/-- The entries of the first two slots of the root directory have the same name. -/
def rootTwins (v : Vol) : Bool :=
  match (v.slots v.root)[0]?, (v.slots v.root)[1]? with
  | some e, some f => !e.skipped && !f.skipped && e.name0 != 0 && e.name == f.name
  | _, _ => false

theorem not_noTwins_of_check {v : Vol} (passed : rootTwins v = true) : ¬ v.NoTwins := by
  intro twins
  unfold rootTwins at passed
  split at passed
  · next e f first second =>
      simp only [Bool.and_eq_true, Bool.not_eq_true', bne_iff_ne, beq_iff_eq] at passed
      obtain ⟨⟨⟨visible, visible'⟩, marked⟩, same⟩ := passed
      have marked' : f.name0 ≠ 0 := by
        rw [Dirent.name0_of_eq same.symm]
        exact marked
      exact twins v.root ⟨_, .root⟩ 0 1 e f (by decide) first second ⟨marked, visible⟩
        ⟨marked', visible'⟩ same
  · cases passed

/-- `a.` is packed like `a` but does not match its entry, so `mkdir a.` after `mkdir a` makes a
second entry of the same eleven bytes. -/
theorem final_dot_makes_twins :
    (∃ e : Dirent, makeName83 [0x61] = some e.name ∧
      ¬ (nameMatch e [0x61, dot] = true ↔ makeName83 [0x61, dot] = some e.name)) ∧
    ∃ d', (fat32Mkdir .blank (.ofBytes [0x61, dot])).run withA = .ok (0, d') ∧
      ¬ d'.vol.NoTwins := by
  constructor
  · exact ⟨Dirent.newFile (packName [0x61] []), by decide, by decide⟩
  · have made : Runs.check (fat32Mkdir .blank (.ofBytes [0x61, dot])) withA
        (fun r d' => r = 0 && rootTwins d'.vol) = true := by decide +kernel
    obtain ⟨r, d', ran, holds⟩ := Runs.of_check made
    rw [Bool.and_eq_true] at holds
    obtain rfl := of_decide_eq_true holds.1
    exact ⟨d', ran, not_noTwins_of_check holds.2⟩

end XosKernel.Fat32
