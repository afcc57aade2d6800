/-
# Fat32.RoundTrip -- what is written is read back

A path of one component is resolved without a walk: write and open search the same
directory, the one by path navigation, the other directly (`navigates_component`).  The slot
that write filled is the first visible one of its name, so open finds it
(`openMatch_written`), and a file of at most one cluster is delivered as it was written
(`write_then_read`).
-/
import XosKernel.Fat32.Calls
import XosKernel.Fat32.ReadSpec

namespace XosKernel.Fat32

open XosKernel.Theory

set_option autoImplicit false

/-! ## Paths of one component -/

theorem Vol.walk_single {v : Vol} : ∀ (path : List UInt8) (c : Nat) (component : List UInt8),
    slash ∉ path → component.length + path.length ≤ 255 →
    v.walk path c component = some (c, component ++ path)
  | [], c, component, _, _ => by rw [List.append_nil]; rfl
  | ch :: path, c, component, noSlash, short => by
      rw [List.mem_cons, not_or] at noSlash
      rw [List.length_cons] at short
      unfold Vol.walk
      rw [if_neg (Ne.symm noSlash.1), if_pos (by omega),
        Vol.walk_single path c _ noSlash.2 (by simp; omega)]
      simp

/-- A path that is one name, with or without a leading slash. -/
structure IsComponent (path name : List UInt8) : Prop where
  shape : path = name ∨ path = slash :: name
  nonempty : name ≠ []
  noSlash : slash ∉ name
  short : name.length ≤ 255

theorem IsComponent.skipSlash_eq {path name : List UInt8} (h : IsComponent path name) :
    skipSlash path = name := by
  rcases h.shape with rfl | rfl
  · exact skipSlash_of_not_mem h.noSlash
  · change (if slash = slash then name else slash :: name) = name
    exact if_pos rfl

theorem Vol.navigate_single {v : Vol} {path name : List UInt8} (h : IsComponent path name)
    (start : Nat) :
    (v.navigate start path).parentCluster = some start ∧
      (v.navigate start path).filename = some name ∧ ¬ (v.navigate start path).result < 0 := by
  have walked := Vol.walk_single (v := v) name start [] h.noSlash (by simpa using h.short)
  rw [List.nil_append] at walked
  unfold Vol.navigate
  rw [h.skipSlash_eq, walked]
  cases name with
  | nil => exact absurd rfl h.nonempty
  | cons ch rest =>
      simp only
      cases v.find start (ch :: rest) with
      | none => exact ⟨rfl, rfl, (by decide : ¬ (0 : Int) < 0)⟩
      | some e => exact ⟨rfl, rfl, (by decide : ¬ (1 : Int) < 0)⟩

/-- Navigation of one component searches the directory it starts in, and no other. -/
theorem navigates_component {d : Driver} (good : d.Good) {S : Nat → Prop} {path name : List UInt8}
    (h : IsComponent path name) (inside : S (d.fs.startCluster path))
    (range : d.vol.InRange (d.fs.startCluster path)) : Navigates d S path where
  runs := by
    have walked := Vol.walk_single (v := d.vol) name (d.fs.startCluster path) [] h.noSlash
      (by simpa using h.short)
    unfold navigatePath Vol.navigate
    refine Runs.get_bind ?_
    rw [h.skipSlash_eq, walked, walkPath_component name _ [] h.noSlash (by simpa using h.short)]
    rw [List.nil_append]
    cases name with
    | nil => exact absurd rfl h.nonempty
    | cons ch rest =>
        refine Runs.step rfl ?_
        refine Runs.bind (findInDirectory_runs good range (ch :: rest)) ?_
        rintro found d₁ ⟨looked, effect⟩
        simp only
        rw [← show found = d.vol.find (d.fs.startCluster path) (ch :: rest) from looked]
        cases found with
        | none => exact Runs.pure ⟨rfl, effect⟩
        | some e => exact Runs.pure ⟨rfl, effect⟩
  reaches := fun _ => ⟨_, (Vol.navigate_single h _).1, inside⟩

/-! ## The slot that was written -/

namespace Vol

variable {v : Vol} {p i : Nat} {e e' : Dirent} {name : Name83}

/-- Before the chosen slot there is neither an end marker nor a visible entry of the name. -/
theorem Sound.before_place (sound : v.Sound) {start : Nat} {locals : Locals} {path : CStr}
    {pl : Place} (place : v.place start locals path.1 = some pl) (placed : v.Placed pl e) :
    ∀ m, m < pl.slot → ∀ f, (v.slots pl.parent)[m]? = some f →
      f.name0 ≠ 0 ∧ misses pl.name f := by
  obtain ⟨-, -, -, -, chosen⟩ := place_eq_some place
  intro m early f at_m
  cases existing : pl.existing with
  | true =>
      rw [existing] at chosen
      obtain ⟨-, -, -, -, before⟩ := choose_existing chosen
      exact ⟨sound.visible_before placed.dir placed.slot (placed.used.trans existing) m f early
        at_m, before m early f at_m⟩
  | false =>
      rw [existing] at chosen
      obtain ⟨-, -, before, -⟩ := choose_free chosen
      have other := before m early f at_m
      exact ⟨other.1, .inr other.2.2⟩

end Vol

/-- Open finds the entry that a write stored. -/
theorem openMatch_written {v v' : Vol} {start : Nat} {locals : Locals} {path : CStr} {pl : Place}
    {e e' : Dirent} (sound : v.Sound) (place : v.place start locals path.1 = some pl)
    (placed : v.Placed pl e) (stored : v'.slots pl.parent = (v.slots pl.parent).set pl.slot e')
    (same : e'.name = pl.name) (archive : e'.attributes = attrArchive)
    (undeleted : pl.name.1.getD 0 0 ≠ 0xE5)
    (opened : makeName83 (skipSlash path.1) = some pl.name) :
    v'.openMatch pl.parent path.1 = some (pl.parent, pl.slot, e') := by
  have marked : e'.name0 ≠ 0 := by
    rw [Dirent.name0_of_eq same]
    exact placed.marked
  have found := lookup_set (by rw [Vol.length_slots]; exact placed.inside) same marked
    (Dirent.visible_of_archive same undeleted archive) (sound.before_place place placed)
  have file : e'.isDirectory = false := by
    rw [Dirent.isDirectory, archive]
    decide
  unfold Vol.openMatch
  rw [opened, Option.bind_some, stored, found, Option.bind_some, if_neg (by rw [file]; decide)]

/-! ## The contents -/

/-- Up to one cluster of data takes one pass of the allocation. -/
theorem clustersNeeded_one {clusterSize count : Nat} (small : clusterSize ≤ 4096)
    (positive : 0 < count) (fits : count ≤ clusterSize) : clustersNeeded clusterSize count = 1 := by
  unfold clustersNeeded
  have low : (count + clusterSize - 1) % 2 ^ 64 = clusterSize + (count - 1) := by omega
  rw [low, Nat.add_div_left _ (by omega), Nat.div_eq_of_lt (by omega)]
  rfl

/-- The first cluster of a write of at most one cluster holds the data. -/
theorem written_contents {v : Vol} {pl : Place} {old : List Nat} {data : List UInt8}
    (sound : v.Sound) (small : v.total + 2 ≤ 0x0FFFFFF8) (size : v.clusterSize ≤ 4096)
    (fits : data.length ≤ v.clusterSize) (dir : v.Dir pl.parent) (apart : pl.parent ∉ old)
    (ok : (v.writeAt pl old data).1 = 0) {e : Dirent}
    (stored : ((v.writeAt pl old data).2.slots pl.parent)[pl.slot]? = some e) :
    e.fileSize.toNat = data.length ∧ (data = [] → e.firstCluster = 0) ∧ (data ≠ [] →
      (v.writeAt pl old data).2.ChainFrom e.firstCluster [e.firstCluster] ∧
      ∀ i, i < data.length →
        (v.writeAt pl old data).2.bytes e.firstCluster i = data.getD i 0) := by
  have entry : ∀ {w : Vol} {f : Dirent},
      ((w.setSlot pl.parent pl.slot f).slots pl.parent)[pl.slot]? = some e → e = f := by
    intro w f at_slot
    rw [Vol.slots_setSlot_self] at at_slot
    have bound := (List.getElem?_eq_some_iff.mp at_slot).1
    rw [List.length_set] at bound
    rw [List.getElem?_set_self bound] at at_slot
    exact (Option.some.inj at_slot).symm
  rcases Vol.writeAt_ok ok with ⟨rfl, result⟩ | ⟨first, linked, nonempty, allocated, result⟩
  · rw [result] at stored
    rw [entry stored]
    exact ⟨rfl, fun _ => Dirent.firstCluster_newFile _, fun h => absurd rfl h⟩
  rw [result] at stored ⊢
  have same := entry stored
  subst same
  have length : 0 < data.length := List.length_pos_iff.mpr nonempty
  have small' : (v.freeAll old).total + 2 ≤ 0x0FFFFFF8 := small
  have one := clustersNeeded_one size length fits
  rw [one] at allocated
  obtain ⟨rest, split, rfl, chain⟩ : ∃ rest, (v.freeAll old).freeClusters.take 1 = first :: rest ∧
      linked = (v.freeAll old).linkTo 0x0FFFFFFF (first :: rest) ∧
      linked.ChainFrom first (first :: rest) := by
    rcases Vol.allocate_some small' allocated with ⟨impossible, -, -⟩ | front
    · cases impossible
    · exact front
  -- one pass takes one cluster
  obtain rfl : rest = [] := by
    have count := congrArg List.length split
    rw [List.length_take, List.length_cons] at count
    exact List.length_eq_zero_iff.mp (by omega)
  have takes : (v.freeAll old).takes data = [first] := by
    have count : clustersNeeded (v.freeAll old).clusterSize data.length = 1 := one
    unfold Vol.takes
    rw [count]
    exact split
  rw [takes]
  have range := chain.valid_of_mem first (by simp)
  have other : first ≠ pl.parent := by
    rintro rfl
    have member : pl.parent ∈ (v.freeAll old).takes data := by rw [takes]; simp
    rcases Vol.takes_free _ member with free | released
    · exact sound.fat_dir_ne_zero dir free
    · exact apart released
  have firstCluster : (Dirent.written pl.name first data).firstCluster = first := by
    refine Dirent.firstCluster_written pl.name data ?_
    have : first < v.total + 2 := range.2
    omega
  have mod : data.length % 2 ^ 32 = data.length := Nat.mod_eq_of_lt (by omega)
  rw [firstCluster, mod]
  refine ⟨?_, fun empty => absurd empty nonempty, fun _ => ⟨?_, ?_⟩⟩
  · change (UInt32.ofNat data.length).toNat = data.length
    rw [UInt32.toNat_ofNat']
    exact mod
  · refine chain.frame (Vol.writeData_frame _ _ _ _).2.1 fun x _ => ?_
    exact congrFun (Vol.writeData_fat _ _ _ _) x
  · intro i hi
    rw [Vol.setSlot, Vol.setBytes_bytes_of_ne _ other]
    unfold Vol.writeData
    rw [if_neg (by omega)]
    change ((Vol.setBytes _ first _).writeData [] _ _).bytes first i = _
    rw [Vol.writeData, Vol.setBytes_bytes_self, if_pos (by
      change i < v.clusterSize
      omega)]
    unfold chunkBytes
    rw [Buf.blit_of_inside (Nat.zero_le _) (by
      change i < 0 + min data.length v.clusterSize
      omega), Nat.sub_zero]
    rfl

/-- Open and write start in the same directory, when the current one is live. -/
theorem openCluster_eq {d : Driver} (sound : d.vol.Sound)
    (current : d.vol.Dir d.fs.currentDirCluster) (path : List UInt8) :
    d.fs.openCluster path = d.fs.startCluster path := by
  have low := (sound.inRange_dir current).1
  unfold Fs.openCluster Fs.startCluster
  rw [if_neg (show ¬ d.fs.currentDirCluster < 2 by omega)]

/-- On a sound volume, with a live current directory: after `fat32_write` of at most one
cluster to a path of one printable component returned 0, `fat32_open` of the path succeeds
with that size, and reads of any sizes deliver the data in order and then nothing. -/
theorem write_then_read {d d' : Driver} (good : d.Good) (sound : d.vol.Sound)
    (current : d.vol.Dir d.fs.currentDirCluster) {locals : Locals} {path : CStr}
    {name : List UInt8} (component : IsComponent path.1 name) (printable : Printable name)
    {data : List UInt8} (fits : data.length ≤ d.fs.sectorsPerCluster * 512)
    (returned : (fat32Write locals path data).run d = .ok (0, d')) :
    Runs (fat32Open path) d' fun ok d'' => ok = true ∧ d''.openFile.fileSize = data.length ∧
      ∀ counts, Runs (readAll counts) d'' fun r _ => r = slices data counts := by
  have start : d.vol.Dir (d.fs.startCluster path.1) := by
    unfold Fs.startCluster
    split
    · exact ⟨_, .root⟩
    · exact current
  have range := sound.inRange_dir start
  have small : d.vol.total + 2 ≤ 0x0FFFFFF8 := good.geometry.range_lt_end
  have size : d.vol.clusterSize ≤ 4096 := by
    have := good.geometry.spc_le
    change d.fs.sectorsPerCluster * 512 ≤ 4096
    omega
  have navigates : Navigates d d.vol.Dir path.1 := navigates_component good component start range
  rcases (fat32Write_runs good sound locals data navigates).of_returned returned with
    ⟨-, impossible, -⟩ | ⟨pl, e, old, place, placed, releases, apart, ok, effect⟩
  · cases impossible
  obtain ⟨-, parent, made, -, -⟩ := Vol.place_eq_some place
  obtain ⟨parentCluster, filename, -⟩ :=
    Vol.navigate_single (v := d.vol) component (d.fs.startCluster path.1)
  rw [parentCluster, Option.getD_some] at parent
  rw [filename, Option.getD_some] at made
  obtain ⟨e', taken, x, same, archive, -, -⟩ :=
    sound.exchange_write small placed releases apart ok.symm
  have stored := x.here
  -- open searches the same directory for the same name
  have opened : makeName83 (skipSlash path.1) = some pl.name := by
    rw [component.skipSlash_eq]
    exact made
  have found := openMatch_written sound place placed stored same archive
    (makeName83_not_deleted printable made) opened
  have slot : ((d.vol.writeAt pl old data).2.slots pl.parent)[pl.slot]? = some e' := by
    rw [stored, List.getElem?_set_self (by rw [Vol.length_slots]; exact placed.inside)]
  obtain ⟨fileSize, zero, contents⟩ :=
    written_contents sound small size fits placed.dir apart ok.symm slot
  have directory : d'.fs.openCluster path.1 = pl.parent := by
    rw [effect.fs_eq, parent, openCluster_eq sound current]
  refine Runs.mono (fat32Open_runs effect.good path (by
    rw [directory]
    exact (effect.inRange_iff _).mpr (sound.inRange_dir placed.dir))) ?_
  rintro ok' d'' ⟨good'', fs'', vol'', ⟨none, -⟩ | ⟨c, i, f, hit, rfl, handle⟩⟩
  · rw [directory, effect.vol_eq, found] at none
    cases none
  rw [directory, effect.vol_eq, found] at hit
  cases hit
  refine ⟨rfl, by rw [handle]; exact fileSize, ?_⟩
  have chain : data ≠ [] → d''.vol.ChainFrom d''.openFile.currentCluster
      [d''.openFile.currentCluster] := by
    intro nonempty
    rw [vol'', effect.vol_eq, handle]
    exact (contents nonempty).1
  have size'' : d''.vol.clusterSize = d.vol.clusterSize := by rw [vol'', effect.clusterSize_eq]
  intro counts
  refine Runs.mono (readAll_runs counts d'' good'' (by rw [handle, fs'']; rfl) ?_) ?_
  · by_cases empty : data = []
    · left
      rw [handle]
      exact zero empty
    · exact .inr ⟨_, chain empty⟩
  · rintro r d₃ ⟨rfl, -⟩
    have whole : d''.vol.readAll d''.openFile counts =
        slices (data.drop d''.openFile.filePosition) counts := by
      refine Vol.readAll_slices (by rw [size'']; exact fits) (by rw [size'']; exact size) counts
        d''.openFile (by rw [handle]; exact fileSize) (by rw [handle]; exact Nat.zero_le _) ?_
      intro nonempty
      have link := chain nonempty
      refine ⟨link, good''.isValidCluster (link.valid_of_mem _ link.head_mem), ?_⟩
      rw [vol'', effect.vol_eq, handle]
      exact (contents nonempty).2
    rw [whole, handle]
    rfl

/-- Five bytes written to `/a` on the formatted volume, read back in three reads. -/
theorem greeting_read_back : ∃ d',
    (fat32Write .blank (.ofBytes [slash, 0x61]) [72, 101, 108, 108, 111]).run formatted =
      .ok (0, d') ∧
    Runs (fat32Open (.ofBytes [slash, 0x61])) d' fun ok d'' => ok = true ∧
      d''.openFile.fileSize = 5 ∧ Runs (readAll [2, 9, 1]) d'' fun r _ =>
        r = [(2, [72, 101]), (3, [108, 108, 111]), (0, [])] := by
  have passed : Runs.check (fat32Write .blank (.ofBytes [slash, 0x61]) [72, 101, 108, 108, 111])
      formatted (fun r _ => r = 0) = true := by decide +kernel
  obtain ⟨r, ran, zero⟩ := leaves_of_check passed
  rw [decide_eq_true_eq] at zero
  subst zero
  have component : IsComponent (CStr.ofBytes [slash, 0x61]).1 [0x61] :=
    ⟨.inr (by decide), by decide, by decide, by decide⟩
  have printable : Printable [0x61] := by
    intro c member
    rw [List.mem_singleton.mp member]
    decide
  refine ⟨_, ran, Runs.mono (write_then_read formatted_good formatted_owned.toSound
    ⟨2, .root⟩ component printable (by decide) ran) ?_⟩
  rintro ok d'' ⟨opened, size, reads⟩
  exact ⟨opened, size, reads [2, 9, 1]⟩

end XosKernel.Fat32
