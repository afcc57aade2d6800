/-
# Fat32.StoredFiles -- what open, read and list say of the store

On a covering volume a search by name finds the one live entry of that name, however the slots
before it are used (`lookup_iff`).  So a path opens exactly when the store has its file, and
reads of any sizes deliver the contents in order (`opens_stored`).  A listing shows the
entries in use, one line each and in slot order; its file lines are the files of the store,
with their sizes (`lists_stored`).
-/
import XosKernel.Fat32.FileChanges

namespace XosKernel.Fat32

open XosKernel.Theory

set_option autoImplicit false

/-! ## Reading -/

/-- What a series of reads returns of a file: each the bytes that follow, and how many they
are as an `int`. -/
def replies : List UInt8 → List Nat → List (Int × List UInt8)
  | _, [] => []
  | content, count :: counts =>
      (toInt32 (min count content.length), content.take count) ::
        replies (content.drop count) counts

theorem readAll_delivers {v : Vol} {first size : Nat} (covers : v.ChainCovers first size)
    (small : size < 2 ^ 32) : ∀ (counts : List Nat) (d : Driver) (p : Nat),
    d.Reading v first size p →
    Runs (readAll counts) d fun r _ => r = replies ((v.fileBytes first size).drop p) counts
  | [], _, _, _ => Runs.pure rfl
  | count :: counts, d, p, reading => by
      unfold readAll
      refine Runs.bind (fat32Read_delivers covers small reading count) ?_
      rintro _ d₁ ⟨rfl, reading₁⟩
      refine Runs.bind (readAll_delivers covers small counts d₁ _ reading₁) ?_
      rintro _ d₂ rfl
      refine Runs.pure ?_
      have length : ((v.fileBytes first size).drop p).length = size - p := by
        rw [List.length_drop, Vol.length_fileBytes]
      have rest : (v.fileBytes first size).drop (p + min count (size - p)) =
          ((v.fileBytes first size).drop p).drop count := by
        rw [List.drop_drop]
        rcases Nat.le_total count (size - p) with within | beyond
        · rw [Nat.min_eq_left within]
        · rw [Nat.min_eq_right beyond, List.drop_eq_nil_of_le (by rw [Vol.length_fileBytes]; omega),
            List.drop_eq_nil_of_le (by rw [Vol.length_fileBytes]; omega)]
      rw [replies, length, rest]

/-! ## Searching -/

section Covering

variable {d : Driver} (covering : Covering d)
include covering

/-- A search by name finds the live entry of that name. -/
theorem Covering.lookup_iff {c i : Nat} {e : Dirent} {name : Name83} (dir : d.vol.Dir c)
    (proper : name ≠ dotName ∧ name ≠ dotdotName) :
    lookup (fun e => e.name = name) (d.vol.slots c) = some (i, e) ↔
      d.vol.Live c i e ∧ e.name = name := by
  have sound := covering.owned.toSound
  constructor
  · intro found
    obtain ⟨slot, marked, visible, same, -⟩ := lookup_eq_some.mp found
    have named : e.name = name := by simpa using same
    refine ⟨⟨dir, slot, Dirent.inUse_of_visible marked visible, ?_⟩, named⟩
    simp [Dirent.isDots, named, proper.1, proper.2]
  · rintro ⟨live, rfl⟩
    obtain ⟨marked, visible⟩ := live.visible sound
    refine lookup_eq_some.mpr ⟨live.slot, marked, visible, by simp, ?_⟩
    intro m early f at_m
    have shown := sound.visible_before dir live.slot live.used m f early at_m
    refine ⟨shown, ?_⟩
    by_cases skip : f.skipped = true
    · exact .inl skip
    · -- a visible entry of the name would be a second one
      refine .inr (decide_eq_false fun same => ?_)
      have used := Dirent.inUse_of_visible shown (by simpa using skip)
      have live' : d.vol.Live c m f := by
        refine ⟨dir, at_m, used, ?_⟩
        simp [Dirent.isDots, same, proper.1, proper.2]
      have := covering.distinct c m i f e live' live same
      omega

/-- What a path opens, and the file that the store has there. -/
theorem Covering.openMatch_cases {c : Nat} (dir : d.vol.Dir c) (path : CStr) :
    (d.vol.openMatch c path.1 = none ∧
      (makeName83 (skipSlash path.1)).bind (fun name => d.files (c, name)) = none) ∨
    ∃ i e, d.vol.openMatch c path.1 = some (c, i, e) ∧ d.vol.Live c i e ∧
      e.isDirectory = false ∧ (makeName83 (skipSlash path.1)).bind (fun name => d.files (c, name)) =
        some (d.vol.contents e) := by
  cases matched : d.vol.openMatch c path.1 with
  | some hit =>
      obtain ⟨p, i, e⟩ := hit
      have live := Vol.openMatch_live dir matched
      obtain ⟨rfl, file, name, made, found⟩ := Vol.openMatch_eq_some matched
      have named := ((covering.lookup_iff dir (makeName83_not_dots made)).mp found).2
      refine .inr ⟨i, e, rfl, live, file, ?_⟩
      rw [made, Option.bind_some, covering.files_eq_some]
      exact ⟨i, e, live, named, file, rfl⟩
  | none =>
      refine .inl ⟨rfl, ?_⟩
      cases made : makeName83 (skipSlash path.1) with
      | none => rfl
      | some name =>
          rw [Option.bind_some]
          refine Store.picture_eq_none.mpr ?_
          rintro x ⟨i, e, live, named, file, -⟩
          have found := (covering.lookup_iff dir (makeName83_not_dots made)).mpr ⟨live, named⟩
          simp only [Vol.openMatch, made, found, Option.bind_some, file] at matched
          cases matched

end Covering

/-- From a live directory of a covering volume, a path is opened and read as the store has its
file: with the size of the contents, and every read the bytes that follow.  If the store has
no such file, or the name is none, open fails. -/
theorem opens_stored {d : Driver} (covering : Covering d) {c : Nat} (dir : d.vol.Dir c)
    (path : CStr)
    (counts : List Nat) :
    Runs (openReads path counts) (d.enter c) fun r _ =>
      r = ((makeName83 (skipSlash path.1)).bind fun name =>
        d.files ((d.enter c).fs.openCluster path.1, name)).map fun content =>
          (content.length, replies content counts) := by
  have dir' := Driver.openCluster_dir dir path.1
  have range := covering.owned.inRange_dir dir'
  refine Runs.bind (fat32Open_runs (covering.good.enter c) path range) ?_
  rintro ok d₁ ⟨good, fs, vol, opened⟩
  rcases covering.openMatch_cases dir' path with ⟨none_, absent⟩ | ⟨i, e, found, live, file, held⟩
  · rw [absent]
    rcases opened with ⟨-, rfl⟩ | ⟨_, _, _, found, -⟩
    · exact Runs.pure rfl
    · rw [show (d.enter c).vol = d.vol from rfl, none_] at found
      cases found
  · rw [held]
    rcases opened with ⟨none_, -⟩ | ⟨p, j, f, hit, rfl, handle⟩
    · rw [show (d.enter c).vol = d.vol from rfl, found] at none_
      cases none_
    rw [show (d.enter c).vol = d.vol from rfl, found] at hit
    cases hit
    have covers : d₁.vol.ChainCovers e.firstCluster e.fileSize.toNat := by
      rw [vol]
      exact covering.covered _ i e live file
    have reading := good.steady.reading (e := e) (by rw [handle, fs])
    simp only [if_true]
    refine Runs.get_bind (Runs.bind (readAll_delivers covers e.fileSize.toNat_lt counts d₁ 0
      reading) ?_)
    rintro _ d₂ rfl
    refine Runs.pure ?_
    rw [handle, vol, List.drop_zero]
    change some (e.fileSize.toNat, replies (d.vol.contents e) counts) = some (_, _)
    rw [Vol.contents, Vol.length_fileBytes]

theorem withX_root : withX.vol.Dir 2 := by
  have root : withX.vol.root = 2 := by decide +kernel
  exact root ▸ ⟨_, .root⟩

/-- The file `X` of one byte, opened and read. -/
theorem opens_x : Runs (openReads (.ofBytes [0x78]) [3, 3]) (withX.enter 2) fun r _ =>
    r = some (1, [(1, [1]), (0, [])]) := by
  obtain ⟨covering, files⟩ := withX_covering
  refine Runs.mono (opens_stored covering withX_root (.ofBytes [0x78]) [3, 3]) ?_
  rintro _ _ rfl
  have name : makeName83 (skipSlash (CStr.ofBytes [0x78]).1) = some nameX := by decide
  have held : withX.files (2, nameX) = some [1] := by
    rw [files]
    exact Store.after_last _ [] (.put (2, nameX) [1]) [] rfl (by simp)
  have cluster : (withX.enter 2).fs.openCluster (CStr.ofBytes [0x78]).1 = 2 := by decide +kernel
  have read : replies [1] [3, 3] = [(1, [1]), (0, [])] := by decide
  rw [cluster, name, Option.bind_some, held, Option.map_some, read]
  rfl

/-! ## Listing -/

/-- The text of an 8.3 name in a listing. -/
def Name83.text (name : Name83) : List UInt8 :=
  (formatName { Dirent.zero with name }).takeWhile (· ≠ 0)

/-- The loop of a listing stops at the end marker, and nothing is in use behind it. -/
theorem listLoop_lines : ∀ (l : List Dirent),
    (∀ e, e ∈ l → e.inUse = true → e.attributes ≠ attrLfn) →
    (∀ (i j : Nat) (e e' : Dirent), i < j → l[i]? = some e → e.name0 = 0 → l[j]? = some e' →
      e' = Dirent.zero) →
    (listLoop l).1 = (l.filter Dirent.inUse).map Dirent.listed
  | [], _, _ => rfl
  | e :: l, short, tail => by
      have ih := listLoop_lines l (fun f member => short f (List.mem_cons_of_mem _ member))
        fun i j f g before at_i ends at_j => tail (i + 1) (j + 1) f g (by omega) at_i ends at_j
      unfold listLoop
      by_cases ends : e.name0 = 0
      · have nothing : ∀ f, f ∈ l → ¬ f.inUse = true := by
          intro f member
          obtain ⟨j, at_j⟩ := List.mem_iff_getElem?.mp member
          rw [tail 0 (j + 1) e f (by omega) rfl ends at_j]
          decide
        have unused : ¬ e.inUse = true := by simp [Dirent.inUse, ends]
        rw [if_pos ends, List.filter_cons_of_neg unused, List.filter_eq_nil_iff.mpr nothing]
        rfl
      · rw [if_neg ends]
        by_cases skip : e.skipped = true
        · have unused : ¬ e.inUse = true := by
            intro used
            have long := short e List.mem_cons_self used
            simp [Dirent.skipped, long] at skip
            simp [Dirent.inUse, skip] at used
          rw [if_pos skip, List.filter_cons_of_neg unused, ih]
        · have used : e.inUse = true := Dirent.inUse_of_visible ends (by simpa using skip)
          rw [if_neg skip, List.filter_cons_of_pos used, ih]
          rfl

/-- A listing of the current directory returns 0 and shows the entries in use, one line each
and in slot order.  Every file of the store is among the lines with its size, and a file line
that is not of a dot entry is of a file of the store. -/
theorem lists_stored {d : Driver} (covering : Covering d) {c : Nat} (dir : d.vol.Dir c) :
    Runs (fat32ListDirectory []) (d.enter c) fun r d' =>
      r = (0, ((d.vol.slots c).filter Dirent.inUse).map Dirent.listed) ∧ d'.files = d.files ∧
      (∀ name content, d.files (c, name) = some content →
        .file name.text (UInt32.ofNat content.length) ∈ r.2) ∧
      ∀ text size, .file text size ∈ r.2 →
        (text = dotName.text ∨ text = dotdotName.text) ∨
        ∃ name content, d.files (c, name) = some content ∧ text = name.text ∧
          size.toNat = content.length := by
  have sound := covering.owned.toSound
  have range := sound.inRange_dir dir
  have good := covering.good.enter c
  have cluster : (d.enter c).fs.listCluster = c := if_neg (by
    have := range.1
    change ¬ c = 0
    omega)
  have lines := listLoop_lines (d.vol.slots c)
    (fun e member used => by
      obtain ⟨i, slot⟩ := List.mem_iff_getElem?.mp member
      exact sound.noLongNames c dir i e slot used)
    fun i j e e' => sound.zeroTail c dir i j e e'
  have listed : Runs (fat32ListDirectory []) (d.enter c) fun r d' =>
      r = (0, ((d.vol.slots c).filter Dirent.inUse).map Dirent.listed) ∧ d'.vol = d.vol := by
    unfold fat32ListDirectory
    refine Runs.get_bind ?_
    rw [if_pos good.mounted, if_pos rfl, cluster]
    unfold listCluster
    refine Runs.bind (loadDirectoryCluster_runs good range) ?_
    rintro _ d₁ ⟨b, rfl, contents, effect⟩
    refine Runs.get_bind ?_
    have entries : d₁.fs.entries b = d.vol.slots c := by
      rw [effect.fs_eq]
      exact entries_eq_slots good.geometry contents
    simp only [entries]
    rw [← lines]
    generalize listLoop (d.vol.slots c) = walked
    obtain ⟨shown, stopped⟩ := walked
    cases stopped with
    | true => exact Runs.pure ⟨rfl, effect.vol_eq⟩
    | false =>
        exact Runs.step (endOfEntries_run effect.good.geometry.roomy)
          (Runs.pure ⟨rfl, effect.vol_eq⟩)
  refine Runs.mono listed ?_
  rintro _ d' ⟨rfl, vol⟩
  refine ⟨rfl, by rw [Driver.files, vol]; rfl, ?_, ?_⟩
  · intro name content held
    obtain ⟨i, e, live, rfl, file, rfl⟩ := covering.files_eq_some.mp held
    refine List.mem_map.mpr ⟨e, List.mem_filter.mpr ⟨List.mem_of_getElem? live.slot, live.used⟩, ?_⟩
    rw [Vol.contents, Vol.length_fileBytes, UInt32.ofNat_toNat]
    exact if_neg (by rw [file]; decide)
  · intro text size member
    obtain ⟨e, inside, same⟩ := List.mem_map.mp member
    obtain ⟨at_slot, used⟩ := List.mem_filter.mp inside
    obtain ⟨i, slot⟩ := List.mem_iff_getElem?.mp at_slot
    cases file : e.isDirectory with
    | true =>
        rw [Dirent.listed, if_pos file] at same
        cases same
    | false =>
        rw [Dirent.listed, if_neg (by rw [file]; decide)] at same
        cases same
        cases dots : e.isDots with
        | true =>
            refine .inl ?_
            simp only [Dirent.isDots, Bool.or_eq_true, beq_iff_eq] at dots
            exact dots.imp (fun named => by rw [← named]; rfl) fun named => by rw [← named]; rfl
        | false =>
            refine .inr ⟨e.name, d.vol.contents e, ?_, rfl, ?_⟩
            · exact covering.files_eq_some.mpr ⟨i, e, ⟨dir, slot, used, dots⟩, rfl, file, rfl⟩
            · rw [Vol.contents, Vol.length_fileBytes]

/-- The listing of a root directory with the file `X` of one byte: it is shown, and what is shown is
stored. -/
theorem lists_x : Runs (fat32ListDirectory []) (withX.enter 2) fun r d' =>
    r = (0, ((withX.vol.slots 2).filter Dirent.inUse).map Dirent.listed) ∧
      d'.files = withX.files ∧ .file nameX.text 1 ∈ r.2 ∧
      ∀ text size, .file text size ∈ r.2 →
        (text = dotName.text ∨ text = dotdotName.text) ∨
        ∃ name content, withX.files (2, name) = some content ∧ text = name.text ∧
          size.toNat = content.length := by
  obtain ⟨covering, files⟩ := withX_covering
  have held : withX.files (2, nameX) = some [1] := by
    rw [files]
    exact Store.after_last _ [] (.put (2, nameX) [1]) [] rfl (by simp)
  refine Runs.mono (lists_stored covering withX_root) ?_
  rintro _ _ ⟨lines, same, shown, stored⟩
  exact ⟨lines, same, shown nameX [1] held, stored⟩

end XosKernel.Fat32
