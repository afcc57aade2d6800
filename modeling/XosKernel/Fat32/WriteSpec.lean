/-
# Fat32.WriteSpec -- what `fat32_write` does to the volume

The choice of the slot is a search in the directory (`Vol.choose`, `Vol.place`), and the
three ways it ends are described by `scanWrite_existing`, `scanWrite_free` and
`scanWrite_exhausted`.  After the choice, `fat32_write` releases the chain of the old entry,
allocates and fills a new one, and sets the slot (`Vol.writeAt`, `writeEntry_runs`).
-/
import XosKernel.Fat32.Release
import XosKernel.Fat32.DirSpec

namespace XosKernel.Fat32

open XosKernel.Theory

set_option autoImplicit false

/-! ## The choice of a slot -/

section ScanWrite

variable {name : Name83}

/-- A slot that holds a visible entry of another name. -/
def plain (name : Name83) (e : Dirent) : Prop :=
  e.name0 ≠ 0 ∧ e.skipped = false ∧ e.name ≠ name

/-- A slot that a scan for `name` does not stop at as a match. -/
def misses (name : Name83) (e : Dirent) : Prop := e.skipped = true ∨ e.name ≠ name

/-- The scan with a free slot known looks for a match only. -/
theorem scanWrite_known (name : Name83) (s : Nat) : ∀ (l : List Dirent) (k : Nat),
    (∃ n e, scanWrite name l k (some s) = .existing (k + n) ∧ l[n]? = some e ∧
        e.skipped = false ∧ e.name = name ∧
        ∀ m, m < n → ∀ e', l[m]? = some e' → misses name e') ∨
      (scanWrite name l k (some s) = .exhausted (some s) ∧
        ∀ (m : Nat) e', l[m]? = some e' → misses name e')
  | [], k => .inr ⟨rfl, by simp⟩
  | x :: l, k => by
      by_cases miss : misses name x
      · -- a slot that is no match shifts the scan by one
        have shift : scanWrite name (x :: l) k (some s) = scanWrite name l (k + 1) (some s) := by
          rcases miss with skip | other
          · simp [scanWrite, skip]
          · by_cases skip : x.skipped = true
            · simp [scanWrite, skip]
            · simp [scanWrite, skip, other]
        have cover : ∀ n, (∀ m, m < n → ∀ e', l[m]? = some e' → misses name e') →
            ∀ m, m < n + 1 → ∀ e', (x :: l)[m]? = some e' → misses name e' := by
          intro n before m hm e' at_m
          cases m with
          | zero => exact (by simpa using at_m : x = e') ▸ miss
          | succ m => exact before m (by omega) e' (by simpa using at_m)
        rw [shift]
        rcases scanWrite_known name s l (k + 1) with ⟨n, e, hit, at_n, rest⟩ | ⟨ends, all⟩
        · refine .inl ⟨n + 1, e, by rw [hit]; congr 1; omega, by simpa using at_n, rest.1,
            rest.2.1, cover n rest.2.2⟩
        · refine .inr ⟨ends, fun m => cover (m + 1) (fun m' _ => all m') m (by omega)⟩
      · simp only [misses, not_or, Bool.not_eq_true, not_not] at miss
        refine .inl ⟨0, x, ?_, rfl, miss.1, miss.2, by omega⟩
        simp [scanWrite, miss.1, miss.2]

/-- The four ways the scan ends: at the end marker, at a match, or after the last slot, with
or without a free slot seen.  `n` is the first slot that is not an entry of another name. -/
theorem scanWrite_cases (name : Name83) : ∀ (l : List Dirent) (k : Nat),
    (scanWrite name l k none = .exhausted none ∧ ∀ (m : Nat) e', l[m]? = some e' → plain name e') ∨
    ∃ (n : Nat) (e : Dirent), l[n]? = some e ∧
      (∀ m, m < n → ∀ e', l[m]? = some e' → plain name e') ∧
      ((e.name0 = 0 ∧ scanWrite name l k none = .free (k + n)) ∨
        (e.name0 ≠ 0 ∧ e.skipped = false ∧ e.name = name ∧
          scanWrite name l k none = .existing (k + n)) ∨
        (e.name0 ≠ 0 ∧ e.skipped = true ∧
          scanWrite name l k none = scanWrite name (l.drop (n + 1)) (k + n + 1) (some (k + n))))
  | [], k => .inl ⟨rfl, by simp⟩
  | x :: l, k => by
      by_cases ends : x.name0 = 0
      · exact .inr ⟨0, x, rfl, by omega, .inl ⟨ends, by simp [scanWrite, ends]⟩⟩
      by_cases skip : x.skipped = true
      · refine .inr ⟨0, x, rfl, by omega, .inr (.inr ⟨ends, skip, ?_⟩)⟩
        simp [scanWrite, ends, skip]
      by_cases match_ : x.name = name
      · refine .inr ⟨0, x, rfl, by omega, .inr (.inl ⟨ends, by simpa using skip, match_, ?_⟩)⟩
        simp [scanWrite, ends, skip, match_]
      have here : plain name x := ⟨ends, by simpa using skip, match_⟩
      have shift : scanWrite name (x :: l) k none = scanWrite name l (k + 1) none := by
        simp [scanWrite, ends, skip, match_]
      have cover : ∀ n, (∀ m, m < n → ∀ e', l[m]? = some e' → plain name e') →
          ∀ m, m < n + 1 → ∀ e', (x :: l)[m]? = some e' → plain name e' := by
        intro n before m hm e' at_m
        cases m with
        | zero => exact (by simpa using at_m : x = e') ▸ here
        | succ m => exact before m (by omega) e' (by simpa using at_m)
      rw [shift]
      rcases scanWrite_cases name l (k + 1) with ⟨none, all⟩ | ⟨n, e, at_n, before, how⟩
      · exact .inl ⟨none, fun m => cover (m + 1) (fun m' _ => all m') m (by omega)⟩
      · refine .inr ⟨n + 1, e, by simpa using at_n, cover n before, ?_⟩
        have index : k + 1 + n = k + (n + 1) := by omega
        rw [index] at how
        simpa using how

/-- The slot the scan ends with, and whether it holds an entry of the name. -/
def WriteScan.toOption : WriteScan → Option (Nat × Bool)
  | .existing slot => some (slot, true)
  | .free slot => some (slot, false)
  | .exhausted slot => slot.map fun s => (s, false)

/-- The slot of a directory that `fat32_write` chooses for a name. -/
def choose (name : Name83) (l : List Dirent) : Option (Nat × Bool) :=
  (scanWrite name l 0 none).toOption

/-- A chosen entry has the name, and no visible slot before it does. -/
theorem choose_existing {l : List Dirent} {i : Nat} (chosen : choose name l = some (i, true)) :
    ∃ e, l[i]? = some e ∧ e.skipped = false ∧ e.name = name ∧
      ∀ m, m < i → ∀ e', l[m]? = some e' → misses name e' := by
  unfold choose at chosen
  rcases scanWrite_cases name l 0 with ⟨ends, -⟩ | ⟨n, e, at_n, before, how⟩
  · rw [ends] at chosen
    cases chosen
  have before' : ∀ m, m < n → ∀ e', l[m]? = some e' → misses name e' :=
    fun m hm e' at_m => .inr (before m hm e' at_m).2.2
  rw [Nat.zero_add] at how
  rcases how with ⟨-, ends⟩ | ⟨-, visible, same, ends⟩ | ⟨-, skip, ends⟩
  · rw [ends] at chosen
    cases chosen
  · rw [ends] at chosen
    cases chosen
    exact ⟨e, at_n, visible, same, before'⟩
  · rw [ends] at chosen
    rcases scanWrite_known name n (l.drop (n + 1)) (n + 1) with
      ⟨m, e', hit, at_m, visible, same, between⟩ | ⟨ended, -⟩
    · rw [hit] at chosen
      cases chosen
      rw [List.getElem?_drop] at at_m
      refine ⟨e', at_m, visible, same, ?_⟩
      intro j hj e'' at_j
      by_cases early : j < n
      · exact before' j early e'' at_j
      · by_cases here : j = n
        · subst here
          rw [at_n] at at_j
          cases at_j
          exact .inl skip
        · refine between (j - (n + 1)) (by omega) e'' ?_
          rw [List.getElem?_drop]
          rwa [show n + 1 + (j - (n + 1)) = j by omega]
    · rw [ended] at chosen
      cases chosen

/-- A chosen free slot is the first one that is not a visible entry; if it is not the end
marker, no visible slot has the name. -/
theorem choose_free {l : List Dirent} {i : Nat} (chosen : choose name l = some (i, false)) :
    ∃ e, l[i]? = some e ∧ (∀ m, m < i → ∀ e', l[m]? = some e' → plain name e') ∧
      (e.name0 = 0 ∨ (e.name0 ≠ 0 ∧ e.skipped = true ∧
        ∀ (m : Nat) e', l[m]? = some e' → misses name e')) := by
  unfold choose at chosen
  rcases scanWrite_cases name l 0 with ⟨ends, -⟩ | ⟨n, e, at_n, before, how⟩
  · rw [ends] at chosen
    cases chosen
  rw [Nat.zero_add] at how
  rcases how with ⟨ends, at_end⟩ | ⟨-, -, -, ends⟩ | ⟨marked, skip, ends⟩
  · rw [at_end] at chosen
    cases chosen
    exact ⟨e, at_n, before, .inl ends⟩
  · rw [ends] at chosen
    cases chosen
  · rw [ends] at chosen
    rcases scanWrite_known name n (l.drop (n + 1)) (n + 1) with
      ⟨m, e', hit, -⟩ | ⟨ended, rest⟩
    · rw [hit] at chosen
      cases chosen
    · rw [ended] at chosen
      cases chosen
      refine ⟨e, at_n, before, .inr ⟨marked, skip, ?_⟩⟩
      intro j e'' at_j
      by_cases early : j < i
      · exact .inr (before j early e'' at_j).2.2
      · by_cases here : j = i
        · subst here
          rw [at_n] at at_j
          cases at_j
          exact .inl skip
        · refine rest (j - (i + 1)) e'' ?_
          rw [List.getElem?_drop]
          rwa [show i + 1 + (j - (i + 1)) = j by omega]

theorem choose_lt {l : List Dirent} {i : Nat} {b : Bool} (chosen : choose name l = some (i, b)) :
    i < l.length := by
  cases b with
  | true =>
      obtain ⟨e, at_i, -⟩ := choose_existing chosen
      exact (List.getElem?_eq_some_iff.mp at_i).1
  | false =>
      obtain ⟨e, at_i, -⟩ := choose_free chosen
      exact (List.getElem?_eq_some_iff.mp at_i).1

/-- A search for the name of a stored entry finds it, if no visible slot before it has the
name. -/
theorem lookup_set {l : List Dirent} {i : Nat} {e : Dirent} (inside : i < l.length)
    (same : e.name = name) (marked : e.name0 ≠ 0) (visible : e.skipped = false)
    (before : ∀ m, m < i → ∀ f, l[m]? = some f → f.name0 ≠ 0 ∧ misses name f) :
    lookup (fun f => f.name = name) (l.set i e) = some (i, e) := by
  refine lookup_eq_some.mpr ⟨?_, marked, visible, by simpa using same, ?_⟩
  · rw [List.getElem?_set_self inside]
  · intro m early f at_m
    rw [List.getElem?_set_ne (by omega)] at at_m
    obtain ⟨shown, skip | other⟩ := before m early f at_m
    · exact ⟨shown, .inl skip⟩
    · exact ⟨shown, .inr (by simpa using other)⟩

end ScanWrite

/-- An archive entry with a name that is neither free nor deleted is visible. -/
theorem Dirent.visible_of_archive {e : Dirent} {name : Name83} (same : e.name = name)
    (undeleted : name.1.getD 0 0 ≠ 0xE5) (archive : e.attributes = attrArchive) :
    e.skipped = false := by
  have first : e.name0 ≠ 0xE5 := by rwa [Dirent.name0_of_eq same]
  have short : attrArchive ≠ attrLfn := by decide
  simp [Dirent.skipped, first, archive, short]

/-- Where `fat32_write` puts a file: directory, name, slot, and whether the slot already
holds an entry of that name. -/
structure Place where
  parent : Nat
  name : Name83
  slot : Nat
  existing : Bool

/-- The first half of `fat32_write` on the volume. -/
def Vol.place (v : Vol) (start : Nat) (locals : Locals) (path : List UInt8) : Option Place :=
  let nav := v.navigate start path
  if nav.result < 0 then none
  else
    let parent := nav.parentCluster.getD locals.parentCluster
    let name := nav.filename.getD locals.filename.1
    if name = [] then none
    else
      match makeName83 name with
      | none => none
      | some name83 =>
          (choose name83 (v.slots parent)).map fun s => ⟨parent, name83, s.1, s.2⟩

/-- A navigation that succeeds ends in a directory of the closed set. -/
theorem Vol.navigate_parent {v : Vol} {S : Nat → Prop} (closed : v.Closed S) {start : Nat}
    (inside : S start) {path : List UInt8} (ok : ¬ (v.navigate start path).result < 0) :
    ∃ p, (v.navigate start path).parentCluster = some p ∧ S p := by
  unfold Vol.navigate at ok ⊢
  cases reached : v.walk (skipSlash path) start [] with
  | none =>
      rw [reached] at ok
      exact absurd (show (-1 : Int) < 0 by decide) ok
  | some q =>
      obtain ⟨c, component⟩ := q
      have member := Vol.walk_mem closed _ _ _ inside _ _ reached
      cases component with
      | nil => exact ⟨c, rfl, member⟩
      | cons ch component =>
          simp only
          cases v.find c (ch :: component) with
          | none => exact ⟨c, rfl, member⟩
          | some e => exact ⟨c, rfl, member⟩

/-- The place in a target. -/
def WriteTarget.place (t : WriteTarget) : Place := ⟨t.parentCluster, t.name, t.slot, t.existing⟩

/-- From `d`, path navigation follows the volume and ends in the set `S` of clusters. -/
structure Navigates (d : Driver) (S : Nat → Prop) (path : List UInt8) : Prop where
  runs : Runs (navigatePath path) d fun nav d' =>
    nav = d.vol.navigate (d.fs.startCluster path) path ∧ Effect d d' d.vol
  reaches : ¬ (d.vol.navigate (d.fs.startCluster path) path).result < 0 →
    ∃ p, (d.vol.navigate (d.fs.startCluster path) path).parentCluster = some p ∧ S p

theorem Navigates.of_closed {S : Nat → Prop} {d : Driver} (good : d.Good) (closed : d.vol.Closed S)
    (path : List UInt8) (inside : S (d.fs.startCluster path)) : Navigates d S path :=
  ⟨navigatePath_runs good closed path inside, Vol.navigate_parent closed inside⟩

/-- The first half of `fat32_write` finds the place and loads its directory. -/
theorem writeTarget_runs {S : Nat → Prop} {d : Driver} (good : d.Good)
    (range : ∀ c, S c → d.vol.InRange c) (locals : Locals) (path : CStr)
    (navigates : Navigates d S path.1) :
    Runs (writeTarget locals path) d fun r d' => Effect d d' d.vol ∧
      r.map WriteTarget.place = d.vol.place (d.fs.startCluster path.1) locals path.1 ∧
      ∀ t, r = some t → S t.parentCluster ∧
        ∀ i, i < d.vol.clusterSize → t.parentBuffer i = d.vol.bytes t.parentCluster i := by
  have nothing : ∀ t : WriteTarget, none = some t → S t.parentCluster ∧
      ∀ i, i < d.vol.clusterSize → t.parentBuffer i = d.vol.bytes t.parentCluster i := by
    intro t impossible
    cases impossible
  unfold writeTarget
  refine Runs.bind navigates.runs ?_
  rintro nav d₁ ⟨rfl, walked⟩
  unfold Vol.place
  by_cases failed : (d.vol.navigate (d.fs.startCluster path.1) path.1).result < 0
  · simp only [if_pos failed]
    exact Runs.pure ⟨walked, rfl, nothing⟩
  obtain ⟨p, parent, member⟩ := navigates.reaches failed
  simp only [if_neg failed, parent, Option.getD_some]
  split
  · exact Runs.pure ⟨walked, rfl, nothing⟩
  cases makeName83 ((d.vol.navigate (d.fs.startCluster path.1) path.1).filename.getD
      locals.filename.1) with
  | none => exact Runs.pure ⟨walked, rfl, nothing⟩
  | some name83 =>
      refine Runs.bind (loadDirectoryCluster_runs walked.good
        ((walked.inRange_iff p).mpr (range p member))) ?_
      rintro _ d₂ ⟨b, rfl, contents, loaded⟩
      rw [walked.vol_eq] at contents loaded
      have effect := walked.trans loaded
      refine Runs.get_bind ?_
      have entries : d₂.fs.entries b = d.vol.slots p := by
        rw [effect.fs_eq]
        exact entries_eq_slots good.geometry contents
      have found : ∀ slot existing, ∀ t : WriteTarget,
          some (⟨p, b, name83, slot, existing⟩ : WriteTarget) = some t → S t.parentCluster ∧
          ∀ i, i < d.vol.clusterSize → t.parentBuffer i = d.vol.bytes t.parentCluster i := by
        rintro slot existing t ⟨rfl⟩
        exact ⟨member, contents⟩
      rw [entries]
      simp only [choose]
      cases scanned : scanWrite name83 (d.vol.slots p) 0 none with
      | existing slot => exact Runs.pure ⟨effect, rfl, found slot true⟩
      | free slot => exact Runs.pure ⟨effect, rfl, found slot false⟩
      | exhausted free =>
          refine Runs.step (endOfEntries_run effect.good.geometry.roomy) (Runs.pure ⟨effect, ?_⟩)
          cases free with
          | none => exact ⟨rfl, nothing⟩
          | some slot => exact ⟨rfl, found slot false⟩

/-! ## The data -/

/-- The first `n` bytes of `src` in a cleared buffer. -/
def chunkBytes (src : List UInt8) (n : Nat) : Buf := Buf.blit (fun _ => 0) 0 n (Buf.ofList src)

/-- Fill the clusters of a chain with the first `remaining` bytes of `src`. -/
def Vol.writeData : Vol → List Nat → List UInt8 → Nat → Vol
  | v, [], _, _ => v
  | v, c :: l, src, remaining =>
      if remaining = 0 then v
      else
        let chunk := min remaining v.clusterSize
        Vol.writeData (v.setBytes c (chunkBytes src chunk)) l (src.drop chunk) (remaining - chunk)

theorem Vol.writeData_zero (v : Vol) (l : List Nat) (src : List UInt8) :
    v.writeData l src 0 = v := by
  cases l with
  | nil => rfl
  | cons c l => rw [writeData, if_pos rfl]

theorem Driver.Good.isValidCluster {d : Driver} (good : d.Good) {c : Nat}
    (range : d.vol.InRange c) : isValidCluster c = true := good.geometry.isValidCluster range

theorem Driver.Good.setFileClusterBuf {d : Driver} (good : d.Good) (b : Buf) :
    Driver.Good { d with fileClusterBuf := b } :=
  ⟨good.geometry, good.mounted, good.noFault, good.copies, good.coherent⟩

theorem writeLoop_runs : ∀ (l : List Nat) (passes : Nat) (src : List UInt8) (remaining c : Nat)
    (d : Driver), d.Good → d.vol.ChainFrom c l → remaining ≤ passes →
    Runs (writeLoop (d.fs.sectorsPerCluster * 512) passes src remaining c) d fun ok d' =>
      ok = true ∧ Effect d d' (d.vol.writeData l src remaining)
  | l, 0, src, remaining, c, d, good, _, enough => by
      obtain rfl : remaining = 0 := by omega
      rw [Vol.writeData_zero]
      exact Runs.pure ⟨rfl, Effect.refl good⟩
  | [], _ + 1, _, _, _, _, _, chain, _ => by cases chain
  | x :: l, passes + 1, src, remaining, c, d, good, chain, enough => by
      have start : x = c := by cases chain <;> rfl
      subst start
      have range : d.vol.InRange x := chain.valid_of_mem x chain.head_mem
      unfold writeLoop Vol.writeData
      by_cases done : remaining = 0
      · rw [if_neg (by omega), if_pos done]
        exact Runs.pure ⟨rfl, Effect.refl good⟩
      rw [if_pos ⟨by omega, good.isValidCluster range⟩, if_neg done]
      refine Runs.get_bind ?_
      have small := good.geometry.spc_le
      have positive := good.geometry.one_le_spc
      rw [if_neg (by simp only [fileClusterBufSize]; omega)]
      simp only
      generalize hchunk : min remaining (d.fs.sectorsPerCluster * 512) = chunk
      have chunk' : min remaining d.vol.clusterSize = chunk := hchunk
      rw [chunk']
      -- inside the cluster the old contents of the buffer are gone
      have bytes : d.vol.setBytes x ((d.fileClusterBuf.blit 0 (d.fs.sectorsPerCluster * 512)
          (fun _ => 0)).blit 0 chunk (Buf.ofList src)) =
          d.vol.setBytes x (chunkBytes src chunk) := by
        apply Vol.setBytes_congr
        intro i hi
        unfold chunkBytes
        by_cases inside : i < chunk
        · rw [Buf.blit_of_inside (by omega) (by omega), Buf.blit_of_inside (by omega) (by omega)]
        · rw [Buf.blit_of_outside (by omega), Buf.blit_of_inside (by omega) (by simpa using hi),
            Buf.blit_of_outside (by omega)]
      generalize (d.fileClusterBuf.blit 0 (d.fs.sectorsPerCluster * 512) (fun _ => 0)).blit 0
        chunk (Buf.ofList src) = buffer at bytes ⊢
      refine Runs.modify_bind ?_
      have good₁ := good.setFileClusterBuf buffer
      refine Runs.step (ataWriteSectors_run good₁.noFault _ _ _ _ _) ?_
      rw [if_pos rfl]
      have wrote := good₁.effect_wrote (s := .fileCluster) range buffer
      have stored : Effect d _ (d.vol.setBytes x (chunkBytes src chunk)) :=
        ⟨wrote.good, wrote.fs_eq, wrote.file_eq, wrote.vol_eq.trans bytes⟩
      refine Runs.bind (nextCluster_runs stored.good (c := x) (by
        rw [stored.fs_eq]; exact range.2)) ?_
      rintro _ d₂ ⟨rfl, read⟩
      rw [stored.vol_eq] at read
      have effect := stored.trans read
      rw [stored.vol_eq, Vol.setBytes_fat]
      rcases chain.step with ⟨ends, single⟩ | ⟨goes, rest, split, tail⟩
      · cases single
        rw [if_pos ends]
        refine Runs.pure ⟨rfl, ?_⟩
        rw [Vol.writeData]
        exact effect
      · cases split
        rw [if_neg (by rw [goes]; exact Bool.false_ne_true)]
        have chain₂ : d₂.vol.ChainFrom (d.vol.fat x) l := by rw [effect.vol_eq]; exact tail
        have again := writeLoop_runs l passes (src.drop chunk) (remaining - chunk) (d.vol.fat x) d₂
          effect.good chain₂ (by omega)
        rw [effect.fs_eq, effect.vol_eq] at again
        exact Runs.mono again fun ok d' h => ⟨h.1, effect.trans h.2⟩

/-! ## The whole write -/

/-- The clusters that releasing a first cluster gives back. -/
def Vol.Releases (v : Vol) (first : Nat) (l : List Nat) : Prop :=
  (first < 2 ∧ l = []) ∨ v.ChainFrom first l

theorem Vol.Releases.clears {v : Vol} {first : Nat} {l : List Nat}
    (small : v.total + 2 ≤ 0x0FFFFFF8) (releases : v.Releases first l) : v.Clears first l := by
  rcases releases with ⟨low, rfl⟩ | chain
  · refine .invalid ?_
    simp only [isValidCluster, Bool.and_eq_false_iff, decide_eq_false_iff_not]
    exact .inl (by omega)
  · exact chain.clears small

/-- The entry `fat32_write` leaves for a file with data. -/
def Dirent.written (name : Name83) (first : Nat) (data : List UInt8) : Dirent :=
  { (Dirent.newFile name).setFirstCluster first with fileSize := UInt32.ofNat data.length }

/-- The clusters that `fat32_write` takes for some data, on a volume with the old chain
released. -/
def Vol.takes (v : Vol) (data : List UInt8) : List Nat :=
  v.freeClusters.take ((clustersNeeded v.clusterSize data.length + 1) / 2)

/-- The second half of `fat32_write` on the volume, when the old entry's chain is `old`: what
it returns and what it leaves. -/
def Vol.writeAt (v : Vol) (pl : Place) (old : List Nat) (data : List UInt8) : Int × Vol :=
  let released := v.freeAll old
  if data = [] then (0, released.setSlot pl.parent pl.slot (Dirent.newFile pl.name))
  else
    match released.allocate (clustersNeeded v.clusterSize data.length) with
    | (none, partly) => (-1, partly)
    | (some first, linked) =>
        (0, (linked.writeData (released.takes data) data (data.length % 2 ^ 32)).setSlot pl.parent
          pl.slot (Dirent.written pl.name first data))

/-- The second half of `fat32_write` on the volume, which writes the loaded directory buffer
back with the entry in it: what it returns and what it leaves. -/
def Vol.writeOver (v : Vol) (t : WriteTarget) (old : List Nat) (data : List UInt8) : Int × Vol :=
  let released := v.freeAll old
  if data = [] then
    (0, released.setBytes t.parentCluster
      (Dirent.store t.parentBuffer (t.slot * direntSize) (Dirent.newFile t.name)))
  else
    match released.allocate (clustersNeeded v.clusterSize data.length) with
    | (none, partly) => (-1, partly)
    | (some first, linked) =>
        (0, (linked.writeData (released.takes data) data (data.length % 2 ^ 32)).setBytes
          t.parentCluster (Dirent.store t.parentBuffer (t.slot * direntSize)
            (Dirent.written t.name first data)))

theorem Dirent.store_store (b : Buf) (off : Nat) (e e' : Dirent) :
    Dirent.store (Dirent.store b off e) off e' = Dirent.store b off e' := by
  funext i
  unfold Dirent.store Buf.blit
  split <;> rfl

theorem Vol.writeData_fat : ∀ (l : List Nat) (v : Vol) (src : List UInt8) (n : Nat),
    (v.writeData l src n).fat = v.fat
  | [], v, src, n => rfl
  | c :: l, v, src, n => by
      unfold Vol.writeData
      split
      · rfl
      · exact (Vol.writeData_fat l _ _ _).trans Vol.setBytes_fat

theorem Vol.writeData_frame : ∀ (l : List Nat) (v : Vol) (src : List UInt8) (n : Nat),
    (v.writeData l src n).spc = v.spc ∧ (v.writeData l src n).total = v.total ∧
      (v.writeData l src n).root = v.root ∧
      ∀ x, x ∉ l → (v.writeData l src n).bytes x = v.bytes x
  | [], v, src, n => ⟨rfl, rfl, rfl, fun _ _ => rfl⟩
  | c :: l, v, src, n => by
      unfold Vol.writeData
      split
      · exact ⟨rfl, rfl, rfl, fun _ _ => rfl⟩
      · obtain ⟨spc, total, root, bytes⟩ := Vol.writeData_frame l (v.setBytes c (chunkBytes src
          (min n v.clusterSize))) (src.drop (min n v.clusterSize)) (n - min n v.clusterSize)
        refine ⟨spc, total, root, ?_⟩
        intro x outside
        rw [List.mem_cons, not_or] at outside
        rw [bytes x outside.2, Vol.setBytes_bytes_of_ne _ outside.1]

/-- A successful allocation links the front of the free list into a chain. -/
theorem Vol.allocate_some {v w : Vol} {n first : Nat} (small : v.total + 2 ≤ 0x0FFFFFF8)
    (allocated : v.allocate n = (some first, w)) :
    (n = 0 ∧ first = 0 ∧ w = v) ∨
      ∃ rest, v.freeClusters.take ((n + 1) / 2) = first :: rest ∧
        w = v.linkTo 0x0FFFFFFF (first :: rest) ∧ w.ChainFrom first (first :: rest) := by
  unfold Vol.allocate at allocated
  split at allocated
  · cases allocated
    exact .inl ⟨‹_›, rfl, rfl⟩
  split at allocated
  · rename_i positive enough
    cases free : v.freeClusters with
    | nil => rw [free] at enough; simp at enough; omega
    | cons c tail =>
        rw [free] at allocated
        cases allocated
        have half : (n + 1) / 2 = (n + 1) / 2 - 1 + 1 := by omega
        have split : (first :: tail).take ((n + 1) / 2) =
            first :: tail.take ((n + 1) / 2 - 1) := by
          rw [half, List.take_succ_cons]
          rfl
        refine .inr ⟨_, split, by rw [split], ?_⟩
        rw [split]
        have front : (first :: tail.take ((n + 1) / 2 - 1)).Sublist v.freeClusters := by
          rw [free]
          exact List.Sublist.cons_cons _ (List.take_sublist _ _)
        refine Chain.of_relink ?_ (by decide) (v.nodup_freeClusters.sublist front) ?_
        · intro y range
          have : y < v.total + 2 := range.2
          omega
        · intro y member
          exact (Vol.mem_freeClusters.mp (front.subset member)).1
  · cases allocated

/-- An allocation changes nothing but links. -/
theorem Vol.allocate_frame (v : Vol) (n : Nat) :
    (v.allocate n).2.spc = v.spc ∧ (v.allocate n).2.total = v.total ∧
      (v.allocate n).2.bytes = v.bytes := by
  unfold Vol.allocate
  split
  · exact ⟨rfl, rfl, rfl⟩
  split
  · exact ⟨rfl, rfl, rfl⟩
  · exact ⟨rfl, rfl, rfl⟩

/-- A failed allocation linked all free clusters, the last one to itself. -/
theorem Vol.allocate_none {v w : Vol} {n : Nat} (allocated : v.allocate n = (none, w)) :
    w = v.linkTo (v.freeClusters.getLastD 0) v.freeClusters := by
  unfold Vol.allocate at allocated
  split at allocated
  · cases allocated
  split at allocated
  · rename_i positive enough
    cases free : v.freeClusters with
    | nil => rw [free] at enough; simp at enough; omega
    | cons c tail =>
        rw [free] at allocated
        cases allocated
  · cases allocated
    rfl

/-- What a successful allocation for some data took is a chain. -/
theorem Vol.takes_chain {v w : Vol} {first : Nat} {data : List UInt8}
    (small : v.total + 2 ≤ 0x0FFFFFF8)
    (allocated : v.allocate (clustersNeeded v.clusterSize data.length) = (some first, w)) :
    (first = 0 ∧ v.takes data = []) ∨ w.ChainFrom first (v.takes data) := by
  unfold Vol.takes
  rcases Vol.allocate_some small allocated with ⟨none, rfl, -⟩ | ⟨rest, split, -, linked⟩
  · exact .inl ⟨rfl, by rw [none]; rfl⟩
  · rw [split]
    exact .inr linked

section WriteAllocated

variable {d : Driver} {t : WriteTarget} {l : List Nat} {first : Nat} {data : List UInt8}

/-- The data is written, and then the directory with the entry in it. -/
theorem writeAllocated_runs (good : d.Good) (parent : d.vol.InRange t.parentCluster)
    (root : d.vol.InRange d.vol.root)
    (chain : (first = 0 ∧ l = []) ∨ d.vol.ChainFrom first l) :
    Runs (writeAllocated t (Dirent.store t.parentBuffer (t.slot * direntSize)
        (Dirent.newFile t.name)) data first) d fun r d' =>
      r = 0 ∧ Effect d d' ((d.vol.writeData l data (data.length % 2 ^ 32)).setBytes
        t.parentCluster (Dirent.store t.parentBuffer (t.slot * direntSize)
          (Dirent.written t.name first data))) := by
  have filled : Runs (writeLoop (d.fs.sectorsPerCluster * 512) (data.length % 2 ^ 32) data
      (data.length % 2 ^ 32) first) d fun ok d' =>
        ok = true ∧ Effect d d' (d.vol.writeData l data (data.length % 2 ^ 32)) := by
    rcases chain with ⟨rfl, rfl⟩ | chain
    · -- without a cluster the loop body is never entered
      cases data.length % 2 ^ 32 with
      | zero => exact Runs.pure ⟨rfl, Effect.refl good⟩
      | succ n =>
          unfold writeLoop
          rw [if_neg (by simp [isValidCluster])]
          exact Runs.pure ⟨rfl, Effect.refl good⟩
    · exact writeLoop_runs l _ data _ first d good chain (Nat.le_refl _)
  unfold writeAllocated
  refine Runs.get_bind (Runs.bind filled ?_)
  rintro _ d₁ ⟨rfl, wrote⟩
  simp only [if_true, Dirent.store_store]
  have root₁ : d₁.vol.InRange d₁.vol.root := by
    rw [wrote.root_eq]
    exact (wrote.inRange_iff _).mpr root
  refine storeBuffer_runs wrote.good ((wrote.inRange_iff _).mpr parent) root₁ ?_
  intro d₂ stored
  rw [wrote.vol_eq] at stored
  exact Runs.pure ⟨rfl, wrote.trans stored⟩

/-- The second half of `fat32_write`, whatever the old entry holds. -/
theorem writeEntry_writes (old : List Nat) (good : d.Good)
    (parent : d.vol.InRange t.parentCluster) (root : d.vol.InRange d.vol.root)
    (clears : d.vol.Clears (Dirent.load t.parentBuffer (t.slot * direntSize)).firstCluster old) :
    Runs (writeEntry t data) d fun r d' =>
      r = (d.vol.writeOver t old data).1 ∧ Effect d d' (d.vol.writeOver t old data).2 := by
  have positive := good.geometry.one_le_spc
  unfold writeEntry
  refine Runs.get_bind (Runs.bind (freeOldChain_clears good clears) ?_)
  intro _ d₁ released
  have parent₁ := (released.inRange_iff _).mpr parent
  have root₁ : d₁.vol.InRange d₁.vol.root := by
    rw [released.root_eq]
    exact (released.inRange_iff _).mpr root
  unfold Vol.writeOver
  by_cases empty : data = []
  · simp only [if_pos empty, writeEmpty]
    refine storeBuffer_runs released.good parent₁ root₁ ?_
    intro d₂ stored
    rw [released.vol_eq] at stored
    exact Runs.pure ⟨rfl, released.trans stored⟩
  · simp only [if_neg empty]
    rw [if_neg (by omega)]
    refine Runs.bind (allocateClusterChain_runs released.good _) ?_
    rintro _ d₂ ⟨rfl, linked⟩
    rw [released.vol_eq] at linked ⊢
    have small : (d.vol.freeAll old).total + 2 ≤ 0x0FFFFFF8 := good.geometry.range_lt_end
    have size : d.vol.clusterSize = d.fs.sectorsPerCluster * 512 := rfl
    rw [size]
    cases result : (d.vol.freeAll old).allocate
        (clustersNeeded (d.fs.sectorsPerCluster * 512) data.length) with
    | mk res w =>
        rw [result] at linked
        have effect := released.trans linked
        cases res with
        | none => exact Runs.pure ⟨rfl, effect⟩
        | some first =>
            have chain : (first = 0 ∧ (d.vol.freeAll old).takes data = []) ∨
                d₂.vol.ChainFrom first ((d.vol.freeAll old).takes data) := by
              rw [effect.vol_eq]
              exact Vol.takes_chain small result
            have root₂ : d₂.vol.InRange d₂.vol.root := by
              rw [effect.root_eq]
              exact (effect.inRange_iff _).mpr root
            refine Runs.mono (writeAllocated_runs (l := (d.vol.freeAll old).takes data)
              effect.good ((effect.inRange_iff _).mpr parent) root₂ chain) ?_
            rintro r d₃ ⟨rfl, stored⟩
            rw [effect.vol_eq] at stored
            exact ⟨rfl, effect.trans stored⟩

/-- Where the old chain does not visit the directory, the directory still holds what was loaded
when it is written back. -/
theorem Vol.writeOver_eq {v : Vol} (old : List Nat)
    (busy : v.fat t.parentCluster ≠ 0)
    (contents : ∀ i, i < v.clusterSize → t.parentBuffer i = v.bytes t.parentCluster i)
    (apart : t.parentCluster ∉ old) : v.writeOver t old data = v.writeAt t.place old data := by
  have busy₁ : t.parentCluster ∉ (v.freeAll old).takes data := by
    intro taken
    have link := (Vol.mem_freeClusters.mp (List.mem_of_mem_take taken)).2
    simp only [Vol.freeAll, if_neg apart] at link
    exact busy link
  unfold Vol.writeOver Vol.writeAt
  by_cases empty : data = []
  · have stored : (v.freeAll old).setBytes t.parentCluster (Dirent.store t.parentBuffer
        (t.slot * direntSize) (Dirent.newFile t.name)) =
        (v.freeAll old).setSlot t.parentCluster t.slot (Dirent.newFile t.name) :=
      Vol.setBytes_store contents
    simp only [if_pos empty, stored]
    rfl
  simp only [if_neg empty]
  cases result : (v.freeAll old).allocate (clustersNeeded v.clusterSize data.length) with
  | mk res w =>
      cases res with
      | none => rfl
      | some first =>
          obtain ⟨spc₁, -, bytes₁⟩ := (v.freeAll old).allocate_frame
            (clustersNeeded v.clusterSize data.length)
          rw [result] at spc₁ bytes₁
          obtain ⟨spc, -, -, frame⟩ := w.writeData_frame ((v.freeAll old).takes data) data
            (data.length % 2 ^ 32)
          have stored : (w.writeData ((v.freeAll old).takes data) data
              (data.length % 2 ^ 32)).setBytes t.parentCluster (Dirent.store t.parentBuffer
                (t.slot * direntSize) (Dirent.written t.name first data)) =
              (w.writeData ((v.freeAll old).takes data) data (data.length % 2 ^ 32)).setSlot
                t.parentCluster t.slot (Dirent.written t.name first data) := by
            refine Vol.setBytes_store fun i hi => ?_
            rw [frame _ busy₁, bytes₁]
            refine contents i ?_
            rwa [Vol.clusterSize, spc, spc₁] at hi
          simp only [stored]
          rfl

/-- The second half of `fat32_write`, when the old chain does not visit the directory. -/
theorem writeEntry_runs (old : List Nat) (good : d.Good) (parent : d.vol.InRange t.parentCluster)
    (root : d.vol.InRange d.vol.root) (busy : d.vol.fat t.parentCluster ≠ 0)
    (contents : ∀ i, i < d.vol.clusterSize → t.parentBuffer i = d.vol.bytes t.parentCluster i)
    (releases : d.vol.Releases
      (Dirent.load t.parentBuffer (t.slot * direntSize)).firstCluster old)
    (apart : t.parentCluster ∉ old) :
    Runs (writeEntry t data) d fun r d' =>
      r = (d.vol.writeAt t.place old data).1 ∧ Effect d d' (d.vol.writeAt t.place old data).2 := by
  have same : d.vol.writeOver t old data = d.vol.writeAt t.place old data :=
    Vol.writeOver_eq old busy contents apart
  rw [← same]
  exact writeEntry_writes old good parent root (releases.clears good.geometry.range_lt_end)

end WriteAllocated

end XosKernel.Fat32
