/-
# Fat32.ReadSpec -- what open and read deliver

Open is a search in one directory (`Vol.openMatch`), and a read is a function of the volume
and the handle (`Vol.read`).  Reads follow the chain from the handle's cluster, so two
volumes that agree on the clusters of that chain deliver the same (`Vol.readAll_congr`), and
a file that fits one cluster is delivered in consecutive slices (`Vol.readAll_slices`).
-/
import XosKernel.Fat32.WriteSpec

namespace XosKernel.Fat32

open XosKernel.Theory

set_option autoImplicit false

/-! ## Reads on the volume -/

namespace Vol

/-- The loop of `fat32_read` on the volume: the bytes delivered and the handle left. -/
def readLoop (v : Vol) (count : Nat) : Nat → File → List UInt8 → List UInt8 × File
  | 0, f, out => (out, f)
  | passes + 1, f, out =>
      if out.length < count ∧ isValidCluster f.currentCluster then
        let offset := f.filePosition % v.clusterSize
        let toCopy := min (count - out.length) (v.clusterSize - offset)
        let position := (f.filePosition + toCopy) % 2 ^ 32
        let out := out ++ (v.bytes f.currentCluster).toList offset toCopy
        if position % v.clusterSize = 0 then
          let next := v.fat f.currentCluster
          if isEndOfChain next || next == 0 then (out, { f with filePosition := position })
          else
            v.readLoop count passes { f with filePosition := position, currentCluster := next } out
        else v.readLoop count passes { f with filePosition := position } out
      else (out, f)

/-- `fat32_read` on the volume. -/
def read (v : Vol) (f : File) (count : Nat) : (Int × List UInt8) × File :=
  let remaining := (f.fileSize + 2 ^ 32 - f.filePosition) % 2 ^ 32
  let count := min count remaining
  if count = 0 then ((0, []), f)
  else
    let r := v.readLoop count count f []
    ((toInt32 r.1.length, r.1), r.2)

/-- A sequence of reads on the volume. -/
def readAll (v : Vol) : File → List Nat → List (Int × List UInt8)
  | _, [] => []
  | f, count :: counts => (v.read f count).1 :: v.readAll (v.read f count).2 counts

/-- The handle stands on a chain, or on no cluster at all. -/
def Readable (v : Vol) (f : File) : Prop :=
  f.currentCluster = 0 ∨ ∃ l, v.ChainFrom f.currentCluster l

end Vol

/-- A sequence of calls of `fat32_read`. -/
def readAll : List Nat → FatM (List (Int × List UInt8))
  | [] => return []
  | count :: counts => do
      let r ← fat32Read count
      let rest ← readAll counts
      return r :: rest

/-- A read went from `d` to `d'` and left the handle `f`. -/
structure ReadEffect (d d' : Driver) (f : File) : Prop where
  good : d'.Good
  fs_eq : d'.fs = d.fs
  vol_eq : d'.vol = d.vol
  file_eq : d'.openFile = f
  disk_eq : f.disk = d.fs.disk
  readable : d.vol.Readable f

theorem ReadEffect.trans {d d' d'' : Driver} {f g : File} (first : ReadEffect d d' f)
    (second : ReadEffect d' d'' g) : ReadEffect d d'' g :=
  ⟨second.good, second.fs_eq.trans first.fs_eq, second.vol_eq.trans first.vol_eq, second.file_eq,
    second.disk_eq.trans (by rw [first.fs_eq]), by rw [← first.vol_eq]; exact second.readable⟩

theorem Driver.Good.setOpenFile {d : Driver} (good : d.Good) (f : File) :
    Driver.Good { d with openFile := f } :=
  ⟨good.geometry, good.mounted, good.noFault, good.copies, good.coherent⟩

/-- The end of a pass of the loop of `fat32_read`: after the last byte of a cluster the handle
moves on. -/
def moveOn (clusterSize current position : Nat) (out : List UInt8) (rest : FatM (List UInt8)) :
    FatM (List UInt8) :=
  if position % clusterSize = 0 then do
    let next ← nextCluster current
    if isEndOfChain next || next == 0 then return out
    else
      modify fun d => { d with openFile := { d.openFile with currentCluster := next } }
      rest
  else rest

/-- The beginning of a pass: it copies from the cluster on which the handle stands. -/
theorem readLoop_copies {d : Driver} (geometry : Geometry d.fs)
    (noFault : ∀ n, d.ata.fault n = none) (disk : d.openFile.disk = d.fs.disk)
    (range : d.vol.InRange d.openFile.currentCluster) {count passes : Nat} {out : List UInt8}
    (more : out.length < count ∧ isValidCluster d.openFile.currentCluster = true)
    {Q : List UInt8 → Driver → Prop}
    (after : ∀ (buffer : Buf) (offset toCopy position : Nat) (out' : List UInt8),
      offset = d.openFile.filePosition % d.vol.clusterSize →
      toCopy = min (count - out.length) (d.vol.clusterSize - offset) →
      position = (d.openFile.filePosition + toCopy) % 2 ^ 32 →
      out' = out ++ (d.vol.bytes d.openFile.currentCluster).toList offset toCopy →
      Runs (moveOn d.vol.clusterSize d.openFile.currentCluster position out'
          (readLoop d.vol.clusterSize count passes out'))
        { d with
          ata := { d.ata with transfers := d.ata.transfers + 1 }
          fileClusterBuf := buffer
          openFile := { d.openFile with filePosition := position } } Q) :
    Runs (readLoop d.vol.clusterSize count (passes + 1) out) d Q := by
  have small := geometry.spc_le
  have positive := geometry.one_le_spc
  have size : d.vol.clusterSize = d.fs.sectorsPerCluster * 512 := rfl
  unfold readLoop
  refine Runs.get_bind ?_
  rw [if_pos more, if_neg (by simp only [fileClusterBufSize]; omega)]
  refine Runs.step (ataReadSectors_run noFault _ _ _ _) (Runs.modify_bind ?_)
  rw [if_pos rfl, if_neg (by omega)]
  refine Runs.modify_bind (after _ _ _ _ _ rfl rfl rfl ?_)
  congr 1
  apply Buf.toList_congr
  intro i low high
  have offset := Nat.mod_lt d.openFile.filePosition (show 0 < d.vol.clusterSize by omega)
  rw [disk]
  exact geometry.read_cluster range d.fileClusterBuf (by omega)

theorem readLoop_runs (count : Nat) : ∀ (passes : Nat) (out : List UInt8) (d : Driver), d.Good →
    d.openFile.disk = d.fs.disk → d.vol.Readable d.openFile →
    Runs (readLoop (d.fs.sectorsPerCluster * 512) count passes out) d fun r d' =>
      r = (d.vol.readLoop count passes d.openFile out).1 ∧
      ReadEffect d d' (d.vol.readLoop count passes d.openFile out).2
  | 0, out, d, good, disk, readable => Runs.pure ⟨rfl, good, rfl, rfl, rfl, disk, readable⟩
  | passes + 1, out, d, good, disk, readable => by
      -- the passes that follow a pass which left the handle `f`
      have again : ∀ (out' : List UInt8) {d' : Driver} {f : File}, ReadEffect d d' f →
          Runs (readLoop d.vol.clusterSize count passes out') d' fun r d'' =>
            r = (d.vol.readLoop count passes f out').1 ∧
            ReadEffect d d'' (d.vol.readLoop count passes f out').2 := by
        intro out' d' f step
        have rest := readLoop_runs count passes out' d' step.good (by
          rw [step.file_eq, step.fs_eq]; exact step.disk_eq) (by
          rw [step.file_eq, step.vol_eq]; exact step.readable)
        rw [step.fs_eq, step.vol_eq, step.file_eq] at rest
        exact Runs.mono rest fun r d'' h => ⟨h.1, step.trans h.2⟩
      unfold Vol.readLoop
      by_cases more : out.length < count ∧ isValidCluster d.openFile.currentCluster = true
      swap
      · unfold readLoop
        refine Runs.get_bind ?_
        rw [if_neg more, if_neg more]
        exact Runs.pure ⟨rfl, good, rfl, rfl, rfl, disk, readable⟩
      -- the handle stands on a chain: no cluster at all is not a valid one
      obtain ⟨l, chain⟩ : ∃ l, d.vol.ChainFrom d.openFile.currentCluster l := by
        rcases readable with none | chain
        · rw [none] at more
          exact absurd more.2 (by decide)
        · exact chain
      have range := chain.valid_of_mem _ chain.head_mem
      rw [if_pos more]
      refine readLoop_copies good.geometry good.noFault disk range more ?_
      intro buffer offset toCopy position out' isOffset isCopy isPosition isOut
      simp only [← isOffset, ← isCopy, ← isPosition, ← isOut]
      have good₂ := ((good.tick (d.ata.transfers + 1)).setFileClusterBuf buffer).setOpenFile
        { d.openFile with filePosition := position }
      unfold moveOn
      by_cases boundary : position % d.vol.clusterSize = 0
      · rw [if_pos boundary, if_pos boundary]
        have next : Runs (nextCluster d.openFile.currentCluster) _ fun r d' =>
            r = d.vol.fat d.openFile.currentCluster ∧ Effect _ d' d.vol :=
          nextCluster_runs good₂ range.2
        refine Runs.bind next ?_
        rintro _ d₃ ⟨rfl, looked⟩
        rcases chain.step with ⟨ends, -⟩ | ⟨goes, rest, -, tail⟩
        · rw [if_pos ends, if_pos ends]
          exact Runs.pure ⟨rfl, looked.good, looked.fs_eq, looked.vol_eq, looked.file_eq, disk,
            .inr ⟨l, chain⟩⟩
        · have onward : ¬ (isEndOfChain (d.vol.fat d.openFile.currentCluster) ||
              d.vol.fat d.openFile.currentCluster == 0) = true := by
            rw [goes]
            exact Bool.false_ne_true
          rw [if_neg onward, if_neg onward]
          refine Runs.modify_bind ?_
          have handle : ({ d₃.openFile with
              currentCluster := d.vol.fat d.openFile.currentCluster } : File) =
              { d.openFile with
                filePosition := position
                currentCluster := d.vol.fat d.openFile.currentCluster } := by
            rw [looked.file_eq]
          rw [handle]
          have step : ReadEffect d { d₃ with openFile :=
              { d.openFile with
                filePosition := position
                currentCluster := d.vol.fat d.openFile.currentCluster } }
              { d.openFile with
                filePosition := position
                currentCluster := d.vol.fat d.openFile.currentCluster } :=
            ⟨looked.good.setOpenFile _, looked.fs_eq, looked.vol_eq, rfl, disk,
              .inr ⟨rest, tail⟩⟩
          exact again out' step
      · rw [if_neg boundary, if_neg boundary]
        have step : ReadEffect d _ { d.openFile with filePosition := position } :=
          ⟨good₂, rfl, rfl, rfl, disk, .inr ⟨l, chain⟩⟩
        exact again out' step

/-- `fat32_read` is `Vol.read`. -/
theorem fat32Read_runs {d : Driver} (good : d.Good) (disk : d.openFile.disk = d.fs.disk)
    (readable : d.vol.Readable d.openFile) (count : Nat) :
    Runs (fat32Read count) d fun r d' =>
      r = (d.vol.read d.openFile count).1 ∧ ReadEffect d d' (d.vol.read d.openFile count).2 := by
  unfold fat32Read Vol.read
  refine Runs.get_bind ?_
  rw [if_pos good.mounted]
  simp only
  generalize min count ((d.openFile.fileSize + 2 ^ 32 - d.openFile.filePosition) % 2 ^ 32) = n
  by_cases nothing : n = 0
  · rw [if_pos nothing, if_pos nothing]
    exact Runs.pure ⟨rfl, good, rfl, rfl, rfl, disk, readable⟩
  · rw [if_neg nothing, if_neg nothing]
    refine Runs.bind (readLoop_runs n n [] d good disk readable) ?_
    rintro _ d' ⟨rfl, effect⟩
    exact Runs.pure ⟨rfl, effect⟩

theorem readAll_runs : ∀ (counts : List Nat) (d : Driver), d.Good →
    d.openFile.disk = d.fs.disk → d.vol.Readable d.openFile →
    Runs (readAll counts) d fun r d' =>
      r = d.vol.readAll d.openFile counts ∧ d'.Good ∧ d'.fs = d.fs ∧ d'.vol = d.vol
  | [], d, good, _, _ => Runs.pure ⟨rfl, good, rfl, rfl⟩
  | count :: counts, d, good, disk, readable => by
      unfold readAll Vol.readAll
      refine Runs.bind (fat32Read_runs good disk readable count) ?_
      rintro _ d₁ ⟨rfl, effect⟩
      have rest := readAll_runs counts d₁ effect.good (by
        rw [effect.file_eq, effect.fs_eq]; exact effect.disk_eq) (by
        rw [effect.file_eq, effect.vol_eq]; exact effect.readable)
      rw [effect.file_eq, effect.vol_eq] at rest
      refine Runs.bind rest ?_
      rintro _ d₂ ⟨rfl, good₂, fs, vol⟩
      exact Runs.pure ⟨rfl, good₂, fs.trans effect.fs_eq, vol⟩

/-! ## Two volumes that agree on a chain -/

namespace Vol

variable {v v' : Vol} {l : List Nat}

/-- Volumes that agree on the links and contents of a list of clusters. -/
structure Agree (v v' : Vol) (l : List Nat) : Prop where
  spc : v'.spc = v.spc
  fat : ∀ x, x ∈ l → v'.fat x = v.fat x
  bytes : ∀ x, x ∈ l → v'.bytes x = v.bytes x

/-- The handle stands on a chain within `l`, or on no cluster. -/
def Within (v : Vol) (l : List Nat) (f : File) : Prop :=
  f.currentCluster = 0 ∨ ∃ t, v.ChainFrom f.currentCluster t ∧ t ⊆ l

theorem readLoop_congr (agree : v.Agree v' l) (count : Nat) : ∀ (passes : Nat) (f : File)
    (out : List UInt8), v.Within l f →
    v'.readLoop count passes f out = v.readLoop count passes f out ∧
      v.Within l (v.readLoop count passes f out).2
  | 0, f, out, within => ⟨rfl, within⟩
  | passes + 1, f, out, within => by
      have size : v'.clusterSize = v.clusterSize := by simp only [clusterSize, agree.spc]
      unfold readLoop
      by_cases more : out.length < count ∧ isValidCluster f.currentCluster = true
      · obtain ⟨t, chain, inside⟩ : ∃ t, v.ChainFrom f.currentCluster t ∧ t ⊆ l := by
          rcases within with none | chain
          · rw [none] at more
            exact absurd more.2 (by decide)
          · exact chain
        have here := inside chain.head_mem
        rw [if_pos more, if_pos more, size, agree.fat _ here, agree.bytes _ here]
        simp only
        split
        · rcases chain.step with ⟨ends, -⟩ | ⟨goes, rest, rfl, tail⟩
          · rw [if_pos ends, if_pos ends]
            exact ⟨rfl, .inr ⟨t, chain, inside⟩⟩
          · have onward : ¬ (isEndOfChain (v.fat f.currentCluster) ||
                v.fat f.currentCluster == 0) = true := by
              rw [goes]
              exact Bool.false_ne_true
            rw [if_neg onward, if_neg onward]
            exact readLoop_congr agree count passes _ _
              (.inr ⟨rest, tail, fun x member => inside (List.mem_cons_of_mem _ member)⟩)
        · exact readLoop_congr agree count passes _ _ (.inr ⟨t, chain, inside⟩)
      · rw [if_neg more, if_neg more]
        exact ⟨rfl, within⟩

theorem read_congr (agree : v.Agree v' l) {f : File} (within : v.Within l f) (count : Nat) :
    v'.read f count = v.read f count ∧ v.Within l (v.read f count).2 := by
  unfold read
  simp only
  split
  · exact ⟨rfl, within⟩
  · obtain ⟨same, inside⟩ := readLoop_congr agree
      (min count ((f.fileSize + 2 ^ 32 - f.filePosition) % 2 ^ 32))
      (min count ((f.fileSize + 2 ^ 32 - f.filePosition) % 2 ^ 32)) f [] within
    rw [same]
    exact ⟨rfl, inside⟩

/-- Volumes that agree on the chain of a handle deliver the same bytes. -/
theorem readAll_congr (agree : v.Agree v' l) : ∀ (counts : List Nat) (f : File), v.Within l f →
    v'.readAll f counts = v.readAll f counts
  | [], _, _ => rfl
  | count :: counts, f, within => by
      obtain ⟨same, inside⟩ := read_congr agree within count
      unfold readAll
      rw [same, readAll_congr agree counts _ inside]

end Vol

/-! ## A file within one cluster -/

/-- The answers to reads of the given sizes that deliver `data` and then nothing. -/
def slices : List UInt8 → List Nat → List (Int × List UInt8)
  | _, [] => []
  | data, count :: counts =>
      (((min count data.length : Nat) : Int), data.take count) :: slices (data.drop count) counts

theorem toInt32_of_small {n : Nat} (small : n < 2 ^ 31) : toInt32 n = n := by
  unfold toInt32
  rw [Int.bmod_def]
  split <;> omega

theorem Buf.toList_eq_drop_take {b : Buf} {data : List UInt8} {off n : Nat}
    (bound : off + n ≤ data.length) (contents : ∀ i, i < data.length → b i = data.getD i 0) :
    b.toList off n = (data.drop off).take n := by
  apply List.ext_getElem
  · simp
    omega
  · intro k low high
    have inside : k < n := by simpa using low
    simp only [Buf.toList, List.getElem_map, List.getElem_range, List.getElem_take,
      List.getElem_drop]
    rw [contents (off + k) (by omega), List.getD_eq_getElem?_getD,
      List.getElem?_eq_getElem (by omega), Option.getD_some]

namespace Vol

variable {v : Vol} {data : List UInt8}

/-- One read of a file that fits one cluster. -/
theorem read_slice {f : File} (fits : data.length ≤ v.clusterSize) (small : v.clusterSize ≤ 4096)
    (size : f.fileSize = data.length) (position : f.filePosition ≤ data.length)
    (chain : data ≠ [] → v.ChainFrom f.currentCluster [f.currentCluster] ∧
      isValidCluster f.currentCluster = true ∧
      ∀ i, i < data.length → v.bytes f.currentCluster i = data.getD i 0) (count : Nat) :
    v.read f count =
      ((((min count (data.length - f.filePosition) : Nat) : Int),
          (data.drop f.filePosition).take count),
        { f with filePosition := f.filePosition + min count (data.length - f.filePosition) }) := by
  have left : (f.fileSize + 2 ^ 32 - f.filePosition) % 2 ^ 32 = data.length - f.filePosition := by
    omega
  unfold read
  simp only [left]
  generalize hn : min count (data.length - f.filePosition) = n
  have taken : (data.drop f.filePosition).take count = (data.drop f.filePosition).take n := by
    rw [← hn, ← List.length_drop, List.take_eq_take_iff]
    omega
  rw [taken]
  by_cases nothing : n = 0
  · rw [if_pos nothing]
    simp [nothing]
  have nonempty : data ≠ [] := by
    rintro rfl
    simp at hn
    omega
  obtain ⟨link, valid, contents⟩ := chain nonempty
  have ends : (isEndOfChain (v.fat f.currentCluster) || v.fat f.currentCluster == 0) = true := by
    rcases link.step with ⟨ends, -⟩ | ⟨-, rest, split, tail⟩
    · exact ends
    · cases split
      cases tail
  rw [if_neg nothing]
  obtain ⟨m, rfl⟩ : ∃ m, n = m + 1 := ⟨n - 1, by omega⟩
  have offset : f.filePosition % v.clusterSize = f.filePosition := Nat.mod_eq_of_lt (by omega)
  have toCopy : min (m + 1 - 0) (v.clusterSize - f.filePosition) = m + 1 := by omega
  have next : (f.filePosition + (m + 1)) % 2 ^ 32 = f.filePosition + (m + 1) :=
    Nat.mod_eq_of_lt (by omega)
  have slice : (v.bytes f.currentCluster).toList f.filePosition (m + 1) =
      (data.drop f.filePosition).take (m + 1) :=
    Buf.toList_eq_drop_take (by omega) contents
  have length : ((data.drop f.filePosition).take (m + 1)).length = m + 1 := by
    simp
    omega
  -- the first pass copies all of it; a further pass finds nothing to do
  have loop : v.readLoop (m + 1) (m + 1) f [] = ((data.drop f.filePosition).take (m + 1),
      { f with filePosition := f.filePosition + (m + 1) }) := by
    unfold readLoop
    rw [if_pos ⟨by simp, valid⟩]
    simp only [List.length_nil, List.nil_append, offset, toCopy, next, slice, ends, if_true]
    split
    · rfl
    · cases m with
      | zero => rfl
      | succ m =>
          unfold readLoop
          rw [if_neg (by rw [length]; omega)]
  rw [loop, length, toInt32_of_small (by omega)]

/-- A file that fits one cluster is delivered in consecutive slices, and then nothing. -/
theorem readAll_slices (fits : data.length ≤ v.clusterSize) (small : v.clusterSize ≤ 4096) :
    ∀ (counts : List Nat) (f : File), f.fileSize = data.length →
      f.filePosition ≤ data.length →
      (data ≠ [] → v.ChainFrom f.currentCluster [f.currentCluster] ∧
        isValidCluster f.currentCluster = true ∧
        ∀ i, i < data.length → v.bytes f.currentCluster i = data.getD i 0) →
      v.readAll f counts = slices (data.drop f.filePosition) counts
  | [], _, _, _, _ => rfl
  | count :: counts, f, size, position, chain => by
      have one := read_slice fits small size position chain count
      unfold readAll slices
      rw [one]
      simp only
      have rest := readAll_slices fits small counts
        { f with filePosition := f.filePosition + min count (data.length - f.filePosition) } size
        (by simp only; omega) chain
      rw [rest]
      simp only [List.length_drop, List.drop_drop]
      congr 1
      by_cases enough : count ≤ data.length - f.filePosition
      · rw [Nat.min_eq_left enough]
      · rw [Nat.min_eq_right (by omega), List.drop_eq_nil_of_le (by omega),
          List.drop_eq_nil_of_le (by omega)]

end Vol

/-! ## Open -/

/-- What `fat32_open` finds in the directory `c`: the slot of a file of that name. -/
def Vol.openMatch (v : Vol) (c : Nat) (path : List UInt8) : Option (Nat × Nat × Dirent) :=
  (makeName83 (skipSlash path)).bind fun name =>
    (lookup (fun e => e.name = name) (v.slots c)).bind fun hit =>
      if hit.2.isDirectory then none else some (c, hit.1, hit.2)

theorem openEntry_runs {d : Driver} (good : d.Good) (path : CStr)
    (range : d.vol.InRange (d.fs.openCluster path.1)) :
    Runs (openEntry path) d fun r d' =>
      r = d.vol.openMatch (d.fs.openCluster path.1) path.1 ∧ Effect d d' d.vol := by
  unfold openEntry Vol.openMatch
  refine Runs.get_bind (Runs.bind (loadDirectoryCluster_runs good range) ?_)
  rintro _ d₁ ⟨b, rfl, contents, loaded⟩
  simp only
  cases makeName83 (skipSlash path.1) with
  | none => exact Runs.pure ⟨rfl, loaded⟩
  | some name =>
      refine Runs.step (scanDirectory_run loaded.good.geometry.roomy _ _) ?_
      rw [loaded.fs_eq, entries_eq_slots good.geometry contents, Option.bind_some]
      cases lookup (fun e => decide (e.name = name)) (d.vol.slots (d.fs.openCluster path.1)) with
      | none => exact Runs.pure ⟨rfl, loaded⟩
      | some hit => exact Runs.pure ⟨rfl, loaded⟩

/-- `fat32_open` returns a handle on the entry it finds. -/
theorem fat32Open_runs {d : Driver} (good : d.Good) (path : CStr)
    (range : d.vol.InRange (d.fs.openCluster path.1)) :
    Runs (fat32Open path) d fun ok d' => d'.Good ∧ d'.fs = d.fs ∧ d'.vol = d.vol ∧
      ((d.vol.openMatch (d.fs.openCluster path.1) path.1 = none ∧ ok = false) ∨
        ∃ c i e, d.vol.openMatch (d.fs.openCluster path.1) path.1 = some (c, i, e) ∧ ok = true ∧
          d'.openFile = d.fs.handle e) := by
  unfold fat32Open
  refine Runs.get_bind ?_
  rw [if_pos good.mounted]
  refine Runs.bind (openEntry_runs good path range) ?_
  rintro _ d₁ ⟨rfl, effect⟩
  cases found : d.vol.openMatch (d.fs.openCluster path.1) path.1 with
  | none => exact Runs.pure ⟨effect.good, effect.fs_eq, effect.vol_eq, .inl ⟨rfl, rfl⟩⟩
  | some hit =>
      obtain ⟨c, i, e⟩ := hit
      refine Runs.modify_bind (Runs.pure ⟨effect.good.setOpenFile _, effect.fs_eq, effect.vol_eq,
        .inr ⟨c, i, e, rfl, rfl, ?_⟩⟩)
      change d₁.fs.handle e = d.fs.handle e
      rw [effect.fs_eq]

end XosKernel.Fat32
