/-
# Fat32.ReadFile -- a file read piece by piece

The bytes of a file are those of the clusters that the links lead to, cut off at its size
(`Vol.fileBytes`).  Nothing is assumed about the link of the last cluster, or about clusters
that follow: a handle at the end of the file may have moved on to anything.

`HandleAt` ties a handle to a position in the file.  A read from there delivers the next bytes
and moves the handle past them (`fat32Read_delivers`).
-/
import XosKernel.Fat32.ReadSpec

namespace XosKernel.Fat32

open XosKernel.Theory

set_option autoImplicit false

/-! ## Files on a volume -/

namespace Vol

/-- The cluster that following `k` links from `first` leads to. -/
def chainCluster (v : Vol) (first k : Nat) : Nat := v.fat^[k] first

/-- The contents of a file of `size` bytes. -/
def fileBytes (v : Vol) (first size : Nat) : List UInt8 :=
  (List.range size).map fun i =>
    v.bytes (v.chainCluster first (i / v.clusterSize)) (i % v.clusterSize)

/-- The chain has as many clusters as the bytes need. -/
def ChainCovers (v : Vol) (first size : Nat) : Prop :=
  ∀ k, k * v.clusterSize < size → v.InRange (v.chainCluster first k)

/-- The handle stands at byte `p` of the file. -/
structure HandleAt (v : Vol) (first size : Nat) (f : File) (p : Nat) : Prop where
  size_eq : f.fileSize = size
  position : f.filePosition = p
  within : p ≤ size
  current : p < size → f.currentCluster = v.chainCluster first (p / v.clusterSize)

variable {v : Vol} {first size : Nat}

theorem chainCluster_succ (v : Vol) (first k : Nat) :
    v.chainCluster first (k + 1) = v.fat (v.chainCluster first k) :=
  Function.iterate_succ_apply' v.fat k first

@[simp] theorem length_fileBytes (v : Vol) (first size : Nat) :
    (v.fileBytes first size).length = size := by
  simp [fileBytes]

/-- The part of a cluster that a pass of the read loop copies. -/
theorem fileBytes_slice {p m : Nat} (bound : p + m ≤ size)
    (inside : p % v.clusterSize + m ≤ v.clusterSize) :
    (v.bytes (v.chainCluster first (p / v.clusterSize))).toList (p % v.clusterSize) m =
      ((v.fileBytes first size).drop p).take m := by
  apply List.ext_getElem
  · simp
    omega
  · intro k low high
    have small : k < m := by simpa using low
    have positive : 0 < v.clusterSize := by omega
    have split := Nat.div_add_mod p v.clusterSize
    have whole : p + k = v.clusterSize * (p / v.clusterSize) + (p % v.clusterSize + k) := by omega
    have quotient : (p + k) / v.clusterSize = p / v.clusterSize := by
      conv_lhs => rw [whole]
      rw [Nat.mul_add_div positive,
        Nat.div_eq_of_lt (show p % v.clusterSize + k < v.clusterSize by omega), Nat.add_zero]
    have rest : (p + k) % v.clusterSize = p % v.clusterSize + k := by
      have again := Nat.div_add_mod (p + k) v.clusterSize
      rw [quotient] at again
      omega
    simp only [Buf.toList, fileBytes, List.getElem_map, List.getElem_range, List.getElem_take,
      List.getElem_drop, quotient, rest]

/-- After `m` more bytes of its cluster, the handle that is left or moved on to the linked
cluster stands at the next byte. -/
theorem HandleAt.advance {f : File} {p m : Nat} (handle : v.HandleAt first size f p)
    (some_ : 0 < m) (bound : p + m ≤ size) (inside : p % v.clusterSize + m ≤ v.clusterSize) :
    ((p + m) % v.clusterSize ≠ 0 → v.HandleAt first size { f with filePosition := p + m } (p + m)) ∧
      ((p + m) % v.clusterSize = 0 → (p + m) / v.clusterSize = p / v.clusterSize + 1 ∧
        v.HandleAt first size { f with
          filePosition := p + m
          currentCluster := v.fat (v.chainCluster first (p / v.clusterSize)) } (p + m)) := by
  have current := handle.current (by omega)
  have split := Nat.div_add_mod p v.clusterSize
  have positive : 0 < v.clusterSize := by omega
  generalize p / v.clusterSize = k at split current ⊢
  generalize p % v.clusterSize = o at split inside
  have whole : p + m = v.clusterSize * k + (o + m) := by omega
  by_cases full : o + m = v.clusterSize
  · have multiple : p + m = v.clusterSize * (k + 1) := by
      rw [Nat.mul_succ]
      omega
    have next : (p + m) / v.clusterSize = k + 1 := by
      rw [multiple, Nat.mul_div_cancel_left _ positive]
    refine ⟨fun inner => absurd (by rw [multiple, Nat.mul_mod_right]) inner, fun _ => ⟨next, ?_⟩⟩
    refine ⟨handle.size_eq, rfl, bound, fun _ => ?_⟩
    rw [next, chainCluster_succ]
  · have rest : (p + m) % v.clusterSize = o + m := by
      rw [whole, Nat.mul_add_mod, Nat.mod_eq_of_lt (by omega)]
    have same : (p + m) / v.clusterSize = k := by
      rw [whole, Nat.mul_add_div positive, Nat.div_eq_of_lt (by omega), Nat.add_zero]
    refine ⟨fun _ => ⟨handle.size_eq, rfl, bound, fun _ => ?_⟩, fun boundary => by omega⟩
    rw [same]
    exact current

end Vol

/-! ## Reads -/

/-- A mounted volume that can be read: no transfer fails, and the cached table sector is the
one on disk.  (The other table copies do not matter.) -/
structure Driver.Steady (d : Driver) : Prop where
  geometry : Geometry d.fs
  mounted : d.fsMounted = true
  noFault : ∀ n, d.ata.fault n = none
  coherent : d.fs.fatStart ≤ d.fatCacheSector →
    d.fatCacheSector < d.fs.fatStart + d.fs.sectorsPerFat →
    ∀ o, o < 512 → d.fatSectorCache o = d.sector d.fatCacheSector o

theorem Driver.Good.steady {d : Driver} (good : d.Good) : d.Steady :=
  ⟨good.geometry, good.mounted, good.noFault, good.coherent⟩

theorem Driver.Steady.lookable {d : Driver} (steady : d.Steady) : d.Lookable :=
  ⟨steady.geometry.tables, steady.noFault, steady.coherent⟩

/-- The open handle stands at byte `p` of a file of the volume `v`. -/
structure Driver.Reading (d : Driver) (v : Vol) (first size p : Nat) : Prop where
  steady : d.Steady
  vol_eq : d.vol = v
  disk_eq : d.openFile.disk = d.fs.disk
  handle : v.HandleAt first size d.openFile p

/-- `fat32_next_cluster` reads a link and leaves the volume and the handle. -/
theorem Driver.Steady.nextCluster {d : Driver} (steady : d.Steady) {c : Nat}
    (range : d.vol.InRange c) :
    Runs (nextCluster c) d fun r d' => r = d.vol.fat c ∧ d'.Steady ∧ d'.vol = d.vol ∧
      d'.fs = d.fs ∧ d'.openFile = d.openFile := by
  have small := steady.geometry.range_lt_end
  have high : c < d.fs.totalClusters + 2 := range.2
  refine Runs.mono (nextCluster_looks steady.lookable (by omega)
    (steady.geometry.table_index_lt high)) ?_
  rintro r d' ⟨rfl, looked⟩
  have loaded := looked.loaded
  obtain ⟨cache, t, rfl⟩ := looked.frame
  exact ⟨(Driver.vol_fat d high).symm,
    ⟨steady.geometry, steady.mounted, steady.noFault, fun _ _ => loaded⟩, rfl, rfl, rfl⟩

section Pass

variable {v : Vol} {first size : Nat} (covers : v.ChainCovers first size)
include covers

/-- The byte at `p` is in a cluster of the volume, on which the handle stands. -/
theorem Driver.Reading.here {d : Driver} {p : Nat} (reading : d.Reading v first size p)
    (more : p < size) :
    d.openFile.currentCluster = v.chainCluster first (p / v.clusterSize) ∧
      v.InRange (v.chainCluster first (p / v.clusterSize)) ∧
      isValidCluster (v.chainCluster first (p / v.clusterSize)) = true := by
  have range := covers (p / v.clusterSize) (Nat.lt_of_le_of_lt (Nat.div_mul_le_self _ _) more)
  refine ⟨reading.handle.current more, range, ?_⟩
  have end_ := reading.steady.geometry.range_lt_end
  rw [← reading.vol_eq] at range ⊢
  have low := range.1
  have high : _ < d.fs.totalClusters + 2 := range.2
  simp only [isValidCluster, Bool.and_eq_true, decide_eq_true_eq]
  omega

/-- The end of a pass, after `m` bytes were copied and counted: at the end of a cluster the handle
moves on to the linked one.  If there is none, no byte is left. -/
theorem moveOn_runs {d : Driver} {f : File} {p m : Nat} (steady : d.Steady) (vol : d.vol = v)
    (disk : d.openFile.disk = d.fs.disk) (file : d.openFile = { f with filePosition := p + m })
    (handle : v.HandleAt first size f p) (some_ : 0 < m) (bound : p + m ≤ size)
    (inside : p % v.clusterSize + m ≤ v.clusterSize) {rest : FatM (List UInt8)}
    {out : List UInt8} {Q : List UInt8 → Driver → Prop}
    (again : ∀ d', d'.fs = d.fs → d'.Reading v first size (p + m) → Runs rest d' Q)
    (ends : ∀ d', d'.fs = d.fs → d'.Reading v first size (p + m) → p + m = size → Q out d') :
    Runs (moveOn v.clusterSize (v.chainCluster first (p / v.clusterSize)) (p + m) out rest) d
      Q := by
  unfold moveOn
  obtain ⟨inner, boundary⟩ := handle.advance some_ bound inside
  by_cases whole : (p + m) % v.clusterSize = 0
  swap
  · rw [if_neg whole]
    exact again d rfl ⟨steady, vol, disk, by rw [file]; exact inner whole⟩
  rw [if_pos whole]
  obtain ⟨quotient, there⟩ := boundary whole
  have range := covers (p / v.clusterSize)
    (Nat.lt_of_le_of_lt (Nat.div_mul_le_self _ _) (by omega))
  generalize here : v.chainCluster first (p / v.clusterSize) = c at there range ⊢
  refine Runs.bind (steady.nextCluster (by rw [vol]; exact range)) ?_
  rintro _ d₃ ⟨rfl, steady₃, vol₃, fs₃, file₃⟩
  rw [vol] at vol₃ ⊢
  by_cases last : (isEndOfChain (v.fat c) || v.fat c == 0) = true
  · -- more bytes would be in a further cluster
    have all : p + m = size := by
      by_contra short
      have next := covers (p / v.clusterSize + 1) (by
        rw [← quotient, Nat.div_mul_cancel (Nat.dvd_of_mod_eq_zero whole)]
        omega)
      rw [Vol.chainCluster_succ, here] at next
      have end_ := steady.geometry.range_lt_end
      rw [← vol] at next last
      have low : 2 ≤ d.vol.fat c := next.1
      have high : d.vol.fat c < d.fs.totalClusters + 2 := next.2
      simp only [isEndOfChain, Bool.or_eq_true, beq_iff_eq, decide_eq_true_eq] at last
      omega
    rw [if_pos last]
    refine Runs.pure (ends d₃ fs₃ ⟨steady₃, vol₃, by rw [file₃, fs₃]; exact disk, ?_⟩ all)
    rw [file₃, file]
    exact ⟨there.size_eq, rfl, there.within, fun more => by omega⟩
  · rw [if_neg last]
    refine Runs.modify_bind (again _ fs₃ ⟨?_, vol₃, ?_, ?_⟩)
    · exact ⟨steady₃.geometry, steady₃.mounted, steady₃.noFault, steady₃.coherent⟩
    · show d₃.openFile.disk = d₃.fs.disk
      rw [file₃, fs₃]
      exact disk
    · show v.HandleAt first size { d₃.openFile with currentCluster := v.fat c } (p + m)
      rw [file₃, file]
      exact there

/-- One pass of the loop of `fat32_read`: it copies what is left of the cluster or of the
request. -/
theorem readLoop_pass (small : size < 2 ^ 32) {count passes : Nat} {d : Driver} {p m : Nat}
    {out : List UInt8} (reading : d.Reading v first size p) (more : out.length < count)
    (bound : p + (count - out.length) ≤ size)
    (copies : m = min (count - out.length) (v.clusterSize - p % v.clusterSize))
    {Q : List UInt8 → Driver → Prop}
    (again : ∀ d', d'.fs = d.fs → d'.Reading v first size (p + m) →
      Runs (readLoop v.clusterSize count passes
        (out ++ ((v.fileBytes first size).drop p).take m)) d' Q)
    (ends : ∀ d', d'.fs = d.fs → d'.Reading v first size (p + m) → p + m = size →
      Q (out ++ ((v.fileBytes first size).drop p).take m) d') :
    Runs (readLoop v.clusterSize count (passes + 1) out) d Q := by
  have steady := reading.steady
  have positive := steady.geometry.one_le_spc
  obtain ⟨current, range, valid⟩ := reading.here covers (by omega)
  have vol := reading.vol_eq
  have cluster : v.clusterSize = d.fs.sectorsPerCluster * 512 := by
    rw [← vol]
    rfl
  have offset := Nat.mod_lt p (show 0 < v.clusterSize by omega)
  have inside : p % v.clusterSize + m ≤ v.clusterSize := by omega
  have here : d.vol.InRange d.openFile.currentCluster := by
    rw [current, vol]
    exact range
  rw [← vol]
  refine readLoop_copies steady.geometry steady.noFault reading.disk_eq here
    ⟨more, by rw [current]; exact valid⟩ ?_
  rintro buffer _ toCopy _ out' rfl isCopy rfl isOut
  rw [vol, reading.handle.position] at isCopy isOut
  obtain rfl : toCopy = m := isCopy.trans copies.symm
  have position : (p + toCopy) % 2 ^ 32 = p + toCopy := Nat.mod_eq_of_lt (by omega)
  rw [current, @Vol.fileBytes_slice v first size p toCopy (by omega) inside] at isOut
  rw [vol, reading.handle.position, position, current, isOut]
  refine moveOn_runs covers ?_ ?_ ?_ rfl reading.handle (by omega) (by omega) inside
    again ends
  · exact ⟨steady.geometry, steady.mounted, steady.noFault, steady.coherent⟩
  · exact vol
  · exact reading.disk_eq

/-- The loop of `fat32_read` copies what is left of the request and moves the handle past it.
The bound on the passes does not cut it short. -/
theorem readLoop_delivers (small : size < 2 ^ 32) {count : Nat} (passes : Nat) {d : Driver}
    {p : Nat} {out : List UInt8} (reading : d.Reading v first size p) (done : out.length ≤ count)
    (bound : p + (count - out.length) ≤ size) (enough : count - out.length ≤ passes) :
    Runs (readLoop v.clusterSize count passes out) d fun r d' =>
      r = out ++ ((v.fileBytes first size).drop p).take (count - out.length) ∧
        d'.fs = d.fs ∧ d'.Reading v first size (p + (count - out.length)) := by
  induction passes generalizing d p out with
  | zero =>
      have nothing : count - out.length = 0 := by omega
      rw [nothing, List.take_zero, List.append_nil]
      exact Runs.pure ⟨rfl, rfl, reading⟩
  | succ passes ih =>
      by_cases more : out.length < count
      swap
      · have nothing : count - out.length = 0 := by omega
        unfold readLoop
        refine Runs.get_bind ?_
        rw [if_neg fun both => more both.1, nothing, List.take_zero, List.append_nil]
        exact Runs.pure ⟨rfl, rfl, reading⟩
      have positive : 0 < v.clusterSize := by
        have one_le := reading.steady.geometry.one_le_spc
        rw [← reading.vol_eq, Driver.vol_clusterSize]
        omega
      obtain ⟨m, copies⟩ :
          ∃ m, m = min (count - out.length) (v.clusterSize - p % v.clusterSize) := ⟨_, rfl⟩
      have offset := Nat.mod_lt p positive
      have part : m ≤ count - out.length := by omega
      have length : (out ++ ((v.fileBytes first size).drop p).take m).length = out.length + m := by
        rw [List.length_append, List.length_take, List.length_drop, Vol.length_fileBytes]
        omega
      refine readLoop_pass covers small reading more bound copies ?_ ?_
      · -- the passes that follow copy the rest of the request
        intro d' fs there
        refine Runs.mono (ih there (by omega) (by omega) (by omega)) ?_
        rintro r d'' ⟨rfl, fs', arrived⟩
        have rest : count - (out ++ ((v.fileBytes first size).drop p).take m).length =
            count - out.length - m := by omega
        rw [rest] at arrived ⊢
        refine ⟨?_, fs'.trans fs, ?_⟩
        · rw [List.append_assoc, ← List.drop_drop, ← List.take_add, Nat.add_sub_cancel' part]
        · rwa [Nat.add_assoc, Nat.add_sub_cancel' part] at arrived
      · intro d' fs there last
        have all : count - out.length = m := by omega
        rw [all]
        exact ⟨rfl, fs, there⟩

end Pass

/-- A read delivers the next bytes of the file and moves the handle past them. -/
theorem fat32Read_delivers {v : Vol} {first size : Nat} (covers : v.ChainCovers first size)
    (small : size < 2 ^ 32) {d : Driver} {p : Nat} (reading : d.Reading v first size p)
    (count : Nat) :
    Runs (fat32Read count) d fun r d' =>
      r = (toInt32 (min count (size - p)), ((v.fileBytes first size).drop p).take count) ∧
        d'.Reading v first size (p + min count (size - p)) := by
  have within := reading.handle.within
  have left : (d.openFile.fileSize + 2 ^ 32 - d.openFile.filePosition) % 2 ^ 32 = size - p := by
    rw [reading.handle.size_eq, reading.handle.position]
    omega
  have taken : ((v.fileBytes first size).drop p).take count =
      ((v.fileBytes first size).drop p).take (min count (size - p)) := by
    rw [List.take_eq_take_iff, List.length_drop, Vol.length_fileBytes]
    omega
  unfold fat32Read
  refine Runs.get_bind ?_
  rw [if_pos reading.steady.mounted]
  simp only [left]
  rw [taken]
  by_cases nothing : min count (size - p) = 0
  · rw [if_pos nothing, nothing]
    exact Runs.pure ⟨rfl, reading⟩
  · have cluster : d.fs.sectorsPerCluster * 512 = v.clusterSize := by
      rw [← reading.vol_eq, Driver.vol_clusterSize]
    rw [if_neg nothing, cluster]
    have loop := @readLoop_delivers v first size covers small (min count (size - p))
      (min count (size - p)) d p [] reading (Nat.zero_le _) (by simp; omega) (by simp)
    simp only [List.length_nil, Nat.sub_zero, List.nil_append] at loop
    refine Runs.bind loop ?_
    rintro _ d' ⟨rfl, -, arrived⟩
    refine Runs.pure ⟨?_, arrived⟩
    rw [List.length_take, List.length_drop, Vol.length_fileBytes, Nat.min_eq_left (by omega)]

/-- A handle that was just opened stands at the first byte. -/
theorem Driver.Steady.reading {d : Driver} (steady : d.Steady) {e : Dirent}
    (fresh : d.openFile = d.fs.handle e) :
    d.Reading d.vol e.firstCluster e.fileSize.toNat 0 := by
  refine ⟨steady, rfl, by rw [fresh]; rfl, ?_⟩
  rw [fresh]
  exact ⟨rfl, rfl, Nat.zero_le _, fun _ => by rw [Nat.zero_div]; rfl⟩

end XosKernel.Fat32
