/-
# Arch.FileReads -- a file of the driver is its bytes

A handle that `fat32_open` just filled in, on a chain that is long enough, serves reads as the
bytes of the file would (`driver_read_matches`).  So everything that is known of `read_exact`
and `skip_bytes` over plain bytes holds of them over the driver, after whatever reads, and how
a file is split into reads makes no difference (`reads_split_freely`).
-/
import XosKernel.Arch.ElfWrites
import XosKernel.Fat32.ReadFile
import XosKernel.Fat32.TableMap

namespace XosKernel.Arch

open XosKernel.Theory XosKernel.Fat32

set_option autoImplicit false

/-! ## Reads in a row -/

/-- A call that takes bytes from a handle. -/
inductive ReadCall where
  | read (count : Nat)
  | exact (count : Nat)
  | skip (count : Nat)

/-- What it returns, and the bytes it put into the buffer. -/
inductive Reply where
  | read (n : Int) (bytes : List UInt8)
  | exact (ok : Bool) (bytes : List UInt8)
  | skip (ok : Bool)
  deriving DecidableEq

def ReadCall.count : ReadCall → Nat
  | .read count => count
  | .exact count => count
  | .skip count => count

/-- Counts that an `int` can return.  `skip_bytes` reads in small chunks. -/
def ReadCall.Small : ReadCall → Prop
  | .read count => count < 2 ^ 31
  | .exact count => count < 2 ^ 31
  | .skip _ => True

section Service

variable {σ : Type} (files : FileService σ)

def ReadCall.exec : ReadCall → StateT σ (Except Ub) Reply
  | .read count => do
      let (n, bytes) ← files.read count
      return .read n bytes
  | .exact count => do
      let (ok, bytes) ← readExact files count
      return .exact ok bytes
  | .skip count => do return .skip (← skipBytes files count)

def runReads : List ReadCall → StateT σ (Except Ub) (List Reply)
  | [] => return []
  | call :: rest => do
      let reply ← call.exec files
      let replies ← runReads rest
      return reply :: replies

end Service

/-- The reply of a call when `left` are the bytes from the handle's position on. -/
def ReadCall.reply (left : List UInt8) : ReadCall → Reply
  | .read count => .read (min count left.length : Nat) (left.take count)
  | .exact count => .exact (count ≤ left.length) (left.take count)
  | .skip count => .skip (count ≤ left.length)

/-- The replies of calls in a row. -/
def replies : List UInt8 → List ReadCall → List Reply
  | _, [] => []
  | left, call :: rest => call.reply left :: replies (left.drop call.count) rest

/-! ## Over plain bytes -/

section Content

variable (content : Content)

theorem exec_content (call : ReadCall) (small : call.Small) (pos : Nat) :
    (call.exec (contentFile (some content))).run pos =
      .ok (call.reply (content.1.drop pos),
        pos + min call.count (content.1.length - pos)) := by
  cases call with
  | read count =>
      have bound : count < 2 ^ 31 := small
      simp only [ReadCall.exec, ReadCall.reply, ReadCall.count, List.length_drop]
      rw [run_bind_of_ok (content_read content count pos), toInt32_of_small (by omega)]
      rfl
  | exact count =>
      have bound : count < 2 ^ 31 := small
      simp only [ReadCall.exec, ReadCall.reply, ReadCall.count, List.length_drop]
      rw [run_bind_of_ok (readExact_content content count pos)]
      simp only [bound, and_true]
      rfl
  | skip count =>
      simp only [ReadCall.exec, ReadCall.reply, ReadCall.count, List.length_drop]
      rw [run_bind_of_ok (skipBytes_content content count pos)]
      rfl

theorem runReads_content (calls : List ReadCall) (small : ∀ call ∈ calls, call.Small) (pos : Nat)
    (within : pos ≤ content.1.length) :
    (runReads (contentFile (some content)) calls).run pos =
      .ok (replies (content.1.drop pos) calls,
        min (pos + (calls.map ReadCall.count).sum) content.1.length) := by
  induction calls generalizing pos with
  | nil =>
      simp only [runReads, replies, List.map_nil, List.sum_nil, Nat.add_zero,
        Nat.min_eq_left within]
      rfl
  | cons call rest ih =>
      have here := exec_content content call (small call List.mem_cons_self) pos
      have later := ih (fun c member => small c (List.mem_cons_of_mem _ member))
        (pos + min call.count (content.1.length - pos)) (by omega)
      have dropped : content.1.drop (pos + min call.count (content.1.length - pos)) =
          (content.1.drop pos).drop call.count := by
        rw [List.drop_drop]
        by_cases enough : call.count ≤ content.1.length - pos
        · rw [Nat.min_eq_left enough]
        · rw [List.drop_eq_nil_of_le (by omega), List.drop_eq_nil_of_le (by omega)]
      have reached : min (pos + min call.count (content.1.length - pos) +
          (rest.map ReadCall.count).sum) content.1.length =
          min (pos + ((call :: rest).map ReadCall.count).sum) content.1.length := by
        rw [List.map_cons, List.sum_cons]
        omega
      rw [dropped, reached] at later
      rw [runReads, run_bind_of_ok here, run_bind_of_ok later]
      rfl

end Content

/-! ## Over the driver -/

section Matching

variable {σ τ : Type} {files : FileService σ} {files' : FileService τ} {R : σ → τ → Prop}

/-- Two services deliver the same. -/
def SameReads (files : FileService σ) (files' : FileService τ) (R : σ → τ → Prop) : Prop :=
  ∀ count s t, R s t → Matches R (files.read count) (files'.read count) s t

theorem readExactLoop_matches (same : SameReads files files' R) (count passes : Nat) (total : Nat)
    (out : List UInt8) (s : σ) (t : τ) (related : R s t) :
    Matches R (readExactLoop files count passes total out)
      (readExactLoop files' count passes total out) s t := by
  induction passes generalizing total out s t with
  | zero => exact Matches.pure _ related
  | succ passes ih =>
      rw [readExactLoop, readExactLoop]
      split
      · refine Matches.bind (same _ s t related) ?_
        rintro ⟨n, bytes⟩ s' t' related'
        simp only
        split
        · exact Matches.pure _ related'
        · exact ih _ _ s' t' related'
      · exact Matches.pure _ related

theorem skipBytesLoop_matches (same : SameReads files files' R) (passes count : Nat) (s : σ) (t : τ)
    (related : R s t) :
    Matches R (skipBytesLoop files passes count) (skipBytesLoop files' passes count) s t := by
  induction passes generalizing count s t with
  | zero => exact Matches.pure _ related
  | succ passes ih =>
      rw [skipBytesLoop, skipBytesLoop]
      split
      · refine Matches.bind (same _ s t related) ?_
        rintro ⟨n, bytes⟩ s' t' related'
        simp only
        split
        · exact Matches.pure _ related'
        · exact ih _ s' t' related'
      · exact Matches.pure _ related

theorem exec_matches (same : SameReads files files' R) (call : ReadCall) (s : σ) (t : τ)
    (related : R s t) : Matches R (call.exec files) (call.exec files') s t := by
  cases call with
  | read count =>
      exact Matches.bind (same count s t related) fun _ _ _ related' => Matches.pure _ related'
  | exact count =>
      exact Matches.bind (readExactLoop_matches same count count 0 [] s t related)
        fun _ _ _ related' => Matches.pure _ related'
  | skip count =>
      exact Matches.bind (skipBytesLoop_matches same count count s t related)
        fun _ _ _ related' => Matches.pure _ related'

theorem runReads_matches (same : SameReads files files' R) (calls : List ReadCall) (s : σ) (t : τ)
    (related : R s t) : Matches R (runReads files calls) (runReads files' calls) s t := by
  induction calls generalizing s t with
  | nil => exact Matches.pure _ related
  | cons call rest ih =>
      refine Matches.bind (exec_matches same call s t related) fun _ s' t' related' => ?_
      exact Matches.bind (ih s' t' related') fun _ _ _ related'' => Matches.pure _ related''

end Matching

/-- The bytes of a file on a volume. -/
def fileContent (v : Vol) (first : Nat) (size : UInt32) : Content :=
  ⟨v.fileBytes first size.toNat, by rw [Vol.length_fileBytes]; exact size.toNat_lt⟩

/-- The driver serves a file on a long enough chain as its bytes. -/
theorem driver_read_matches {v : Vol} {first : Nat} {size : UInt32}
    (covers : v.ChainCovers first size.toNat) (path : CStr) :
    SameReads (driverFiles path) (contentFile (some (fileContent v first size)))
      fun d pos => d.Reading v first size.toNat pos := by
  intro count d pos reading
  obtain ⟨r, d', ran, rfl, arrived⟩ := fat32Read_delivers covers size.toNat_lt reading count
  have content := content_read (fileContent v first size) count pos
  simp only [fileContent, Vol.length_fileBytes] at content
  exact ⟨_, d', _, ran, content, arrived⟩

/-- The driver's `readAll` is a row of reads. -/
theorem readAll_runReads (path : CStr) (counts : List Nat) (d : Driver) {data : List UInt8}
    {Q : Driver → Prop}
    (reads : Runs (runReads (driverFiles path) (counts.map .read)) d fun r d' =>
      r = replies data (counts.map .read) ∧ Q d') :
    Runs (readAll counts) d fun r d' => r = slices data counts ∧ Q d' := by
  induction counts generalizing d data with
  | nil =>
      obtain ⟨r, d', ran, -, holds⟩ := reads
      cases ran
      exact Runs.pure ⟨rfl, holds⟩
  | cons count rest ih =>
      obtain ⟨r, d', ran, is, holds⟩ := reads
      obtain ⟨reply, d₁, first, onward⟩ := bind_returns ran
      obtain ⟨⟨n, bytes⟩, d₂, read, last⟩ := bind_returns first
      cases last
      obtain ⟨replied, d₃, rest_, last⟩ := bind_returns onward
      cases last
      cases is
      refine Runs.step read (Runs.bind (ih d₁ ⟨_, d', rest_, rfl, holds⟩) ?_)
      rintro _ d'' ⟨rfl, done⟩
      exact Runs.pure ⟨rfl, done⟩

/-- The slices are the file in order. -/
theorem flatten_slices (data : List UInt8) (counts : List Nat) :
    ((slices data counts).map Prod.snd).flatten = data.take counts.sum := by
  induction counts generalizing data with
  | nil => simp [slices]
  | cons count rest ih =>
      rw [slices, List.map_cons, List.flatten_cons, ih, List.sum_cons, List.take_add]

/-- On a freshly opened handle, for a chain that is long enough: every sequence of reads gets
consecutive slices of the file, each as long as asked for or as what is left; joined, they
depend only on how many bytes were asked for in all.  The same for reads mixed with
`read_exact` and `skip_bytes`, which end, say whether there were enough bytes, and leave the
handle behind what they took. -/
theorem reads_split_freely (d : Driver) (steady : d.Steady) (e : Dirent)
    (fresh : d.openFile = d.fs.handle e)
    (covers : d.vol.ChainCovers e.firstCluster e.fileSize.toNat) :
    (∀ counts : List Nat, (∀ count ∈ counts, count < 2 ^ 31) →
      Runs (readAll counts) d fun r _ =>
        r = slices (d.vol.fileBytes e.firstCluster e.fileSize.toNat) counts ∧
        (r.map Prod.snd).flatten =
          (d.vol.fileBytes e.firstCluster e.fileSize.toNat).take counts.sum) ∧
    (∀ (path : CStr) (calls : List ReadCall), (∀ call ∈ calls, call.Small) →
      Runs (runReads (driverFiles path) calls) d fun r d' =>
        r = replies (d.vol.fileBytes e.firstCluster e.fileSize.toNat) calls ∧
        d'.openFile.filePosition =
          min (calls.map ReadCall.count).sum e.fileSize.toNat) := by
  have mixed : ∀ (path : CStr) (calls : List ReadCall), (∀ call ∈ calls, call.Small) →
      Runs (runReads (driverFiles path) calls) d fun r d' =>
        r = replies (d.vol.fileBytes e.firstCluster e.fileSize.toNat) calls ∧
        d'.openFile.filePosition =
          min (calls.map ReadCall.count).sum e.fileSize.toNat := by
    intro path calls small
    have matched := runReads_matches (driver_read_matches covers path) calls d 0
      (steady.reading fresh)
    have content := runReads_content (fileContent d.vol e.firstCluster e.fileSize) calls small 0
      (Nat.zero_le _)
    simp only [fileContent, Vol.length_fileBytes, List.drop_zero, Nat.zero_add] at content
    refine Runs.mono (matched.runs content) ?_
    rintro r d' ⟨rfl, reading⟩
    exact ⟨rfl, reading.handle.position⟩
  refine ⟨fun counts small => ?_, mixed⟩
  have reads := mixed (.ofBytes []) (counts.map .read) (by
    intro call member
    obtain ⟨count, among, rfl⟩ := List.mem_map.mp member
    exact small count among)
  refine Runs.mono (readAll_runReads _ counts d reads) ?_
  rintro r d' ⟨rfl, -⟩
  exact ⟨rfl, flatten_slices _ counts⟩

/-- A file of two sectors less 24 bytes, on the chain that starts with the clusters 3 and 4. -/
def twoSectors : Dirent := { Dirent.zero with firstClusterLow := 3, fileSize := 1000 }

/-- A handle on it, just opened. -/
def openTwoSectors : Driver := { looping with openFile := looping.fs.handle twoSectors }

theorem two_sectors_split :
    openTwoSectors.vol.ChainCovers 3 1000 ∧
      Runs (readAll [100, 412, 600, 5]) openTwoSectors fun r _ =>
        r = slices (openTwoSectors.vol.fileBytes 3 1000) [100, 412, 600, 5] ∧
          (r.map Prod.snd).flatten = (openTwoSectors.vol.fileBytes 3 1000).take 1117 := by
  have steady : openTwoSectors.Steady :=
    ⟨⟨by decide, by decide, by decide, by decide, by decide, by decide⟩, rfl, fun _ => rfl,
      fun _ high => absurd high (by decide)⟩
  have covers : openTwoSectors.vol.ChainCovers 3 1000 := by
    intro k inside
    rw [show openTwoSectors.vol.clusterSize = 512 from Nat.one_mul 512] at inside
    obtain rfl | rfl : k = 0 ∨ k = 1 := by omega
    · show looping.vol.InRange 3
      decide
    · show looping.vol.InRange (looping.vol.fat 3)
      decide +kernel
  exact ⟨covers, (reads_split_freely openTwoSectors steady twoSectors rfl covers).1
    [100, 412, 600, 5] (by decide)⟩

end XosKernel.Arch
