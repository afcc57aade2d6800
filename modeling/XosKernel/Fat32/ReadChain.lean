/-
# Fat32.ReadChain -- reading a file along its chain

A file is spread over the clusters of its chain in order (`Vol.Spread`).  A handle at byte `p`
stands on the cluster that holds it, or on the last one at the end of the file; a pass of the
read loop moves it to the end of the cluster or of the request.  `Vol.readAll_spread`: reads of
any sizes deliver the file in consecutive slices, and then nothing.
-/
import XosKernel.Fat32.ReadSpec

namespace XosKernel.Fat32

open XosKernel.Theory

set_option autoImplicit false

/-- A valid cluster number is no end of a chain. -/
theorem goes_of_valid {c : Nat} (valid : isValidCluster c = true) :
    ¬ (isEndOfChain c || c == 0) = true := by
  simp only [isValidCluster, isEndOfChain, Bool.and_eq_true, Bool.or_eq_true, beq_iff_eq,
    decide_eq_true_eq] at valid ⊢
  omega

namespace Vol

/-- `data` is spread over the `n` clusters `cluster 0, cluster 1, ..`, linked in this order. -/
structure Spread (v : Vol) (cluster : Nat → Nat) (n : Nat) (data : List UInt8) : Prop where
  positive : 0 < n
  fits : data.length ≤ n * v.clusterSize
  small : data.length < 2 ^ 31
  range : ∀ k, k < n → v.InRange (cluster k)
  valid : ∀ k, k < n → isValidCluster (cluster k) = true
  link : ∀ k, k + 1 < n → v.fat (cluster k) = cluster (k + 1)
  last : isEndOfChain (v.fat (cluster (n - 1))) = true
  contents : ∀ k, k < n → ∀ o, o < v.clusterSize → k * v.clusterSize + o < data.length →
    v.bytes (cluster k) o = data.getD (k * v.clusterSize + o) 0

section Spread

variable {v : Vol} {cluster : Nat → Nat} {n : Nat} {data : List UInt8}

/-- From each of its clusters on, the file is a chain. -/
theorem Spread.chain (spread : v.Spread cluster n data) (k : Nat) (bound : k < n) :
    ∃ l, v.ChainFrom (cluster k) l := by
  -- the induction is on the number of clusters that follow
  induction rest : n - 1 - k generalizing k with
  | zero =>
      obtain rfl : k = n - 1 := by omega
      refine ⟨_, .last (spread.range _ bound) ?_⟩
      exact of_decide_eq_true spread.last
  | succ m ih =>
      obtain ⟨l, chain⟩ := ih (k + 1) (by omega) (by omega)
      have next := spread.link k (by omega)
      refine ⟨cluster k :: l, .link (spread.range k bound) ?_ (by rw [next]; exact chain)⟩
      have valid := spread.valid (k + 1) (by omega)
      simp only [isValidCluster, Bool.and_eq_true, decide_eq_true_eq] at valid
      rw [next]
      omega

/-- The handle at byte `p` of the file. -/
structure At (v : Vol) (cluster : Nat → Nat) (n : Nat) (data : List UInt8) (f : File) (p : Nat) :
    Prop where
  size : f.fileSize = data.length
  position : f.filePosition = p
  within : p ≤ data.length
  current : f.currentCluster = cluster (min (p / v.clusterSize) (n - 1))

theorem At.readable {f : File} {p : Nat} (spread : v.Spread cluster n data)
    (handle : v.At cluster n data f p) : v.Readable f := by
  have some_ := spread.positive
  rw [Readable, handle.current]
  exact .inr (spread.chain _ (by omega))

/-- The part of a cluster that a pass copies. -/
theorem Spread.slice (spread : v.Spread cluster n data) {p m : Nat} (bound : p + m ≤ data.length)
    (inside : p % v.clusterSize + m ≤ v.clusterSize) (some_ : 0 < m) :
    (v.bytes (cluster (p / v.clusterSize))).toList (p % v.clusterSize) m =
      (data.drop p).take m := by
  have split := Nat.div_add_mod p v.clusterSize
  rw [Nat.mul_comm] at split
  have index : p / v.clusterSize < n := by
    have fits := spread.fits
    refine Nat.div_lt_of_lt_mul ?_
    rw [Nat.mul_comm]
    omega
  apply List.ext_getElem
  · simp
    omega
  · intro k low high
    have small : k < m := by simpa using low
    simp only [Buf.toList, List.getElem_map, List.getElem_range, List.getElem_take,
      List.getElem_drop]
    rw [spread.contents _ index _ (by omega) (by omega), List.getD_eq_getElem?_getD]
    have place : p / v.clusterSize * v.clusterSize + (p % v.clusterSize + k) = p + k := by omega
    rw [place, List.getElem?_eq_getElem (by omega), Option.getD_some]

/-- The handle within a cluster, and at its end: after `m` more bytes it stands on the same
cluster, on the next one, or has reached the end of the last. -/
theorem At.advance (spread : v.Spread cluster n data) {f : File} {p m : Nat}
    (handle : v.At cluster n data f p) (some_ : 0 < m) (bound : p + m ≤ data.length)
    (inside : p % v.clusterSize + m ≤ v.clusterSize) :
    f.currentCluster = cluster (p / v.clusterSize) ∧ p / v.clusterSize < n ∧
      (((p + m) % v.clusterSize ≠ 0 ∧
          v.At cluster n data { f with filePosition := p + m } (p + m)) ∨
        ((p + m) % v.clusterSize = 0 ∧ p / v.clusterSize + 1 < n ∧
          v.At cluster n data { f with
            filePosition := p + m, currentCluster := cluster (p / v.clusterSize + 1) } (p + m)) ∨
        ((p + m) % v.clusterSize = 0 ∧ p / v.clusterSize = n - 1 ∧ p + m = data.length ∧
          v.At cluster n data { f with filePosition := p + m } (p + m))) := by
  have split := Nat.div_add_mod p v.clusterSize
  have index : p / v.clusterSize < n := by
    have fits := spread.fits
    refine Nat.div_lt_of_lt_mul ?_
    rw [Nat.mul_comm]
    omega
  have current : f.currentCluster = cluster (p / v.clusterSize) := by
    rw [handle.current, Nat.min_eq_left (by omega)]
  have positive : 0 < v.clusterSize := by omega
  refine ⟨current, index, ?_⟩
  generalize p / v.clusterSize = k at split index current ⊢
  generalize p % v.clusterSize = o at split inside
  by_cases full : o + m = v.clusterSize
  · have multiple : p + m = v.clusterSize * (k + 1) := by
      rw [Nat.mul_succ]
      omega
    have boundary : (p + m) % v.clusterSize = 0 := by
      rw [multiple, Nat.mul_mod_right]
    have next : (p + m) / v.clusterSize = k + 1 := by
      rw [multiple, Nat.mul_div_cancel_left _ positive]
    by_cases last : k = n - 1
    · refine .inr (.inr ⟨boundary, last, ?_, handle.size, rfl, bound, ?_⟩)
      · have fits := spread.fits
        have all : k + 1 = n := by omega
        rw [all, Nat.mul_comm] at multiple
        omega
      · rw [next, Nat.min_eq_right (by omega), ← last]
        exact current
    · have more : k + 1 < n := by omega
      refine .inr (.inl ⟨boundary, more, handle.size, rfl, bound, ?_⟩)
      rw [next, Nat.min_eq_left (by omega)]
  · have whole : p + m = v.clusterSize * k + (o + m) := by omega
    have rest : (p + m) % v.clusterSize = o + m := by
      rw [whole, Nat.mul_add_mod, Nat.mod_eq_of_lt (by omega)]
    have same : (p + m) / v.clusterSize = k := by
      rw [whole, Nat.mul_add_div positive, Nat.div_eq_of_lt (by omega), Nat.add_zero]
    refine .inl ⟨by omega, handle.size, rfl, bound, ?_⟩
    rw [same, Nat.min_eq_left (by omega)]
    exact current

/-- The loop of `fat32_read` copies what is left of the request and moves the handle past it. -/
theorem readLoop_spread (spread : v.Spread cluster n data) (positive : 0 < v.clusterSize)
    {count : Nat} (passes : Nat) {f : File} {p : Nat} {out : List UInt8}
    (handle : v.At cluster n data f p) (done : out.length ≤ count)
    (bound : p + (count - out.length) ≤ data.length) (enough : count - out.length ≤ passes) :
    ∃ f', v.readLoop count passes f out = (out ++ (data.drop p).take (count - out.length), f') ∧
      v.At cluster n data f' (p + (count - out.length)) := by
  induction passes generalizing f p out with
  | zero =>
      have nothing : count - out.length = 0 := by omega
      refine ⟨f, ?_, ?_⟩
      · rw [readLoop, nothing, List.take_zero, List.append_nil]
      · rw [nothing]
        exact handle
  | succ passes ih =>
      rw [readLoop]
      by_cases more : out.length < count
      · have offset := Nat.mod_lt p positive
        have room := spread.small
        obtain ⟨m, copies⟩ :
            ∃ m, m = min (count - out.length) (v.clusterSize - p % v.clusterSize) := ⟨_, rfl⟩
        have some_ : 0 < m := by omega
        have part : m ≤ count - out.length := by omega
        have inside : p % v.clusterSize + m ≤ v.clusterSize := by omega
        obtain ⟨current, index, moved⟩ := handle.advance spread some_ (by omega) inside
        have copied := spread.slice (p := p) (by omega) inside some_
        have next : (p + m) % 2 ^ 32 = p + m := Nat.mod_eq_of_lt (by omega)
        have length : (out ++ (data.drop p).take m).length = out.length + m := by
          rw [List.length_append, List.length_take, List.length_drop]
          omega
        -- the passes that follow copy the rest of the request
        have again : ∀ {g : File}, v.At cluster n data g (p + m) →
            ∃ f', v.readLoop count passes g (out ++ (data.drop p).take m) =
                (out ++ (data.drop p).take (count - out.length), f') ∧
              v.At cluster n data f' (p + (count - out.length)) := by
          intro g there
          obtain ⟨f', ran, arrived⟩ := @ih g (p + m) (out ++ (data.drop p).take m) there
            (by omega) (by omega) (by omega)
          have rest : count - (out ++ (data.drop p).take m).length = count - out.length - m := by
            omega
          have joined : (data.drop p).take m ++ (data.drop (p + m)).take (count - out.length - m) =
              (data.drop p).take (count - out.length) := by
            rw [← List.drop_drop, ← List.take_add, Nat.add_sub_cancel' part]
          refine ⟨f', ?_, ?_⟩
          · rw [ran, rest, List.append_assoc, joined]
          · rw [rest] at arrived
            have place : p + (count - out.length) = p + m + (count - out.length - m) := by omega
            rw [place]
            exact arrived
        rw [if_pos ⟨more, by rw [current]; exact spread.valid _ index⟩]
        simp only [handle.position, ← copies, current, copied, next] at moved ⊢
        rcases moved with ⟨inner, there⟩ | ⟨boundary, onward, there⟩ | ⟨boundary, last, ends, there⟩
        · rw [if_neg inner]
          exact again there
        · rw [if_pos boundary, spread.link _ onward,
            if_neg (goes_of_valid (spread.valid _ onward))]
          exact again there
        · have whole : m = count - out.length := by omega
          rw [last] at there
          rw [if_pos boundary, last, spread.last, Bool.true_or, if_pos rfl, ← whole]
          exact ⟨_, rfl, there⟩
      · have nothing : count - out.length = 0 := by omega
        rw [if_neg fun both => more both.1, nothing, List.take_zero, List.append_nil]
        exact ⟨f, rfl, handle⟩

/-- One read of a file along its chain. -/
theorem read_spread (spread : v.Spread cluster n data) (positive : 0 < v.clusterSize) {f : File}
    {p : Nat} (handle : v.At cluster n data f p) (count : Nat) :
    ∃ f', v.read f count =
        ((((min count (data.length - p) : Nat) : Int), (data.drop p).take count), f') ∧
      v.At cluster n data f' (p + min count (data.length - p)) := by
  have room := spread.small
  have within := handle.within
  have left : (f.fileSize + 2 ^ 32 - f.filePosition) % 2 ^ 32 = data.length - p := by
    rw [handle.size, handle.position]
    omega
  have taken : (data.drop p).take count = (data.drop p).take (min count (data.length - p)) := by
    rw [← List.length_drop, List.take_eq_take_iff]
    omega
  simp only [read, left]
  rw [taken]
  generalize total : min count (data.length - p) = m
  by_cases nothing : m = 0
  · rw [if_pos nothing, nothing]
    exact ⟨f, rfl, handle⟩
  · rw [if_neg nothing]
    obtain ⟨f', ran, arrived⟩ := @readLoop_spread v cluster n data spread positive m m f p []
      handle (by simp) (by simp; omega) (by simp)
    refine ⟨f', ?_, by simpa using arrived⟩
    have length : ((data.drop p).take m).length = m := by
      rw [List.length_take, List.length_drop]
      omega
    simp only [List.length_nil, Nat.sub_zero, List.nil_append] at ran
    rw [ran, length, toInt32_of_small (by omega)]

/-- Reads of any sizes deliver the file in consecutive slices, and then nothing. -/
theorem readAll_spread (spread : v.Spread cluster n data) (positive : 0 < v.clusterSize)
    (counts : List Nat) {f : File} {p : Nat} (handle : v.At cluster n data f p) :
    v.readAll f counts = slices (data.drop p) counts := by
  induction counts generalizing f p with
  | nil => rfl
  | cons count counts ih =>
      obtain ⟨f', ran, arrived⟩ := read_spread spread positive handle count
      have rest : (data.drop p).drop count = data.drop (p + min count (data.length - p)) := by
        rw [List.drop_drop]
        by_cases enough : count ≤ data.length - p
        · rw [Nat.min_eq_left enough]
        · rw [Nat.min_eq_right (by omega), List.drop_eq_nil_of_le (by omega),
            List.drop_eq_nil_of_le (by omega)]
      rw [readAll, slices, ran, ih arrived, rest, List.length_drop]

end Spread

end Vol

end XosKernel.Fat32
