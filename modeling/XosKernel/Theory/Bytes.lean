/-
# Theory.Bytes -- byte buffers and little-endian fields

A buffer is a total function from offsets to bytes: the array of a C program read
without its bound, which the user of the buffer tracks.  Two ways to change one are
enough for a driver that moves sectors and fixed-layout records around:

* `putLe b off n v` stores the low `n` bytes of `v` at `off`, least significant first;
  `le_putLe` reads them back and `le_putLe_of_disjoint` is the frame;
* `blit b off n src` copies the first `n` bytes of `src` to `off`.

`le_congr` is what every larger record codec uses: a field depends on its own bytes only.
-/
import Mathlib.Tactic.Linarith
import Mathlib.Data.Nat.Basic

namespace XosKernel.Theory

set_option autoImplicit false

/-- A byte buffer, without its bound. -/
abbrev Buf := Nat → UInt8

namespace Buf

/-- The `n`-byte little-endian field at `off`. -/
def le (b : Buf) (off : Nat) : Nat → Nat
  | 0 => 0
  | n + 1 => (b off).toNat + 256 * le b (off + 1) n

/-- Store the low `n` bytes of `v` at `off`, least significant first. -/
def putLe (b : Buf) (off n v : Nat) : Buf := fun i =>
  if off ≤ i ∧ i < off + n then UInt8.ofNat (v / 256 ^ (i - off)) else b i

/-- Copy the first `n` bytes of `src` to `off`. -/
def blit (b : Buf) (off n : Nat) (src : Buf) : Buf := fun i =>
  if off ≤ i ∧ i < off + n then src (i - off) else b i

theorem le_congr {b b' : Buf} {off n : Nat} (same : ∀ i, off ≤ i → i < off + n → b i = b' i) :
    le b off n = le b' off n := by
  induction n generalizing off with
  | zero => rfl
  | succ n ih =>
      rw [le, le, same off (Nat.le_refl _) (by omega),
        ih fun i low high => same i (by omega) (by omega)]

/-- A field in two parts. -/
theorem le_add (b : Buf) (off m n : Nat) :
    b.le off (m + n) = b.le off m + 256 ^ m * b.le (off + m) n := by
  induction m generalizing off with
  | zero => rw [Nat.zero_add, Buf.le, Nat.pow_zero, Nat.one_mul, Nat.zero_add, Nat.add_zero]
  | succ m ih =>
      rw [Nat.add_right_comm, Buf.le, ih, Buf.le, Nat.pow_succ', Nat.add_assoc off,
        Nat.add_comm 1 m, Nat.mul_add, Nat.mul_assoc, Nat.add_assoc]

theorem le_lt (b : Buf) (off n : Nat) : le b off n < 256 ^ n := by
  induction n generalizing off with
  | zero => exact Nat.one_pos
  | succ n ih =>
      have byte := (b off).toNat_lt
      have rest := ih (off + 1)
      rw [le, Nat.pow_succ]
      omega

/-- A field of a buffer that starts at `base` in another one. -/
theorem le_shift (b : Buf) (base off n : Nat) :
    le (fun i => b (base + i)) off n = le b (base + off) n := by
  induction n generalizing off with
  | zero => rfl
  | succ n ih => rw [le, le, ih, Nat.add_assoc]

theorem putLe_of_outside {b : Buf} {off n v i : Nat} (outside : i < off ∨ off + n ≤ i) :
    putLe b off n v i = b i := by
  unfold putLe
  rw [if_neg (by omega)]

theorem putLe_of_inside {b : Buf} {off n v i : Nat} (low : off ≤ i) (high : i < off + n) :
    putLe b off n v i = UInt8.ofNat (v / 256 ^ (i - off)) := by
  unfold putLe
  rw [if_pos ⟨low, high⟩]

/-- The bytes a little-endian store leaves read back as the value, truncated. -/
theorem le_of_bytes {b : Buf} {off n v : Nat}
    (bytes : ∀ k, k < n → b (off + k) = UInt8.ofNat (v / 256 ^ k)) :
    le b off n = v % 256 ^ n := by
  induction n generalizing off v with
  | zero => simp [le, Nat.mod_one]
  | succ n ih =>
      have first : b off = UInt8.ofNat v := by simpa using bytes 0 (by omega)
      have rest : le b (off + 1) n = v / 256 % 256 ^ n := by
        apply ih
        intro k bound
        have step := bytes (k + 1) (by omega)
        rw [Nat.pow_succ', ← Nat.div_div_eq_div_mul] at step
        rw [← step]
        congr 1
        omega
      have split : v % 256 ^ (n + 1) = v % 256 + 256 * (v / 256 % 256 ^ n) := by
        rw [Nat.pow_succ', Nat.mod_mul]
      have low : (UInt8.ofNat v).toNat = v % 256 := by simp
      rw [le, first, rest, low, split]

/-- A field that reads as a value has the bytes of the value. -/
theorem bytes_of_le {b : Buf} {off n v : Nat} (same : le b off n = v % 256 ^ n) {k : Nat}
    (inside : k < n) : b (off + k) = UInt8.ofNat (v / 256 ^ k) := by
  induction n generalizing off v k with
  | zero => exact absurd inside (Nat.not_lt_zero k)
  | succ n ih =>
      have byte := (b off).toNat_lt
      rw [le, Nat.pow_succ', Nat.mod_mul] at same
      cases k with
      | zero =>
          apply UInt8.toNat_inj.mp
          rw [Nat.add_zero, Nat.pow_zero, Nat.div_one, UInt8.toNat_ofNat']
          omega
      | succ k =>
          have rest : b (off + 1 + k) = UInt8.ofNat (v / 256 / 256 ^ k) :=
            ih (by omega) (Nat.lt_of_succ_lt_succ inside)
          rw [Nat.pow_succ', ← Nat.div_div_eq_div_mul, ← rest]
          congr 1
          omega

/-- Storing what a field holds already changes nothing. -/
theorem putLe_of_le_eq {b : Buf} {off n v : Nat} (same : le b off n = v % 256 ^ n) :
    putLe b off n v = b := by
  funext i
  by_cases inside : off ≤ i ∧ i < off + n
  · have byte := bytes_of_le same (k := i - off) (by omega)
    rw [putLe_of_inside inside.1 inside.2, ← byte]
    congr 1
    omega
  · exact putLe_of_outside (by omega)

theorem le_putLe (b : Buf) (off n v : Nat) : le (putLe b off n v) off n = v % 256 ^ n := by
  apply le_of_bytes
  intro k bound
  rw [putLe_of_inside (by omega) (by omega), Nat.add_sub_cancel_left]

theorem le_putLe_of_disjoint {b : Buf} {off n v off' n' : Nat}
    (disjoint : off' + n' ≤ off ∨ off + n ≤ off') :
    le (putLe b off n v) off' n' = le b off' n' := by
  apply le_congr
  intro i low high
  exact putLe_of_outside (by omega)

theorem blit_of_outside {b src : Buf} {off n i : Nat} (outside : i < off ∨ off + n ≤ i) :
    blit b off n src i = b i := by
  unfold blit
  rw [if_neg (by omega)]

theorem blit_of_inside {b src : Buf} {off n i : Nat} (low : off ≤ i) (high : i < off + n) :
    blit b off n src i = src (i - off) := by
  unfold blit
  rw [if_pos ⟨low, high⟩]

/-- The first `n` bytes of a buffer as a list. -/
def toList (b : Buf) (off n : Nat) : List UInt8 := (List.range n).map fun k => b (off + k)

/-- A list as a buffer, zero beyond its end. -/
def ofList (l : List UInt8) : Buf := fun i => l.getD i 0

@[simp] theorem length_toList (b : Buf) (off n : Nat) : (toList b off n).length = n := by
  simp [toList]

theorem toList_congr {b b' : Buf} {off n : Nat}
    (same : ∀ i, off ≤ i → i < off + n → b i = b' i) : toList b off n = toList b' off n := by
  apply List.map_congr_left
  intro k member
  rw [List.mem_range] at member
  exact same _ (by omega) (by omega)

theorem toList_append (b : Buf) (off n m : Nat) :
    b.toList off (n + m) = b.toList off n ++ b.toList (off + n) m := by
  unfold Buf.toList
  rw [List.range_add, List.map_append, List.map_map]
  congr 1
  apply List.map_congr_left
  intro i _
  rw [Function.comp_apply, Nat.add_assoc]

end Buf

/-! ## Loops of stores -/

/-- What one pass of a loop sets and all passes keep holds after the loop. -/
theorem foldl_reaches {α β : Type} {P : β → Prop} {step : β → α → β} {l : List α} {a : α}
    (member : a ∈ l) (sets : ∀ b, P (step b a)) (keeps : ∀ b, P b → ∀ x ∈ l, P (step b x)) (b : β) :
    P (l.foldl step b) := by
  obtain ⟨before, after, rfl⟩ := List.append_of_mem member
  rw [List.foldl_append, List.foldl_cons]
  refine List.foldlRecOn after step (sets _) fun b holds x later => keeps b holds x ?_
  exact List.mem_append_right _ (List.mem_cons_of_mem _ later)

end XosKernel.Theory
