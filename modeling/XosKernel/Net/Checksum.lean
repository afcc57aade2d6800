/-
# Net.Checksum -- `net_checksum` against the Internet checksum

The Internet checksum (`internetChecksum`) is the complement of the one's complement sum of the
words of a text in network order, an odd last byte being a high half (`beWords`).  `net_checksum`
adds the words in memory order (`leWords`) and folds the carries at the end; stored in memory
order again, its result has the bytes of the checksum, since a swap of all words swaps their sum.

A last byte without a partner is shifted up by the code too, but in memory order the high half is
the second byte and not the first: the checksum of a text of odd length is right only when that
byte is 0 (`checksumRight_iff`).
-/
import Mathlib.Data.List.Basic
import XosKernel.Theory.OnesComplement
import XosKernel.Net.Frames

namespace XosKernel.Net

open XosKernel.Theory

set_option autoImplicit false

/-! ## The specification -/

/-- The 16-bit words of a text in network order, padded with a zero byte on the right. -/
def beWords : List UInt8 → List Nat
  | high :: low :: rest => (high.toNat * 256 + low.toNat) :: beWords rest
  | [last] => [last.toNat * 256]
  | [] => []

/-- The Internet checksum of a text. -/
def internetChecksum (data : List UInt8) : Nat := 65535 - OnesComplement.sum 65536 (beWords data)

/-- The bytes of a word in network order. -/
def be16 (x : Nat) : List UInt8 := [UInt8.ofNat (x / 256), UInt8.ofNat (x % 256)]

/-! ## The words the code adds -/

/-- The numbers that `sumWords` adds. -/
def leWords : List UInt8 → List Nat
  | low :: high :: rest => (low.toNat + 256 * high.toNat) :: leWords rest
  | [last] => [256 * last.toNat]
  | [] => []

/-- `net_checksum` of `data`, in memory order, is its Internet checksum; the accumulator has held
the sum of all words, and the loop over the carries has come to its end. -/
def ChecksumRight (data : List UInt8) : Prop :=
  le16 (netChecksum data) = be16 (internetChecksum data) ∧
    (sumWords 0 data).toNat = (leWords data).sum ∧
    ∀ passes, 2 ≤ passes → foldCarries passes (sumWords 0 data) >>> 16 = 0

theorem beWords_lt (data : List UInt8) : ∀ word ∈ beWords data, word < 65536 := by
  fun_induction beWords data with
  | case1 high low rest ih =>
      have first := high.toNat_lt
      have second := low.toNat_lt
      intro word member
      rcases List.mem_cons.mp member with rfl | later
      · omega
      · exact ih word later
  | case2 last =>
      have byte := last.toNat_lt
      intro word member
      rw [List.mem_singleton] at member
      omega
  | case3 => exact fun _ none => absurd none List.not_mem_nil

theorem leWords_sum_le (data : List UInt8) :
    (leWords data).sum ≤ 65535 * ((data.length + 1) / 2) := by
  fun_induction leWords data with
  | case1 low high rest ih =>
      have first := low.toNat_lt
      have second := high.toNat_lt
      have half : (rest.length + 1 + 1 + 1) / 2 = (rest.length + 1) / 2 + 1 := by omega
      rw [List.sum_cons, List.length_cons, List.length_cons, half]
      omega
  | case2 last =>
      have byte := last.toNat_lt
      simp only [List.sum_cons, List.sum_nil, List.length_cons, List.length_nil]
      omega
  | case3 => exact Nat.zero_le _

/-! ## The accumulator -/

theorem sumWords_toNat {data : List UInt8} {sum : UInt32}
    (room : sum.toNat + (leWords data).sum < 2 ^ 32) :
    (sumWords sum data).toNat = sum.toNat + (leWords data).sum := by
  fun_induction sumWords sum data with
  | case1 sum low high rest ih =>
      have first := low.toNat_lt
      have second := high.toNat_lt
      rw [leWords, List.sum_cons] at room ⊢
      have word : (sum + (low.toUInt32 + (high.toUInt32 <<< 8))).toNat =
          sum.toNat + (low.toNat + 256 * high.toNat) := by
        simp only [UInt32.toNat_add, UInt32.toNat_shiftLeft, UInt8.toNat_toUInt32,
          UInt32.reduceToNat, Nat.shiftLeft_eq, Nat.reduceMod, Nat.reducePow]
        omega
      rw [ih (by omega), word, Nat.add_assoc]
  | case2 sum last =>
      have byte := last.toNat_lt
      simp only [leWords, List.sum_cons, List.sum_nil, UInt32.toNat_add, UInt32.toNat_shiftLeft,
        UInt8.toNat_toUInt32, UInt32.reduceToNat, Nat.shiftLeft_eq, Nat.reduceMod,
        Nat.reducePow] at room ⊢
      omega
  | case3 sum => rfl

/-- A length that fits in 16 bits leaves room in the accumulator. -/
theorem sumWords_of_length {data : List UInt8} (short : data.length < 2 ^ 16) :
    (sumWords 0 data).toNat = (leWords data).sum := by
  have bound := leWords_sum_le data
  have room : (0 : UInt32).toNat + (leWords data).sum < 2 ^ 32 := by
    rw [UInt32.toNat_zero]
    omega
  rw [sumWords_toNat room, UInt32.toNat_zero, Nat.zero_add]

/-! ## Folding the carries -/

theorem fold_toNat (sum : UInt32) :
    ((sum &&& (0xFFFF : UInt32)) + (sum >>> 16)).toNat =
      sum.toNat % 65536 + sum.toNat / 65536 := by
  have bound := sum.toNat_lt
  have low : sum.toNat &&& 65535 = sum.toNat % 65536 := Nat.and_two_pow_sub_one_eq_mod _ 16
  simp only [UInt32.toNat_add, UInt32.toNat_and, UInt32.toNat_shiftRight, UInt32.reduceToNat, low,
    Nat.shiftRight_eq_div_pow, Nat.reduceMod, Nat.reducePow]
  omega

theorem high_eq_zero_iff {sum : UInt32} : sum >>> 16 = 0 ↔ sum.toNat < 65536 := by
  rw [← UInt32.toNat_inj, UInt32.toNat_shiftRight, Nat.shiftRight_eq_div_pow]
  simp only [UInt32.reduceToNat, Nat.reduceMod, Nat.reducePow]
  omega

theorem foldCarries_norm (passes : Nat) (sum : UInt32) :
    OnesComplement.norm 65536 (foldCarries passes sum).toNat =
      OnesComplement.norm 65536 sum.toNat := by
  fun_induction foldCarries passes sum with
  | case1 sum => rfl
  | case2 passes sum carry ih =>
      rw [ih, fold_toNat]
      exact OnesComplement.norm_fold (by decide) sum.toNat
  | case3 passes sum none => rfl

/-- Two passes leave no carry. -/
theorem foldCarries_ends {passes : Nat} (two : 2 ≤ passes) (sum : UInt32) :
    foldCarries passes sum >>> 16 = 0 := by
  have small : ∀ (passes : Nat) {sum : UInt32}, sum.toNat < 65536 →
      foldCarries passes sum = sum := by
    intro passes sum word
    cases passes with
    | zero => rfl
    | succ passes => rw [foldCarries, if_neg (not_not_intro (high_eq_zero_iff.mpr word))]
  have next : ∀ {passes : Nat} {sum : UInt32}, 1 ≤ passes → sum.toNat < 2 * 65536 - 1 →
      (foldCarries passes sum).toNat < 65536 := by
    intro passes sum one bound
    obtain ⟨passes, rfl⟩ := Nat.exists_eq_add_of_le' one
    rw [foldCarries]
    split
    · have folded := fold_toNat sum
      rw [small passes (by omega)]
      omega
    · next none => exact high_eq_zero_iff.mp (not_not.mp none)
  obtain ⟨passes, rfl⟩ := Nat.exists_eq_add_of_le' two
  rw [high_eq_zero_iff, foldCarries]
  split
  · have bound := sum.toNat_lt
    have folded := fold_toNat sum
    exact next (Nat.le_add_left 1 passes) (by omega)
  · next none => exact high_eq_zero_iff.mp (not_not.mp none)

theorem netChecksum_toNat {data : List UInt8} (short : data.length < 2 ^ 16) :
    (netChecksum data).toNat = 65535 - OnesComplement.norm 65536 (leWords data).sum := by
  have ended := high_eq_zero_iff.mp (foldCarries_ends (show 2 ≤ 2 ^ 32 by decide)
    (sumWords 0 data))
  have folded := foldCarries_norm (2 ^ 32) (sumWords 0 data)
  rw [OnesComplement.norm_of_lt (by decide) ended, sumWords_of_length short] at folded
  have word := OnesComplement.norm_lt (b := 65536) (by decide) (leWords data).sum
  rw [netChecksum, UInt16.toNat_not, UInt32.toNat_toUInt16, folded, Nat.mod_eq_of_lt word,
    UInt16.size]

/-! ## The two orders -/

/-- A word stored low byte first has the bytes of another one in network order when its halves are
swapped. -/
theorem le16_eq_be16_iff {x : UInt16} {y : Nat} (word : y < 65536) :
    le16 x = be16 y ↔ OnesComplement.swap 256 y = x.toNat := by
  have bound := x.toNat_lt
  rw [le16, be16, List.cons.injEq, List.cons.injEq, and_iff_left rfl, ← UInt8.toNat_inj,
    ← UInt8.toNat_inj, UInt16.toNat_toUInt8, UInt16.toNat_toUInt8, UInt8.toNat_ofNat',
    UInt8.toNat_ofNat', UInt16.toNat_shiftRight, Nat.shiftRight_eq_div_pow]
  simp only [UInt16.reduceToNat, Nat.reduceMod, Nat.reducePow, OnesComplement.swap]
  have low := Nat.mod_lt y (show 0 < 256 by decide)
  have high : y / 256 < 256 := Nat.div_lt_of_lt_mul word
  generalize y % 256 = low_ at low ⊢
  generalize y / 256 = high_ at high ⊢
  constructor
  · rintro ⟨first, second⟩
    omega
  · intro same
    constructor <;> omega

/-- Induction over the texts of even length, two bytes at a time. -/
@[elab_as_elim]
theorem even_induction {P : List UInt8 → Prop} (nil : P [])
    (pair : ∀ first second rest, P rest → P (first :: second :: rest)) :
    ∀ data : List UInt8, data.length % 2 = 0 → P data
  | [], _ => nil
  | [_], odd => absurd odd Nat.one_ne_zero
  | first :: second :: rest, even => by
      rw [List.length_cons, List.length_cons] at even
      exact pair first second rest (even_induction nil pair rest (by omega))

theorem leWords_eq_map {data : List UInt8} (even : data.length % 2 = 0) :
    leWords data = (beWords data).map (OnesComplement.swap 256) := by
  refine even_induction rfl (fun high low rest ih => ?_) data even
  have first := high.toNat_lt
  have second := low.toNat_lt
  rw [leWords, beWords, List.map_cons, ih, OnesComplement.swap]
  congr 1
  omega

theorem leWords_append {before after : List UInt8} (even : before.length % 2 = 0) :
    leWords (before ++ after) = leWords before ++ leWords after := by
  refine even_induction rfl (fun low high rest ih => ?_) before even
  rw [List.cons_append, List.cons_append, leWords, leWords, ih, List.cons_append]

theorem beWords_append {before after : List UInt8} (even : before.length % 2 = 0) :
    beWords (before ++ after) = beWords before ++ beWords after := by
  refine even_induction rfl (fun high low rest ih => ?_) before even
  rw [List.cons_append, List.cons_append, beWords, beWords, ih, List.cons_append]

/-- The swapped sum in network order. -/
theorem swap_sum (data : List UInt8) :
    OnesComplement.swap 256 (OnesComplement.sum 65536 (beWords data)) =
      OnesComplement.norm 65536 ((beWords data).map (OnesComplement.swap 256)).sum := by
  have half : 2 ≤ 256 := by decide
  have square : 2 ≤ 65536 := by decide
  have words := beWords_lt data
  have swapped : ∀ word ∈ (beWords data).map (OnesComplement.swap 256), word < 65536 := by
    intro word member
    obtain ⟨other, inside, rfl⟩ := List.mem_map.mp member
    exact OnesComplement.swap_lt half (words other inside)
  have whole := OnesComplement.sum_map_swap half words
  rw [← OnesComplement.sum_eq_norm square swapped]
  exact whole.symm

/-- The checksum is right when the two lists of words have one sum. -/
theorem checksum_iff {data : List UInt8} (short : data.length < 2 ^ 16) :
    le16 (netChecksum data) = be16 (internetChecksum data) ↔
      OnesComplement.norm 65536 ((beWords data).map (OnesComplement.swap 256)).sum =
        OnesComplement.norm 65536 (leWords data).sum := by
  have half : 2 ≤ 256 := by decide
  have square : 2 ≤ 65536 := by decide
  have word : internetChecksum data < 65536 := Nat.lt_succ_of_le (Nat.sub_le _ _)
  have sum : OnesComplement.sum 65536 (beWords data) < 65536 := by
    rw [OnesComplement.sum_eq_norm square (beWords_lt data)]
    exact OnesComplement.norm_lt square _
  have complement : OnesComplement.swap 256 (internetChecksum data) =
      65535 - OnesComplement.swap 256 (OnesComplement.sum 65536 (beWords data)) :=
    OnesComplement.swap_complement half sum
  have left := OnesComplement.norm_lt square ((beWords data).map (OnesComplement.swap 256)).sum
  have right := OnesComplement.norm_lt square (leWords data).sum
  rw [le16_eq_be16_iff word, netChecksum_toNat short, complement, swap_sum]
  omega

/-- A text of even length has the right checksum. -/
theorem checksum_even {data : List UInt8} (short : data.length < 2 ^ 16)
    (even : data.length % 2 = 0) : le16 (netChecksum data) = be16 (internetChecksum data) := by
  rw [checksum_iff short, leWords_eq_map even]

/-- A stored word is a word in memory order. -/
theorem leWords_le16 (x : UInt16) (rest : List UInt8) :
    leWords (le16 x ++ rest) = x.toNat :: leWords rest := by
  have bound := x.toNat_lt
  have word : x.toUInt8.toNat + 256 * (x >>> 8).toUInt8.toNat = x.toNat := by
    simp only [UInt16.toNat_toUInt8, UInt16.toNat_shiftRight, Nat.shiftRight_eq_div_pow,
      UInt16.reduceToNat, Nat.reduceMod, Nat.reducePow]
    omega
  rw [le16, List.cons_append, List.cons_append, List.nil_append, leWords, word]

/-- A text whose checksum is computed over a zero field and stored there sums up to `FFFF`. -/
theorem sum_with_checksum {before after : List UInt8} (even : before.length % 2 = 0)
    (even_ : after.length % 2 = 0) (short : (before ++ le16 0 ++ after).length < 2 ^ 16) :
    OnesComplement.sum 65536
      (beWords (before ++ le16 (netChecksum (before ++ le16 0 ++ after)) ++ after)) = 65535 := by
  have half : 2 ≤ 256 := by decide
  have square : 2 ≤ 65536 := by decide
  have words : ∀ x, (leWords (before ++ le16 x ++ after)).sum =
      ((leWords before).sum + (leWords after).sum) + x.toNat := by
    intro x
    rw [List.append_assoc, leWords_append even, leWords_le16, List.sum_append, List.sum_cons]
    omega
  have stored := netChecksum_toNat short
  rw [words 0, UInt16.toNat_zero, Nat.add_zero] at stored
  have memory := OnesComplement.norm_add_complement square stored
  generalize netChecksum (before ++ le16 0 ++ after) = sum at memory ⊢
  rw [← words] at memory
  have whole : (before ++ le16 sum ++ after).length % 2 = 0 := by
    rw [List.length_append, List.length_append, le16, List.length_cons, List.length_cons,
      List.length_nil]
    omega
  have swapped := swap_sum (before ++ le16 sum ++ after)
  rw [← leWords_eq_map whole, memory] at swapped
  have bound := OnesComplement.norm_lt square (beWords (before ++ le16 sum ++ after)).sum
  rw [← OnesComplement.sum_eq_norm square (beWords_lt _)] at bound
  have back := OnesComplement.swap_swap half bound
  rw [swapped] at back
  exact back.symm

/-- A last byte without a partner counts 256 times what it should. -/
theorem odd_sums {before : List UInt8} (even : before.length % 2 = 0) (last : UInt8) :
    ((beWords (before ++ [last])).map (OnesComplement.swap 256)).sum =
        (leWords before).sum + last.toNat ∧
      (leWords (before ++ [last])).sum = (leWords before).sum + 256 * last.toNat := by
  have swapped : OnesComplement.swap 256 (last.toNat * 256) = last.toNat := by
    rw [OnesComplement.swap, Nat.mul_mod_left, Nat.zero_mul, Nat.zero_add,
      Nat.mul_div_cancel _ (by decide)]
  constructor
  · rw [beWords_append even, List.map_append, ← leWords_eq_map even, List.sum_append, beWords,
      List.map_singleton, swapped, List.sum_singleton]
  · rw [leWords_append even, List.sum_append, leWords, List.sum_singleton]

theorem norm_odd_iff (sum : Nat) (last : UInt8) :
    OnesComplement.norm 65536 (sum + last.toNat) =
      OnesComplement.norm 65536 (sum + 256 * last.toNat) ↔ last = 0 := by
  have square : 2 ≤ 65536 := by decide
  have byte := last.toNat_lt
  rw [OnesComplement.norm_eq_iff square, ← UInt8.toNat_inj]
  constructor
  · rintro ⟨-, same⟩
    have rest := (Nat.modEq_iff_dvd' (by omega)).mp same
    rw [Nat.add_sub_add_left] at rest
    obtain ⟨k, multiple⟩ := rest
    rw [UInt8.toNat_zero]
    omega
  · intro zero
    rw [zero, UInt8.toNat_zero, Nat.mul_zero]
    exact ⟨Iff.rfl, Nat.ModEq.refl _⟩

/-- The checksum of a text is right exactly when the text has an even length or ends with 0. -/
theorem checksumRight_iff {data : List UInt8} (short : data.length < 2 ^ 16) :
    ChecksumRight data ↔ data.length % 2 = 0 ∨ data.getLast? = some 0 := by
  have runs : ChecksumRight data ↔ le16 (netChecksum data) = be16 (internetChecksum data) := by
    refine ⟨And.left, fun same => ⟨same, sumWords_of_length short, fun passes two => ?_⟩⟩
    exact foldCarries_ends two _
  rw [runs, checksum_iff short]
  by_cases even : data.length % 2 = 0
  · rw [leWords_eq_map even]
    exact iff_of_true rfl (.inl even)
  · obtain rfl | ⟨before, last, rfl⟩ := List.eq_nil_or_concat' data
    · exact absurd rfl even
    have whole : before.length % 2 = 0 := by
      rw [List.length_append, List.length_singleton] at even
      omega
    obtain ⟨network, memory⟩ := odd_sums whole last
    rw [network, memory, norm_odd_iff, or_iff_right even, List.getLast?_append,
      List.getLast?_singleton, Option.some_or, Option.some.injEq]

theorem checksumRight_echoData : ChecksumRight echoData :=
  (checksumRight_iff (by decide)).mpr (.inl rfl)

/-- The checksum of the one byte 1 is stored as `FF FE`; the Internet checksum is `FE FF`. -/
theorem checksum_of_odd_byte :
    ¬ ∀ data : List UInt8, data.length < 2 ^ 16 → ChecksumRight data := by
  intro all
  have same := (all [1] (by decide)).1
  exact absurd same (by decide)

end XosKernel.Net
