/-
# Lib.Numerals -- the numbers that `printf` prints

A directive with a field width is to print the numeral of its argument, padded on the left; a sign
stands before zeros that pad and behind spaces that do (`padded`).  `print_int` has one buffer for
the sign and the digits and pads in front of both, and it takes every value for a signed one.  So
three kinds of directives go wrong: a width of 2^31 or more does not fit its variable, a negative
number padded with zeros gets its sign behind them, and the digits of a pointer in the upper half
of the address space come out of negative remainders (`directiveRight_iff`).  All others print
what they should.
-/
import Mathlib.Data.List.Basic
import XosKernel.Lib.Printf

namespace XosKernel.Lib

set_option autoImplicit false

/-- The numeral of a number, in lower case. -/
def numeral (base n : Nat) : List UInt8 := (Nat.toDigits base n).map fun c => UInt8.ofNat c.toNat

/-! ## Directives -/

/-- The flag and the width of a directive, as they stand in a format. -/
structure FieldWidth where
  zero : Bool
  digits : List UInt8
  decimal : ∀ c ∈ digits, 0x30 ≤ c ∧ c ≤ 0x39
  unflagged : zero = false → digits.head? ≠ some 0x30

namespace FieldWidth

def text (w : FieldWidth) : List UInt8 := (if w.zero then [0x30] else []) ++ w.digits

def pad (w : FieldWidth) : UInt8 := if w.zero then 0x30 else 0x20

/-- The number that the digits are, after another one. -/
def widthFrom (n : Nat) (digits : List UInt8) : Nat :=
  digits.foldl (fun n c => n * 10 + (c.toNat - 48)) n

def width (w : FieldWidth) : Nat := widthFrom 0 w.digits

end FieldWidth

/-- A conversion of a number, with its argument. -/
inductive Conversion where
  | d (val : Int32)
  | x (val : UInt32)
  | p (val : UInt64)

namespace Conversion

def char : Conversion → UInt8
  | d _ => 0x64
  | x _ => 0x78
  | p _ => 0x70

def arg : Conversion → PrintArg
  | d val => .int val.toInt
  | x val => .int val.toNat
  | p val => .ptr val

/-- What stands before the padding. -/
def lead : Conversion → List UInt8
  | p _ => ascii "0x"
  | _ => []

def sign : Conversion → List UInt8
  | d val => if val.toInt < 0 then ascii "-" else []
  | _ => []

def digits : Conversion → List UInt8
  | d val => numeral 10 val.toInt.natAbs
  | x val => numeral 16 val.toNat
  | p val => numeral 16 val.toNat

/-- The base that `print_int` is called with. -/
def base : Conversion → Nat
  | d _ => 10
  | _ => 16

/-- The `long` that `print_int` is called with. -/
def long : Conversion → Int
  | d val => val.toInt
  | x val => val.toNat
  | p val => wrap 64 val.toNat

end Conversion

/-- The number with its padding: zeros behind the sign, spaces before it. -/
def padded (w : FieldWidth) (v : Conversion) : List UInt8 :=
  let padding := List.replicate (w.width - (v.sign ++ v.digits).length) w.pad
  if w.zero then v.sign ++ padding ++ v.digits else padding ++ v.sign ++ v.digits

/-! ## The buffer of `print_int` -/

/-- The size of `buf`. -/
def intBufSize : Nat := 64

/-- The loop of `print_int` with so many elements left in `buf`; `none` is a store behind it. -/
def digitsStored (base : Int) : Nat → Int → Option (List UInt8)
  | 0, val => if val = 0 then some [] else none
  | room + 1, val =>
      if val = 0 then some []
      else (digitsStored base room (val.tdiv base)).map (digitChar (val.tmod base) :: ·)

/-- What `print_int` stores in `buf`, if it does not store behind it. -/
def intBufferStored (val : Int) (base : Int) : Option (List UInt8) :=
  if val = 0 then some (ascii "0")
  else if base = 10 ∧ val < 0 then do
    let digits ← digitsStored base intBufSize (wrap 64 (-val))
    if digits.length < intBufSize then return digits ++ ascii "-" else none
  else digitsStored base intBufSize val

section Digits

variable {b : Nat}

theorem digitChar_eq {rem : Nat} (small : rem < 16) :
    digitChar rem = UInt8.ofNat (Nat.digitChar rem).toNat := by
  have all : ∀ rem : Fin 16, digitChar rem.val = UInt8.ofNat (Nat.digitChar rem.val).toNat := by
    decide
  exact all ⟨rem, small⟩

theorem numeral_eq_if (wide : 1 < b) (n : Nat) : numeral b n =
    if n < b then [UInt8.ofNat (Nat.digitChar n).toNat]
    else numeral b (n / b) ++ [UInt8.ofNat (Nat.digitChar (n % b)).toNat] := by
  rw [numeral, Nat.toDigits_eq_if wide]
  split
  · rfl
  · rw [List.map_append]
    rfl

/-- The loop has the numeral of a positive number, the last digit first. -/
theorem digitsLoop_eq (wide : 1 < b) (known : b ≤ 16) (room : Nat) {n : Nat} (fits : n < b ^ room) :
    digitsLoop b room n = if n = 0 then [] else (numeral b n).reverse := by
  induction room generalizing n with
  | zero =>
      rw [Nat.pow_zero, Nat.lt_one_iff] at fits
      rw [fits, if_pos rfl]
      rfl
  | succ room ih =>
      by_cases zero : n = 0
      · rw [zero, if_pos rfl]
        rfl
      · have left : n / b < b ^ room := by
          rw [Nat.div_lt_iff_lt_mul (by omega), ← Nat.pow_succ]
          exact fits
        have digit := digitChar_eq (Nat.lt_of_lt_of_le (Nat.mod_lt n (by omega)) known)
        rw [digitsLoop, if_neg (by omega), if_neg zero, ← Int.ofNat_tdiv, ← Int.ofNat_tmod,
          ih left, digit, numeral_eq_if wide n]
        by_cases single : n < b
        · rw [if_pos single, if_pos (Nat.div_eq_of_lt single), Nat.mod_eq_of_lt single]
          rfl
        · have more : n / b ≠ 0 := by
            rw [Nat.div_ne_zero_iff]
            omega
          rw [if_neg single, if_neg more, List.reverse_append]
          rfl

theorem natAbs_tdiv_lt (wide : 1 < b) {room : Nat} {val : Int}
    (fits : val.natAbs < b ^ (room + 1)) :
    (val.tdiv b).natAbs < b ^ room := by
  rw [Int.natAbs_tdiv, Int.natAbs_natCast]
  show val.natAbs / b < b ^ room
  rw [Nat.div_lt_iff_lt_mul (by omega), ← Nat.pow_succ]
  exact fits

/-- A value of few digits is stored whole. -/
theorem digitsStored_eq (wide : 1 < b) (room : Nat) {val : Int} (fits : val.natAbs < b ^ room) :
    digitsStored b room val = some (digitsLoop b room val) := by
  induction room generalizing val with
  | zero =>
      rw [Nat.pow_zero, Nat.lt_one_iff, Int.natAbs_eq_zero] at fits
      rw [fits]
      rfl
  | succ room ih =>
      rw [digitsStored, digitsLoop, ih (natAbs_tdiv_lt wide fits)]
      split <;> rfl

theorem digitsLoop_length_le (wide : 1 < b) (room : Nat) {digits : Nat} {val : Int}
    (fits : val.natAbs < b ^ digits) : (digitsLoop b room val).length ≤ digits := by
  induction room generalizing val digits with
  | zero => exact Nat.zero_le _
  | succ room ih =>
      rw [digitsLoop]
      split
      · exact Nat.zero_le _
      · next some_ =>
          cases digits with
          | zero =>
              rw [Nat.pow_zero, Nat.lt_one_iff, Int.natAbs_eq_zero] at fits
              exact absurd fits some_
          | succ digits =>
              rw [List.length_cons]
              exact Nat.succ_le_succ (ih (natAbs_tdiv_lt wide fits))

end Digits

/-- What a directive should do: print the number with its padding, as long as the width or longer,
and store nothing behind the buffer. -/
structure DirectiveRight (w : FieldWidth) (v : Conversion) : Prop where
  prints : ∀ format args, printfFrom none (0x25 :: (w.text ++ v.char :: format)) (v.arg :: args) =
    v.lead ++ padded w v ++ printfFrom none format args
  length : (padded w v).length = max w.width (v.sign ++ v.digits).length
  stored : intBufferStored v.long v.base = some (intBuffer v.long v.base)

/-- The width fits an `int`; there is no padding with zeros before a sign; a pointer is in the
lower half of the address space. -/
def Printable (w : FieldWidth) : Conversion → Prop
  | .d val => w.width < 2 ^ 31 ∧
      (w.zero = true → val.toInt < 0 → w.width ≤ (numeral 10 val.toInt.natAbs).length + 1)
  | .x _ => w.width < 2 ^ 31
  | .p val => w.width < 2 ^ 31 ∧ val.toNat < 2 ^ 63

/-! ## Reading a directive -/

theorem wrap_step (n k : Int) : wrap 32 (wrap 32 n * 10 + k) = wrap 32 (n * 10 + k) := by
  unfold wrap
  rw [← Int.bmod_add_bmod, Int.bmod_mul_bmod, Int.bmod_add_bmod]

/-- The digits of the width. -/
theorem printfFrom_digits {digits : List UInt8} (decimal : ∀ c ∈ digits, 0x30 ≤ c ∧ c ≤ 0x39)
    {d : Directive} (unflagged : d.fresh = true → digits.head? ≠ some 0x30) {n : Nat}
    (is : d.width = wrap 32 n) (rest : List UInt8) (args : List PrintArg) :
    ∃ fresh, printfFrom (some d) (digits ++ rest) args =
      printfFrom (some ⟨d.pad, wrap 32 (FieldWidth.widthFrom n digits), fresh⟩) rest args := by
  induction digits generalizing d n with
  | nil =>
      refine ⟨d.fresh, ?_⟩
      rw [FieldWidth.widthFrom, List.foldl_nil, ← is]
      rfl
  | cons c digits ih =>
      have digit := decimal c List.mem_cons_self
      have low : 48 ≤ c.toNat := UInt8.le_iff_toNat_le.mp digit.1
      have fed : d.feed c = some ⟨d.pad, wrap 32 (d.width * 10 + (c.toNat - 48)), false⟩ := by
        have flag : ¬ (d.fresh = true ∧ c = 0x30) := by
          rintro ⟨fresh, rfl⟩
          exact unflagged fresh rfl
        rw [Directive.feed, if_neg flag, if_pos digit]
      have value : wrap 32 (d.width * 10 + (c.toNat - 48)) =
          wrap 32 ((n * 10 + (c.toNat - 48) : Nat) : Int) := by
        rw [is, wrap_step]
        congr 1
        omega
      obtain ⟨fresh, same⟩ := ih (fun c member => decimal c (List.mem_cons_of_mem _ member))
        (d := ⟨d.pad, wrap 32 (d.width * 10 + (c.toNat - 48)), false⟩)
        (fun wrong => absurd wrong Bool.false_ne_true) value
      refine ⟨fresh, ?_⟩
      rw [List.cons_append, printfFrom, fed]
      exact same

/-- The conversion calls `print_int`. -/
theorem printfFrom_conversion (d : Directive) (v : Conversion) (format : List UInt8)
    (args : List PrintArg) :
    printfFrom (some d) (v.char :: format) (v.arg :: args) =
      v.lead ++ printInt v.long v.base d.width d.pad ++ printfFrom none format args := by
  have letter : ∀ c : UInt8, ¬ c ≤ 0x39 → d.feed c = none := by
    intro c high
    have flag : ¬ (d.fresh = true ∧ c = 0x30) := by
      rintro ⟨-, rfl⟩
      exact high (by decide)
    rw [Directive.feed, if_neg flag, if_neg fun both => high both.2]
  rw [printfFrom]
  cases v with
  | d val =>
      have whole : wrap 32 val.toInt = val.toInt := Int32.toInt_bmod val
      rw [show d.feed (Conversion.d val).char = none from letter 0x64 (by decide)]
      show printInt (wrap 32 val.toInt) 10 d.width d.pad ++ printfFrom none format args = _
      rw [whole]
      rfl
  | x val =>
      have whole : (val.toNat : Int) % 2 ^ 32 = val.toNat := by
        have bound := val.toNat_lt
        omega
      rw [show d.feed (Conversion.x val).char = none from letter 0x78 (by decide)]
      show printInt ((val.toNat : Int) % 2 ^ 32) 16 d.width d.pad ++ printfFrom none format args = _
      rw [whole]
      rfl
  | p val =>
      rw [show d.feed (Conversion.p val).char = none from letter 0x70 (by decide)]
      rfl

/-- What a directive does: print its argument with the pad, behind the width as far as it fits. -/
theorem printfFrom_directive (w : FieldWidth) (v : Conversion) (format : List UInt8)
    (args : List PrintArg) :
    printfFrom none (0x25 :: (w.text ++ v.char :: format)) (v.arg :: args) =
      v.lead ++ printInt v.long v.base (wrap 32 w.width) w.pad ++ printfFrom none format args := by
  have start : ∃ d : Directive, d.pad = w.pad ∧ d.width = wrap 32 ((0 : Nat) : Int) ∧
      (d.fresh = true → w.digits.head? ≠ some 0x30) ∧
      printfFrom none (0x25 :: (w.text ++ v.char :: format)) (v.arg :: args) =
        printfFrom (some d) (w.digits ++ v.char :: format) (v.arg :: args) := by
    cases flag : w.zero with
    | false =>
        refine ⟨{}, ?_, rfl, fun _ => w.unflagged flag, ?_⟩
        · rw [FieldWidth.pad, flag]
          rfl
        · rw [FieldWidth.text, flag]
          rfl
    | true =>
        refine ⟨⟨0x30, 0, false⟩, ?_, rfl, fun wrong => absurd wrong Bool.false_ne_true, ?_⟩
        · rw [FieldWidth.pad, flag]
          rfl
        · rw [FieldWidth.text, flag]
          rfl
  obtain ⟨d, pad, width, unflagged, same⟩ := start
  obtain ⟨fresh, read⟩ := printfFrom_digits w.decimal unflagged width (v.char :: format)
    (v.arg :: args)
  rw [same, read, printfFrom_conversion, pad, FieldWidth.width]

/-! ## The number in the buffer -/

theorem digitsLoop_length_le_room (base : Int) (room : Nat) (val : Int) :
    (digitsLoop base room val).length ≤ room := by
  induction room generalizing val with
  | zero => exact Nat.le_refl 0
  | succ room ih =>
      rw [digitsLoop]
      split
      · exact Nat.zero_le _
      · exact Nat.succ_le_succ (ih _)

theorem intBuffer_length_le (val base : Int) : (intBuffer val base).length ≤ 65 := by
  have signed := digitsLoop_length_le_room base 64 (wrap 64 (-val))
  have unsigned := digitsLoop_length_le_room base 64 val
  unfold intBuffer
  split
  · decide
  · split
    · rw [List.length_append, show (ascii "-").length = 1 from rfl]
      omega
    · omega

/-- A number without a sign. -/
theorem intBuffer_nat {b : Nat} (wide : 1 < b) (known : b ≤ 16) {n : Nat} (fits : n < b ^ 64) :
    (intBuffer n b).reverse = numeral b n := by
  unfold intBuffer
  by_cases zero : n = 0
  · rw [zero, if_pos Int.natCast_zero, numeral, Nat.toDigits_zero]
    rfl
  · rw [if_neg (by omega), if_neg (by omega), digitsLoop_eq wide known 64 fits, if_neg zero,
      List.reverse_reverse]

/-- A negative number in base 10. -/
theorem intBuffer_negative {val : Int} (negative : val < 0) (fits : val.natAbs < 2 ^ 63) :
    (intBuffer val 10).reverse = ascii "-" ++ numeral 10 val.natAbs := by
  have positive : wrap 64 (-val) = (val.natAbs : Int) := by
    rw [show -val = (val.natAbs : Int) by omega]
    exact Int.bmod_eq_of_le (by omega) (by omega)
  have some_ : val.natAbs ≠ 0 := by omega
  have digits := digitsLoop_eq (b := 10) (by decide) (by decide) 64 (n := val.natAbs)
    (Nat.lt_trans fits (by decide))
  rw [intBuffer, if_neg (by omega), if_pos ⟨rfl, negative⟩, positive]
  rw [if_neg some_] at digits
  rw [List.reverse_append, show ((10 : Int) = ((10 : Nat) : Int)) from rfl, digits,
    List.reverse_reverse]
  rfl

/-- A negative value in base 16 has a character between the space and the digits. -/
theorem digitsLoop_negative (room : Nat) {n : Nat} (some_ : n ≠ 0) (fits : n < 16 ^ room) :
    ∃ c ∈ digitsLoop 16 room (-n), 32 < c.toNat ∧ c.toNat < 48 := by
  induction room generalizing n with
  | zero => exact absurd (Nat.lt_one_iff.mp fits) some_
  | succ room ih =>
      have rest : (-(n : Int)).tdiv 16 = -((n / 16 : Nat) : Int) := by
        rw [Int.neg_tdiv]
        rfl
      have rem : (-(n : Int)).tmod 16 = -((n % 16 : Nat) : Int) := by
        rw [Int.neg_tmod]
        rfl
      rw [digitsLoop, if_neg (by omega), rest, rem]
      have small := Nat.mod_lt n (show 0 < 16 by decide)
      by_cases last : n % 16 = 0
      · rw [Nat.pow_succ] at fits
        obtain ⟨c, member, between⟩ := ih (n := n / 16) (by omega) (by omega)
        exact ⟨c, List.mem_cons_of_mem _ member, between⟩
      · refine ⟨_, List.mem_cons_self, ?_⟩
        have char : (digitChar (-((n % 16 : Nat) : Int))).toNat = 48 - n % 16 := by
          rw [digitChar, if_neg (by omega), toChar, UInt8.toNat_ofNat']
          omega
        omega

/-- The digits of a numeral come after the space and what is behind it. -/
theorem digit_of_mem_numeral {n : Nat} {c : UInt8} (member : c ∈ numeral 16 n) : 48 ≤ c.toNat := by
  have digit : ∀ rem : Fin 16, 48 ≤ (UInt8.ofNat (Nat.digitChar rem.val).toNat).toNat := by decide
  induction n using Nat.strongRecOn with
  | ind n ih =>
      rw [numeral_eq_if (by decide)] at member
      split at member
      · next single =>
          rw [List.mem_singleton] at member
          rw [member]
          exact digit ⟨n, single⟩
      · rw [List.mem_append, List.mem_singleton] at member
        rcases member with before | rfl
        · exact ih (n / 16) (by omega) before
        · exact digit ⟨n % 16, Nat.mod_lt n (by decide)⟩

theorem mem_padded_pointer {w : FieldWidth} {val : UInt64} {c : UInt8}
    (member : c ∈ padded w (.p val)) : c.toNat = 32 ∨ 48 ≤ c.toNat := by
  have pad : w.pad.toNat = 32 ∨ 48 ≤ w.pad.toNat := by
    unfold FieldWidth.pad
    split
    · exact .inr (by decide)
    · exact .inl rfl
  have parts : padded w (.p val) =
      List.replicate (w.width - (numeral 16 val.toNat).length) w.pad ++ numeral 16 val.toNat := by
    unfold padded
    split
    · rfl
    · show List.replicate (w.width - (numeral 16 val.toNat).length) w.pad ++ [] ++
        numeral 16 val.toNat = _
      rw [List.append_nil]
  rw [parts] at member
  rcases List.mem_append.mp member with padding | digits
  · rw [List.eq_of_mem_replicate padding]
    exact pad
  · exact .inr (digit_of_mem_numeral digits)

namespace Conversion

theorem sign_cases (v : Conversion) : v.sign = [] ∨ v.sign = ascii "-" := by
  cases v with
  | d val =>
      by_cases negative : val.toInt < 0
      · exact .inr (if_pos negative)
      · exact .inl (if_neg negative)
  | x val => exact .inl rfl
  | p val => exact .inl rfl

/-- `print_int` gets the value itself. -/
def Kept : Conversion → Prop
  | p val => val.toNat < 2 ^ 63
  | _ => True

theorem reverse_buffer {v : Conversion} (kept : v.Kept) :
    (intBuffer v.long v.base).reverse = v.sign ++ v.digits := by
  cases v with
  | d val =>
      have low := val.le_toInt
      have high := val.toInt_lt
      show (intBuffer val.toInt 10).reverse =
        (if val.toInt < 0 then ascii "-" else []) ++ numeral 10 val.toInt.natAbs
      by_cases negative : val.toInt < 0
      · rw [if_pos negative, intBuffer_negative negative (by omega)]
      · have nat : val.toInt = (val.toInt.natAbs : Int) := by omega
        have fits : val.toInt.natAbs < 10 ^ 64 := by omega
        rw [if_neg negative, nat]
        exact intBuffer_nat (by decide) (by decide) fits
  | x val =>
      have bound := val.toNat_lt
      show (intBuffer val.toNat 16).reverse = numeral 16 val.toNat
      exact intBuffer_nat (by decide) (by decide) (Nat.lt_trans bound (by decide))
  | p val =>
      have whole : wrap 64 (val.toNat : Int) = val.toNat := by
        have half : val.toNat < 2 ^ 63 := kept
        exact Int.bmod_eq_of_le (by omega) (by omega)
      have bound := val.toNat_lt
      show (intBuffer (wrap 64 val.toNat) 16).reverse = numeral 16 val.toNat
      rw [whole]
      exact intBuffer_nat (by decide) (by decide) (Nat.lt_trans bound (by decide))

end Conversion

theorem natAbs_wrap_le (val : Int) : (wrap 64 val).natAbs ≤ 2 ^ 63 := by
  have low : -((2 ^ 64 : Nat) / 2 : Int) ≤ wrap 64 val := Int.le_bmod (by decide)
  have high : wrap 64 val < ((2 ^ 64 : Nat) + 1) / 2 := Int.bmod_lt (by decide)
  omega

/-- The digits and the sign of a `long` fit the buffer, in every base. -/
theorem intBufferStored_eq {b : Nat} (wide : 1 < b) {val : Int} (fits : val.natAbs < 2 ^ 64) :
    intBufferStored val b = some (intBuffer val b) := by
  unfold intBufferStored intBuffer
  split
  · rfl
  split
  · next both =>
      have short : (wrap 64 (-val)).natAbs < 10 ^ 20 :=
        Nat.lt_of_le_of_lt (natAbs_wrap_le (-val)) (by decide)
      have base : (b : Int) = ((10 : Nat) : Int) := both.1
      have digits := digitsLoop_length_le (b := 10) (by decide) 64 short
      rw [base, intBufSize, digitsStored_eq (by decide) 64 (Nat.lt_trans short (by decide))]
      simp only [Option.bind_eq_bind, Option.bind_some]
      rw [if_pos (by omega)]
      rfl
  · exact digitsStored_eq wide 64 (Nat.lt_of_lt_of_le fits (Nat.pow_le_pow_left wide 64))

namespace Conversion

theorem buffer_stored (v : Conversion) :
    intBufferStored v.long v.base = some (intBuffer v.long v.base) := by
  cases v with
  | d val =>
      have low := val.le_toInt
      have high := val.toInt_lt
      exact intBufferStored_eq (b := 10) (by decide) (by show val.toInt.natAbs < 2 ^ 64; omega)
  | x val =>
      have bound := val.toNat_lt
      exact intBufferStored_eq (b := 16) (by decide) (by show val.toNat < 2 ^ 64; omega)
  | p val =>
      have bound := natAbs_wrap_le val.toNat
      exact intBufferStored_eq (b := 16) (by decide) (Nat.lt_of_le_of_lt bound (by decide))

end Conversion

/-! ## The directives that are right -/

theorem length_padded (w : FieldWidth) (v : Conversion) :
    (padded w v).length = max w.width (v.sign ++ v.digits).length := by
  unfold padded
  split <;> simp only [List.length_append, List.length_replicate] <;> omega

theorem directiveRight_iff_eq (w : FieldWidth) (v : Conversion) :
    DirectiveRight w v ↔ printInt v.long v.base (wrap 32 w.width) w.pad = padded w v := by
  constructor
  · intro right
    have only := right.prints [] []
    rw [printfFrom_directive] at only
    exact List.append_cancel_left (List.append_cancel_right only)
  · intro same
    refine ⟨fun format args => ?_, length_padded w v, v.buffer_stored⟩
    rw [printfFrom_directive, same]

/-- A width that is no `int` is lost. -/
theorem printInt_wide {w : FieldWidth} (wide : 2 ^ 31 ≤ w.width) (v : Conversion) :
    printInt v.long v.base (wrap 32 w.width) w.pad ≠ padded w v := by
  intro same
  have lengths := congrArg List.length same
  have buffer := intBuffer_length_le v.long v.base
  have bound : wrap 32 w.width < ((2 ^ 32 : Nat) + 1) / 2 := Int.bmod_lt (by decide)
  rw [length_padded] at lengths
  simp only [printInt, List.length_append, List.length_replicate, List.length_reverse] at lengths
  omega

theorem wrap_width {w : FieldWidth} (narrow : w.width < 2 ^ 31) : wrap 32 w.width = w.width :=
  Int.bmod_eq_of_le (by omega) (by omega)

/-- With a width that fits, only a sign can be in the wrong place. -/
theorem printInt_narrow {w : FieldWidth} (narrow : w.width < 2 ^ 31) {v : Conversion}
    (kept : v.Kept) : printInt v.long v.base (wrap 32 w.width) w.pad = padded w v ↔
      (w.zero = true → v.sign ≠ [] → w.width ≤ (v.sign ++ v.digits).length) := by
  have body := v.reverse_buffer kept
  have length : (intBuffer v.long v.base).length = (v.sign ++ v.digits).length := by
    rw [← body, List.length_reverse]
  have count : ((w.width : Int) - ((v.sign ++ v.digits).length : Int)).toNat =
      w.width - (v.sign ++ v.digits).length := by omega
  have printed : printInt v.long v.base (wrap 32 w.width) w.pad =
      List.replicate (w.width - (v.sign ++ v.digits).length) w.pad ++ (v.sign ++ v.digits) := by
    rw [wrap_width narrow, printInt, length, body, count]
  rw [printed]
  unfold padded
  cases flag : w.zero with
  | false =>
      rw [if_neg Bool.false_ne_true, List.append_assoc]
      exact iff_of_true rfl fun wrong => absurd wrong Bool.false_ne_true
  | true =>
      rw [if_pos rfl]
      rcases v.sign_cases with none_ | minus
      · rw [none_]
        exact iff_of_true rfl fun _ wrong => absurd rfl wrong
      · by_cases short : w.width ≤ (v.sign ++ v.digits).length
        · rw [Nat.sub_eq_zero_of_le short, List.replicate_zero, List.append_nil, List.nil_append]
          exact iff_of_true rfl fun _ _ => short
        · -- the first character is a zero, and should be the sign
          obtain ⟨k, more⟩ :=
            Nat.exists_eq_succ_of_ne_zero (Nat.sub_ne_zero_of_lt (Nat.not_le.mp short))
          refine iff_of_false ?_ fun all => short (all rfl ?_)
          · rw [more, minus, List.replicate_succ, FieldWidth.pad, flag]
            intro same
            exact absurd (List.cons.inj same).1 (by decide)
          · rw [minus]
            exact List.cons_ne_nil _ _

/-- A pointer in the upper half prints characters that are no digits. -/
theorem printInt_pointer {val : UInt64} (upper : 2 ^ 63 ≤ val.toNat) (w : FieldWidth) :
    printInt (Conversion.p val).long (Conversion.p val).base (wrap 32 w.width) w.pad ≠
      padded w (.p val) := by
  intro same
  have bound := val.toNat_lt
  have negative : wrap 64 (val.toNat : Int) = -((2 ^ 64 - val.toNat : Nat) : Int) := by
    rw [wrap, Int.bmod_def]
    omega
  obtain ⟨c, member, low, high⟩ := digitsLoop_negative 64 (n := 2 ^ 64 - val.toNat) (by omega)
    (Nat.lt_of_le_of_lt (Nat.sub_le _ _) (by decide))
  have inside : c ∈ padded w (.p val) := by
    rw [← same]
    refine List.mem_append_right _ (List.mem_reverse.mpr ?_)
    show c ∈ intBuffer (wrap 64 val.toNat) 16
    rw [negative, intBuffer, if_neg (by omega), if_neg (by omega)]
    exact member
  rcases mem_padded_pointer inside with space | digit
  · omega
  · omega

/-- A directive prints its number as it should exactly when its width fits an `int`, it does not
pad a negative number with zeros, and its pointer is in the lower half of the address space. -/
theorem directiveRight_iff (w : FieldWidth) (v : Conversion) :
    DirectiveRight w v ↔ Printable w v := by
  rw [directiveRight_iff_eq]
  by_cases narrow : w.width < 2 ^ 31
  · cases v with
    | d val =>
        rw [printInt_narrow narrow (v := .d val) trivial, Printable, and_iff_right narrow]
        by_cases negative : val.toInt < 0
        · have sign : (Conversion.d val).sign = ascii "-" := if_pos negative
          have length : (ascii "-" ++ (Conversion.d val).digits).length =
              (numeral 10 val.toInt.natAbs).length + 1 := rfl
          rw [sign, length]
          exact ⟨fun all flag _ => all flag (List.cons_ne_nil _ _), fun all flag _ =>
            all flag negative⟩
        · have sign : (Conversion.d val).sign = [] := if_neg negative
          rw [sign]
          exact iff_of_true (fun _ wrong => absurd rfl wrong) fun _ wrong => absurd wrong negative
    | x val =>
        rw [printInt_narrow narrow (v := .x val) trivial]
        exact iff_of_true (fun _ wrong => absurd rfl wrong) narrow
    | p val =>
        by_cases lower : val.toNat < 2 ^ 63
        · rw [printInt_narrow narrow (v := .p val) lower]
          exact iff_of_true (fun _ wrong => absurd rfl wrong) ⟨narrow, lower⟩
        · exact iff_of_false (printInt_pointer (Nat.not_lt.mp lower) w) fun both => lower both.2
  · refine iff_of_false (printInt_wide (Nat.not_lt.mp narrow) v) fun printable => narrow ?_
    cases v with
    | d val => exact printable.1
    | x val => exact printable
    | p val => exact printable.1

/-- `%05d`. -/
def fiveZeros : FieldWidth where
  zero := true
  digits := [0x35]
  decimal := by
    intro c member
    rw [List.mem_singleton.mp member]
    decide
  unflagged := fun wrong => absurd wrong (by decide)

/-- `%05d` prints -5 as `000-5`. -/
theorem directive_of_minus_five : ¬ ∀ w v, DirectiveRight w v := by
  intro all
  have wrong := (directiveRight_iff_eq fiveZeros (.d (-5))).mp (all fiveZeros (.d (-5)))
  exact absurd wrong (by decide)

end XosKernel.Lib
