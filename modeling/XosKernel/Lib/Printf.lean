/-
# Lib.Printf -- `printf.c`

The text that `printf` puts on the screen, one character after the other.  A directive is read
while it lasts (`Directive.feed`), then its conversion takes an argument (`convert`).  The
arguments are those the format asks for, as in every call of the kernel; one that is missing
prints as nothing.

`print_int` divides a signed `long`, so its remainders have the sign of the value.
-/
import Mathlib.Algebra.Group.Int.Defs
import Mathlib.Algebra.Group.Nat.Defs
import Mathlib.Logic.Basic

namespace XosKernel.Lib

set_option autoImplicit false

/-- The bytes of a string literal. -/
def ascii (s : String) : List UInt8 := s.toList.map fun c => UInt8.ofNat c.toNat

/-- A value of a signed type of `w` bits. -/
def wrap (w : Nat) (v : Int) : Int := v.bmod (2 ^ w)

/-- The conversion of an `int` to `char`. -/
def toChar (v : Int) : UInt8 := UInt8.ofNat (v % 256).toNat

/-! ## Numbers -/

/-- The character of a remainder. -/
def digitChar (rem : Int) : UInt8 := if 9 < rem then toChar (rem - 10 + 97) else toChar (rem + 48)

/-- The loop of `print_int`: the digits of `val`, the last one first.  A `long` has fewer
digits than `buf` has room for, in base 10 and in base 16. -/
def digitsLoop (base : Int) : Nat → Int → List UInt8
  | 0, _ => []
  | room + 1, val =>
      if val = 0 then [] else digitChar (val.tmod base) :: digitsLoop base room (val.tdiv base)

/-- What `print_int` has in `buf`. -/
def intBuffer (val : Int) (base : Int) : List UInt8 :=
  if val = 0 then ascii "0"
  else if base = 10 ∧ val < 0 then digitsLoop base 64 (wrap 64 (-val)) ++ ascii "-"
  else digitsLoop base 64 val

/-- `print_int` -/
def printInt (val : Int) (base : Int) (width : Int) (pad : UInt8) : List UInt8 :=
  let buf := intBuffer val base
  List.replicate (width - buf.length).toNat pad ++ buf.reverse

/-! ## Formats -/

/-- An argument of `printf`: an `int` (or `unsigned`), a pointer, a string. -/
inductive PrintArg where
  | int (val : Int)
  | ptr (val : UInt64)
  | str (text : List UInt8)

/-- What is known of a directive after its first characters. -/
structure Directive where
  pad : UInt8 := 0x20
  width : Int := 0
  fresh : Bool := true

/-- Another character of the directive; `none` if it is the conversion. -/
def Directive.feed (d : Directive) (c : UInt8) : Option Directive :=
  if d.fresh ∧ c = 0x30 then some { d with pad := 0x30, fresh := false }
  else if 0x30 ≤ c ∧ c ≤ 0x39 then
    some { d with width := wrap 32 (d.width * 10 + (c.toNat - 48)), fresh := false }
  else none

/-- The text of a conversion, and the arguments that are left. -/
def convert (d : Directive) (c : UInt8) (args : List PrintArg) : List UInt8 × List PrintArg :=
  if c = 0x73 then
    match args with
    | .str text :: rest => (text, rest)
    | _ => ([], args.tail)
  else if c = 0x64 then
    match args with
    | .int val :: rest => (printInt (wrap 32 val) 10 d.width d.pad, rest)
    | _ => ([], args.tail)
  else if c = 0x78 then
    match args with
    | .int val :: rest => (printInt (val % 2 ^ 32) 16 d.width d.pad, rest)
    | _ => ([], args.tail)
  else if c = 0x70 then
    match args with
    | .ptr val :: rest => (ascii "0x" ++ printInt (wrap 64 val.toNat) 16 d.width d.pad, rest)
    | _ => ([], args.tail)
  else if c = 0x63 then
    match args with
    | .int val :: rest => ([toChar val], rest)
    | _ => ([], args.tail)
  else if c = 0x25 then ([0x25], args)
  else ([0x25, c], args)

/-- The loop of `printf`, inside a directive or not. -/
def printfFrom : Option Directive → List UInt8 → List PrintArg → List UInt8
  | _, [], _ => []
  | none, c :: format, args =>
      if c = 0x25 then printfFrom (some {}) format args else c :: printfFrom none format args
  | some d, c :: format, args =>
      match d.feed c with
      | some d' => printfFrom (some d') format args
      | none => (convert d c args).1 ++ printfFrom none format (convert d c args).2

/-- `printf` -/
def printf (format : String) (args : List PrintArg) : List UInt8 :=
  printfFrom none (ascii format) args

/-- Text without directives is printed as it is. -/
theorem printfFrom_text {text : List UInt8} (plain : 0x25 ∉ text) (format : List UInt8)
    (args : List PrintArg) :
    printfFrom none (text ++ format) args = text ++ printfFrom none format args := by
  induction text with
  | nil => rfl
  | cons c text ih =>
      rw [List.mem_cons, not_or] at plain
      rw [List.cons_append, printfFrom, if_neg (Ne.symm plain.1), ih plain.2]
      rfl

/-- `%d` -/
theorem printfFrom_int (val : Int) (format : List UInt8) (args : List PrintArg) :
    printfFrom none (ascii "%d" ++ format) (.int val :: args) =
      printInt (wrap 32 val) 10 0 0x20 ++ printfFrom none format args := rfl

/-! ## Bytes -/

/-- The numeral of a number in base 10. -/
def decimal (n : Nat) : List UInt8 := (Nat.toDigits 10 n).map fun c => UInt8.ofNat c.toNat

/-- `%d` prints a byte as its numeral. -/
theorem printInt_byte (b : UInt8) : printInt (wrap 32 b.toNat) 10 0 0x20 = decimal b.toNat := by
  have all : ∀ n : Fin 256, printInt (wrap 32 (n.val : Int)) 10 0 0x20 = decimal n.val := by
    decide +kernel
  exact all ⟨b.toNat, b.toNat_lt⟩

end XosKernel.Lib
