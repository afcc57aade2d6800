/-
# Fat32.Names -- 8.3 names

`fat32_make_name83` turns a path's last component into the eleven bytes that open, write
and delete compare; `fat32_format_name` and `fat32_name_match` go the other way, from an
entry to the text that path navigation compares.
-/
import XosKernel.Fat32.Driver

namespace XosKernel.Fat32

open XosKernel.Theory

set_option autoImplicit false

def slash : UInt8 := 0x2F
def dot : UInt8 := 0x2E
def space : UInt8 := 0x20

/-- One character of `fat32_make_upper`. -/
def upper (c : UInt8) : UInt8 := if 0x61 ≤ c ∧ c ≤ 0x7A then c - 32 else c

/-- The character loop of `fat32_make_name83`: `none` is one of its `return -1`. -/
def splitName : List UInt8 → List UInt8 → List UInt8 → Bool → Option (List UInt8 × List UInt8)
  | [], base, ext, _ => some (base, ext)
  | c :: name, base, ext, sawDot =>
      if c = slash then none
      else if c = dot then
        if sawDot then none else splitName name base ext true
      else if !sawDot then
        if 8 ≤ base.length then none else splitName name (base ++ [c]) ext sawDot
      else
        if 3 ≤ ext.length then none else splitName name base (ext ++ [c]) sawDot

/-- The characters of a field, blank-padded to its width. -/
def padField (width : Nat) (field : List UInt8) : List UInt8 :=
  (List.range width).map fun i => (field.map upper).getD i space

/-- The eleven output bytes of `fat32_make_name83` for a base and an extension. -/
def packName (base ext : List UInt8) : Name83 :=
  ⟨padField 8 base ++ padField 3 ext, by simp [padField]⟩

/-- `if (name[0] == '/') name++`. -/
def skipSlash : List UInt8 → List UInt8
  | [] => []
  | c :: name => if c = slash then name else c :: name

/-- `fat32_make_name83`; `none` is the return value `-1`. -/
def makeName83 (path : List UInt8) : Option Name83 :=
  match skipSlash path with
  | [] => none
  | c :: name => (splitName (c :: name) [] [] false).map fun p => packName p.1 p.2

/-- The leading characters of a blank-padded field. -/
def trimField (field : List UInt8) : List UInt8 := field.takeWhile (· ≠ space)

/-- `fat32_format_name` with a buffer that holds all of it (every caller passes at least
13 bytes for at most 8 + 1 + 3 characters), before the string ends at a NUL. -/
def formatName (e : Dirent) : List UInt8 :=
  let base := trimField (e.name.1.take 8)
  let ext := e.name.1.drop 8
  if ext.any (· ≠ space) then base ++ dot :: trimField ext else base

/-- The comparison loop of `fat32_name_match`. -/
def sameName : List UInt8 → List UInt8 → Bool
  | [], [] => true
  | e :: entryName, n :: name => upper e = upper n && sameName entryName name
  | _, _ => false

/-- `fat32_name_match`: the formatted name is a C string, so it ends at a NUL. -/
def nameMatch (e : Dirent) (name : List UInt8) : Bool :=
  sameName ((formatName e).takeWhile (· ≠ 0)) name

end XosKernel.Fat32
