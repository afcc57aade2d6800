/-
# Arch.Elf -- the program loader of `elf.c`

`elf_load_user_program` reads a file through `fat32_open` and `fat32_read` and nothing else, so
it is written over those two (`FileService`); the driver is one such service, a file that is
just its bytes is another.  What the loader leaves is a return value and the places of memory
it wrote to, in order (`Write`).  Addresses are 64-bit: the range check adds modulo `2 ^ 64`.
-/
import XosKernel.Fat32.Files

namespace XosKernel.Arch

open XosKernel.Theory XosKernel.Fat32

set_option autoImplicit false

/-! ## Files -/

/-- What the loader uses of the file system, for one path. -/
structure FileService (σ : Type) where
  /-- `fat32_open(path)`: did it return a handle? -/
  openPath : StateT σ (Except Ub) Bool
  /-- `fat32_read` on the handle: the return value and the bytes put into the buffer. -/
  read : Nat → StateT σ (Except Ub) (Int × List UInt8)
  /-- `file_position` of the handle. -/
  position : σ → Nat

/-- The driver's files. -/
def driverFiles (path : CStr) : FileService Driver where
  openPath := fat32Open path
  read := fat32Read
  position d := d.openFile.filePosition

/-- The bytes of a file: `file_size` has 32 bits. -/
abbrev Content := { bytes : List UInt8 // bytes.length < 2 ^ 32 }

/-- A file that is its bytes, or does not exist.  The state is the position of the handle. -/
def contentFile (file : Option Content) : FileService Nat where
  openPath :=
    match file with
    | none => return false
    | some _ => do
        set 0
        return true
  read count :=
    match file with
    | none => return (-1, [])
    | some content => do
        let position ← get
        let out := (content.1.drop position).take count
        set (position + out.length)
        return (toInt32 out.length, out)
  position := id

section Loader

variable {σ : Type} (files : FileService σ)

/-- The loop of `read_exact`: whether all bytes came, and the bytes put to the destination.
A pass that goes on read a byte, so `count` passes are enough. -/
def readExactLoop (count : Nat) : Nat → Nat → List UInt8 → StateT σ (Except Ub) (Bool × List UInt8)
  | 0, _, out => return (true, out)
  | passes + 1, total, out => do
      if total < count then
        let (n, bytes) ← files.read (count - total)
        if n ≤ 0 then
          return (false, out ++ bytes)
        else
          readExactLoop count passes (total + n.toNat) (out ++ bytes)
      else
        return (true, out)

/-- `read_exact` -/
def readExact (count : Nat) : StateT σ (Except Ub) (Bool × List UInt8) :=
  readExactLoop files count count 0 []

/-- `ELF_SCRATCH_CHUNK` -/
def elfScratchChunk : Nat := 128

/-- The loop of `skip_bytes`. -/
def skipBytesLoop : Nat → Nat → StateT σ (Except Ub) Bool
  | 0, _ => return true
  | passes + 1, count => do
      if 0 < count then
        let (n, _) ← files.read (min count elfScratchChunk)
        if n ≤ 0 then
          return false
        else
          skipBytesLoop passes (count - n.toNat)
      else
        return true

/-- `skip_bytes` -/
def skipBytes (count : Nat) : StateT σ (Except Ub) Bool := skipBytesLoop files count count

/-! ## Headers -/

def elfClass64 : UInt8 := 2
def elfData2Lsb : UInt8 := 1
def etExec : Nat := 2
def emX8664 : Nat := 62
def ptLoad : Nat := 1
def elfMaxPhdrs : Nat := 32

def userLoadMin : Nat := 0x00200000
def userLoadMax : Nat := 0x10000000

/-- `elf64_ehdr_t`, the fields that the loader reads. -/
structure Ehdr where
  ident : List UInt8
  type : Nat
  machine : Nat
  entry : Nat
  phoff : Nat
  phentsize : Nat
  phnum : Nat
  deriving DecidableEq, Repr

/-- `elf64_phdr_t`, the fields that the loader reads. -/
structure Phdr where
  type : Nat
  offset : Nat
  vaddr : Nat
  filesz : Nat
  memsz : Nat
  deriving DecidableEq, Repr

/-- `sizeof(elf64_ehdr_t)` -/
def ehdrSize : Nat := 64

/-- `sizeof(elf64_phdr_t)` -/
def phdrSize : Nat := 56

def Ehdr.load (bytes : List UInt8) : Ehdr :=
  let b := Buf.ofList bytes
  { ident := bytes.take 6
    type := b.le 16 2
    machine := b.le 18 2
    entry := b.le 24 8
    phoff := b.le 32 8
    phentsize := b.le 54 2
    phnum := b.le 56 2 }

def Phdr.load (bytes : List UInt8) : Phdr :=
  let b := Buf.ofList bytes
  { type := b.le 0 4
    offset := b.le 8 8
    vaddr := b.le 16 8
    filesz := b.le 32 8
    memsz := b.le 40 8 }

/-- The checks on the file header: magic, class and byte order, type and machine, the program
header table, the entry point. -/
def Ehdr.supported (eh : Ehdr) : Bool :=
  eh.ident == [0x7F, 0x45, 0x4C, 0x46, elfClass64, elfData2Lsb] &&
    (eh.type == etExec && eh.machine == emX8664) &&
    (eh.phentsize == phdrSize && eh.phnum != 0 && decide (eh.phnum ≤ elfMaxPhdrs)) &&
    (decide (userLoadMin ≤ eh.entry) && decide (eh.entry < userLoadMax))

/-- The checks on a `PT_LOAD` header: the sizes, and the place.  The sum wraps. -/
def Phdr.supported (p : Phdr) : Bool :=
  decide (p.filesz ≤ p.memsz) &&
    (decide (userLoadMin ≤ p.vaddr) && decide ((p.vaddr + p.memsz) % 2 ^ 64 < userLoadMax))

/-! ## Loading -/

/-- A piece of memory that the loader wrote to. -/
inductive Write where
  | copy (address : Nat) (bytes : List UInt8)
  | zero (address count : Nat)
  deriving DecidableEq, Repr

def Write.address : Write → Nat
  | .copy address _ => address
  | .zero address _ => address

def Write.size : Write → Nat
  | .copy _ bytes => bytes.length
  | .zero _ count => count

/-- The byte at `a` is written; addresses wrap. -/
def Write.Touches (w : Write) (a : Nat) : Prop := ∃ j < w.size, a = (w.address + j) % 2 ^ 64

/-- The first part of `elf_load_user_program`, up to the first `fat32_close`: the file header
and the program headers, or `none` for a `return -1`. -/
def readHeaders : StateT σ (Except Ub) (Option (Ehdr × List Phdr)) := do
  if ← files.openPath then
    let (ok, bytes) ← readExact files ehdrSize
    let eh := Ehdr.load bytes
    if ok && eh.supported then
      let position := files.position (← get)
      if eh.phoff < position then
        return none
      else if ← skipBytes files (eh.phoff - position) then
        let phdrs ← readPhdrs eh.phnum
        return phdrs.map fun phdrs => (eh, phdrs)
      else
        return none
    else
      return none
  else
    return none
where
  /-- The loop that fills `phdrs`. -/
  readPhdrs : Nat → StateT σ (Except Ub) (Option (List Phdr))
    | 0 => return some []
    | n + 1 => do
        let (ok, bytes) ← readExact files phdrSize
        if ok then
          let rest ← readPhdrs n
          return rest.map (Phdr.load bytes :: ·)
        else
          return none

/-- The body of the second loop for a `PT_LOAD` header: whether the loop goes on, and what was
written. -/
def loadSegment (p : Phdr) : StateT σ (Except Ub) (Bool × List Write) := do
  if p.supported then
    if ← files.openPath then
      if ← skipBytes files p.offset then
        let (ok, bytes) ← readExact files p.filesz
        let copied := Write.copy p.vaddr bytes
        if ok then
          if p.filesz < p.memsz then
            let bss := Write.zero ((p.vaddr + p.filesz) % 2 ^ 64) (p.memsz - p.filesz)
            return (true, [copied, bss])
          else
            return (true, [copied])
        else
          return (false, [copied])
      else
        return (false, [])
    else
      return (false, [])
  else
    return (false, [])

/-- The loop over the program headers.  They are `phdrs` as the file has them: for a program that
is loaded over the loader's own variables, see `Arch.LoaderStack`. -/
def loadSegments : List Phdr → StateT σ (Except Ub) (Bool × List Write)
  | [] => return (true, [])
  | p :: rest => do
      if p.type = ptLoad then
        let (ok, writes) ← loadSegment files p
        if ok then
          let (ok, more) ← loadSegments rest
          return (ok, writes ++ more)
        else
          return (false, writes)
      else
        loadSegments rest

/-- `elf_load_user_program`: the entry point (`none` is `return -1`) and what was written. -/
def elfLoadUserProgram : StateT σ (Except Ub) (Option Nat × List Write) := do
  match ← readHeaders files with
  | none => return (none, [])
  | some (eh, phdrs) =>
      let (ok, writes) ← loadSegments files phdrs
      return (if ok then some eh.entry else none, writes)

end Loader

end XosKernel.Arch
