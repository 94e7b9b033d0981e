/-
  Where the code of a command comes from: a section of an ELF image, or a cut
  of a raw dump.
-/
import Ebpf.CommandLine.Arguments
import Ebpf.CommandLine.Host

namespace Ebpf.CommandLine

/-! ## Raw dumps -/

/-- Why a raw dump cannot be cut as asked. -/
inductive DumpError where
  | file (e : FileError)
  | skipTooLong
  | lenTooLong
deriving DecidableEq

/-- The wording of a dump error. -/
def DumpError.message : DumpError → String
  | file e => e.message
  | skipTooLong => "--skip exceeds file size"
  | lenTooLong => "--len exceeds remaining file size after skip"

/-- Cuts a section out of a raw dump: the bytes after the first `skip`, all or `len` of them. -/
def cutDump (file : Except FileError (List UInt8)) (skip : UInt64) (len : Option UInt64) :
    Except DumpError (List UInt8) :=
  match file with
  | .error e => .error (.file e)
  | .ok bytes =>
    if bytes.length < skip.toNat then .error .skipTooLong
    else
      let rest := bytes.drop skip.toNat
      match len with
      | none => .ok rest
      | some n => if rest.length < n.toNat then .error .lenTooLong else .ok (rest.take n.toNat)

/-! ## Sources -/

/-- Where a code section comes from. -/
inductive SectionSource where
  | elf (name : String)
  | dump (skip : UInt64) (len : Option UInt64)

/-- Reads a code section, with the byte order that its file states, if it states one. -/
def SectionSource.load (source : SectionSource) (file : Except FileError (List UInt8)) :
    Except Failure (List UInt8 × Option ByteOrder) :=
  match source, file with
  | .elf _, .error e => .error { message := e.message }
  | .elf name, .ok image =>
    match ObjectFile.readSection image name with
    | .error e => .error (Failure.ofObjectFile e)
    | .ok (bytes, order) => .ok (bytes, some order)
  | .dump skip len, file =>
    match cutDump file skip len with
    | .error e => .error { message := e.message }
    | .ok bytes => .ok (bytes, none)

/-- The source of the section: an ELF section by name, or a cut of a raw dump, but not both. -/
def SectionSource.ofArgs? (a : Arguments) : Option SectionSource := do
  let skip ← a.withDefault? "skip" Arguments.uint64? 0
  let len ← a.optional? "len" Arguments.uint64?
  match a.value? "section" with
  | none => some (.dump skip len)
  | some name => if a.given "skip" || a.given "len" then none else some (.elf name)

end Ebpf.CommandLine
