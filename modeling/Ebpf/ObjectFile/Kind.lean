/-
  Which kind of object file the first bytes of a file announce.

  Most kinds are told by their first bytes alone. Two need a look at a header:
  a file that starts as a DOS program holds a PE image only if its second
  header says so, and an anonymous object is a big COFF file only if it bears
  that format's identifier.
-/
import Ebpf.ObjectFile.Fields

namespace Ebpf.ObjectFile

/-- The kinds of object files; a `wide` one holds 64-bit addresses. -/
inductive Kind where
  | elf (wide : Bool)
  | machO (wide : Bool)
  | pe (wide : Bool)
  | coff
  | bigCoff
  | xcoff (wide : Bool)
  /-- An archive or another bundle of object files. -/
  | bundle
deriving DecidableEq

/-- Why the kind of a file cannot be told. -/
inductive KindError where
  | unreadable
  | unknown
  | unknownDos
  | unknownAnonymous
deriving DecidableEq

/-- The wording of a kind error. -/
def KindError.message : KindError → String
  | unreadable => "Could not read file magic"
  | unknown => "Unknown file magic"
  | unknownDos => "Unknown MS-DOS file"
  | unknownAnonymous => "Unknown anon object file"

namespace Kind

/-- The least size of a file whose kind can be told. -/
def magicSize : Nat := 16

/-- The kinds that the first bytes alone announce. -/
def magics : List (List UInt8 × Kind) :=
  [("!<arch>\n".toUTF8.data.toList, .bundle),
   ("!<thin>\n".toUTF8.data.toList, .bundle),
   ("dyld_v1 ".toUTF8.data.toList, .bundle),
   ([0xca, 0xfe, 0xba, 0xbe], .bundle),
   ([0xca, 0xfe, 0xba, 0xbf], .bundle),
   ([0x00, 0x00, 0xff, 0xff, 0x00, 0x00], .bundle),
   ([0x7f, 0x45, 0x4c, 0x46, 1], .elf false),
   ([0x7f, 0x45, 0x4c, 0x46, 2], .elf true),
   ([0xfe, 0xed, 0xfa, 0xce], .machO false),
   ([0xce, 0xfa, 0xed, 0xfe], .machO false),
   ([0xfe, 0xed, 0xfa, 0xcf], .machO true),
   ([0xcf, 0xfa, 0xed, 0xfe], .machO true),
   ([0xc4, 0x01], .coff),
   ([0x64, 0xaa], .coff),
   ([0x41, 0xa6], .coff),
   ([0x4e, 0xa6], .coff),
   ([0x4c, 0x01], .coff),
   ([0x64, 0x86], .coff),
   ([0x01, 0xdf], .xcoff false),
   ([0x01, 0xf7], .xcoff true)]

/-! ## DOS programs -/

/-- The first bytes of a DOS program. -/
def dosMagic : List UInt8 := [0x4d, 0x5a]

/-- The size of the header of a DOS program. -/
def dosHeaderSize : Nat := 64

/-- The field of a DOS header that says where the PE headers start. -/
def peStart : Field := ⟨60, 4⟩

/-- The kind of PE image that a DOS program holds. -/
def ofDos (bytes : List UInt8) : Except KindError Kind :=
  let start := peStart.read .little bytes 0
  if ¬ fits bytes 0 dosHeaderSize ∨ ¬ fits bytes start 120 then .error .unknownDos
  else if (bytes.drop start).take 4 ≠ [0x50, 0x45, 0, 0] then .error .unknownDos
  else
    match (Field.mk 24 2).read .little bytes start with
    | 0x10b => .ok (.pe false)
    | 0x20b => .ok (.pe true)
    | _ => .error .unknownDos

/-! ## Anonymous objects -/

/-- The first bytes of an anonymous object. -/
def anonymousMagic : List UInt8 := [0x00, 0x00, 0xff, 0xff, 0x02, 0x00]

/-- The identifier of big COFF files among anonymous objects. -/
def bigCoffClass : List UInt8 :=
  [0xc7, 0xa1, 0xba, 0xd1, 0xee, 0xba, 0xa9, 0x4b, 0xaf, 0x20, 0xfa, 0xf6, 0x6a, 0xa4, 0xdc, 0xb8]

/-- The kind of an anonymous object. -/
def ofAnonymous (bytes : List UInt8) : Except KindError Kind :=
  if fits bytes 0 32 ∧ (bytes.drop 12).take 16 = bigCoffClass then .ok .bigCoff
  else .error .unknownAnonymous

/-! ## All kinds -/

/-- The kind that a file announces. -/
def ofBytes (bytes : List UInt8) : Except KindError Kind :=
  if ¬ fits bytes 0 magicSize then .error .unreadable
  else if dosMagic.isPrefixOf bytes then ofDos bytes
  else if anonymousMagic.isPrefixOf bytes then ofAnonymous bytes
  else
    match magics.find? fun m => m.1.isPrefixOf bytes with
    | some m => .ok m.2
    | none => .error .unknown

end Kind

end Ebpf.ObjectFile
