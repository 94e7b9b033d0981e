/-
  ELF images: the section headers and the names of the sections.

  Only what leads to a section's bytes is looked at: the identification, the
  fields of the header that place the two header tables, the section headers
  and the table of section names.
-/
import Ebpf.ObjectFile.Fields

namespace Ebpf.ObjectFile.Elf

/-! ## Errors -/

/-- Why an image cannot be read. -/
inductive Error where
  | shortHeader
  | unsupportedHeader
  | programHeaderSize
  | programHeaders
  | missingSections
  | sectionHeaderSize
  | firstSectionHeader
  | sectionHeaders
  | noNameTable
  | nameTableIndex
  | nameTableSize
deriving DecidableEq

/-- The wording of an error. -/
def Error.message : Error → String
  | shortHeader => "Invalid ELF header size or alignment"
  | unsupportedHeader => "Unsupported ELF header"
  | programHeaderSize => "Invalid ELF program header entry size"
  | programHeaders => "Invalid ELF program header size or alignment"
  | missingSections => "Missing ELF section headers for e_phnum overflow"
  | sectionHeaderSize => "Invalid ELF section header entry size"
  | firstSectionHeader => "Invalid ELF section header offset or size"
  | sectionHeaders => "Invalid ELF section header offset/size/alignment"
  | noNameTable => "Missing ELF e_shstrndx"
  | nameTableIndex => "Invalid ELF e_shstrndx"
  | nameTableSize => "Invalid ELF shstrtab size"

/-! ## Layouts -/

/-- The fields that matter, of the image header and of a section header, and
the sizes of the records. -/
structure Layout where
  headerSize : Nat
  phoff : Field
  shoff : Field
  phentsize : Field
  phnum : Field
  shentsize : Field
  shnum : Field
  shstrndx : Field
  programHeaderSize : Nat
  sectionHeaderSize : Nat
  sectionName : Field
  sectionType : Field
  sectionOffset : Field
  sectionSize : Field
  sectionLink : Field
  sectionInfo : Field

/-- The layout of 32-bit images. -/
def layout32 : Layout where
  headerSize := 52
  phoff := ⟨28, 4⟩
  shoff := ⟨32, 4⟩
  phentsize := ⟨42, 2⟩
  phnum := ⟨44, 2⟩
  shentsize := ⟨46, 2⟩
  shnum := ⟨48, 2⟩
  shstrndx := ⟨50, 2⟩
  programHeaderSize := 32
  sectionHeaderSize := 40
  sectionName := ⟨0, 4⟩
  sectionType := ⟨4, 4⟩
  sectionOffset := ⟨16, 4⟩
  sectionSize := ⟨20, 4⟩
  sectionLink := ⟨24, 4⟩
  sectionInfo := ⟨28, 4⟩

/-- The layout of 64-bit images. -/
def layout64 : Layout where
  headerSize := 64
  phoff := ⟨32, 8⟩
  shoff := ⟨40, 8⟩
  phentsize := ⟨54, 2⟩
  phnum := ⟨56, 2⟩
  shentsize := ⟨58, 2⟩
  shnum := ⟨60, 2⟩
  shstrndx := ⟨62, 2⟩
  programHeaderSize := 56
  sectionHeaderSize := 64
  sectionName := ⟨0, 4⟩
  sectionType := ⟨4, 4⟩
  sectionOffset := ⟨24, 8⟩
  sectionSize := ⟨32, 8⟩
  sectionLink := ⟨40, 4⟩
  sectionInfo := ⟨44, 4⟩

/-! ## Images -/

/-- An image whose identification and header are in order. -/
structure Image where
  bytes : List UInt8
  layout : Layout
  order : ByteOrder

/-- A section header; a section of the kind that has no bytes in the image is `absent`. -/
structure Section where
  name : Option (List UInt8)
  absent : Bool
  offset : Nat
  size : Nat

namespace Image

/-- The number in a field of the image header. -/
def field (img : Image) (f : Field) : Nat := f.read img.order img.bytes 0

/-- The byte order that the identification states. -/
def order? (bytes : List UInt8) : Option ByteOrder :=
  match bytes.drop 5 with
  | data :: version :: _ =>
    if version ≠ 1 then none
    else if data = 1 then some .little
    else if data = 2 then some .big
    else none
  | _ => none

/-- Checks that the whole header is there and reads the identification. -/
def ofBytes (wide : Bool) (bytes : List UInt8) : Except Error Image :=
  let layout := if wide then layout64 else layout32
  if ¬ fits bytes 0 layout.headerSize then .error .shortHeader
  else
    match order? bytes with
    | none => .error .unsupportedHeader
    | some order => .ok { bytes, layout, order }

/-- The offset of the program headers; zero if there are none. -/
def phoff (img : Image) : Nat := img.field img.layout.phoff

/-- The offset of the section headers; zero if there are none. -/
def shoff (img : Image) : Nat := img.field img.layout.shoff

/-- The number in a field of the section header of an index. -/
def sectionField (img : Image) (index : Nat) (f : Field) : Nat :=
  f.read img.order img.bytes (img.shoff + index * img.layout.sectionHeaderSize)

/-- Checks the size that the image states for its section headers. -/
def checkSectionHeaderSize (img : Image) : Except Error Unit :=
  if img.field img.layout.shentsize = img.layout.sectionHeaderSize then .ok ()
  else .error .sectionHeaderSize

/-- A field of the first section header, which holds counts that do not fit the
image header. -/
def overflowField (img : Image) (f : Field) : Except Error Nat :=
  match img.checkSectionHeaderSize with
  | .error e => .error e
  | .ok () =>
    if fits img.bytes img.shoff img.layout.sectionHeaderSize then .ok (img.sectionField 0 f)
    else .error .firstSectionHeader

/-! ## Header tables -/

/-- The number of program headers. -/
def programHeaderCount (img : Image) : Except Error Nat :=
  let n := img.field img.layout.phnum
  if n < 0xffff then .ok n
  else if img.shoff = 0 then .error .missingSections
  else img.overflowField img.layout.sectionInfo

/-- Checks that the program headers lie inside the image. -/
def checkProgramHeaders (img : Image) : Except Error Unit :=
  if img.phoff = 0 then .ok ()
  else
    match img.programHeaderCount with
    | .error e => .error e
    | .ok n =>
      if n = 0 then .ok ()
      else if img.field img.layout.phentsize ≠ img.layout.programHeaderSize then
        .error .programHeaderSize
      else if fits img.bytes img.phoff (n * img.layout.programHeaderSize) then .ok ()
      else .error .programHeaders

/-- The number of section headers. -/
def sectionCount (img : Image) : Except Error Nat :=
  let n := img.field img.layout.shnum
  if img.shoff = 0 then .ok 0
  else if n ≠ 0 then .ok n
  else img.overflowField img.layout.sectionSize

/-- The header of the section of an index, without its name. -/
def sectionAt (img : Image) (index : Nat) : Section :=
  { name := none
    absent := img.sectionField index img.layout.sectionType = 8
    offset := img.sectionField index img.layout.sectionOffset
    size := img.sectionField index img.layout.sectionSize }

/-- The text at an offset into a table of names, up to the NUL that ends it. -/
def nameAt? (img : Image) (table : Section) (offset : Nat) : Option (List UInt8) :=
  if table.absent ∨ table.size < offset then none
  else
    match span? img.bytes (table.offset + offset) (table.size - offset) with
    | none => none
    | some bytes => if 0 ∈ bytes then some (bytes.takeWhile (· ≠ 0)) else none

/-- The table of section names, in an image with `count` sections. -/
def nameTable (img : Image) (count : Nat) : Except Error Section :=
  let stated := img.field img.layout.shstrndx
  let index := if stated = 0xffff then img.sectionField 0 img.layout.sectionLink else stated
  if index = 0 then .error .noNameTable
  else if count ≤ index then .error .nameTableIndex
  else
    let table := img.sectionAt index
    if ¬ table.absent ∧ UInt64.size ≤ table.offset + table.size then .error .nameTableSize
    else .ok table

/-- All sections with their names. -/
def sections (img : Image) : Except Error (List Section) :=
  match img.sectionCount with
  | .error e => .error e
  | .ok 0 => .ok []
  | .ok count =>
    match img.checkSectionHeaderSize with
    | .error e => .error e
    | .ok () =>
      if ¬ fits img.bytes img.shoff (count * img.layout.sectionHeaderSize) then
        .error .sectionHeaders
      else
        (img.nameTable count).map fun table =>
          (List.range count).map fun i =>
            let name := img.nameAt? table (img.sectionField i img.layout.sectionName)
            { img.sectionAt i with name }

/-- The bytes of a section, if they lie inside the image. -/
def content? (img : Image) (s : Section) : Option (List UInt8) :=
  if s.absent then some [] else span? img.bytes s.offset s.size

end Image

/-! ## Sections by name -/

/-- The first section of a name. -/
def find? (sections : List Section) (name : String) : Option Section :=
  sections.find? fun s => s.name = some name.toUTF8.data.toList

/-- The name under which the compressed form of a debug section goes. -/
def compressedName? (name : String) : Option String :=
  let stem := ".debug_".toList
  if stem.isPrefixOf name.toList then
    some (".zdebug_" ++ String.ofList (name.toList.drop stem.length))
  else none

/-- Checks an image's headers and reads its sections. -/
def parse (wide : Bool) (bytes : List UInt8) : Except Error (Image × List Section) := do
  let img ← Image.ofBytes wide bytes
  img.checkProgramHeaders
  return (img, ← img.sections)

end Ebpf.ObjectFile.Elf
