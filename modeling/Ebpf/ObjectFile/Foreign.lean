/-
  Object files of formats other than ELF. They hold no code for the machine,
  so no section is looked for in them; what can be told is whether their
  headers and tables lie inside the file.
-/
import Ebpf.ObjectFile.Kind

namespace Ebpf.ObjectFile.Foreign

/-! ## Errors -/

/-- What lies outside the file or contradicts its own size. -/
inductive Error where
  | machOHeader
  | coffHeader
  | bigCoffHeader
  | coffSections
  | coffSymbols
  | coffStrings
  | xcoffHeader
  | xcoffSections
  | xcoffSymbols
  | xcoffStrings
  | peHeaders
  | peOptionalTooSmall
  | peOptional
  | peDirectories
deriving DecidableEq

/-- The wording of an error. -/
def Error.message : Error → String
  | machOHeader => "Invalid Mach-O header size or alignment"
  | coffHeader => "Invalid COFF file header size or alignment"
  | bigCoffHeader => "Invalid COFF bigobj file header size or alignment"
  | coffSections => "Invalid COFF/PE section headers"
  | coffSymbols => "Invalid COFF symbol table offset or size"
  | coffStrings => "Missing COFF string table"
  | xcoffHeader => "Invalid XCOFF header size or alignment"
  | xcoffSections => "Invalid XCOFF section headers"
  | xcoffSymbols => "Invalid XCOFF symbol table offset or size"
  | xcoffStrings => "Missing XCOFF string table"
  | peHeaders => "Invalid PE headers offset or size"
  | peOptionalTooSmall => "PE optional header size is too small"
  | peOptional => "Invalid PE optional header size"
  | peDirectories => "Invalid PE number of RVA and sizes"

/-- Passes if a span lies inside the file. -/
def require (bytes : List UInt8) (offset size : Nat) (e : Error) : Except Error Unit :=
  if fits bytes offset size then .ok () else .error e

/-! ## COFF and its relatives -/

/-- Where a format of the COFF family keeps what places its tables, and what it
says if one of them is out of place. -/
structure Layout where
  order : ByteOrder
  headerSize : Nat
  sectionCount : Field
  symbolOffset : Field
  symbolCount : Field
  optionalSize : Option Field
  /-- Whether a table without entries must start inside the file too. -/
  placesEmptyTable : Bool
  sectionSize : Nat
  symbolSize : Nat
  badHeader : Error
  badSections : Error
  badSymbols : Error
  badStrings : Error

/-- The layout of COFF files. -/
def coff : Layout where
  order := .little
  headerSize := 20
  sectionCount := ⟨2, 2⟩
  symbolOffset := ⟨8, 4⟩
  symbolCount := ⟨12, 4⟩
  optionalSize := some ⟨16, 2⟩
  placesEmptyTable := true
  sectionSize := 40
  symbolSize := 18
  badHeader := .coffHeader
  badSections := .coffSections
  badSymbols := .coffSymbols
  badStrings := .coffStrings

/-- The layout of big COFF files. -/
def bigCoff : Layout :=
  { coff with
    headerSize := 56
    sectionCount := ⟨44, 4⟩
    symbolOffset := ⟨48, 4⟩
    symbolCount := ⟨52, 4⟩
    optionalSize := none
    symbolSize := 20
    badHeader := .bigCoffHeader }

/-- The layout of 32-bit XCOFF files. -/
def xcoff32 : Layout :=
  { coff with
    order := .big
    placesEmptyTable := false
    badHeader := .xcoffHeader
    badSections := .xcoffSections
    badSymbols := .xcoffSymbols
    badStrings := .xcoffStrings }

/-- The layout of 64-bit XCOFF files. -/
def xcoff64 : Layout :=
  { xcoff32 with
    headerSize := 24
    symbolOffset := ⟨8, 8⟩
    symbolCount := ⟨20, 4⟩
    sectionSize := 72 }

/-- Checks the header, the section headers, and the symbols with the names after them. -/
def Layout.check (l : Layout) (bytes : List UInt8) : Except Error Unit := do
  require bytes 0 l.headerSize l.badHeader
  let number (f : Field) := f.read l.order bytes 0
  let count := number l.sectionCount
  if l.placesEmptyTable ∨ count ≠ 0 then
    let sections := l.headerSize + (l.optionalSize.map number).getD 0
    require bytes sections (count * l.sectionSize) l.badSections
  let symbols := number l.symbolOffset
  if symbols ≠ 0 then
    let size := number l.symbolCount * l.symbolSize
    require bytes symbols size l.badSymbols
    require bytes (symbols + size) 4 l.badStrings

/-! ## PE images -/

/-- Checks the headers of a PE image, its data directories and its section headers. -/
def checkPe (wide : Bool) (bytes : List UInt8) : Except Error Unit := do
  let start := Kind.peStart.read .little bytes 0
  let fixed := if wide then 112 else 96
  let number (f : Field) := f.read .little bytes start
  require bytes start (24 + fixed) .peHeaders
  let optional := number ⟨20, 2⟩
  if optional < fixed then throw .peOptionalTooSmall
  require bytes (start + 24) optional .peOptional
  if optional - fixed < 8 * number ⟨20 + fixed, 4⟩ then throw .peDirectories
  require bytes (start + 24 + optional) (number ⟨6, 2⟩ * coff.sectionSize) .coffSections

/-! ## All formats -/

/-- Checks what a file of a foreign kind says about its own tables. -/
def check (kind : Kind) (bytes : List UInt8) : Except Error Unit :=
  match kind with
  | .machO wide => require bytes 0 (if wide then 32 else 28) .machOHeader
  | .pe wide => checkPe wide bytes
  | .coff => coff.check bytes
  | .bigCoff => bigCoff.check bytes
  | .xcoff wide => (if wide then xcoff64 else xcoff32).check bytes
  | .elf _ | .bundle => .ok ()

end Ebpf.ObjectFile.Foreign
