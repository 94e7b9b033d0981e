/-
  Object files: finding a section by its name. Sections are read from ELF
  images only; a file of another kind is told apart by its first bytes, and
  one that is in order is a file without the section.
-/
import Ebpf.ObjectFile.Elf
import Ebpf.ObjectFile.Foreign

namespace Ebpf.ObjectFile

/-! ## Errors -/

/-- Why a file cannot be read at all. -/
inductive ParseError where
  | kind (e : KindError)
  | bundle
  | elf (e : Elf.Error)
  | foreign (e : Foreign.Error)
deriving DecidableEq

/-- The wording of a parse error. -/
def ParseError.message : ParseError → String
  | kind e => e.message
  | bundle => "Unsupported file format"
  | elf e => e.message
  | foreign e => e.message

/-- Why a section cannot be had. -/
inductive Error where
  | parse (cause : ParseError)
  | noSection (name : String)
  | badSection (name : String)
deriving DecidableEq

/-- The wording of an error. -/
def Error.message : Error → String
  | parse _ => "parsing ELF object"
  | noSection name => "cannot find section " ++ name
  | badSection name => "reading section " ++ name

/-- What lies behind an error. -/
def Error.causes : Error → List String
  | parse cause => [cause.message]
  | noSection _ => []
  | badSection _ => ["Invalid ELF section size or offset"]

/-! ## Sections -/

/-- The bytes of the section of a name in an ELF image, and the byte order of the image. -/
def readElfSection (wide : Bool) (bytes : List UInt8) (name : String) :
    Except Error (List UInt8 × ByteOrder) :=
  match Elf.parse wide bytes with
  | .error e => .error (.parse (.elf e))
  | .ok (img, sections) =>
    match (Elf.find? sections name).or ((Elf.compressedName? name).bind (Elf.find? sections)) with
    | none => .error (.noSection name)
    | some s =>
      match img.content? s with
      | none => .error (.badSection name)
      | some content => .ok (content, img.order)

/-- The bytes of the section of a name, and the byte order of the file. -/
def readSection (bytes : List UInt8) (name : String) :
    Except Error (List UInt8 × ByteOrder) :=
  match Kind.ofBytes bytes with
  | .error e => .error (.parse (.kind e))
  | .ok .bundle => .error (.parse .bundle)
  | .ok (.elf wide) => readElfSection wide bytes name
  | .ok kind =>
    match Foreign.check kind bytes with
    | .error e => .error (.parse (.foreign e))
    | .ok () => .error (.noSection name)

end Ebpf.ObjectFile
