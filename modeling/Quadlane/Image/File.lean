import Quadlane.Image.Reader
import Quadlane.Image.Schema
import Quadlane.Program.Validation

/-! Program images: a header of six bytes, signature and version, and then the program as one data
item. -/

namespace Quadlane.Image

inductive ImageError where
  | tooShort
  | signature (found : Nat)
  | version (found : Nat)
  | body
  deriving DecidableEq

def ImageError.report : ImageError → Report
  | tooShort => .ofCategory .invalidImage [Text.lit "invalid data"]
  | signature found =>
    .ofCategory .signatureMismatch [Text.lit "signature mismatch:",
      Text.lit "0x" ++ Text.hex found]
  | version found =>
    .ofCategory .unsupportedVersion [Text.lit "unsupported version:", Text.decimal found]
  | body =>
    { message := Text.lit "encoder: unmarshal program: malformed body", categories := [.imageBody] }

def signature : Nat := 0x0056564D
def version : Nat := 1

def encode (p : Program) : List UInt8 :=
  bigEndian 4 signature ++ bigEndian 2 version ++ (programItem p).encode

def decode (image : List UInt8) : Except ImageError Program :=
  if image.length < 6 then .error .tooShort
  else
    let found := ofBigEndian (image.take 4)
    let foundVersion := ofBigEndian ((image.drop 4).take 2)
    if found ≠ signature then .error (.signature found)
    else if foundVersion ≠ version then .error (.version foundVersion)
    else match (parseItem (image.drop 6)).bind decodeProgram with
      | some p => .ok p
      | none => .error .body

inductive LoadError where
  | image (e : ImageError)
  | invalid (e : ValidationError)
  deriving DecidableEq

def LoadError.report : LoadError → Report
  | image e => e.report
  | invalid e => e.report

/-- The valid program of an image. -/
def load (image : List UInt8) : Except LoadError Program :=
  match decode image with
  | .error e => .error (.image e)
  | .ok p =>
    match p.validate with
    | .error e => .error (.invalid e)
    | .ok () => .ok p

end Quadlane.Image
