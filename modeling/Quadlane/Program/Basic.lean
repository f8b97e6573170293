import Quadlane.Code.Listing
import Quadlane.Quad.Basic

/-! A program is a code and the declarations that a caller needs to bind buffers to it. -/

namespace Quadlane

/-- A constant with the value it has unless the caller gives another. -/
structure Constant where
  name : Text
  value : Quad
  deriving DecidableEq

/-- A shared data set; its variables are addressed by their place. -/
structure SetDeclaration where
  name : Text
  vars : List Text := []
  deriving DecidableEq

structure Program where
  name : Text := []
  /-- Absent if nothing was ever emitted. -/
  code : Option (List UInt8) := none
  constants : List Constant := []
  inputs : List Text := []
  outputs : List Text := []
  sets : List SetDeclaration := []
  deriving DecidableEq

namespace Limit

def constants : Nat := 256
def inputs : Nat := 64
def outputs : Nat := 64
def temporaries : Nat := 64

end Limit

namespace Program

def bytes (p : Program) : List UInt8 :=
  p.code.getD []

/-- Declarations and instructions in a readable form. -/
def render (p : Program) : Text :=
  let numbered := fun (i : Nat) => Text.padLeft 4 ' ' (Text.decimal i) ++ Text.lit ": "
  let set := fun ((s, i) : SetDeclaration × Nat) =>
    numbered i ++ s.name ++ Text.lit " [" ++ Text.words s.vars ++ Text.lit "]\n"
  let constant := fun ((c, i) : Constant × Nat) =>
    numbered i ++ c.name ++ Text.lit " " ++ c.value.render ++ Text.lit "\n"
  Text.lit "Program " ++ p.name ++
  Text.lit "\nInputs: " ++ Text.words p.inputs ++
  Text.lit "\nOutputs: " ++ Text.words p.outputs ++
  Text.lit "\nDataSets:\n" ++ p.sets.zipIdx.flatMap set ++
  Text.lit "Constants:\n" ++ p.constants.zipIdx.flatMap constant ++
  Text.lit "Instructions:\n" ++ (Code.listing p.bytes 0).flatMap (· ++ Text.lit "\n")

end Program
end Quadlane
