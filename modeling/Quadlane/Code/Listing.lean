import Quadlane.Code.Instruction
import Quadlane.Word

/-! The instructions of a code, read one after the other to the end or to the first that cannot be
read, and their texts. -/

namespace Quadlane.Code

/-- Instructions with their offsets, and what stopped the reading before the end. -/
structure Decoding where
  items : List (Nat × Instruction)
  stop : Option (Nat × ReadError)

/-- Decodes bytes that stand at the given offset of their code. -/
def decodeFrom (offset : Nat) (code : List UInt8) : Decoding :=
  if code.isEmpty then ⟨[], none⟩
  else match _h : Instruction.split offset code with
    | .error e => ⟨[], some (offset, e)⟩
    | .ok (ins, code) =>
      let rest := decodeFrom (offset + ins.size) code
      ⟨(offset, ins) :: rest.items, rest.stop⟩
termination_by code.length
decreasing_by exact Instruction.split_decreasing _h

def decode (code : List UInt8) : Decoding :=
  decodeFrom 0 code

/-- One line an instruction, each after its offset; `base` is the offset of the first. An
instruction that cannot be read is reported in the last line. -/
def listing (code : List UInt8) (base : Int) : List Text :=
  let d := decode code
  let line := fun (offset : Nat) text =>
    Text.zeroPadded 4 (wrap (base + offset)) ++ Text.lit " " ++ text
  d.items.map (fun (offset, ins) => line offset ins.render) ++
    (d.stop.map fun (offset, e) => line offset e.report.message).toList

/-- The assembly text as far as it can be read, and the error that stopped the reading. -/
def disassemble (code : List UInt8) : Text × Option ReadError :=
  let d := decode code
  (d.items.flatMap fun (_, ins) => ins.render ++ Text.lit "\n", d.stop.map (·.2))

end Quadlane.Code
