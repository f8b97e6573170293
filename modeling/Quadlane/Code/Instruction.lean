import Quadlane.Code.Opcode
import Quadlane.Code.Operand
import Quadlane.Report

/-! Instructions and their bytes: reading one at an offset of a code, writing one, and building one
from operands. -/

namespace Quadlane

/-- A decoded instruction. Fields that the layout of the opcode does not have are not encoded. -/
structure Instruction where
  op : Opcode
  set : UInt8 := 0
  var : UInt8 := 0
  mask : UInt8 := 0
  sources : List UInt8 := []
  destination : UInt8 := 0
  deriving DecidableEq

/-- Why no instruction can be read. -/
inductive ReadError where
  | pastEnd (offset : Nat)
  | unknownOpcode (byte : UInt8) (offset : Nat)
  | missingOperands (op : Opcode) (offset : Nat)
  deriving DecidableEq

def ReadError.report : ReadError → Report
  | pastEnd offset =>
    .ofCategory .truncatedProgram [Text.lit "offset", Text.decimal offset,
      Text.lit "past end of code"]
  | unknownOpcode byte offset =>
    .ofCategory .unknownOpcode [Text.lit "0x" ++ Text.hexByte byte, Text.lit "at offset",
      Text.decimal offset]
  | missingOperands op offset =>
    .ofCategory .truncatedProgram [op.mnemonic, Text.lit "at offset", Text.decimal offset,
      Text.lit "needs", Text.decimal op.width, Text.lit "operand bytes"]

/-- Why operands do not make an instruction. -/
inductive InstructionError where
  | unknownOpcode (byte : UInt8)
  | operandCount (op : Opcode) (count : Nat)
  | operandValue (op : Opcode) (place : Nat) (value : Int)
  | sourceCount (op : Opcode) (count : Nat)
  | setOrVariable (op : Opcode)
  | constantDestination (op : Opcode)
  deriving DecidableEq

def InstructionError.report : InstructionError → Report
  | unknownOpcode byte => .ofCategory .unknownOpcode [Text.lit "0x" ++ Text.hexByte byte]
  | operandCount op count =>
    .plain (Text.words [Text.lit "MakeInstruction:", op.mnemonic, Text.lit "expected",
      Text.decimal op.width, Text.lit "operands, but got", Text.decimal count])
  | operandValue op place value =>
    .ofCategory .invalidOperand [op.mnemonic, Text.lit "operand", Text.decimal place,
      Text.lit "value", Text.integer value, Text.lit "does not fit a byte"]
  | sourceCount op count =>
    .ofCategory .invalidOperand [op.mnemonic, Text.lit "expected", Text.decimal op.arity,
      Text.lit "sources, but got", Text.decimal count]
  | setOrVariable op =>
    .ofCategory .invalidOperand [op.mnemonic, Text.lit "set or variable index out of range"]
  | constantDestination op =>
    .ofCategory .invalidOperand [op.mnemonic, Text.lit "destination is a constant"]

namespace Instruction

/-- Takes the operand bytes of an opcode apart by their places. -/
def ofOperands (op : Opcode) (bytes : List UInt8) : Instruction :=
  if op.layout = .none then { op }
  else
    let start := (if op.layout.hasSet then 1 else 0) + if op.layout.hasVariable then 1 else 0
    { op
      set := if op.layout.hasSet then bytes.getD 0 0 else 0
      var := if op.layout.hasVariable then bytes.getD 1 0 else 0
      mask := bytes.getD start 0
      sources := (bytes.drop (start + 1)).take op.arity
      destination := if op.hasDestination then bytes.getD (start + 1 + op.arity) 0 else 0 }

/-- The instruction that some bytes start with, and the bytes after it. The offset is where the bytes
stand in their code. -/
def split (offset : Nat) : List UInt8 → Except ReadError (Instruction × List UInt8)
  | [] => .error (.pastEnd offset)
  | byte :: rest =>
    match Opcode.ofByte? byte with
    | none => .error (.unknownOpcode byte offset)
    | some op =>
      let operands := rest.take op.width
      if operands.length < op.width then .error (.missingOperands op offset)
      else .ok (ofOperands op operands, rest.drop op.width)

/-- The number of bytes of an instruction. -/
def size (ins : Instruction) : Nat :=
  1 + ins.op.width

/-- The instruction at an offset of a code, and the offset of the next one. -/
def read (code : List UInt8) (offset : Nat) : Except ReadError (Instruction × Nat) :=
  match split offset (code.drop offset) with
  | .error e => .error e
  | .ok (ins, _) => .ok (ins, offset + ins.size)

theorem ofOperands_op (op : Opcode) (bytes : List UInt8) : (ofOperands op bytes).op = op := by
  unfold ofOperands
  split <;> rfl

/-- Splitting takes the bytes of the instruction off, and there are so many. -/
theorem split_length {offset : Nat} {code rest : List UInt8} {ins : Instruction}
    (h : split offset code = .ok (ins, rest)) : ins.size + rest.length = code.length := by
  unfold split at h
  split at h
  · simp at h
  · split at h
    · simp at h
    · dsimp only at h
      split at h
      · simp at h
      · next hwidth =>
        simp only [Except.ok.injEq, Prod.mk.injEq] at h
        simp only [List.length_take] at hwidth
        rw [← h.1, ← h.2]
        simp only [size, ofOperands_op, List.length_drop, List.length_cons]
        omega

/-- What follows the instruction is shorter than what starts with it. -/
theorem split_decreasing {offset : Nat} {code rest : List UInt8} {ins : Instruction}
    (h : split offset code = .ok (ins, rest)) : rest.length < code.length := by
  have := split_length h
  simp only [size] at this
  omega

/-- Reading moves forward and stays within the code. -/
theorem read_bounds {code : List UInt8} {offset next : Nat} {ins : Instruction}
    (h : read code offset = .ok (ins, next)) : offset < next ∧ next ≤ code.length := by
  unfold read at h
  split at h
  · simp at h
  · next i _ hsplit =>
    simp only [Except.ok.injEq, Prod.mk.injEq] at h
    have := split_length hsplit
    have := h.2
    simp only [size, List.length_drop] at *
    omega

/-- The bytes of an instruction. -/
def encode (ins : Instruction) : List UInt8 :=
  let dst := if ins.op.hasDestination then [ins.destination] else []
  ins.op.toByte ::
    match ins.op.layout with
    | .none => []
    | .kernel => ins.mask :: ins.sources ++ dst
    | .cursor | .valid => ins.set :: ins.mask :: ins.sources ++ dst
    | .read | .write => ins.set :: ins.var :: ins.mask :: ins.sources ++ dst

/-- The opcode of a byte. -/
def opcode (byte : UInt8) : Except InstructionError Opcode :=
  match Opcode.ofByte? byte with
  | some op => .ok op
  | none => .error (.unknownOpcode byte)

/-- Integers as bytes; the first that is none is refused. -/
def operandBytes (op : Opcode) (place : Nat) : List Int → Except InstructionError (List UInt8)
  | [] => .ok []
  | value :: rest =>
    if value < 0 || 255 < value then .error (.operandValue op place value)
    else (operandBytes op (place + 1) rest).map (value.toNat.toUInt8 :: ·)

/-- The bytes of an instruction from an opcode byte and its operand bytes in order. -/
def assemble (byte : UInt8) (operands : List Int) : Except InstructionError (List UInt8) :=
  match opcode byte with
  | .error e => .error e
  | .ok op =>
    if operands.length ≠ op.width then .error (.operandCount op operands.length)
    else (operandBytes op 0 operands).map (byte :: ·)

/-- Whether an integer can be a set or variable operand. -/
def isIndexByte (i : Int) : Bool :=
  0 ≤ i && i ≤ 255

/-- The instruction with the given operands. The mask follows from the kinds of the sources. -/
def make (op : Opcode) (set var : Int) (destination : Operand) (sources : List Operand) :
    Except InstructionError Instruction :=
  if sources.length ≠ op.arity then .error (.sourceCount op sources.length)
  else if !isIndexByte set || !isIndexByte var then .error (.setOrVariable op)
  else if op.hasDestination && destination.kind = .constant then .error (.constantDestination op)
  else .ok
    { op
      set := set.toNat.toUInt8
      var := var.toNat.toUInt8
      mask := sourceMask (sources.map (·.kind))
      sources := sources.map (·.index)
      destination := if op.hasDestination then destination.index else 0 }

/-- The names of the operands in the order of the assembly text: destination, set, variable,
sources. -/
def operandNames (ins : Instruction) : List Text :=
  let layout := ins.op.layout
  let dst := if layout.hasDestination then [registerName ins.destination] else []
  let set := if layout.hasSet then [Text.byte 's' :: Text.decimal ins.set.toNat] else []
  let slot := if layout.hasVariable then [Text.byte 'v' :: Text.decimal ins.var.toNat] else []
  let srcs := ins.sources.zipIdx.map fun (b, i) => Operand.nameOf (sourceKind ins.mask i) b
  dst ++ set ++ slot ++ srcs

/-- The assembly text of an instruction. -/
def render (ins : Instruction) : Text :=
  if ins.op.layout = .none then ins.op.mnemonic
  else ins.op.mnemonic ++ Text.lit " " ++ Text.joinWith (Text.lit ", ") ins.operandNames

end Instruction
end Quadlane
