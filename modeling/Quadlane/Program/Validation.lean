import Quadlane.Program.Constants

/-! What the executor relies on: known opcodes, complete instructions, operands within the register
table and the declarations, and a terminator as the last byte. -/

namespace Quadlane

/-- An operand that the declarations of the program do not cover. -/
inductive OperandError where
  | undeclaredSet (index : Nat)
  | undeclaredVariable (index : Nat) (set : Text)
  | undeclaredConstant (index : Nat)
  | maskBits (mask : UInt8) (sources : Nat)
  | outsideTable (register : UInt8)
  | inputDestination (index : Nat)
  | undeclaredInput (index : Nat)
  | undeclaredOutput (index : Nat)
  deriving DecidableEq

def OperandError.report : OperandError → Report
  | undeclaredSet i =>
    .ofCategory .malformedProgram [Text.lit "undeclared data set", Text.decimal i]
  | undeclaredVariable i set =>
    .ofCategory .malformedProgram [Text.lit "undeclared variable", Text.decimal i,
      Text.lit "of data set", set]
  | undeclaredConstant i =>
    .ofCategory .malformedProgram [Text.lit "undeclared constant", Text.decimal i]
  | maskBits mask sources =>
    .ofCategory .malformedProgram [Text.lit "mask 0x" ++ Text.hexByte mask,
      Text.lit "has bits beyond", Text.decimal sources, Text.lit "sources"]
  | outsideTable r =>
    .ofCategory .registerLimit [Text.lit "register", Text.decimal r.toNat,
      Text.lit "outside of the register table"]
  | inputDestination i =>
    .ofCategory .registerLimit [Text.lit "input", Text.decimal i, Text.lit "used as destination"]
  | undeclaredInput i => .ofCategory .registerLimit [Text.lit "undeclared input", Text.decimal i]
  | undeclaredOutput i =>
    .ofCategory .registerLimit [Text.lit "undeclared output", Text.decimal i]

inductive ValidationError where
  | constants (e : TooManyConstants)
  | inputs (count : Nat)
  | outputs (count : Nat)
  | unreadable (e : ReadError)
  | unreachable (offset : Nat)
  | operand (op : Opcode) (offset : Nat) (e : OperandError)
  deriving DecidableEq

def ValidationError.report : ValidationError → Report
  | constants e => e.report
  | inputs n => .ofCategory .registerLimit [Text.lit "too many inputs", Text.decimal n]
  | outputs n => .ofCategory .registerLimit [Text.lit "too many outputs", Text.decimal n]
  | unreadable e => e.report
  | unreachable offset =>
    .ofCategory .malformedProgram [Text.lit "unreachable code after done at offset",
      Text.decimal offset]
  | operand op offset e =>
    e.report.within (op.mnemonic ++ Text.lit " at offset " ++ Text.decimal offset)

namespace Program

def checkSet (p : Program) (ins : Instruction) : Except OperandError Unit :=
  if !ins.op.layout.hasSet then .ok ()
  else match p.sets[ins.set.toNat]? with
    | none => .error (.undeclaredSet ins.set.toNat)
    | some set =>
      if ins.op.layout.hasVariable && set.vars.length ≤ ins.var.toNat then
        .error (.undeclaredVariable ins.var.toNat set.name)
      else .ok ()

def checkRegister (p : Program) (asDestination : Bool) (r : UInt8) : Except OperandError Unit :=
  match splitRegister r with
  | none => .error (.outsideTable r)
  | some (.input, i) =>
    if asDestination then .error (.inputDestination i)
    else if p.inputs.length ≤ i then .error (.undeclaredInput i)
    else .ok ()
  | some (.output, i) => if p.outputs.length ≤ i then .error (.undeclaredOutput i) else .ok ()
  | some _ => .ok ()

def checkSource (p : Program) (kind : SourceKind) (b : UInt8) : Except OperandError Unit :=
  match kind with
  | .constant =>
    if p.constants.length ≤ b.toNat then .error (.undeclaredConstant b.toNat) else .ok ()
  | .register => p.checkRegister false b

/-- Sources from the one at place `i` on. -/
def checkSources (p : Program) (mask : UInt8) (i : Nat) : List UInt8 → Except OperandError Unit
  | [] => .ok ()
  | b :: rest =>
    match p.checkSource (sourceKind mask i) b with
    | .error e => .error e
    | .ok () => p.checkSources mask (i + 1) rest

def checkMask (ins : Instruction) : Except OperandError Unit :=
  if ins.mask.toNat >>> ins.op.arity ≠ 0 then .error (.maskBits ins.mask ins.op.arity)
  else .ok ()

def checkDestination (p : Program) (ins : Instruction) : Except OperandError Unit :=
  if ins.op.hasDestination then p.checkRegister true ins.destination else .ok ()

def checkInstruction (p : Program) (ins : Instruction) : Except OperandError Unit := do
  p.checkSet ins
  p.checkSources ins.mask 0 ins.sources
  checkMask ins
  p.checkDestination ins

/-- Checks the instructions of bytes that stand at the given offset of the code. -/
def checkCode (p : Program) (offset : Nat) (code : List UInt8) : Except ValidationError Unit :=
  match _h : Instruction.split offset code with
  | .error e => .error (.unreadable e)
  | .ok (ins, rest) =>
    if ins.op = .done then
      if rest.isEmpty then .ok () else .error (.unreachable offset)
    else match p.checkInstruction ins with
      | .error e => .error (.operand ins.op offset e)
      | .ok () => p.checkCode (offset + ins.size) rest
termination_by code.length
decreasing_by exact Instruction.split_decreasing _h

def validate (p : Program) : Except ValidationError Unit :=
  if Limit.constants < p.constants.length then .error (.constants ⟨p.constants.length⟩)
  else if Limit.inputs < p.inputs.length then .error (.inputs p.inputs.length)
  else if Limit.outputs < p.outputs.length then .error (.outputs p.outputs.length)
  else p.checkCode 0 p.bytes

end Program
end Quadlane
