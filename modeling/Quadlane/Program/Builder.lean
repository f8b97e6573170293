import Quadlane.Program.Basic

/-! Building a program call by call. A name is declared once; declaring it again gives the operand of
its first declaration. The first failure is kept: after it nothing is emitted any more. -/

namespace Quadlane

inductive BuildError where
  | tooManyConstants (name : Text)
  | tooManyInputs (name : Text)
  | tooManyOutputs (name : Text)
  | notKernel (op : Opcode)
  | notCursor (op : Opcode)
  | instruction (e : InstructionError)
  deriving DecidableEq

def BuildError.report : BuildError → Report
  | tooManyConstants name => .ofCategory .constantLimit [Text.lit "declaring", name]
  | tooManyInputs name =>
    .ofCategory .registerLimit [Text.lit "too many inputs declaring", name]
  | tooManyOutputs name =>
    .ofCategory .registerLimit [Text.lit "too many outputs declaring", name]
  | notKernel op => .ofCategory .invalidOperand [op.mnemonic, Text.lit "is not a kernel"]
  | notCursor op => .ofCategory .invalidOperand [op.mnemonic, Text.lit "is not a cursor opcode"]
  | instruction e => e.report

structure Builder where
  draft : Program
  error : Option BuildError := none

namespace Builder

def new (name : Text) : Builder :=
  { draft := { name } }

/-- Keeps an error, unless there is an earlier one. -/
def fail (b : Builder) (e : BuildError) : Builder :=
  { b with error := b.error <|> some e }

def constant (b : Builder) (name : Text) (value : Quad) : Operand × Builder :=
  match b.draft.constants.findIdx? (·.name = name) with
  | some i => (.constant i, b)
  | none =>
    let n := b.draft.constants.length
    if Limit.constants ≤ n then (.constant 0, b.fail (.tooManyConstants name))
    else (.constant n,
      { b with draft := { b.draft with constants := b.draft.constants ++ [⟨name, value⟩] } })

def input (b : Builder) (name : Text) : Operand × Builder :=
  match b.draft.inputs.findIdx? (· = name) with
  | some i => (.input i, b)
  | none =>
    let n := b.draft.inputs.length
    if Limit.inputs ≤ n then (.input 0, b.fail (.tooManyInputs name))
    else (.input n, { b with draft := { b.draft with inputs := b.draft.inputs ++ [name] } })

def output (b : Builder) (name : Text) : Operand × Builder :=
  match b.draft.outputs.findIdx? (· = name) with
  | some i => (.output i, b)
  | none =>
    let n := b.draft.outputs.length
    if Limit.outputs ≤ n then (.output 0, b.fail (.tooManyOutputs name))
    else (.output n, { b with draft := { b.draft with outputs := b.draft.outputs ++ [name] } })

/-- Declares a shared data set and returns its index. -/
def dataSet (b : Builder) (name : Text) (vars : List Text) : Nat × Builder :=
  match b.draft.sets.findIdx? (·.name = name) with
  | some i => (i, b)
  | none =>
    (b.draft.sets.length,
      { b with draft := { b.draft with sets := b.draft.sets ++ [⟨name, vars⟩] } })

/-- Appends an instruction, unless something failed before. -/
def append (b : Builder) (op : Opcode) (set var : Int) (dst : Operand) (srcs : List Operand) :
    Builder :=
  if b.error.isSome then b
  else match Instruction.make op set var dst srcs with
    | .error e => b.fail (.instruction e)
    | .ok ins => { b with draft := { b.draft with code := some (b.draft.bytes ++ ins.encode) } }

/-- Appends a kernel. -/
def emit (b : Builder) (op : Opcode) (dst : Operand) (srcs : List Operand) : Builder :=
  if op.layout = .kernel then b.append op 0 0 dst srcs else b.fail (.notKernel op)

/-- Appends a move of a cursor, for the instances with a positive condition. -/
def cursor (b : Builder) (op : Opcode) (set : Int) (cond dst : Operand) : Builder :=
  if op.layout = .cursor then b.append op set 0 dst [cond] else b.fail (.notCursor op)

def read (b : Builder) (set var : Int) (index dst : Operand) : Builder :=
  b.append .dataRead set var dst [index]

def write (b : Builder) (set var : Int) (index value : Operand) : Builder :=
  b.append .dataWrite set var default [index, value]

def indexValid (b : Builder) (set : Int) (index dst : Operand) : Builder :=
  b.append .indexValid set 0 dst [index]

def done (b : Builder) : Builder :=
  b.append .done 0 0 default []

/-- The program built so far, or the first error. -/
def program (b : Builder) : Except BuildError Program :=
  match b.error with
  | some e => .error e
  | none => .ok b.draft

end Builder
end Quadlane
