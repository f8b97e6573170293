import Quadlane.Assembly.Error
import Quadlane.Program.Basic

/-! Reading operands: a letter and a number. The letter, in either case, says what the number counts:
`t`, `i` and `o` registers, `c` constants, `r` places of the register table, `s` data sets and `v`
their variables. -/

namespace Quadlane.Assembly

/-- The number after the letter of an operand, below a limit. -/
def parseNumber (s : Text) (limit : Nat) : Except LineError Nat :=
  let digits := s.drop 1
  if !Text.isDecimal digits then .error (.malformedOperand s)
  else if limit ≤ Text.toNat digits then .error (.outOfRange s)
  else .ok (Text.toNat digits)

def parseRegister (s : Text) : Except LineError Operand :=
  match s with
  | [] => .error .emptyOperand
  | b :: _ =>
    let letter := Text.lowerByte b
    if letter = Text.byte 't' then
      (parseNumber s Limit.temporaries).map (Operand.temp ·)
    else if letter = Text.byte 'i' then (parseNumber s Limit.inputs).map (Operand.input ·)
    else if letter = Text.byte 'o' then (parseNumber s Limit.outputs).map (Operand.output ·)
    else if letter = Text.byte 'r' then (parseNumber s 256).map (Operand.raw ·)
    else .error (.unknownOperand s)

def parseSource (s : Text) : Except LineError Operand :=
  match s with
  | b :: _ =>
    if Text.lowerByte b = Text.byte 'c' then
      (parseNumber s Limit.constants).map (Operand.constant ·)
    else parseRegister s
  | [] => parseRegister s

def parseDestination (s : Text) : Except LineError Operand :=
  match parseSource s with
  | .error e => .error e
  | .ok o => if o.kind = .constant then .error (.constantDestination s) else .ok o

/-- A set or variable operand with the given lower case letter. The letter is compared with the bit
of the lower case set. -/
def parseIndexed (s : Text) (letter : Char) : Except LineError Nat :=
  match s with
  | [] => .error (.expectedIndex letter s)
  | b :: _ =>
    if b ||| 0x20 = Text.byte letter then parseNumber s 256 else .error (.expectedIndex letter s)

def parseSources : List Text → Except LineError (List Operand)
  | [] => .ok []
  | s :: rest =>
    match parseSource s with
    | .error e => .error e
    | .ok o => (parseSources rest).map (o :: ·)

/-- What stands in front of the sources: destination, set and variable, as far as the layout has
them. -/
structure Head where
  destination : Operand := default
  set : Nat := 0
  var : Nat := 0

/-- Operands in front of the sources. -/
def headCount (layout : Layout) : Nat :=
  (if layout.hasDestination then 1 else 0) + (if layout.hasSet then 1 else 0) +
    if layout.hasVariable then 1 else 0

def parseHead (layout : Layout) (operands : List Text) : Except LineError Head :=
  match layout, operands with
  | .kernel, d :: _ => do
    return { destination := ← parseDestination d }
  | .cursor, d :: s :: _ | .valid, d :: s :: _ => do
    let destination ← parseDestination d
    return { destination, set := ← parseIndexed s 's' }
  | .read, d :: s :: v :: _ => do
    let destination ← parseDestination d
    let set ← parseIndexed s 's'
    return { destination, set, var := ← parseIndexed v 'v' }
  | .write, s :: v :: _ => do
    let set ← parseIndexed s 's'
    return { set, var := ← parseIndexed v 'v' }
  | _, _ => .ok {}

def parseInstruction (op : Opcode) (operands : List Text) : Except LineError Instruction :=
  let expected := headCount op.layout + op.arity
  if operands.length ≠ expected then .error (.operandCount op expected operands.length)
  else match parseHead op.layout operands with
    | .error e => .error e
    | .ok head =>
      match parseSources (operands.drop (headCount op.layout)) with
      | .error e => .error e
      | .ok sources =>
        match Instruction.make op head.set head.var head.destination sources with
        | .error e => .error (.instruction e)
        | .ok ins => .ok ins

end Quadlane.Assembly
