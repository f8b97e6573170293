import Quadlane.Assembly.Operand

/-! Assembly text. A line holds a directive, which starts with a point, or an instruction, which may
have an offset in front; from `#` or `;` on a line is a comment. Each line is read on its own, and the
program is what the lines declare and emit, in order. -/

namespace Quadlane.Assembly

/-- Lines have fewer bytes than this. -/
def lineLimit : Nat := 65536

def newline : UInt8 := 10

/-- A text cut at its line ends. What follows the last line end is a line only if it is not empty. -/
def rawLines (source : Text) : List Text :=
  let pieces := Text.splitOn newline source
  if pieces.getLast? = some [] then pieces.dropLast else pieces

/-- One carriage return at the end of a line is not part of it. -/
def dropReturn (line : Text) : Text :=
  if line.getLast? = some 13 then line.dropLast else line

def stripComment (line : Text) : Text :=
  line.takeWhile fun b => b ≠ Text.byte '#' && b ≠ Text.byte ';'

/-- What a line adds to the program. -/
inductive Item where
  | name (name : Text)
  | inputs (names : List Text)
  | outputs (names : List Text)
  | constant (c : Constant)
  | set (s : SetDeclaration)
  | instruction (ins : Instruction)
  deriving DecidableEq

namespace Item

def name? : Item → Option Text
  | name t => some t
  | _ => none

def inputNames : Item → List Text
  | inputs ts => ts
  | _ => []

def outputNames : Item → List Text
  | outputs ts => ts
  | _ => []

def constant? : Item → Option Constant
  | constant c => some c
  | _ => none

def set? : Item → Option SetDeclaration
  | set s => some s
  | _ => none

def instruction? : Item → Option Instruction
  | instruction ins => some ins
  | _ => none

end Item

/-- The code of some instructions; without any there is none. -/
def codeOf (instructions : List Instruction) : Option (List UInt8) :=
  if instructions.isEmpty then none else some (instructions.flatMap Instruction.encode)

/-- The program that items add up to. Of several names the last one counts. -/
def programOf (items : List Item) : Program :=
  { name := (items.filterMap Item.name?).getLastD []
    code := codeOf (items.filterMap Item.instruction?)
    constants := items.filterMap Item.constant?
    inputs := items.flatMap Item.inputNames
    outputs := items.flatMap Item.outputNames
    sets := items.filterMap Item.set? }

def parseDirective (line : Text) : Except LineError Item :=
  match Text.fields (stripComment line) with
  | [] => .error (.directiveNeedsName [])
  | [directive] => .error (.directiveNeedsName directive)
  | directive :: name :: rest =>
    let word := Text.lower directive
    if word = Text.lit ".name" then
      if rest.isEmpty then .ok (.name name) else .error .nameTakesOne
    else if word = Text.lit ".input" then .ok (.inputs (name :: rest))
    else if word = Text.lit ".output" then .ok (.outputs (name :: rest))
    else if word = Text.lit ".const" then
      match parseVector rest with
      | .error e => .error (.vector e)
      | .ok value => .ok (.constant ⟨name, value⟩)
    else if word = Text.lit ".dataset" then .ok (.set ⟨name, rest⟩)
    else .error (.unknownDirective directive)

/-- The operands of an instruction: what stands after its mnemonic, cut at commas. -/
def operandTexts (fields : List Text) : List Text :=
  if fields.isEmpty then []
  else (Text.splitOn (Text.byte ',') (Text.words fields)).map Text.trim

/-- The instruction on a line, if there is one. -/
def parseCode (line : Text) : Except LineError (Option Instruction) :=
  let fields := Text.fields (stripComment line)
  let fields := if (fields.head?.map Text.isDecimal).getD false then fields.drop 1 else fields
  match fields with
  | [] => .ok none
  | word :: rest =>
    match Opcode.ofMnemonic? (Text.lower word) with
    | none => .error (.unknownMnemonic word)
    | some op => (parseInstruction op (operandTexts rest)).map some

/-- The item on a line, if there is one. -/
def parseLine (line : Text) : Except LineError (Option Item) :=
  let trimmed := Text.trim line
  if trimmed.head? = some (Text.byte '.') then (parseDirective trimmed).map some
  else (parseCode line).map (·.map .instruction)

/-- The item on the line with the given number. -/
def parseNumbered : Text × Nat → Except SourceError (Option Item)
  | (raw, number) =>
    if lineLimit ≤ raw.length then .error .lineTooLong
    else
      let line := dropReturn raw
      (parseLine line).mapError (.line number (Text.trim line))

/-- The items of a source text, as far as its first bad line. -/
def parseItems (source : Text) : Except SourceError (List Item) :=
  (((rawLines source).zipIdx 1).mapM parseNumbered).map (·.filterMap id)

/-- The program a source text describes. -/
def parse (source : Text) : Except SourceError Program :=
  (parseItems source).map programOf

end Quadlane.Assembly
