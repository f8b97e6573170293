import Quadlane.Assembly.Vector
import Quadlane.Code.Instruction

/-! Why a line of assembly text is refused. -/

namespace Quadlane.Assembly

inductive LineError where
  | directiveNeedsName (directive : Text)
  | nameTakesOne
  | unknownDirective (directive : Text)
  | vector (e : VectorError)
  | unknownMnemonic (word : Text)
  | operandCount (op : Opcode) (expected count : Nat)
  | constantDestination (operand : Text)
  | emptyOperand
  | unknownOperand (operand : Text)
  | expectedIndex (letter : Char) (operand : Text)
  | malformedOperand (operand : Text)
  | outOfRange (operand : Text)
  | instruction (e : InstructionError)
  deriving DecidableEq

def LineError.report : LineError → Report
  | directiveNeedsName d =>
    .ofCategory .invalidOperand [Text.lit "directive", d, Text.lit "needs a name"]
  | nameTakesOne => .ofCategory .invalidOperand [Text.lit ".name takes one name"]
  | unknownDirective d => .ofCategory .invalidOperand [Text.lit "unknown directive", d]
  | vector e => e.report
  | unknownMnemonic word => .ofCategory .unknownOpcode [Text.lit "mnemonic", word]
  | operandCount op expected count =>
    .ofCategory .invalidOperand [op.mnemonic, Text.lit "expects", Text.decimal expected,
      Text.lit "operands, got", Text.decimal count]
  | constantDestination s =>
    .ofCategory .invalidOperand [Text.lit "constant", s, Text.lit "used as destination"]
  | emptyOperand => .ofCategory .invalidOperand [Text.lit "empty operand"]
  | unknownOperand s => .ofCategory .invalidOperand [Text.lit "unknown operand", s]
  | expectedIndex letter s =>
    .ofCategory .invalidOperand [Text.lit "expected", [Text.byte letter] ++ Text.lit "N,",
      Text.lit "got", Text.quote s]
  | malformedOperand s => .ofCategory .invalidOperand [Text.lit "malformed operand", Text.quote s]
  | outOfRange s => .ofCategory .invalidOperand [Text.lit "operand", s, Text.lit "out of range"]
  | instruction e => e.report

/-- Why a source text is refused: the first bad line, or a line that is too long to be read. -/
inductive SourceError where
  | line (number : Nat) (text : Text) (cause : LineError)
  | lineTooLong
  deriving DecidableEq

def SourceError.report : SourceError → Report
  | line number text cause =>
    { message := Text.lit "asm: line " ++ Text.decimal number ++ Text.lit ": " ++
        Text.quote text ++ Text.lit ": " ++ cause.report.message
      categories := cause.report.categories
      line? := some ⟨number, text⟩ }
  | lineTooLong => .plain (Text.lit "bufio.Scanner: token too long")

end Quadlane.Assembly
