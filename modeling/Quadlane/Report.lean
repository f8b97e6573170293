import Quadlane.Text.Basic

/-! What is said about a failure. Every part of the program has its own type of errors, one
constructor a cause; a report is the common form in which they are shown: a message and the
categories the failure belongs to. -/

namespace Quadlane

/-- Kinds of failure that callers tell apart. -/
inductive Category where
  | malformedProgram
  | unknownOpcode
  | truncatedProgram
  | registerLimit
  | constantLimit
  | invalidOperand
  | invalidArgument
  | invalidImage
  | signatureMismatch
  | unsupportedVersion
  | invalidScenario
  | canceled
  | missingFile
  /-- The body of a program image does not decode. -/
  | imageBody
  /-- A scenario document has a syntax error or a value of the wrong type. -/
  | document
  deriving DecidableEq

namespace Category

/-- The name in front of the message of a failure of this category. -/
def title? : Category → Option Text
  | malformedProgram => some (Text.lit "MalformedProgramError")
  | unknownOpcode => some (Text.lit "UnknownOpcodeError")
  | truncatedProgram => some (Text.lit "TruncatedProgramError")
  | registerLimit => some (Text.lit "RegisterLimitError")
  | constantLimit => some (Text.lit "ConstantLimitError")
  | invalidOperand => some (Text.lit "InvalidOperandError")
  | invalidArgument => some (Text.lit "InvalidArgumentError")
  | invalidImage | signatureMismatch | unsupportedVersion =>
    some (Text.lit "encoder.Program.UnmarshalBinary")
  | _ => none

/-- The category itself, then the wider ones it is part of. -/
def withWider : Category → List Category
  | unknownOpcode => [unknownOpcode, malformedProgram]
  | truncatedProgram => [truncatedProgram, malformedProgram]
  | registerLimit => [registerLimit, malformedProgram]
  | c => [c]

end Category

/-- A name and a message; a missing name reads `error`, a missing message leaves the name alone. -/
def headline (name message : Text) : Text :=
  let name := if name.isEmpty then Text.lit "error" else name
  if message.isEmpty then name else name ++ Text.lit ": " ++ message

/-- A line of source text an error points at. -/
structure SourceLine where
  number : Nat
  text : Text

structure Report where
  message : Text
  /-- The narrowest category first. -/
  categories : List Category := []
  line? : Option SourceLine := none

namespace Report

/-- The report of a failure of one category, its message made of words. -/
def ofCategory (c : Category) (words : List Text) : Report :=
  { message := headline (c.title?.getD []) (Text.words words)
    categories := c.withWider }

def plain (message : Text) : Report :=
  { message }

/-- Says where a failure happened, in front of its message. -/
def within (context : Text) (r : Report) : Report :=
  { r with message := context ++ Text.lit ": " ++ r.message }

/-- The name of the failure: that of its narrowest category with a title. -/
def name (r : Report) : Text :=
  if r.line?.isSome then Text.lit "asm.Error"
  else (r.categories.findSome? Category.title?).getD (Text.lit "error")

end Report
end Quadlane
