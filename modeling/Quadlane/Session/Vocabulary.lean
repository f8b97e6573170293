import Quadlane.Code.Opcode

/-! The words of an interactive session: commands, directives and mnemonics. -/

namespace Quadlane

/-- The operands of an instruction, as they are written. -/
def Opcode.operandHelp (op : Opcode) : Text :=
  match op.layout with
  | .none => []
  | .cursor => Text.lit "dst, set, cond"
  | .read => Text.lit "dst, set, var, index"
  | .write => Text.lit "set, var, index, value"
  | .valid => Text.lit "dst, set, index"
  | .kernel =>
    Text.joinWith (Text.lit ", ") (Text.lit "dst" :: List.replicate op.arity (Text.lit "src"))

namespace Session

inductive Command where
  | commands
  | opcodes
  | program
  | set
  | values
  | run
  | collect
  | reset
  | exit
  deriving DecidableEq

namespace Command

def all : List Command :=
  [commands, opcodes, program, set, values, run, collect, reset, exit]

def name : Command → Text
  | commands => Text.lit ".commands"
  | opcodes => Text.lit ".opcodes"
  | program => Text.lit ".program"
  | set => Text.lit ".set"
  | values => Text.lit ".values"
  | run => Text.lit ".run"
  | collect => Text.lit ".gc"
  | reset => Text.lit ".reset"
  | exit => Text.lit ".exit"

def description : Command → Text
  | commands => Text.lit "Print REPL commands"
  | opcodes => Text.lit "Print Opcodes"
  | program => Text.lit "Print Program"
  | set => Text.lit "Set Input Value: .set NAME X [Y Z W]"
  | values => Text.lit "Print Input Values"
  | run => Text.lit "Run Program: .run [INSTANCES]"
  | collect => Text.lit "Run Garbage Collector"
  | reset => Text.lit "Reset"
  | exit => Text.lit "Exit"

def ofName? (t : Text) : Option Command :=
  all.find? (·.name = t)

end Command

def directives : List Text :=
  [".name", ".input", ".output", ".const", ".dataset"].map Text.lit

/-- All words, in the order in which they are offered. -/
def vocabulary : List Text :=
  Command.all.map Command.name ++ directives ++ Opcode.all.map Opcode.mnemonic

/-- The words that start with a text, then those that contain it elsewhere. -/
def complete (t : Text) : List Text :=
  vocabulary.filter (·.startsWith t) ++
    vocabulary.filter fun w => !w.startsWith t && Text.contains t w

/-- Words with descriptions, in two columns. -/
def table (rows : List (Text × Text)) : Text :=
  let width := (rows.map (·.1.length)).foldl max 0
  rows.flatMap fun (word, description) =>
    (if description.isEmpty then word
      else Text.padRight width ' ' word ++ 9 :: description) ++ [10]

end Session
end Quadlane
