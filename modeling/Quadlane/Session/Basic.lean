import Quadlane.Assembly.Parse
import Quadlane.Assembly.Vector
import Quadlane.Machine.Exec
import Quadlane.Output
import Quadlane.Program.Validation
import Quadlane.Session.Vocabulary

/-! An interactive session. Lines that parse are added to a program; a line that starts with a command
carries that out. A backslash at the end of a line joins it to the next one. -/

namespace Quadlane

structure Session where
  /-- The lines of the program so far. -/
  source : Text := []
  /-- The lines joined so far. -/
  pending : Text := []
  /-- Values for inputs, by name. -/
  values : Bindings := []
  machine : Machine
  /-- Whether the next line is joined to `pending`. -/
  continuing : Bool := false

namespace Session

def new (chunkSize seed : Int) : Session :=
  { machine := { Machine.new chunkSize seed NoiseTable.standard with recovers := true } }

def prompt (s : Session) : Text :=
  if s.continuing then Text.lit "... " else Text.lit ">>> "

/-- What ends a session. -/
inductive Signal where
  | exit
  | reset
  /-- A run needs buffers that no memory holds; this leaves the program. -/
  | fault
  deriving DecidableEq

structure Reply where
  session : Session
  output : Output := []
  signal : Option Signal := none

def complain (message : Text) : Output :=
  Output.line (Text.lit "!   " ++ message)

inductive ProgramError where
  | source (e : Assembly.SourceError)
  | invalid (e : ValidationError)

def ProgramError.report : ProgramError → Report
  | source e => e.report
  | invalid e => e.report

/-- The program of the lines so far. It gets a name if it has none, and an end if its last byte is
none. -/
def program (s : Session) : Except ProgramError Program :=
  match Assembly.parse s.source with
  | .error e => .error (.source e)
  | .ok p =>
    let done := Opcode.done.toByte
    let p := { p with
      code := if p.bytes.getLast? = some done then p.code else some (p.bytes ++ [done])
      name := if p.name.isEmpty then Text.lit "(repl)" else p.name }
    match p.validate with
    | .error e => .error (.invalid e)
    | .ok () => .ok p

/-- The values of an input: the one that was set, or else the number of the instance. -/
def inputBuffer (s : Session) (count : Nat) (name : Text) : Buffer :=
  match s.values.lookup name with
  | some q => Array.replicate count q
  | none => ((List.range count).map fun i : Nat => Quad.splat (Lane.ofInt i)).toArray

/-- The views of declared data sets; their variables are numbered from `base` on. -/
def views (count : Nat) (base : Nat) : List SetDeclaration → List (View (Option BufferId))
  | [] => []
  | d :: rest =>
    { (View.new d.name count : View (Option BufferId)) with
      vars := (d.vars.mapIdx fun i x => (x, some (base + i))).toArray } ::
      views count (base + d.vars.length) rest

/-- Whether there can be buffers for so many instances; a program may need none. -/
def canHold (p : Program) (count : Nat) : Bool :=
  Buffer.canHold count || (p.inputs.isEmpty && p.outputs.isEmpty && p.sets.all (·.vars.isEmpty))

/-- Inputs, outputs and data sets of a program over so many instances. -/
def memory (s : Session) (p : Program) (count : Nat) : Memory :=
  let blank := fun (_ : Text) => Array.replicate count Quad.zero
  { buffers := (p.inputs.map (s.inputBuffer count) ++ p.outputs.map blank ++
      p.sets.flatMap fun d => d.vars.map blank).toArray
    views := (views count (p.inputs.length + p.outputs.length) p.sets).toArray }

def arguments (p : Program) (count : Nat) : Arguments :=
  let window := fun id => (⟨id, 0, count⟩ : Window)
  { inputs := (List.range p.inputs.length).map window
    outputs := (List.range p.outputs.length).map fun i => window (p.inputs.length + i)
    constants := .own (p.constants.map (·.value))
    sets := (List.range p.sets.length).map some
    count }

/-- The values of a buffer, numbered. -/
def valueLines (b : Buffer) : Text :=
  b.toList.zipIdx.flatMap fun (q, i) =>
    Text.lit "    " ++ Text.padLeft 4 ' ' (Text.decimal i) ++ Text.lit ": " ++ q.render ++ [10]

def resultText (p : Program) (m : Memory) : Text :=
  (p.outputs.zipIdx.flatMap fun (name, i) =>
    Text.lit "⇦   o" ++ Text.decimal i ++ 32 :: name ++ 10 ::
      valueLines (m.buffers.getD (p.inputs.length + i) #[])) ++
  m.views.toList.flatMap fun v =>
    Text.lit "⇦   " ++ v.name ++ Text.lit ": " ++ Text.integer v.counter ++ Text.lit " of " ++
      Text.integer v.size ++ [10]

/-- Runs the program over so many instances. -/
def run (s : Session) (count : Nat) : Reply :=
  match s.program with
  | .error e => { session := s, output := complain e.report.message }
  | .ok p =>
    if !canHold p count then { session := s, signal := some .fault }
    else
      let r := s.machine.exec p.bytes (arguments p count) (s.memory p count)
      let s := { s with machine := r.machine }
      match r.outcome with
      | .ok =>
        { session := s
          output := [.text (resultText p r.memory ++ Text.lit "    " ++ Text.decimal count ++
            Text.lit " instances in "), .elapsed, .text [10]] }
      | .error e => { session := s, output := complain e.report.message }
      | .fault _ => { session := s, signal := some .fault }

/-- A number of instances: digits after an optional sign, below `2 ^ 63` and not negative. -/
def count? (t : Text) : Option Nat :=
  let digits := if t.startsWith [43] || t.startsWith [45] then t.drop 1 else t
  let n := Text.toNat digits
  if !Text.isDecimal digits || 0x8000000000000000 ≤ n || (t.startsWith [45] && n ≠ 0) then none else some n

def setValue (s : Session) (name : Text) (q : Quad) : Session :=
  { s with values := (name, q) :: s.values.filter (·.1 ≠ name) }

/-- Carries out a command with the words after it. -/
def perform (s : Session) (c : Command) (words : List Text) : Reply :=
  match c with
  | .commands =>
    { session := s
      output := .ofText (table (Command.all.map fun c => (c.name, c.description))) }
  | .opcodes =>
    { session := s
      output := .ofText (table (Opcode.all.map fun op => (op.mnemonic, op.operandHelp))) }
  | .program =>
    match s.program with
    | .ok p => { session := s, output := .ofText p.render }
    | .error e => { session := s, output := complain e.report.message }
  | .set =>
    match words with
    | name :: lane :: lanes =>
      match Assembly.parseVector (lane :: lanes) with
      | .ok q => { session := s.setValue name q }
      | .error e => { session := s, output := complain e.report.message }
    | _ => { session := s, output := complain (Text.lit "usage: .set NAME X [Y Z W]") }
  | .values =>
    { session := s
      output := .ofText ((s.values.mergeSort fun a b => a.1.le b.1).flatMap fun (name, q) =>
        name ++ Text.lit " = " ++ q.render ++ [10]) }
  | .run =>
    match words with
    | [] => s.run 4
    | w :: _ =>
      match count? w with
      | some n => s.run n
      | none =>
        { session := s, output := complain (Text.lit "invalid instance count " ++ Text.quote w) }
  | .collect => { session := s }
  | .reset => { session := s, signal := some .reset }
  | .exit => { session := s, signal := some .exit }

/-- Ends the joined lines with one more, and adds them to the program if they parse. -/
def append (s : Session) (line : Text) : Reply :=
  let added := s.pending ++ line ++ [10]
  let rest := { s with pending := [], continuing := false }
  match Assembly.parse added with
  | .ok _ => { session := { rest with source := s.source ++ added } }
  | .error e => { session := rest, output := complain e.report.message }

/-- Takes in a line. -/
def execute (s : Session) (line : Text) : Reply :=
  if !s.continuing && line.trim.isEmpty then { session := s }
  else if !s.continuing && line.head? = some 46 then
    match line.fields with
    | [] => s.append line
    | word :: words =>
      match Command.ofName? word with
      | some c => s.perform c words
      | none => s.append line
  else if line.getLast? = some 92 then
    { session := { s with continuing := true, pending := s.pending ++ line.dropLast ++ [32] } }
  else s.append line

end Session
end Quadlane
