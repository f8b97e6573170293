import Quadlane.Assembly.Format
import Quadlane.Cli.Flags
import Quadlane.Output
import Quadlane.Scenario.Build
import Quadlane.Scenario.Decode
import Quadlane.Session.Basic

/-! The command line: running scenarios, assembling programs and printing images. All effects are on a
tree of files and on what is printed. -/

namespace Quadlane.Cli

inductive Command where
  | interactive
  | run (path : Text)
  | assemble (path : Text)
  | disassemble (path : Text)
  deriving DecidableEq

inductive CommandError where
  | unknown (word : Text)
  | fileCount (word : Text)
  | file (e : FileError)
  deriving DecidableEq

def CommandError.message : CommandError → Text
  | unknown word => Text.lit "unknown command " ++ Text.quote word
  | fileCount word => word ++ Text.lit " needs one file argument"
  | file e => e.report.message

def usage : Text :=
  Text.joinWith [10]
    (["Usage: vecvm [flags] [command] [file]",
      "",
      "Commands:",
      "  run    FILE.toml   run a scenario",
      "  asm    FILE        assemble FILE into a program image",
      "  disasm FILE.vvmc   print a program image",
      "",
      "If no command is provided, REPL terminal application is started",
      "",
      "Flags:",
      "  -chunk-size int",
      "    \tInstances per chunk, overrides the scenario value",
      "  -dump",
      "    \tPrint emitter attributes after run",
      "  -log string",
      "    \tLog file, defaults to stderr",
      "  -o string",
      "    \tOutput file of asm",
      "  -seed int",
      "    \tRandom seed, overrides the scenario value",
      "  -ticks int",
      "    \tTicks to run, overrides the scenario value",
      "  -timeout duration",
      "    \tRun timeout. It is applicable to the run command and must be non-zero duration",
      "  -v int",
      "    \tLog verbosity: 0 warnings, 1 notices, 2 info, 3 debug",
      ""].map Text.lit)

/-- What a call does. -/
structure Outcome where
  exit : Nat := 0
  output : Output := []
  errors : Text := []
  files : FileTree
  /-- Whether the call was ended by a fault. -/
  faulted : Bool := false

/-- Ends with a message. -/
def Outcome.failure (files : FileTree) (message : Text) : Outcome :=
  { exit := 1, errors := message ++ [10], files }

/-- Ends by a fault. -/
def Outcome.fault (files : FileTree) : Outcome :=
  { exit := 2, files, faulted := true }

/-- The command the arguments after the flags stand for; its file has to exist. -/
def command (files : FileTree) : List Text → Except CommandError Command
  | [] => .ok .interactive
  | word :: arguments =>
    let onFile := fun (make : Text → Command) =>
      match arguments with
      | [path] =>
        match files.check path with
        | some e => .error (.file e)
        | none => .ok (make path)
      | _ => .error (.fileCount word)
    if word = Text.lit "run" then onFile .run
    else if word = Text.lit "asm" then onFile .assemble
    else if word = Text.lit "disasm" then onFile .disassemble
    else .error (.unknown word)

/-- The scenario with the values that flags replace. -/
def overridden (f : Flags) (s : Scenario) : Scenario :=
  { s with
    chunkSize := if 0 < f.chunkSize then f.chunkSize else s.chunkSize
    seed := if f.seed ≠ 0 then f.seed else s.seed
    ticks := if 0 < f.ticks then f.ticks else s.ticks }

/-- A timeout that is over before anything can be run. -/
def stop (f : Flags) : Option Simulation.Interruption :=
  if 0 < f.timeout && f.timeout < 1000 then some .expired else none

def attributeText (e : Simulation.Emitter) (name : Text) : Text :=
  Text.lit "  " ++ name ++ 10 :: Session.valueLines ((e.attribute? name).getD []).toArray

def emitterText (dump : Bool) (e : Simulation.Emitter) : Text :=
  Text.lit "emitter " ++ e.name ++ Text.lit ": " ++ Text.decimal e.live ++
    Text.lit " instances\n" ++
    if dump then e.attributes.flatMap (attributeText e) else []

def worldOutput (dump : Bool) (w : Simulation.World) : Output :=
  [.text (Text.decimal w.ticks ++ Text.lit " ticks in "), .elapsed,
    .text (10 :: w.emitters.flatMap (emitterText dump))]

/-- The directory of a file, from the root on. -/
def absoluteDirectory (files : FileTree) (path : Text) : Text :=
  let d := Path.directory path
  if Path.isAbsolute d then d else Path.join files.workingPath d

/-- The world of a scenario file, and for how many ticks it is to be run. -/
def startScenario (f : Flags) (files : FileTree) (path : Text) :
    Except Outcome (Simulation.World × Nat) :=
  match files.read path with
  | .error e => .error (.failure files (e.report.within (Text.lit "cannot read " ++ path)).message)
  | .ok contents =>
    match Scenario.decode contents with
    | .error e =>
      .error (.failure files (e.report.within (Text.lit "parse error in " ++ path)).message)
    | .ok s =>
      let s := overridden f s
      match s.build files (absoluteDirectory files path) with
      | .error e => .error (if e.isFault then .fault files else .failure files e.report.message)
      | .ok w => .ok (w, s.ticks.toNat)

/-- What is said about a world after its ticks. -/
def endScenario (f : Flags) (files : FileTree) :
    Simulation.World × Option Simulation.WorldError → Outcome
  | (_, some e) => .failure files e.report.message
  | (w, none) => { output := worldOutput f.dump w, files }

def runScenario (f : Flags) (files : FileTree) (path : Text) : Outcome :=
  match startScenario f files path with
  | .error o => o
  | .ok (w, ticks) => endScenario f files (w.run (stop f) ticks)

/-- Assembles a file into an image next to it, or where the flags say. -/
def assembleFile (f : Flags) (files : FileTree) (path : Text) : Outcome :=
  let failed := fun (r : Report) => Outcome.failure files r.message
  match files.read path with
  | .error e => failed e.report
  | .ok contents =>
    match Assembly.parse contents with
    | .error e => failed (e.report.within path)
    | .ok p =>
      let base := Path.base path
      let extension := Path.extension path
      let name := if base.endsWith extension then base.take (base.length - extension.length) else base
      let p := { p with name := if p.name.isEmpty then name else p.name }
      match p.validate with
      | .error e => failed (e.report.within path)
      | .ok () =>
        let target := if f.output.isEmpty then Path.withoutExtension path ++ Scenario.imageExtension
          else f.output
        match files.write target (Image.encode p) with
        | .error e => failed e.report
        | .ok files => { files }

def disassembleFile (files : FileTree) (path : Text) : Outcome :=
  match files.read path with
  | .error e => .failure files (e.report.within path).message
  | .ok contents =>
    match Image.load contents with
    | .error e => .failure files (e.report.within path).message
    | .ok p =>
      match Assembly.format p with
      | (t, none) => { output := .ofText t, files }
      | (t, some e) => { Outcome.failure files e.report.message with output := .ofText t }

/-- Makes sure that the log file exists, unless nothing is to be logged. -/
def openLog (f : Flags) (files : FileTree) : Except FileError FileTree :=
  if f.log.isEmpty || f.verbosity ≤ -4 then .ok files else files.touch f.log

/-- What a call asks for, once its log file is open. -/
structure Plan where
  flags : Flags
  command : Command
  files : FileTree

/-- Flags, then a command. -/
def plan (files : FileTree) (arguments : List Text) : Except Outcome Plan :=
  match parseFlags {} arguments with
  | .error e =>
    .error
      { exit := if e = .help then 0 else 2
        errors := (e.message?.map (· ++ [10])).getD [] ++ usage
        files }
  | .ok (flags, rest) =>
    match command files rest with
    | .error e => .error (.failure files e.message)
    | .ok command =>
      match openLog flags files with
      | .error e =>
        .error (.failure files (e.report.within (Text.lit "log file error")).message)
      | .ok files => .ok { flags, command, files }

/-- Carries out a plan without a terminal. -/
def Plan.perform (p : Plan) : Outcome :=
  match p.command with
  | .interactive => .failure p.files (Text.lit "not a terminal")
  | .run path => runScenario p.flags p.files path
  | .assemble path => assembleFile p.flags p.files path
  | .disassemble path => disassembleFile p.files path

def execute (files : FileTree) (arguments : List Text) : Outcome :=
  match plan files arguments with
  | .error o => o
  | .ok p => p.perform

end Quadlane.Cli
