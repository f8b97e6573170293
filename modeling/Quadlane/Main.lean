import Quadlane.Cli.Reading

/-! The program. Files are read before and written after the work, which is done by pure functions. -/

namespace Quadlane.Shell

/-- The result of reading, if it succeeds. -/
def attempt {α : Type} (read : IO α) : IO (Option α) :=
  try
    return some (← read)
  catch _ => return none

/-- Adds the files at some paths, as far as they exist. -/
def fetch (files : FileTree) (paths : List Text) : IO FileTree :=
  paths.foldlM (fun files path => do
    match ← attempt (IO.FS.readBinFile path.display) with
    | none => return files
    | some bytes =>
      return { files with files := (Cli.absoluteNames files path, bytes.toList) :: files.files })
    files

/-- Adds the directories at some paths, as far as they exist. -/
def fetchDirectories (files : FileTree) (paths : List Text) : IO FileTree := do
  let here ← IO.currentDir
  paths.foldlM (fun files path => do
    if ← (here / path.display).isDir then
      return { files with directories := Cli.absoluteNames files path :: files.directories }
    else return files)
    files

/-- Writes the files that are new or have changed. -/
def store (before after : FileTree) : IO Unit :=
  for (names, contents) in after.files do
    if before.files.lookup names ≠ some contents then
      let path : Text := 47 :: Text.joinWith [47] names
      IO.FS.writeBinFile path.display contents.toByteArray

def elapsedSince (start : Nat) : IO Text := do
  return Text.decimal ((← IO.monoMsNow) - start) ++ Text.lit "ms"

/-- Takes in lines until the input or the session ends. -/
partial def converse (flags : Cli.Flags) (session : Session) : IO Unit := do
  IO.print session.prompt.display
  (← IO.getStdout).flush
  let line ← (← IO.getStdin).getLine
  if line.isEmpty then return
  let start ← IO.monoMsNow
  let reply := session.execute (Text.lit (line.dropEndWhile (· = '\n')).toString)
  IO.print (reply.output.render (← elapsedSince start)).display
  match reply.signal with
  | some .exit | some .fault => return
  | some .reset => converse flags (Session.new flags.chunkSize flags.seed)
  | none => converse flags reply.session

/-- Runs ticks; once the deadline has passed they are interrupted. -/
def runUntil (deadline : Option Nat) (w : Simulation.World) :
    Nat → IO (Simulation.World × Option Simulation.WorldError)
  | 0 => return (w, none)
  | ticks + 1 => do
    let now ← IO.monoNanosNow
    let late := deadline.any (· ≤ now)
    match w.advance (if late then some .expired else none) with
    | (w, some e) => return (w, some e)
    | (w, none) => runUntil deadline w ticks

def perform (p : Cli.Plan) : IO Cli.Outcome := do
  match p.command with
  | .run path =>
    match Cli.startScenario p.flags p.files path with
    | .error o => return o
    | .ok (w, ticks) =>
      let now ← IO.monoNanosNow
      let deadline := if 0 < p.flags.timeout then some (now + p.flags.timeout.toNat) else none
      return Cli.endScenario p.flags p.files (← runUntil deadline w ticks)
  | .interactive =>
    if ← (← IO.getStdout).isTty then
      converse p.flags (Session.new p.flags.chunkSize p.flags.seed)
      return { files := p.files }
    else return p.perform
  | _ => return p.perform

end Quadlane.Shell

open Quadlane in
def main (arguments : List String) : IO UInt32 := do
  let arguments := arguments.map Text.lit
  let here := Text.lit (← IO.currentDir).toString
  let files : FileTree := { working := Path.reduce true [] (Text.splitOn 47 here), files := [] }
  let files ← Shell.fetchDirectories files (Cli.directoryPaths arguments)
  let files ← Shell.fetch files (Cli.commandPath? arguments).toList
  let files ← Shell.fetch files (Cli.scriptPaths files arguments)
  let start ← IO.monoMsNow
  let outcome ← match Cli.plan files arguments with
    | .error o => pure o
    | .ok p => Shell.perform p
  IO.eprint outcome.errors.display
  IO.print (outcome.output.render (← Shell.elapsedSince start)).display
  Shell.store files outcome.files
  return outcome.exit.toUInt32
