import Quadlane.Assembly.Parse
import Quadlane.Files.Tree
import Quadlane.Image.File
import Quadlane.Scenario.Basic
import Quadlane.Simulation.World

/-! From a scenario to the world it describes. Programs are given in the scenario or in files next to
it: images if their names end in `.vvmc`, otherwise source. -/

namespace Quadlane.Scenario

open Simulation (World WorldError Stage)

/-- Why a script has no program. -/
inductive ProgramError where
  | twice
  | missing
  | source (e : Assembly.SourceError)
  | file (e : FileError)
  | image (e : Image.LoadError)

def ProgramError.report : ProgramError → Report
  | twice => invalid (Text.lit "both source and file given")
  | missing => invalid (Text.lit "no program")
  | source e => e.report
  | file e => e.report
  | image e => e.report

inductive ScriptError where
  | unknownStage (name stage : Text)
  | program (name : Text) (e : ProgramError)
  | constant (name target : Text) (e : LaneCountError)

def ScriptError.report : ScriptError → Report
  | unknownStage name stage =>
    invalid (Text.lit "script " ++ name ++ Text.lit ": " ++ (Stage.unknown stage).message)
  | program name e => e.report.within (Text.lit "script " ++ name)
  | constant name target e =>
    (e.report.within (Text.lit "constant " ++ target)).within (Text.lit "script " ++ name)

inductive EmitterError where
  | unnamed
  | instances (name : Text) (count capacity : Int)
  /-- No columns are that long; this leaves the program. -/
  | fault
  | default (name attr : Text) (e : LaneCountError)
  | unknownInitial (name attr : Text)
  | initialCount (name attr : Text) (values live : Nat)
  | initial (name attr : Text) (e : LaneCountError)
  | script (name : Text) (e : ScriptError)

def EmitterError.report : EmitterError → Report
  | unnamed => invalid (Text.lit "emitter without name")
  | instances name count capacity =>
    invalid (Text.lit "emitter " ++ name ++ Text.lit ": " ++ Text.integer count ++
      Text.lit " instances exceed capacity " ++ Text.integer capacity)
  | fault => .plain (Text.lit "fault")
  | default name attr e =>
    (e.report.within (Text.lit "default " ++ attr)).within (Text.lit "emitter " ++ name)
  | unknownInitial name attr =>
    invalid (Text.lit "emitter " ++ name ++ Text.lit ": init of unknown attribute " ++
      Text.quote attr)
  | initialCount name attr values live =>
    invalid (Text.lit "emitter " ++ name ++ Text.lit ": init of " ++ attr ++
      Text.lit " has " ++ Text.decimal values ++ Text.lit " values for " ++
      Text.decimal live ++ Text.lit " instances")
  | initial name attr e =>
    (e.report.within (Text.lit "init " ++ attr)).within (Text.lit "emitter " ++ name)
  | script name e => e.report.within (Text.lit "emitter " ++ name)

inductive BuildError where
  | unnamedSet
  | setSize (name : Text)
  | setLimit (name : Text)
  | duplicate (e : WorldError)
  | emitter (e : EmitterError)
  | bind (e : WorldError)

def BuildError.report : BuildError → Report
  | unnamedSet => invalid (Text.lit "data set without name")
  | setSize name => invalid (Text.lit "data set " ++ name ++ Text.lit ": size must be positive")
  | setLimit name =>
    invalid (Text.lit "data set " ++ name ++ Text.lit ": size exceeds " ++
      Text.integer View.maxSize)
  | duplicate e => invalid e.report.message
  | emitter e => e.report
  | bind e => e.report

def BuildError.isFault : BuildError → Bool
  | emitter .fault => true
  | bind e => e.isFault
  | _ => false

/-- The ending of the names of program images. -/
def imageExtension : Text := Text.lit ".vvmc"

/-- The program of a script; file names are relative to `directory`. -/
def Script.load (files : FileTree) (directory : Text) (s : Script) :
    Except ProgramError Program :=
  let parse := fun t =>
    match Assembly.parse t with
    | .ok p => .ok p
    | .error e => .error (.source e)
  if !s.source.isEmpty && !s.file.isEmpty then .error .twice
  else if !s.source.isEmpty then parse s.source
  else if s.file.isEmpty then .error .missing
  else
    let path := if Path.isAbsolute s.file then s.file else Path.join directory s.file
    match files.read path with
    | .error e => .error (.file e)
    | .ok contents =>
      if Path.extension path = imageExtension then
        match Image.load contents with
        | .ok p => .ok p
        | .error e => .error (.image e)
      else parse contents

/-- Sets the constants of a script in order; of two of one name the later counts. -/
def setConstants (script : Simulation.Script) : List Constant → Except ScriptError Simulation.Script
  | [] => .ok script
  | c :: rest =>
    match vector c.value with
    | .error e => .error (.constant script.name c.name e)
    | .ok q => setConstants (script.setConstant c.name q) rest

/-- A script; without a name of its own it has that of its program. -/
def Script.build (files : FileTree) (directory : Text) (s : Script) :
    Except ScriptError Simulation.Script :=
  match Stage.ofName? s.stage with
  | none => .error (.unknownStage s.name s.stage)
  | some stage =>
    match s.load files directory with
    | .error e => .error (.program s.name e)
    | .ok p =>
      let name := if s.name.isEmpty then p.name else s.name
      setConstants { name, stage, program := some p } s.constants

/-- Values by attribute. -/
def buildDefaults (emitter : Text) : List (Text × List Lane) → Except EmitterError Bindings
  | [] => .ok []
  | (attr, lanes) :: rest =>
    match vector lanes with
    | .error e => .error (.default emitter attr e)
    | .ok q => (buildDefaults emitter rest).map ((attr, q) :: ·)

/-- Overwrites the values of the first instances. -/
def setInitial (e : Simulation.Emitter) :
    List (Text × List (List Lane)) → Except EmitterError Simulation.Emitter
  | [] => .ok e
  | (attr, values) :: rest =>
    if (e.attributeIndex? attr).isNone then .error (.unknownInitial e.name attr)
    else if e.live < values.length then
      .error (.initialCount e.name attr values.length e.live)
    else match values.mapM vector with
      | .error err => .error (.initial e.name attr err)
      | .ok quads => setInitial (e.setAttribute attr quads).2 rest

def buildScripts (files : FileTree) (directory emitter : Text) :
    List Script → Except EmitterError (List Simulation.Script)
  | [] => .ok []
  | s :: rest =>
    match s.build files directory with
    | .error e => .error (.script emitter e)
    | .ok s => (buildScripts files directory emitter rest).map (s :: ·)

def Emitter.build (files : FileTree) (directory : Text) (d : Emitter) :
    Except EmitterError Simulation.Emitter := do
  if d.name.isEmpty then throw .unnamed
  if d.capacity < d.instances then throw (.instances d.name d.instances d.capacity)
  if !Simulation.Emitter.canExist d.capacity d.attributes then throw .fault
  let defaults ← buildDefaults d.name d.defaults
  let e : Simulation.Emitter :=
    { Simulation.Emitter.new d.name d.capacity d.attributes with
      spawnCount := d.spawn
      spawnFrom := d.spawnFrom
      alive := d.alive
      defaults }
  let e ← setInitial (e.spawn d.instances).2 d.initial
  let scripts ← buildScripts files directory d.name d.scripts
  return { e with scripts }

def addDataSets (w : World) : List DataSet → Except BuildError World
  | [] => .ok w
  | d :: rest =>
    if d.name.isEmpty then .error .unnamedSet
    else if d.size ≤ 0 then .error (.setSize d.name)
    else if View.maxSize < d.size then .error (.setLimit d.name)
    else match w.addDataSet (Simulation.newDataSet d.name d.size d.vars) with
      | (_, some e) => .error (.duplicate e)
      | (w, none) => addDataSets w rest

def addEmitters (files : FileTree) (directory : Text) (w : World) :
    List Emitter → Except BuildError World
  | [] => .ok w
  | d :: rest =>
    match d.build files directory with
    | .error e => .error (.emitter e)
    | .ok e =>
      match w.addEmitter e with
      | (_, some e) => .error (.duplicate e)
      | (w, none) => addEmitters files directory w rest

/-- The world with its first instances, all names bound. -/
def build (files : FileTree) (directory : Text) (s : Scenario) : Except BuildError World := do
  let w := World.new
    { chunkSize := s.chunkSize
      seed := s.seed
      noise := if s.noiseSeed = 0 then NoiseTable.standard else NoiseTable.ofSeed s.noiseSeed }
  let w ← addDataSets w s.dataSets
  let w ← addEmitters files directory w s.emitters
  match w.bind with
  | (_, some e) => throw (.bind e)
  | (w, none) => return w

inductive RunError where
  | build (e : BuildError)
  /-- The world as it was when a tick failed. -/
  | tick (w : World) (e : WorldError)

def RunError.report : RunError → Report
  | build e => e.report
  | tick _ e => e.report

def RunError.isFault : RunError → Bool
  | build e => e.isFault
  | tick _ _ => false

/-- Builds the world and runs it for the ticks of the scenario. -/
def run (files : FileTree) (directory : Text) (stop : Option Simulation.Interruption)
    (s : Scenario) : Except RunError World :=
  match s.build files directory with
  | .error e => .error (.build e)
  | .ok w =>
    match w.run stop s.ticks.toNat with
    | (w, some e) => .error (.tick w e)
    | (w, none) => .ok w

end Quadlane.Scenario
