import Quadlane.Simulation.DataSet
import Quadlane.Simulation.Grouping
import Quadlane.Simulation.Tick
import Quadlane.Program.Validation

/-! A world of emitters and data sets. Binding resolves the names its scripts use; a tick resets the
data sets and then runs the groups of emitters, those of a group one after the other. -/

namespace Quadlane.Simulation

structure Options where
  chunkSize : Int := 0
  /-- Emitter `i` draws from the stream of `seed + i`. -/
  seed : Int := 0
  noise : NoiseTable := NoiseTable.standard

structure World where
  options : Options
  emitters : List Emitter := []
  sets : Array OwnedView := #[]
  groups : List (List Nat) := []
  ticks : Nat := 0
  bound : Bool := false

/-- Why a script cannot be bound. -/
inductive ScriptError where
  | noProgram
  | invalid (e : ValidationError)
  | constants (e : TooManyConstants)
  | unknownConstant (name : Text)
  | unknownAttribute (name : Text)
  | unknownSet (name : Text)
  | variablePlace (set var : Text) (place : Nat)
  deriving DecidableEq

def ScriptError.report : ScriptError → Report
  | noProgram => .plain (Text.lit "no program")
  | invalid e => e.report
  | constants e => e.report
  | unknownConstant name => .plain (Text.lit "unknown constant " ++ Text.quote name)
  | unknownAttribute name => .plain (Text.lit "unknown attribute " ++ Text.quote name)
  | unknownSet name => .plain (Text.lit "unknown data set " ++ Text.quote name)
  | variablePlace set var place =>
    .plain (Text.lit "data set " ++ set ++ Text.lit ": variable " ++ Text.quote var ++
      Text.lit " must be at index " ++ Text.decimal place)

/-- Why an emitter cannot be bound. -/
inductive BindError where
  | unknownAlive (name : Text)
  | unknownSpawnSet (name : Text)
  | unknownDefault (name : Text)
  | script (name : Text) (e : ScriptError)
  /-- No machine has chunks of that size; this leaves the program. -/
  | fault
  deriving DecidableEq

def BindError.report : BindError → Report
  | unknownAlive name => .plain (Text.lit "unknown alive attribute " ++ Text.quote name)
  | unknownSpawnSet name => .plain (Text.lit "unknown spawn data set " ++ Text.quote name)
  | unknownDefault name => .plain (Text.lit "default of unknown attribute " ++ Text.quote name)
  | script name e => e.report.within (Text.lit "script " ++ name)
  | fault => .plain (Text.lit "fault")

inductive WorldError where
  | duplicateSet (name : Text)
  | duplicateEmitter (name : Text)
  | bind (emitter : Text) (e : BindError)
  | tick (number : Nat) (e : TickFailure)
  deriving DecidableEq

def WorldError.report : WorldError → Report
  | duplicateSet name => .plain (Text.lit "duplicate data set " ++ Text.quote name)
  | duplicateEmitter name => .plain (Text.lit "duplicate emitter " ++ Text.quote name)
  | bind emitter e => e.report.within (Text.lit "emitter " ++ emitter)
  | tick number e => e.report.within (Text.lit "tick " ++ Text.decimal number)

def WorldError.isFault : WorldError → Bool
  | bind _ .fault => true
  | _ => false

/-! ### Binding -/

/-- The columns of attributes by name. -/
def resolveAttributes (e : Emitter) : List Text → Except ScriptError (List Nat)
  | [] => .ok []
  | name :: rest =>
    match e.attributeIndex? name with
    | none => .error (.unknownAttribute name)
    | some i => (resolveAttributes e rest).map (i :: ·)

/-- The first variable that is not at the place the program expects it at. -/
def misplacedVariable? (v : OwnedView) (place : Nat) : List Text → Option (Text × Nat)
  | [] => none
  | x :: rest =>
    if v.variableIndex? x = some place then misplacedVariable? v (place + 1) rest
    else some (x, place)

/-- The data set of a declaration, or what is wrong with it. -/
def resolveSet (sets : Array OwnedView) (d : SetDeclaration) : Except ScriptError Nat :=
  match sets.findIdx? (·.name = d.name) with
  | none => .error (.unknownSet d.name)
  | some i =>
    match (sets[i]?).bind (misplacedVariable? · 0 d.vars) with
    | some (x, place) => .error (.variablePlace d.name x place)
    | none => .ok i

/-- The data sets a program declares, and what is wrong with the first that is not as it should be.
From there on all are missing. -/
def resolveSets (sets : Array OwnedView) :
    List SetDeclaration → List (Option Nat) × Option ScriptError
  | [] => ([], none)
  | d :: rest =>
    match resolveSet sets d with
    | .error e => (List.replicate (rest.length + 1) none, some e)
    | .ok i =>
      let (found, error) := resolveSets sets rest
      (some i :: found, error)

/-- Resolves the names of a script. A script that fails keeps what was resolved before. -/
def bindScript (e : Emitter) (sets : Array OwnedView) (s : Script) : Script × Option ScriptError :=
  match s.program with
  | none => (s, some .noProgram)
  | some p =>
    match p.validate with
    | .error err => (s, some (.invalid err))
    | .ok () =>
      match ConstantTable.ofDeclared p.constants with
      | .error err => (s, some (.constants err))
      | .ok table =>
        let s := { s with wiring := { s.wiring with table } }
        match s.constants.find? fun (name, _) => (table.index? name).isNone with
        | some (name, _) => (s, some (.unknownConstant name))
        | none =>
          match resolveAttributes e p.inputs with
          | .error err => ({ s with wiring := { s.wiring with inputs := [] } }, some err)
          | .ok inputs =>
            let s := { s with wiring := { s.wiring with inputs } }
            match resolveAttributes e p.outputs with
            | .error err => ({ s with wiring := { s.wiring with outputs := [] } }, some err)
            | .ok outputs =>
              let (found, error) := resolveSets sets p.sets
              ({ s with wiring := { s.wiring with outputs, sets := found } }, error)

/-- Binds scripts in order, up to the first that fails. -/
def bindScripts (e : Emitter) (sets : Array OwnedView) :
    List Script → List Script × Option (Text × ScriptError)
  | [] => ([], none)
  | s :: rest =>
    match bindScript e sets s with
    | (s, some err) => (s :: rest, some (s.name, err))
    | (s, none) =>
      let (rest, error) := bindScripts e sets rest
      (s :: rest, error)

namespace Emitter

/-- Resolves the alive attribute. -/
def bindAlive (e : Emitter) : Emitter × Option BindError :=
  if e.alive.isEmpty then ({ e with aliveColumn := none }, none)
  else match e.attributeIndex? e.alive with
    | some i => ({ e with aliveColumn := some i }, none)
    | none => ({ e with aliveColumn := none }, some (.unknownAlive e.alive))

/-- Resolves the data set that spawns instances. -/
def bindSpawnSet (e : Emitter) (sets : Array OwnedView) : Emitter × Option BindError :=
  if e.spawnFrom.isEmpty then ({ e with spawnSet := none }, none)
  else match sets.findIdx? (·.name = e.spawnFrom) with
    | some i => ({ e with spawnSet := some i }, none)
    | none => ({ e with spawnSet := none }, some (.unknownSpawnSet e.spawnFrom))

/-- Gives the emitter a new machine and resolves all its names, up to the first that fails. -/
def bind (e : Emitter) (o : Options) (sets : Array OwnedView) (index : Nat) :
    Emitter × Option BindError :=
  let machine := Machine.new o.chunkSize (wrap (o.seed + index)) o.noise
  if !machine.canExist then (e, some .fault)
  else match bindAlive { e with machine := some machine } with
    | (e, some err) => (e, some err)
    | (e, none) =>
      match e.bindSpawnSet sets with
      | (e, some err) => (e, some err)
      | (e, none) =>
        match e.defaults.find? fun (name, _) => (e.attributeIndex? name).isNone with
        | some (name, _) => (e, some (.unknownDefault name))
        | none =>
          let (scripts, error) := bindScripts e sets e.scripts
          ({ e with scripts }, error.map fun (name, err) => .script name err)

/-- The data sets an emitter uses. -/
def uses (e : Emitter) : List Nat :=
  e.spawnSet.toList ++ e.scripts.flatMap (·.wiring.found)

end Emitter

/-- Binds emitters in order, up to the first that fails; `index` is the number of the first. -/
def bindEmitters (o : Options) (sets : Array OwnedView) (index : Nat) :
    List Emitter → List Emitter × Option (Text × BindError)
  | [] => ([], none)
  | e :: rest =>
    match e.bind o sets index with
    | (e, some err) => (e :: rest, some (e.name, err))
    | (e, none) =>
      let (rest, error) := bindEmitters o sets (index + 1) rest
      (e :: rest, error)

namespace World

def new (options : Options) : World := { options }

def addDataSet (s : World) (v : OwnedView) : World × Option WorldError :=
  if s.sets.any (·.name = v.name) then (s, some (.duplicateSet v.name))
  else ({ s with sets := s.sets.push v, bound := false }, none)

def addEmitter (s : World) (e : Emitter) : World × Option WorldError :=
  if s.emitters.any (·.name = e.name) then (s, some (.duplicateEmitter e.name))
  else ({ s with emitters := s.emitters ++ [e], bound := false }, none)

def emitter? (s : World) (name : Text) : Option Emitter :=
  s.emitters.find? (·.name = name)

/-- Changes the emitter of that name. -/
def modifyEmitter (s : World) (name : Text) (f : Emitter → Emitter) : World :=
  { s with emitters := s.emitters.map fun e => if e.name = name then f e else e }

/-- Resolves all names. If that fails, the emitters bound so far stay so and the groups remain. -/
def bind (s : World) : World × Option WorldError :=
  match bindEmitters s.options s.sets 0 s.emitters with
  | (emitters, some (name, e)) => ({ s with emitters }, some (.bind name e))
  | (emitters, none) =>
    ({ s with
        emitters
        groups := Simulation.groups (emitters.map Emitter.uses)
        bound := true }, none)

/-! ### Ticks -/

/-- The emitters and data sets in the middle of a tick, and what has happened. -/
structure Run where
  emitters : List Emitter
  sets : Array OwnedView
  stop : Option Interruption
  failure : Option TickFailure := none

/-- Notes a failure. A fault ends no work but that on its group. Any other failure interrupts what is
still to run, and the first of them is kept. -/
def Run.fail (r : Run) : TickFailure → Run
  | .fault => { r with failure := r.failure <|> some .fault }
  | f =>
    { r with
      stop := r.stop <|> some .canceled
      failure := r.failure.filter (· ≠ .fault) <|> some f }

/-- Ticks the emitters of a group in order, up to the first that fails. -/
def Run.group (r : Run) : List Nat → Run
  | [] => r
  | i :: rest =>
    match r.emitters[i]? with
    | none => r.group rest
    | some e =>
      match e.tick r.stop r.sets with
      | (e, sets, none) => { r with emitters := r.emitters.set i e, sets }.group rest
      | (e, sets, some f) => { r with emitters := r.emitters.set i e, sets }.fail f

/-- A tick of a world that is bound. -/
def tickBound (s : World) (stop : Option Interruption) : World × Option WorldError :=
  let start : Run := { emitters := s.emitters, sets := s.sets.map View.reset, stop }
  let r := s.groups.foldl Run.group start
  let s' := { s with emitters := r.emitters, sets := r.sets }
  match r.failure with
  | some f => (s', some (.tick s.ticks f))
  | none => ({ s' with ticks := s.ticks + 1 }, none)

/-- One tick. A world to which something was added since it was bound is bound first. -/
def tick (s : World) (stop : Option Interruption) : World × Option WorldError :=
  if s.bound then s.tickBound stop
  else match s.bind with
    | (s, some e) => (s, some e)
    | (s, none) => s.tickBound stop

/-- One tick, as its caller sees it. Where the work on a group faults, that is not reported, and the
tick counts like any other. -/
def advance (s : World) (stop : Option Interruption) : World × Option WorldError :=
  match s.tick stop with
  | (s, some (.tick _ .fault)) => ({ s with ticks := s.ticks + 1 }, none)
  | r => r

/-- So many ticks, up to the first that fails. -/
def run (s : World) (stop : Option Interruption) : Nat → World × Option WorldError
  | 0 => (s, none)
  | n + 1 =>
    match s.advance stop with
    | (s, some e) => (s, some e)
    | (s, none) => s.run stop n

end World
end Quadlane.Simulation
