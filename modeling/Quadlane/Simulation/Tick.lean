import Quadlane.Simulation.Emitter

/-! One tick of one emitter. The update scripts read the columns of the previous tick and write those
of the next one; then the dead are removed, instances are spawned, and the spawn scripts run on the
new rows alone. The new columns take the place of the old ones only if all scripts succeed. -/

namespace Quadlane.Simulation

/-- Why a tick stops from outside. -/
inductive Interruption where
  | canceled
  | expired
  deriving DecidableEq

inductive TickFailure where
  | interrupted (i : Interruption)
  | script (emitter name : Text) (e : ExecError)
  /-- A script or the emitter addressed something that does not exist. -/
  | fault
  deriving DecidableEq

def TickFailure.report : TickFailure → Report
  | interrupted .canceled => { message := Text.lit "context canceled", categories := [.canceled] }
  | interrupted .expired => .plain (Text.lit "context deadline exceeded")
  | script emitter name e =>
    (e.report.within (Text.lit "script " ++ name)).within (Text.lit "emitter " ++ emitter)
  | fault => .plain (Text.lit "fault")

/-- An emitter in the middle of a tick. -/
structure Progress where
  emitter : Emitter
  /-- The columns of the previous tick. -/
  front : Columns
  /-- The columns of the next tick. -/
  back : Columns
  live : Nat
  machine : Machine

namespace Progress

def start (e : Emitter) (m : Machine) : Progress :=
  { emitter := e, front := e.columns, back := e.columns, live := e.live, machine := m }

/-- The views with their variables numbered from `base` on. -/
def numberViews (base : Nat) : List OwnedView → List (View (Option BufferId))
  | [] => []
  | v :: rest =>
    { v with vars := v.vars.mapIdx fun i (name, _) => (name, some (base + i)) } ::
      numberViews (base + v.vars.size) rest

/-- Front columns, back columns and the buffers of all data sets as one memory. -/
def load (p : Progress) (sets : Array OwnedView) : Memory :=
  { buffers := p.front ++ p.back ++ sets.flatMap fun v => v.vars.map (·.2)
    views := (numberViews (p.front.size + p.back.size) sets.toList).toArray }

/-- A view of a memory with the buffers its variables refer to. -/
def ownView (m : Memory) (v : View (Option BufferId)) : OwnedView :=
  { v with vars := v.vars.map fun (name, id) =>
      (name, (id.map fun b => m.buffers.getD b #[]).getD #[]) }

/-- What a script of the emitter is given: its rows of the columns, its constants, its sets. -/
def arguments (p : Progress) (s : Script) (first count : Nat) : Arguments :=
  let window := fun id => (⟨id, first, count⟩ : Window)
  let k := p.front.size
  { inputs := s.wiring.inputs.map fun a => window (if s.stage = .spawn then k + a else a)
    outputs := s.wiring.outputs.map fun a => window (k + a)
    constants := .own (s.wiring.table.build s.constants)
    sets := s.wiring.sets
    count }

/-- Whether the columns a script is wired to have the rows it is run on. -/
def hasWindows (p : Progress) (s : Script) (first count : Nat) : Bool :=
  let source := if s.stage = .spawn then p.back else p.front
  s.wiring.inputs.all (source.hasWindow first count) &&
    s.wiring.outputs.all (p.back.hasWindow first count)

/-- Runs a script on `count` rows from `first` on, which its columns have. -/
def runOnRows (p : Progress) (sets : Array OwnedView) (s : Script) (first count : Nat) :
    Progress × Array OwnedView × Outcome :=
  let code := (s.program.map Program.bytes).getD []
  let r := p.machine.exec code (p.arguments s first count) (p.load sets)
  let k := p.front.size
  let p := { p with
    front := r.memory.buffers.extract 0 k
    back := r.memory.buffers.extract k (k + p.back.size)
    machine := r.machine }
  (p, r.memory.views.map (ownView r.memory), r.outcome)

/-- Runs a script on `count` rows from `first` on. -/
def runScript (p : Progress) (sets : Array OwnedView) (s : Script) (first count : Nat) :
    Progress × Array OwnedView × Outcome :=
  if p.hasWindows s first count then p.runOnRows sets s first count
  else (p, sets, .fault none)

/-- Runs scripts in order, until one fails or the tick is interrupted. -/
def runScripts (stop : Option Interruption) (p : Progress) (sets : Array OwnedView)
    (first count : Nat) : List Script → Progress × Array OwnedView × Option TickFailure
  | [] => (p, sets, none)
  | s :: rest =>
    match stop with
    | some i => (p, sets, some (.interrupted i))
    | none =>
      match p.runScript sets s first count with
      | (p, sets, .ok) => p.runScripts stop sets first count rest
      | (p, sets, .error e) => (p, sets, some (.script p.emitter.name s.name e))
      | (p, sets, .fault _) => (p, sets, some .fault)
termination_by scripts => scripts

def scriptsOf (p : Progress) (stage : Stage) : List Script :=
  p.emitter.scripts.filter (·.stage = stage)

/-- Whether the next tick has a column that tells the dead, if there is to be one, and all its live
rows. -/
def canCompact (p : Progress) : Bool :=
  p.back.hasRows (p.emitter.aliveColumn.elim 0 (· + 1)) p.live

/-- Removes the dead instances of the next tick. -/
def compact (p : Progress) : Progress :=
  let (back, live) := Columns.compact p.emitter.aliveColumn p.back p.live
  { p with back, live }

/-- The number of instances the tick asks for, in 64-bit arithmetic. -/
def demand (p : Progress) (sets : Array OwnedView) : Int :=
  match p.emitter.spawnSet.bind (sets[·]?) with
  | none => p.emitter.spawnCount
  | some v => wrap (p.emitter.spawnCount + v.counter)

/-- Initialises the rows of `count` instances after the live ones. -/
def spawnRows (p : Progress) (count : Nat) : Progress :=
  { p with back := Columns.fillRows p.back p.emitter.spawnValues p.live count }

/-- The emitter after a failure: only what its machine did remains. -/
def abandon (p : Progress) : Emitter :=
  { p.emitter with columns := p.front, machine := some p.machine }

/-- The emitter after a tick with `count` instances spawned. -/
def finish (p : Progress) (count : Nat) : Emitter :=
  { p.emitter with columns := p.back, live := p.live + count, machine := some p.machine }

end Progress

/-- A tick of an emitter, on the data sets as they are. -/
def Emitter.tick (e : Emitter) (stop : Option Interruption) (sets : Array OwnedView) :
    Emitter × Array OwnedView × Option TickFailure :=
  match e.machine with
  | none => (e, sets, some .fault)
  | some m =>
    let p := Progress.start e m
    if !p.back.hasRows e.attributes.length p.live then (e, sets, some .fault)
    else match p.runScripts stop sets 0 p.live (p.scriptsOf .update) with
      | (p, sets, some f) => (p.abandon, sets, some f)
      | (p, sets, none) =>
        if !p.canCompact then (p.abandon, sets, some .fault)
        else
          let p := p.compact
          let count := e.room p.live (p.demand sets)
          if count = 0 then (p.finish 0, sets, none)
          else if !p.back.hasRows e.attributes.length (p.live + count) then
            (p.abandon, sets, some .fault)
          else
            let p := p.spawnRows count
            match p.runScripts stop sets p.live count (p.scriptsOf .spawn) with
            | (p, sets, some f) => (p.abandon, sets, some f)
            | (p, sets, none) => (p.finish count, sets, none)

end Quadlane.Simulation
