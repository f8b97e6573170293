import Quadlane.Machine.Exec
import Quadlane.Text.Quoted

/-! Emitters: pools of instances with the same attributes, and the scripts that are run on them. The
values of an attribute are a column; row `i` of all columns together is instance `i`, and the rows
below the number of live instances are in use. -/

namespace Quadlane.Simulation

/-- When a script is run within a tick. -/
inductive Stage where
  | update
  | spawn
  deriving DecidableEq

namespace Stage

def all : List Stage := [update, spawn]

def name : Stage → Text
  | update => Text.lit "update"
  | spawn => Text.lit "spawn"

/-- The name of a stage by its number. -/
def nameOf (number : Nat) : Text :=
  match all[number]? with
  | some s => s.name
  | none => Text.lit "stage(" ++ Text.decimal number ++ Text.lit ")"

/-- The stage of that name; without a name it is the update stage. -/
def ofName? (name : Text) : Option Stage :=
  if name = Text.lit "update" || name.isEmpty then some update
  else if name = Text.lit "spawn" then some spawn
  else none

def unknown (name : Text) : Report :=
  .plain (Text.lit "unknown stage " ++ Text.quote name)

end Stage

/-- What the names of a program stand for: columns of the emitter and data sets of the world. -/
structure Wiring where
  table : ConstantTable := ⟨[], Nat.zero_le _⟩
  inputs : List Nat := []
  outputs : List Nat := []
  /-- One entry for each declared set; those that were not found are missing. -/
  sets : List (Option Nat) := []

/-- The data sets that were found. -/
def Wiring.found (w : Wiring) : List Nat :=
  w.sets.filterMap id

structure Script where
  name : Text
  stage : Stage
  program : Option Program
  /-- Values of constants in place of the declared ones. -/
  constants : Bindings := []
  wiring : Wiring := {}

/-- Gives a constant a value of its own. -/
def Script.setConstant (s : Script) (name : Text) (value : Quad) : Script :=
  { s with constants := (name, value) :: s.constants.filter (·.1 ≠ name) }

structure Emitter where
  name : Text
  attributes : List Text
  capacity : Nat
  /-- Instances spawned in every tick. -/
  spawnCount : Int := 0
  /-- A data set each event of which spawns an instance; empty for none. -/
  spawnFrom : Text := []
  /-- An attribute that is positive in living instances; empty for none. -/
  alive : Text := []
  /-- Attribute values of spawned instances. -/
  defaults : Bindings := []
  scripts : List Script := []
  columns : Array Buffer
  live : Nat := 0
  machine : Option Machine := none
  spawnSet : Option Nat := none
  aliveColumn : Option Nat := none

/-- The values of attributes, one column each. -/
abbrev Columns := Array Buffer

namespace Columns

def cell (c : Columns) (column row : Nat) : Quad :=
  (c.getD column #[]).getD row Quad.zero

/-- Whether a column exists and has the rows from `first` on. -/
def hasWindow (columns : Columns) (first count column : Nat) : Bool :=
  match columns[column]? with
  | some b => first + count ≤ b.size
  | none => false

/-- Whether there are so many columns and each one has so many rows. -/
def hasRows (c : Columns) (width rows : Nat) : Bool :=
  width ≤ c.size && c.all (rows ≤ ·.size)

/-- Copies a row over another one. -/
def moveRow (c : Columns) (source target : Nat) : Columns :=
  c.map fun b => b.setIfInBounds target (b.getD source Quad.zero)

/-- Removes the rows from `i` on in which the given column is not positive, of the next `count`
rows: the last row in use takes the place of a removed one. Returns the number of rows left. -/
def compactFrom (alive : Nat) (c : Columns) (i : Nat) : Nat → Columns × Nat
  | 0 => (c, i)
  | count + 1 =>
    if (c.cell alive i).x.isPositive then compactFrom alive c (i + 1) count
    else compactFrom alive (c.moveRow (i + count) i) i count

/-- Removes the dead ones of the first `live` rows; without an alive column nothing dies. -/
def compact (alive : Option Nat) (c : Columns) (live : Nat) : Columns × Nat :=
  match alive with
  | none => (c, live)
  | some a => compactFrom a c 0 live

/-- Sets `count` cells from `first` on. -/
def fill (b : Buffer) (first : Nat) (q : Quad) : Nat → Buffer
  | 0 => b
  | count + 1 => fill (b.setIfInBounds first q) (first + 1) q count

/-- Sets rows to one value for each column. -/
def fillRows (c : Columns) (values : List Quad) (first count : Nat) : Columns :=
  c.mapIdx fun i b => fill b first (values.getD i Quad.zero) count

end Columns

namespace Emitter

/-- Whether there can be columns for so many instances; without attributes there are none. -/
def canExist (capacity : Int) (attributes : List Text) : Bool :=
  attributes.isEmpty || Buffer.canHold (max 0 capacity)

/-- An emitter without instances; a negative capacity stands for none. -/
def new (name : Text) (capacity : Int) (attributes : List Text) : Emitter :=
  { name, attributes, capacity := capacity.toNat
    columns := (attributes.map fun _ => Array.replicate capacity.toNat Quad.zero).toArray }

def attributeIndex? (e : Emitter) (name : Text) : Option Nat :=
  e.attributes.findIdx? (· = name)

/-- The live values of an attribute. -/
def attribute? (e : Emitter) (name : Text) : Option (List Quad) :=
  (e.attributeIndex? name).map fun i => ((e.columns.getD i #[]).toList.take e.live)

/-- Overwrites the first live values of an attribute. Returns how many. -/
def setAttribute (e : Emitter) (name : Text) (values : List Quad) : Nat × Emitter :=
  match e.attributeIndex? name with
  | none => (0, e)
  | some i =>
    let values := values.take e.live
    let column := values.zipIdx.foldl (fun b (q, row) => b.setIfInBounds row q) (e.columns.getD i #[])
    (values.length, { e with columns := e.columns.setIfInBounds i column })

/-- How many of `n` instances there is room for beside `live` ones. -/
def room (e : Emitter) (live : Nat) (n : Int) : Nat :=
  (min n (e.capacity - live)).toNat

/-- The values of spawned instances, column by column. -/
def spawnValues (e : Emitter) : List Quad :=
  e.attributes.map fun a => (e.defaults.lookup a).getD Quad.zero

/-- Adds up to `n` instances. Returns how many. -/
def spawn (e : Emitter) (n : Int) : Nat × Emitter :=
  let count := e.room e.live n
  (count,
    { e with
      columns := Columns.fillRows e.columns e.spawnValues e.live count
      live := e.live + count })

end Emitter
end Quadlane.Simulation
