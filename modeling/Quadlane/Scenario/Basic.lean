import Quadlane.Quad.Basic
import Quadlane.Report

/-! Scenarios: what a simulation is made of, as declared in a document. -/

namespace Quadlane

namespace Scenario

structure DataSet where
  name : Text := []
  size : Int := 0
  vars : List Text := []

/-- A value in place of a constant of a program. -/
structure Constant where
  name : Text := []
  value : List Lane := []

structure Script where
  name : Text := []
  stage : Text := []
  /-- The program itself; empty if it is in a file. -/
  source : Text := []
  file : Text := []
  constants : List Constant := []

structure Emitter where
  name : Text := []
  capacity : Int := 0
  instances : Int := 0
  spawn : Int := 0
  spawnFrom : Text := []
  alive : Text := []
  attributes : List Text := []
  /-- Values of spawned instances. -/
  defaults : List (Text × List Lane) := []
  /-- Values of the first instances. -/
  initial : List (Text × List (List Lane)) := []
  scripts : List Script := []

end Scenario

structure Scenario where
  ticks : Int := 0
  chunkSize : Int := 0
  seed : Int := 0
  noiseSeed : Int := 0
  parallel : Int := 0
  dataSets : List Scenario.DataSet := []
  emitters : List Scenario.Emitter := []

namespace Scenario

/-- The report of something wrong with what a scenario says. -/
def invalid (message : Text) : Report :=
  { message := Text.lit "invalid scenario: " ++ message, categories := [.invalidScenario] }

/-- A number of lanes that makes no vector. -/
structure LaneCountError where
  count : Nat
  deriving DecidableEq

def LaneCountError.report (e : LaneCountError) : Report :=
  invalid (Text.lit "vector needs 1 or 4 lanes, got " ++ Text.decimal e.count)

/-- A vector of one lane, which is repeated, or four. -/
def vector (lanes : List Lane) : Except LaneCountError Quad :=
  match Quad.ofLanes? lanes with
  | some q => .ok q
  | none => .error ⟨lanes.length⟩

end Scenario
end Quadlane
