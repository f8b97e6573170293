import Quadlane.Quad.Basic
import Quadlane.Lane.Numeral
import Quadlane.Text.Quoted
import Quadlane.Report

/-! Quads written as one or four numbers. -/

namespace Quadlane.Assembly

inductive VectorError where
  | laneCount (count : Nat)
  | notNumber (lane : Text)
  deriving DecidableEq

def VectorError.report : VectorError → Report
  | laneCount n =>
    .ofCategory .invalidOperand [Text.lit "vector needs 1 or 4 lanes, got", Text.decimal n]
  | notNumber lane =>
    .ofCategory .invalidOperand [Text.lit "lane", Text.quote lane, Text.lit "is not a number"]

/-- Reads lanes; the first that is no number is refused. -/
def parseLanes : List Text → Except VectorError (List Lane)
  | [] => .ok []
  | t :: rest =>
    match Lane.parse? t with
    | none => .error (.notNumber t)
    | some a => (parseLanes rest).map (a :: ·)

def parseVector (lanes : List Text) : Except VectorError Quad :=
  if lanes.length ≠ 1 && lanes.length ≠ 4 then .error (.laneCount lanes.length)
  else match parseLanes lanes with
    | .error e => .error e
    | .ok values =>
      match Quad.ofLanes? values with
      | some q => .ok q
      | none => .error (.laneCount lanes.length)

end Quadlane.Assembly
