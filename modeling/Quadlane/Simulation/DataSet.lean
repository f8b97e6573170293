import Quadlane.View

/-! Data sets: shared views with a buffer of their own for every variable. -/

namespace Quadlane.Simulation

/-- A view whose variables all hold as many zeros as its size. -/
def newDataSet (name : Text) (size : Int) (vars : List Text) : OwnedView :=
  let v : OwnedView := View.new name size
  { v with vars := (vars.map fun x => (x, Array.replicate v.size.toNat Quad.zero)).toArray }

/-- The records of a variable in front of the cursor. -/
inductive Events where
  | unknownVariable
  /-- The cursor is outside the buffer. -/
  | outOfRange
  | records (l : List Quad)

def events (v : OwnedView) (var : Text) : Events :=
  match v.vars.find? (·.1 = var) with
  | none => .unknownVariable
  | some (_, b) =>
    if v.counter < 0 || b.size < v.counter then .outOfRange
    else .records (b.toList.take v.counter.toNat)

end Quadlane.Simulation
