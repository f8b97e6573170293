import Quadlane.Quad.Basic

/-! Rows of quads for trying a program out, and their printed form. -/

namespace Quadlane.Quad

/-- `size` quads; each lane of the one at `i` is `start + i * step`. -/
def ramp (size : Nat) (start step : Lane) : List Quad :=
  (List.range size).map fun i : Nat => splat (start.add ((Lane.ofInt i).mul step))

/-- A row of quads, one a line, under a header with their number. -/
def dump (row : List Quad) : Text :=
  let header := Text.lit "([]vecvm.Vector len=" ++ Text.decimal row.length ++ Text.lit ") \x7b"
  let line := fun (q, i) =>
    Text.lit "  #" ++ Text.decimal i ++ Text.lit " " ++ q.render ++ Text.lit "\n"
  let body := if row.isEmpty then [] else Text.lit "\n" ++ row.zipIdx.flatMap line
  header ++ body ++ Text.lit "\x7d\n"

end Quadlane.Quad
