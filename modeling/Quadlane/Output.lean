import Quadlane.Text.Basic

/-! What is printed. How long something took is known only outside of the program's logic, so output
holds a place for it. -/

namespace Quadlane

inductive Piece where
  | text (t : Text)
  /-- The time the work before it took. -/
  | elapsed

abbrev Output := List Piece

namespace Output

def ofText (t : Text) : Output := [.text t]

/-- A line of text. -/
def line (t : Text) : Output := [.text (t ++ [10])]

def render (elapsed : Text) (o : Output) : Text :=
  o.flatMap fun
    | .text t => t
    | .elapsed => elapsed

end Output
end Quadlane
