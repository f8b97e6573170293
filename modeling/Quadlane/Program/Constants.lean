import Quadlane.Program.Basic

/-! The constants of a program as the executor sees them: the declared values, some of them replaced
by name. -/

namespace Quadlane

/-- Values given by name; the first entry of a name counts. -/
abbrev Bindings := List (Text × Quad)

/-- Declared constants that can be addressed by a byte. -/
structure ConstantTable where
  declared : List Constant
  fits : declared.length ≤ Limit.constants

/-- There are more constants than a byte can address. -/
structure TooManyConstants where
  count : Nat
  deriving DecidableEq

def TooManyConstants.report (e : TooManyConstants) : Report :=
  .ofCategory .constantLimit [Text.decimal e.count, Text.lit ">", Text.decimal Limit.constants]

namespace ConstantTable

def ofDeclared (declared : List Constant) : Except TooManyConstants ConstantTable :=
  if h : declared.length ≤ Limit.constants then .ok ⟨declared, h⟩
  else .error ⟨declared.length⟩

/-- The place of the first constant of that name. -/
def index? (t : ConstantTable) (name : Text) : Option Nat :=
  t.declared.findIdx? (·.name = name)

/-- The value of each constant: the given one of its name, or the declared one. -/
def build (t : ConstantTable) (given : Bindings) : List Quad :=
  t.declared.map fun c => (given.lookup c.name).getD c.value

end ConstantTable
end Quadlane
