import Quadlane.Lane.Arithmetic
import Quadlane.Lane.Digits

/-! A quad holds four lanes: the value of one attribute of one instance, and the value of one
register. Arithmetic is lane by lane. -/

namespace Quadlane

structure Quad where
  x : Lane
  y : Lane
  z : Lane
  w : Lane
  deriving DecidableEq

/-- The attribute values of a row of instances. -/
abbrev Buffer := Array Quad

namespace Buffer

/-- The cells of a longer buffer could not be addressed. -/
def maxSize : Nat := 0x100000000000

/-- Whether there can be a buffer of so many cells. -/
def canHold (size : Int) : Bool :=
  0 ≤ size && size ≤ maxSize

end Buffer

namespace Quad

def splat (a : Lane) : Quad := ⟨a, a, a, a⟩

def zero : Quad := splat Lane.zero

instance : Inhabited Quad := ⟨zero⟩

def map (f : Lane → Lane) (a : Quad) : Quad :=
  ⟨f a.x, f a.y, f a.z, f a.w⟩

def zip (f : Lane → Lane → Lane) (a b : Quad) : Quad :=
  ⟨f a.x b.x, f a.y b.y, f a.z b.z, f a.w b.w⟩

def add : Quad → Quad → Quad := zip Lane.add
def sub : Quad → Quad → Quad := zip Lane.sub
def mul : Quad → Quad → Quad := zip Lane.mul
def div : Quad → Quad → Quad := zip Lane.div
def min : Quad → Quad → Quad := zip Lane.min
def max : Quad → Quad → Quad := zip Lane.max
def trunc : Quad → Quad := map Lane.trunc

/-- `a * b + c`, rounded after the product and after the sum. -/
def mad (a b c : Quad) : Quad :=
  (a.mul b).add c

/-- The sum of the products, added from the first lane on. -/
def dot (a b : Quad) : Lane :=
  (((a.x.mul b.x).add (a.y.mul b.y)).add (a.z.mul b.z)).add (a.w.mul b.w)

def toList (a : Quad) : List Lane :=
  [a.x, a.y, a.z, a.w]

/-- Four lanes, or one that is taken for all four. -/
def ofLanes? : List Lane → Option Quad
  | [a] => some (splat a)
  | [x, y, z, w] => some ⟨x, y, z, w⟩
  | _ => none

def render (a : Quad) : Text :=
  Text.lit "(" ++ Text.joinWith (Text.lit ", ") (a.toList.map Lane.render) ++ Text.lit ")"

end Quad
end Quadlane
