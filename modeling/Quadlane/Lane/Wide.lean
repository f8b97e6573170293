import Quadlane.Lane.Basic

/-! Functions computed in double precision. A lane widens exactly, the function is applied to the
double, and the result is rounded once to a lane. -/

namespace Quadlane.Lane

/-- The double precision number equal to the lane. -/
def toFloat (a : Lane) : Float :=
  let magnitude :=
    if a.isNaN then 0x7FF8000000000000
    else if a.isInfinite then Format.double.infinity
    else Format.double.round a.significand a.exponent
  Float.ofBits (magnitude + if a.isNegative then 0x8000000000000000 else 0).toUInt64

/-- The lane nearest to the number with the given magnitude in double precision. -/
def ofDouble (negative : Bool) (magnitude : Nat) : Lane :=
  if Format.double.infinity < magnitude then nan
  else if magnitude = Format.double.infinity then infinity negative
  else
    ofDyadic negative (Format.double.significand magnitude) (Format.double.exponent magnitude)

/-- The lane nearest to a double precision number. -/
def ofFloat (x : Float) : Lane :=
  let bits := x.toBits.toNat
  ofDouble (0x8000000000000000 ≤ bits) (bits % 0x8000000000000000)

/-- A function of doubles as a function of lanes. -/
def wide (f : Float → Float) (a : Lane) : Lane :=
  ofFloat (f a.toFloat)

/-- A function of two doubles as a function of two lanes. -/
def wide₂ (f : Float → Float → Float) (a b : Lane) : Lane :=
  ofFloat (f a.toFloat b.toFloat)

end Quadlane.Lane
