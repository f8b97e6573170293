/-! Elementary functions in double precision by fixed formulas of additions, multiplications,
divisions and roots, so that their last bits are the same everywhere. -/

namespace Quadlane.Elementary

/-- The logarithm of two: its upper half, which has few bits, and the rest. -/
def logTwoUpper : Float := Float.ofBits 0x3FE62E42FEE00000
def logTwoLower : Float := Float.ofBits 0x3DEA39EF35793C76

/-- The reciprocal of the logarithm of two. -/
def logTwoInverse : Float := Float.ofBits 0x3FF71547652B82FE

def rootHalf : Float := Float.ofBits 0x3FE6A09E667F3BCD

def halfPi : Float := Float.ofBits 0x3FF921FB54442D18

/-- The significand, in `[1/2, 1)` up to sign, and the exponent of a finite number other than
zero. -/
def parts (x : Float) : Float × Int :=
  x.frExp

/-- The logarithm of `2 ^ k * (1 + f)` for small `f`, by the series of `log (1 + s) - log (1 - s)` in
`s = f / (2 + f)`. -/
def logSeries (k f : Float) : Float :=
  let s := f / (2 + f)
  let s2 := s * s
  let s4 := s2 * s2
  let odd := s2 * (Float.ofBits 0x3FE5555555555593 + s4 * (Float.ofBits 0x3FD2492494229359 +
    s4 * (Float.ofBits 0x3FC7466496CB03DE + s4 * Float.ofBits 0x3FC2F112DF3E5244)))
  let even := s4 * (Float.ofBits 0x3FD999999997FA04 + s4 * (Float.ofBits 0x3FCC71C51D8E78AF +
    s4 * Float.ofBits 0x3FC39A09D078C69F))
  let rest := odd + even
  let half := 0.5 * f * f
  k * logTwoUpper - ((half - (s * (half + rest) + k * logTwoLower)) - f)

/-- The natural logarithm. -/
def log (x : Float) : Float :=
  if x.isFinite && 0 < x then
    let (m, k) := parts x
    if m < rootHalf then logSeries (Float.ofInt (k - 1)) (2 * m - 1)
    else logSeries (Float.ofInt k) (m - 1)
  else x.log

/-- The logarithm to base two, exact for powers of two. -/
def logTwo (x : Float) : Float :=
  if x.isFinite && 0 < x then
    let (m, k) := parts x
    if m == 0.5 then Float.ofInt (k - 1) else log m * logTwoInverse + Float.ofInt k
  else x.log2

/-- `a * 2 ^ e` for a significand and an exponent of any size. -/
structure Scaled where
  significand : Float
  exponent : Int

/-- Multiplies by `x ^ n`, squaring `x` for each binary digit of `n`. An exponent far out of range
decides the result, so the squaring ends there. -/
def Scaled.mulPow (a x : Scaled) (n : Nat) : Scaled :=
  if h : n = 0 then a
  else if x.exponent < -4096 || 4096 < x.exponent then
    { a with exponent := a.exponent + x.exponent }
  else
    let a := if n % 2 = 1 then
      { significand := a.significand * x.significand, exponent := a.exponent + x.exponent } else a
    let square := x.significand * x.significand
    let x : Scaled := if square < 0.5 then ⟨square + square, 2 * x.exponent - 1⟩
      else ⟨square, 2 * x.exponent⟩
    a.mulPow x (n / 2)
termination_by n
decreasing_by omega

def Scaled.toFloat (a : Scaled) : Float :=
  a.significand.scaleB a.exponent

/-- Powers of a finite base other than zero with a finite exponent: the fractional part of the
exponent through the logarithm, the whole part by squaring. -/
def finitePow (x y : Float) : Float :=
  let whole := y.abs.floor
  let fraction := y.abs - whole
  let (whole, fraction) := if 0.5 < fraction then (whole + 1, fraction - 1) else (whole, fraction)
  let start := if fraction == 0 then 1 else (fraction * log x).exp
  let (m, k) := parts x
  let r := Scaled.mulPow ⟨start, 0⟩ ⟨m, k⟩ whole.toUInt64.toNat
  if y < 0 then Scaled.toFloat ⟨1 / r.significand, -r.exponent⟩ else r.toFloat

/-- Whether a power follows from a rule for its operands alone: a base of zero or one, an operand that
is not finite, an exponent of zero or one or so great that it is even, or no real result. -/
def isSpecialPow (x y : Float) : Bool :=
  !x.isFinite || !y.isFinite || x == 0 || x == 1 || y == 0 || y == 1 ||
    Float.ofBits 0x43E0000000000000 ≤ y.abs || (x < 0 && y.floor != y)

def pow (x y : Float) : Float :=
  if isSpecialPow x y then Float.pow x y
  else if y == 0.5 then x.sqrt
  else if y == -0.5 then 1 / x.sqrt
  else finitePow x y

def acos (x : Float) : Float :=
  halfPi - x.asin

end Quadlane.Elementary
