import Quadlane.Lane.Basic
import Quadlane.Text.Basic

/-! The decimal text of a lane: the fewest significant digits that lie strictly nearer to it than to
any other lane (the ends of the interval count when the significand is even). Of two such decimals
of that length the nearer is taken, of two equally near ones the one with an even last digit. -/

namespace Quadlane.Lane

/-- A positive number `a / b`. -/
structure Ratio where
  num : Nat
  den : Nat

namespace Ratio

/-- `x * 2 ^ e` -/
def dyadic (x : Nat) (e : Int) : Ratio :=
  ⟨x <<< e.toNat, 1 <<< (-e).toNat⟩

/-- `x * 10 ^ e` -/
def decimal (x : Nat) (e : Int) : Ratio :=
  ⟨x * Nat.pow 10 e.toNat, Nat.pow 10 (-e).toNat⟩

def lt (r s : Ratio) : Bool :=
  r.num * s.den < s.num * r.den

def le (r s : Ratio) : Bool :=
  r.num * s.den ≤ s.num * r.den

end Ratio

/-- The reals that round to a positive lane. -/
structure Interval where
  lower : Ratio
  upper : Ratio
  closed : Bool

def Interval.contains (i : Interval) (r : Ratio) : Bool :=
  if i.closed then i.lower.le r && r.le i.upper else i.lower.lt r && r.lt i.upper

/-- Half a unit to both sides, a quarter below a power of two, where the unit halves. -/
def interval (a : Lane) : Interval :=
  let below := if a.significand = 0x800000 && Format.single.least < a.exponent then 1 else 2
  { lower := .dyadic (4 * a.significand - below) (a.exponent - 2)
    upper := .dyadic (4 * a.significand + 2) (a.exponent - 2)
    closed := a.significand % 2 = 0 }

/-- The exponent `k` with `10 ^ k ≤ a < 10 ^ (k + 1)` for a positive finite lane. -/
def decade (a : Lane) : Int :=
  let value := Ratio.dyadic a.significand a.exponent
  let guess := ((a.significand.log2 : Int) + a.exponent) * 1233 / 4096
  if value.lt (.decimal 1 guess) then guess - 1
  else if (Ratio.decimal 1 (guess + 1)).le value then guess + 1
  else guess

/-- A decimal `digits * 10 ^ exponent`. -/
structure Decimal where
  digits : Nat
  exponent : Int

/-- The multiple of `10 ^ unit` that reads back as `a`, if one of the two around it does. -/
def onGrid (a : Lane) (unit : Int) : Option Decimal :=
  let n := (a.significand <<< a.exponent.toNat) * Nat.pow 10 (-unit).toNat
  let d := (1 <<< (-a.exponent).toNat) * Nat.pow 10 unit.toNat
  let low := n / d
  let fits := fun c => a.interval.contains (.decimal c unit)
  match fits low, fits (low + 1) with
  | true, true => some ⟨roundHalfEven n d, unit⟩
  | true, false => some ⟨low, unit⟩
  | false, true => some ⟨low + 1, unit⟩
  | false, false => none

/-- Tries ever finer grids. -/
def refine (a : Lane) (unit : Int) : Nat → Decimal
  | 0 => ⟨0, 0⟩
  | fuel + 1 =>
    match onGrid a unit with
    | some d => d
    | none => refine a (unit - 1) fuel

/-- The shortest decimal of a positive finite lane. A lane is a multiple of `2 ^ (-149)`, so it lies
itself on the grid of `10 ^ (-149)` and the search ends there at the latest. -/
def shortest (a : Lane) : Decimal :=
  refine a a.decade 200

/-- Drops zeros at the end of a decimal. -/
def trimZeros : Nat → Decimal → Decimal
  | 0, d => d
  | fuel + 1, d =>
    if d.digits ≠ 0 ∧ d.digits % 10 = 0 then trimZeros fuel ⟨d.digits / 10, d.exponent + 1⟩ else d

/-- The exponent notation is used below `10 ^ (-4)` and from `10 ^ 6` on. -/
def usesExponent (k : Int) : Bool :=
  k < -4 || 6 ≤ k

/-- A decimal in positional or exponent notation; the exponent has a sign and two digits at least. -/
def Decimal.render (d : Decimal) : Text :=
  let ds := Text.decimal d.digits
  let k := d.exponent + ds.length - 1
  if usesExponent k then
    let point := if ds.length = 1 then [] else Text.byte '.' :: ds.drop 1
    ds.take 1 ++ point ++ [Text.byte 'e', Text.byte (if k < 0 then '-' else '+')] ++
      Text.padLeft 2 '0' (Text.decimal k.natAbs)
  else if 0 ≤ d.exponent then ds ++ List.replicate d.exponent.toNat (Text.byte '0')
  else if 0 ≤ k then
    ds.take (k.toNat + 1) ++ Text.byte '.' :: ds.drop (k.toNat + 1)
  else
    Text.lit "0." ++ List.replicate (-k - 1).toNat (Text.byte '0') ++ ds

def render (a : Lane) : Text :=
  let sign := if a.isNegative then [Text.byte '-'] else []
  if a.isNaN then Text.lit "NaN"
  else if a.isInfinite then Text.byte (if a.isNegative then '-' else '+') :: Text.lit "Inf"
  else if a.isZero then sign ++ [Text.byte '0']
  else sign ++ (trimZeros 10 a.shortest).render

end Quadlane.Lane
