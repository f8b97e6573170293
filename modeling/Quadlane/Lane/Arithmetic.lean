import Quadlane.Lane.Basic

/-! Arithmetic of lanes. Each operation computes its exact result as an integer or a quotient times a
power of two and rounds once, to nearest with ties to even. -/

namespace Quadlane.Lane

def add (a b : Lane) : Lane :=
  if a.isNaN || b.isNaN then nan
  else if a.isInfinite then
    if b.isInfinite && a.isNegative != b.isNegative then nan else a
  else if b.isInfinite then b
  else
    let e := min a.exponent b.exponent
    let sum := a.coefficient * (1 <<< (a.exponent - e).toNat : Nat) +
      b.coefficient * (1 <<< (b.exponent - e).toNat : Nat)
    if sum = 0 then ofFields (a.isNegative && b.isNegative) 0
    else ofDyadic (sum < 0) sum.natAbs e

def sub (a b : Lane) : Lane :=
  a.add b.neg

def mul (a b : Lane) : Lane :=
  let negative := a.isNegative != b.isNegative
  if a.isNaN || b.isNaN then nan
  else if a.isInfinite || b.isInfinite then
    if a.isZero || b.isZero then nan else infinity negative
  else ofDyadic negative (a.significand * b.significand) (a.exponent + b.exponent)

def div (a b : Lane) : Lane :=
  let negative := a.isNegative != b.isNegative
  if a.isNaN || b.isNaN then nan
  else if a.isInfinite then
    if b.isInfinite then nan else infinity negative
  else if b.isInfinite then ofFields negative 0
  else if b.isZero then
    if a.isZero then nan else infinity negative
  else if a.isZero then ofFields negative 0
  else
    ofFields negative
      (Format.single.roundQuotient a.significand b.significand (a.exponent - b.exponent))

/-- The lesser of two lanes; the second if they do not compare. -/
def min (a b : Lane) : Lane :=
  if a.lt b then a else b

/-- The greater of two lanes; the second if they do not compare. -/
def max (a b : Lane) : Lane :=
  if b.lt a then a else b

/-- Rounding to an integer toward zero. -/
def trunc (a : Lane) : Lane :=
  if a.isNaN || a.isInfinite || a.isWhole then a
  else ofDyadic a.isNegative a.wholePart 0

/-- Rounding to an integer toward negative infinity. -/
def floor (a : Lane) : Lane :=
  if a.isNaN || a.isInfinite || a.isWhole then a
  else ofDyadic a.isNegative (if a.isNegative then a.wholePart + 1 else a.wholePart) 0

/-- Rounding to an integer toward positive infinity. -/
def ceil (a : Lane) : Lane :=
  if a.isNaN || a.isInfinite || a.isWhole then a
  else ofDyadic a.isNegative (if a.isNegative then a.wholePart else a.wholePart + 1) 0

/-- The remainder of the quotient rounded toward zero; it has the sign of `a`. -/
def fmod (a b : Lane) : Lane :=
  if a.isNaN || b.isNaN || a.isInfinite || b.isZero then nan
  else if b.isInfinite then a
  else
    let e := Min.min a.exponent b.exponent
    ofDyadic a.isNegative
      ((a.significand <<< (a.exponent - e).toNat) % (b.significand <<< (b.exponent - e).toNat)) e

end Quadlane.Lane
