import Quadlane.Lane.Format

/-! A lane is one single precision number, given by its bit pattern. Two lanes are equal exactly when
their bits are; comparison of the numbers they denote is `lt`, in which a value that is not a number
is related to nothing and the two zeros are alike. -/

namespace Quadlane

/-- A single precision binary floating point number. -/
structure Lane where
  bits : UInt32
  deriving DecidableEq

namespace Lane

instance : Inhabited Lane := ⟨⟨0⟩⟩

def ofFields (negative : Bool) (magnitude : Nat) : Lane :=
  ⟨(magnitude + if negative then 0x80000000 else 0).toUInt32⟩

def zero : Lane := ⟨0⟩
def one : Lane := ⟨0x3F800000⟩
def nan : Lane := ⟨0x7FC00000⟩

def infinity (negative : Bool) : Lane :=
  ofFields negative Format.single.infinity

def isNegative (a : Lane) : Bool :=
  0x80000000 ≤ a.bits

/-- Exponent and fraction fields as one number. -/
def magnitude (a : Lane) : Nat :=
  a.bits.toNat % 0x80000000

def isNaN (a : Lane) : Bool :=
  0x7F800000 < a.magnitude

def isInfinite (a : Lane) : Bool :=
  a.magnitude == 0x7F800000

def isZero (a : Lane) : Bool :=
  a.magnitude == 0

/-- A finite lane denotes `significand * 2 ^ exponent`, with its sign. -/
def significand (a : Lane) : Nat :=
  Format.single.significand a.magnitude

def exponent (a : Lane) : Int :=
  Format.single.exponent a.magnitude

/-- The significand with the sign of the lane. -/
def coefficient (a : Lane) : Int :=
  if a.isNegative then -a.significand else a.significand

/-- The lane nearest to `m * 2 ^ e` with the given sign. -/
def ofDyadic (negative : Bool) (m : Nat) (e : Int) : Lane :=
  ofFields negative (Format.single.round m e)

def ofInt (i : Int) : Lane :=
  ofDyadic (i < 0) i.natAbs 0

/-- Orders the lanes that are numbers as the numbers. -/
def key (a : Lane) : Int :=
  if a.isNegative then -a.magnitude else a.magnitude

def lt (a b : Lane) : Bool :=
  !a.isNaN && !b.isNaN && a.key < b.key

def le (a b : Lane) : Bool :=
  !a.isNaN && !b.isNaN && a.key ≤ b.key

def isPositive (a : Lane) : Bool :=
  zero.lt a

def neg (a : Lane) : Lane :=
  ofFields (!a.isNegative) a.magnitude

def abs (a : Lane) : Lane :=
  ofFields false a.magnitude

/-- The integer part of the absolute value of a finite lane. -/
def wholePart (a : Lane) : Nat :=
  if 0 ≤ a.exponent then a.significand <<< a.exponent.toNat
  else a.significand >>> (-a.exponent).toNat

def isWhole (a : Lane) : Bool :=
  0 ≤ a.exponent || a.significand % (1 <<< (-a.exponent).toNat) == 0

end Lane
end Quadlane
