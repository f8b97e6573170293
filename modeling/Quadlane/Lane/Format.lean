/-! Binary interchange formats and rounding into them. The magnitude of a number in a format is its
exponent field followed by its fraction field, read as one natural number; magnitudes are ordered as
the numbers are, which makes overflow and the carry into the next binade come out of the addition. -/

namespace Quadlane

structure Format where
  fractionBits : Nat
  exponentBits : Nat

namespace Format

def single : Format := ⟨23, 8⟩
def double : Format := ⟨52, 11⟩
def half : Format := ⟨10, 5⟩

/-- The exponent of the least positive number, which is a power of two. -/
def least (f : Format) : Int :=
  2 - (1 <<< (f.exponentBits - 1) : Nat) - f.fractionBits

/-- The magnitude of infinity; greater magnitudes are not numbers. -/
def infinity (f : Format) : Nat :=
  (1 <<< f.exponentBits - 1) <<< f.fractionBits

/-- The integer `m` of a finite magnitude that denotes `m * 2 ^ exponent`. -/
def significand (f : Format) (magnitude : Nat) : Nat :=
  if magnitude < 1 <<< f.fractionBits then magnitude
  else magnitude % (1 <<< f.fractionBits) + 1 <<< f.fractionBits

def exponent (f : Format) (magnitude : Nat) : Int :=
  f.least + ((magnitude >>> f.fractionBits - 1 : Nat) : Int)

end Format

/-- The quotient rounded to the nearest integer, a half to the even neighbour. -/
def roundHalfEven (n d : Nat) : Nat :=
  if 2 * (n % d) < d then n / d
  else if d < 2 * (n % d) then n / d + 1
  else n / d + n / d % 2

namespace Format

/-- The magnitude nearest to `m * 2 ^ e`, a tie going to the even one. A value beyond the largest
finite number by half a unit or more becomes infinity. -/
def round (f : Format) (m : Nat) (e : Int) : Nat :=
  if m = 0 then 0
  else
    let unit := max ((m.log2 : Int) + e - f.fractionBits) f.least
    let count :=
      if unit ≤ e then m <<< (e - unit).toNat else roundHalfEven m (1 <<< (unit - e).toNat)
    min f.infinity ((unit - f.least).toNat <<< f.fractionBits + count)

/-- The magnitude nearest to `n / d * 2 ^ e` for positive `d`. The quotient is taken with two bits
more than the format holds, the last of them set if anything was cut off. -/
def roundQuotient (f : Format) (n d : Nat) (e : Int) : Nat :=
  let shift := d.log2 + f.fractionBits + 4 - n.log2
  let scaled := n <<< shift
  let sticky := if scaled % d = 0 then 0 else 1
  f.round (2 * (scaled / d) + sticky) (e - shift - 1)

end Format
end Quadlane
