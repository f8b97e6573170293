import Quadlane.Toml.Basic

/-! Numbers. A decimal integer has an optional sign and no leading zero; `0x`, `0o` and `0b` introduce
unsigned integers in other bases. A float has a fraction, an exponent or both, or is `inf` or `nan`.
Underscores stand between digits. -/

namespace Quadlane.Toml

/-- Each underscore has a digit in front of it, and a digit comes last. -/
def underscoresFit (afterDigit : Bool) : Text → Bool
  | [] => afterDigit
  | b :: rest =>
    if b = 95 && !afterDigit then false else underscoresFit (Numeral.isHexDigit b) rest

def withoutUnderscores (t : Text) : Text :=
  t.filter (· ≠ 95)

/-- Whether a zero is followed by more, after an optional sign. -/
def hasLeadingZero : Text → Bool
  | 48 :: _ :: _ => true
  | 43 :: 48 :: _ :: _ => true
  | 45 :: 48 :: _ :: _ => true
  | _ => false

/-- The integer, if it has 64 bits. -/
def inRange? (i : Int) : Option Int :=
  if -0x8000000000000000 ≤ i && i < 0x8000000000000000 then some i else none

def decimalInteger? (t : Text) : Option Int :=
  if !underscoresFit false t || hasLeadingZero t then none
  else match withoutUnderscores t with
    | 43 :: digits => inRange? (Text.toNat digits)
    | 45 :: digits => inRange? (-(Text.toNat digits : Int))
    | digits => inRange? (Text.toNat digits)

/-- The base an introducing letter stands for. -/
def base? (b : UInt8) : Option Nat :=
  if b = 98 then some 2
  else if b = 111 then some 8
  else if b = 120 then some 16
  else none

def isDigitOf (base : Nat) (b : UInt8) : Bool :=
  Numeral.isHexDigit b && Numeral.digitValue b < base

/-- An integer in the given base, and the rest of the text. -/
def basedInteger? (base : Nat) (t : Text) : Option (Int × Text) :=
  let (digits, rest) := t.span fun b => isDigitOf base b || b = 95
  if !underscoresFit false digits then none
  else (inRange? ((withoutUnderscores digits).foldl
    (fun n b => base * n + Numeral.digitValue b) 0 : Nat)).map (·, rest)

/-- Whether every point is followed by a digit. -/
def pointsFit : Text → Bool
  | [] => true
  | 46 :: b :: rest => Text.isDigit b && pointsFit rest
  | [46] => false
  | _ :: rest => pointsFit rest

/-- The pieces between points and exponent marks. -/
def floatPieces (t : Text) : List Text :=
  (Text.splitOn 46 (t.map fun b => if b = 101 || b = 69 then 46 else b)).filter (!·.isEmpty)

/-- A float, if it is in the range of double precision. -/
def float? (t : Text) : Option Numeral :=
  let pieces := floatPieces t
  if !pieces.all (underscoresFit false) || (pieces.head?.any hasLeadingZero) || !pointsFit t then
    none
  else match Numeral.parse (withoutUnderscores t) with
    | some (.finite negative digits twos tens) =>
      if Numeral.magnitude .double digits twos tens = Format.double.infinity then none
      else some (.finite negative digits twos tens)
    | _ => none

/-- `inf` or `nan` at the start of a text. -/
def specialFloat? (negative : Bool) : Text → Option (Numeral × Text)
  | 105 :: 110 :: 102 :: rest => some (.infinite negative, rest)
  | 110 :: 97 :: 110 :: rest => some (.nan, rest)
  | _ => none

end Quadlane.Toml
