import Quadlane.Lane.Wide
import Quadlane.Text.Basic

/-! Reading numbers. A numeral is an optional sign and either a decimal (digits with an optional point
and an optional exponent), a hexadecimal number after `0x` with a mandatory binary exponent after
`p`, or the word `inf`, `infinity` or, without a sign, `nan`, in any case. An underscore may stand
between two digits; the `0x` counts as a digit in front of one. -/

namespace Quadlane

/-- What a numeral denotes: a finite one is `±digits * 2 ^ twos * 10 ^ tens`. -/
inductive Numeral where
  | finite (negative : Bool) (digits : Nat) (twos tens : Int)
  | infinite (negative : Bool)
  | nan

namespace Numeral

def isHexDigit (b : UInt8) : Bool :=
  Text.isDigit b || (97 ≤ Text.lowerByte b && Text.lowerByte b ≤ 102)

def digitValue (b : UInt8) : Nat :=
  if Text.isDigit b then b.toNat - 48 else (Text.lowerByte b).toNat - 87

/-- Digits with at most one point, as far as they go. -/
structure Mantissa where
  digits : Nat := 0
  /-- Digits after the point. -/
  places : Nat := 0
  point : Bool := false
  any : Bool := false

def Mantissa.push (base : Nat) (m : Mantissa) (b : UInt8) : Mantissa :=
  { m with
    digits := base * m.digits + digitValue b
    places := if m.point then m.places + 1 else m.places
    any := true }

/-- Reads the mantissa and returns the rest of the text. -/
def mantissa (base : Nat) (accepts : UInt8 → Bool) (m : Mantissa) : Text → Mantissa × Text
  | [] => (m, [])
  | b :: rest =>
    if b = 95 then mantissa base accepts m rest
    else if b = 46 then
      if m.point then (m, b :: rest) else mantissa base accepts { m with point := true } rest
    else if accepts b then mantissa base accepts (m.push base b) rest
    else (m, b :: rest)

/-- The digits of an exponent; from ten thousand on further digits do not count. -/
def exponentDigits (e : Nat) : Text → Option Nat
  | [] => some e
  | b :: rest =>
    if b = 95 then exponentDigits e rest
    else if Text.isDigit b then
      exponentDigits (if e < 10000 then 10 * e + digitValue b else e) rest
    else none

/-- A sign and digits, the first of which is a digit, up to the end of the text. -/
def exponent : Text → Option Int
  | 43 :: b :: rest => if Text.isDigit b then (exponentDigits 0 (b :: rest)).map (↑·) else none
  | 45 :: b :: rest => if Text.isDigit b then (exponentDigits 0 (b :: rest)).map (-↑·) else none
  | b :: rest => if Text.isDigit b then (exponentDigits 0 (b :: rest)).map (↑·) else none
  | [] => none

/-- The character class that decides where an underscore may stand. -/
inductive Neighbour where
  | digit
  | underscore
  | other
  deriving DecidableEq

def underscoresFit (accepts : UInt8 → Bool) (last : Neighbour) : Text → Bool
  | [] => last != .underscore
  | b :: rest =>
    if accepts b then underscoresFit accepts .digit rest
    else if b = 95 then last == .digit && underscoresFit accepts .underscore rest
    else last != .underscore && underscoresFit accepts .other rest

def decimal (negative : Bool) (t : Text) : Option Numeral :=
  let (m, rest) := mantissa 10 Text.isDigit {} t
  if !m.any || !underscoresFit Text.isDigit .other t then none
  else match rest with
    | [] => some (.finite negative m.digits 0 (-m.places))
    | b :: rest =>
      if Text.lowerByte b = 101 then
        (exponent rest).map fun e => .finite negative m.digits 0 (e - m.places)
      else none

def hexadecimal (negative : Bool) (t : Text) : Option Numeral :=
  let (m, rest) := mantissa 16 isHexDigit {} t
  if !m.any || !underscoresFit isHexDigit .digit t then none
  else match rest with
    | [] => none
    | b :: rest =>
      if Text.lowerByte b = 112 then
        (exponent rest).map fun e => .finite negative m.digits (e - 4 * m.places) 0
      else none

def unsigned (negative : Bool) (t : Text) : Option Numeral :=
  match t with
  | 48 :: x :: b :: rest =>
    if Text.lowerByte x = 120 then hexadecimal negative (b :: rest) else decimal negative t
  | _ =>
    let word := t.map Text.lowerByte
    if word = Text.lit "inf" || word = Text.lit "infinity" then some (.infinite negative)
    else decimal negative t

def parse (t : Text) : Option Numeral :=
  match t with
  | 43 :: rest => unsigned false rest
  | 45 :: rest => unsigned true rest
  | _ => if t.map Text.lowerByte = Text.lit "nan" then some .nan else unsigned false t

/-- The magnitude nearest to `digits * 2 ^ twos * 10 ^ tens`. Values beyond `2 ^ 2000` or below
`2 ^ (-2000)` are past both ends of every format here and are not expanded. -/
def magnitude (f : Format) (digits : Nat) (twos tens : Int) : Nat :=
  let size := (digits.log2 : Int) + twos + (if 0 ≤ tens then 3 * tens else 4 * tens)
  let reach := (digits.log2 : Int) + 1 + twos + (if 0 ≤ tens then 4 * tens else 3 * tens)
  if digits = 0 then 0
  else if 2000 < size then f.infinity
  else if reach < -2000 then 0
  else f.roundQuotient (digits * Nat.pow 10 tens.toNat) (Nat.pow 10 (-tens).toNat) twos

end Numeral

namespace Lane

/-- The lane nearest to a numeral; numerals that are too large denote none. -/
def ofNumeral? : Numeral → Option Lane
  | .nan => some nan
  | .infinite negative => some (infinity negative)
  | .finite negative digits twos tens =>
    let m := Numeral.magnitude .single digits twos tens
    if m = Format.single.infinity then none else some (ofFields negative m)

def parse? (t : Text) : Option Lane :=
  (Numeral.parse t).bind ofNumeral?

end Lane
end Quadlane
