import Quadlane.Lane.Numeral

/-! TOML documents as they are written: keys, values and statements in the order of the file. -/

namespace Quadlane.Toml

/-- The parts of a dotted key. -/
abbrev Key := List Text

inductive Scalar where
  | text (t : Text)
  | integer (i : Int)
  | float (x : Numeral)
  | boolean (b : Bool)
  /-- A date, a time of day or both; nothing here depends on which. -/
  | moment

inductive Value where
  | scalar (s : Scalar)
  | array (items : List Value)
  | inlineTable (pairs : List (Key × Value))

inductive Statement where
  /-- A header `[k]`. -/
  | table (k : Key)
  /-- A header `[[k]]`. -/
  | tableArray (k : Key)
  | assign (k : Key) (v : Value)

/-- Characters of a part that is written without quotes. -/
def isBare (b : UInt8) : Bool :=
  Text.isDigit b || (97 ≤ Text.lowerByte b && Text.lowerByte b ≤ 122) || b == 95 || b == 45

/-- A byte between double quotes. -/
def escapeByte (b : UInt8) : Text :=
  if b = 34 then [92, 34]
  else if b = 92 then [92, 92]
  else if b = 8 then Text.lit "\\b"
  else if b = 9 then Text.lit "\\t"
  else if b = 10 then Text.lit "\\n"
  else if b = 12 then Text.lit "\\f"
  else if b = 13 then Text.lit "\\r"
  else if b < 32 || b = 127 then Text.lit "\\u00" ++ Text.hexByte b
  else [b]

/-- A part of a key; all but bare parts are quoted. -/
def renderPart (t : Text) : Text :=
  if !t.isEmpty && t.all isBare then t
  else 34 :: (t.flatMap escapeByte ++ [34])

def Key.render (k : Key) : Text :=
  Text.joinWith [46] (k.map renderPart)

end Quadlane.Toml
