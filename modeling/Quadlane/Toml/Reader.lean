import Quadlane.Toml.Number
import Quadlane.Toml.Moment
import Quadlane.Toml.Quoted

/-! Reading documents. Readers take what they want from the front of a text and return the rest. -/

namespace Quadlane.Toml

/-- Leaves out blanks, line breaks and comments. -/
def skipLines (comment : Bool) : Text → Text
  | [] => []
  | b :: rest =>
    if comment then skipLines (b ≠ 10) rest
    else if b = 35 then skipLines true rest
    else if isSpace b || isLineBreak b then skipLines false rest
    else b :: rest

/-- One part of a key. -/
def part (t : Text) : Option (Text × Text) :=
  match t with
  | 34 :: _ => lineString t
  | 39 :: _ => lineString t
  | _ =>
    let (name, rest) := t.span isBare
    if name.isEmpty then none else some (name, rest)

/-- A dotted key; blanks around its parts do not count. -/
def key : Nat → Text → Option (Key × Text)
  | 0, _ => none
  | fuel + 1, t => do
    let (p, rest) ← part (t.dropWhile isSpace)
    match rest.dropWhile isSpace with
    | 46 :: rest => do
      let (more, rest) ← key fuel rest
      some (p :: more, rest)
    | rest => some ([p], rest)

def isFloatMark (b : UInt8) : Bool :=
  b = 46 || b = 101 || b = 69

/-- Bytes of a float after its first mark. -/
def isFloatByte (b : UInt8) : Bool :=
  Text.isDigit b || isFloatMark b || b = 95 || b = 43 || b = 45

/-- Bytes of a moment. -/
def isMomentByte (b : UInt8) : Bool :=
  Text.isDigit b || [45, 58, 84, 116, 32, 46, 90, 122, 43].contains b

/-- A decimal number after its sign, if it has one. -/
def decimalNumber (sign : Text) (t : Text) : Option (Scalar × Text) :=
  let (digits, rest) := t.span fun b => Text.isDigit b || b = 95
  match rest with
  | b :: _ =>
    if isFloatMark b then
      let (more, rest) := rest.span isFloatByte
      (float? (sign ++ digits ++ more)).map fun x => (.float x, rest)
    else if sign.isEmpty && (b = 45 || b = 58) && digits.all Text.isDigit then
      let (more, rest) := rest.span isMomentByte
      let whole := digits ++ (more.reverse.dropWhile (· = 32)).reverse
      if isMoment whole then some (.moment, rest) else none
    else (decimalInteger? (sign ++ digits)).map fun i => (.integer i, rest)
  | [] => (decimalInteger? (sign ++ digits)).map fun i => (.integer i, rest)

def signedNumber (sign : UInt8) (t : Text) : Option (Scalar × Text) :=
  match specialFloat? (sign = 45) t with
  | some (x, rest) => some (.float x, rest)
  | none =>
    match t with
    | b :: _ => if Text.isDigit b then decimalNumber [sign] t else none
    | [] => none

def unsignedNumber (t : Text) : Option (Scalar × Text) :=
  match t with
  | 48 :: letter :: rest =>
    match base? letter with
    | some base => (basedInteger? base rest).map fun (i, rest) => (.integer i, rest)
    | none => decimalNumber [] t
  | _ => decimalNumber [] t

/-- A value that is neither an array nor a table. -/
def scalar (t : Text) : Option (Scalar × Text) :=
  match t with
  | [] => none
  | b :: rest =>
    if b = 34 || b = 39 then (string t).map fun (s, rest) => (.text s, rest)
    else if Text.isDigit b then unsignedNumber t
    else if b = 43 || b = 45 then signedNumber b rest
    else if t.startsWith (Text.lit "true") then some (.boolean true, t.drop 4)
    else if t.startsWith (Text.lit "false") then some (.boolean false, t.drop 5)
    else (specialFloat? false t).map fun (x, rest) => (.float x, rest)

mutual

def value : Nat → Text → Option (Value × Text)
  | 0, _ => none
  | fuel + 1, t =>
    match t.dropWhile isSpace with
    | 91 :: rest => (items fuel rest).map fun (l, rest) => (.array l, rest)
    | 123 :: rest => (pairs fuel rest).map fun (l, rest) => (.inlineTable l, rest)
    | t => (scalar t).map fun (s, rest) => (.scalar s, rest)

/-- The items of an array up to its closing bracket; a comma may follow the last. -/
def items : Nat → Text → Option (List Value × Text)
  | 0, _ => none
  | fuel + 1, t =>
    match skipLines false t with
    | 93 :: rest => some ([], rest)
    | t => do
      let (v, rest) ← value fuel t
      match skipLines false rest with
      | 44 :: rest => do
        let (more, rest) ← items fuel rest
        some (v :: more, rest)
      | 93 :: rest => some ([v], rest)
      | _ => none

/-- The entries of an inline table up to its closing brace; a comma may follow the last. -/
def pairs : Nat → Text → Option (List (Key × Value) × Text)
  | 0, _ => none
  | fuel + 1, t =>
    match skipLines false t with
    | 125 :: rest => some ([], rest)
    | t => do
      let (k, rest) ← key fuel t
      let rest ← after 61 rest
      let (v, rest) ← value fuel rest
      match skipLines false rest with
      | 44 :: rest => do
        let (more, rest) ← pairs fuel rest
        some ((k, v) :: more, rest)
      | 125 :: rest => some ([(k, v)], rest)
      | _ => none

end

/-- The text after the end of a line, which may hold a comment. -/
def lineEnd (t : Text) : Option Text :=
  match t.dropWhile isSpace with
  | [] => some []
  | b :: rest =>
    if isLineBreak b then some rest
    else if b = 35 then some (rest.dropWhile (· ≠ 10))
    else none

/-- One statement, to the end of its line. -/
def statement (fuel : Nat) (t : Text) : Option (Statement × Text) := do
  match t with
  | 91 :: 91 :: rest =>
    let (k, rest) ← key fuel rest
    let rest ← after 93 rest
    let rest ← after 93 rest
    some (.tableArray k, ← lineEnd rest)
  | 91 :: rest =>
    let (k, rest) ← key fuel rest
    let rest ← after 93 rest
    some (.table k, ← lineEnd rest)
  | _ =>
    let (k, rest) ← key fuel t
    let rest ← after 61 rest
    let (v, rest) ← value fuel rest
    some (.assign k v, ← lineEnd rest)

/-- Statements in reverse; the fuel exceeds the length of the text. -/
def statements (done : List Statement) : Nat → Text → Option (List Statement)
  | 0, _ => none
  | fuel + 1, t =>
    match skipLines false t with
    | [] => some done
    | t =>
      match statement (fuel + 1) t with
      | some (s, rest) => statements (s :: done) fuel rest
      | none => none

/-- Whether there are no control characters but tabs and line breaks, and carriage returns only in
front of line feeds. -/
def isPlain : Text → Bool
  | [] => true
  | [b] => 32 ≤ b && b ≠ 127 || b = 9 || b = 10
  | b :: c :: rest =>
    (32 ≤ b && b ≠ 127 || b = 9 || b = 10 || (b = 13 && c = 10)) && isPlain (c :: rest)

/-- The text after a byte order mark. -/
def withoutMark : Text → Text
  | 0xEF :: 0xBB :: 0xBF :: rest => rest
  | 0xFF :: 0xFE :: rest => rest
  | 0xFE :: 0xFF :: rest => rest
  | t => t

/-- The statements of a document, in order. Each takes at least one byte of the text. -/
def read (t : Text) : Option (List Statement) :=
  let t := withoutMark t
  if isPlain t && t.isUtf8 then (statements [] (t.length + 1) t).map List.reverse else none

end Quadlane.Toml
