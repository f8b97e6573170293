import Quadlane.Lane.Numeral
import Quadlane.Text.Rune

/-! Strings. Those in double quotes have escapes, those in single quotes none. Three quotes open a
string that may run over several lines; a line break right after them does not count, and in double
quotes a backslash at the end of a line removes the break and the blanks after it. -/

namespace Quadlane.Toml

def isLineBreak (b : UInt8) : Bool :=
  b = 10 || b = 13

def isSpace (b : UInt8) : Bool :=
  b = 32 || b = 9

/-- The contents of a string on one line, and the text after its closing quote. -/
def closeLine (quote : UInt8) (escapes : Bool) (seen : Text) : Text → Option (Text × Text)
  | [] => none
  | b :: rest =>
    if escapes && b = 92 then
      match rest with
      | [] => none
      | c :: rest => closeLine quote escapes (c :: b :: seen) rest
    else if b = quote then some (seen.reverse, rest)
    else if isLineBreak b then none
    else closeLine quote escapes (b :: seen) rest

/-- Whether two quotes in front of three others are already one too many before a fourth. After an
escape they are not. -/
def isCrowded (quote : UInt8) (escapes : Bool) : Text → Bool
  | a :: b :: rest => a = quote && b = quote && !(escapes && rest.head? = some 92)
  | _ => false

/-- The contents of a string over several lines, and the text after its three closing quotes. Up to
two quotes in front of those belong to the string. -/
def closeLines (quote : UInt8) (escapes : Bool) (seen : Text) : Text → Option (Text × Text)
  | [] => none
  | b :: rest =>
    if escapes && b = 92 then
      match rest with
      | [] => none
      | c :: rest => closeLines quote escapes (c :: b :: seen) rest
    else if b = quote && rest.take 2 = [quote, quote] then
      if (rest.drop 2).head? = some quote then
        if isCrowded quote escapes seen then none else closeLines quote escapes (b :: seen) rest
      else some (seen.reverse, rest.drop 2)
    else closeLines quote escapes (b :: seen) rest

def withoutFirstBreak : Text → Text
  | 10 :: rest => rest
  | 13 :: 10 :: rest => rest
  | t => t

/-- The character with that number; surrogates and numbers beyond the last character have none. -/
def scalar? (digits : Text) : Option Text :=
  if !digits.all Numeral.isHexDigit then none
  else
    let n := digits.foldl (fun n b => 16 * n + Numeral.digitValue b) 0
    if h : n.isValidChar then some (String.utf8EncodeChar (Char.ofNatAux n h)) else none

/-- What a letter after a backslash stands for. -/
def control? (b : UInt8) : Option UInt8 :=
  [(98, 8), (116, 9), (110, 10), (102, 12), (114, 13), (101, 27), (34, 34), (92, 92)].lookup b

/-- Replaces escapes. While `joining`, blanks and line breaks are left out. -/
def unescape (lines joining : Bool) (out : Text) : Text → Option Text
  | [] => some out.reverse
  | b :: rest =>
    if joining && (isSpace b || isLineBreak b) then unescape lines true out rest
    else if b ≠ 92 then unescape lines false (b :: out) rest
    else if lines && (rest.takeWhile fun c => isSpace c || isLineBreak c).contains 10 then
      unescape lines true out rest
    else match rest with
      | [] => none
      | 120 :: h₁ :: h₂ :: rest =>
        match scalar? [h₁, h₂] with
        | some c => unescape lines false (c.reverse ++ out) rest
        | none => none
      | 117 :: h₁ :: h₂ :: h₃ :: h₄ :: rest =>
        match scalar? [h₁, h₂, h₃, h₄] with
        | some c => unescape lines false (c.reverse ++ out) rest
        | none => none
      | 85 :: h₁ :: h₂ :: h₃ :: h₄ :: h₅ :: h₆ :: h₇ :: h₈ :: rest =>
        match scalar? [h₁, h₂, h₃, h₄, h₅, h₆, h₇, h₈] with
        | some c => unescape lines false (c.reverse ++ out) rest
        | none => none
      | c :: rest =>
        match control? c with
        | some c => unescape lines false (c :: out) rest
        | none => none

/-- A string on one line, its quotes included. -/
def lineString : Text → Option (Text × Text)
  | 34 :: rest => do
    let (raw, rest) ← closeLine 34 true [] rest
    let t ← unescape false false [] raw
    some (t, rest)
  | 39 :: rest => closeLine 39 false [] rest
  | _ => none

/-- A string of either form. -/
def string : Text → Option (Text × Text)
  | 34 :: 34 :: 34 :: rest => do
    let (raw, rest) ← closeLines 34 true [] rest
    let t ← unescape true false [] (withoutFirstBreak raw)
    some (t, rest)
  | 39 :: 39 :: 39 :: rest => do
    let (raw, rest) ← closeLines 39 false [] rest
    some (withoutFirstBreak raw, rest)
  | t => lineString t

end Quadlane.Toml
