/-! Text is a list of bytes. File contents, names and messages all travel in this form, so a byte
sequence that is not valid UTF-8 passes through every part of the program unchanged. -/

namespace Quadlane

/-- A byte string; the bytes need not be valid UTF-8. -/
abbrev Text := List UInt8

namespace Text

/-- The UTF-8 bytes of a literal. -/
def lit (s : String) : Text :=
  s.toList.flatMap String.utf8EncodeChar

/-- The byte of an ASCII character. -/
def byte (c : Char) : UInt8 :=
  c.toNat.toUInt8

def decimal (n : Nat) : Text :=
  (Nat.toDigits 10 n).map byte

def integer : Int → Text
  | .ofNat n => decimal n
  | .negSucc n => byte '-' :: decimal (n + 1)

/-- Lower case hexadecimal digits without leading zeros. -/
def hex (n : Nat) : Text :=
  (Nat.toDigits 16 n).map byte

def padLeft (width : Nat) (fill : Char) (t : Text) : Text :=
  List.replicate (width - t.length) (byte fill) ++ t

def padRight (width : Nat) (fill : Char) (t : Text) : Text :=
  t ++ List.replicate (width - t.length) (byte fill)

/-- Two lower case hexadecimal digits. -/
def hexByte (b : UInt8) : Text :=
  padLeft 2 '0' (hex b.toNat)

/-- An integer zero-padded to `width` characters, the sign included. -/
def zeroPadded (width : Nat) (i : Int) : Text :=
  if i < 0 then byte '-' :: padLeft (width - 1) '0' (decimal i.natAbs)
  else padLeft width '0' (decimal i.natAbs)

def joinWith (separator : Text) (parts : List Text) : Text :=
  separator.intercalate parts

/-- Words joined by single spaces. -/
def words (parts : List Text) : Text :=
  joinWith [32] parts

/-- The pieces between separators; a text without separator is one piece. -/
def splitOn (separator : UInt8) : Text → List Text
  | [] => [[]]
  | b :: rest =>
    if b = separator then [] :: splitOn separator rest
    else match splitOn separator rest with
      | [] => [[b]]
      | piece :: pieces => (b :: piece) :: pieces

def isDigit (b : UInt8) : Bool :=
  48 ≤ b && b ≤ 57

def isDecimal (t : Text) : Bool :=
  !t.isEmpty && t.all isDigit

/-- The number a digit string denotes in base ten. -/
def toNat (t : Text) : Nat :=
  t.foldl (fun n b => 10 * n + (b.toNat - 48)) 0

/-- ASCII lower case. -/
def lowerByte (b : UInt8) : UInt8 :=
  if 65 ≤ b && b ≤ 90 then b + 32 else b

def startsWith (t start : Text) : Bool :=
  start.isPrefixOf t

def endsWith (t suffix : Text) : Bool :=
  suffix.isSuffixOf t

/-- Whether `part` occurs in `t` as a contiguous piece. -/
def contains (part : Text) : Text → Bool
  | [] => part.isEmpty
  | b :: rest => part.isPrefixOf (b :: rest) || contains part rest

/-- Byte-wise lexicographic order. -/
def le : Text → Text → Bool
  | [], _ => true
  | _ :: _, [] => false
  | a :: s, b :: t => a < b || (a = b && le s t)

end Text
end Quadlane
