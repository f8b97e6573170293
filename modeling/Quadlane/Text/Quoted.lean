import Quadlane.Text.Rune
import Quadlane.Text.Printable

/-! Double-quoted text with backslash escapes. Printable characters stand for themselves; every
other character and every stray byte is escaped, so quoted text is always valid UTF-8. -/

namespace Quadlane.Text

/-- Escapes with a letter of their own. -/
def letterEscape (c : Char) : Option Char :=
  match c.toNat with
  | 7 => some 'a'
  | 8 => some 'b'
  | 9 => some 't'
  | 10 => some 'n'
  | 11 => some 'v'
  | 12 => some 'f'
  | 13 => some 'r'
  | _ => none

def escape : Rune → Text
  | .stray b => lit "\\x" ++ hexByte b
  | .scalar c =>
    if c.toNat = 34 || c.toNat = 92 then [92, byte c]
    else if isPrintable c then String.utf8EncodeChar c
    else match letterEscape c with
      | some l => [92, byte l]
      | none =>
        if c.toNat < 0x80 then lit "\\x" ++ padLeft 2 '0' (hex c.toNat)
        else if c.toNat < 0x10000 then lit "\\u" ++ padLeft 4 '0' (hex c.toNat)
        else lit "\\U" ++ padLeft 8 '0' (hex c.toNat)

/-- The text in double quotes, escaped. -/
def quote (t : Text) : Text :=
  34 :: (runes t).flatMap escape ++ [34]

end Quadlane.Text
