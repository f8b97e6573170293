import Quadlane.Text.Basic

/-! The characters of a byte string. A maximal valid UTF-8 sequence is one scalar, every other byte
stands alone, so the bytes of the runes of a text are the text. Blanks are the characters of the
Unicode property White_Space. -/

namespace Quadlane

/-- A Unicode scalar value, or a byte that belongs to no valid UTF-8 sequence. -/
inductive Rune where
  | scalar (c : Char)
  | stray (b : UInt8)
  deriving DecidableEq

namespace Rune

def bytes : Rune → Text
  | scalar c => String.utf8EncodeChar c
  | stray b => [b]

/-- The property White_Space. -/
def isBlank : Rune → Bool
  | stray _ => false
  | scalar c =>
    let n := c.toNat
    (9 ≤ n && n ≤ 13) || n == 32 || n == 0x85 || n == 0xA0 || n == 0x1680 ||
      (0x2000 ≤ n && n ≤ 0x200A) || n == 0x2028 || n == 0x2029 || n == 0x202F || n == 0x205F ||
      n == 0x3000

end Rune

namespace Text

def isContinuation (b : UInt8) : Bool :=
  0x80 ≤ b && b ≤ 0xBF

/-- Well-formed two byte sequences. -/
def isPair (a b : UInt8) : Bool :=
  0xC2 ≤ a && a ≤ 0xDF && isContinuation b

/-- Well-formed three byte sequences: neither overlong nor a surrogate. -/
def isTriple (a b c : UInt8) : Bool :=
  0xE0 ≤ a && a ≤ 0xEF && isContinuation b && isContinuation c &&
    (a != 0xE0 || 0xA0 ≤ b) && (a != 0xED || b ≤ 0x9F)

/-- Well-formed four byte sequences: neither overlong nor beyond U+10FFFF. -/
def isQuadruple (a b c d : UInt8) : Bool :=
  0xF0 ≤ a && a ≤ 0xF4 && isContinuation b && isContinuation c && isContinuation d &&
    (a != 0xF0 || 0x90 ≤ b) && (a != 0xF4 || b ≤ 0x8F)

def low6 (b : UInt8) : Nat :=
  b.toNat % 64

def runes : Text → List Rune
  | [] => []
  | a :: s =>
    if a < 0x80 then .scalar (Char.ofNat a.toNat) :: runes s
    else match s with
      | [] => [.stray a]
      | [b] =>
        if isPair a b then [.scalar (Char.ofNat (a.toNat % 32 * 64 + low6 b))]
        else .stray a :: runes [b]
      | [b, c] =>
        if isPair a b then .scalar (Char.ofNat (a.toNat % 32 * 64 + low6 b)) :: runes [c]
        else if isTriple a b c then
          [.scalar (Char.ofNat ((a.toNat % 16 * 64 + low6 b) * 64 + low6 c))]
        else .stray a :: runes [b, c]
      | b :: c :: d :: r =>
        if isPair a b then
          .scalar (Char.ofNat (a.toNat % 32 * 64 + low6 b)) :: runes (c :: d :: r)
        else if isTriple a b c then
          .scalar (Char.ofNat ((a.toNat % 16 * 64 + low6 b) * 64 + low6 c)) :: runes (d :: r)
        else if isQuadruple a b c d then
          .scalar (Char.ofNat (((a.toNat % 8 * 64 + low6 b) * 64 + low6 c) * 64 + low6 d)) ::
            runes r
        else .stray a :: runes (b :: c :: d :: r)
termination_by t => t.length
decreasing_by all_goals (simp_wf; try omega)

def ofRunes (rs : List Rune) : Text :=
  rs.flatMap Rune.bytes

/-- Whether every byte belongs to a valid UTF-8 sequence. -/
def isUtf8 (t : Text) : Bool :=
  (runes t).all fun
    | .scalar _ => true
    | .stray _ => false

/-- The text for display: U+FFFD stands for each stray byte. -/
def display (t : Text) : String :=
  String.ofList ((runes t).map fun
    | .scalar c => c
    | .stray _ => Char.ofNat 0xFFFD)

/-- The text without leading and trailing blanks. -/
def trim (t : Text) : Text :=
  ofRunes ((((runes t).dropWhile Rune.isBlank).reverse.dropWhile Rune.isBlank).reverse)

/-- Splits runes at blanks; `field` holds the field in progress, in reverse. -/
def splitBlanks (field : List Rune) : List Rune → List (List Rune)
  | [] => if field.isEmpty then [] else [field.reverse]
  | r :: rs =>
    if r.isBlank then
      if field.isEmpty then splitBlanks [] rs else field.reverse :: splitBlanks [] rs
    else splitBlanks (r :: field) rs

/-- The maximal pieces without blanks. -/
def fields (t : Text) : List Text :=
  (splitBlanks [] (runes t)).map ofRunes

/-- Lower case, as far as the result can be an ASCII word: besides the ASCII capitals only the
Kelvin sign and the dotted capital I have an ASCII letter as their lower case. -/
def lower (t : Text) : Text :=
  ofRunes ((runes t).map fun
    | .scalar c =>
      if c.toNat = 0x130 then .scalar 'i'
      else if c.toNat = 0x212A then .scalar 'k'
      else .scalar c.toLower
    | r => r)

/-- Equality up to simple case folding with a word of ASCII letters: besides the two cases of a
letter, the long s folds to `s` and the Kelvin sign to `k`. -/
def foldsTo (t word : Text) : Bool :=
  let fold : Rune → Rune := fun
    | .scalar c =>
      if c.toNat = 0x17F then .scalar 's'
      else if c.toNat = 0x212A then .scalar 'k'
      else .scalar c.toLower
    | r => r
  decide ((runes t).map fold = (runes word).map fold)

end Text
end Quadlane
