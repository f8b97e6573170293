import Quadlane.Lane.Basic
import Quadlane.Text.Basic

/-! Data items of the Concise Binary Object Representation, and their canonical encoding: definite
lengths and the shortest heads. -/

namespace Quadlane.Image

inductive Item where
  | unsigned (n : Nat)
  /-- The number `-1 - n`. -/
  | negative (n : Nat)
  | bytes (content : List UInt8)
  /-- A text of indefinite length has several chunks, any other text has one. -/
  | text (chunks : List Text)
  | array (items : List Item)
  | map (entries : List (Item × Item))
  | tag (number : Nat) (content : Item)
  /-- False and true are 20 and 21, null is 22 and undefined is 23. -/
  | simple (n : Nat)
  | half (bits : Nat)
  | single (bits : Nat)
  | double (bits : Nat)

/-- A number in so many bytes, the most significant first. -/
def bigEndian : Nat → Nat → List UInt8
  | 0, _ => []
  | k + 1, n => ((n >>> (8 * k)) % 256).toUInt8 :: bigEndian k n

/-- The first byte of an item with its argument, in as few bytes as the argument takes. -/
def encodeHead (major n : Nat) : List UInt8 :=
  let first := fun info => (32 * major + info).toUInt8
  if n < 24 then [first n]
  else if n < 0x100 then first 24 :: bigEndian 1 n
  else if n < 0x10000 then first 25 :: bigEndian 2 n
  else if n < 0x100000000 then first 26 :: bigEndian 4 n
  else first 27 :: bigEndian 8 n

mutual

def Item.encode : Item → List UInt8
  | .unsigned n => encodeHead 0 n
  | .negative n => encodeHead 1 n
  | .bytes content => encodeHead 2 content.length ++ content
  | .text chunks => encodeHead 3 chunks.flatten.length ++ chunks.flatten
  | .array items => encodeHead 4 items.length ++ encodeItems items
  | .map entries => encodeHead 5 entries.length ++ encodeEntries entries
  | .tag number content => encodeHead 6 number ++ content.encode
  | .simple n => encodeHead 7 n
  | .half bits => 0xF9 :: bigEndian 2 bits
  | .single bits => 0xFA :: bigEndian 4 bits
  | .double bits => 0xFB :: bigEndian 8 bits

def encodeItems : List Item → List UInt8
  | [] => []
  | i :: rest => i.encode ++ encodeItems rest

def encodeEntries : List (Item × Item) → List UInt8
  | [] => []
  | (k, v) :: rest => k.encode ++ v.encode ++ encodeEntries rest

end

end Quadlane.Image
