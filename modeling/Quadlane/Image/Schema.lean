import Quadlane.Image.Item
import Quadlane.Lane.Wide
import Quadlane.Program.Basic
import Quadlane.Text.Rune

/-! Programs as data items. A program, a constant and a data set are maps with small integers as keys.
Writing leaves empty fields out; reading is lenient: unknown keys are skipped, of equal keys the
first counts, and null stands for the empty value of any field. -/

namespace Quadlane.Image

/-! ### Writing -/

/-- The lane with the given bits in half precision; the conversion is exact. -/
def ofHalf (bits : Nat) : Lane :=
  let negative := 0x8000 ≤ bits
  let magnitude := bits % 0x8000
  if Format.half.infinity < magnitude then Lane.nan
  else if magnitude = Format.half.infinity then Lane.infinity negative
  else
    Lane.ofDyadic negative (Format.half.significand magnitude) (Format.half.exponent magnitude)

/-- The bits in half precision nearest to a finite lane. -/
def toHalf (a : Lane) : Nat :=
  Format.half.round a.significand a.exponent + if a.isNegative then 0x8000 else 0

/-- A lane in the shorter of half and single precision that keeps its value. -/
def laneItem (a : Lane) : Item :=
  if a.isNaN then .half 0x7E00
  else if a.isInfinite then .half (0x7C00 + if a.isNegative then 0x8000 else 0)
  else if ofHalf (toHalf a) = a then .half (toHalf a)
  else .single a.bits.toNat

def textItem (t : Text) : Item := .text [t]

/-- A field with its key. -/
def entry (key : Nat) (value : Item) : Item × Item :=
  (.unsigned key, value)

/-- A list field; an empty list is left out. -/
def listEntry {α : Type} (key : Nat) (item : α → Item) (l : List α) : List (Item × Item) :=
  if l.isEmpty then [] else [entry key (.array (l.map item))]

def constantItem (c : Constant) : Item :=
  .map [entry 1 (textItem c.name), entry 2 (.array (c.value.toList.map laneItem))]

def setItem (s : SetDeclaration) : Item :=
  .map (entry 1 (textItem s.name) :: listEntry 2 textItem s.vars)

def programItem (p : Program) : Item :=
  let name := if p.name.isEmpty then [] else [entry 1 (textItem p.name)]
  let code := entry 2 (match p.code with
    | none => .simple 22
    | some bs => .bytes bs)
  .map (name ++ [code] ++ listEntry 3 constantItem p.constants ++ listEntry 4 textItem p.inputs ++
    listEntry 5 textItem p.outputs ++ listEntry 6 setItem p.sets)

/-! ### Reading -/

/-- Contents that some tags ask for: text after 0, a number after 1, bytes after 2 and 3. -/
def admits (tag : Nat) (content : Item) : Bool :=
  match tag, content with
  | 0, .text _ => true
  | 0, _ => false
  | 1, .unsigned _ | 1, .negative _ | 1, .half _ | 1, .single _ | 1, .double _ => true
  | 1, _ => false
  | 2, .bytes _ | 3, .bytes _ => true
  | 2, _ | 3, _ => false
  | _, _ => true

/-- An item without its tags, except the tags of a large integer. -/
def untag : Item → Option Item
  | .tag number content =>
    if !admits number content then none
    else if number = 2 || number = 3 then some (.tag number content)
    else untag content
  | i => some i

def isNull : Item → Bool
  | .simple 22 | .simple 23 => true
  | _ => false

def decodeText (i : Item) : Option Text :=
  match untag i with
  | some (.text chunks) => if chunks.all Text.isUtf8 then some chunks.flatten else none
  | some i => if isNull i then some [] else none
  | none => none

/-- The number a byte string denotes, the most significant byte first. -/
def magnitude (bs : List UInt8) : Nat :=
  bs.foldl (fun n b => 256 * n + b.toNat) 0

/-- The integer a large integer or an unassigned simple value stands for, and any other integer. -/
def integer? : Item → Option Int
  | .unsigned n => some n
  | .negative n => if n < 0x8000000000000000 then some (-1 - n) else none
  | .tag 2 (.bytes bs) => if magnitude bs < 0x10000000000000000 then some (magnitude bs) else none
  | .tag 3 (.bytes bs) => if magnitude bs < 0x8000000000000000 then some (-1 - magnitude bs) else none
  | .simple n => if n < 20 || 32 ≤ n then some n else none
  | _ => none

/-- A number in double precision as a lane; finite numbers beyond the lanes are refused. -/
def ofDoubleBits (bits : Nat) : Option Lane :=
  let magnitude := bits % 0x8000000000000000
  if 0x47EFFFFFE0000000 < magnitude && magnitude < Format.double.infinity then none
  else some (Lane.ofDouble (0x8000000000000000 ≤ bits) magnitude)

/-- An integer as a lane, by way of double precision. -/
def ofInteger (i : Int) : Lane :=
  Lane.ofDouble (i < 0) (Format.double.round i.natAbs 0)

def decodeLane (i : Item) : Option Lane :=
  match untag i with
  | none => none
  | some (.half bits) => some (ofHalf bits)
  | some (.single bits) => some ⟨bits.toUInt32⟩
  | some (.double bits) => ofDoubleBits bits
  | some i => if isNull i then some Lane.zero else (integer? i).map ofInteger

def decodeByte (i : Item) : Option UInt8 :=
  match untag i with
  | none => none
  | some i =>
    if isNull i then some 0
    else match integer? i with
      | some n => if 0 ≤ n && n ≤ 255 then some n.toNat.toUInt8 else none
      | none => none

/-- The elements of an array, each decoded; null is the empty array. -/
def decodeList {α : Type} (decode : Item → Option α) (i : Item) : Option (List α) :=
  match untag i with
  | none => none
  | some (.array items) => items.mapM decode
  | some i => if isNull i then some [] else none

/-- A code is a byte string or an array of bytes; null is the absent code. -/
def decodeCode (i : Item) : Option (Option (List UInt8)) :=
  match untag i with
  | none => none
  | some (.bytes bs) | some (.tag _ (.bytes bs)) => some (some bs)
  | some (.array items) => (items.mapM decodeByte).map some
  | some i => if isNull i then some none else none

/-- Missing lanes are zero, surplus ones are not looked at. -/
def decodeQuad (i : Item) : Option Quad :=
  match untag i with
  | none => none
  | some (.array items) =>
    ((items.take 4).mapM decodeLane).map fun lanes =>
      ⟨lanes.getD 0 .zero, lanes.getD 1 .zero, lanes.getD 2 .zero, lanes.getD 3 .zero⟩
  | some i => if isNull i then some Quad.zero else none

/-- The number of the field a key names, zero if it names none: an integer, or a text with one
digit. -/
def fieldNumber (key : Item) : Option Nat :=
  match key with
  | .unsigned n => some (if n ≤ 9 then n else 0)
  | .negative n => if n < 0x8000000000000000 then some 0 else none
  | .text chunks =>
    if !chunks.all Text.isUtf8 then none
    else match chunks.flatten with
      | [b] => some (if Text.isDigit b then b.toNat - 48 else 0)
      | _ => some 0
  | _ => none

/-- The values of the fields of a map, each under its number. -/
def fieldValues : List (Item × Item) → Option (List (Nat × Item))
  | [] => some []
  | (key, value) :: rest =>
    match fieldNumber key with
    | none => none
    | some n => (fieldValues rest).map ((n, value) :: ·)

/-- The fields of a map; null has none. -/
def decodeFields (i : Item) : Option (List (Nat × Item)) :=
  match untag i with
  | none => none
  | some (.map entries) => fieldValues entries
  | some i => if isNull i then some [] else none

/-- The first field of that number, or the empty value if there is none. -/
def field {α : Type} (fields : List (Nat × Item)) (n : Nat) (empty : α)
    (decode : Item → Option α) : Option α :=
  match fields.lookup n with
  | none => some empty
  | some i => decode i

def decodeConstant (i : Item) : Option Constant := do
  let fields ← decodeFields i
  let name ← field fields 1 [] decodeText
  let value ← field fields 2 Quad.zero decodeQuad
  return { name, value }

def decodeSet (i : Item) : Option SetDeclaration := do
  let fields ← decodeFields i
  let name ← field fields 1 [] decodeText
  let vars ← field fields 2 [] (decodeList decodeText)
  return { name, vars }

def decodeProgram (i : Item) : Option Program := do
  let fields ← decodeFields i
  let name ← field fields 1 [] decodeText
  let code ← field fields 2 none decodeCode
  let constants ← field fields 3 [] (decodeList decodeConstant)
  let inputs ← field fields 4 [] (decodeList decodeText)
  let outputs ← field fields 5 [] (decodeList decodeText)
  let sets ← field fields 6 [] (decodeList decodeSet)
  return { name, code, constants, inputs, outputs, sets }

end Quadlane.Image
