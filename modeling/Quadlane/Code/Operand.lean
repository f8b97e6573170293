import Quadlane.Text.Basic

/-! Operands. A register byte addresses one table of 64 temporaries, 64 inputs and 64 outputs; bytes
from 192 on address nothing. Whether a source byte is a register or a constant is told by a bit of
the mask of its instruction. -/

namespace Quadlane

inductive SourceKind where
  | register
  | constant
  deriving DecidableEq

def SourceKind.name : SourceKind → Text
  | register => Text.lit "register"
  | constant => Text.lit "constant"

/-- A number with bit `i` set for each constant at place `i`. -/
def constantBits : List SourceKind → Nat
  | [] => 0
  | k :: rest => (if k = .constant then 1 else 0) + 2 * constantBits rest

/-- The mask of some sources, source `i` at bit `i`. Only four sources have a bit. -/
def sourceMask (kinds : List SourceKind) : UInt8 :=
  (constantBits (kinds.take 4)).toUInt8

/-- The kind of source `i` under a mask. -/
def sourceKind (mask : UInt8) (i : Nat) : SourceKind :=
  if mask.toNat.testBit i then .constant else .register

/-- Groups of registers; constants have a table of their own. -/
inductive RegisterGroup where
  | temporary
  | input
  | output
  | constant
  deriving DecidableEq

namespace RegisterGroup

def all : List RegisterGroup := [temporary, input, output, constant]

def name : RegisterGroup → Text
  | temporary => Text.lit "temp"
  | input => Text.lit "input"
  | output => Text.lit "output"
  | constant => Text.lit "const"

/-- The place of the first register of the group in the table. -/
def first : RegisterGroup → Nat
  | input => 64
  | output => 128
  | _ => 0

def letter : RegisterGroup → Char
  | temporary => 't'
  | input => 'i'
  | output => 'o'
  | constant => 'c'

end RegisterGroup

/-- The register `index` of a group as a place in the table. -/
def registerPlace (group : RegisterGroup) (index : Int) : Int :=
  group.first + index

/-- The group and the index in it, for a byte that addresses a register. -/
def splitRegister (b : UInt8) : Option (RegisterGroup × Nat) :=
  if b < 64 then some (.temporary, b.toNat)
  else if b < 128 then some (.input, b.toNat - 64)
  else if b < 192 then some (.output, b.toNat - 128)
  else none

/-- The assembly name of a register byte; `r` and the byte itself if it addresses none. -/
def registerName (b : UInt8) : Text :=
  match splitRegister b with
  | some (group, i) => Text.byte group.letter :: Text.decimal i
  | none => Text.byte 'r' :: Text.decimal b.toNat

structure Operand where
  kind : SourceKind
  index : UInt8
  deriving DecidableEq

namespace Operand

instance : Inhabited Operand := ⟨⟨.register, 0⟩⟩

/-- The low eight bits of an integer. -/
def lowByte (i : Int) : UInt8 :=
  (i % 256).toNat.toUInt8

/-- A register of a group; the place wraps to a byte. -/
def register (group : RegisterGroup) (index : Int) : Operand :=
  ⟨.register, lowByte (registerPlace group index)⟩

def temp (i : Int) : Operand := register .temporary i
def input (i : Int) : Operand := register .input i
def output (i : Int) : Operand := register .output i
def constant (i : Int) : Operand := ⟨.constant, lowByte i⟩

/-- A byte taken as a place in the register table. -/
def raw (i : Int) : Operand := ⟨.register, lowByte i⟩

/-- The assembly name of a source byte of the given kind. -/
def nameOf (kind : SourceKind) (b : UInt8) : Text :=
  match kind with
  | .constant => Text.byte 'c' :: Text.decimal b.toNat
  | .register => registerName b

def name (o : Operand) : Text :=
  nameOf o.kind o.index

end Operand
end Quadlane
