import Quadlane.Kernel
import Quadlane.Text.Basic

/-! The closed set of opcodes. The shape of an instruction follows from its opcode: the terminator has
no operands, kernels have sources and a destination, the others also name a shared data set. -/

namespace Quadlane

/-- Ways to move the cursor of a shared data set. -/
inductive Cursor where
  | acquire
  | acquireWrap
  | consume
  | consumeWrap
  deriving DecidableEq

/-- The order and kind of the operand bytes. -/
inductive Layout where
  /-- no operands -/
  | none
  /-- mask, sources, destination -/
  | kernel
  /-- set, mask, condition, destination -/
  | cursor
  /-- set, variable, mask, index, destination -/
  | read
  /-- set, variable, mask, index, value -/
  | write
  /-- set, mask, index, destination -/
  | valid
  deriving DecidableEq

inductive Opcode where
  | done
  | kernel (k : Kernel)
  | cursor (c : Cursor)
  | dataRead
  | dataWrite
  | indexValid
  deriving DecidableEq

namespace Layout

def all : List Layout := [none, kernel, cursor, read, write, valid]

def name : Layout → Text
  | none => Text.lit "none"
  | kernel => Text.lit "kernel"
  | cursor => Text.lit "cursor"
  | read => Text.lit "read"
  | write => Text.lit "write"
  | valid => Text.lit "valid"

def hasSet : Layout → Bool
  | none | kernel => false
  | _ => true

def hasVariable : Layout → Bool
  | read | write => true
  | _ => false

def hasDestination : Layout → Bool
  | none | write => false
  | _ => true

end Layout

namespace Opcode

open Kernel.Unary Kernel.Binary Kernel.Ternary Kernel.Quaternary in
/-- All opcodes with their mnemonics; the byte of an opcode is its place in the list. -/
def table : List (Opcode × String) :=
  let u := fun op => kernel (.unary op)
  let b := fun op => kernel (.binary op)
  let t := fun op => kernel (.ternary op)
  let q := fun op => kernel (.quaternary op)
  [(done, "done"), (b add, "add"), (b sub, "sub"), (b mul, "mul"), (b div, "div"),
    (t mad, "mad"), (t lerp, "lerp"), (u rcp, "rcp"), (u rsq, "rsq"), (u sqrt, "sqrt"),
    (u neg, "neg"), (u abs, "abs"), (u exp, "exp"), (u exp2, "exp2"), (u log, "log"),
    (u log2, "log2"), (u sin, "sin"), (u cos, "cos"), (u tan, "tan"), (u asin, "asin"),
    (u acos, "acos"), (u atan, "atan"), (b atan2, "atan2"), (u ceil, "ceil"),
    (u floor, "floor"), (b fmod, "fmod"), (u frac, "frac"), (u trunc, "trunc"),
    (t clamp, "clamp"), (b min, "min"), (b max, "max"), (b pow, "pow"), (u sign, "sign"),
    (u step, "step"), (b dot, "dot"), (b cross, "cross"), (u normalize, "normalize"),
    (kernel .random, "random"), (u length, "length"), (kernel .noise, "noise"),
    (u splatx, "splatx"), (u splaty, "splaty"), (u splatz, "splatz"), (u splatw, "splatw"),
    (q compose, "compose"), (q composex, "composex"), (q composey, "composey"),
    (q composez, "composez"), (q composew, "composew"), (b lessthan, "lessthan"),
    (t select, "select"), (t easein, "easein"), (u easeinout, "easeinout"),
    (u output, "output"), (cursor .acquire, "acquireindex"),
    (cursor .acquireWrap, "acquireindexwrap"), (cursor .consume, "consumeindex"),
    (cursor .consumeWrap, "consumeindexwrap"), (dataRead, "shareddataread"),
    (dataWrite, "shareddatawrite"), (indexValid, "shareddataindexvalid")]

def all : List Opcode :=
  table.map (·.1)

def toByte (op : Opcode) : UInt8 :=
  (all.idxOf op).toUInt8

def ofByte? (b : UInt8) : Option Opcode :=
  all[b.toNat]?

def mnemonic (op : Opcode) : Text :=
  Text.lit ((table.find? (·.1 = op)).elim "" (·.2))

def ofMnemonic? (t : Text) : Option Opcode :=
  (table.find? fun entry => Text.lit entry.2 = t).map (·.1)

/-- The mnemonic of a byte, or the byte itself outside the closed set. -/
def byteName (b : UInt8) : Text :=
  match ofByte? b with
  | some op => op.mnemonic
  | none => Text.lit "op(0x" ++ Text.hexByte b ++ Text.lit ")"

/-- The number of sources of each opcode, at the place of its byte. -/
def arities : List Nat :=
  [0, 2, 2, 2, 2, 3, 3, 1, 1, 1, 1, 1, 1, 1, 1, 1, 1, 1, 1, 1, 1, 1, 2, 1, 1, 2, 1, 1, 3, 2, 2, 2, 1,
    1, 2, 2, 1, 1, 1, 1, 1, 1, 1, 1, 4, 4, 4, 4, 4, 2, 3, 3, 1, 1, 1, 1, 1, 1, 1, 2, 1]

/-- The number of sources. -/
def arity (op : Opcode) : Nat :=
  arities.getD op.toByte.toNat 0

def layout : Opcode → Layout
  | done => .none
  | kernel _ => .kernel
  | cursor _ => .cursor
  | dataRead => .read
  | dataWrite => .write
  | indexValid => .valid

/-- The number of bytes after the opcode byte. -/
def width (op : Opcode) : Nat :=
  match op.layout with
  | .none => 0
  | .kernel => 1 + op.arity + 1
  | .cursor | .valid => 1 + 1 + op.arity + 1
  | .read => 2 + 1 + op.arity + 1
  | .write => 2 + 1 + op.arity

def hasDestination (op : Opcode) : Bool :=
  op.layout.hasDestination

/-! ### The two tables agree -/

@[simp] theorem arity_done : done.arity = 0 := rfl

@[simp] theorem arity_kernel (k : Kernel) : (kernel k).arity = k.arity := by
  cases k with
  | random => rfl
  | noise => rfl
  | unary op => cases op <;> rfl
  | binary op => cases op <;> rfl
  | ternary op => cases op <;> rfl
  | quaternary op => cases op <;> rfl

@[simp] theorem arity_cursor (c : Cursor) : (cursor c).arity = 1 := by
  cases c <;> rfl

@[simp] theorem arity_dataRead : dataRead.arity = 1 := rfl

@[simp] theorem arity_dataWrite : dataWrite.arity = 2 := rfl

@[simp] theorem arity_indexValid : indexValid.arity = 1 := rfl

end Opcode
end Quadlane
