import Quadlane.Code.Opcode
import Quadlane.Word

/-! A shared data view: named variables of one size and one cursor, through which scripts hand records
to each other. An index outside the view or beyond a buffer is no error: reading there gives zero,
and writing there goes to a cell of its own, the discard, that no read can see.

What a variable holds is a parameter: a buffer of its own, or a reference to one kept elsewhere. -/

namespace Quadlane

structure View (β : Type) where
  name : Text
  /-- The capacity of every variable. -/
  size : Int
  counter : Int := 0
  vars : Array (Text × β) := #[]
  discard : Quad := Quad.zero

namespace View

variable {β : Type}

/-- Indices travel in lanes, which hold every integer up to this one. -/
def maxSize : Int := 16777216

/-- An empty view; the size is brought into `[0, maxSize]`. -/
def new (name : Text) (size : Int) : View β :=
  { name, size := max 0 (min size maxSize) }

def addVariable (v : View β) (name : Text) (b : β) : Nat × View β :=
  (v.vars.size, { v with vars := v.vars.push (name, b) })

def variableIndex? (v : View β) (name : Text) : Option Nat :=
  v.vars.findIdx? (·.1 = name)

/-- Moves the cursor back to the start. -/
def reset (v : View β) : View β :=
  { v with counter := 0 }

/-- The counter before it advances by one; a full view stays full. -/
def acquire (v : View β) : Int × View β :=
  (v.counter, if v.counter < v.size then { v with counter := wrap (v.counter + 1) } else v)

/-- The counter before it advances by one modulo the size; -1 if there is no slot at all. -/
def acquireWrap (v : View β) : Int × View β :=
  if v.size ≤ 0 then (-1, v)
  else (v.counter, { v with counter := (wrap (v.counter + 1)).tmod v.size })

/-- The counter before it goes down by one; it stays at zero. -/
def consume (v : View β) : Int × View β :=
  (v.counter, if 0 < v.counter then { v with counter := v.counter - 1 } else v)

/-- The counter before it goes down by one modulo the size; -1 if there is no slot at all. -/
def consumeWrap (v : View β) : Int × View β :=
  if v.size ≤ 0 then (-1, v)
  else (v.counter, { v with counter := (wrap (v.counter - 1 + v.size)).tmod v.size })

def move (v : View β) : Cursor → Int × View β
  | .acquire => v.acquire
  | .acquireWrap => v.acquireWrap
  | .consume => v.consume
  | .consumeWrap => v.consumeWrap

def isValid (v : View β) (i : Int) : Bool :=
  0 ≤ i && i < v.size

end View

/-- A view that owns its buffers. -/
abbrev OwnedView := View Buffer

namespace OwnedView

/-- Whether index `i` is inside the view and the buffer. -/
def holds (v : OwnedView) (b : Buffer) (i : Int) : Bool :=
  v.isValid i && i < b.size

/-- The record at index `i` of a variable; none if there is no such variable. -/
def read? (v : OwnedView) (var : Nat) (i : Int) : Option Quad :=
  v.vars[var]?.map fun (_, b) =>
    if v.holds b i then b.getD i.toNat Quad.zero else Quad.zero

/-- The cell a write to index `i` goes to. -/
def target? (v : OwnedView) (var : Nat) (i : Int) : Option Quad :=
  v.vars[var]?.map fun (_, b) =>
    if v.holds b i then b.getD i.toNat Quad.zero else v.discard

def write? (v : OwnedView) (var : Nat) (i : Int) (q : Quad) : Option OwnedView :=
  v.vars[var]?.map fun (name, b) =>
    if v.holds b i then
      { v with vars := v.vars.setIfInBounds var (name, b.setIfInBounds i.toNat q) }
    else { v with discard := q }

def setBuffer? (v : OwnedView) (var : Nat) (b : Buffer) : Option OwnedView :=
  v.vars[var]?.map fun (name, _) =>
    { v with vars := v.vars.setIfInBounds var (name, b) }

end OwnedView
end Quadlane
