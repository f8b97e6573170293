import Quadlane.View

/-! The memory a machine works on. Buffers belong to the caller and are addressed by their place, so
that one buffer can be bound to several registers and to variables of views at the same time.
Temporaries belong to the machine; they keep their values from chunk to chunk and from call to
call. -/

namespace Quadlane

/-- The place of a buffer in the memory. -/
abbrev BufferId := Nat

structure Memory where
  buffers : Array Buffer
  /-- A variable without a buffer holds nothing. -/
  views : Array (View (Option BufferId))

/-- A run of cells of a buffer, bound to a register. -/
structure Window where
  buffer : BufferId
  start : Nat
  length : Nat
  deriving DecidableEq

namespace Memory

def bufferSize (m : Memory) (b : BufferId) : Nat :=
  (m.buffers.getD b #[]).size

def cell (m : Memory) (b : BufferId) (i : Nat) : Quad :=
  (m.buffers.getD b #[]).getD i Quad.zero

def setCell (m : Memory) (b : BufferId) (i : Nat) (q : Quad) : Memory :=
  { m with buffers := m.buffers.modify b (·.setIfInBounds i q) }

def setView (m : Memory) (id : Nat) (v : View (Option BufferId)) : Memory :=
  { m with views := m.views.setIfInBounds id v }

/-- The cell of a variable at an index, if the index is inside the view and the buffer. -/
def locate (m : Memory) (v : View (Option BufferId)) (var : Nat) (i : Int) :
    Option (BufferId × Nat) :=
  match v.vars[var]? with
  | some (_, some b) => if v.isValid i && i < m.bufferSize b then some (b, i.toNat) else none
  | _ => none

/-- The record of a view at an index. -/
def readRecord (m : Memory) (id var : Nat) (i : Int) : Quad :=
  match m.views[id]? with
  | none => Quad.zero
  | some v =>
    match m.locate v var i with
    | some (b, k) => m.cell b k
    | none => Quad.zero

def writeRecord (m : Memory) (id var : Nat) (i : Int) (q : Quad) : Memory :=
  match m.views[id]? with
  | none => m
  | some v =>
    match m.locate v var i with
    | some (b, k) => m.setCell b k q
    | none => m.setView id { v with discard := q }

/-- Moves the cursor of a view. -/
def moveCursor (m : Memory) (id : Nat) (c : Cursor) : Int × Memory :=
  match m.views[id]? with
  | none => (-1, m)
  | some v =>
    let (i, v) := v.move c
    (i, m.setView id v)

def isValidIndex (m : Memory) (id : Nat) (i : Int) : Bool :=
  match m.views[id]? with
  | none => false
  | some v => v.isValid i

end Memory

/-- Temporaries by number and instance of the chunk; what was never written is zero. -/
structure Temporaries where
  rows : Array Buffer := #[]

namespace Temporaries

def get (t : Temporaries) (r i : Nat) : Quad :=
  (t.rows.getD r #[]).getD i Quad.zero

/-- A row with its cell `i` set, made longer by zeros as far as needed. -/
def setInRow (row : Buffer) (i : Nat) (q : Quad) : Buffer :=
  if i < row.size then row.setIfInBounds i q
  else (row ++ Array.replicate (i - row.size) Quad.zero).push q

def set (t : Temporaries) (r i : Nat) (q : Quad) : Temporaries :=
  let rows := if r < t.rows.size then t.rows else t.rows ++ Array.replicate (r + 1 - t.rows.size) #[]
  ⟨rows.modify r (setInRow · i q)⟩

end Temporaries
end Quadlane
