import Quadlane.Machine.Memory
import Quadlane.Code.Operand

/-! What the operands of instructions stand for. A machine has one table of registers, which outlives
its calls. A call first clears the entries of inputs and outputs, so that none is left of an earlier
call; then each chunk binds the temporaries and the buffers that the caller gave. -/

namespace Quadlane

/-- The constants of a call: values of its own, or cells of a buffer that may be bound to registers
and variables too. -/
inductive Constants where
  | own (values : List Quad)
  | lent (w : Window)
  deriving DecidableEq

namespace Constants

def length : Constants → Nat
  | own values => values.length
  | lent w => w.length

/-- The constants as they are at a moment. -/
def values (k : Constants) (m : Memory) : List Quad :=
  match k with
  | own values => values
  | lent w => (List.range w.length).map fun i => m.cell w.buffer (w.start + i)

end Constants

/-- What a caller binds for one call. -/
structure Arguments where
  inputs : List Window
  outputs : List Window
  constants : Constants
  /-- Places of the views in the memory; a set may be missing. -/
  sets : List (Option Nat)
  count : Int

/-- What a register stands for. Inputs and outputs that the caller did not give are unbound. -/
inductive Slot where
  | temporary (index : Nat)
  | bound (w : Window)
  | unbound
  deriving DecidableEq

namespace Slot

/-- The slot bound to a window, if there is one. -/
def rebind (s : Slot) : Option Window → Slot
  | some w => bound w
  | none => s

def ofWindow (w : Option Window) : Slot :=
  unbound.rebind w

end Slot

/-- What registers, constants and data sets stand for. -/
structure Frame where
  /-- The slots of all registers. -/
  table : Array Slot := #[]
  inputs : List Window := []
  outputs : List Window := []
  constants : Constants := .own []
  sets : List (Option Nat) := []

namespace Frame

/-- The number of registers. -/
def size : Nat := 192

/-- A table with the slot of each register made from the one it had. -/
def remake (table : Array Slot) (g : Nat → Slot → Slot) : Array Slot :=
  ((List.range size).map fun i => g i (table.getD i .unbound)).toArray

/-- Takes what the caller gives, and clears the slots of inputs and outputs. -/
def attach (f : Frame) (a : Arguments) : Frame :=
  { table := remake f.table fun i s => if i < RegisterGroup.input.first then s else .unbound
    inputs := a.inputs
    outputs := a.outputs
    constants := a.constants
    sets := a.sets }

/-- Lets go of all that the caller gave. -/
def detach (f : Frame) : Frame :=
  f.attach ⟨[], [], .own [], [], 0⟩

/-- Sets the slots of the temporaries and of the inputs and outputs that were given. -/
def bind (f : Frame) : Frame :=
  { f with table := remake f.table fun i s =>
      if i < RegisterGroup.input.first then .temporary i
      else if i < RegisterGroup.output.first then
        s.rebind f.inputs[i - RegisterGroup.input.first]?
      else s.rebind f.outputs[i - RegisterGroup.output.first]? }

/-- The slot of a register byte; bytes beyond the table have none. -/
def slot? (f : Frame) (b : UInt8) : Option Slot :=
  f.table[b.toNat]?

end Frame

namespace Arguments

/-- The frame of a call, bound on a machine that was never used. -/
def frame (a : Arguments) : Frame :=
  (Frame.attach {} a).bind

/-- What a register byte stands for in a call. -/
def slot? (a : Arguments) (b : UInt8) : Option Slot :=
  match splitRegister b with
  | none => none
  | some (.input, i) => some (.ofWindow a.inputs[i]?)
  | some (.output, i) => some (.ofWindow a.outputs[i]?)
  | some (_, i) => some (.temporary i)

end Arguments
end Quadlane
