import Quadlane.Proofs.Decoding
import Quadlane.Proofs.Frames

/-! The plain meaning of kernel code: one instance at a time, with a register file of its own. A
register file holds the temporaries of the instance and its cell of every bound buffer; registers
that are bound to one buffer share the cell. Each instruction reads its sources and sets its
destination, in the order of the code. -/

namespace Quadlane

/-- Where the first cell of a window is. Windows that start there show the same cells. -/
def Window.home (w : Window) : BufferId × Nat :=
  (w.buffer, w.start)

def Random.Stream.skipQuads (s : Random.Stream) : Nat → Random.Stream
  | 0 => s
  | n + 1 => (Kernel.randomQuad (s.skipQuads n)).2

structure Registers where
  temporaries : Nat → Quad
  cells : BufferId × Nat → Quad

namespace Registers

def start (m : Memory) (temporaries : Nat → Quad) (i : Nat) : Registers :=
  { temporaries, cells := fun (b, first) => m.cell b (first + i) }

def get (r : Registers) : Slot → Quad
  | .temporary t => r.temporaries t
  | .bound w => r.cells w.home
  | .unbound => Quad.zero

def set (r : Registers) (q : Quad) : Slot → Registers
  | .temporary t => { r with temporaries := fun u => if u = t then q else r.temporaries u }
  | .bound w => { r with cells := fun home => if home = w.home then q else r.cells home }
  | .unbound => r

/-- Source `j` of an instruction: a constant if bit `j` of the mask is set, else a register. -/
def source (f : Frame) (constants : List Quad) (mask : UInt8) (r : Registers) (j : Nat)
    (b : UInt8) : Quad :=
  if mask.toNat.testBit j then constants.getD b.toNat Quad.zero
  else ((f.slot? b).map r.get).getD Quad.zero

def step (table : NoiseTable) (f : Frame) (constants : List Quad) (random : Random.Stream)
    (r : Registers) (ins : Instruction) : Registers :=
  match ins.op, f.slot? ins.destination with
  | .kernel k, some dst =>
    r.set (k.apply table (ins.sources.mapIdx (source f constants ins.mask r)) random).1 dst
  | _, _ => r

def run (table : NoiseTable) (f : Frame) (constants : List Quad) (random : Random.Stream)
    (body : List Instruction) (r : Registers) : Registers :=
  body.foldl (step table f constants random) r

theorem run_congr {f f' : Frame} (h : f.slot? = f'.slot?) (table : NoiseTable)
    (constants : List Quad) (random : Random.Stream) (body : List Instruction) (r : Registers) :
    run table f constants random body r = run table f' constants random body r := by
  have hstep : step table f constants random = step table f' constants random := by
    funext r ins
    have hsource : source f constants = source f' constants := by
      funext mask r j b
      simp only [source, h]
    simp only [step, hsource, h]
  rw [run, run, hstep]

end Registers

/-- Every temporary that is read as a register source is the destination of an earlier instruction;
`written` lists the destinations so far. -/
def TemporariesDefined (written : List UInt8) : List Instruction → Prop
  | [] => True
  | ins :: rest =>
    (∀ j b, ins.sources[j]? = some b → ins.mask.toNat.testBit j = false → b < 64 →
      b ∈ written) ∧ TemporariesDefined (ins.destination :: written) rest

theorem sourceKind_eq_constant_iff (mask : UInt8) (j : Nat) :
    sourceKind mask j = .constant ↔ mask.toNat.testBit j = true := by
  unfold sourceKind
  split <;> simp_all

theorem sourceKind_eq_register_iff (mask : UInt8) (j : Nat) :
    sourceKind mask j = .register ↔ mask.toNat.testBit j = false := by
  unfold sourceKind
  split <;> simp_all

namespace Arguments

def Held (a : Arguments) (m : Memory) : Prop :=
  ∀ w ∈ a.windows, w.start + w.length ≤ m.bufferSize w.buffer

def WindowsApart (a : Arguments) : Prop :=
  ∀ w ∈ a.windows, ∀ w' ∈ a.windows, w.home = w'.home ∨ w.buffer ≠ w'.buffer ∨
    w.start + w.length ≤ w'.start ∨ w'.start + w'.length ≤ w.start

def ConstantsApart (a : Arguments) : Prop :=
  ∀ k, a.constants = .lent k → ∀ w ∈ a.windows, w.buffer ≠ k.buffer ∨
    w.start + w.length ≤ k.start ∨ k.start + k.length ≤ w.start

/-- Cells are shared only between registers that show the same cells. -/
structure Apart (a : Arguments) : Prop where
  windows : a.WindowsApart
  constants : a.ConstantsApart

end Arguments
end Quadlane
