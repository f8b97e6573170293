import Quadlane.Machine.Run
import Quadlane.Program.Constants

/-! A machine runs a code over any number of instances, chunk by chunk: the whole code for the
instances of a chunk, then the next chunk. -/

namespace Quadlane

/-- Where a machine is in its work. -/
inductive Phase where
  | notStarted
  | decoding
  | dispatching
  | done
  | aborted
  deriving DecidableEq

def Phase.all : List Phase := [notStarted, decoding, dispatching, done, aborted]

def Phase.name : Phase → Text
  | notStarted => Text.lit "NotStarted"
  | decoding => Text.lit "Decoding"
  | dispatching => Text.lit "Dispatching"
  | done => Text.lit "Done"
  | aborted => Text.lit "Aborted"

structure Machine where
  /-- Positive. -/
  chunkSize : Int
  noise : NoiseTable
  random : Random.Stream
  temporaries : Temporaries := {}
  phase : Phase := .notStarted
  /-- The registers, as the last call left them. -/
  frame : Frame := {}
  /-- Whether a fault becomes an error of the call. -/
  recovers : Bool := false

/-- Arguments that no code can be run with. -/
inductive ArgumentError where
  | negativeCount (count : Int)
  | tooManyInputs (count : Nat)
  | tooManyOutputs (count : Nat)
  | constants (e : TooManyConstants)
  | shortInput (index length : Nat) (count : Int)
  | shortOutput (index length : Nat) (count : Int)
  deriving DecidableEq

def ArgumentError.report : ArgumentError → Report
  | negativeCount n =>
    .ofCategory .invalidArgument [Text.lit "negative instance count", Text.integer n]
  | tooManyInputs n => .ofCategory .invalidArgument [Text.lit "too many inputs", Text.decimal n]
  | tooManyOutputs n => .ofCategory .invalidArgument [Text.lit "too many outputs", Text.decimal n]
  | constants e => e.report
  | shortInput i length n =>
    .ofCategory .invalidArgument [Text.lit "input", Text.decimal i, Text.lit "holds",
      Text.decimal length, Text.lit "of", Text.integer n, Text.lit "instances"]
  | shortOutput i length n =>
    .ofCategory .invalidArgument [Text.lit "output", Text.decimal i, Text.lit "holds",
      Text.decimal length, Text.lit "of", Text.integer n, Text.lit "instances"]

inductive ExecError where
  | arguments (e : ArgumentError)
  | run (e : RunError)
  /-- A fault, on a machine that recovers; it happened at the offset, or before the first
  instruction. -/
  | recovered (offset : Option Nat)
  deriving DecidableEq

def ExecError.report : ExecError → Report
  | arguments e => e.report
  | run e => e.report
  | recovered _ => { message := Text.lit "panic", categories := [.malformedProgram] }

/-- How a call ended. A fault that is not recovered leaves the program. -/
inductive Outcome where
  | ok
  | error (e : ExecError)
  /-- The offset is that of the instruction, if the fault is one of an instruction. -/
  | fault (offset : Option Nat)
  deriving DecidableEq

namespace Arguments

/-- The first window that does not hold all instances. -/
def short? (count : Int) (ws : List Window) : Option (Nat × Nat) :=
  (ws.zipIdx.find? fun (w, _) => w.length < count).map fun (w, i) => (i, w.length)

def check (a : Arguments) : Except ArgumentError Unit :=
  if a.count < 0 then .error (.negativeCount a.count)
  else if Limit.inputs < a.inputs.length then .error (.tooManyInputs a.inputs.length)
  else if Limit.outputs < a.outputs.length then .error (.tooManyOutputs a.outputs.length)
  else if Limit.constants < a.constants.length then
    .error (.constants ⟨a.constants.length⟩)
  else match short? a.count a.inputs with
    | some (i, length) => .error (.shortInput i length a.count)
    | none =>
      match short? a.count a.outputs with
      | some (i, length) => .error (.shortOutput i length a.count)
      | none => .ok ()

end Arguments

namespace Machine

def defaultChunkSize : Int := 128

/-- A machine; a chunk size that is not positive stands for the default one. -/
def new (chunkSize seed : Int) (noise : NoiseTable) : Machine :=
  { chunkSize := if chunkSize ≤ 0 then defaultChunkSize else chunkSize
    noise
    random := .ofSeed seed }

/-- The cells that all temporaries take together, in 64-bit arithmetic. -/
def scratchSize (m : Machine) : Int :=
  wrap (Limit.temporaries * m.chunkSize)

/-- Whether there can be so many cells. -/
def canExist (m : Machine) : Bool :=
  Buffer.canHold m.scratchSize

/-- Whether every temporary has a chunk of cells: the size of them all must not have wrapped. -/
def hasScratch (m : Machine) : Bool :=
  m.scratchSize == Limit.temporaries * m.chunkSize

/-- The number of chunks of a call, in 64-bit arithmetic. -/
def chunkCount (m : Machine) (count : Int) : Int :=
  (wrap (wrap (count + m.chunkSize) - 1)).tdiv m.chunkSize

/-- The instances of chunk number `k`. -/
def chunk (m : Machine) (count : Int) (k : Nat) : Chunk :=
  let first := wrap (k * m.chunkSize)
  { first := first.toNat, count := (min m.chunkSize (wrap (count - first))).toNat }

/-- The frame that the chunks of a call are run with. -/
def bound (m : Machine) (a : Arguments) : Frame :=
  (m.frame.attach a).bind

/-- The machine without what the caller gave. -/
def release (m : Machine) (a : Arguments) : Machine :=
  { m with frame := (m.bound a).detach }

/-- Runs chunk `k` and the `remaining` ones after it, until one does not end well. -/
def runChunks (m : Machine) (a : Arguments) (code : List UInt8) (k : Nat) (s : Store) :
    Nat → Store × Ending
  | 0 => (s, .done)
  | remaining + 1 =>
    match runFrom m.noise (m.bound a) (m.chunk a.count k) 0 s code with
    | (s, .done) => m.runChunks a code (k + 1) s remaining
    | (s, ending) => (s, ending)

/-- The machine and the memory after a call. -/
structure Result where
  machine : Machine
  memory : Memory
  outcome : Outcome

/-- The result of a fault in the given phase. -/
def faulted (m : Machine) (memory : Memory) (phase : Phase) (offset : Option Nat) : Result :=
  if m.recovers then ⟨{ m with phase := .aborted }, memory, .error (.recovered offset)⟩
  else ⟨{ m with phase }, memory, .fault offset⟩

/-- Runs a code once for every instance. -/
def exec (m : Machine) (code : List UInt8) (a : Arguments) (memory : Memory) : Result :=
  match a.check with
  | .error e => ⟨{ m with phase := .aborted }, memory, .error (.arguments e)⟩
  | .ok () =>
    let chunks := (m.chunkCount a.count).toNat
    if 0 < chunks && !m.hasScratch then (m.release a).faulted memory .notStarted none
    else
      let start : Store := { memory, temporaries := m.temporaries, random := m.random }
      let (s, ending) := m.runChunks a code 0 start chunks
      let m := { m.release a with temporaries := s.temporaries, random := s.random }
      match ending with
      | .done => ⟨{ m with phase := .done }, s.memory, .ok⟩
      | .error e => ⟨{ m with phase := .aborted }, s.memory, .error (.run e)⟩
      | .fault offset => m.faulted s.memory .dispatching (some offset)

end Machine
end Quadlane
