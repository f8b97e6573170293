import Quadlane.Machine.Frame
import Quadlane.Code.Opcode

/-! What an instruction does to a chunk of instances. Its operand bytes are looked up first, which can
fault; the action that remains runs instance by instance, in order. Only an action on a missing set
can still fault, at the first instance that looks at the set. -/

namespace Quadlane

inductive Source where
  | constant (q : Quad)
  | register (s : Slot)
  deriving DecidableEq

/-- The index a quad stands for: its first lane rounded toward zero, or -1 if that is not in
`(-1, 2 ^ 31)`. -/
def dataIndex (q : Quad) : Int :=
  if Lane.one.neg.lt q.x && q.x.lt (Lane.ofInt 0x80000000) then q.x.wholePart else -1

/-- Instructions that look at a set for some values only. -/
inductive Probe where
  | cursor
  | valid
  deriving DecidableEq

namespace Probe

/-- Whether the set is looked at for a value. -/
def looks (p : Probe) (q : Quad) : Bool :=
  match p with
  | cursor => q.x.isPositive
  | valid => 0 ≤ dataIndex q

/-- What is set where the set is not looked at. -/
def otherwise : Probe → Quad
  | cursor => Quad.splat (Lane.ofInt (-1))
  | valid => Quad.splat Lane.zero

end Probe

/-- An instruction whose operands are looked up. -/
inductive Action where
  | skip
  | kernel (k : Kernel) (dst : Slot) (sources : List Source)
  | cursor (c : Cursor) (view : Nat) (dst : Slot) (cond : Source)
  | read (view var : Nat) (dst : Slot) (index : Source)
  | write (view var : Nat) (index value : Source)
  | valid (view : Nat) (dst : Slot) (index : Source)
  /-- A cursor move or an index check on a set that is missing. -/
  | missing (p : Probe) (dst : Slot) (source : Source)

namespace Source

def isBound : Source → Bool
  | register .unbound => false
  | _ => true

end Source

namespace Frame

/-- Source `place` of an instruction with the given mask. A constant is the one of this moment. -/
def source? (f : Frame) (m : Memory) (mask : UInt8) (place : Nat) (b : UInt8) : Option Source :=
  match sourceKind mask place with
  | .constant => (f.constants.values m)[b.toNat]?.map .constant
  | .register => (f.slot? b).map .register

/-- The sources from `place` on. -/
def sources? (f : Frame) (m : Memory) (mask : UInt8) (place : Nat) :
    List UInt8 → Option (List Source)
  | [] => some []
  | b :: rest =>
    match f.source? m mask place b with
    | none => none
    | some s => (f.sources? m mask (place + 1) rest).map (s :: ·)

end Frame

/-- The next operand byte. Only called where the code is known to hold it. -/
def takeByte : List UInt8 → UInt8 × List UInt8
  | [] => (0, [])
  | b :: rest => (b, rest)

def takeBytes : Nat → List UInt8 → List UInt8 × List UInt8
  | 0, code => ([], code)
  | n + 1, code =>
    let (b, code) := takeByte code
    let (bs, code) := takeBytes n code
    (b :: bs, code)

namespace Frame

/-- An action with a destination does nothing if that is unbound; reading an unbound source is a
fault. -/
def guarded (dst : Slot) (sources : List Source) (usable : Bool) (a : Action) : Option Action :=
  if dst = .unbound then some .skip
  else if usable && sources.all Source.isBound then some a
  else none

/-- Whether a view has a variable with that number. -/
def hasVariable (m : Memory) (view var : Nat) : Bool :=
  match m.views[view]? with
  | none => false
  | some v => var < v.vars.size

/-- Takes the operands of a kernel from the code: mask, sources, destination. -/
def fetchKernel (f : Frame) (m : Memory) (k : Kernel) (code : List UInt8) :
    Option Action × List UInt8 :=
  let (mask, code) := takeByte code
  let (srcs, code) := takeBytes k.arity code
  let (d, code) := takeByte code
  let action := do
    let dst ← f.slot? d
    let sources ← f.sources? m mask 0 srcs
    guarded dst sources true (.kernel k dst sources)
  (action, code)

/-- The action on a set, or on a missing one. -/
def onSet (make : Nat → Slot → Source → Action) (p : Probe) (set : Option Nat) (dst : Slot)
    (source : Source) : Action :=
  match set with
  | some view => make view dst source
  | none => .missing p dst source

/-- Set, mask, one source, destination. -/
def fetchOnSet (f : Frame) (m : Memory) (make : Nat → Slot → Source → Action) (p : Probe)
    (code : List UInt8) : Option Action × List UInt8 :=
  let (set, code) := takeByte code
  let (mask, code) := takeByte code
  let (src, code) := takeByte code
  let (d, code) := takeByte code
  let action := do
    let set ← f.sets[set.toNat]?
    let dst ← f.slot? d
    let source ← f.source? m mask 0 src
    guarded dst [source] true (onSet make p set dst source)
  (action, code)

/-- Reading looks at the set for every instance, so that a missing one is a fault. -/
def readSet (m : Memory) (set : Option Nat) (var : Nat) (dst : Slot) (index : Source) :
    Option Action :=
  match set with
  | some view => guarded dst [index] (hasVariable m view var) (.read view var dst index)
  | none => guarded dst [index] false .skip

/-- Set, variable, mask, index, destination. -/
def fetchRead (f : Frame) (m : Memory) (code : List UInt8) : Option Action × List UInt8 :=
  let (set, code) := takeByte code
  let (var, code) := takeByte code
  let (mask, code) := takeByte code
  let (src, code) := takeByte code
  let (d, code) := takeByte code
  let action := do
    let set ← f.sets[set.toNat]?
    let dst ← f.slot? d
    let index ← f.source? m mask 0 src
    readSet m set var.toNat dst index
  (action, code)

/-- Set, variable, mask, index, value. -/
def fetchWrite (f : Frame) (m : Memory) (code : List UInt8) : Option Action × List UInt8 :=
  let (set, code) := takeByte code
  let (var, code) := takeByte code
  let (mask, code) := takeByte code
  let (i, code) := takeByte code
  let (v, code) := takeByte code
  let action := do
    let view ← f.sets[set.toNat]?.join
    let index ← f.source? m mask 0 i
    let value ← f.source? m mask 1 v
    if hasVariable m view var.toNat && index.isBound && value.isBound then
      some (.write view var.toNat index value)
    else none
  (action, code)

/-- Takes the operands of an instruction from the code after its opcode. The action is missing if
looking an operand up faults. -/
def fetch (f : Frame) (m : Memory) (op : Opcode) (code : List UInt8) :
    Option Action × List UInt8 :=
  match op with
  | .done => (some .skip, code)
  | .kernel k => f.fetchKernel m k code
  | .cursor c => f.fetchOnSet m (.cursor c) .cursor code
  | .dataRead => f.fetchRead m code
  | .dataWrite => f.fetchWrite m code
  | .indexValid => f.fetchOnSet m .valid .valid code

end Frame

/-- All that actions change. -/
structure Store where
  memory : Memory
  temporaries : Temporaries
  random : Random.Stream

/-- The part of the instances a chunk works on. -/
structure Chunk where
  first : Nat
  count : Nat

namespace Store

/-- The value of a source for instance `i` of the chunk. -/
def value (s : Store) (c : Chunk) (i : Nat) : Source → Quad
  | .constant q => q
  | .register (.temporary r) => s.temporaries.get r i
  | .register (.bound w) => s.memory.cell w.buffer (w.start + c.first + i)
  | .register .unbound => Quad.zero

/-- Sets a destination for instance `i` of the chunk. -/
def assign (s : Store) (c : Chunk) (i : Nat) (dst : Slot) (q : Quad) : Store :=
  match dst with
  | .temporary r => { s with temporaries := s.temporaries.set r i q }
  | .bound w => { s with memory := s.memory.setCell w.buffer (w.start + c.first + i) q }
  | .unbound => s

end Store

namespace Action

/-- What an action does for instance `i` of a chunk. -/
def onInstance (table : NoiseTable) (c : Chunk) (a : Action) (s : Store) (i : Nat) : Store :=
  match a with
  | skip => s
  | kernel k dst sources =>
    let (q, random) := k.apply table (sources.map (s.value c i)) s.random
    { s with random }.assign c i dst q
  | cursor move view dst cond =>
    if (s.value c i cond).x.isPositive then
      let (index, memory) := s.memory.moveCursor view move
      { s with memory }.assign c i dst (Quad.splat (Lane.ofInt index))
    else s.assign c i dst (Quad.splat (Lane.ofInt (-1)))
  | read view var dst index =>
    s.assign c i dst (s.memory.readRecord view var (dataIndex (s.value c i index)))
  | write view var index value =>
    let q := s.value c i value
    { s with memory := s.memory.writeRecord view var (dataIndex (s.value c i index)) q }
  | valid view dst index =>
    let inside := s.memory.isValidIndex view (dataIndex (s.value c i index))
    s.assign c i dst (Quad.splat (if inside then Lane.one else Lane.zero))
  | missing p dst _ => s.assign c i dst p.otherwise

/-- How many of the next instances, from `i` on, do not look at the missing set. -/
def reachFrom (c : Chunk) (p : Probe) (dst : Slot) (source : Source) (i : Nat) (s : Store) :
    Nat → Nat
  | 0 => 0
  | n + 1 =>
    if p.looks (s.value c i source) then 0
    else reachFrom c p dst source (i + 1) (s.assign c i dst p.otherwise) n + 1

/-- How many instances an action gets through. -/
def reach (c : Chunk) (a : Action) (s : Store) : Nat :=
  match a with
  | missing p dst source => reachFrom c p dst source 0 s c.count
  | _ => c.count

/-- Runs an action over the instances of a chunk, in order, as far as it gets. -/
def perform (table : NoiseTable) (c : Chunk) (a : Action) (s : Store) : Store :=
  (List.range (a.reach c s)).foldl (a.onInstance table c) s

end Action
end Quadlane
