import Quadlane.Noise
import Quadlane.Lane.Elementary

/-! Kernels compute one quad from one to four quads. All of them are functions of their sources but
`random`, which draws from the stream of the machine, and `noise`, which samples its table. Angles
are in turns. -/

namespace Quadlane
namespace Kernel

inductive Unary where
  | rcp | rsq | sqrt | neg | abs | exp | exp2 | log | log2
  | sin | cos | tan | asin | acos | atan
  | ceil | floor | frac | trunc | sign | step | normalize | length
  | splatx | splaty | splatz | splatw | easeinout | output
  deriving DecidableEq

inductive Binary where
  | add | sub | mul | div | atan2 | fmod | min | max | pow | dot | cross | lessthan
  deriving DecidableEq

inductive Ternary where
  | mad | lerp | clamp | select | easein
  deriving DecidableEq

inductive Quaternary where
  | compose | composex | composey | composez | composew
  deriving DecidableEq

/-- One turn in radians. -/
def turn : Float := Float.ofBits 0x401921FB54442D18

def one : Quad := Quad.splat Lane.one

/-- A number of the kernels' formulas, by the bits of the nearest lane. -/
def constant (bits : UInt32) : Quad := Quad.splat ⟨bits⟩

def inverseRoot (x : Float) : Float :=
  1 / x.sqrt

/-- Between zero and one; what does not compare becomes one. -/
def saturate (a : Quad) : Quad :=
  (a.min one).max Quad.zero

/-- One in each lane with `a < b`, zero in the others. The difference is scaled twice, so that even
the least difference exceeds one. -/
def lessThan (a b : Quad) : Quad :=
  let big := constant 0x7F7FC99E
  let scaled := ((b.sub a).mul big).mul big
  saturate (scaled.map fun t => if t.isNaN then Lane.zero else t)

/-- `6 t ^ 5 - 15 t ^ 4 + 10 t ^ 3` at the position of `x` between `a` and `b`. -/
def easeIn (a b x : Quad) : Quad :=
  let t := saturate ((x.sub a).div (b.sub a))
  let cube := (t.mul t).mul t
  let p := (t.mul (constant 0x40C00000)).sub (constant 0x41700000)
  cube.mul ((t.mul p).add (constant 0x41200000))

/-- Rises from zero to one at a half and falls back to zero at one. -/
def easeInOut (a : Quad) : Quad :=
  let t := (a.mul (constant 0x40000000)).sub one
  let square := t.mul t
  let r := (square.mul (constant 0x3F75DCC6)).sub (constant 0x3FFAE148)
  (r.mul square).add one

def select (mask a b : Quad) : Quad :=
  let pick := fun (m a b : Lane) => if m.isPositive then a else b
  ⟨pick mask.x a.x b.x, pick mask.y a.y b.y, pick mask.z a.z b.z, pick mask.w a.w b.w⟩

def cross (a b : Quad) : Quad :=
  ⟨(a.y.mul b.z).sub (a.z.mul b.y), (a.z.mul b.x).sub (a.x.mul b.z),
    (a.x.mul b.y).sub (a.y.mul b.x), Lane.zero⟩

def Unary.eval (op : Unary) (a : Quad) : Quad :=
  match op with
  | rcp => one.div a
  | rsq => a.map (Lane.wide inverseRoot)
  | sqrt => a.map (Lane.wide Float.sqrt)
  | neg => a.map Lane.neg
  | abs => a.map Lane.abs
  | exp => a.map (Lane.wide Float.exp)
  | exp2 => a.map (Lane.wide Float.exp2)
  | log => a.map (Lane.wide Elementary.log)
  | log2 => a.map (Lane.wide Elementary.logTwo)
  | sin => a.map (Lane.wide fun x => (x * turn).sin)
  | cos => a.map (Lane.wide fun x => (x * turn).cos)
  | tan => a.map (Lane.wide fun x => (x * turn).tan)
  | asin => a.map (Lane.wide fun x => x.asin / turn)
  | acos => a.map (Lane.wide fun x => Elementary.acos x / turn)
  | atan => a.map (Lane.wide fun x => x.atan / turn)
  | ceil => a.map Lane.ceil
  | floor => a.map Lane.floor
  | frac => a.sub a.trunc
  | trunc => a.trunc
  | sign => a.map fun x => if Lane.zero.le x then Lane.one else Lane.one.neg
  | step => a.map fun x => if Lane.zero.le x then Lane.one else Lane.zero
  | normalize => a.mul (Quad.splat (Lane.wide inverseRoot (a.dot a)))
  | length => Quad.splat (Lane.wide Float.sqrt (a.dot a))
  | splatx => Quad.splat a.x
  | splaty => Quad.splat a.y
  | splatz => Quad.splat a.z
  | splatw => Quad.splat a.w
  | easeinout => easeInOut a
  | output => a

def Binary.eval (op : Binary) (a b : Quad) : Quad :=
  match op with
  | add => a.add b
  | sub => a.sub b
  | mul => a.mul b
  | div => a.div b
  | atan2 => Quad.zip (Lane.wide₂ fun y x => Float.atan2 y x / turn) a b
  | fmod => Quad.zip Lane.fmod a b
  | min => a.min b
  | max => a.max b
  | pow => Quad.zip (Lane.wide₂ Elementary.pow) a b
  | dot => Quad.splat (a.dot b)
  | cross => Kernel.cross a b
  | lessthan => lessThan a b

def Ternary.eval (op : Ternary) (a b c : Quad) : Quad :=
  match op with
  | mad => a.mad b c
  | lerp => b.mad c (a.mul (one.sub c))
  | clamp => (a.max b).min c
  | select => Kernel.select a b c
  | easein => easeIn a b c

def Quaternary.eval (op : Quaternary) (a b c d : Quad) : Quad :=
  match op with
  | compose => ⟨a.x, b.y, c.z, d.w⟩
  | composex => ⟨a.x, b.x, c.x, d.x⟩
  | composey => ⟨a.y, b.y, c.y, d.y⟩
  | composez => ⟨a.z, b.z, c.z, d.z⟩
  | composew => ⟨a.w, b.w, c.w, d.w⟩

end Kernel

inductive Kernel where
  | unary (op : Kernel.Unary)
  | random
  | noise
  | binary (op : Kernel.Binary)
  | ternary (op : Kernel.Ternary)
  | quaternary (op : Kernel.Quaternary)
  deriving DecidableEq

namespace Kernel

def arity : Kernel → Nat
  | unary _ | random | noise => 1
  | binary _ => 2
  | ternary _ => 3
  | quaternary _ => 4

/-- Four draws, lane by lane. -/
def randomQuad (s : Random.Stream) : Quad × Random.Stream :=
  let (x, s) := s.lane
  let (y, s) := s.lane
  let (z, s) := s.lane
  let (w, s) := s.lane
  (⟨x, y, z, w⟩, s)

/-- Applies a kernel to as many sources as its arity. -/
def apply (table : NoiseTable) (k : Kernel) (sources : List Quad) (s : Random.Stream) :
    Quad × Random.Stream :=
  match k, sources with
  | unary op, [a] => (op.eval a, s)
  | random, [a] =>
    let (r, s) := randomQuad s
    (a.mul r, s)
  | noise, [a] => (table.sample a, s)
  | binary op, [a, b] => (op.eval a b, s)
  | ternary op, [a, b, c] => (op.eval a b c, s)
  | quaternary op, [a, b, c, d] => (op.eval a b c d, s)
  | _, _ => (Quad.zero, s)

end Kernel
end Quadlane
