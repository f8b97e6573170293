import Quadlane.Quad.Basic
import Quadlane.Random.Stream

/-! A lattice of random quads, blended linearly between its points. -/

namespace Quadlane

/-- Ten cells along each axis, `x` running fastest. -/
structure NoiseTable where
  cells : Array Quad

namespace NoiseTable

/-- A random lane in `[-1, 1)`. -/
def signedLane (s : Random.Stream) : Lane × Random.Stream :=
  let (a, s) := s.lane
  ((a.mul (Lane.ofInt 2)).sub Lane.one, s)

def randomCells : Nat → Random.Stream → List Quad
  | 0, _ => []
  | count + 1, s =>
    let (x, s) := signedLane s
    let (y, s) := signedLane s
    let (z, s) := signedLane s
    let (w, s) := signedLane s
    ⟨x, y, z, w⟩ :: randomCells count s

def ofSeed (seed : Int) : NoiseTable :=
  ⟨(randomCells 1000 (.ofSeed seed)).toArray⟩

/-- The table of machines that are given none. -/
def standard : NoiseTable :=
  ofSeed 0x5EED

def cell? (t : NoiseTable) (x y z : Int) : Option Quad :=
  let inside := fun (i : Int) => 0 ≤ i && i < 10
  if inside x && inside y && inside z then t.cells[(100 * z + 10 * y + x).toNat]? else none

/-- The cell at a lattice point; points of `sample` are within the table. -/
def cell (t : NoiseTable) (x y z : Nat) : Quad :=
  t.cells.getD (100 * z + 10 * y + x) Quad.zero

/-- A coordinate of the lattice: a tenth of the lane without its sign, modulo eight. -/
def coordinate (a : Lane) : Lane :=
  let c := (a.mul ⟨0x3DCCCCCD⟩).abs.fmod (Lane.ofInt 8)
  if c.isNaN then Lane.zero else c

/-- `a * alpha + b * (1 - alpha)` -/
def blend (a b : Quad) (alpha : Lane) : Quad :=
  a.mad (Quad.splat alpha) (b.mul (Quad.splat (Lane.one.sub alpha)))

/-- The trilinear blend of the eight lattice points around `p`. -/
def sample (t : NoiseTable) (p : Quad) : Quad :=
  let coords := p.map coordinate
  let x := coords.x.wholePart
  let y := coords.y.wholePart
  let z := coords.z.wholePart
  let frac := coords.sub coords.trunc
  let along := fun (y z : Nat) => blend (t.cell x y z) (t.cell (x + 1) y z) frac.x
  let near := blend (along y z) (along (y + 1) z) frac.y
  let far := blend (along y (z + 1)) (along (y + 1) (z + 1)) frac.y
  blend near far frac.z

end NoiseTable
end Quadlane
