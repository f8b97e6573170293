import Quadlane.Random.Initial
import Quadlane.Lane.Wide

/-! The random stream of a machine: the additive lagged Fibonacci generator
`x n = x (n - 607) + x (n - 273)` on 64-bit words, seeded through a linear congruential generator
modulo `2 ^ 31 - 1`. A stream is a value; drawing returns the drawn number and the stream after it. -/

namespace Quadlane.Random

/-- The last 607 words, as a ring in which `tap` and `feed` walk downwards. -/
structure Stream where
  words : Array UInt64
  tap : Nat
  feed : Nat

def modulus : Nat := 0x7FFFFFFF

/-- One step of the seeding generator. -/
def scramble (x : Nat) : Nat :=
  48271 * x % modulus

/-- The start of the seeding generator; it must not be zero. -/
def seedState (seed : Int) : Nat :=
  let s := (seed % modulus).toNat
  if s = 0 then 89482311 else s

/-- Three successive steps give one word of the state. -/
def seedWord (x : Nat) : Nat × UInt64 :=
  let a := scramble x
  let b := scramble a
  let c := scramble b
  (c, (a.toUInt64 <<< 40) ^^^ (b.toUInt64 <<< 20) ^^^ c.toUInt64)

/-- Mixes the seed into each of the given words. -/
def seedWords (x : Nat) : List UInt64 → List UInt64
  | [] => []
  | w :: ws =>
    let (y, u) := seedWord x
    (u ^^^ w) :: seedWords y ws

def Stream.ofSeed (seed : Int) : Stream :=
  { words := (seedWords (Nat.repeat scramble 20 (seedState seed)) initialWords.toList).toArray
    tap := 0
    feed := 334 }

/-- One step down the ring. -/
def before (i : Nat) : Nat :=
  if i = 0 then 606 else i - 1

/-- The next word. -/
def Stream.next (s : Stream) : UInt64 × Stream :=
  let tap := before s.tap
  let feed := before s.feed
  let x := s.words.getD feed 0 + s.words.getD tap 0
  (x, { words := s.words.setIfInBounds feed x, tap, feed })

/-- A word as a lane in `[0, 1]`: its low 63 bits over `2 ^ 63`, rounded to double precision and
then to a lane. -/
def unitLane (x : UInt64) : Lane :=
  Lane.ofDouble false (Format.double.round (x.toNat % 0x8000000000000000) (-63))

/-- Draws until the lane is not one. Words that give one are within `2 ^ 39` of the upper end, and
sums of such words move away from it, so a run of them is far shorter than `fuel`. -/
def Stream.drawBelowOne (s : Stream) : Nat → Lane × Stream
  | 0 => (Lane.zero, s)
  | fuel + 1 =>
    let (x, s) := s.next
    let a := unitLane x
    if a = Lane.one then s.drawBelowOne fuel else (a, s)

/-- A lane in `[0, 1)`. -/
def Stream.lane (s : Stream) : Lane × Stream :=
  s.drawBelowOne 65536

end Quadlane.Random
