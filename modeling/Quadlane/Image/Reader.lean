import Quadlane.Image.Item

/-! Reading data items. Arrays, maps and tags may be nested 32 deep, where the first tag of a run of
tags does not count, and a container may hold 131072 elements or pairs. -/

namespace Quadlane.Image

def maxDepth : Nat := 32
def maxElements : Nat := 131072

/-- What the first byte of an item says, with its argument; `indefinite` stands for a length that is
given by a break. -/
structure Head where
  major : Nat
  info : Nat
  argument : Nat

def Head.indefinite (h : Head) : Bool :=
  h.info = 31

def ofBigEndian (bs : List UInt8) : Nat :=
  bs.foldl (fun n b => 256 * n + b.toNat) 0

/-- An argument of so many bytes. -/
def readArgument (major info count : Nat) (s : List UInt8) : Option (Head × List UInt8) :=
  let bs := s.take count
  if bs.length < count then none else some (⟨major, info, ofBigEndian bs⟩, s.drop count)

def readHead : List UInt8 → Option (Head × List UInt8)
  | [] => none
  | b :: rest =>
    let major := b.toNat / 32
    let info := b.toNat % 32
    if info < 24 then some (⟨major, info, info⟩, rest)
    else if info = 24 then
      match readArgument major info 1 rest with
      | some (h, rest) => if major = 7 && h.argument < 32 then none else some (h, rest)
      | none => none
    else if info = 25 then readArgument major info 2 rest
    else if info = 26 then readArgument major info 4 rest
    else if info = 27 then readArgument major info 8 rest
    else if info = 31 && 2 ≤ major && major ≤ 5 then some (⟨major, info, 0⟩, rest)
    else none

/-- The code that ends an item of indefinite length. -/
def breakCode : UInt8 := 0xFF

/-- So many bytes, if there are as many. -/
def readContent (count : Nat) (s : List UInt8) : Option (List UInt8 × List UInt8) :=
  let bs := s.take count
  if bs.length < count then none else some (bs, s.drop count)

/-- The chunks of a string of indefinite length: strings of the same type with definite lengths. -/
def readChunks (major : Nat) : Nat → List Text → List UInt8 → Option (List Text × List UInt8)
  | 0, _, _ => none
  | fuel + 1, chunks, s =>
    if s.head? = some breakCode then some (chunks.reverse, s.drop 1)
    else match readHead s with
      | none => none
      | some (h, rest) =>
        if h.major ≠ major || h.indefinite then none
        else match readContent h.argument rest with
          | none => none
          | some (content, rest) => readChunks major fuel (content :: chunks) rest

/-- Joins a flat list of keys and values. -/
def pairUp : List Item → Option (List (Item × Item))
  | [] => some []
  | [_] => none
  | k :: v :: rest => (pairUp rest).map ((k, v) :: ·)

def startsWithTag : List UInt8 → Bool
  | [] => false
  | b :: _ => b.toNat / 32 = 6

/-- Items without parts. -/
def readPrimitive (h : Head) : Item :=
  if h.info = 25 then .half h.argument
  else if h.info = 26 then .single h.argument
  else if h.info = 27 then .double h.argument
  else .simple h.argument

mutual

/-- Reads an item and returns the rest. `depth` containers may still be opened. -/
def readItem : Nat → Nat → List UInt8 → Option (Item × List UInt8)
  | 0, _, _ => none
  | fuel + 1, depth, s =>
    match readHead s with
    | none => none
    | some (h, rest) =>
      match h.major with
      | 0 => some (.unsigned h.argument, rest)
      | 1 => some (.negative h.argument, rest)
      | 2 =>
        if h.indefinite then
          (readChunks 2 fuel [] rest).map fun (chunks, rest) => (.bytes chunks.flatten, rest)
        else (readContent h.argument rest).map fun (content, rest) => (.bytes content, rest)
      | 3 =>
        if h.indefinite then
          (readChunks 3 fuel [] rest).map fun (chunks, rest) => (.text chunks, rest)
        else (readContent h.argument rest).map fun (content, rest) => (.text [content], rest)
      | 4 =>
        match depth with
        | 0 => none
        | depth + 1 =>
          (readContainer fuel depth h 1 rest).map fun (items, rest) => (.array items, rest)
      | 5 =>
        match depth with
        | 0 => none
        | depth + 1 =>
          match readContainer fuel depth h 2 rest with
          | none => none
          | some (items, rest) => (pairUp items).map fun entries => (.map entries, rest)
      | 6 =>
        if startsWithTag rest then
          match depth with
          | 0 => none
          | depth + 1 =>
            (readItem fuel depth rest).map fun (content, rest) => (.tag h.argument content, rest)
        else (readItem fuel depth rest).map fun (content, rest) => (.tag h.argument content, rest)
      | _ => some (readPrimitive h, rest)

/-- The items of a container, `arity` of them for each element. -/
def readContainer : Nat → Nat → Head → Nat → List UInt8 → Option (List Item × List UInt8)
  | 0, _, _, _, _ => none
  | fuel + 1, depth, h, arity, s =>
    if h.indefinite then readUntilBreak fuel depth (arity * maxElements) [] s
    else if maxElements < h.argument then none
    else readItems fuel depth (arity * h.argument) [] s

/-- So many items; `done` holds those read, in reverse. -/
def readItems : Nat → Nat → Nat → List Item → List UInt8 → Option (List Item × List UInt8)
  | 0, _, _, _, _ => none
  | _ + 1, _, 0, done, s => some (done.reverse, s)
  | fuel + 1, depth, count + 1, done, s =>
    match readItem fuel depth s with
    | none => none
    | some (i, rest) => readItems fuel depth count (i :: done) rest

/-- Items up to a break; at most `room` of them. -/
def readUntilBreak : Nat → Nat → Nat → List Item → List UInt8 → Option (List Item × List UInt8)
  | 0, _, _, _, _ => none
  | fuel + 1, depth, room, done, s =>
    if s.head? = some breakCode then some (done.reverse, s.drop 1)
    else match room with
      | 0 => none
      | room + 1 =>
        match readItem fuel depth s with
        | none => none
        | some (i, rest) => readUntilBreak fuel depth room (i :: done) rest

end

/-- Reads a text that is one item and nothing else. Every item takes a byte, and a level of nesting
takes three steps, so the fuel never runs out. -/
def parseItem (s : List UInt8) : Option Item :=
  match readItem (4 * s.length + 4) maxDepth s with
  | some (i, []) => some i
  | _ => none

end Quadlane.Image
