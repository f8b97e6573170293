/-! Emitters that share a data set belong together, directly or through others. The groups are found
with a forest of parents: each user of a data set is linked to the first one. Finding a root makes it
the parent of every emitter on the way there. -/

namespace Quadlane.Simulation

/-- The parent of each emitter; a root is its own parent. -/
abbrev Forest := List Nat

namespace Forest

def parent (f : Forest) (i : Nat) : Nat :=
  f.getD i i

/-- Follows parents for at most so many steps. The root that is reached becomes the parent of every
emitter on the way, the last one first. -/
def climb (f : Forest) : Nat → Nat → Nat × Forest
  | 0, i => (i, f)
  | steps + 1, i =>
    if f.parent i = i then (i, f)
    else
      let (r, g) := f.climb steps (f.parent i)
      (r, g.set i r)

/-- The root above an emitter; a path of parents visits no emitter twice. -/
def find (f : Forest) (i : Nat) : Nat × Forest :=
  f.climb f.length i

/-- Puts the root of `i` below the root of `j`. -/
def link (f : Forest) (i j : Nat) : Forest :=
  let (r, f) := f.find i
  let (s, f) := f.find j
  f.set r s

/-- The roots above emitters, found one after the other. -/
def roots (f : Forest) : List Nat → List Nat
  | [] => []
  | i :: rest =>
    let (r, f) := f.find i
    r :: f.roots rest

end Forest

/-- The forest together with the first user of each data set. -/
structure Linking where
  forest : Forest
  owners : List (Nat × Nat) := []

namespace Linking

/-- So many emitters, none of which uses a data set yet. -/
def start (count : Nat) : Linking :=
  { forest := List.range count }

/-- Notes that emitter `i` uses a data set. -/
def use (l : Linking) (i set : Nat) : Linking :=
  match l.owners.lookup set with
  | some j => { l with forest := l.forest.link i j }
  | none => { l with owners := (set, i) :: l.owners }

/-- All uses of data sets, emitter by emitter; `uses` lists the data sets of each. -/
def occurrences (uses : List (List Nat)) : List (Nat × Nat) :=
  uses.zipIdx.flatMap fun (sets, i) => sets.map fun set => (i, set)

/-- Notes uses in order. -/
def useAll (l : Linking) (occurrences : List (Nat × Nat)) : Linking :=
  occurrences.foldl (fun l (i, set) => l.use i set) l

def ofUses (uses : List (List Nat)) : Linking :=
  (start uses.length).useAll (occurrences uses)

end Linking

/-- The groups in the order of their roots, each in the order of the emitters. -/
def groups (uses : List (List Nat)) : List (List Nat) :=
  let all := List.range uses.length
  let roots := (Linking.ofUses uses).forest.roots all
  (all.map fun r => (all.zip roots).filterMap fun (i, s) => if s = r then some i else none).filter
    (!·.isEmpty)

end Quadlane.Simulation
