import Quadlane.Toml.Basic

/-! The tree a document describes. A statement may not define anything twice, but a table that was
only implied, by a longer header or a dotted key, may still be opened once. What is implied and what
is an array is kept by name: all elements of an array of tables have the same names. Every statement
is one way down from the root, along the tables it names, and back. -/

namespace Quadlane.Toml

inductive Node where
  | scalar (s : Scalar)
  | array (items : List Node)
  | table (entries : List (Text × Node))
  /-- An array of tables; the last one is open. The others are in reverse. -/
  | tableArray (earlier : List (List (Text × Node))) (last : List (Text × Node))

abbrev Table := List (Text × Node)

/-- Adds or replaces an entry. -/
def Table.put (t : Table) (name : Text) (n : Node) : Table :=
  if t.any (·.1 = name) then t.map fun e => if e.1 = name then (name, n) else e
  else t ++ [(name, n)]

/-- Adds an entry below a path of tables; none of them may be something else. -/
def Table.insert? (t : Table) (name : Text) (n : Node) : Key → Option Table
  | [] => some (t.put name n)
  | p :: rest =>
    match t.lookup p with
    | none => (Table.insert? [] name n rest).map fun inner => t.put p (.table inner)
    | some (.table inner) => (Table.insert? inner name n rest).map fun inner => t.put p (.table inner)
    | some _ => none

/-- What is kept about a name and about the names below it. -/
inductive Marks where
  | node (implied isArray : Bool) (below : List (Text × Marks))

namespace Marks

def blank : Marks := node false false []

def implied : Marks → Bool
  | node implied _ _ => implied

def isArray : Marks → Bool
  | node _ isArray _ => isArray

def setImplied (b : Bool) : Marks → Marks
  | node _ isArray below => node b isArray below

def setArray (b : Bool) : Marks → Marks
  | node implied _ below => node implied b below

def isBlank : Marks → Bool
  | node implied isArray below => !implied && !isArray && below.isEmpty

/-- The marks of a name below. -/
def child (name : Text) : Marks → Marks
  | node _ _ below => (below.lookup name).getD blank

/-- Sets the marks of a name below; names without marks are left out. -/
def setChild (name : Text) (m : Marks) : Marks → Marks
  | node implied isArray below =>
    let others := if below.any (·.1 = name) then below.filter (·.1 ≠ name) else below
    node implied isArray (if m.isBlank then others else (name, m) :: others)

end Marks

/-- A table that is open, and the marks of its name and of those in it. -/
structure Scope where
  entries : Table := []
  marks : Marks := .blank

namespace Scope

/-- Changes the marks of a name in the table. -/
def mark (s : Scope) (name : Text) (f : Marks → Marks) : Scope :=
  { s with marks := s.marks.setChild name (f (s.marks.child name)) }

def imply (s : Scope) (name : Text) : Scope :=
  s.mark name (.setImplied true)

/-- Marks an entry as an array or as something else. The mark of an entry with the empty name goes to
the table itself, except at the root, whose `context` is empty. -/
def setKind (s : Scope) (context : Key) (name : Text) (isArray : Bool) : Scope :=
  if name.isEmpty && !context.isEmpty then { s with marks := s.marks.setArray isArray }
  else s.mark name (.setArray isArray)

/-- Defines a name. An implied table stays as it is, an implied array is replaced; anything else that
exists is defined twice. -/
def define (s : Scope) (name : Text) (n : Node) : Option Scope :=
  let m := s.marks.child name
  if !s.entries.any (·.1 = name) then some { s with entries := s.entries ++ [(name, n)] }
  else if !m.implied then none
  else
    let entries := if m.isArray then s.entries.put name n else s.entries
    some ({ s with entries }.mark name (.setImplied false))

/-- The table that is open under a name. -/
def enter? (s : Scope) (name : Text) : Option Scope :=
  match s.entries.lookup name with
  | some (.table entries) => some { entries, marks := s.marks.child name }
  | some (.tableArray _ last) => some { entries := last, marks := s.marks.child name }
  | _ => none

/-- Puts the table that is open under a name back into its place. -/
def leave (s : Scope) (name : Text) (inner : Scope) : Scope :=
  let n := match s.entries.lookup name with
    | some (.tableArray earlier _) => .tableArray earlier inner.entries
    | _ => .table inner.entries
  { entries := s.entries.put name n, marks := s.marks.setChild name inner.marks }

/-- Goes down a path; `step` prepares each name before it is entered, `act` is done at the end. -/
def within {α : Type} (step : Scope → Text → Option Scope) (act : Scope → Option (α × Scope))
    (s : Scope) : Key → Option (α × Scope)
  | [] => act s
  | name :: rest => do
    let s ← step s name
    let inner ← s.enter? name
    let (a, inner) ← inner.within step act rest
    some (a, s.leave name inner)

/-- Makes sure that there is something under a name; what is missing becomes an implied table. -/
def ensure (s : Scope) (name : Text) : Option Scope :=
  if s.entries.any (·.1 = name) then some s
  else some ({ s with entries := s.entries ++ [(name, Node.table [])] }.imply name)

/-- Opens a table. -/
def openTable (s : Scope) (name : Text) : Option Scope :=
  s.define name (.table [])

/-- Opens a new element of an array of tables. -/
def openElement (s : Scope) (name : Text) : Option Scope :=
  match s.entries.lookup name with
  | none => some { s with entries := s.entries.put name (.tableArray [] []) }
  | some (.tableArray earlier last) =>
    some { s with entries := s.entries.put name (.tableArray (last :: earlier) []) }
  | some _ => none

/-- Opens a table that a dotted key goes through. -/
def openDotted (s : Scope) (name : Text) : Option Scope :=
  (s.imply name).openTable name

end Scope

def Value.isArray : Value → Bool
  | .array _ => true
  | _ => false

/-- Gives a name a value, in the table at `place`; `build` makes the node. -/
def Scope.assign (place : Key) (name : Text) (isArray : Bool)
    (build : Scope → List Key → Option (Node × Scope × List Key)) (keys : List Key) (s : Scope) :
    Option ((Node × List Key) × Scope) := do
  let (n, s, keys) ← build s ((place ++ [name]) :: keys)
  let s ← s.define name n
  some ((n, keys), s.setKind place name isArray)

mutual

/-- The node of a value for the given name. The entries of inline tables are keys of their own; `keys`
are those so far, the latest first. -/
def Value.build (context : Key) (name : Text) (inArray : Bool) (s : Scope) (keys : List Key) :
    Value → Option (Node × Scope × List Key)
  | .scalar v => some (.scalar v, s, keys)
  | .array items => do
    let (nodes, s, keys) ← buildItems context name (s.setKind context name true) keys items
    some (.array nodes, s, keys)
  | .inlineTable pairs => do
    let s := s.imply name
    let s ← if inArray then s.openElement name else s.openTable name
    let inner ← s.enter? name
    let (entries, inner, keys) ← buildPairs (context ++ [name]) [] inner keys pairs
    some (.table entries, s.leave name inner, keys)

def buildItems (context : Key) (name : Text) (s : Scope) (keys : List Key) :
    List Value → Option (List Node × Scope × List Key)
  | [] => some ([], s, keys)
  | v :: rest => do
    let (n, s, keys) ← v.build context name true s keys
    let (more, s, keys) ← buildItems context name s keys rest
    some (n :: more, s, keys)

def buildPairs (context : Key) (entries : Table) (s : Scope) (keys : List Key) :
    List (Key × Value) → Option (Table × Scope × List Key)
  | [] => some (entries, s, keys)
  | (k, v) :: rest => do
    let name := k.getLast?.getD []
    let place := context ++ k.dropLast
    let build := fun s keys => v.build place name false s keys
    let ((n, keys), s) ←
      s.within Scope.openDotted (Scope.assign place name v.isArray build keys) k.dropLast
    let entries ← entries.insert? name n k.dropLast
    buildPairs context entries s keys rest

end

/-- What a document says: its tree, and its keys and headers in order. -/
structure Document where
  root : Table
  keys : List Key

/-- Carries out a header: `opening` is done under its last part. -/
def header (root : Scope) (k : Key) (opening : Scope → Text → Option Scope) : Option Scope := do
  let name := k.getLast?.getD []
  let act := fun s => (opening s name).map fun s => ((), s.mark name (.setArray false))
  let (_, root) ← root.within Scope.ensure act k.dropLast
  some root

/-- Carries out statements; `context` is the table that is open. -/
def run (context : Key) (root : Scope) (keys : List Key) : List Statement → Option Document
  | [] => some { root := root.entries, keys := keys.reverse }
  | .table k :: rest => do
    let root ← header root k Scope.openTable
    run k root (k :: keys) rest
  | .tableArray k :: rest => do
    let root ← header root k Scope.openElement
    run k root (k :: keys) rest
  | .assign k v :: rest => do
    let name := k.getLast?.getD []
    let place := context ++ k.dropLast
    let act := Scope.assign place name v.isArray (v.build place name false) keys
    let ((_, keys), root) ← root.within (fun s _ => some s)
      (fun s => s.within Scope.openDotted act k.dropLast) context
    run context root keys rest

/-- The document of a list of statements, if nothing is defined twice. -/
def Document.ofStatements? (l : List Statement) : Option Document :=
  run [] {} [] l

end Quadlane.Toml
