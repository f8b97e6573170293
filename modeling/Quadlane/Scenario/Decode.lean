import Quadlane.Scenario.Basic
import Quadlane.Text.Rune
import Quadlane.Toml.Reader
import Quadlane.Toml.Tree
import Std.Data.HashSet

/-! Scenarios in TOML documents. A key denotes the field of that name, or else the one whose name
differs in case only. Decoding also returns the keys it has used; all others are unknown. -/

namespace Quadlane.Scenario

open Toml (Key Node)

/-- A decoded value, with the keys used for it. -/
abbrev Decoded (α : Type) := Option (α × List Key)

/-- A field of a table: its name, and how its value changes what is being decoded. -/
structure Field (α : Type) where
  name : Text
  set : α → Key → Node → Decoded α

def field? {α : Type} (fields : List (Field α)) (key : Text) : Option (Field α) :=
  match fields.find? (·.name = key) with
  | some f => some f
  | none => fields.find? fun f => key.foldsTo f.name

/-- Decodes the entries of a table one by one. -/
def decodeEntries {α : Type} (fields : List (Field α)) (context : Key) (a : α) (used : List Key) :
    Toml.Table → Decoded α
  | [] => some (a, used)
  | (name, n) :: rest =>
    match field? fields name with
    | none => decodeEntries fields context a used rest
    | some f =>
      let key := context ++ [name]
      match f.set a key n with
      | none => none
      | some (a, more) => decodeEntries fields context a (key :: more ++ used) rest

def decodeTable {α : Type} (fields : List (Field α)) (start : α) (context : Key) :
    Node → Decoded α
  | .table entries => decodeEntries fields context start [] entries
  | _ => none

def integerField {α : Type} (name : String) (set : α → Int → α) : Field α :=
  ⟨Text.lit name, fun a _ n =>
    match n with
    | .scalar (.integer i) => some (set a i, [])
    | _ => none⟩

def text? : Node → Option Text
  | .scalar (.text t) => some t
  | _ => none

def textField {α : Type} (name : String) (set : α → Text → α) : Field α :=
  ⟨Text.lit name, fun a _ n => (text? n).map fun t => (set a t, [])⟩

/-- The elements of an array of either kind. -/
def elements? : Node → Option (List Node)
  | .array items => some items
  | .tableArray earlier last => some ((last :: earlier).reverse.map .table)
  | _ => none

def textsField {α : Type} (name : String) (set : α → List Text → α) : Field α :=
  ⟨Text.lit name, fun a _ n =>
    ((elements? n).bind (·.mapM text?)).map fun l => (set a l, [])⟩

def tablesField {α β : Type} (name : String) (fields : List (Field β)) (start : β)
    (set : α → List β → α) : Field α :=
  ⟨Text.lit name, fun a key n =>
    ((elements? n).bind (·.mapM (decodeTable fields start key))).map fun l =>
      (set a (l.map (·.1)), l.flatMap (·.2))⟩

/-- The largest lane, as a magnitude in double precision. -/
def largestLane : Nat := 0x47EFFFFFE0000000

/-- A lane: an integer that lanes hold exactly, or a float rounded to double precision first. -/
def lane? : Node → Option Lane
  | .scalar (.integer i) => if i.natAbs < 0x1000000 then some (Lane.ofInt i) else none
  | .scalar (.float .nan) => some Lane.nan
  | .scalar (.float (.finite negative digits twos tens)) =>
    let m := Numeral.magnitude .double digits twos tens
    if m ≤ largestLane then some (Lane.ofDouble negative m) else none
  | _ => none

def lanes? (n : Node) : Option (List Lane) :=
  (elements? n).bind (·.mapM lane?)

/-- Entries with names of their own; anything but a table stands for none. -/
def entriesField {α β : Type} (name : String) (value? : Node → Option β)
    (set : α → List (Text × β) → α) : Field α :=
  ⟨Text.lit name, fun a key n =>
    match n with
    | .table entries =>
      (entries.mapM fun (e : Text × Node) => (value? e.2).map (e.1, ·)).map fun l =>
        (set a l, l.map fun e => key ++ [e.1])
    | _ => some (a, [])⟩

def lanesField {α : Type} (name : String) (set : α → List Lane → α) : Field α :=
  ⟨Text.lit name, fun a _ n => (lanes? n).map fun l => (set a l, [])⟩

def constantFields : List (Field Constant) :=
  [textField "name" fun c t => { c with name := t },
    lanesField "value" fun c l => { c with value := l }]

def scriptFields : List (Field Script) :=
  [textField "name" fun s t => { s with name := t },
    textField "stage" fun s t => { s with stage := t },
    textField "source" fun s t => { s with source := t },
    textField "file" fun s t => { s with file := t },
    tablesField "constant" constantFields {} fun s l => { s with constants := l }]

def emitterFields : List (Field Emitter) :=
  [textField "name" fun e t => { e with name := t },
    integerField "capacity" fun e i => { e with capacity := i },
    integerField "instances" fun e i => { e with instances := i },
    integerField "spawn" fun e i => { e with spawn := i },
    textField "spawn-from" fun e t => { e with spawnFrom := t },
    textField "alive" fun e t => { e with alive := t },
    textsField "attributes" fun e l => { e with attributes := l },
    entriesField "defaults" lanes? fun e l => { e with defaults := l },
    entriesField "init" (fun n => (elements? n).bind (·.mapM lanes?))
      fun e l => { e with initial := l },
    tablesField "script" scriptFields {} fun e l => { e with scripts := l }]

def dataSetFields : List (Field DataSet) :=
  [textField "name" fun d t => { d with name := t },
    integerField "size" fun d i => { d with size := i },
    textsField "variables" fun d l => { d with vars := l }]

def fields : List (Field Scenario) :=
  [integerField "ticks" fun s i => { s with ticks := i },
    integerField "chunk-size" fun s i => { s with chunkSize := i },
    integerField "seed" fun s i => { s with seed := i },
    integerField "noise-seed" fun s i => { s with noiseSeed := i },
    integerField "parallel" fun s i => { s with parallel := i },
    tablesField "dataset" dataSetFields {} fun s l => { s with dataSets := l },
    tablesField "emitter" emitterFields {} fun s l => { s with emitters := l }]

inductive DecodeError where
  /-- The text is no document, or a value has the wrong type. -/
  | malformed
  | unknownKeys (keys : List Key)
  deriving DecidableEq

def DecodeError.report : DecodeError → Report
  | malformed =>
    { message := Text.lit "toml: malformed document", categories := [.document] }
  | unknownKeys keys =>
    invalid (Text.lit "unknown keys: " ++ Text.joinWith (Text.lit ", ") (keys.map Key.render))

/-- The scenario of a document. Every key has to be known. -/
def decode (t : Text) : Except DecodeError Scenario :=
  match (Toml.read t).bind Toml.Document.ofStatements? with
  | none => .error .malformed
  | some d =>
    match decodeEntries fields [] {} [] d.root with
    | none => .error .malformed
    | some (s, used) =>
      let known := Std.HashSet.ofList used
      let unknown := d.keys.filter (!known.contains ·)
      if unknown.isEmpty then .ok s else .error (.unknownKeys unknown)

end Quadlane.Scenario
