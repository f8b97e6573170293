import Quadlane.Files.Path
import Quadlane.Report

/-! A tree of files, and what happens when a path is followed in it. Directories exist as far as there
are files below them; the working directory and those above it exist in any case. A sink is a file
that is always empty, whatever is written to it. -/

namespace Quadlane

/-- Why a path leads nowhere. -/
inductive FileProblem where
  | missing
  | notDirectory
  | isDirectory
  | tooLong
  | invalidName
  deriving DecidableEq

def FileProblem.message : FileProblem → Text
  | missing => Text.lit "no such file or directory"
  | notDirectory => Text.lit "not a directory"
  | isDirectory => Text.lit "is a directory"
  | tooLong => Text.lit "file name too long"
  | invalidName => Text.lit "invalid argument"

/-- An operation on a path that failed. -/
structure FileError where
  operation : Text
  path : Text
  problem : FileProblem
  deriving DecidableEq

def FileError.report (e : FileError) : Report :=
  { message := e.operation ++ Text.lit " " ++ e.path ++ Text.lit ": " ++ e.problem.message
    categories := if e.problem = .missing then [.missingFile] else [] }

structure FileTree where
  /-- The names that lead to the working directory. -/
  working : List Text
  /-- Contents of files by the names that lead to them. -/
  files : List (List Text × List UInt8)
  /-- Directories that exist even without files. -/
  directories : List (List Text) := []
  sinks : List (List Text) := [[Text.lit "dev", Text.lit "null"]]

/-- Where a path leads. -/
inductive Place where
  | file (names : List Text) (contents : List UInt8)
  | directory (names : List Text)
  | sink
  /-- A name for which there is nothing, in a directory that exists. -/
  | vacant (names : List Text)

namespace FileTree

def workingPath (t : FileTree) : Text :=
  47 :: Text.joinWith [47] t.working

def isDirectory (t : FileTree) (names : List Text) : Bool :=
  (t.working :: t.directories).any (names.isPrefixOf ·) ||
    (t.sinks ++ t.files.map (·.1)).any fun f => names.isPrefixOf f && f ≠ names

/-- Follows names from a directory. -/
def follow (t : FileTree) (base : List Text) : List Text → Except FileProblem Place
  | [] => .ok (.directory base)
  | name :: rest =>
    if name.length > 255 then .error .tooLong
    else if name.isEmpty || name = Text.lit "." then t.follow base rest
    else if name = Text.lit ".." then t.follow base.dropLast rest
    else
      let there := base ++ [name]
      match t.files.lookup there with
      | some contents => if rest.isEmpty then .ok (.file there contents) else .error .notDirectory
      | none =>
        if t.sinks.contains there then if rest.isEmpty then .ok .sink else .error .notDirectory
        else if t.isDirectory there then t.follow there rest
        else if rest.isEmpty then .ok (.vacant there)
        else .error .missing

/-- The directory a path starts from, and the names it goes through; names may be empty. -/
def route (t : FileTree) (path : Text) : Except FileProblem (List Text × List Text) :=
  if path.any (· = 0) then .error .invalidName
  else if path.isEmpty then .error .missing
  else if path.length ≥ 4096 then .error .tooLong
  else .ok (if Path.isAbsolute path then [] else t.working, Text.splitOn 47 path)

def locate (t : FileTree) (path : Text) : Except FileProblem Place := do
  let (base, names) ← t.route path
  t.follow base names

/-- The names in front of the last one, if a slash follows that and it is no mere dots. -/
def directoryName? (names : List Text) : Option (List Text) :=
  match names.reverse with
  | [] :: rest =>
    match rest.dropWhile List.isEmpty with
    | name :: before =>
      if name = Text.lit "." || name = Text.lit ".." then none else some before.reverse
    | [] => none
  | _ => none

def read (t : FileTree) (path : Text) : Except FileError (List UInt8) :=
  let failed := fun (operation : String) problem =>
    .error { operation := Text.lit operation, path, problem }
  match t.locate path with
  | .error problem => failed "open" problem
  | .ok (.vacant _) => failed "open" .missing
  | .ok (.directory _) => failed "read" .isDirectory
  | .ok (.file _ contents) => .ok contents
  | .ok .sink => .ok []

/-- Whether there is something at a path. -/
def check (t : FileTree) (path : Text) : Option FileError :=
  let failed := fun problem => some { operation := Text.lit "stat", path, problem }
  match t.locate path with
  | .error problem => failed problem
  | .ok (.vacant _) => failed .missing
  | .ok _ => none

/-- Where a new file for a path would be. A name with a slash after it is one of a directory and is not
looked up, only the directory it would be in is. -/
def landing (t : FileTree) (path : Text) : Except FileProblem Place := do
  let (base, names) ← t.route path
  match directoryName? names with
  | none => t.follow base names
  | some parents =>
    match ← t.follow base parents with
    | .directory _ => .error .isDirectory
    | .vacant _ => .error .missing
    | _ => .error .notDirectory

/-- Where a file would be written; nowhere for a sink. -/
def target (t : FileTree) (path : Text) : Except FileError (Option (List Text)) :=
  let failed := fun problem => .error { operation := Text.lit "open", path, problem }
  match t.landing path with
  | .error problem => failed problem
  | .ok (.directory _) => failed .isDirectory
  | .ok (.vacant names) => .ok (some names)
  | .ok (.file names _) => .ok (some names)
  | .ok .sink => .ok none

/-- Writes a file, in place of one that exists. -/
def write (t : FileTree) (path : Text) (contents : List UInt8) : Except FileError FileTree := do
  match ← t.target path with
  | none => return t
  | some names => return { t with files := (names, contents) :: t.files.filter (·.1 ≠ names) }

/-- Makes sure that a file exists. -/
def touch (t : FileTree) (path : Text) : Except FileError FileTree := do
  match ← t.target path with
  | none => return t
  | some names =>
    return if t.files.any (·.1 = names) then t else { t with files := (names, []) :: t.files }

end FileTree
end Quadlane
