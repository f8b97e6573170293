import Quadlane.Text.Basic

/-! File paths: names between slashes. -/

namespace Quadlane.Path

def isAbsolute (p : Text) : Bool :=
  p.head? = some 47

/-- Takes back the steps that `..` undoes; `done` are the names so far, the last first. -/
def reduce (absolute : Bool) (done : List Text) : List Text → List Text
  | [] => done.reverse
  | name :: rest =>
    if name.isEmpty || name = Text.lit "." then reduce absolute done rest
    else if name = Text.lit ".." then
      match done with
      | [] => reduce absolute (if absolute then [] else [name]) rest
      | last :: before =>
        if last = Text.lit ".." then reduce absolute (name :: done) rest
        else reduce absolute before rest
    else reduce absolute (name :: done) rest

/-- The shortest path that is equal without looking at the files. -/
def clean (p : Text) : Text :=
  let names := Text.joinWith [47] (reduce (isAbsolute p) [] (Text.splitOn 47 p))
  if isAbsolute p then 47 :: names
  else if names.isEmpty then Text.lit "."
  else names

/-- A path below a directory. -/
def join (directory p : Text) : Text :=
  clean (Text.joinWith [47] ([directory, p].filter (!·.isEmpty)))

/-- The part after the last slash. -/
def lastPart (p : Text) : Text :=
  (p.reverse.takeWhile (· ≠ 47)).reverse

/-- The part of the last name from its last dot on. -/
def extension (p : Text) : Text :=
  let name := lastPart p
  if name.any (· = 46) then 46 :: (name.reverse.takeWhile (· ≠ 46)).reverse else []

def withoutExtension (p : Text) : Text :=
  p.take (p.length - (extension p).length)

/-- The last name of a path. -/
def base (p : Text) : Text :=
  if p.isEmpty then Text.lit "."
  else
    let name := lastPart (p.reverse.dropWhile (· = 47)).reverse
    if name.isEmpty then [47] else name

/-- The directory a path leads to a file of. -/
def directory (p : Text) : Text :=
  clean (p.take (p.length - (lastPart p).length))

end Quadlane.Path
