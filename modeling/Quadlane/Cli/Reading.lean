import Quadlane.Cli.Basic

/-! Which files a call reads: the file of its command and, for a scenario, those of its scripts. -/

namespace Quadlane.Cli

/-- The file of the command, if the arguments have one. -/
def commandPath? (arguments : List Text) : Option Text :=
  match parseFlags {} arguments with
  | .ok (_, [_, path]) => some path
  | _ => none

/-- The files of the scripts of the scenario the arguments name. -/
def scriptPaths (files : FileTree) (arguments : List Text) : List Text :=
  match commandPath? arguments with
  | none => []
  | some path =>
    match files.read path with
    | .error _ => []
    | .ok contents =>
      match Scenario.decode contents with
      | .error _ => []
      | .ok s =>
        let directory := absoluteDirectory files path
        (s.emitters.flatMap (·.scripts)).filterMap fun c =>
          if c.file.isEmpty then none
          else some (if Path.isAbsolute c.file then c.file else Path.join directory c.file)

/-- The directories in which the arguments look for files. -/
def directoryPaths (arguments : List Text) : List Text :=
  match parseFlags {} arguments with
  | .ok (f, words) =>
    (words.drop 1) ++ ([f.output, f.log] ++ words.drop 1).map Path.directory
  | .error _ => []

/-- The names that lead to a path from the root. -/
def absoluteNames (files : FileTree) (path : Text) : List Text :=
  Path.reduce true []
    (Text.splitOn 47 (if Path.isAbsolute path then path else Path.join files.workingPath path))

end Quadlane.Cli
