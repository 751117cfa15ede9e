/-
# PageDesign.Main -- the program

The program gathers what a command line may need of the environment and of the files, runs it,
and does what its ending says.
-/
import PageDesign.CommandLine.Run

namespace PageDesign.Program

open CommandLine

/-- The text of a file, if it can be read. -/
def readFile? (path : String) : IO (Option String) := do
  try
    return some (← IO.FS.readFile path)
  catch _ =>
    return none

/-- Whether a directory stands under a path. -/
def isDirectory (path : String) : IO Bool := do
  try
    (← IO.FS.realPath path).isDir
  catch _ =>
    return false

/-- The ways to a path: the path itself and the paths on the way to it. -/
def ways (p : Path) : List Path :=
  (List.range (p.parts.length + 1)).map fun n => { p with parts := p.parts.take n }

/-- The files among some paths, and the directories on the way to them. -/
def gatherFiles (paths : List String) : IO Files := do
  let texts ← paths.mapM fun path => do
    return ((← readFile? path).map fun text => ((Path.ofString path).resolved.text, text))
  let directories ← ((paths.map Path.ofString).flatMap ways).filterM fun p => isDirectory p.text
  return ⟨texts.filterMap id, directories.map Path.resolved⟩

/-- The variables of the environment that give settings. -/
def gatherVariables : IO (List (String × String)) := do
  let found ← Settings.names.mapM fun name => do
    let key := (Settings.variableName name).map Char.toUpper
    return ((← IO.getEnv key).map fun value => (key, value))
  return found.filterMap id

/-- Writes a text, in directories that are made where they are missing. -/
def writeFile (path : Path) (text : String) : IO Unit := do
  IO.FS.createDirAll path.parent.text
  IO.FS.writeFile path.text text

/-- What an ending prints to the error output. -/
def errorText : Ending → String
  | .done _ stderr _ => stderr
  | .failed stderr => stderr
  | .misused e => String.join (usageLines.map line) ++ line ("Error: " ++ e.message)
  | .badSettings issues => line (issuesText "Bad settings" issues)
  | .badLevel e => line e.message
  | .badFile e => line e.message
  | .badCapacity e => line e.message

/-- Does what an ending says. -/
def finish (e : Ending) : IO UInt32 := do
  if let .done stdout _ written := e then
    for (path, text) in written do writeFile path text
    (← IO.getStdout).putStr stdout
  (← IO.getStderr).putStr (errorText e)
  return UInt32.ofNat e.exitCode

end PageDesign.Program

open PageDesign Program in
/-- Runs the command line. -/
def main (args : List String) : IO UInt32 := do
  finish (CommandLine.run (← gatherVariables) (← gatherFiles (".env" :: args)) args)
