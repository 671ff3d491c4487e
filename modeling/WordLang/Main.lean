import WordLang.CommandLine
import WordLang.CommandLine.Reader

/-! The executable: asks the system what the command needs to know, and prints its report. -/
namespace WordLang

def askDirectory (path : String) : IO Bool := do
  try
    (← IO.FS.realPath path).isDir
  catch _ =>
    pure false

/-- The answer of the system behind an error of the runtime. -/
def WriteError.ofIOError : IO.Error → WriteError
  | .noFileOrDirectory .. => .noSuchFile
  | .permissionDenied .. => .permissionDenied
  | .inappropriateType _ code reason | .otherError code reason =>
    if code = 21 then .isDirectory
    else if code = 20 then .notDirectory
    else .other code.toNat reason
  | e => .other 0 (toString e)

def tryWrite (path text : String) : IO (Option WriteError) := do
  try
    IO.FS.writeFile path text
    pure none
  catch e =>
    pure (some (.ofIOError e))

def outputPath? (args : List String) : Option String :=
  match Arguments.read (routeSource args) with
  | .ok a => a.output?
  | .error _ => none

/-- The report of the command. It is drawn up once as if the file could be written, and again if it
cannot. -/
def drawUpReport (args : List String) : IO Report := do
  let directories ← (outputPath? args).toList.filterM askDirectory
  let system (answer : Option WriteError) : FileSystem := ⟨directories.contains, fun _ _ => answer⟩
  let report := runCommand .usual (system none) args
  let answers ← report.written.mapM fun file => tryWrite file.1 file.2
  match answers.findSome? id with
  | none => pure report
  | some e => pure (runCommand .usual (system (some e)) args)

end WordLang

def main (args : List String) : IO UInt32 := do
  let report ← WordLang.drawUpReport args
  (← IO.getStdout).putStr report.stdout
  (← IO.getStderr).putStr report.stderr
  return report.exit.number.toUInt32
