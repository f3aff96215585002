import MgLang.Command
/-!
# The program

Gives the commands access to the files of the system, and writes out what they answer.
-/

namespace MgLang.Main

/-- Why the system refused something. -/
def faultOf : IO.Error → ReadFault
  | .noFileOrDirectory .. => .notFound
  | .inappropriateType _ 20 _ => .notDirectory
  | .inappropriateType .. => .isDirectory
  | .invalidArgument _ 36 _ => .nameTooLong
  | e => .other (toString e)

/-- Reads a file as text. -/
def readText (path : String) : IO (Except ReadFault String) := do
  try
    let handle ← IO.FS.Handle.mk path .read
    if ← (← IO.FS.realPath path).isDir then
      return .error .isDirectory
    match String.fromUTF8? (← handle.readBinToEnd) with
    | some text => return .ok text
    | none => return .error .notText
  catch e =>
    return .error (faultOf e)

/-- The paths of all files below a directory, with that text before them. -/
partial def filesBelow (directory front : String) : IO (List String) := do
  let real ← IO.FS.realPath directory
  let mut found := []
  for entry in ← real.readDir do
    if ← entry.path.isDir then
      found := found ++ (← filesBelow entry.path.toString (front ++ entry.fileName ++ "/"))
    else
      found := found ++ [front ++ entry.fileName]
  return found

/-- The paths of all files below a directory, if it is one. -/
def listFiles (path : String) : IO (Option (List String)) := do
  try
    let real ← IO.FS.realPath path
    if ← real.isDir then
      return some (← filesBelow real.toString "")
    else
      return none
  catch _ =>
    return none

/-- Access to the files of the system. -/
def access : FileAccess IO where
  read := readText
  list := listFiles

end MgLang.Main

/-- Answers to the arguments of the command line. -/
def main (args : List String) : IO UInt32 := do
  let cwd ← IO.currentDir
  let outcome ← MgLang.Command.answer MgLang.Main.access cwd.toString args
  (← IO.getStdout).putStr outcome.stdout
  (← IO.getStderr).putStr outcome.stderr
  return outcome.exitCode.toUInt32
