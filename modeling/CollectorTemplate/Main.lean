/-
The command line.

The program runs on the files of the machine and the variables of its environment, with the texts of
`Library.plain`.
-/
import CollectorTemplate.CommandLine.Program
import CollectorTemplate.Text.Uuid

namespace CollectorTemplate

/-- Why the machine cannot do something with a file. -/
def FileFault.ofError (e : IO.Error) : FileFault :=
  match e with
  | .noFileOrDirectory .. => .notFound
  | .alreadyExists .. => .alreadyExists
  | .permissionDenied .. => .denied
  | .inappropriateType _ code _ => if code = 20 then .notADirectory else .isADirectory
  | e => .other (toString e)

/-- The result of work on a file. -/
def attempt {α : Type} (work : IO α) : IO (Except FileFault α) := do
  try
    return .ok (← work)
  catch e =>
    return .error (FileFault.ofError e)

/-- Whether there is something at a path of the machine. -/
def isThere (path : String) : IO Bool := do
  match ← attempt (IO.FS.Handle.mk path .read) with
  | .ok _ => return true
  | .error fault => return fault ≠ .notFound ∧ fault ≠ .notADirectory

/-- The text of a file of the machine. -/
def readText (path : String) : IO (Except FileFault String) := do
  match ← attempt (IO.FS.readBinFile path) with
  | .error fault => return .error fault
  | .ok bytes =>
    match String.fromUTF8? bytes with
    | none => return .error .notText
    | some text => return .ok text

/-- The paths under which the machine has the standard output. -/
def outputPaths : List String := ["/dev/stdout", "/dev/fd/1", "/proc/self/fd/1"]

def machineFiles : FileAccess IO where
  isThere := isThere
  read := readText
  makeDirectory path := attempt (IO.FS.createDirAll path)
  append path text := attempt do (← IO.FS.Handle.mk path .append).putStr text
  isOutput path := return outputPaths.contains path

/-- A context with a name made up at random. -/
def freshContext : IO ReconcileContext := do
  let bytes ← IO.getRandomBytes 16
  return ⟨Text.uuid (bytes.foldl (fun n b => 256 * n + b.toNat) 0), 0⟩

end CollectorTemplate

open CollectorTemplate

/-- Runs the program with its arguments, and answers with its code. -/
def main (arguments : List String) : IO UInt32 := do
  let values ← Program.consulted.mapM fun name => do return (name, ← IO.getEnv name)
  let lookup := fun name => ((values.find? fun entry => entry.1 = name).bind (·.2))
  let outcome ← Program.run machineFiles lookup (← freshContext) arguments
  IO.print outcome.output
  IO.eprint outcome.complaint
  return outcome.code.toUInt32
