import DocumentViews.CommandLine.Run

/-!
The command as a program. It works on the files of the system, tells of a
failure on the error stream, and ends with the status of the run.
-/

namespace DocumentViews

def Fault.ofError : IO.Error → Fault
  | .noFileOrDirectory .. => .missing
  | .alreadyExists .. => .present
  | error => .other (toString error)

/-- Runs an action and catches its fault. -/
def guarded {α : Type} (action : IO α) : IO (Except Fault α) := do
  try
    return .ok (← action)
  catch error =>
    return .error (.ofError error)

/-- A directory is known by the fault of creating its own entry anew. -/
def isSystemDirectory (path : String) : IO Bool := do
  match ← guarded (IO.FS.createDir (path ++ "/.")) with
  | .error .present => return true
  | _ => return false

def readSystemFile (path : String) : IO (Except Fault String) := do
  match ← guarded (IO.FS.readBinFile path) with
  | .error fault => return .error fault
  | .ok bytes =>
    match String.fromUTF8? bytes with
    | some text => return .ok text
    | none => return .error .notUtf8

instance : FileAccess IO where
  read := readSystemFile
  write path text := guarded (IO.FS.writeFile path text)
  makeDirectory path := guarded (IO.FS.createDir path)
  isDirectory := isSystemDirectory

/-- How the command is called. -/
def usage : String :=
  "Usage: schema2view [OPTIONS] <SCHEMA>\n\n" ++
  "Options:\n" ++
  "      --name <NAME>                    Dataset name; defaults to the schema file stem\n" ++
  "      --root <ROOT>                    Name of the root table before pluralization\n" ++
  "      --output-dir <OUTPUT_DIR>        Output directory\n" ++
  "      --kernel-config <KERNEL_CONFIG>  JSON file describing the kernel table columns\n" ++
  "      --materialized                   Emit materialized views\n" ++
  "      --verbose                        Print verbose diagnostics\n" ++
  "  -h, --help                           Print help\n"

open CommandLine in
/-- Tells how a command ended. -/
def announce : Outcome → IO Unit
  | .misused => IO.eprint usage
  | .helped => IO.print usage
  | .failed failure => IO.eprintln failure.announcement
  | .finished _ => return ()

end DocumentViews

open DocumentViews in
def main (arguments : List String) : IO UInt32 := do
  let outcome ← CommandLine.run arguments
  announce outcome
  return outcome.status.toUInt32
