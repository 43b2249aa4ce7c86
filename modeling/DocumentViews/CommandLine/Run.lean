import DocumentViews.Artifact.Write
import DocumentViews.CommandLine.Arguments
import DocumentViews.Json.Reader
import DocumentViews.Kernel.File
import DocumentViews.Schema.Walk
import DocumentViews.Text.Terminal

/-!
A run of the command: it reads the schema and the kernel, walks the schema,
plans the graph, and writes the artifacts. The first failure ends the run. A
run that gets to its end says whether all views were compiled.
-/

namespace DocumentViews.CommandLine

/-- Why a run ends early. -/
inductive Failure where
  | unreadableSchema (path : String) (fault : Fault)
  | malformedSchema (path : String)
  | kernel (error : Kernel.LoadError)
  | walk (error : Schema.Error)
  | plan (error : PlanError)
  | output (error : Artifact.Error)

def Failure.message : Failure → String
  | unreadableSchema path fault => "Error reading " ++ path ++ ": " ++ fault.message
  | malformedSchema path => "Invalid schema JSON in " ++ path
  | kernel error => error.message
  | walk error => "Schema walk failed: " ++ error.message
  | plan error => "Planning failed: " ++ error.message
  | output error => "Error writing output: " ++ error.message

/-- The message as it is shown on a terminal. -/
def Failure.announcement (failure : Failure) : String :=
  Text.forTerminal failure.message

/-- How a command ends. -/
inductive Outcome where
  /-- The arguments are no call of the command. -/
  | misused
  /-- The arguments ask for help. -/
  | helped
  | failed (failure : Failure)
  /-- All artifacts are written, and all views compiled or not. -/
  | finished (complete : Bool)

namespace Outcome

/-- The exit status. -/
def status : Outcome → Nat
  | misused => 2
  | helped => 0
  | failed _ => 2
  | finished complete => if complete then 0 else 1

def failure? : Outcome → Option Failure
  | failed failure => some failure
  | _ => none

end Outcome

/-- The name of the data set. -/
def Arguments.dataSet (arguments : Arguments) : String :=
  arguments.name.getD ((Path.stem? arguments.schema).getD "output")

variable {m : Type → Type} [Monad m] [FileAccess m]

def readSchema (path : String) : m (Except Failure Json) := do
  match ← FileAccess.read path with
  | .error fault => return .error (.unreadableSchema path fault)
  | .ok text =>
    match Json.parse? text with
    | none => return .error (.malformedSchema path)
    | some schema => return .ok schema

def readKernel (path : Option String) : m (Except Failure Kernel) := do
  match path with
  | none => return .ok .standard
  | some path => return (← Kernel.load path).mapError .kernel

/-- Walks a schema and plans its graph. -/
def compileSchema (arguments : Arguments) (schema : Json) (kernel : Kernel) :
    Except Failure (Graph × View.CompiledPlan) :=
  match Schema.walkDocument (.empty arguments.dataSet) schema arguments.root with
  | (_, .error error) => .error (.walk error)
  | (graph, .ok _) =>
    match View.compileGraph ⟨kernel, arguments.materialized⟩ graph with
    | .error error => .error (.plan error)
    | .ok compiled => .ok (graph, compiled)

def writeOutput (arguments : Arguments) (graph : Graph) (compiled : View.CompiledPlan) :
    m (Except Failure Unit) := do
  match ← Artifact.write arguments.outputDirectory arguments.dataSet graph compiled with
  | .error error => return .error (.output error)
  | .ok _ => return .ok ()

/-- Runs the command with arguments that were read. Tells whether all views
were compiled. -/
def perform (arguments : Arguments) : m (Except Failure Bool) := do
  match ← readSchema arguments.schema with
  | .error failure => return .error failure
  | .ok schema =>
    match ← readKernel arguments.kernelPath with
    | .error failure => return .error failure
    | .ok kernel =>
      match compileSchema arguments schema kernel with
      | .error failure => return .error failure
      | .ok (graph, compiled) =>
        match ← writeOutput arguments graph compiled with
        | .error failure => return .error failure
        | .ok () => return .ok compiled.views.isComplete

def run (arguments : List String) : m Outcome := do
  match Arguments.ofList arguments with
  | .error .usage => return .misused
  | .error .help => return .helped
  | .ok arguments =>
    match ← perform arguments with
    | .error failure => return .failed failure
    | .ok complete => return .finished complete

end DocumentViews.CommandLine
