/-!
The arguments of the command. They are read from left to right, and the first
mistake or the first call for help ends the reading. A setting takes a value,
in the same argument after an equals sign or in the next, a switch takes none,
and both stand at most once. There is one schema. After two hyphens alone all
arguments are schemas.
-/

namespace DocumentViews.CommandLine

inductive Setting where
  | name
  | root
  | outputDirectory
  | kernelPath
  deriving DecidableEq

inductive Switch where
  | materialized
  | verbose
  deriving DecidableEq

def Setting.word : Setting → String
  | name => "name"
  | root => "root"
  | outputDirectory => "output-dir"
  | kernelPath => "kernel-config"

def Switch.word : Switch → String
  | materialized => "materialized"
  | verbose => "verbose"

def Setting.ofWord? (word : String) : Option Setting :=
  [name, root, outputDirectory, kernelPath].find? (·.word = word)

def Switch.ofWord? (word : String) : Option Switch :=
  [materialized, verbose].find? (·.word = word)

/-- Whether the value is a path, which may not be empty. -/
def Setting.isPath : Setting → Bool
  | outputDirectory => true
  | kernelPath => true
  | _ => false

/-- Why arguments are not read to their end. -/
inductive Stop where
  | usage
  | help

/-- The arguments read so far. -/
structure Draft where
  schema : Option String
  settings : List (Setting × String)
  switches : List Switch

structure Arguments where
  schema : String
  name : Option String
  root : String
  outputDirectory : String
  kernelPath : Option String
  materialized : Bool
  verbose : Bool

namespace Draft

def empty : Draft := ⟨none, [], []⟩

def value? (draft : Draft) (setting : Setting) : Option String :=
  (draft.settings.find? (·.1 = setting)).map Prod.snd

def withSchema (draft : Draft) (path : String) : Except Stop Draft :=
  if draft.schema.isSome ∨ path = "" then .error .usage
  else .ok { draft with schema := some path }

def withSetting (draft : Draft) (setting : Setting) (value : String) : Except Stop Draft :=
  if (draft.value? setting).isSome ∨ (setting.isPath ∧ value = "") then .error .usage
  else .ok { draft with settings := (setting, value) :: draft.settings }

def withSwitch (draft : Draft) (switch : Switch) : Except Stop Draft :=
  if switch ∈ draft.switches then .error .usage
  else .ok { draft with switches := switch :: draft.switches }

/-- The arguments that a draft stands for once it is complete. -/
def complete (draft : Draft) : Except Stop Arguments :=
  match draft.schema with
  | none => .error .usage
  | some schema =>
    .ok
      { schema
        name := draft.value? .name
        root := (draft.value? .root).getD "root"
        outputDirectory := (draft.value? .outputDirectory).getD "schema2view-output"
        kernelPath := draft.value? .kernelPath
        materialized := decide (.materialized ∈ draft.switches)
        verbose := decide (.verbose ∈ draft.switches) }

end Draft

/-- What an argument is by its form. -/
inductive Form where
  /-- Two hyphens and no more. -/
  | ending
  /-- A word after two hyphens, with a value if an equals sign follows. -/
  | long (word : String) (value : Option String)
  /-- Letters after one hyphen. -/
  | short (letters : List Char)
  | plain

def Form.ofArgument (argument : String) : Form :=
  match argument.toList with
  | ['-', '-'] => ending
  | '-' :: '-' :: rest =>
    let word := String.ofList (rest.takeWhile (· != '='))
    match rest.dropWhile (· != '=') with
    | [] => long word none
    | _ :: value => long word (some (String.ofList value))
  | '-' :: c :: rest => short (c :: rest)
  | _ => plain

def readSchemas (draft : Draft) : List String → Except Stop Draft
  | [] => .ok draft
  | path :: rest =>
    match draft.withSchema path with
    | .error stop => .error stop
    | .ok draft => readSchemas draft rest

/-- Reads a word without a value of its own, which is no setting. -/
def readWord (draft : Draft) (word : String) : Except Stop Draft :=
  if word = "help" then .error .help
  else
    match Switch.ofWord? word with
    | some switch => draft.withSwitch switch
    | none => .error .usage

def read (draft : Draft) (arguments : List String) : Except Stop Draft :=
  match arguments with
  | [] => .ok draft
  | argument :: rest =>
    match Form.ofArgument argument with
    | .ending => readSchemas draft rest
    | .short letters => .error (if letters.head? = some 'h' then .help else .usage)
    | .plain =>
      match draft.withSchema argument with
      | .error stop => .error stop
      | .ok draft => read draft rest
    | .long word (some value) =>
      match Setting.ofWord? word with
      | none => .error .usage
      | some setting =>
        match draft.withSetting setting value with
        | .error stop => .error stop
        | .ok draft => read draft rest
    | .long word none =>
      match Setting.ofWord? word with
      | none =>
        match readWord draft word with
        | .error stop => .error stop
        | .ok draft => read draft rest
      | some setting =>
        match rest with
        | [] => .error .usage
        | value :: rest =>
          match Form.ofArgument value with
          | .plain =>
            match draft.withSetting setting value with
            | .error stop => .error stop
            | .ok draft => read draft rest
          | _ => .error .usage

def Arguments.ofList (arguments : List String) : Except Stop Arguments :=
  match read .empty arguments with
  | .error stop => .error stop
  | .ok draft => draft.complete

end DocumentViews.CommandLine
