import Mathlib
import DocumentViews.CommandLine.Run
import DocumentViews.Proofs.Artifact.Written
import DocumentViews.Proofs.View.Coverage

/-!
The outcome of a run and the files that it leaves. A run with good arguments
gets to its end exactly when its schema and its kernel are read and accepted,
the graph is planned, and the output is written. Else it fails, and only the
writing of the output leaves anything behind.
-/

namespace DocumentViews

namespace CommandLine

open FileAccess View

variable {σ : Type} [FileAccess (StateM σ)] {tree : σ → FileTree} {before after : σ}
  {arguments : Arguments} {kernel : Kernel} {graph : Graph} {compiled : CompiledPlan}

/-- Whether a run fails in writing its output to the files. -/
def Failure.IsUnwritten (failure : Failure) : Prop :=
  ∃ path fault, failure = .output (.unwritten path fault)

/-- The kernel of a run: the standard one, or what a file is accepted for. -/
inductive TakesKernel : Option String → Kernel → σ → σ → Prop
  | standard (state : σ) : TakesKernel none .standard state state
  | file {path text : String} {kernel : Kernel} {before after : σ}
    (hread : Yields (FileAccess.read path) before (.ok text) after)
    (htext : Kernel.ofText text = .ok kernel) : TakesKernel (some path) kernel before after

/-- What a run does before it writes: it reads and parses the schema, takes the
kernel, walks the schema into a graph, and plans the graph. -/
def Prepares (arguments : Arguments) (kernel : Kernel) (graph : Graph) (compiled : CompiledPlan)
    (before after : σ) : Prop :=
  ∃ text schema middle top,
    Yields (FileAccess.read arguments.schema) before (.ok text) middle ∧
    Json.parse? text = some schema ∧
    TakesKernel arguments.kernelPath kernel middle after ∧
    Schema.walkDocument (.empty arguments.dataSet) schema arguments.root = (graph, .ok top) ∧
    compileGraph ⟨kernel, arguments.materialized⟩ graph = .ok compiled

/-- A run gets to its end: it is prepared and its output is written. -/
def Completes (arguments : Arguments) (kernel : Kernel) (graph : Graph) (compiled : CompiledPlan)
    (before after : σ) : Prop :=
  ∃ ready, Prepares arguments kernel graph compiled before ready ∧
    Artifact.IsWritten arguments.outputDirectory arguments.dataSet graph compiled ready after

theorem yields_readSchema_ok_iff {path : String} {schema : Json} :
    Yields (readSchema path) before (.ok schema) after ↔
      ∃ text, Yields (FileAccess.read path) before (.ok text) after ∧
        Json.parse? text = some schema := by
  rw [readSchema, yields_bind_iff]
  constructor
  · rintro ⟨content, middle, hcontent, h⟩
    cases content with
    | error fault => nomatch (yields_pure_iff.1 h).1
    | ok text =>
      dsimp only at h
      split at h
      · nomatch (yields_pure_iff.1 h).1
      · next parsed hparsed =>
        obtain ⟨heq, rfl⟩ := yields_pure_iff.1 h
        obtain rfl := Except.ok.inj heq
        exact ⟨text, hcontent, hparsed⟩
  · rintro ⟨text, hcontent, hparsed⟩
    refine ⟨.ok text, after, hcontent, ?_⟩
    simp only [hparsed]
    exact yields_pure_iff.2 ⟨rfl, rfl⟩

theorem readSchema_error (hfaithful : IsFaithful tree) {path : String} {failure : Failure}
    (h : Yields (readSchema path) before (.error failure) after) :
    tree after = tree before ∧ ¬ failure.IsUnwritten := by
  rw [readSchema, yields_bind_iff] at h
  obtain ⟨content, middle, hcontent, h⟩ := h
  rw [← hfaithful.read hcontent]
  cases content with
  | error fault =>
    obtain ⟨heq, rfl⟩ := yields_pure_iff.1 h
    rw [Except.error.inj heq]
    exact ⟨rfl, by simp [Failure.IsUnwritten]⟩
  | ok text =>
    dsimp only at h
    split at h
    · obtain ⟨heq, rfl⟩ := yields_pure_iff.1 h
      rw [Except.error.inj heq]
      exact ⟨rfl, by simp [Failure.IsUnwritten]⟩
    · nomatch (yields_pure_iff.1 h).1

theorem mapError_eq_ok_iff {ε ε' α : Type} {result : Except ε α} {change : ε → ε'} {value : α} :
    result.mapError change = .ok value ↔ result = .ok value := by
  cases result with
  | error error => simp [Except.mapError]
  | ok other => simp [Except.mapError]

theorem mapError_eq_error {ε ε' α : Type} {result : Except ε α} {change : ε → ε'} {error : ε'}
    (h : result.mapError change = .error error) : ∃ reason, error = change reason := by
  cases result with
  | error reason => exact ⟨reason, (Except.error.inj h).symm⟩
  | ok other => nomatch h

theorem yields_load_ok_iff {path : String} :
    Yields (Kernel.load path) before (.ok kernel) after ↔
      ∃ text, Yields (FileAccess.read path) before (.ok text) after ∧
        Kernel.ofText text = .ok kernel := by
  rw [Kernel.load, yields_bind_iff]
  constructor
  · rintro ⟨content, middle, hcontent, h⟩
    cases content with
    | error fault => nomatch (yields_pure_iff.1 h).1
    | ok text =>
      obtain ⟨heq, rfl⟩ := yields_pure_iff.1 h
      exact ⟨text, hcontent, mapError_eq_ok_iff.1 heq.symm⟩
  · rintro ⟨text, hcontent, hkernel⟩
    refine ⟨.ok text, after, hcontent, yields_pure_iff.2 ⟨?_, rfl⟩⟩
    exact (mapError_eq_ok_iff.2 hkernel).symm

theorem tree_load (hfaithful : IsFaithful tree) {path : String}
    {result : Except Kernel.LoadError Kernel} (h : Yields (Kernel.load path) before result after) :
    tree after = tree before := by
  rw [Kernel.load, yields_bind_iff] at h
  obtain ⟨content, middle, hcontent, h⟩ := h
  rw [← hfaithful.read hcontent]
  cases content with
  | error fault => rw [(yields_pure_iff.1 h).2]
  | ok text => rw [(yields_pure_iff.1 h).2]

theorem yields_readKernel_ok_iff {path : Option String} :
    Yields (readKernel path) before (.ok kernel) after ↔ TakesKernel path kernel before after := by
  cases path with
  | none =>
    rw [readKernel, yields_pure_iff]
    constructor
    · rintro ⟨heq, rfl⟩
      rw [Except.ok.inj heq]
      exact .standard after
    · intro h
      cases h
      exact ⟨rfl, rfl⟩
  | some path =>
    rw [readKernel, yields_bind_iff]
    constructor
    · rintro ⟨loaded, middle, hloaded, h⟩
      obtain ⟨heq, rfl⟩ := yields_pure_iff.1 h
      rw [mapError_eq_ok_iff.1 heq.symm] at hloaded
      obtain ⟨text, hread, htext⟩ := yields_load_ok_iff.1 hloaded
      exact .file hread htext
    · intro h
      cases h with
      | file hread htext =>
        exact ⟨.ok kernel, after, yields_load_ok_iff.2 ⟨_, hread, htext⟩,
          yields_pure_iff.2 ⟨rfl, rfl⟩⟩

theorem readKernel_error (hfaithful : IsFaithful tree) {path : Option String} {failure : Failure}
    (h : Yields (readKernel path) before (.error failure) after) :
    tree after = tree before ∧ ¬ failure.IsUnwritten := by
  cases path with
  | none => nomatch (yields_pure_iff.1 h).1
  | some path =>
    rw [readKernel, yields_bind_iff] at h
    obtain ⟨loaded, middle, hloaded, h⟩ := h
    obtain ⟨heq, rfl⟩ := yields_pure_iff.1 h
    obtain ⟨reason, rfl⟩ := mapError_eq_error heq.symm
    exact ⟨tree_load hfaithful hloaded, by simp [Failure.IsUnwritten]⟩

theorem TakesKernel.tree_eq (hfaithful : IsFaithful tree) {path : Option String}
    (h : TakesKernel path kernel before after) : tree after = tree before := by
  cases h with
  | standard => rfl
  | file hread htext => exact hfaithful.read hread

theorem Prepares.tree_eq (hfaithful : IsFaithful tree)
    (h : Prepares arguments kernel graph compiled before after) : tree after = tree before := by
  obtain ⟨text, schema, middle, top, hread, -, hkernel, -⟩ := h
  exact (hkernel.tree_eq hfaithful).trans (hfaithful.read hread)

theorem compileSchema_eq_ok_iff {schema : Json} :
    compileSchema arguments schema kernel = .ok (graph, compiled) ↔
      (∃ top, Schema.walkDocument (.empty arguments.dataSet) schema arguments.root =
        (graph, .ok top)) ∧
      compileGraph ⟨kernel, arguments.materialized⟩ graph = .ok compiled := by
  rw [compileSchema]
  split
  · next error hwalk => simp [hwalk]
  · next walked top hwalk =>
    rw [hwalk]
    split
    · next error hcompile =>
      refine iff_of_false (by simp) ?_
      rintro ⟨⟨other, heq⟩, hcompiled⟩
      simp [(Prod.mk.inj heq).1, hcompiled] at hcompile
    · next found hcompile =>
      simp only [Except.ok.injEq, Prod.mk.injEq]
      constructor
      · rintro ⟨rfl, rfl⟩
        exact ⟨⟨top, rfl, rfl⟩, hcompile⟩
      · rintro ⟨⟨other, rfl, -⟩, hcompiled⟩
        exact ⟨rfl, Except.ok.inj (hcompile.symm.trans hcompiled)⟩

theorem not_isUnwritten_compileSchema {schema : Json} {failure : Failure}
    (h : compileSchema arguments schema kernel = .error failure) : ¬ failure.IsUnwritten := by
  rw [compileSchema] at h
  split at h
  · rw [← Except.error.inj h]
    simp [Failure.IsUnwritten]
  · split at h
    · rw [← Except.error.inj h]
      simp [Failure.IsUnwritten]
    · simp at h

theorem yields_writeOutput_ok_iff :
    Yields (writeOutput arguments graph compiled) before (.ok ()) after ↔
      Artifact.IsWritten arguments.outputDirectory arguments.dataSet graph compiled before
        after := by
  rw [writeOutput, yields_bind_iff]
  constructor
  · rintro ⟨written, middle, hwritten, h⟩
    cases written with
    | error error => nomatch (yields_pure_iff.1 h).1
    | ok paths =>
      obtain ⟨-, rfl⟩ := yields_pure_iff.1 h
      exact (Artifact.yields_write_ok_iff.1 hwritten).1
  · intro h
    exact ⟨_, after, Artifact.yields_write_ok_iff.2 ⟨h, rfl⟩, yields_pure_iff.2 ⟨rfl, rfl⟩⟩

theorem writeOutput_error {failure : Failure}
    (h : Yields (writeOutput arguments graph compiled) before (.error failure) after) :
    ∃ error, failure = .output error ∧
      Yields (Artifact.write arguments.outputDirectory arguments.dataSet graph compiled) before
        (.error error) after := by
  rw [writeOutput, yields_bind_iff] at h
  obtain ⟨written, middle, hwritten, h⟩ := h
  cases written with
  | error error =>
    obtain ⟨heq, rfl⟩ := yields_pure_iff.1 h
    exact ⟨error, Except.error.inj heq, hwritten⟩
  | ok paths => nomatch (yields_pure_iff.1 h).1

/-- Only a run that gets to its end tells whether all views were compiled. -/
theorem yields_perform_ok_iff {complete : Bool} :
    Yields (perform arguments) before (.ok complete) after ↔
      ∃ kernel graph compiled, Completes arguments kernel graph compiled before after ∧
        complete = compiled.views.isComplete := by
  rw [perform, yields_bind_iff]
  constructor
  · rintro ⟨schema, middle, hschema, h⟩
    cases schema with
    | error failure => nomatch (yields_pure_iff.1 h).1
    | ok schema =>
      obtain ⟨kernel, ready, hkernel, h⟩ := yields_bind_iff.1 h
      cases kernel with
      | error failure => nomatch (yields_pure_iff.1 h).1
      | ok kernel =>
        dsimp only at h
        split at h
        · nomatch (yields_pure_iff.1 h).1
        · next graph compiled hcompile =>
          obtain ⟨output, last, houtput, h⟩ := yields_bind_iff.1 h
          cases output with
          | error failure => nomatch (yields_pure_iff.1 h).1
          | ok done =>
            obtain ⟨heq, rfl⟩ := yields_pure_iff.1 h
            obtain ⟨text, hread, hparse⟩ := yields_readSchema_ok_iff.1 hschema
            obtain ⟨⟨top, hwalk⟩, hcompiled⟩ := compileSchema_eq_ok_iff.1 hcompile
            exact ⟨kernel, graph, compiled, ⟨ready, ⟨text, schema, middle, top, hread, hparse,
              yields_readKernel_ok_iff.1 hkernel, hwalk, hcompiled⟩,
              yields_writeOutput_ok_iff.1 houtput⟩, Except.ok.inj heq⟩
  · rintro ⟨kernel, graph, compiled, ⟨ready, ⟨text, schema, middle, top, hread, hparse, hkernel,
      hwalk, hcompiled⟩, hwritten⟩, rfl⟩
    refine ⟨.ok schema, middle, yields_readSchema_ok_iff.2 ⟨text, hread, hparse⟩, ?_⟩
    refine yields_bind_iff.2 ⟨.ok kernel, ready, yields_readKernel_ok_iff.2 hkernel, ?_⟩
    simp only [compileSchema_eq_ok_iff.2 ⟨⟨top, hwalk⟩, hcompiled⟩]
    refine yields_bind_iff.2 ⟨.ok (), after, yields_writeOutput_ok_iff.2 hwritten, ?_⟩
    exact yields_pure_iff.2 ⟨rfl, rfl⟩

/-- A run fails before it writes, and then the tree is as it was, or in writing
what it prepared. -/
theorem perform_error (hfaithful : IsFaithful tree) {failure : Failure}
    (h : Yields (perform arguments) before (.error failure) after) :
    (tree after = tree before ∧ ¬ failure.IsUnwritten) ∨
      ∃ kernel graph compiled ready error, Prepares arguments kernel graph compiled before ready ∧
        failure = .output error ∧
        Yields (Artifact.write arguments.outputDirectory arguments.dataSet graph compiled) ready
          (.error error) after := by
  rw [perform, yields_bind_iff] at h
  obtain ⟨schema, middle, hschema, h⟩ := h
  cases schema with
  | error other =>
    obtain ⟨heq, rfl⟩ := yields_pure_iff.1 h
    rw [Except.error.inj heq]
    exact Or.inl (readSchema_error hfaithful hschema)
  | ok schema =>
    obtain ⟨text, hread, hparse⟩ := yields_readSchema_ok_iff.1 hschema
    obtain ⟨kernel, ready, hkernel, h⟩ := yields_bind_iff.1 h
    rw [← hfaithful.read hread]
    cases kernel with
    | error other =>
      obtain ⟨heq, rfl⟩ := yields_pure_iff.1 h
      rw [Except.error.inj heq]
      exact Or.inl (readKernel_error hfaithful hkernel)
    | ok kernel =>
      have htaken := yields_readKernel_ok_iff.1 hkernel
      rw [← htaken.tree_eq hfaithful]
      dsimp only at h
      split at h
      · next other hcompile =>
        obtain ⟨heq, rfl⟩ := yields_pure_iff.1 h
        rw [Except.error.inj heq]
        exact Or.inl ⟨rfl, not_isUnwritten_compileSchema hcompile⟩
      · next graph compiled hcompile =>
        obtain ⟨⟨top, hwalk⟩, hcompiled⟩ := compileSchema_eq_ok_iff.1 hcompile
        obtain ⟨output, last, houtput, h⟩ := yields_bind_iff.1 h
        cases output with
        | ok done => nomatch (yields_pure_iff.1 h).1
        | error other =>
          obtain ⟨heq, rfl⟩ := yields_pure_iff.1 h
          obtain ⟨error, rfl, hwrite⟩ := writeOutput_error houtput
          exact Or.inr ⟨kernel, graph, compiled, ready, error, ⟨text, schema, middle, top, hread,
            hparse, htaken, hwalk, hcompiled⟩, Except.error.inj heq, hwrite⟩

theorem Completes.unique {finish otherFinish : σ} {otherKernel : Kernel} {otherGraph : Graph}
    {otherCompiled : CompiledPlan} (h : Completes arguments kernel graph compiled before finish)
    (hother : Completes arguments otherKernel otherGraph otherCompiled before otherFinish) :
    compiled.views.isComplete = otherCompiled.views.isComplete ∧ finish = otherFinish := by
  obtain ⟨heq, hfinish⟩ := (yields_perform_ok_iff.2 ⟨kernel, graph, compiled, h, rfl⟩).unique
    (yields_perform_ok_iff.2 ⟨otherKernel, otherGraph, otherCompiled, hother, rfl⟩)
  exact ⟨Except.ok.inj heq, hfinish⟩

theorem Completes.receives (hfaithful : IsFaithful tree)
    (h : Completes arguments kernel graph compiled before after) :
    (tree before).Receives
      (Artifact.files arguments.outputDirectory arguments.dataSet graph compiled) (tree after) := by
  obtain ⟨ready, hprepares, hwritten⟩ := h
  rw [← hprepares.tree_eq hfaithful]
  exact hwritten.receives hfaithful

theorem Completes.isComplete_eq_false_iff
    (h : Completes arguments kernel graph compiled before after) :
    compiled.views.isComplete = false ↔ ∃ table ∈ compiled.plan.tables, ∃ error,
      create ⟨kernel, arguments.materialized⟩ table = .error error := by
  obtain ⟨ready, ⟨text, schema, middle, top, -, -, -, -, hcompiled⟩, -⟩ := h
  rw [(compileGraph_eq_ok_iff.1 hcompiled).2]
  exact Batch.isComplete_eq_false_iff

/-- A run with good arguments fails, or it gets to its end and tells whether all
views were compiled. -/
theorem yields_run {words : List String} (hwords : Arguments.ofList words = .ok arguments)
    {outcome : Outcome} (h : Yields (run words) before outcome after) :
    (∃ failure, outcome = .failed failure ∧
        Yields (perform arguments) before (.error failure) after) ∨
      ∃ kernel graph compiled, outcome = .finished compiled.views.isComplete ∧
        Completes arguments kernel graph compiled before after := by
  rw [run, hwords] at h
  obtain ⟨result, middle, hresult, h⟩ := yields_bind_iff.1 h
  cases result with
  | error failure =>
    obtain ⟨rfl, rfl⟩ := yields_pure_iff.1 h
    exact Or.inl ⟨failure, rfl, hresult⟩
  | ok complete =>
    obtain ⟨rfl, rfl⟩ := yields_pure_iff.1 h
    obtain ⟨kernel, graph, compiled, hcompletes, rfl⟩ := yields_perform_ok_iff.1 hresult
    exact Or.inr ⟨kernel, graph, compiled, rfl, hcompletes⟩

/-- What a failed run leaves behind. Unless a directory or a file cannot be
created, it leaves nothing. Else there may be new directories, and the files
before the one that could not be written are there in full. -/
structure LeavesOnFailure (tree : σ → FileTree) (arguments : Arguments) (failure : Failure)
    (before after : σ) : Prop where
  tree_eq : ¬ failure.IsUnwritten → tree after = tree before
  cut : ∀ path fault, failure = .output (.unwritten path fault) →
    ∃ kernel graph compiled ready, Prepares arguments kernel graph compiled before ready ∧
      ((path = arguments.outputDirectory ∧
          Yields (createDirectories arguments.outputDirectory) ready (.error fault) after ∧
          (tree before).Receives [] (tree after)) ∨
        ∃ count text,
          (Artifact.files arguments.outputDirectory arguments.dataSet graph compiled)[count]? =
            some (path, text) ∧
          Artifact.IsCut
            (Artifact.files arguments.outputDirectory arguments.dataSet graph compiled) count
            (tree before) (tree after))

theorem leavesOnFailure_of_perform (hfaithful : IsFaithful tree) {failure : Failure}
    (h : Yields (perform arguments) before (.error failure) after) :
    LeavesOnFailure tree arguments failure before after := by
  rcases perform_error hfaithful h with ⟨hsame, hother⟩ | ⟨kernel, graph, compiled, ready, error,
    hprepares, rfl, hwrite⟩
  · refine ⟨fun _ => hsame, fun path fault heq => ?_⟩
    exact absurd ⟨path, fault, heq⟩ hother
  · have hready := hprepares.tree_eq hfaithful
    rcases Artifact.write_error hfaithful hwrite with ⟨fault, -, rfl, rfl⟩ |
      ⟨fault, hcreated, rfl, hreceives⟩ | ⟨count, path, text, fault, hfile, rfl, hcut⟩
    · exact ⟨fun _ => hready, fun path other heq => by simp at heq⟩
    · refine ⟨fun hother => absurd ⟨_, _, rfl⟩ hother, ?_⟩
      rintro path other heq
      obtain ⟨rfl, rfl⟩ := Artifact.Error.unwritten.inj (Failure.output.inj heq)
      rw [hready] at hreceives
      exact ⟨kernel, graph, compiled, ready, hprepares, Or.inl ⟨rfl, hcreated, hreceives⟩⟩
    · refine ⟨fun hother => absurd ⟨_, _, rfl⟩ hother, ?_⟩
      rintro other otherFault heq
      obtain ⟨rfl, rfl⟩ := Artifact.Error.unwritten.inj (Failure.output.inj heq)
      rw [hready] at hcut
      exact ⟨kernel, graph, compiled, ready, hprepares, Or.inr ⟨count, text, hfile, hcut⟩⟩

/-- The status of a run with good arguments and the files that it leaves. The
run gets to its end with status 0 or 1 exactly when it is prepared and all files
are written, and with 1 exactly when a planned table has no view. Else it fails
with status 2, and leaves nothing behind unless it fails in writing. -/
theorem run_outcome (hfaithful : IsFaithful tree) {words : List String}
    (hwords : Arguments.ofList words = .ok arguments) {outcome : Outcome}
    (h : Yields (run words) before outcome after) :
    (outcome.status = 0 ∨ outcome.status = 1 ↔
      ∃ kernel graph compiled finish, Completes arguments kernel graph compiled before finish) ∧
    (∀ kernel graph compiled finish, Completes arguments kernel graph compiled before finish →
      (outcome.status = 1 ↔ ∃ table ∈ compiled.plan.tables, ∃ error,
        create ⟨kernel, arguments.materialized⟩ table = .error error) ∧
      (tree before).Receives
        (Artifact.files arguments.outputDirectory arguments.dataSet graph compiled)
        (tree after)) ∧
    (¬ (outcome.status = 0 ∨ outcome.status = 1) → outcome.status = 2 ∧
      ∃ failure, outcome = .failed failure ∧
        LeavesOnFailure tree arguments failure before after) := by
  rcases yields_run hwords h with ⟨failure, rfl, hfailed⟩ | ⟨kernel, graph, compiled, rfl,
    hcompletes⟩
  · have hnone : ∀ kernel graph compiled finish,
        ¬ Completes arguments kernel graph compiled before finish := by
      intro kernel graph compiled finish hcompletes
      have hended := yields_perform_ok_iff.2 ⟨kernel, graph, compiled, hcompletes, rfl⟩
      nomatch (hended.unique hfailed).1
    refine ⟨iff_of_false (by simp [Outcome.status]) ?_, ?_, fun _ => ⟨rfl, failure, rfl, ?_⟩⟩
    · rintro ⟨kernel, graph, compiled, finish, hcompletes⟩
      exact hnone kernel graph compiled finish hcompletes
    · intro kernel graph compiled finish hcompletes
      exact absurd hcompletes (hnone kernel graph compiled finish)
    · exact leavesOnFailure_of_perform hfaithful hfailed
  · have hstatus : (Outcome.finished compiled.views.isComplete).status = 0 ∨
        (Outcome.finished compiled.views.isComplete).status = 1 := by
      cases compiled.views.isComplete with
      | true => exact Or.inl rfl
      | false => exact Or.inr rfl
    refine ⟨iff_of_true hstatus ⟨kernel, graph, compiled, after, hcompletes⟩, ?_,
      fun hneither => absurd hstatus hneither⟩
    intro otherKernel otherGraph otherCompiled finish hother
    obtain ⟨hviews, rfl⟩ := hcompletes.unique hother
    refine ⟨?_, hother.receives hfaithful⟩
    rw [hviews, ← hother.isComplete_eq_false_iff]
    cases otherCompiled.views.isComplete with
    | true => simp [Outcome.status]
    | false => simp [Outcome.status]

/-- A schema with a column, beside a directory for the output in which a
directory stands in place of the third file. -/
def stuckTree : FileTree where
  entries := [(["w"], .directory), (["w", "out"], .directory),
    (["w", "out", "s_graph.json"], .directory),
    (["w", "s.json"], .file (some ("\x7b\"$schema\":\"x\",\"properties\":" ++
      "\x7b\"a\":\x7b\"type\":\"string\"\x7d\x7d\x7d")))]
  here := ["w"]

def stuckWords : List String :=
  ["s.json", "--output-dir", "out"]

def stuckArguments : Arguments where
  schema := "s.json"
  name := none
  root := "root"
  outputDirectory := "out"
  kernelPath := none
  materialized := false
  verbose := false

theorem run_outcome_stuckTree :
    IsFaithful (fun tree : FileTree => tree) ∧
      Arguments.ofList stuckWords = .ok stuckArguments ∧
      ∃ outcome after, Yields (run stuckWords) stuckTree outcome after ∧ outcome.status = 2 ∧
        ∃ failure, outcome = .failed failure ∧
          LeavesOnFailure (fun tree => tree) stuckArguments failure stuckTree after := by
  have hwords : Arguments.ofList stuckWords = .ok stuckArguments := rfl
  obtain ⟨outcome, after, hrun⟩ := exists_yields (run stuckWords) stuckTree
  have hstatus : ((run stuckWords : StateM FileTree Outcome) stuckTree).1.status = 2 := by
    decide +kernel
  have hneither : ¬ (outcome.status = 0 ∨ outcome.status = 1) := by
    rw [Yields] at hrun
    simp only [hrun] at hstatus
    omega
  have hfails := (run_outcome FileTree.isFaithful_id hwords hrun).2.2 hneither
  exact ⟨FileTree.isFaithful_id, hwords, outcome, after, hrun, hfails⟩

end CommandLine

end DocumentViews
