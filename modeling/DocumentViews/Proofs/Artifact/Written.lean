import Mathlib
import DocumentViews.Artifact.Write
import DocumentViews.Proofs.Files.Access

/-!
The files of an output. A valid name keeps them in the directory of the output
and apart from each other, so files that were written are not touched by later
ones. When a file cannot be written, those before it are there in full and
those behind it are as they were.
-/

namespace DocumentViews.Artifact

open FileAccess View

/-- The files of an output with their texts, in the order of their writing. -/
def files (directory name : String) (graph : Graph) (compiled : CompiledPlan) :
    List (String × String) :=
  (all graph compiled).map fun artifact => (filePath directory name artifact.1, artifact.2)

variable {σ : Type} [FileAccess (StateM σ)] {tree : σ → FileTree} {before after : σ}
  {outputs : List (String × String)} {directory name : String} {graph : Graph}
  {compiled : CompiledPlan}

theorem yields_writeFiles_ok_iff {paths : List String} :
    Yields (writeFiles outputs) before (.ok paths) after ↔
      Writes before outputs after ∧ paths = outputs.map Prod.fst := by
  induction outputs generalizing before after paths with
  | nil =>
    rw [writeFiles, yields_pure_iff]
    constructor
    · rintro ⟨heq, rfl⟩
      exact ⟨.nil after, Except.ok.inj heq⟩
    · rintro ⟨hwrites, rfl⟩
      cases hwrites
      exact ⟨rfl, rfl⟩
  | cons output rest ih =>
    obtain ⟨path, text⟩ := output
    rw [writeFiles, yields_bind_iff]
    constructor
    · rintro ⟨written, middle, hwritten, h⟩
      cases written with
      | error fault => nomatch (yields_pure_iff.1 h).1
      | ok done =>
        obtain ⟨later, last, hlater, h⟩ := yields_bind_iff.1 h
        cases later with
        | error error => nomatch (yields_pure_iff.1 h).1
        | ok others =>
          obtain ⟨hwrites, rfl⟩ := ih.1 hlater
          obtain ⟨heq, rfl⟩ := yields_pure_iff.1 h
          exact ⟨.cons hwritten hwrites, Except.ok.inj heq⟩
    · rintro ⟨hwrites, rfl⟩
      cases hwrites with
      | cons hwrite hrest =>
        refine ⟨.ok (), _, hwrite, yields_bind_iff.2 ⟨_, _, ih.2 ⟨hrest, rfl⟩, ?_⟩⟩
        exact yields_pure_iff.2 ⟨rfl, rfl⟩

/-- The file at which the writing stops, and the fault. All files before it were
written. -/
theorem exists_stuck_of_yields_writeFiles {error : Error}
    (h : Yields (writeFiles outputs) before (.error error) after) :
    ∃ count path text fault stuck, outputs[count]? = some (path, text) ∧
      Writes before (outputs.take count) stuck ∧
      Yields (FileAccess.write path text) stuck (.error fault) after ∧
      error = .unwritten path fault := by
  induction outputs generalizing before after error with
  | nil => nomatch (yields_pure_iff.1 h).1
  | cons output rest ih =>
    obtain ⟨path, text⟩ := output
    obtain ⟨written, middle, hwritten, h⟩ := yields_bind_iff.1 h
    cases written with
    | error fault =>
      obtain ⟨heq, rfl⟩ := yields_pure_iff.1 h
      exact ⟨0, path, text, fault, before, rfl, .nil before, hwritten, Except.error.inj heq⟩
    | ok done =>
      obtain ⟨later, last, hlater, h⟩ := yields_bind_iff.1 h
      cases later with
      | ok others => nomatch (yields_pure_iff.1 h).1
      | error error =>
        obtain ⟨heq, rfl⟩ := yields_pure_iff.1 h
        obtain ⟨count, other, text, fault, stuck, houtput, hwrites, hwrite, rfl⟩ := ih hlater
        exact ⟨count + 1, other, text, fault, stuck, houtput, .cons hwritten hwrites, hwrite,
          Except.error.inj heq⟩

/-- The four endings are different. -/
theorem pairwise_all (graph : Graph) (compiled : CompiledPlan) :
    (all graph compiled).Pairwise fun first second => first.1 ≠ second.1 := by
  simp [all]

theorem notMem_of_nameFault? (h : nameFault? name = none) : '/' ∉ name.toList := by
  unfold nameFault? at h
  split at h
  · nomatch h
  · split at h
    · nomatch h
    · split at h
      · nomatch h
      · split at h
        · nomatch h
        · next hplain => exact fun hslash => hplain (Or.inl hslash)

/-- What is behind a line is more than a dot or two. -/
theorem fileName_ne (name ending : String) : name ++ "_" ++ ending ≠ "" ∧
    name ++ "_" ++ ending ≠ "." ∧ name ++ "_" ++ ending ≠ ".." := by
  have hline : '_' ∈ (name ++ "_" ++ ending).toList := by
    simp
  refine ⟨fun heq => ?_, fun heq => ?_, fun heq => ?_⟩ <;>
    · rw [heq] at hline
      revert hline
      decide

/-- What the names of the files end with. -/
def endings : List String :=
  ["views.sql", "relationships.json", "graph.json", "report.md"]

theorem map_fst_all (graph : Graph) (compiled : CompiledPlan) :
    (all graph compiled).map Prod.fst = endings := rfl

theorem slash_notMem_fileName (hname : nameFault? name = none) {ending : String}
    (h : ending ∈ endings) : '/' ∉ (name ++ "_" ++ ending).toList := by
  have hendings : ∀ ending ∈ endings, '/' ∉ ending.toList := by decide
  rw [String.toList_append, String.toList_append, List.mem_append, List.mem_append, not_or, not_or]
  exact ⟨⟨notMem_of_nameFault? hname, by decide⟩, hendings ending h⟩

/-- With a valid name an artifact has its name as the last step to it. -/
theorem getLast?_of_filePath (hname : nameFault? name = none) {artifact : String × String}
    (hartifact : artifact ∈ all graph compiled) {files : FileTree} {place : List String}
    (hplace : files.place? (filePath directory name artifact.1) = some place) :
    place.getLast? = some (name ++ "_" ++ artifact.1) := by
  have hending : artifact.1 ∈ endings :=
    map_fst_all graph compiled ▸ List.mem_map_of_mem hartifact
  obtain ⟨segments, hsegments⟩ :=
    Path.exists_segments_join directory (slash_notMem_fileName hname hending)
  exact FileTree.getLast?_of_place? hsegments (fileName_ne name artifact.1) hplace

/-- The files of an output with a valid name have places of their own. -/
theorem apart_files (hname : nameFault? name = none) :
    FileTree.Apart (files directory name graph compiled) := by
  refine List.pairwise_map.2 ((pairwise_all graph compiled).imp_of_mem ?_)
  intro first second hfirst hsecond hne tree place hplace hother
  have hlast := getLast?_of_filePath hname hfirst hplace
  rw [getLast?_of_filePath hname hsecond hother, Option.some.injEq] at hlast
  exact hne (String.append_right_inj _ |>.1 hlast.symm)

/-- An output is written: its name is valid, its directory is there or gets
created, and so are all its files. -/
structure IsWritten (directory name : String) (graph : Graph) (compiled : CompiledPlan)
    (before after : σ) : Prop where
  valid : nameFault? name = none
  wrote : ∃ made, Yields (createDirectories directory) before (.ok ()) made ∧
    Writes made (files directory name graph compiled) after

theorem yields_write_ok_iff {paths : List String} :
    Yields (write directory name graph compiled) before (.ok paths) after ↔
      IsWritten directory name graph compiled before after ∧
        paths = (files directory name graph compiled).map Prod.fst := by
  rw [write]
  split
  · next fault hname =>
    rw [yields_pure_iff]
    refine iff_of_false (by simp) fun h => ?_
    rw [h.1.valid] at hname
    nomatch hname
  · next hname =>
    rw [yields_bind_iff]
    constructor
    · rintro ⟨created, made, hcreated, h⟩
      cases created with
      | error fault => nomatch (yields_pure_iff.1 h).1
      | ok done =>
        obtain ⟨hwrites, hpaths⟩ := yields_writeFiles_ok_iff.1 h
        exact ⟨⟨hname, made, hcreated, hwrites⟩, hpaths⟩
    · rintro ⟨⟨-, made, hcreated, hwrites⟩, hpaths⟩
      exact ⟨.ok (), made, hcreated, yields_writeFiles_ok_iff.2 ⟨hwrites, hpaths⟩⟩

/-- The tree has received all files of an output that is written. -/
theorem IsWritten.receives (hfaithful : IsFaithful tree)
    (h : IsWritten directory name graph compiled before after) :
    (tree before).Receives (files directory name graph compiled) (tree after) := by
  obtain ⟨made, hcreated, hwrites⟩ := h.wrote
  exact (hwrites.takes hfaithful).receives (apart_files h.valid)
    (hfaithful.createDirectories hcreated)

/-- What is there of files when the one at the given place among them cannot be
written: those before it in full, and nothing new of it and of those behind. -/
structure IsCut (outputs : List (String × String)) (count : Nat) (before after : FileTree) :
    Prop where
  receives : before.Receives (outputs.take count) after
  isLeft : ∀ file ∈ outputs.drop count, ∀ place, after.place? file.1 = some place →
    before.IsLeft after place

theorem isCut_of_writes (hfaithful : IsFaithful tree) {made stuck : σ} {count : Nat}
    (hcreated : Yields (createDirectories directory) before (.ok ()) made)
    (hwrites : Writes made (outputs.take count) stuck) (hapart : FileTree.Apart outputs)
    (hsame : tree after = tree stuck) : IsCut outputs count (tree before) (tree after) := by
  rw [← List.take_append_drop count outputs, FileTree.Apart, List.pairwise_append] at hapart
  obtain ⟨hdone, -, hpending⟩ := hapart
  have hreceives := (hwrites.takes hfaithful).receives hdone
    (hfaithful.createDirectories hcreated)
  rw [hsame]
  refine ⟨hreceives, fun file hfile place hplace => hreceives.isLeft place ?_⟩
  intro other hother heq
  exact hpending other hother file hfile _ place heq hplace

/-- Why an output is not written: its name is no good, and then nothing
happens, or its directory or one of its files cannot be created. -/
theorem write_error (hfaithful : IsFaithful tree) {error : Error}
    (h : Yields (write directory name graph compiled) before (.error error) after) :
    (∃ fault, nameFault? name = some fault ∧ error = .badName name fault ∧ after = before) ∨
      (∃ fault, Yields (createDirectories directory) before (.error fault) after ∧
        error = .unwritten directory fault ∧ (tree before).Receives [] (tree after)) ∨
      ∃ count path text fault, (files directory name graph compiled)[count]? = some (path, text) ∧
        error = .unwritten path fault ∧
        IsCut (files directory name graph compiled) count (tree before) (tree after) := by
  rw [write] at h
  split at h
  · next fault hname =>
    obtain ⟨heq, rfl⟩ := yields_pure_iff.1 h
    exact Or.inl ⟨fault, hname, Except.error.inj heq, rfl⟩
  · next hname =>
    obtain ⟨created, made, hcreated, h⟩ := yields_bind_iff.1 h
    cases created with
    | error fault =>
      obtain ⟨heq, rfl⟩ := yields_pure_iff.1 h
      have hfurnishes := hfaithful.createDirectories hcreated
      refine Or.inr (Or.inl ⟨fault, hcreated, Except.error.inj heq, ?_⟩)
      exact (FileTree.Takes.nil _).receives List.Pairwise.nil hfurnishes
    | ok done =>
      obtain ⟨count, path, text, fault, stuck, hfile, hwrites, hwrite, rfl⟩ :=
        exists_stuck_of_yields_writeFiles h
      refine Or.inr (Or.inr ⟨count, path, text, fault, hfile, rfl, ?_⟩)
      exact isCut_of_writes hfaithful hcreated hwrites (apart_files hname)
        (hfaithful.write_error hwrite)

end DocumentViews.Artifact
