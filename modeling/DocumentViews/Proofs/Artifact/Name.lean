import Mathlib
import DocumentViews.Proofs.Artifact.Written
import DocumentViews.Proofs.Files.Component
import DocumentViews.Proofs.Text.Blank

/-!
What a name without faults is good for. The faults overlap, and the first that
applies is told. The files of an accepted name lie right in their directory,
and different accepted names have no file in common: what stands before the
last line of a file name is the name it was made of.
-/

namespace DocumentViews.Artifact

open View

/-- Whether a name has a fault, whatever other faults it has. -/
def NameFault.Applies (name : String) : NameFault → Prop
  | blank => Text.trimmed name = ""
  | absolute => name.toList.head? = some '/'
  | traversal => ['.', '.'] ∈ name.toList.splitOn '/'
  | separator => '/' ∈ name.toList ∨ '\\' ∈ name.toList

instance (name : String) : DecidablePred (NameFault.Applies name)
  | .blank => inferInstanceAs (Decidable (_ = _))
  | .absolute => inferInstanceAs (Decidable (_ = _))
  | .traversal => inferInstanceAs (Decidable (_ ∈ _))
  | .separator => inferInstanceAs (Decidable (_ ∨ _))

/-- The faults in the order in which they are looked for. -/
def NameFault.all : List NameFault :=
  [blank, absolute, traversal, separator]

variable {directory otherDirectory name other : String} {graph otherGraph : Graph}
  {compiled otherCompiled : CompiledPlan}

theorem nameFault?_eq_find? (name : String) :
    nameFault? name = NameFault.all.find? fun fault => fault.Applies name := by
  have hblank : NameFault.blank.Applies name ↔ Text.isBlank name = true :=
    Text.isBlank_iff.symm
  have habsolute : NameFault.absolute.Applies name ↔ Path.isAbsolute name = true :=
    beq_iff_eq.symm
  have htraversal : NameFault.traversal.Applies name ↔ ".." ∈ Path.segments name :=
    (Path.mem_segments_iff ".." name).symm
  have hseparator : NameFault.separator.Applies name ↔ '/' ∈ name.toList ∨ '\\' ∈ name.toList :=
    Iff.rfl
  simp only [NameFault.all, List.find?_cons, List.find?_nil, hblank, habsolute, htraversal,
    hseparator]
  rw [nameFault?]
  grind

theorem traversal_iff_of_notMem (h : '/' ∉ name.toList) :
    NameFault.traversal.Applies name ↔ name = ".." := by
  rw [NameFault.Applies, ← Path.splitSlashes_eq_splitOn, Path.splitSlashes_of_notMem h,
    List.mem_singleton, ← String.toList_inj]
  exact eq_comm

theorem nameFault?_eq_none_iff : nameFault? name = none ↔
    Text.trimmed name ≠ "" ∧ '/' ∉ name.toList ∧ '\\' ∉ name.toList ∧ name ≠ ".." := by
  rw [nameFault?_eq_find?, NameFault.all, List.find?_eq_none]
  simp only [List.forall_mem_cons, List.not_mem_nil, false_imp_iff, implies_true, and_true,
    decide_eq_true_eq]
  constructor
  · rintro ⟨hblank, -, htraversal, hseparator⟩
    have hslash : '/' ∉ name.toList := fun h => hseparator (Or.inl h)
    exact ⟨hblank, hslash, fun h => hseparator (Or.inr h),
      fun h => htraversal ((traversal_iff_of_notMem hslash).2 h)⟩
  · rintro ⟨hblank, hslash, hbackslash, hdots⟩
    exact ⟨hblank, fun h => hslash (List.mem_of_head? h),
      fun h => hdots ((traversal_iff_of_notMem hslash).1 h), not_or.2 ⟨hslash, hbackslash⟩⟩

/-- The components of the paths of the files of an output. -/
def placesOf (directory name : String) (graph : Graph) (compiled : CompiledPlan) :
    List (List Path.Component) :=
  (files directory name graph compiled).map fun file => Path.components file.1

theorem isFileName (hname : nameFault? name = none) {ending : String} (h : ending ∈ endings) :
    Path.IsFileName (name ++ "_" ++ ending) := by
  obtain ⟨hempty, hdot, hdots⟩ := fileName_ne name ending
  exact ⟨slash_notMem_fileName hname h, by simp [Path.isIdle, hempty, hdot], hdots⟩

/-- Each file adds one component to the directory, made of the name. -/
theorem placesOf_eq (hname : nameFault? name = none) :
    placesOf directory name graph compiled = endings.map fun ending =>
      Path.components directory ++ [.ordinary (name ++ "_" ++ ending)] := by
  have hfiles : placesOf directory name graph compiled = endings.map fun ending =>
      Path.components (filePath directory name ending) := rfl
  rw [hfiles]
  exact List.map_congr_left fun ending hending =>
    (isFileName hname hending).components_join directory

/-- The last line parts a file name into the name and the ending. -/
theorem fileName_inj {ending last : String} (hending : '_' ∉ ending.toList)
    (hlast : '_' ∉ last.toList) (heq : name ++ "_" ++ ending = other ++ "_" ++ last) :
    name = other := by
  have hlists : name.toList ++ '_' :: ending.toList = other.toList ++ '_' :: last.toList := by
    simpa using congrArg String.toList heq
  rw [← String.toList_inj]
  rcases List.append_eq_append_iff.1 hlists with ⟨between, hother, hrest⟩ | ⟨between, hname, hrest⟩
  · cases between with
    | nil => rw [hother, List.append_nil]
    | cons c between =>
      rw [List.cons_append, List.cons.injEq] at hrest
      exact absurd (hrest.2 ▸ by simp) hending
  · cases between with
    | nil => rw [hname, List.append_nil]
    | cons c between =>
      rw [List.cons_append, List.cons.injEq] at hrest
      exact absurd (hrest.2 ▸ by simp) hlast

theorem underscore_notMem_of_mem_endings : ∀ ending ∈ endings, '_' ∉ ending.toList := by
  decide

theorem disjoint_placesOf (hname : nameFault? name = none) (hother : nameFault? other = none)
    (hne : name ≠ other) : List.Disjoint (placesOf directory name graph compiled)
      (placesOf otherDirectory other otherGraph otherCompiled) := by
  rw [placesOf_eq hname, placesOf_eq hother]
  intro place hplace hshared
  obtain ⟨ending, hending, rfl⟩ := List.mem_map.1 hplace
  obtain ⟨last, hlast, heq⟩ := List.mem_map.1 hshared
  have hcomponent := (List.append_inj' heq rfl).2
  rw [List.singleton_inj, Path.Component.ordinary.injEq] at hcomponent
  exact hne (fileName_inj (underscore_notMem_of_mem_endings ending hending)
    (underscore_notMem_of_mem_endings last hlast) hcomponent.symm)

/-- In no file tree do two outputs of different names share a file, wherever
their directories lead. -/
theorem apart_files_append (hname : nameFault? name = none) (hother : nameFault? other = none)
    (hne : name ≠ other) : FileTree.Apart (files directory name graph compiled ++
      files otherDirectory other otherGraph otherCompiled) := by
  refine List.pairwise_append.2 ⟨apart_files hname, apart_files hother, ?_⟩
  intro file hfile file' hfile' tree place hplace hshared
  obtain ⟨artifact, hartifact, rfl⟩ := List.mem_map.1 hfile
  obtain ⟨artifact', hartifact', rfl⟩ := List.mem_map.1 hfile'
  have hlast := getLast?_of_filePath hname hartifact hplace
  rw [getLast?_of_filePath hother hartifact' hshared, Option.some.injEq] at hlast
  exact hne (fileName_inj
    (underscore_notMem_of_mem_endings _ (List.mem_map_of_mem hartifact))
    (underscore_notMem_of_mem_endings _ (List.mem_map_of_mem hartifact')) hlast.symm)

/-- Which names are accepted, what is told of the others, and that the files of
accepted names neither leave their directory nor meet. -/
theorem nameFault?_exact :
    (∀ name, nameFault? name = none ↔
      Text.trimmed name ≠ "" ∧ '/' ∉ name.toList ∧ '\\' ∉ name.toList ∧ name ≠ "..") ∧
    (∀ name, nameFault? name = NameFault.all.find? fun fault => fault.Applies name) ∧
    (∀ directory name graph compiled, nameFault? name = none →
      placesOf directory name graph compiled = endings.map fun ending =>
        Path.components directory ++ [.ordinary (name ++ "_" ++ ending)]) ∧
    ∀ directory otherDirectory name other graph otherGraph compiled otherCompiled,
      nameFault? name = none → nameFault? other = none → name ≠ other →
        List.Disjoint (placesOf directory name graph compiled)
          (placesOf otherDirectory other otherGraph otherCompiled) :=
  ⟨fun _ => nameFault?_eq_none_iff, nameFault?_eq_find?,
    fun _ _ _ _ hname => placesOf_eq hname,
    fun _ _ _ _ _ _ _ _ hname hother hne => disjoint_placesOf hname hother hne⟩

/-- The name of an output may be that of a file of another one. -/
theorem nameFault?_exact_docs :
    let graph := Graph.empty "docs"
    let compiled : CompiledPlan := ⟨⟨"docs", [], []⟩, ⟨[], []⟩⟩
    nameFault? "docs" = none ∧ nameFault? "docs_views.sql" = none ∧ "docs" ≠ "docs_views.sql" ∧
      placesOf "../out/" "docs" graph compiled = endings.map (fun ending =>
        [.up, .ordinary "out", .ordinary ("docs" ++ "_" ++ ending)]) ∧
      List.Disjoint (placesOf "../out/" "docs" graph compiled)
        (placesOf "../out" "docs_views.sql" graph compiled) := by
  intro graph compiled
  obtain ⟨haccepted, -, hplaces, hdisjoint⟩ := nameFault?_exact
  have hname : nameFault? "docs" = none := (haccepted _).2 (by decide)
  have hother : nameFault? "docs_views.sql" = none := (haccepted _).2 (by decide)
  exact ⟨hname, hother, by decide, hplaces _ _ graph compiled hname,
    hdisjoint _ _ _ _ graph graph compiled compiled hname hother (by decide)⟩

end DocumentViews.Artifact
