import Mathlib
import DocumentViews.Proofs.Files.Path

/-!
Components of paths. Only a slash or a dot at the very front of a path counts
beside the steps, and a file adds one ordinary component to its directory.
-/

namespace DocumentViews.Path

inductive Component where
  /-- The slash at the front of an absolute path. -/
  | root
  /-- The dot at the front of a relative path. -/
  | here
  /-- Two dots. -/
  | up
  | ordinary (name : String)
  deriving DecidableEq

def Component.ofStep (step : String) : Component :=
  if step = ".." then up else ordinary step

/-- What stands in front of the steps. -/
def lead (path : String) : List Component :=
  if isAbsolute path then [.root]
  else if (segments path).head? = some "." then [.here]
  else []

def components (path : String) : List Component :=
  lead path ++ (steps path).map Component.ofStep

theorem splitSlashes_eq_splitOn (text : List Char) : splitSlashes text = text.splitOn '/' := by
  induction text with
  | nil => rfl
  | cons c rest ih =>
    rw [splitSlashes, ih]
    simp only [List.splitOn, List.splitOnP_cons_eq_if_modifyHead, beq_iff_eq]
    split
    · rfl
    · cases hrest : rest.splitOnP (· == '/') with
      | nil => exact absurd hrest (List.splitOnP_ne_nil _ _)
      | cons segment segments => rfl

theorem mem_segments_iff (segment path : String) :
    segment ∈ segments path ↔ segment.toList ∈ path.toList.splitOn '/' := by
  rw [segments, splitSlashes_eq_splitOn, List.mem_map]
  constructor
  · rintro ⟨text, htext, rfl⟩
    rwa [String.toList_ofList]
  · exact fun h => ⟨_, h, String.ofList_toList⟩

theorem segments_ne_nil (path : String) : segments path ≠ [] := by
  simp [segments, splitSlashes_ne_nil]

theorem segments_slash (path : String) : segments (path ++ "/") = segments path ++ [""] := by
  have hempty : segments "" = [""] := rfl
  simpa [hempty] using segments_append path ""

theorem steps_append (front rest : String) :
    steps (front ++ "/" ++ rest) = steps front ++ steps rest := by
  rw [steps, segments_append, List.filter_append, steps, steps]

theorem steps_slash (path : String) : steps (path ++ "/") = steps path := by
  rw [steps, segments_slash, List.filter_append, steps]
  exact List.append_nil _

theorem isAbsolute_append {front : String} (h : front ≠ "") (rest : String) :
    isAbsolute (front ++ rest) = isAbsolute front := by
  have hfront : front.toList ≠ [] := fun hnil => h (String.toList_eq_nil_iff.1 hnil)
  rw [isAbsolute, String.toList_append, List.head?_append_of_ne_nil _ hfront, isAbsolute]

/-- What is behind a slash has no part in the lead. -/
theorem lead_append (front rest : String) :
    lead (front ++ "/" ++ rest) = lead (front ++ "/") := by
  have hfront := segments_ne_nil front
  rw [lead, lead, isAbsolute_append (by simp), segments_append, segments_slash,
    List.head?_append_of_ne_nil _ hfront, List.head?_append_of_ne_nil _ hfront]

/-- A slash at the end of a path says nothing more. -/
theorem components_slash {path : String} (h : path ≠ "") :
    components (path ++ "/") = components path := by
  rw [components, components, steps_slash, lead, isAbsolute_append h, segments_slash,
    List.head?_append_of_ne_nil _ (segments_ne_nil path), lead]

/-- A file name is a single ordinary component: it has no slash and is no dot
or two. -/
structure IsFileName (file : String) : Prop where
  slash : '/' ∉ file.toList
  idle : isIdle file = false
  up : file ≠ ".."

variable {file : String}

theorem IsFileName.steps_eq (h : IsFileName file) : steps file = [file] := by
  rw [steps, segments_of_notMem h.slash, List.filter_singleton, h.idle]
  rfl

theorem IsFileName.components_eq (h : IsFileName file) : components file = [.ordinary file] := by
  have hdot : file ≠ "." := by
    rintro rfl
    nomatch h.idle
  rw [components, h.steps_eq, lead, isAbsolute_of_notMem h.slash, segments_of_notMem h.slash]
  simp [hdot, Component.ofStep, h.up]

/-- A file adds exactly one component to its directory. -/
theorem IsFileName.components_join (h : IsFileName file) (directory : String) :
    components (join directory file) = components directory ++ [.ordinary file] := by
  have hbehind : ∀ front, components (front ++ "/" ++ file) =
      components (front ++ "/") ++ [.ordinary file] := by
    intro front
    rw [components, components, lead_append, steps_append, h.steps_eq, steps_slash,
      List.map_append, List.append_assoc, List.map_singleton, Component.ofStep, if_neg h.up]
  by_cases hempty : directory = ""
  · have hnone : components "" = [] := rfl
    rw [join, if_pos (Or.inr hempty), h.components_eq, hempty, hnone, List.nil_append]
  · obtain ⟨front, hjoin, hfront⟩ := exists_join_eq hempty (isAbsolute_of_notMem h.slash)
    rw [hjoin, hbehind]
    rcases hfront with rfl | rfl
    · rw [components_slash hempty]
    · rfl

end DocumentViews.Path
