import Mathlib
import DocumentViews.Files.Path

/-!
Paths of files in a directory. A name without slashes is the last segment of
its path.
-/

namespace DocumentViews.Path

theorem splitSlashes_ne_nil (text : List Char) : splitSlashes text ≠ [] := by
  cases text with
  | nil => simp [splitSlashes]
  | cons c rest =>
    rw [splitSlashes]
    split
    · simp
    · split <;> simp

theorem splitSlashes_append (first later : List Char) :
    splitSlashes (first ++ '/' :: later) = splitSlashes first ++ splitSlashes later := by
  induction first with
  | nil => rfl
  | cons c rest ih =>
    rw [List.cons_append, splitSlashes, splitSlashes]
    split
    · rw [ih, List.cons_append]
    · obtain ⟨segment, segments, hsplit⟩ := List.exists_cons_of_ne_nil (splitSlashes_ne_nil rest)
      rw [ih, hsplit]
      rfl

theorem splitSlashes_of_notMem {text : List Char} (h : '/' ∉ text) :
    splitSlashes text = [text] := by
  induction text with
  | nil => rfl
  | cons c rest ih =>
    rw [List.mem_cons, not_or] at h
    obtain ⟨hc, hrest⟩ := h
    rw [splitSlashes, if_neg (Ne.symm hc), ih hrest]

variable {file : String}

theorem segments_of_notMem (h : '/' ∉ file.toList) : segments file = [file] := by
  rw [segments, splitSlashes_of_notMem h]
  simp

theorem isAbsolute_of_notMem (h : '/' ∉ file.toList) : isAbsolute file = false := by
  rw [isAbsolute, beq_eq_false_iff_ne]
  intro hhead
  exact h (List.mem_of_head? hhead)

/-- A path can be cut at any of its slashes. -/
theorem segments_append (front rest : String) :
    segments (front ++ "/" ++ rest) = segments front ++ segments rest := by
  have hslash : (front ++ "/" ++ rest).toList = front.toList ++ '/' :: rest.toList := by
    rw [String.toList_append, String.toList_append, List.append_assoc]
    rfl
  rw [segments, hslash, splitSlashes_append, List.map_append, segments, segments]

/-- A directory is joined to a file by a single slash. -/
theorem exists_join_eq {directory : String} (hempty : directory ≠ "")
    (hrelative : isAbsolute file = false) : ∃ front, join directory file = front ++ "/" ++ file ∧
      (directory = front ∨ directory = front ++ "/") := by
  rw [join, if_neg (by simp [hrelative, hempty])]
  split
  · next hlast =>
    obtain ⟨front, hfront⟩ := List.getLast?_eq_some_iff.1 hlast
    have hdirectory : directory = String.ofList front ++ "/" := by
      rw [← String.toList_inj, hfront, String.toList_append, String.toList_ofList]
      rfl
    exact ⟨String.ofList front, by rw [hdirectory], Or.inr hdirectory⟩
  · exact ⟨directory, rfl, Or.inl rfl⟩

/-- A file is the last segment of its path in a directory. -/
theorem exists_segments_join (directory : String) (h : '/' ∉ file.toList) :
    ∃ before, segments (join directory file) = before ++ [file] := by
  by_cases hempty : directory = ""
  · rw [join, if_pos (Or.inr hempty)]
    exact ⟨[], segments_of_notMem h⟩
  · obtain ⟨front, hjoin, -⟩ := exists_join_eq hempty (isAbsolute_of_notMem h)
    rw [hjoin, segments_append, segments_of_notMem h]
    exact ⟨segments front, rfl⟩

end DocumentViews.Path
