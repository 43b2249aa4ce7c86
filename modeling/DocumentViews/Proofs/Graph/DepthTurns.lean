import Mathlib
import DocumentViews.Proofs.Graph.History
import DocumentViews.Proofs.Graph.ShortestPath

/-!
The turns of a depth-first search. In a turn the search looks at the next child
of the node on top of its stack. It leaves the node when no child is left, goes
past a child that was visited, and records any other child and enters it. A
search from one node ends after a turn for every edge and every node.
-/

namespace DocumentViews

namespace Discoveries

/-- Adds a child to what a node discovered. -/
def record (discoveries : Discoveries) (node child : Nat) : Discoveries :=
  discoveries.alter node fun children => children.getD [] ++ [child]

theorem record_cons (key : Nat) (children : List Nat) (rest : Discoveries) (node child : Nat) :
    record ((key, children) :: rest) node child =
      if node = key then (key, children ++ [child]) :: rest
      else (key, children) :: rest.record node child := rfl

theorem keys_cons (key : Nat) (children : List Nat) (rest : Discoveries) :
    Listing.keys ((key, children) :: rest) = key :: Listing.keys rest := rfl

theorem perm_found_record (discoveries : Discoveries) (node child : Nat) :
    (discoveries.record node child).found.Perm (child :: discoveries.found) := by
  induction discoveries with
  | nil => exact List.Perm.refl [child]
  | cons entry rest ih =>
    obtain ⟨key, children⟩ := entry
    rw [record_cons, found_cons]
    split
    · rw [found_cons, List.append_assoc]
      exact List.perm_middle
    · rw [found_cons]
      exact (ih.append_left children).trans List.perm_middle

theorem keys_record (discoveries : Discoveries) (node child : Nat) :
    Listing.keys (discoveries.record node child) =
      if node ∈ Listing.keys discoveries then Listing.keys discoveries
      else Listing.keys discoveries ++ [node] := by
  induction discoveries with
  | nil => rfl
  | cons entry rest ih =>
    obtain ⟨key, children⟩ := entry
    rw [record_cons, keys_cons]
    by_cases hkey : node = key
    · simp [keys_cons, hkey]
    · rw [if_neg hkey, keys_cons, ih]
      by_cases hin : node ∈ Listing.keys rest
      · simp [hin]
      · simp [hin, hkey]

theorem ne_nil_of_mem_record {discoveries : Discoveries} {node child : Nat}
    (h : ∀ entry ∈ discoveries, entry.2 ≠ []) :
    ∀ entry ∈ discoveries.record node child, entry.2 ≠ [] := by
  induction discoveries with
  | nil => simp [record, Listing.alter]
  | cons first rest ih =>
    obtain ⟨key, children⟩ := first
    obtain ⟨hfirst, hrest⟩ := List.forall_mem_cons.1 h
    rw [record_cons]
    split
    · exact List.forall_mem_cons.2 ⟨by simp, hrest⟩
    · exact List.forall_mem_cons.2 ⟨hfirst, ih hrest⟩

/-- A new child belongs to the node for which it is recorded. -/
theorem discoverer?_record {discoveries : Discoveries} {node child : Nat}
    (hnew : child ∉ discoveries.found) (other : Nat) :
    (discoveries.record node child).discoverer? other =
      if other = child then some node else discoveries.discoverer? other := by
  induction discoveries with
  | nil =>
    rw [record, Listing.alter, discoverer?_cons]
    simp
  | cons entry rest ih =>
    obtain ⟨key, children⟩ := entry
    rw [found_cons, List.mem_append, not_or] at hnew
    rw [record_cons, discoverer?_cons]
    split
    · next hkey =>
      rw [discoverer?_cons, hkey]
      by_cases hother : other = child
      · simp [hother]
      · simp [hother]
    · rw [discoverer?_cons, ih hnew.2]
      by_cases hother : other = child
      · simp [hother, hnew.1]
      · simp [hother]

end Discoveries

namespace Graph

variable {graph : Graph} {limit : Option Nat} {visited : List Nat} {found : Discoveries}
  {frame : Frame} {below : List Frame} {start child : Nat}

/-- The children that a search goes through in a node: none at the limit. -/
def childrenBelow (graph : Graph) (limit : Option Nat) (depth node : Nat) : List Nat :=
  if limit.any (· ≤ depth) then [] else graph.children node

theorem mem_childrenBelow {depth node : Nat} :
    child ∈ graph.childrenBelow limit depth node ↔
      (∀ bound ∈ limit, depth < bound) ∧ child ∈ graph.children node := by
  rw [childrenBelow, ← any_le_eq_false_iff]
  cases limit.any (· ≤ depth) with
  | true => simp
  | false => simp

/-- A frame after a look at its next child. -/
def Frame.advance (frame : Frame) : Frame :=
  { frame with seen := frame.seen + 1 }

/-- The search looks at the next child of the innermost node. -/
theorem descend_cons (graph : Graph) (limit : Option Nat) (visited : List Nat)
    (found : Discoveries) (frame : Frame) (below : List Frame) :
    graph.descend limit visited found (frame :: below) =
      match (graph.childrenBelow limit frame.depth frame.node)[frame.seen]? with
      | none => graph.descend limit visited found below
      | some child =>
        if child ∈ visited then graph.descend limit visited found (frame.advance :: below)
        else
          graph.descend limit (child :: visited) (found.record frame.node child)
            (⟨child, frame.depth + 1, 0⟩ :: frame.advance :: below) := by
  rw [descend, childrenBelow]
  split
  · rfl
  · cases (graph.children frame.node)[frame.seen]? with
    | none => rfl
    | some child => rfl

/-- The search with a count of its turns, which gives up when none are left. -/
def run (graph : Graph) (limit : Option Nat) :
    Nat → List Nat → Discoveries → List Frame → Option Discoveries
  | 0, _, _, _ => none
  | _ + 1, _, found, [] => some found
  | turns + 1, visited, found, frame :: below =>
    match (graph.childrenBelow limit frame.depth frame.node)[frame.seen]? with
    | none => graph.run limit turns visited found below
    | some child =>
      if child ∈ visited then graph.run limit turns visited found (frame.advance :: below)
      else
        graph.run limit turns (child :: visited) (found.record frame.node child)
          (⟨child, frame.depth + 1, 0⟩ :: frame.advance :: below)

theorem getElem?_childrenBelow {depth node seen : Nat}
    (h : (graph.childrenBelow limit depth node)[seen]? = some child) :
    child < graph.nodes.length ∧ seen < (graph.children node).length := by
  rw [childrenBelow] at h
  split at h
  · simp at h
  · exact ⟨lt_of_mem_children (List.mem_of_getElem? h), (List.getElem?_eq_some_iff.1 h).1⟩

theorem turnsLeft_leave (graph : Graph) (visited : List Nat) (frame : Frame)
    (below : List Frame) : graph.turnsLeft visited below <
      graph.turnsLeft visited (frame :: below) := by
  simp only [turnsLeft, turns, total]
  omega

theorem turnsLeft_advance (visited : List Nat) (below : List Frame)
    (hseen : frame.seen < (graph.children frame.node).length) :
    graph.turnsLeft visited (frame.advance :: below) <
      graph.turnsLeft visited (frame :: below) := by
  simp only [turnsLeft, turns, total, Frame.advance]
  omega

theorem turnsLeft_enter (depth : Nat) (stack : List Frame) (hchild : child < graph.nodes.length)
    (hnew : child ∉ visited) :
    graph.turnsLeft (child :: visited) (⟨child, depth, 0⟩ :: stack) ≤
      graph.turnsLeft visited stack := by
  have hweights := total_unvisited_cons graph (graph.turns · 0) hchild hnew
  simp only [turnsLeft, total]
  omega

/-- The search ends within the turns that are left. -/
theorem run_eq_descend (limit : Option Nat) (found : Discoveries) {turns : Nat}
    {stack : List Frame} (h : graph.turnsLeft visited stack < turns) :
    graph.run limit turns visited found stack = some (graph.descend limit visited found stack) := by
  induction turns generalizing visited found stack with
  | zero => omega
  | succ turns ih =>
    cases stack with
    | nil => rw [run, descend]
    | cons frame below =>
      rw [run, descend_cons]
      cases hnext : (graph.childrenBelow limit frame.depth frame.node)[frame.seen]? with
      | none =>
        have hleave := turnsLeft_leave graph visited frame below
        exact ih found (by omega)
      | some child =>
        obtain ⟨hchild, hseen⟩ := getElem?_childrenBelow hnext
        have hadvance := turnsLeft_advance visited below hseen
        by_cases hvisited : child ∈ visited
        · simp only [hvisited, if_true]
          exact ih found (by omega)
        · simp only [hvisited, if_false]
          have henter := turnsLeft_enter (frame.depth + 1) (frame.advance :: below) hchild hvisited
          exact ih _ (by omega)

theorem total_eq_sum_map {α : Type} (weight : α → Nat) (items : List α) :
    total weight items = (items.map weight).sum := by
  induction items with
  | nil => rfl
  | cons item rest ih => rw [total, ih, List.map_cons, List.sum_cons]

/-- At the start of a search a turn is left for every edge and every node that
can be reached from there. -/
theorem turnsLeft_start (hstart : start < graph.nodes.length) :
    graph.turnsLeft [start] [⟨start, 0, 0⟩] ≤ graph.edges.length + graph.nodes.length := by
  have hnone : graph.unvisited [] = graph.indices := by simp [unvisited]
  have hall : total (graph.turns · 0) graph.indices = graph.edges.length + graph.nodes.length := by
    rw [total_eq_sum_map, length_edges_eq_children]
    simp only [turns, Nat.sub_zero, List.sum_map_add]
    simp [indices]
  calc
    graph.turnsLeft [start] [⟨start, 0, 0⟩] ≤ graph.turnsLeft [] [] :=
      turnsLeft_enter 0 [] hstart (List.not_mem_nil)
    _ = graph.edges.length + graph.nodes.length := by
      rw [turnsLeft, hnone, hall, total, Nat.add_zero]

end Graph

end DocumentViews
