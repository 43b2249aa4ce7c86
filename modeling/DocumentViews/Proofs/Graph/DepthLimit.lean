import Mathlib
import DocumentViews.Proofs.Graph.DepthFirst

/-!
The limit in the two orders of a search. The breadth-first search finds the
nodes within the limit. The depth-first search finds some of them. It can enter
a node at the limit though the node is nearer to the start, and goes no further
from there, so it may miss a child of the node that is within the limit too.
The two agree just when it misses no such child.
-/

namespace DocumentViews

namespace Graph

variable {graph : Graph} {limit : Option Nat} {start node steps : Nat} {trail : Trail start}

/-- A search has come to a node at the limit though fewer steps lead there. -/
def EntersLate (graph : Graph) (limit : Option Nat) (start : Nat) (discoveries : Discoveries)
    (node : Nat) : Prop :=
  ∃ way, discoveries.Leads start node way ∧ limit = some way.length ∧
    ∃ steps < way.length, Within graph.children start steps node

/-- The breadth-first search finds what some steps within the limit lead to. -/
theorem mem_found_breadth_iff (hstart : start < graph.nodes.length) :
    node ∈ (graph.successors start limit .breadth).found ↔ node ≠ start ∧
      ∃ steps, Within graph.children start steps node ∧ ∀ bound ∈ limit, steps ≤ bound := by
  rw [mem_found_breadth hstart limit, exists_isDistance_iff]

/-- What a depth-first search enters is within the limit. -/
theorem IsTrail.mem_found_breadth (h : graph.IsTrail limit trail)
    (hstart : start < graph.nodes.length) (hnode : node ∈ trail.found.found) :
    node ∈ (graph.successors start limit .breadth).found := by
  obtain ⟨hne, hentered⟩ := Trail.mem_found.1 hnode
  obtain ⟨depth, hdepth, hlimit, -⟩ := h.settles hentered
  exact (mem_found_breadth_iff hstart).2 ⟨hne, depth, hdepth.within, hlimit⟩

/-- A search misses no child of a node that it enters at the limit though fewer
steps lead there. -/
def CatchesUp (graph : Graph) (limit : Option Nat) (trail : Trail start) : Prop :=
  ∀ node depth, graph.EntersAt trail node depth → limit = some depth →
    (∃ steps < depth, Within graph.children start steps node) →
      ∀ child ∈ graph.children node, child ∈ trail.entered

theorem IsTrail.mem_entered_of_within (h : graph.IsTrail limit trail)
    (hlate : graph.CatchesUp limit trail) (hnode : Within graph.children start steps node)
    (hlimit : ∀ bound ∈ limit, steps ≤ bound) : node ∈ trail.entered := by
  induction steps generalizing node with
  | zero =>
    rw [show node = start from hnode]
    exact trail.start_mem
  | succ steps ih =>
    have hfewer : ∀ bound ∈ limit, steps ≤ bound := fun bound hbound =>
      (Nat.le_succ steps).trans (hlimit bound hbound)
    rcases hnode with hnode | ⟨other, hother, hchild⟩
    · exact ih hnode hfewer
    · obtain ⟨depth, hdepth, hwithin, hchildren⟩ := h.settles (ih hother hfewer)
      by_cases hbelow : ∀ bound ∈ limit, depth < bound
      · exact hchildren hbelow node hchild
      · -- The other node was entered at the limit, and it is nearer than that.
        push Not at hbelow
        obtain ⟨bound, hbound, hle⟩ := hbelow
        obtain rfl : bound = depth := le_antisymm hle (hwithin bound hbound)
        exact hlate other bound hdepth hbound ⟨steps, hlimit bound hbound, hother⟩ node hchild

/-- A depth-first search that catches up finds all that is within the limit. -/
theorem IsTrail.mem_found_iff (h : graph.IsTrail limit trail) (hstart : start < graph.nodes.length)
    (hlate : graph.CatchesUp limit trail) :
    node ∈ trail.found.found ↔ node ∈ (graph.successors start limit .breadth).found := by
  constructor
  · exact h.mem_found_breadth hstart
  · intro hnode
    obtain ⟨hne, steps, hwithin, hlimit⟩ := (mem_found_breadth_iff hstart).1 hnode
    exact Trail.mem_found.2 ⟨hne, h.mem_entered_of_within hlate hwithin hlimit⟩

/-- The two orders find the same where all paths to a node are of one length. -/
theorem mem_found_depth_of_length_eq (hstart : start < graph.nodes.length)
    (hlength : ∀ node first second, IsPathTo (IsNeighbour graph.children) start node first →
      IsPathTo (IsNeighbour graph.children) start node second → first.length = second.length)
    (limit : Option Nat) :
    node ∈ (graph.successors start limit .depth).found ↔
      node ∈ (graph.successors start limit .breadth).found := by
  obtain ⟨trail, htrail, hfound, -⟩ := exists_isTrail hstart limit
  rw [← hfound]
  apply htrail.mem_found_iff hstart
  intro other depth hdepth _ hfewer
  obtain ⟨way, -, hway, hpath⟩ := hdepth
  obtain ⟨fewer, hfewer, hwithin⟩ := hfewer
  obtain ⟨path, hshort, hle⟩ := hwithin.exists_isPathTo
  have hsame := hlength other _ _ hpath hshort
  rw [List.length_cons] at hsame
  omega

/-- The breadth-first search finds what is within the limit, and the depth-first
search finds no more. They find the same just when the depth-first search misses
no child of a node that it entered late. -/
theorem found_depth_iff_found_breadth (hstart : start < graph.nodes.length) (limit : Option Nat) :
    (∀ node, node ∈ (graph.successors start limit .breadth).found ↔ node ≠ start ∧
      ∃ steps, IsDistance graph.children start node steps ∧ ∀ bound ∈ limit, steps ≤ bound) ∧
    (graph.successors start limit .depth).found ⊆
      (graph.successors start limit .breadth).found ∧
    ((∀ node, node ∈ (graph.successors start limit .depth).found ↔
        node ∈ (graph.successors start limit .breadth).found) ↔
      ∀ node, graph.EntersLate limit start (graph.successors start limit .depth) node →
        ∀ child ∈ graph.children node,
          child = start ∨ child ∈ (graph.successors start limit .depth).found) := by
  obtain ⟨trail, htrail, hfound, -⟩ := exists_isTrail hstart limit
  rw [← hfound]
  refine ⟨fun node => mem_found_breadth hstart limit,
    fun node hnode => htrail.mem_found_breadth hstart hnode, ?_⟩
  constructor
  · intro hsame node hlate child hchild
    obtain ⟨way, -, hlimit, steps, hsteps, hnode⟩ := hlate
    by_cases heq : child = start
    · exact Or.inl heq
    · have hnear : ∀ bound ∈ limit, steps + 1 ≤ bound := by
        intro bound hbound
        obtain rfl : way.length = bound := Option.some_inj.1 (hlimit.symm.trans hbound)
        exact hsteps
      refine Or.inr ((hsame child).2 ?_)
      exact (mem_found_breadth_iff hstart).2 ⟨heq, steps + 1, hnode.step hchild, hnear⟩
  · intro hlate node
    apply htrail.mem_found_iff hstart
    intro other depth hdepth hbound hfewer child hchild
    obtain ⟨way, hway, rfl, -⟩ := hdepth
    exact Trail.mem_entered.2 (hlate other ⟨way, hway, hbound, hfewer⟩ child hchild)

/-- Tables of which the second leads to the third as the root does, and the
third leads to a column. -/
def shortcutTables : Graph where
  name := "g"
  nodes := [.table "roots" none, .table "as" none, .table "bs" none, .field "x" none .string]
  edges := [⟨0, 1, []⟩, ⟨1, 2, []⟩, ⟨0, 2, []⟩, ⟨2, 3, []⟩]
  ids_nodup := by decide +kernel
  ends_nodup := by decide
  joins := by decide +kernel

theorem successors_depth_shortcutTables :
    shortcutTables.successors 0 (some 2) .depth = [(0, [1]), (1, [2])] := by
  have hrun : shortcutTables.run (some 2) 9 [0] [] [⟨0, 0, 0⟩] =
      some (shortcutTables.successors 0 (some 2) .depth) :=
    run_eq_descend (some 2) [] (by decide)
  exact Option.some_inj.1 (hrun.symm.trans (by decide))

/-- The third table is one step away and entered in two, at the limit. -/
theorem found_depth_iff_found_breadth_shortcutTables :
    0 < shortcutTables.nodes.length ∧
      shortcutTables.EntersLate (some 2) 0 (shortcutTables.successors 0 (some 2) .depth) 2 ∧
      (∀ node, node ∈ (shortcutTables.successors 0 (some 2) .breadth).found ↔ node ≠ 0 ∧
        ∃ steps, IsDistance shortcutTables.children 0 node steps ∧
          ∀ bound ∈ some 2, steps ≤ bound) ∧
      (shortcutTables.successors 0 (some 2) .depth).found ⊆
        (shortcutTables.successors 0 (some 2) .breadth).found ∧
      ((∀ node, node ∈ (shortcutTables.successors 0 (some 2) .depth).found ↔
          node ∈ (shortcutTables.successors 0 (some 2) .breadth).found) ↔
        ∀ node, shortcutTables.EntersLate (some 2) 0
            (shortcutTables.successors 0 (some 2) .depth) node →
          ∀ child ∈ shortcutTables.children node,
            child = 0 ∨ child ∈ (shortcutTables.successors 0 (some 2) .depth).found) := by
  have hstart : 0 < shortcutTables.nodes.length := by decide
  have hfirst : (shortcutTables.successors 0 (some 2) .depth).discoverer? 1 = some 0 := by
    rw [successors_depth_shortcutTables]
    decide
  have hsecond : (shortcutTables.successors 0 (some 2) .depth).discoverer? 2 = some 1 := by
    rw [successors_depth_shortcutTables]
    decide
  have hnear : Within shortcutTables.children 0 1 2 :=
    (Within.of_start shortcutTables.children 0 0).step (by decide)
  have hlate : shortcutTables.EntersLate (some 2) 0
      (shortcutTables.successors 0 (some 2) .depth) 2 :=
    ⟨[1, 2], .step (.step .start hfirst) hsecond, rfl, 1, by decide, hnear⟩
  exact ⟨hstart, hlate, found_depth_iff_found_breadth hstart (some 2)⟩

/-- The column is two steps away, and the depth-first search misses it. -/
theorem found_depth_ne_found_breadth_shortcutTables :
    0 < shortcutTables.nodes.length ∧
      (shortcutTables.successors 0 (some 2) .breadth).found = [1, 2, 3] ∧
      (shortcutTables.successors 0 (some 2) .depth).found = [1, 2] ∧
      ¬ ∀ node, node ∈ (shortcutTables.successors 0 (some 2) .depth).found ↔
        node ∈ (shortcutTables.successors 0 (some 2) .breadth).found := by
  have hbreadth : (shortcutTables.successors 0 (some 2) .breadth).found = [1, 2, 3] := by decide
  have hdepth : (shortcutTables.successors 0 (some 2) .depth).found = [1, 2] := by
    rw [successors_depth_shortcutTables]
    rfl
  refine ⟨by decide, hbreadth, hdepth, fun hsame => ?_⟩
  have hcolumn := hsame 3
  rw [hbreadth, hdepth] at hcolumn
  simp at hcolumn

end Graph

end DocumentViews
