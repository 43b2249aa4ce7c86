import Mathlib
import DocumentViews.Plan.OfGraph
import DocumentViews.Proofs.Graph.FirstDiscovery
import DocumentViews.Proofs.Listing

/-!
The nodes that become tables beside the root. They are the nodes below the root
that discover a node in the breadth-first search, and the entities with
children. Each of them has parents and children, and what it discovers is
among its children, so none is a misfit. The split of the discoveries from the
root holds what the root reaches, and nothing twice.
-/

namespace DocumentViews

theorem Discoveries.isInner_iff {discoveries : Discoveries} {node : Nat} :
    discoveries.isInner node ↔ node ∈ Listing.keys discoveries ∧ node ∈ discoveries.found := by
  simp [Discoveries.isInner]

theorem Discoveries.mem_inner {discoveries : Discoveries} {node : Nat} :
    node ∈ discoveries.split.inner ↔
      node ∈ Listing.keys discoveries ∧ node ∈ discoveries.found := by
  simp only [Discoveries.split, List.mem_filter, mem_firstArrivals, List.mem_append, isInner_iff]
  tauto

theorem Discoveries.mem_outer {discoveries : Discoveries} {node : Nat} :
    node ∈ discoveries.split.outer ↔
      (node ∈ Listing.keys discoveries ∨ node ∈ discoveries.found) ∧
        ¬ (node ∈ Listing.keys discoveries ∧ node ∈ discoveries.found) := by
  simp only [Discoveries.split, List.mem_filter, mem_firstArrivals, List.mem_append,
    Bool.not_eq_true', ← Bool.not_eq_true, isInner_iff]

namespace Graph

variable {graph : Graph} {root index : Nat}

theorem found_discoveries (graph : Graph) (root : Nat) :
    (graph.discoveries root).found = (graph.successors root none .breadth).found := by
  simp only [discoveries]
  split
  · next h =>
    rw [List.isEmpty_iff.1 h]
    rfl
  · rfl

/-- A node that was not the start discovers only where the search went. -/
theorem mem_keys_discoveries (hne : index ≠ root) :
    index ∈ Listing.keys (graph.discoveries root) ↔
      index ∈ Listing.keys (graph.successors root none .breadth) := by
  simp only [discoveries]
  split
  · next h =>
    rw [List.isEmpty_iff.1 h]
    simp [Listing.keys, hne]
  · rfl

theorem children_ne_nil_of_mem_keys
    (h : index ∈ Listing.keys (graph.successors root none .breadth)) :
    graph.children index ≠ [] := by
  obtain ⟨entry, hentry, rfl⟩ := List.mem_map.1 h
  obtain ⟨hfull, hsub⟩ := entry_successors hentry
  intro hnone
  rw [hnone] at hsub
  exact hfull (List.sublist_nil.1 hsub)

theorem reaches_of_mem_keys (hroot : root < graph.nodes.length)
    (h : index ∈ Listing.keys (graph.successors root none .breadth)) :
    graph.Reaches root index := by
  obtain ⟨entry, hentry, rfl⟩ := List.mem_map.1 h
  rcases key_expandLayers hentry with hstart | hfound
  · rw [List.mem_singleton.1 hstart]
    exact .refl
  · exact ((mem_found_successors hroot).1 hfound).1

theorem mem_promoted (hroot : root < graph.nodes.length) :
    index ∈ graph.promoted root ↔ graph.Reaches root index ∧ index ≠ root ∧
      (index ∈ Listing.keys (graph.successors root none .breadth) ∨
        (graph.node? index).any Node.isEntity ∧ graph.children index ≠ []) := by
  simp only [promoted, List.mem_append, Discoveries.mem_inner, List.mem_filter,
    Discoveries.mem_outer, found_discoveries, mem_found_successors hroot, decide_eq_true_eq]
  by_cases hne : index = root
  · subst hne
    simp
  · rw [mem_keys_discoveries hne]
    have hreach : index ∈ Listing.keys (graph.successors root none .breadth) →
        graph.Reaches root index := reaches_of_mem_keys hroot
    tauto

/-- Only a graph with edges has promoted nodes. -/
theorem length_pos_of_mem_promoted (h : index ∈ graph.promoted root) : 0 < graph.nodes.length := by
  have hchild : ∃ parent child, child ∈ graph.children parent := by
    simp only [promoted, List.mem_append, Discoveries.mem_inner, List.mem_filter,
      found_discoveries, decide_eq_true_eq] at h
    rcases h with ⟨-, hfound⟩ | ⟨-, -, -, hchildren⟩
    · obtain ⟨entry, hentry, hmem⟩ := Discoveries.mem_found.1 hfound
      exact ⟨entry.1, index, (entry_successors hentry).2.subset hmem⟩
    · obtain ⟨child, hchild⟩ := List.exists_mem_of_ne_nil _ hchildren
      exact ⟨index, child, hchild⟩
  obtain ⟨parent, child, hchild⟩ := hchild
  exact Nat.zero_lt_of_lt (lt_of_mem_children hchild)

theorem parents_ne_nil_of_mem_promoted (hroot : root < graph.nodes.length)
    (h : index ∈ graph.promoted root) : graph.parents index ≠ [] := by
  obtain ⟨hreach, hne, -⟩ := (mem_promoted hroot).1 h
  rcases Relation.ReflTransGen.cases_tail hreach with heq | ⟨parent, -, hstep⟩
  · exact absurd heq hne
  · exact List.ne_nil_of_mem (isParent_iff_mem_parents.1 hstep)

theorem children_ne_nil_of_mem_promoted (hroot : root < graph.nodes.length)
    (h : index ∈ graph.promoted root) : graph.children index ≠ [] := by
  obtain ⟨-, -, hkey | ⟨-, hchildren⟩⟩ := (mem_promoted hroot).1 h
  · exact children_ne_nil_of_mem_keys hkey
  · exact hchildren

theorem lt_of_mem_promoted (hroot : root < graph.nodes.length) (h : index ∈ graph.promoted root) :
    index < graph.nodes.length :=
  ((mem_promoted hroot).1 h).1.lt hroot

/-- A node that has children only as an entity is promoted exactly when it is
below the root and has some. -/
theorem mem_promoted_iff_children_ne_nil (hroot : root < graph.nodes.length)
    (hentity : graph.children index ≠ [] → (graph.node? index).any Node.isEntity) :
    index ∈ graph.promoted root ↔
      graph.Reaches root index ∧ index ≠ root ∧ graph.children index ≠ [] := by
  constructor
  · intro h
    obtain ⟨hreach, hne, -⟩ := (mem_promoted hroot).1 h
    exact ⟨hreach, hne, children_ne_nil_of_mem_promoted hroot h⟩
  · intro h
    obtain ⟨hreach, hne, hchildren⟩ := h
    exact (mem_promoted hroot).2 ⟨hreach, hne, Or.inr ⟨hentity hchildren, hchildren⟩⟩

/-- Promoted nodes fit, on graphs with cycles as well. -/
theorem misfit?_eq_none_of_mem_promoted (hroot : root < graph.nodes.length)
    (h : index ∈ graph.promoted root) : graph.misfit? (graph.discoveries root) index = none := by
  have hforeign : ((Listing.find? (graph.discoveries root) index).getD []).any
      (· ∉ graph.children index) = false := by
    rw [List.any_eq_false]
    intro child hchild
    cases hfind : Listing.find? (graph.discoveries root) index with
    | none => simp [hfind] at hchild
    | some listed =>
      rw [hfind, Option.getD_some] at hchild
      have hentry := Listing.mem_of_find?_eq_some hfind
      simp only [discoveries] at hentry
      split at hentry
      · simp only [List.mem_singleton, Prod.mk.injEq] at hentry
        simp [hentry.2] at hchild
      · simpa using (entry_successors hentry).2.subset hchild
  simp only [misfit?]
  rw [if_neg (parents_ne_nil_of_mem_promoted hroot h),
    if_neg (children_ne_nil_of_mem_promoted hroot h), hforeign]
  rfl

/-- The root is the first to come upon any of its children. -/
theorem firstDiscovers_root (hroot : root < graph.nodes.length) {child : Nat}
    (h : child ∈ graph.children root) : graph.FirstDiscovers root root child := by
  refine ⟨(ne_of_mem_children h).symm, _, visits_successors hroot, ?_⟩
  rw [List.find?_cons_of_pos (by simpa using h)]

theorem root_mem_keys_discoveries (hroot : root < graph.nodes.length) :
    root ∈ Listing.keys (graph.discoveries root) := by
  simp only [discoveries]
  split
  · exact List.mem_singleton_self root
  · next hsome =>
    rw [List.isEmpty_iff] at hsome
    obtain ⟨entry, hentry⟩ := List.exists_mem_of_ne_nil _ hsome
    obtain ⟨node, hnode⟩ := List.exists_mem_of_ne_nil _ (entry_successors hentry).1
    obtain ⟨hreach, hne⟩ :=
      (mem_found_successors hroot).1 (Discoveries.mem_found.2 ⟨entry, hentry, hnode⟩)
    rcases Relation.ReflTransGen.cases_head hreach with heq | ⟨child, hchild, -⟩
    · exact absurd heq.symm hne
    · exact (mem_keys_successors hroot).2 ⟨child, firstDiscovers_root hroot hchild⟩

/-- The two sets together hold what the root reaches. -/
theorem mem_split_discoveries (hroot : root < graph.nodes.length) :
    index ∈ (graph.discoveries root).split.outer ∨ index ∈ (graph.discoveries root).split.inner ↔
      graph.Reaches root index := by
  have hsplit : (index ∈ (graph.discoveries root).split.outer ∨
      index ∈ (graph.discoveries root).split.inner) ↔
      index ∈ Listing.keys (graph.discoveries root) ∨ index ∈ (graph.discoveries root).found := by
    rw [Discoveries.mem_outer, Discoveries.mem_inner]
    tauto
  rw [hsplit, found_discoveries, mem_found_successors hroot]
  by_cases hne : index = root
  · subst hne
    exact ⟨fun _ => .refl, fun _ => Or.inl (root_mem_keys_discoveries hroot)⟩
  · rw [mem_keys_discoveries hne]
    constructor
    · rintro (hkey | ⟨hreach, -⟩)
      · exact reaches_of_mem_keys hroot hkey
      · exact hreach
    · intro hreach
      exact Or.inr ⟨hreach, hne⟩

theorem root?_eq_some_iff : graph.root? = some root ↔ root = 0 ∧ root < graph.nodes.length := by
  rw [root?]
  cases graph.nodes with
  | nil => simp
  | cons first rest =>
    simp only [List.isEmpty_cons, Bool.false_eq_true, if_false, Option.some.injEq, List.length_cons]
    omega

/-- An entity is promoted for any child, and a component for a child that it is
the first to come upon. -/
theorem mem_promoted_iff_firstDiscovers (hroot : root < graph.nodes.length) :
    index ∈ graph.promoted root ↔ index ≠ root ∧ graph.Reaches root index ∧
      ∃ node, graph.node? index = some node ∧
        (node.isEntity = true ∧ graph.children index ≠ [] ∨
          node.isEntity = false ∧ ∃ child, graph.FirstDiscovers root index child) := by
  rw [mem_promoted hroot]
  constructor
  · rintro ⟨hreach, hne, hboth⟩
    obtain ⟨node, hnode⟩ : ∃ node, graph.node? index = some node :=
      ⟨_, List.getElem?_eq_getElem (hreach.lt hroot)⟩
    refine ⟨hne, hreach, node, hnode, ?_⟩
    cases hkind : node.isEntity with
    | true =>
      rcases hboth with hkey | ⟨-, hchildren⟩
      · exact Or.inl ⟨rfl, children_ne_nil_of_mem_keys hkey⟩
      · exact Or.inl ⟨rfl, hchildren⟩
    | false =>
      rcases hboth with hkey | ⟨hentity, -⟩
      · exact Or.inr ⟨rfl, (mem_keys_successors hroot).1 hkey⟩
      · rw [hnode, Option.any_some, hkind] at hentity
        nomatch hentity
  · rintro ⟨hne, hreach, node, hnode, ⟨hentity, hchildren⟩ | ⟨-, hfirst⟩⟩
    · exact ⟨hreach, hne, Or.inr ⟨by rw [hnode]; exact hentity, hchildren⟩⟩
    · exact ⟨hreach, hne, Or.inl ((mem_keys_successors hroot).2 hfirst)⟩

/-- The discoveries from the root are split into two sets that have no node in
common and hold what the root reaches. Of these nodes the entities with children
are promoted, and the components that are the first to come upon a child, but
never the root. -/
theorem promotion_exact (hroot : graph.root? = some root) :
    (graph.discoveries root).split.outer.Nodup ∧ (graph.discoveries root).split.inner.Nodup ∧
      (graph.discoveries root).split.outer.Disjoint (graph.discoveries root).split.inner ∧
      (∀ index, index ∈ (graph.discoveries root).split.outer ∨
        index ∈ (graph.discoveries root).split.inner ↔ graph.Reaches root index) ∧
      (∀ index, index ∈ graph.promoted root ↔ index ≠ root ∧ graph.Reaches root index ∧
        ∃ node, graph.node? index = some node ∧
          (node.isEntity = true ∧ graph.children index ≠ [] ∨
            node.isEntity = false ∧ ∃ child, graph.FirstDiscovers root index child)) ∧
      root ∉ graph.promoted root := by
  have hlt := (root?_eq_some_iff.1 hroot).2
  refine ⟨(firstArrivals_nodup _).filter _, (firstArrivals_nodup _).filter _, ?_,
    fun index => mem_split_discoveries hlt, fun index => mem_promoted_iff_firstDiscovers hlt,
    fun hpromoted => ((mem_promoted hlt).1 hpromoted).2.1 rfl⟩
  intro index houter hinner
  exact (Discoveries.mem_outer.1 houter).2 (Discoveries.mem_inner.1 hinner)

/-- A root with two tables that share a column, which has a column of its own
and shares it with another. The second table and the last column come upon
nothing first. -/
def sharedColumns : Graph where
  name := "g"
  nodes := [.table "roots" none, .table "a" none, .table "b" none, .field "x" none .string,
    .field "y" none .string, .field "z" none .string]
  edges := [⟨0, 1, []⟩, ⟨0, 2, []⟩, ⟨0, 5, []⟩, ⟨1, 3, []⟩, ⟨2, 3, []⟩, ⟨5, 3, []⟩, ⟨3, 4, []⟩]
  ids_nodup := by decide +kernel
  ends_nodup := by decide
  joins := by decide +kernel

theorem promotion_exact_sharedColumns :
    sharedColumns.root? = some 0 ∧ sharedColumns.promoted 0 = [1, 3, 2] ∧
      (sharedColumns.discoveries 0).split.outer.Nodup ∧
      (sharedColumns.discoveries 0).split.inner.Nodup ∧
      (sharedColumns.discoveries 0).split.outer.Disjoint
        (sharedColumns.discoveries 0).split.inner ∧
      (∀ index, index ∈ (sharedColumns.discoveries 0).split.outer ∨
        index ∈ (sharedColumns.discoveries 0).split.inner ↔ sharedColumns.Reaches 0 index) ∧
      (∀ index, index ∈ sharedColumns.promoted 0 ↔ index ≠ 0 ∧ sharedColumns.Reaches 0 index ∧
        ∃ node, sharedColumns.node? index = some node ∧
          (node.isEntity = true ∧ sharedColumns.children index ≠ [] ∨
            node.isEntity = false ∧ ∃ child, sharedColumns.FirstDiscovers 0 index child)) ∧
      0 ∉ sharedColumns.promoted 0 := by
  have hroot : sharedColumns.root? = some 0 := by decide
  have hpromoted : sharedColumns.promoted 0 = [1, 3, 2] := by decide +kernel
  exact ⟨hroot, hpromoted, promotion_exact hroot⟩

end Graph

end DocumentViews
