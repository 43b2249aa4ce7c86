import Mathlib
import DocumentViews.Graph.Search
import DocumentViews.Proofs.Graph.Reachability

/-!
The breadth-first search by layers. A layer holds the nodes at one distance
from the start, each once, and all nodes at smaller distances were visited.
So the search finds the nodes at positive distance up to its bound, each from
a node of the layer before, and with a bound as large as the graph it finds
all that can be reached.
-/

namespace DocumentViews

open Relation

variable {next : Nat → List Nat} {start : Nat}

/-- A node that can be reached from the start in at most `count` steps. -/
def Within (next : Nat → List Nat) (start : Nat) : Nat → Nat → Prop
  | 0, node => node = start
  | count + 1, node =>
    Within next start count node ∨ ∃ other, Within next start count other ∧ node ∈ next other

theorem Within.mono {count more node : Nat} (h : Within next start count node)
    (hle : count ≤ more) : Within next start more node := by
  induction hle with
  | refl => exact h
  | step _ ih => exact Or.inl ih

theorem Within.of_start (next : Nat → List Nat) (start count : Nat) :
    Within next start count start := by
  have hzero : Within next start 0 start := rfl
  exact hzero.mono (Nat.zero_le count)

theorem Within.step {count node other : Nat} (h : Within next start count other)
    (hstep : node ∈ next other) : Within next start (count + 1) node :=
  Or.inr ⟨other, h, hstep⟩

theorem exists_within_iff {node : Nat} :
    (∃ count, Within next start count node) ↔
      ReflTransGen (fun parent child => child ∈ next parent) start node := by
  constructor
  · intro hsome
    obtain ⟨count, h⟩ := hsome
    induction count generalizing node with
    | zero =>
      rw [h]
    | succ count ih =>
      rcases h with h | ⟨other, h, hstep⟩
      · exact ih h
      · exact (ih h).tail hstep
  · intro h
    induction h with
    | refl => exact ⟨0, rfl⟩
    | tail _ hstep ih =>
      obtain ⟨count, hcount⟩ := ih
      exact ⟨count + 1, hcount.step hstep⟩

/-- Once a step reaches nothing new, no number of steps does. -/
theorem Within.stable {count more node : Nat}
    (hstop : ∀ other, Within next start (count + 1) other → Within next start count other)
    (h : Within next start more node) : Within next start count node := by
  induction more generalizing node with
  | zero => exact Within.mono h (Nat.zero_le _)
  | succ more ih =>
    rcases h with h | ⟨other, h, hstep⟩
    · exact ih h
    · exact hstop node ((ih h).step hstep)

/-- The least number of steps that lead from a start to a node. -/
def IsDistance (next : Nat → List Nat) (start node steps : Nat) : Prop :=
  IsLeast {count | Within next start count node} steps

theorem isDistance_iff {node steps : Nat} :
    IsDistance next start node steps ↔
      Within next start steps node ∧ ∀ less < steps, ¬ Within next start less node := by
  unfold IsDistance
  constructor
  · intro h
    refine ⟨h.1, fun less hless hnear => ?_⟩
    have hle : steps ≤ less := h.2 hnear
    omega
  · intro h
    refine ⟨h.1, fun count hcount => ?_⟩
    by_contra hless
    exact h.2 count (by omega) hcount

theorem Within.exists_isDistance {count node : Nat} (h : Within next start count node) :
    ∃ steps ≤ count, IsDistance next start node steps := by
  induction count with
  | zero => exact ⟨0, le_rfl, isDistance_iff.2 ⟨h, by simp⟩⟩
  | succ count ih =>
    by_cases hnear : Within next start count node
    · obtain ⟨steps, hsteps, hdistance⟩ := ih hnear
      exact ⟨steps, by omega, hdistance⟩
    · refine ⟨count + 1, le_rfl, isDistance_iff.2 ⟨h, fun less hless hearly => hnear ?_⟩⟩
      exact hearly.mono (by omega)

theorem IsDistance.within {node steps count : Nat} (h : IsDistance next start node steps)
    (hle : steps ≤ count) : Within next start count node :=
  Within.mono h.1 hle

/-- A node has a distance within a limit when some steps within it lead there. -/
theorem exists_isDistance_iff {limit : Option Nat} {node : Nat} :
    (∃ steps, IsDistance next start node steps ∧ ∀ bound ∈ limit, steps ≤ bound) ↔
      ∃ steps, Within next start steps node ∧ ∀ bound ∈ limit, steps ≤ bound := by
  constructor
  · intro hsome
    obtain ⟨steps, hdistance, hlimit⟩ := hsome
    exact ⟨steps, hdistance.1, hlimit⟩
  · intro hsome
    obtain ⟨count, hcount, hlimit⟩ := hsome
    obtain ⟨steps, hsteps, hdistance⟩ := hcount.exists_isDistance
    exact ⟨steps, hdistance, fun bound hbound => hsteps.trans (hlimit bound hbound)⟩

/-- A limit lets a node go on that is below it. -/
theorem any_le_eq_false_iff {limit : Option Nat} {depth : Nat} :
    limit.any (· ≤ depth) = false ↔ ∀ bound ∈ limit, depth < bound := by
  cases limit with
  | none => simp
  | some bound => simp

namespace Discoveries

theorem found_cons (node : Nat) (children : List Nat) (rest : Discoveries) :
    found ((node, children) :: rest) = children ++ rest.found := rfl

theorem found_append (first second : Discoveries) :
    found (first ++ second) = first.found ++ second.found :=
  List.flatMap_append

/-- Entries that found nothing can be left out. -/
theorem found_filter (entries : Discoveries) :
    found (entries.filter (!·.2.isEmpty)) = entries.found := by
  induction entries with
  | nil => rfl
  | cons entry rest ih =>
    obtain ⟨node, children⟩ := entry
    rw [List.filter_cons]
    cases children with
    | nil => simpa [found_cons] using ih
    | cons child children => simp [found_cons, ih]

theorem filter_eq_nil {entries : Discoveries} (h : entries.found = []) :
    entries.filter (!·.2.isEmpty) = [] := by
  apply List.filter_eq_nil_iff.2
  intro entry hentry
  have hempty : entry.2 = [] := List.flatMap_eq_nil_iff.1 h entry hentry
  simp [hempty]

theorem mem_found {discoveries : Discoveries} {node : Nat} :
    node ∈ discoveries.found ↔ ∃ entry ∈ discoveries, node ∈ entry.2 :=
  List.mem_flatMap

end Discoveries

theorem mem_found_expandLayer {visited layer : List Nat} {node : Nat} :
    node ∈ (expandLayer next visited layer).found ↔
      node ∉ visited ∧ ∃ other ∈ layer, node ∈ next other := by
  induction layer generalizing visited with
  | nil => simp [expandLayer, Discoveries.found]
  | cons first rest ih =>
    simp only [expandLayer, Discoveries.found_cons, List.mem_append, List.mem_filter, ih,
      decide_eq_true_eq, List.mem_cons, exists_eq_or_imp]
    tauto

theorem nodup_found_expandLayer (hnext : ∀ node, (next node).Nodup) (visited layer : List Nat) :
    (expandLayer next visited layer).found.Nodup := by
  induction layer generalizing visited with
  | nil => exact List.nodup_nil
  | cons first rest ih =>
    refine List.nodup_append.2 ⟨(hnext first).filter _, ih _, ?_⟩
    rintro node hnode _ hother rfl
    exact (mem_found_expandLayer.1 hother).1 (List.mem_append_right _ hnode)

theorem keys_expandLayer (visited layer : List Nat) :
    Listing.keys (expandLayer next visited layer) = layer := by
  induction layer generalizing visited with
  | nil => rfl
  | cons first rest ih => exact congrArg (List.cons first) (ih _)

/-- A node takes neighbours of its own, in their order. -/
theorem sublist_of_mem_expandLayer {visited layer : List Nat} {entry : Nat × List Nat}
    (h : entry ∈ expandLayer next visited layer) : entry.2.Sublist (next entry.1) := by
  induction layer generalizing visited with
  | nil => simp [expandLayer] at h
  | cons first rest ih =>
    rcases List.mem_cons.1 h with rfl | h
    · exact List.filter_sublist
    · exact ih h

theorem expandLayers_nil (visited : List Nat) (count : Nat) :
    expandLayers next visited [] count = [] := by
  cases count with
  | zero => rfl
  | succ count => rfl

/-- A search expands a layer and then the next, also when the next is empty. -/
theorem expandLayers_succ (visited layer : List Nat) (count : Nat) :
    expandLayers next visited layer (count + 1) =
      (expandLayer next visited layer).filter (!·.2.isEmpty) ++
        expandLayers next (visited ++ (expandLayer next visited layer).found)
          (expandLayer next visited layer).found count := by
  simp only [expandLayers]
  split
  · next hempty =>
    have hnone := List.isEmpty_iff.1 hempty
    rw [Discoveries.filter_eq_nil hnone, hnone, expandLayers_nil, List.append_nil]
  · rfl

theorem found_expandLayers_succ (visited layer : List Nat) (count : Nat) :
    (expandLayers next visited layer (count + 1)).found =
      (expandLayer next visited layer).found ++
        (expandLayers next (visited ++ (expandLayer next visited layer).found)
          (expandLayer next visited layer).found count).found := by
  rw [expandLayers_succ, Discoveries.found_append, Discoveries.found_filter]

/-- A layer of the search: it holds the nodes at the given distance, and all
nodes up to that distance were visited. -/
structure IsLayer (next : Nat → List Nat) (start depth : Nat) (visited layer : List Nat) :
    Prop where
  mem_visited : ∀ node, node ∈ visited ↔ Within next start depth node
  mem_layer : ∀ node, node ∈ layer ↔
    Within next start depth node ∧ ∀ less < depth, ¬ Within next start less node
  visited_nodup : visited.Nodup
  layer_nodup : layer.Nodup

theorem isLayer_start (next : Nat → List Nat) (start : Nat) :
    IsLayer next start 0 [start] [start] := by
  refine ⟨fun node => ?_, fun node => ?_, List.nodup_singleton _, List.nodup_singleton _⟩
  · simp [Within]
  · simp [Within]

theorem IsLayer.mem_found {depth : Nat} {visited layer : List Nat}
    (h : IsLayer next start depth visited layer) {node : Nat} :
    node ∈ (expandLayer next visited layer).found ↔
      Within next start (depth + 1) node ∧ ¬ Within next start depth node := by
  rw [mem_found_expandLayer, h.mem_visited]
  constructor
  · intro hboth
    obtain ⟨hnew, other, hother, hstep⟩ := hboth
    exact ⟨((h.mem_layer other).1 hother).1.step hstep, hnew⟩
  · intro hboth
    obtain ⟨hnode, hnew⟩ := hboth
    obtain ⟨other, hother, hstep⟩ := hnode.resolve_left hnew
    refine ⟨hnew, other, (h.mem_layer other).2 ⟨hother, fun less hless hnear => hnew ?_⟩, hstep⟩
    exact (hnear.step hstep).mono hless

theorem IsLayer.step (hnext : ∀ node, (next node).Nodup) {depth : Nat} {visited layer : List Nat}
    (h : IsLayer next start depth visited layer) :
    IsLayer next start (depth + 1) (visited ++ (expandLayer next visited layer).found)
      (expandLayer next visited layer).found := by
  have hfresh := nodup_found_expandLayer hnext visited layer
  refine ⟨fun node => ?_, fun node => ?_, List.nodup_append.2 ⟨h.visited_nodup, hfresh, ?_⟩, hfresh⟩
  · rw [List.mem_append, h.mem_found, h.mem_visited]
    constructor
    · intro heither
      rcases heither with hnear | ⟨hnode, -⟩
      · exact Or.inl hnear
      · exact hnode
    · intro hnode
      by_cases hnear : Within next start depth node
      · exact Or.inl hnear
      · exact Or.inr ⟨hnode, hnear⟩
  · rw [h.mem_found]
    apply and_congr_right
    intro _
    constructor
    · intro hnew less hless hnear
      exact hnew (hnear.mono (by omega))
    · intro hnew
      exact hnew depth (Nat.lt_succ_self depth)
  · rintro node hnode _ hother rfl
    exact (mem_found_expandLayer.1 hother).1 hnode

/-- A bounded search from a layer finds what lies behind it up to the bound. -/
theorem IsLayer.mem_found_expandLayers (hnext : ∀ node, (next node).Nodup) {depth : Nat}
    {visited layer : List Nat} (h : IsLayer next start depth visited layer) (count : Nat)
    {node : Nat} :
    node ∈ (expandLayers next visited layer count).found ↔
      Within next start (depth + count) node ∧ ¬ Within next start depth node := by
  induction count generalizing depth visited layer with
  | zero => simp [expandLayers, Discoveries.found]
  | succ count ih =>
    rw [found_expandLayers_succ, List.mem_append, h.mem_found, ih (h.step hnext),
      Nat.add_right_comm, Nat.add_assoc]
    constructor
    · intro heither
      rcases heither with ⟨hnode, hnew⟩ | ⟨hnode, hnew⟩
      · exact ⟨hnode.mono (by omega), hnew⟩
      · exact ⟨hnode, fun hnear => hnew (Or.inl hnear)⟩
    · intro hboth
      obtain ⟨hnode, hnew⟩ := hboth
      by_cases hnear : Within next start (depth + 1) node
      · exact Or.inl ⟨hnear, hnew⟩
      · exact Or.inr ⟨hnode, hnear⟩

theorem IsLayer.nodup_found_expandLayers (hnext : ∀ node, (next node).Nodup) {depth : Nat}
    {visited layer : List Nat} (h : IsLayer next start depth visited layer) (count : Nat) :
    (expandLayers next visited layer count).found.Nodup := by
  induction count generalizing depth visited layer with
  | zero => exact List.nodup_nil
  | succ count ih =>
    have hstep := h.step hnext
    rw [found_expandLayers_succ]
    refine List.nodup_append.2 ⟨hstep.layer_nodup, ih hstep, ?_⟩
    rintro node hnode _ hother rfl
    exact ((hstep.mem_found_expandLayers hnext count).1 hother).2 (h.mem_found.1 hnode).1

/-- Every entry of a search holds neighbours of its key, at least one. -/
theorem entry_expandLayers {visited layer : List Nat} {count : Nat} {entry : Nat × List Nat}
    (h : entry ∈ expandLayers next visited layer count) :
    entry.2 ≠ [] ∧ entry.2.Sublist (next entry.1) := by
  induction count generalizing visited layer with
  | zero => simp [expandLayers] at h
  | succ count ih =>
    rw [expandLayers_succ] at h
    rcases List.mem_append.1 h with h | h
    · obtain ⟨hentry, hfull⟩ := List.mem_filter.1 h
      exact ⟨by simpa using hfull, sublist_of_mem_expandLayer hentry⟩
    · exact ih h

/-- What discovers a node stands in the first layer or was discovered before. -/
theorem key_expandLayers {visited layer : List Nat} {count : Nat} {entry : Nat × List Nat}
    (h : entry ∈ expandLayers next visited layer count) :
    entry.1 ∈ layer ∨ entry.1 ∈ (expandLayers next visited layer count).found := by
  induction count generalizing visited layer with
  | zero => simp [expandLayers] at h
  | succ count ih =>
    rw [expandLayers_succ] at h
    rw [found_expandLayers_succ, List.mem_append]
    rcases List.mem_append.1 h with h | h
    · have hkey : entry.1 ∈ Listing.keys (expandLayer next visited layer) :=
        List.mem_map_of_mem (List.mem_of_mem_filter h)
      rw [keys_expandLayer] at hkey
      exact Or.inl hkey
    · exact Or.inr (ih h)

/-- The search finds the nodes at positive distance up to its bound. -/
theorem mem_found_breadthFirst (hnext : ∀ node, (next node).Nodup) (count : Nat) {node : Nat} :
    node ∈ (breadthFirst next count start).found ↔ Within next start count node ∧ node ≠ start := by
  rw [breadthFirst, (isLayer_start next start).mem_found_expandLayers hnext count, Nat.zero_add,
    Within]

theorem nodup_found_breadthFirst (hnext : ∀ node, (next node).Nodup) (count : Nat) :
    (breadthFirst next count start).found.Nodup :=
  (isLayer_start next start).nodup_found_expandLayers hnext count

open Classical in
/-- The numbers below a bound that can be reached in at most so many steps. -/
noncomputable def ball (next : Nat → List Nat) (start size depth : Nat) : Finset Nat :=
  (Finset.range size).filter fun other => Within next start depth other

theorem card_ball_le (next : Nat → List Nat) (start size depth : Nat) :
    (ball next start size depth).card ≤ size := by
  classical
  exact (Finset.card_filter_le _ _).trans_eq (Finset.card_range size)

section Bounded

variable {size : Nat} (hstart : start < size)
  (hbound : ∀ parent child, child ∈ next parent → child < size)

include hstart hbound

theorem Within.lt_of_bounded {count node : Nat} (h : Within next start count node) :
    node < size := by
  induction count generalizing node with
  | zero =>
    rw [show node = start from h]
    exact hstart
  | succ count ih =>
    rcases h with h | ⟨other, -, hstep⟩
    · exact ih h
    · exact hbound other node hstep

theorem mem_ball {depth other : Nat} :
    other ∈ ball next start size depth ↔ Within next start depth other := by
  unfold ball
  simp only [Finset.mem_filter, Finset.mem_range]
  exact ⟨And.right, fun hother => ⟨hother.lt_of_bounded hstart hbound, hother⟩⟩

/-- A ball grows by every step until it stays as it is. -/
theorem exists_ball_eq_or_lt_card (depth : Nat) :
    (∃ early ≤ depth, ball next start size (early + 1) = ball next start size early) ∨
      depth < (ball next start size depth).card := by
  induction depth with
  | zero => exact Or.inr (Finset.card_pos.2 ⟨start, (mem_ball hstart hbound).2 rfl⟩)
  | succ depth ih =>
    rcases ih with ⟨early, hearly, hsame⟩ | hcard
    · exact Or.inl ⟨early, by omega, hsame⟩
    · by_cases hsame : ball next start size (depth + 1) = ball next start size depth
      · exact Or.inl ⟨depth, by omega, hsame⟩
      · have hsubset : ball next start size depth ⊆ ball next start size (depth + 1) := by
          intro other hother
          exact (mem_ball hstart hbound).2 (Or.inl ((mem_ball hstart hbound).1 hother))
        have hmore := Finset.card_lt_card (Finset.ssubset_iff_subset_ne.2 ⟨hsubset, Ne.symm hsame⟩)
        exact Or.inr (by omega)

/-- As many steps as there are nodes reach all that can be reached. Each step
that reaches something new takes a node of its own. -/
theorem Within.of_bounded {count node : Nat} (h : Within next start count node) :
    Within next start size node := by
  rcases exists_ball_eq_or_lt_card hstart hbound size with ⟨early, hearly, hsame⟩ | hcard
  · have hstop : ∀ other, Within next start (early + 1) other → Within next start early other := by
      intro other hother
      apply (mem_ball hstart hbound).1
      rw [← hsame]
      exact (mem_ball hstart hbound).2 hother
    exact (Within.stable hstop h).mono hearly
  · have hfew := card_ball_le next start size size
    omega

end Bounded

namespace Graph

variable {graph : Graph}

/-- Without a limit the search from a node finds all that it reaches. -/
theorem mem_found_successors {start node : Nat} (hstart : start < graph.nodes.length) :
    node ∈ (graph.successors start none .breadth).found ↔
      graph.Reaches start node ∧ node ≠ start := by
  change node ∈ (breadthFirst graph.children graph.nodes.length start).found ↔ _
  rw [mem_found_breadthFirst graph.children_nodup]
  apply and_congr_left
  intro _
  constructor
  · intro h
    exact exists_within_iff.1 ⟨_, h⟩
  · intro h
    obtain ⟨count, hcount⟩ := exists_within_iff.2 h
    exact hcount.of_bounded hstart fun _ _ hchild => lt_of_mem_children hchild

theorem nodup_found_successors (graph : Graph) (start : Nat) :
    (graph.successors start none .breadth).found.Nodup :=
  nodup_found_breadthFirst graph.children_nodup _

theorem entry_successors {start : Nat} {entry : Nat × List Nat}
    (h : entry ∈ graph.successors start none .breadth) :
    entry.2 ≠ [] ∧ entry.2.Sublist (graph.children entry.1) :=
  entry_expandLayers h

end Graph

end DocumentViews
