import Mathlib
import DocumentViews.Proofs.Graph.FirstDiscovery

/-!
The tree that a breadth-first search with a limit finds. Layers are handed out
in the order of their distances, and a node is discovered from the layer before
its own. So the search finds a node, once, when its distance is within the
limit, and under the first node handed out among those one step nearer that
lead to it.
-/

namespace DocumentViews

variable {next : Nat → List Nat} {limit : Option Nat} {start depth : Nat}
  {visited layer : List Nat}

/-- The first node is no farther from the start than the second. -/
def NoFarther (next : Nat → List Nat) (start first second : Nat) : Prop :=
  ∀ near far, IsDistance next start first near → IsDistance next start second far → near ≤ far

theorem IsLayer.isDistance (h : IsLayer next start depth visited layer) {node : Nat}
    (hnode : node ∈ layer) : IsDistance next start node depth :=
  isDistance_iff.2 ((h.mem_layer node).1 hnode)

/-- What lies behind a layer is farther than the layer. -/
theorem IsLayer.lt_of_mem_found (hnext : ∀ node, (next node).Nodup) {count : Nat}
    (h : IsLayer next start depth visited layer) {node steps : Nat}
    (hnode : node ∈ (expandLayers next visited layer count).found)
    (hsteps : IsDistance next start node steps) : depth < steps := by
  by_contra hle
  exact ((h.mem_found_expandLayers hnext count).1 hnode).2 (hsteps.within (by omega))

/-- Sorted nodes behind a layer stay sorted with the layer before them. -/
theorem IsLayer.append_sorted (hnext : ∀ node, (next node).Nodup) {count : Nat}
    (h : IsLayer next start depth visited layer)
    (hbehind : (expandLayers next visited layer count).found.Pairwise (NoFarther next start)) :
    (layer ++ (expandLayers next visited layer count).found).Pairwise (NoFarther next start) := by
  have hdepth : ∀ node ∈ layer, ∀ steps, IsDistance next start node steps → steps = depth :=
    fun node hnode steps hsteps => hsteps.unique (h.isDistance hnode)
  refine List.pairwise_append.2 ⟨?_, hbehind, ?_⟩
  · apply List.pairwise_of_forall_mem_list
    intro first hfirst second hsecond near far hnear hfar
    rw [hdepth first hfirst near hnear, hdepth second hsecond far hfar]
  · intro first hfirst second hsecond near far hnear hfar
    have hless := h.lt_of_mem_found hnext hsecond hfar
    have hsame := hdepth first hfirst near hnear
    omega

/-- The nodes of a layer and those behind it stand in the order of distances. -/
theorem IsLayer.sorted (hnext : ∀ node, (next node).Nodup) (count : Nat)
    (h : IsLayer next start depth visited layer) :
    (layer ++ (expandLayers next visited layer count).found).Pairwise (NoFarther next start) := by
  apply h.append_sorted hnext
  induction count generalizing depth visited layer with
  | zero => exact List.Pairwise.nil
  | succ count ih =>
    rw [found_expandLayers_succ]
    exact (h.step hnext).append_sorted hnext (ih (h.step hnext))

/-- What discovers a node is one step nearer to the start. -/
theorem IsLayer.isDistance_of_discoverer? (hnext : ∀ node, (next node).Nodup) (count : Nat)
    (h : IsLayer next start depth visited layer) {node key : Nat}
    (hkey : (expandLayers next visited layer count).discoverer? node = some key) :
    ∃ steps, IsDistance next start key steps ∧ IsDistance next start node (steps + 1) := by
  induction count generalizing depth visited layer with
  | zero => simp [expandLayers, Discoveries.discoverer?] at hkey
  | succ count ih =>
    rw [discoverer?_expandLayers_succ] at hkey
    by_cases hfresh : node ∈ (expandLayer next visited layer).found
    · obtain ⟨first, hfirst⟩ := Discoveries.exists_discoverer hfresh
      rw [hfirst, Option.some_or, Option.some_inj] at hkey
      subst hkey
      obtain ⟨before, after, hlayer, -, -⟩ := discoverer?_expandLayer hfirst
      have hin : first ∈ layer := by
        rw [hlayer]
        simp
      exact ⟨depth, h.isDistance hin, (h.step hnext).isDistance hfresh⟩
    · rw [Discoveries.discoverer?_eq_none_iff.2 hfresh, Option.none_or] at hkey
      exact ih (h.step hnext) hkey

/-- The nodes that discover others do so in the order in which they are found. -/
theorem keys_expandLayers_sublist (visited layer : List Nat) (count : Nat) :
    (Listing.keys (expandLayers next visited layer count)).Sublist
      (layer ++ (expandLayers next visited layer count).found) := by
  induction count generalizing visited layer with
  | zero => exact List.nil_sublist _
  | succ count ih =>
    have hfirst : (Listing.keys ((expandLayer next visited layer).filter
        (!·.2.isEmpty))).Sublist layer := by
      calc
        (Listing.keys ((expandLayer next visited layer).filter (!·.2.isEmpty))).Sublist
            (Listing.keys (expandLayer next visited layer)) := List.filter_sublist.map Prod.fst
        _ = layer := keys_expandLayer visited layer
    rw [found_expandLayers_succ, expandLayers_succ, Listing.keys, List.map_append]
    exact hfirst.append (ih _ _)

/-- What a breadth-first search with a limit finds when its queue hands out
nodes in a certain order. -/
structure IsBreadthFirstTree (next : Nat → List Nat) (start : Nat) (limit : Option Nat)
    (order : List Nat) (discoveries : Discoveries) : Prop where
  found_nodup : discoveries.found.Nodup
  mem_found : ∀ node, node ∈ discoveries.found ↔ node ≠ start ∧
    ∃ steps, IsDistance next start node steps ∧ ∀ bound ∈ limit, steps ≤ bound
  entries : ∀ entry ∈ discoveries, entry.2 ≠ [] ∧ entry.2.Sublist (next entry.1)
  /-- A node is found from the first one that is a step nearer and leads to it. -/
  nearer : ∀ entry ∈ discoveries, ∀ node ∈ entry.2, ∃ steps,
    IsDistance next start entry.1 steps ∧ IsDistance next start node (steps + 1) ∧
      ∃ before after, order = before ++ entry.1 :: after ∧
        ∀ other ∈ before, IsDistance next start other steps → node ∉ next other
  keys_nodup : (Listing.keys discoveries).Nodup
  keys_sorted : (Listing.keys discoveries).Pairwise (NoFarther next start)

/-- Steps up to the limit, or as many as reach everything, reach what is within
the limit. -/
theorem within_iff_isDistance {count node : Nat} (hbelow : ∀ bound ∈ limit, count ≤ bound)
    (hstop : count ∈ limit ∨ ∀ node, Within next start (count + 1) node →
      Within next start count node) :
    Within next start count node ↔
      ∃ steps, IsDistance next start node steps ∧ ∀ bound ∈ limit, steps ≤ bound := by
  constructor
  · intro h
    exact exists_isDistance_iff.2 ⟨count, h, hbelow⟩
  · intro hsome
    obtain ⟨steps, hdistance, hbound⟩ := hsome
    rcases hstop with hlimit | hstop
    · exact hdistance.within (hbound count hlimit)
    · exact Within.stable hstop (hdistance.within le_rfl)

theorem isBreadthFirstTree_breadthFirst (hnext : ∀ node, (next node).Nodup) {count : Nat}
    (hbelow : ∀ bound ∈ limit, count ≤ bound)
    (hstop : count ∈ limit ∨ ∀ node, Within next start (count + 1) node →
      Within next start count node) :
    IsBreadthFirstTree next start limit (start :: (breadthFirst next count start).found)
      (breadthFirst next count start) := by
  have hlayer := isLayer_start next start
  have hnodup : (breadthFirst next count start).found.Nodup := nodup_found_breadthFirst hnext count
  have horder : (start :: (breadthFirst next count start).found).Nodup := by
    refine List.nodup_cons.2 ⟨fun hin => ?_, hnodup⟩
    exact ((mem_found_breadthFirst hnext count).1 hin).2 rfl
  have hkeys : (Listing.keys (breadthFirst next count start)).Sublist
      (start :: (breadthFirst next count start).found) :=
    keys_expandLayers_sublist [start] [start] count
  refine ⟨hnodup, fun node => ?_, fun entry hentry => entry_expandLayers hentry, ?_,
    hkeys.nodup horder, (hlayer.sorted hnext count).sublist hkeys⟩
  · rw [mem_found_breadthFirst hnext, within_iff_isDistance hbelow hstop, and_comm]
  · intro entry hentry node hnode
    have hkey := Discoveries.discoverer?_of_mem hnodup hentry hnode
    obtain ⟨steps, hnear, hfar⟩ := hlayer.isDistance_of_discoverer? hnext count hkey
    have hfirst := hlayer.discoverer?_expandLayers hnext count
      (Discoveries.mem_found_of_discoverer? hkey)
    obtain ⟨-, before, after, hsplit, hbefore⟩ :=
      List.find?_eq_some_iff_append.1 (hfirst.symm.trans hkey)
    refine ⟨steps, hnear, hfar, before, after, hsplit, fun other hother _ => ?_⟩
    simpa using hbefore other hother

namespace Graph

variable {graph : Graph}

/-- The breadth-first search finds what is within its limit. -/
theorem mem_found_breadth (hstart : start < graph.nodes.length) (limit : Option Nat) {node : Nat} :
    node ∈ (graph.successors start limit .breadth).found ↔ node ≠ start ∧
      ∃ steps, IsDistance graph.children start node steps ∧ ∀ bound ∈ limit, steps ≤ bound :=
  (isBreadthFirstTree_breadthFirst graph.children_nodup (getD_le limit)
    (getD_stops hstart limit)).mem_found node

/-- The breadth-first search does what a queue does and nothing else can. It
maps the nodes within the limit as a breadth-first tree. -/
theorem isBreadthFirstTree_successors (hstart : start < graph.nodes.length) (limit : Option Nat) :
    ∃ order, Serves graph.children limit [start] [(start, 0)] order
        (graph.successors start limit .breadth) ∧
      (∀ order' found', Serves graph.children limit [start] [(start, 0)] order' found' →
        order' = order ∧ found' = graph.successors start limit .breadth) ∧
      IsBreadthFirstTree graph.children start limit order
        (graph.successors start limit .breadth) := by
  have hserves := serves_successors hstart limit
  refine ⟨_, hserves, fun _ _ hother => hserves.unique hother, ?_⟩
  exact isBreadthFirstTree_breadthFirst graph.children_nodup (getD_le limit)
    (getD_stops hstart limit)

/-- Two tables that share a column, which leads back to the root and on to a
column that is too far away for a limit of two. -/
def ringTables : Graph where
  name := "g"
  nodes := [.table "roots" none, .table "as" none, .table "bs" none, .field "x" none .string,
    .field "y" none .string]
  edges := [⟨0, 1, []⟩, ⟨0, 2, []⟩, ⟨2, 3, []⟩, ⟨1, 3, []⟩, ⟨3, 0, []⟩, ⟨3, 4, []⟩]
  ids_nodup := by decide +kernel
  ends_nodup := by decide
  joins := by decide +kernel

theorem isBreadthFirstTree_successors_ringTables :
    0 < ringTables.nodes.length ∧
      ringTables.successors 0 (some 2) .breadth = [(0, [1, 2]), (1, [3])] ∧
      ∃ order, Serves ringTables.children (some 2) [0] [(0, 0)] order
          (ringTables.successors 0 (some 2) .breadth) ∧
        (∀ order' found', Serves ringTables.children (some 2) [0] [(0, 0)] order' found' →
          order' = order ∧ found' = ringTables.successors 0 (some 2) .breadth) ∧
        IsBreadthFirstTree ringTables.children 0 (some 2) order
          (ringTables.successors 0 (some 2) .breadth) := by
  have hstart : 0 < ringTables.nodes.length := by decide
  exact ⟨hstart, by decide, isBreadthFirstTree_successors hstart (some 2)⟩

end Graph

end DocumentViews
