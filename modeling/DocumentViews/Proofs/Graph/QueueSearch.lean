import Mathlib
import DocumentViews.Proofs.Graph.BreadthFirst

/-!
The queue of a breadth-first search with a limit. It holds nodes with their
numbers of steps from the start, and hands out the first. Below the limit a
node that is handed out takes those of its children that were not seen yet, and
they join the queue one step further on. The search by layers finds the same in
the same order.
-/

namespace DocumentViews

variable {next : Nat → List Nat} {limit : Option Nat} {start : Nat}

/-- A node with what it discovers, unless that is nothing. -/
def entryOf (node : Nat) (children : List Nat) : Discoveries :=
  if children = [] then [] else [(node, children)]

/-- A queue hands out nodes in an order and maps them to what they discover. At
the limit a node discovers nothing, and below it the children not seen yet. -/
inductive Serves (next : Nat → List Nat) (limit : Option Nat) :
    List Nat → List (Nat × Nat) → List Nat → Discoveries → Prop
  | nil (seen : List Nat) : Serves next limit seen [] [] []
  | pass {seen order : List Nat} {queue : List (Nat × Nat)} {found : Discoveries}
    {node depth : Nat} (hlimit : limit.any (· ≤ depth) = true)
    (hrest : Serves next limit seen queue order found) :
    Serves next limit seen ((node, depth) :: queue) (node :: order) found
  | expand {seen order : List Nat} {queue : List (Nat × Nat)} {found : Discoveries}
    {node depth : Nat} (hlimit : limit.any (· ≤ depth) = false)
    (hrest : Serves next limit (seen ++ (next node).filter (· ∉ seen))
      (queue ++ ((next node).filter (· ∉ seen)).map (·, depth + 1)) order found) :
    Serves next limit seen ((node, depth) :: queue) (node :: order)
      (entryOf node ((next node).filter (· ∉ seen)) ++ found)

variable {seen order layer visited : List Nat} {queue : List (Nat × Nat)} {found : Discoveries}
  {depth : Nat}

/-- A queue does one thing only. -/
theorem Serves.unique {order' : List Nat} {found' : Discoveries}
    (h : Serves next limit seen queue order found)
    (h' : Serves next limit seen queue order' found') : order' = order ∧ found' = found := by
  induction h generalizing order' found' with
  | nil seen =>
    cases h'
    exact ⟨rfl, rfl⟩
  | pass hlimit hrest ih =>
    cases h' with
    | pass _ hrest' =>
      obtain ⟨rfl, rfl⟩ := ih hrest'
      exact ⟨rfl, rfl⟩
    | expand hlimit' => simp [hlimit] at hlimit'
  | expand hlimit hrest ih =>
    cases h' with
    | pass hlimit' => simp [hlimit] at hlimit'
    | expand _ hrest' =>
      obtain ⟨rfl, rfl⟩ := ih hrest'
      exact ⟨rfl, rfl⟩

theorem filter_cons_entryOf (node : Nat) (children : List Nat) (rest : Discoveries) :
    ((node, children) :: rest).filter (!·.2.isEmpty) =
      entryOf node children ++ rest.filter (!·.2.isEmpty) := by
  unfold entryOf
  cases children with
  | nil => rfl
  | cons child children => rfl

/-- At the limit a layer is handed out and nothing is found. -/
theorem Serves.pass_layer (hlimit : limit.any (· ≤ depth) = true) (seen layer : List Nat) :
    Serves next limit seen (layer.map (·, depth)) layer [] := by
  induction layer with
  | nil => exact .nil seen
  | cons first rest ih => exact .pass hlimit ih

/-- Below the limit a queue that starts with a layer hands out the layer and
then holds what was discovered from it behind the rest. -/
theorem Serves.append_layer (queue : List (Nat × Nat)) (hlimit : limit.any (· ≤ depth) = false)
    (h : Serves next limit (seen ++ (expandLayer next seen layer).found)
      (queue ++ (expandLayer next seen layer).found.map (·, depth + 1)) order found) :
    Serves next limit seen (layer.map (·, depth) ++ queue) (layer ++ order)
      ((expandLayer next seen layer).filter (!·.2.isEmpty) ++ found) := by
  induction layer generalizing seen queue with
  | nil => simpa [expandLayer, Discoveries.found] using h
  | cons first rest ih =>
    rw [expandLayer, Discoveries.found_cons, List.map_append, ← List.append_assoc,
      ← List.append_assoc] at h
    have hrest := ih _ h
    rw [← List.append_assoc] at hrest
    rw [expandLayer, filter_cons_entryOf, List.append_assoc]
    exact .expand hlimit hrest

/-- A queue ends with a layer from which nothing is discovered. -/
theorem Serves.last_layer (h : (expandLayer next seen layer).found = []) :
    Serves next limit seen (layer.map (·, depth)) layer [] := by
  cases hlimit : limit.any (· ≤ depth) with
  | true => exact Serves.pass_layer hlimit seen layer
  | false =>
    have hlayer : Serves next limit seen (layer.map (·, depth) ++ []) (layer ++ [])
        ((expandLayer next seen layer).filter (!·.2.isEmpty) ++ []) := by
      apply Serves.append_layer [] hlimit
      rw [h]
      exact .nil _
    rw [Discoveries.filter_eq_nil h] at hlayer
    simpa using hlayer

/-- From a layer on a queue hands out the layer and what is found behind it in
`count` steps, when these reach the limit or one more reaches nothing new. -/
theorem IsLayer.serves (hnext : ∀ node, (next node).Nodup) {count : Nat}
    (h : IsLayer next start depth visited layer)
    (hbelow : ∀ bound ∈ limit, depth + count ≤ bound)
    (hstop : depth + count ∈ limit ∨ ∀ node, Within next start (depth + count + 1) node →
      Within next start (depth + count) node) :
    Serves next limit visited (layer.map (·, depth))
      (layer ++ (expandLayers next visited layer count).found)
      (expandLayers next visited layer count) := by
  induction count generalizing depth visited layer with
  | zero =>
    simp only [expandLayers, Discoveries.found, List.flatMap_nil, List.append_nil]
    rcases hstop with hbound | hstop
    · have hlimit : limit.any (· ≤ depth) = true := by
        rw [Option.mem_def.1 hbound]
        simp
      exact Serves.pass_layer hlimit visited layer
    · apply Serves.last_layer
      apply List.eq_nil_iff_forall_not_mem.2
      intro node hfound
      obtain ⟨hnode, hnew⟩ := h.mem_found.1 hfound
      exact hnew (hstop node hnode)
  | succ count ih =>
    rw [found_expandLayers_succ, expandLayers_succ]
    have hlimit : limit.any (· ≤ depth) = false := by
      apply any_le_eq_false_iff.2
      intro bound hbound
      have := hbelow bound hbound
      omega
    have hlater := ih (h.step hnext) (by rwa [Nat.add_right_comm depth, Nat.add_assoc depth])
      (by rwa [Nat.add_right_comm depth, Nat.add_assoc depth])
    have hall := Serves.append_layer [] hlimit hlater
    rwa [List.append_nil] at hall

namespace Graph

variable {graph : Graph}

theorem getD_le {size : Nat} (limit : Option Nat) : ∀ bound ∈ limit, limit.getD size ≤ bound := by
  intro bound hbound
  rw [Option.mem_def.1 hbound, Option.getD_some]

/-- A search of a graph ends at its limit or when it has reached everything. -/
theorem getD_stops (hstart : start < graph.nodes.length) (limit : Option Nat) :
    limit.getD graph.nodes.length ∈ limit ∨
      ∀ node, Within graph.children start (limit.getD graph.nodes.length + 1) node →
        Within graph.children start (limit.getD graph.nodes.length) node := by
  cases limit with
  | none =>
    refine Or.inr fun node hnode => ?_
    exact hnode.of_bounded hstart fun _ _ hchild => lt_of_mem_children hchild
  | some bound => exact Or.inl rfl

theorem serves_successors (hstart : start < graph.nodes.length) (limit : Option Nat) :
    Serves graph.children limit [start] [(start, 0)]
      (start :: (graph.successors start limit .breadth).found)
      (graph.successors start limit .breadth) := by
  apply (isLayer_start graph.children start).serves graph.children_nodup
  · simpa using getD_le limit
  · simpa using getD_stops hstart limit

end Graph

end DocumentViews
