import DocumentViews.Graph.Search

/-!
The split of discoveries into two sets. A node that was discovered and
discovers others is inner. A node that only discovers or was only discovered
is outer, as are the start and the leaves.
-/

namespace DocumentViews

structure LayerSplit where
  outer : List Nat
  inner : List Nat

namespace Discoveries

/-- Whether a node was discovered and discovers others. -/
def isInner (discoveries : Discoveries) (node : Nat) : Bool :=
  decide (node ∈ Listing.keys discoveries) && decide (node ∈ discoveries.found)

/-- Splits the nodes, those that discover before those that do not. -/
def split (discoveries : Discoveries) : LayerSplit :=
  let nodes := firstArrivals (Listing.keys discoveries ++ discoveries.found)
  ⟨nodes.filter (!discoveries.isInner ·), nodes.filter (discoveries.isInner ·)⟩

end Discoveries

end DocumentViews
