/-!
Why a graph has no plan. Either it has no node to start from, or a node does
not fit into the tables, and then the node is named.
-/

namespace DocumentViews

inductive Misfit where
  | onOrBelowCycle
  | noParents
  | noChildren
  | foreignChild

inductive PlanError where
  | noRoot (graphName : String)
  | misfit (nodeId : String) (reason : Misfit)

def Misfit.message : Misfit → String
  | onOrBelowCycle => "node lies on or below a cycle"
  | noParents => "promoted node has no parents"
  | noChildren => "promoted node has no children"
  | foreignChild => "successor map lists a child the node does not have"

def PlanError.message : PlanError → String
  | noRoot graphName => "system '" ++ graphName ++ "' has no root node"
  | misfit nodeId reason =>
    "planning invariant violated at node '" ++ nodeId ++ "': " ++ reason.message

end DocumentViews
