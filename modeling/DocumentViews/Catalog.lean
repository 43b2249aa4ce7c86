import DocumentViews.Graph.Basic

/-!
Graphs by name, in ascending order of their names. A graph comes into being
when its name is first opened, and it bears the name it is stored under.
-/

namespace DocumentViews

abbrev Catalog := Members Graph

namespace Catalog

/-- The graph of a name, which is empty when the name is new. -/
def graph (catalog : Catalog) (name : String) : Graph :=
  (catalog.find? name).getD (.empty name)

/-- Creates the graph of a name if there is none. -/
def openGraph (catalog : Catalog) (name : String) : Catalog :=
  catalog.insert name (catalog.graph name)

/-- Runs an operation on the graph of a name, which is created if need be. -/
def update {α : Type} (catalog : Catalog) (name : String) (operation : Graph → Graph × α) :
    Catalog × α :=
  let (graph, result) := operation (catalog.graph name)
  (catalog.insert name graph, result)

/-- Takes out the graph of a name. -/
def remove (catalog : Catalog) (name : String) : Catalog × Option Graph :=
  (catalog.erase name, catalog.find? name)

end Catalog

end DocumentViews
