import Mathlib
import DocumentViews.Proofs.Graph.Ancestry
import DocumentViews.Proofs.Schema.DocumentPlan

/-!
Where the columns of a planned document are read. A node keeps the key under
which it was registered first, and a table is reached along the least of the
shortest chains of nested tables. So a column is read at the first keys of the
tables on that chain and then at its own first key. This need not be a place at
which the schema declares it.
-/

namespace DocumentViews

open Relation

namespace Schema

/-- The key under which the node of a kind and a name was registered first. -/
def firstKey (registrations : List Registration) (kind : NodeKind) (name : String) :
    Option String :=
  (registrations.find? fun registration =>
    registration.node.kind = kind ∧ registration.node.name = name).bind (·.node.key)

/-- The keys of a chain of tables. The key of the root leads nowhere. -/
def chainKeys (registrations : List Registration) (chain : List String) : List String :=
  chain.tail.filterMap (firstKey registrations .entity)

/-- The least of the shortest chains of nested tables from the root. -/
def IsLeastChain (registrations : List Registration) (root table : String) :
    List String → Prop :=
  IsLeastPath (Nested registrations) tableId root table

/-- A column of a table is read at a place. -/
def IsReadAt (registrations : List Registration) (root table : String)
    (column : String × ScalarType) (place : List String) : Prop :=
  ∃ chain, IsLeastChain registrations root table chain ∧
    place = chainKeys registrations chain ++
      (firstKey registrations (.component column.2) column.1).toList

/-- The schema has a scalar of a type at a place. -/
def IsDeclared (registrations : List Registration) (type : ScalarType) (place : List String) :
    Prop :=
  ∃ registration ∈ registrations, registration.node.kind = .component type ∧
    registration.place = place

/-- Some column that is registered is read at a place. -/
def IsRead (registrations : List Registration) (root : String) (type : ScalarType)
    (place : List String) : Prop :=
  ∃ table name, (name, type) ∈ columnsUnder registrations table ∧
    IsReadAt registrations root table (name, type) place

theorem isLeastChain_cons_root (root : Node) (place : List String) (rest : List Registration) :
    IsLeastChain (⟨none, root, place⟩ :: rest) = IsLeastChain rest := by
  funext label table chain
  rw [IsLeastChain, IsLeastChain, nested_cons_root]

theorem chainKeys_concat (registrations : List Registration) {chain : List String}
    (hnil : chain ≠ []) (table : String) :
    chainKeys registrations (chain ++ [table]) =
      chainKeys registrations chain ++ (firstKey registrations .entity table).toList := by
  rw [chainKeys, List.tail_append_of_ne_nil hnil, List.filterMap_append, ← chainKeys,
    List.filterMap_cons, List.filterMap_nil]
  cases firstKey registrations .entity table with
  | none => rfl
  | some key => rfl

end Schema

theorem tableId_injective : Function.Injective tableId := by
  intro first second h
  exact (nodeIdentifier_plain_inj.1 h).2

/-- The keys that lead to the value of a column. -/
def Column.place (column : Column) : List String :=
  column.keyPath ++ column.key.toList

namespace Graph

open Schema

variable {graph : Graph} {root : Node} {rest : List Registration}

theorem map_tableId_nameOf {path : List Nat}
    (htables : ∀ node ∈ path, graph.StandsFor node .entity (graph.nameOf node)) :
    (path.map graph.nameOf).map tableId = path.map graph.idOf := by
  rw [List.map_map]
  apply List.map_congr_left
  intro node hnode
  exact (htables node hnode).idOf.symm

/-- A column comes from a node among the children of its table. -/
theorem exists_node_of_mem_columns {promoted : List Nat} {index : Nat} {table : Table}
    (hbare : table.columns = []) {column : Column}
    (hcolumn : column ∈ (graph.fillTable promoted index table).columns) :
    ∃ child node, graph.node? child = some node ∧ node.column? table = some column := by
  rw [fillTable_eq _ hbare] at hcolumn
  obtain ⟨node, hnode, hgives⟩ := List.mem_filterMap.1 hcolumn
  obtain ⟨child, -, hchild⟩ := List.mem_filterMap.1 hnode
  exact ⟨child, node, hchild, hgives⟩

namespace Represents

theorem isPlain_of_mem_cons (h : graph.Represents root rest) (place : List String) :
    ∀ registration ∈ (⟨none, root, place⟩ :: rest : List Registration),
      registration.node.IsPlain := by
  intro registration hin
  rcases List.mem_cons.1 hin with rfl | hin
  · exact h.root_isTable.1
  · exact h.isPlain registration hin

/-- A node has the key under which it was registered first. -/
theorem key_eq_firstKey (h : graph.Represents root rest) (place : List String) {index : Nat}
    {kind : NodeKind} {label : String} (hindex : graph.StandsFor index kind label) :
    (graph.node? index).bind Node.key =
      firstKey (⟨none, root, place⟩ :: rest) kind label := by
  have hnodes : root :: rest.map Registration.node =
      (⟨none, root, place⟩ :: rest : List Registration).map Registration.node := rfl
  rw [h.node?_eq hindex.lt, hindex.idOf, hnodes, List.find?_map, Option.bind_map, firstKey]
  congr 1
  apply List.find?_congr
  intro registration hin
  rw [Function.comp_apply, (h.isPlain_of_mem_cons place registration hin).id_eq,
    beq_eq_decide, decide_eq_decide]
  exact nodeIdentifier_plain_inj

/-- A path from the root to a table is a chain of nested tables. -/
theorem isPathTo_nested (h : graph.Represents root rest) {index : Nat} {path : List Nat}
    (hpath : IsPathTo graph.IsParent 0 index path) {label : String}
    (hindex : graph.StandsFor index .entity label) :
    IsPathTo (Nested rest) root.name label (path.map graph.nameOf) ∧
      ∀ node ∈ path, graph.StandsFor node .entity (graph.nameOf node) := by
  induction hpath generalizing label with
  | start =>
    have hname := h.nameOf_eq hindex
    have hroot := (hindex.inj h.standsFor_root).2
    subst hroot
    rw [List.map_singleton, hname]
    refine ⟨.start, fun node hnode => ?_⟩
    rw [List.mem_singleton.1 hnode, hname]
    exact hindex
  | @step node other path hpath hstep ih =>
    have hnode := h.standsFor_of_isParent hstep
    obtain ⟨hchain, htables⟩ := ih hnode
    have hname := h.nameOf_eq hindex
    rw [List.map_append, List.map_singleton, hname]
    refine ⟨hchain.step ((h.isParent_iff_nested hnode hindex).1 hstep), fun next hnext => ?_⟩
    rcases List.mem_append.1 hnext with hnext | hnext
    · exact htables next hnext
    · rw [List.mem_singleton.1 hnext, hname]
      exact hindex

/-- Every chain of nested tables is the chain of names along a path. -/
theorem exists_isPathTo_of_nested (h : graph.Represents root rest) {label : String}
    {chain : List String} (hchain : IsPathTo (Nested rest) root.name label chain) :
    ∃ index path, IsPathTo graph.IsParent 0 index path ∧
      graph.StandsFor index .entity label ∧ path.map graph.nameOf = chain := by
  induction hchain with
  | start => exact ⟨0, [0], .start, h.standsFor_root, by rw [List.map_singleton, h.nameOf_zero]⟩
  | step _ hnested ih =>
    obtain ⟨index, path, hpath, hindex, hmap⟩ := ih
    obtain ⟨i, j, hij, hi, hj⟩ := h.exists_isParent_of_nested hnested
    rw [hi.eq hindex] at hij
    refine ⟨j, path ++ [j], hpath.step hij, hj, ?_⟩
    rw [List.map_append, hmap, List.map_singleton, h.nameOf_eq hj]

/-- The least path to a table is the least chain of nested tables. -/
theorem isLeastChain_of_isLeastPath (h : graph.Represents root rest) {index : Nat}
    {path : List Nat} {label : String} (hindex : graph.StandsFor index .entity label)
    (hpath : IsLeastPath graph.IsParent graph.idOf 0 index path) :
    IsLeastChain rest root.name label (path.map graph.nameOf) := by
  obtain ⟨hchain, htables⟩ := h.isPathTo_nested hpath.isPathTo hindex
  constructor
  · exact hchain
  · intro other hother
    obtain ⟨index', path', hpath', hindex', rfl⟩ := h.exists_isPathTo_of_nested hother
    rw [hindex'.eq hindex] at hpath'
    have htables' := (h.isPathTo_nested hpath' hindex).2
    rw [Precedes, List.length_map, List.length_map, map_tableId_nameOf htables,
      map_tableId_nameOf htables']
    exact hpath.precedes path' hpath'

theorem exists_isLeastChain (h : graph.Represents root rest) {registration : Registration}
    (hin : registration ∈ rest) {table : Node} (haround : registration.around = some table) :
    ∃ chain, IsLeastChain rest root.name table.name chain := by
  obtain ⟨index, hindex⟩ := h.exists_standsFor_around hin haround
  have hleast := isLeastPath_shortestPath hindex.lt (h.reaches hindex.lt)
  exact ⟨_, h.isLeastChain_of_isLeastPath hindex hleast⟩

theorem chainKeys_map_nameOf (h : graph.Represents root rest) (place : List String)
    {path : List Nat}
    (htables : ∀ node ∈ path, graph.StandsFor node .entity (graph.nameOf node)) :
    chainKeys (⟨none, root, place⟩ :: rest) (path.map graph.nameOf) =
      ((path.drop 1).filterMap graph.node?).filterMap Node.key := by
  rw [chainKeys, ← List.map_tail, List.filterMap_map, List.filterMap_filterMap, List.drop_one]
  apply List.filterMap_congr
  intro node hnode
  exact (h.key_eq_firstKey place (htables node (List.mem_of_mem_tail hnode))).symm

theorem root_ancestry_eq_zero (h : graph.Represents root rest) (hacyclic : ¬ graph.HasCycle)
    {index : Nat} (hlt : index < graph.nodes.length) : (graph.ancestry index).root = 0 :=
  root_ancestry_eq hacyclic hlt fun _ hreach => h.reaches (hreach.lt_start hlt)

/-- The keys that lead to a table are those of the tables on its least chain. -/
theorem keyPath_ancestry (h : graph.Represents root rest) (place : List String)
    (hacyclic : ¬ graph.HasCycle) {index : Nat} {label : String}
    (hindex : graph.StandsFor index .entity label) :
    ∃ chain, IsLeastChain rest root.name label chain ∧
      (graph.ancestry index).keyPath = chainKeys (⟨none, root, place⟩ :: rest) chain := by
  have hleast := isLeastPath_shortestPath hindex.lt (h.reaches hindex.lt)
  have htables := (h.isPathTo_nested hleast.isPathTo hindex).2
  refine ⟨_, h.isLeastChain_of_isLeastPath hindex hleast, ?_⟩
  have hroot := h.root_ancestry_eq_zero hacyclic hindex.lt
  rw [h.chainKeys_map_nameOf place htables]
  simp only [ancestry] at hroot ⊢
  rw [hroot]

/-- The tables of a planned document are read along their least chains. -/
theorem keyPath_layout (h : graph.Represents root rest) (place : List String)
    (hacyclic : ¬ graph.HasCycle) {table : Table} (hin : table ∈ graph.layout.tables) :
    ∃ chain, IsLeastChain rest root.name table.name chain ∧
      table.keyPath = chainKeys (⟨none, root, place⟩ :: rest) chain := by
  rcases List.mem_cons.1 hin with rfl | hin
  · rw [fillTable_name, fillTable_keyPath, h.nameOf_zero]
    exact ⟨[root.name], isLeastPath_start _ _ _, rfl⟩
  · obtain ⟨index, hindex, rfl⟩ := List.mem_map.1 hin
    rw [tableAt, fillTable_name, fillTable_keyPath]
    have hplanned : index ∈ graph.planned := List.mem_cons_of_mem 0 hindex
    exact h.keyPath_ancestry place hacyclic (h.standsFor_of_mem_planned hacyclic hplanned)

/-- A planned column is read at the keys of its table and then at its first
key. -/
theorem place_of_mem_layout (h : graph.Represents root rest) (place : List String)
    {table : Table} (hin : table ∈ graph.layout.tables) {column : Column}
    (hcolumn : column ∈ table.columns) :
    column.place = table.keyPath ++
      (firstKey (⟨none, root, place⟩ :: rest) (.component column.type) column.name).toList := by
  obtain ⟨index, -, namePath, keyPath, rfl⟩ := exists_fillTable_of_mem_layout hin
  obtain ⟨child, node, hnode, hgives⟩ := exists_node_of_mem_columns rfl hcolumn
  obtain ⟨type, htype, rfl⟩ := Option.map_eq_some_iff.1 hgives
  have hkind : node.kind = .component type := by
    cases hkind : node.kind with
    | entity => simp [hkind, NodeKind.fieldType?] at htype
    | component other =>
      rw [hkind] at htype
      rw [Option.some.inj htype]
  have hkey := h.key_eq_firstKey place (h.standsFor_of_node? hnode)
  rw [hnode, Option.bind_some, hkind] at hkey
  rw [Column.place, hkey, fillTable_keyPath]
  rfl

/-- A registered column is a column of a planned table. -/
theorem exists_column_of_mem_columnsUnder (h : graph.Represents root rest)
    (hacyclic : ¬ graph.HasCycle) {label : String} {field : String × ScalarType}
    (hregistered : field ∈ columnsUnder rest label) :
    ∃ table ∈ graph.layout.tables, table.name = label ∧
      ∃ column ∈ table.columns, column.field = field := by
  have hplanned : label ∈ graph.layout.tables.map Table.name := by
    rw [map_name_layout]
    exact (h.mem_map_planned hacyclic).2 (Or.inr (Or.inl (List.ne_nil_of_mem hregistered)))
  obtain ⟨table, hin, rfl⟩ := List.mem_map.1 hplanned
  have hfield : field ∈ table.fields := by
    rw [h.fields_layout hacyclic hin, mem_firstArrivals]
    exact hregistered
  obtain ⟨column, hcolumn, hsame⟩ := List.mem_map.1 hfield
  exact ⟨table, hin, rfl, column, hcolumn, hsame⟩

/-- The columns of a planned document are read where the registered ones are. -/
theorem exists_mem_layout_iff (h : graph.Represents root rest) (place : List String)
    (hacyclic : ¬ graph.HasCycle) (type : ScalarType) (target : List String) :
    (∃ table ∈ graph.layout.tables, ∃ column ∈ table.columns,
        column.type = type ∧ column.place = target) ↔
      IsRead (⟨none, root, place⟩ :: rest) root.name type target := by
  simp only [IsRead, IsReadAt, isLeastChain_cons_root, columnsUnder_cons_root]
  constructor
  · intro hplanned
    obtain ⟨table, hin, column, hcolumn, rfl, rfl⟩ := hplanned
    have hfield : column.field ∈ table.fields := List.mem_map_of_mem hcolumn
    rw [h.fields_layout hacyclic hin, mem_firstArrivals] at hfield
    obtain ⟨chain, hchain, hkeys⟩ := h.keyPath_layout place hacyclic hin
    refine ⟨table.name, column.name, hfield, chain, hchain, ?_⟩
    rw [h.place_of_mem_layout place hin hcolumn, hkeys]
  · intro hread
    obtain ⟨label, columnName, hregistered, chain, hchain, rfl⟩ := hread
    obtain ⟨table, hin, rfl, column, hcolumn, hsame⟩ :=
      h.exists_column_of_mem_columnsUnder hacyclic hregistered
    obtain ⟨rfl, rfl⟩ := Prod.mk.inj hsame
    -- The chain of the table is the least one, and there is but one.
    obtain ⟨other, hother, hkeys⟩ := h.keyPath_layout place hacyclic hin
    refine ⟨table, hin, column, hcolumn, rfl, ?_⟩
    rw [h.place_of_mem_layout place hin hcolumn, hkeys, hother.eq tableId_injective hchain]

end Represents

end Graph

namespace Schema

/-- Fragments that share a node have one key, and those that share a table
stand at one place. -/
structure IsUnambiguous (registrations : List Registration) : Prop where
  key_eq : ∀ first ∈ registrations, ∀ second ∈ registrations,
    first.node.kind = second.node.kind → first.node.name = second.node.name →
      first.node.key = second.node.key
  place_eq : ∀ first ∈ registrations, ∀ second ∈ registrations,
    first.node.kind = .entity → second.node.kind = .entity →
      first.node.name = second.node.name → first.place = second.place

/-- Tables that share a name stand at one place and have one key, but for the
items of an array that are called like the array. -/
structure IsSteady (registrations : List Registration) : Prop where
  key_eq : ∀ registration ∈ registrations, registration.node.kind = .entity →
    (∀ table ∈ registration.around, table.name ≠ registration.node.name) →
      firstKey registrations .entity registration.node.name = registration.node.key
  place_eq : ∀ first ∈ registrations, ∀ second ∈ registrations,
    first.node.kind = .entity → second.node.kind = .entity →
      first.node.name = second.node.name → first.place = second.place

variable {root : Node} {rest : List Registration}

theorem IsUnambiguous.firstKey_eq {registrations : List Registration}
    (h : IsUnambiguous registrations) {registration : Registration}
    (hin : registration ∈ registrations) :
    firstKey registrations registration.node.kind registration.node.name =
      registration.node.key := by
  unfold firstKey
  cases hfind : registrations.find? fun other => other.node.kind = registration.node.kind ∧
      other.node.name = registration.node.name with
  | none =>
    have := List.find?_eq_none.1 hfind registration hin
    simp at this
  | some other =>
    have hsame := List.find?_some hfind
    simp only [decide_eq_true_eq] at hsame
    exact h.key_eq other (List.mem_of_find?_eq_some hfind) registration hin hsame.1 hsame.2

/-- The keys that lead to a table lead on to what stands under it. -/
theorem IsDocument.chainKeys_append_key (hdocument : IsDocument root rest) {table : Node}
    {chain : List String}
    (hchain : ∀ above ∈ (⟨none, root, []⟩ :: rest : List Registration),
      above.node.kind = .entity → above.node.name = table.name →
        chainKeys (⟨none, root, []⟩ :: rest) chain = above.place)
    {registration : Registration} (hin : registration ∈ rest)
    (haround : registration.around = some table) :
    chainKeys (⟨none, root, []⟩ :: rest) chain ++ registration.node.key.toList =
      registration.place := by
  obtain ⟨above, habove, hsame, hplace⟩ := hdocument.exists_above hin haround
  have htable := hdocument.isTable_of_around hin haround
  rw [← hsame] at htable
  rw [hchain above habove htable.2 (congrArg Node.name hsame), hplace]

/-- Every chain of nested tables leads to the place of its last table. -/
theorem IsSteady.chainKeys_eq (hdocument : IsDocument root rest)
    (h : IsSteady (⟨none, root, []⟩ :: rest)) {table : String} {chain : List String}
    (hchain : IsPathTo (Nested rest) root.name table chain) :
    ∀ registration ∈ (⟨none, root, []⟩ :: rest : List Registration),
      registration.node.kind = .entity → registration.node.name = table →
        chainKeys (⟨none, root, []⟩ :: rest) chain = registration.place := by
  induction hchain with
  | start =>
    intro registration hin hkind hname
    exact (h.place_eq _ List.mem_cons_self registration hin hdocument.root_isTable.2 hkind
      hname.symm).trans rfl
  | @step outer inner chain hchain hnested ih =>
    intro registration hin hkind hname
    obtain ⟨hne, other, hother, ⟨table, haround, rfl⟩, hotherKind, rfl⟩ := hnested
    have hfirst : firstKey (⟨none, root, []⟩ :: rest) .entity other.node.name =
        other.node.key := by
      apply h.key_eq other (List.mem_cons_of_mem _ hother) hotherKind
      intro outer houter
      rw [haround] at houter
      rw [← Option.some.inj houter]
      exact hne
    have hnil : chain ≠ [] := List.ne_nil_of_length_pos hchain.length_pos
    calc
      chainKeys (⟨none, root, []⟩ :: rest) (chain ++ [other.node.name])
          = chainKeys (⟨none, root, []⟩ :: rest) chain ++ other.node.key.toList := by
        rw [chainKeys_concat _ hnil, hfirst]
      _ = other.place := hdocument.chainKeys_append_key ih hother haround
      _ = registration.place :=
        h.place_eq other (List.mem_cons_of_mem _ hother) registration hin hotherKind hkind
          hname.symm

theorem IsUnambiguous.isSteady {registrations : List Registration}
    (h : IsUnambiguous registrations) : IsSteady registrations where
  key_eq _ hin hkind _ := hkind ▸ h.firstKey_eq hin
  place_eq := h.place_eq

/-- In an unambiguous document columns are read where the schema declares
them, and nowhere else. -/
theorem isRead_iff_isDeclared (hdocument : IsDocument root rest)
    (h : IsUnambiguous (⟨none, root, []⟩ :: rest)) (type : ScalarType) (place : List String) :
    IsRead (⟨none, root, []⟩ :: rest) root.name type place ↔
      IsDeclared (⟨none, root, []⟩ :: rest) type place := by
  simp only [IsRead, IsReadAt, isLeastChain_cons_root, columnsUnder_cons_root]
  constructor
  · intro hread
    obtain ⟨table, name, hregistered, chain, hchain, rfl⟩ := hread
    obtain ⟨registration, hin, ⟨outer, haround, rfl⟩, hkind, rfl⟩ := mem_columnsUnder.1 hregistered
    have hkeys := hdocument.chainKeys_append_key
      (h.isSteady.chainKeys_eq hdocument hchain.isPathTo) hin haround
    have hfirst := h.firstKey_eq (List.mem_cons_of_mem _ hin)
    rw [hkind] at hfirst
    refine ⟨registration, List.mem_cons_of_mem _ hin, hkind, ?_⟩
    rw [hfirst, hkeys]
  · intro hdeclared
    obtain ⟨registration, hin, hkind, rfl⟩ := hdeclared
    rcases List.mem_cons.1 hin with rfl | hrest
    · rw [hdocument.root_isTable.2] at hkind
      exact NodeKind.noConfusion hkind
    · obtain ⟨outer, haround, -⟩ := hdocument.isTable_around registration hrest
      -- Some graph represents the document, so there is a least chain.
      have hgraph := Graph.represents_ofDocument "" hdocument
      obtain ⟨chain, hchain⟩ := hgraph.exists_isLeastChain hrest haround
      have hkeys := hdocument.chainKeys_append_key
        (h.isSteady.chainKeys_eq hdocument hchain.isPathTo) hrest haround
      have hfirst := h.firstKey_eq hin
      rw [hkind] at hfirst
      refine ⟨outer.name, registration.node.name, ?_, chain, hchain, ?_⟩
      · exact mem_columnsUnder.2 ⟨registration, hrest, ⟨outer, haround, rfl⟩, hkind, rfl⟩
      · rw [hfirst, hkeys]

end Schema

end DocumentViews
