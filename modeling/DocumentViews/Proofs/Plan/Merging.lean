import Mathlib
import DocumentViews.Plan.Basic
import DocumentViews.Proofs.Listing

/-!
Tables that are merged one after the other. Tables are compared by their
number of columns and then by the length of their path. Of the tables with one
identifier the first among the largest is kept, at the place where the
identifier came first, so the order of the tables has no effect on what size is
kept.
-/

namespace DocumentViews

/-- The number of columns, which counts first, and the length of the path. -/
def Table.size (table : Table) : ℕ ×ₗ ℕ :=
  toLex (table.columns.length, table.parentPath.length)

theorem Table.betters_iff {table other : Table} :
    table.betters other = true ↔ other.size < table.size := by
  rw [betters, Bool.or_eq_true, Bool.and_eq_true, decide_eq_true_eq, decide_eq_true_eq,
    beq_iff_eq, size, size, Prod.Lex.toLex_lt_toLex, eq_comm (a := table.columns.length)]

/-- A table is larger than all tables of its identifier before it and at least
as large as those behind it. -/
def IsFirstLargest (tables : List Table) (table : Table) : Prop :=
  ∃ before after, tables = before ++ table :: after ∧
    (∀ other ∈ before, other.id = table.id → other.size < table.size) ∧
    ∀ other ∈ after, other.id = table.id → other.size ≤ table.size

namespace IsFirstLargest

variable {tables : List Table} {table : Table}

theorem mem (h : IsFirstLargest tables table) : table ∈ tables := by
  obtain ⟨before, after, rfl, -, -⟩ := h
  exact List.mem_append_right before List.mem_cons_self

theorem size_le (h : IsFirstLargest tables table) :
    ∀ other ∈ tables, other.id = table.id → other.size ≤ table.size := by
  obtain ⟨before, after, rfl, hbefore, hafter⟩ := h
  intro other hother hid
  rcases List.mem_append.1 hother with hother | hother
  · exact (hbefore other hother hid).le
  rcases List.mem_cons.1 hother with rfl | hother
  · exact le_rfl
  · exact hafter other hother hid

/-- A table stays the first of the largest when nothing larger comes behind. -/
theorem concat (h : IsFirstLargest tables table) {last : Table}
    (hlast : last.id = table.id → last.size ≤ table.size) :
    IsFirstLargest (tables ++ [last]) table := by
  obtain ⟨before, after, rfl, hbefore, hafter⟩ := h
  refine ⟨before, after ++ [last], by simp, hbefore, ?_⟩
  intro other hother
  rcases List.mem_append.1 hother with hother | hother
  · exact hafter other hother
  · rw [List.mem_singleton.1 hother]
    exact hlast

/-- A table that comes last is the first of the largest when all others of its
identifier are smaller. -/
theorem of_last (h : ∀ other ∈ tables, other.id = table.id → other.size < table.size) :
    IsFirstLargest (tables ++ [table]) table :=
  ⟨tables, [], rfl, h, by simp⟩

end IsFirstLargest

theorem map_id_mergeTable (table : Table) (tables : List Table) :
    (mergeTable table tables).map Table.id =
      if table.id ∈ tables.map Table.id then tables.map Table.id
      else tables.map Table.id ++ [table.id] := by
  induction tables with
  | nil => rfl
  | cons other rest ih =>
    rw [mergeTable]
    split
    · next hid =>
      have hhead : (if table.betters other then table else other).id = other.id := by
        split
        · exact hid.symm
        · rfl
      rw [List.map_cons, List.map_cons, hhead, hid, if_pos List.mem_cons_self]
    · next hid =>
      have hne : table.id ≠ other.id := fun heq => hid heq.symm
      rw [List.map_cons, List.map_cons, ih]
      by_cases hin : table.id ∈ rest.map Table.id
      · rw [if_pos hin, if_pos (List.mem_cons_of_mem _ hin)]
      · rw [if_neg hin, if_neg (by simp [hne, hin]), List.cons_append]

/-- What a merge leaves was there and is not bettered, or it is the merged
table and betters what was there. -/
theorem mem_mergeTable {table found : Table} {tables : List Table}
    (hnodup : (tables.map Table.id).Nodup) (h : found ∈ mergeTable table tables) :
    (found ∈ tables ∧ (table.id = found.id → table.size ≤ found.size)) ∨
      found = table ∧ ∀ other ∈ tables, other.id = table.id → other.size < table.size := by
  induction tables with
  | nil => exact .inr ⟨List.mem_singleton.1 h, by simp⟩
  | cons other rest ih =>
    obtain ⟨hother, hrest⟩ := List.nodup_cons.1 hnodup
    rw [mergeTable] at h
    split at h
    · next hid =>
      -- Nothing else has the identifier.
      have hapart : ∀ next ∈ rest, next.id ≠ table.id := by
        intro next hnext heq
        exact hother (hid.trans heq.symm ▸ List.mem_map_of_mem hnext)
      rcases List.mem_cons.1 h with hfound | hfound
      · split at hfound
        · next hbetter =>
          refine .inr ⟨hfound, fun next hnext hsame => ?_⟩
          rcases List.mem_cons.1 hnext with rfl | hnext
          · exact Table.betters_iff.1 hbetter
          · exact absurd hsame (hapart next hnext)
        · next hbetter =>
          rw [Table.betters_iff, not_lt] at hbetter
          exact .inl ⟨hfound ▸ List.mem_cons_self, fun _ => hfound ▸ hbetter⟩
      · exact .inl ⟨List.mem_cons_of_mem _ hfound,
          fun heq => absurd heq.symm (hapart found hfound)⟩
    · next hid =>
      rcases List.mem_cons.1 h with rfl | hfound
      · exact .inl ⟨List.mem_cons_self, fun heq => absurd heq.symm hid⟩
      · obtain ⟨hin, hlarge⟩ | ⟨rfl, hsmall⟩ := ih hrest hfound
        · exact .inl ⟨List.mem_cons_of_mem _ hin, hlarge⟩
        · refine .inr ⟨rfl, fun next hnext hsame => ?_⟩
          rcases List.mem_cons.1 hnext with rfl | hnext
          · exact absurd hsame hid
          · exact hsmall next hnext hsame

namespace Plan

/-- Merges tables one after the other into a plan without tables. -/
def ofTables (graphName : String) (tables : List Table) : Plan :=
  tables.foldl merge (empty graphName)

variable (graphName : String)

theorem tables_ofTables_concat (tables : List Table) (last : Table) :
    (ofTables graphName (tables ++ [last])).tables =
      mergeTable last (ofTables graphName tables).tables := by
  rw [ofTables, List.foldl_append]
  rfl

/-- Each identifier keeps the place at which it came first. -/
theorem map_id_ofTables (tables : List Table) :
    (ofTables graphName tables).tables.map Table.id = firstArrivals (tables.map Table.id) := by
  induction tables using List.reverseRecOn with
  | nil => rfl
  | append_singleton tables last ih =>
    rw [tables_ofTables_concat, map_id_mergeTable, ih, List.map_append, List.map_singleton,
      firstArrivals_concat]

theorem isFirstLargest_of_mem_ofTables {tables : List Table} :
    ∀ table ∈ (ofTables graphName tables).tables, IsFirstLargest tables table := by
  induction tables using List.reverseRecOn with
  | nil =>
    intro table hin
    simp [ofTables, empty] at hin
  | append_singleton tables last ih =>
    intro table hin
    have hids := map_id_ofTables graphName tables
    have hnodup : ((ofTables graphName tables).tables.map Table.id).Nodup :=
      hids ▸ firstArrivals_nodup _
    rw [tables_ofTables_concat] at hin
    rcases mem_mergeTable hnodup hin with ⟨hkept, hlast⟩ | ⟨rfl, hsmall⟩
    · exact (ih table hkept).concat hlast
    · apply IsFirstLargest.of_last
      intro other hother hid
      -- What is kept for the identifier is at least as large as the other one.
      have hplanned : other.id ∈ (ofTables graphName tables).tables.map Table.id := by
        rw [hids, mem_firstArrivals]
        exact List.mem_map_of_mem hother
      obtain ⟨kept, hkept, hsame⟩ := List.mem_map.1 hplanned
      exact ((ih kept hkept).size_le other hother hsame.symm).trans_lt
        (hsmall kept hkept (hsame.trans hid))

theorem exists_table?_ofTables {tables : List Table} {id : String}
    (h : id ∈ tables.map Table.id) : ∃ table, (ofTables graphName tables).table? id = some table ∧
      table.id = id ∧ IsFirstLargest tables table := by
  rw [← mem_firstArrivals, ← map_id_ofTables graphName] at h
  obtain ⟨kept, hkept, rfl⟩ := List.mem_map.1 h
  have hsome : ((ofTables graphName tables).table? kept.id).isSome :=
    List.find?_isSome.2 ⟨kept, hkept, beq_self_eq_true _⟩
  obtain ⟨table, htable⟩ := Option.isSome_iff_exists.1 hsome
  have hin := List.mem_of_find?_eq_some htable
  exact ⟨table, htable, by simpa using List.find?_some htable,
    isFirstLargest_of_mem_ofTables graphName table hin⟩

theorem table?_ofTables_eq_none {tables : List Table} {id : String}
    (h : id ∉ tables.map Table.id) : (ofTables graphName tables).table? id = none := by
  rw [← mem_firstArrivals, ← map_id_ofTables graphName] at h
  apply List.find?_eq_none.2
  intro table hin heq
  exact h (List.mem_map.2 ⟨table, hin, by simpa using heq⟩)

/-- Of the tables of one identifier the first of the largest is kept, where the
identifier came first, and in any order of the tables the same sizes are. -/
theorem ofTables_keeps_first_largest (tables : List Table) :
    (ofTables graphName tables).tables.map Table.id = firstArrivals (tables.map Table.id) ∧
      (∀ table ∈ (ofTables graphName tables).tables, IsFirstLargest tables table) ∧
      ∀ reordered : List Table, reordered.Perm tables → ∀ id,
        ((ofTables graphName reordered).table? id).map Table.size =
          ((ofTables graphName tables).table? id).map Table.size := by
  refine ⟨map_id_ofTables graphName tables, isFirstLargest_of_mem_ofTables graphName, ?_⟩
  intro reordered hperm id
  have hids : id ∈ reordered.map Table.id ↔ id ∈ tables.map Table.id :=
    (hperm.map Table.id).mem_iff
  by_cases hin : id ∈ tables.map Table.id
  · obtain ⟨table, htable, hid, hlargest⟩ := exists_table?_ofTables graphName hin
    obtain ⟨other, hother, hid', hlargest'⟩ := exists_table?_ofTables graphName (hids.2 hin)
    rw [htable, hother, Option.map_some, Option.map_some]
    congr 1
    apply le_antisymm
    · exact hlargest.size_le other (hperm.mem_iff.1 hlargest'.mem) (hid'.trans hid.symm)
    · exact hlargest'.size_le table (hperm.mem_iff.2 hlargest.mem) (hid.trans hid'.symm)
  · rw [table?_ofTables_eq_none graphName hin,
      table?_ofTables_eq_none graphName (fun hother => hin (hids.1 hother))]

/-- Three tables of one identifier, the last two of one size, and another table
between them. -/
def rivalTables : List Table :=
  [⟨"a", "as", [], ["roots", "bs", "as"], []⟩,
    ⟨"a", "as", [⟨"x", "x", .string, none, [], []⟩], ["roots", "as"], ["a"]⟩,
    ⟨"b", "bs", [], [], []⟩,
    ⟨"a", "as", [⟨"y", "y", .string, none, [], []⟩], ["others", "as"], ["b"]⟩]

theorem ofTables_keeps_first_largest_rivalTables :
    rivalTables.reverse.Perm rivalTables ∧
      (ofTables "g" rivalTables).tables.map Table.id =
        firstArrivals (rivalTables.map Table.id) ∧
      (∀ table ∈ (ofTables "g" rivalTables).tables, IsFirstLargest rivalTables table) ∧
      ∀ id, ((ofTables "g" rivalTables.reverse).table? id).map Table.size =
        ((ofTables "g" rivalTables).table? id).map Table.size := by
  have hperm : rivalTables.reverse.Perm rivalTables := List.reverse_perm rivalTables
  obtain ⟨hids, hlargest, hsizes⟩ := ofTables_keeps_first_largest "g" rivalTables
  exact ⟨hperm, hids, hlargest, hsizes rivalTables.reverse hperm⟩

end Plan

end DocumentViews
