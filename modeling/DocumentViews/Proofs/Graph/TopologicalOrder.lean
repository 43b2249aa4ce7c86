import Mathlib
import DocumentViews.Graph.Order
import DocumentViews.Proofs.Graph.Reachability
import DocumentViews.Proofs.Members

/-!
The topological order is greedy: it goes on with the ready node of the
smallest identifier for as long as a node is ready. A greedy order lists its
nodes once, parents before children, and leaves out exactly the members that
are on or below a cycle of the members.
-/

namespace DocumentViews.Graph

open Relation

/-- The parents of a node that have to be listed before it and are not yet. -/
def openParents (graph : Graph) (members done : List Nat) (node : Nat) : List Nat :=
  (graph.parents node).filter fun parent => parent ∈ members ∧ parent ∉ done

/-- A member that is not listed yet, unlike all its parents among the members. -/
structure IsReady (graph : Graph) (members done : List Nat) (node : Nat) : Prop where
  mem : node ∈ members
  notMem : node ∉ done
  closed : ∀ parent ∈ members, graph.IsParent parent node → parent ∈ done

/-- A list that goes on with the ready node of the smallest identifier after
what is done, and ends only when no node is ready. -/
def IsGreedyOrder (graph : Graph) (members : List Nat) : List Nat → List Nat → Prop
  | done, [] => ∀ node, ¬ graph.IsReady members done node
  | done, node :: rest =>
    graph.IsReady members done node ∧
      (∀ other, graph.IsReady members done other → graph.idOf node ≤ graph.idOf other) ∧
      IsGreedyOrder graph members (done ++ [node]) rest

/-- The edges between members. -/
def IsParentWithin (graph : Graph) (members : List Nat) (parent child : Nat) : Prop :=
  parent ∈ members ∧ child ∈ members ∧ graph.IsParent parent child

theorem mem_openParents {graph : Graph} {members done : List Nat} {node parent : Nat} :
    parent ∈ graph.openParents members done node ↔
      graph.IsParent parent node ∧ parent ∈ members ∧ parent ∉ done := by
  simp [openParents, isParent_iff_mem_parents]

theorem isReady_iff {graph : Graph} {members done : List Nat} {node : Nat} :
    graph.IsReady members done node ↔
      (node ∈ members ∧ node ∉ done) ∧ (graph.openParents members done node).length = 0 := by
  rw [List.length_eq_zero_iff, List.eq_nil_iff_forall_not_mem]
  constructor
  · intro hboth
    obtain ⟨hmem, hnew, hclosed⟩ := hboth
    refine ⟨⟨hmem, hnew⟩, fun parent hparent => ?_⟩
    obtain ⟨hedge, hin, hopen⟩ := mem_openParents.1 hparent
    exact hopen (hclosed parent hin hedge)
  · intro hboth
    obtain ⟨⟨hmem, hnew⟩, hnone⟩ := hboth
    refine ⟨hmem, hnew, fun parent hin hedge => ?_⟩
    by_contra hopen
    exact hnone parent (mem_openParents.2 ⟨hedge, hin, hopen⟩)

/-- Sorted nodes stand under their identifiers, which keep them apart. -/
theorem mem_sortById {graph : Graph} {nodes : List Nat}
    (hlt : ∀ node ∈ nodes, node < graph.nodes.length) {id : String} {node : Nat} :
    (id, node) ∈ graph.sortById nodes ↔ id = graph.idOf node ∧ node ∈ nodes := by
  rw [sortById, Members.mem_ofList]
  · simp only [List.mem_map, Prod.mk.injEq]
    constructor
    · intro hsome
      obtain ⟨other, hother, rfl, rfl⟩ := hsome
      exact ⟨rfl, hother⟩
    · intro hboth
      obtain ⟨rfl, hnode⟩ := hboth
      exact ⟨node, hnode, rfl, rfl⟩
  · intro first hfirst second hsecond hid
    obtain ⟨a, ha, rfl⟩ := List.mem_map.1 hfirst
    obtain ⟨b, hb, rfl⟩ := List.mem_map.1 hsecond
    rw [idOf_injective (hlt a ha) (hlt b hb) hid]

/-- Listing a member takes it off the open parents of its children. -/
theorem length_openParents_append {graph : Graph} {members done : List Nat} {node : Nat}
    (hmem : node ∈ members) (hnew : node ∉ done) (child : Nat) :
    (graph.openParents members (done ++ [node]) child).length =
      if child ∈ graph.children node then (graph.openParents members done child).length - 1
      else (graph.openParents members done child).length := by
  have hnodup : (graph.openParents members done child).Nodup :=
    (graph.parents_nodup child).filter _
  have herase : graph.openParents members (done ++ [node]) child =
      (graph.openParents members done child).erase node := by
    rw [hnodup.erase_eq_filter node, openParents, openParents, List.filter_filter]
    apply List.filter_congr
    intro parent _
    by_cases hparent : parent = node <;> simp [hparent]
  have hopen : node ∈ graph.openParents members done child ↔ child ∈ graph.children node := by
    rw [mem_openParents]
    exact ⟨And.left, fun hchild => ⟨hchild, hmem, hnew⟩⟩
  rw [herase, List.length_erase]
  simp only [hopen]

/-- What a search for the order has still to do: the entries are the nodes that
are left, under their identifiers when they await no parent, and else with the
number of parents that they await. -/
structure Pending.Awaits (graph : Graph) (left : Nat → Prop) (awaited : Nat → Nat)
    (pending : Pending) : Prop where
  left_lt : ∀ node, left node → node < graph.nodes.length
  ready_ascending : pending.ready.Ascending
  mem_ready : ∀ id node,
    (id, node) ∈ pending.ready ↔ id = graph.idOf node ∧ left node ∧ awaited node = 0
  waiting_nodup : (Listing.keys pending.waiting).Nodup
  mem_waiting : ∀ node count,
    (node, count) ∈ pending.waiting ↔ left node ∧ awaited node = count ∧ 0 < count

theorem keys_release_sublist (node : Nat) (waiting : Listing Nat Nat) :
    (Listing.keys (release node waiting).1).Sublist (Listing.keys waiting) := by
  induction waiting with
  | nil => simp [release]
  | cons entry rest ih =>
    obtain ⟨other, count⟩ := entry
    simp only [release]
    split
    · split
      · exact List.sublist_cons_self _ _
      · exact List.Sublist.refl _
    · exact ih.cons_cons other

/-- Releasing counts the entry of the node down and drops it at zero. -/
theorem mem_release {waiting : Listing Nat Nat} (hnodup : (Listing.keys waiting).Nodup)
    (node other count : Nat) :
    (other, count) ∈ (release node waiting).1 ↔
      if other = node then (other, count + 1) ∈ waiting ∧ 0 < count
      else (other, count) ∈ waiting := by
  induction waiting with
  | nil => simp [release]
  | cons entry rest ih =>
    obtain ⟨first, number⟩ := entry
    obtain ⟨hfirst, hrest⟩ := List.nodup_cons.1 hnodup
    have hfresh : ∀ count, (first, count) ∉ rest := fun _ hmem =>
      hfirst (List.mem_map.2 ⟨_, hmem, rfl⟩)
    simp only [release]
    by_cases heq : first = node
    · subst heq
      by_cases hother : other = first
      · subst hother
        by_cases hnumber : number ≤ 1
        · simp only [if_pos hnumber, if_true, List.mem_cons, Prod.mk.injEq, hfresh, true_and,
            or_false, false_iff]
          omega
        · simp only [if_neg hnumber, if_true, List.mem_cons, Prod.mk.injEq, hfresh, true_and,
            or_false]
          omega
      · by_cases hnumber : number ≤ 1
        · simp [hnumber, hother]
        · simp [hnumber, hother]
    · simp only [if_neg heq, List.mem_cons, Prod.mk.injEq, ih hrest]
      by_cases hother : other = node
      · have : other ≠ first := fun h => heq (h ▸ hother)
        simp [hother, Ne.symm heq]
      · simp [hother]

theorem release_ready_iff {waiting : Listing Nat Nat} (hnodup : (Listing.keys waiting).Nodup)
    (node : Nat) :
    (release node waiting).2 = true ↔ ∃ count ≤ 1, (node, count) ∈ waiting := by
  induction waiting with
  | nil => simp [release]
  | cons entry rest ih =>
    obtain ⟨first, number⟩ := entry
    obtain ⟨hfirst, hrest⟩ := List.nodup_cons.1 hnodup
    have hfresh : ∀ count, (first, count) ∉ rest := fun _ hmem =>
      hfirst (List.mem_map.2 ⟨_, hmem, rfl⟩)
    simp only [release]
    by_cases heq : first = node
    · subst heq
      by_cases hnumber : number ≤ 1
      · simp only [if_pos hnumber, if_true, true_iff]
        exact ⟨number, hnumber, List.mem_cons_self⟩
      · simp only [if_neg hnumber, if_true, List.mem_cons, Prod.mk.injEq, hfresh]
        constructor
        · simp
        · intro hsome
          obtain ⟨count, hcount, hsame | hmem⟩ := hsome
          · omega
          · exact hmem.elim
    · simp only [if_neg heq, ih hrest, List.mem_cons, Prod.mk.injEq, Ne.symm heq, false_and,
        false_or]

variable {graph : Graph} {left : Nat → Prop} {awaited : Nat → Nat} {pending : Pending}

theorem Pending.Awaits.congr {other : Nat → Nat} (h : pending.Awaits graph left awaited)
    (hsame : ∀ node, left node → other node = awaited node) : pending.Awaits graph left other := by
  refine ⟨h.left_lt, h.ready_ascending, fun id node => ?_, h.waiting_nodup, fun node count => ?_⟩
  · rw [h.mem_ready]
    exact and_congr_right fun _ => and_congr_right fun hleft => by rw [hsame node hleft]
  · rw [h.mem_waiting]
    exact and_congr_right fun hleft => by rw [hsame node hleft]

/-- The entries that wait on after a release. -/
theorem Pending.Awaits.mem_waiting_release (h : pending.Awaits graph left awaited) {child : Nat}
    (hchild : left child → 0 < awaited child) (node count : Nat) :
    (node, count) ∈ (Graph.release child pending.waiting).1 ↔
      left node ∧ Function.update awaited child (awaited child - 1) node = count ∧ 0 < count := by
  rw [mem_release h.waiting_nodup child]
  by_cases hnode : node = child
  · subst hnode
    rw [if_pos rfl, h.mem_waiting, Function.update_self]
    constructor
    · intro hboth
      obtain ⟨⟨hleft, hcount, -⟩, hpos⟩ := hboth
      exact ⟨hleft, by omega, hpos⟩
    · intro hboth
      obtain ⟨hleft, hcount, hpos⟩ := hboth
      have := hchild hleft
      exact ⟨⟨hleft, by omega, by omega⟩, hpos⟩
  · rw [if_neg hnode, h.mem_waiting, Function.update_of_ne hnode]

/-- A release makes a node ready when it awaited one parent. -/
theorem Pending.Awaits.release_ready_iff (h : pending.Awaits graph left awaited) (child : Nat) :
    (Graph.release child pending.waiting).2 = true ↔ left child ∧ awaited child = 1 := by
  rw [Graph.release_ready_iff h.waiting_nodup child]
  constructor
  · intro hsome
    obtain ⟨count, hcount, hentry⟩ := hsome
    obtain ⟨hleft, hsame, hpos⟩ := (h.mem_waiting child count).1 hentry
    exact ⟨hleft, by omega⟩
  · intro hboth
    obtain ⟨hleft, hone⟩ := hboth
    exact ⟨1, Nat.le_refl 1, (h.mem_waiting child 1).2 ⟨hleft, hone, Nat.one_pos⟩⟩

/-- A node that awaited one parent joins the ready ones. -/
theorem Pending.Awaits.mem_insert_ready (h : pending.Awaits graph left awaited) {child : Nat}
    (hleft : left child) (hone : awaited child = 1) (id : String) (node : Nat) :
    (id, node) ∈ pending.ready.insert (graph.idOf child) child ↔
      id = graph.idOf node ∧ left node ∧
        Function.update awaited child (awaited child - 1) node = 0 := by
  rw [Members.mem_insert h.ready_ascending, h.mem_ready, Prod.mk.injEq]
  by_cases hnode : node = child
  · subst hnode
    rw [Function.update_self]
    constructor
    · intro heither
      rcases heither with ⟨rfl, -⟩ | ⟨⟨hid, hl, hzero⟩, -⟩
      · exact ⟨rfl, hleft, by omega⟩
      · exact ⟨hid, hl, by omega⟩
    · intro hboth
      obtain ⟨rfl, -, -⟩ := hboth
      exact Or.inl ⟨rfl, rfl⟩
  · rw [Function.update_of_ne hnode]
    constructor
    · intro heither
      rcases heither with ⟨-, hsame⟩ | ⟨hentry, -⟩
      · exact absurd hsame hnode
      · exact hentry
    · intro hboth
      obtain ⟨hid, hl, hzero⟩ := hboth
      refine Or.inr ⟨⟨hid, hl, hzero⟩, fun hsame => hnode ?_⟩
      exact idOf_injective (h.left_lt node hl) (h.left_lt child hleft) (hid ▸ hsame)

/-- Releasing a node takes one off the parents that it awaits. -/
theorem Pending.Awaits.release (h : pending.Awaits graph left awaited) (child : Nat)
    (hchild : left child → 0 < awaited child) :
    (pending.release graph child).Awaits graph left
      (Function.update awaited child (awaited child - 1)) := by
  have hkeys := keys_release_sublist child pending.waiting
  have hwaiting := h.mem_waiting_release hchild
  have hready := h.release_ready_iff child
  unfold Pending.release
  split
  · next waiting hrelease =>
    rw [hrelease] at hwaiting hready hkeys
    obtain ⟨hleft, hone⟩ := hready.1 rfl
    exact ⟨h.left_lt, Members.ascending_insert h.ready_ascending _ _, h.mem_insert_ready hleft hone,
      hkeys.nodup h.waiting_nodup, hwaiting⟩
  · next waiting hrelease =>
    rw [hrelease] at hwaiting hready hkeys
    refine ⟨h.left_lt, h.ready_ascending, fun id node => ?_, hkeys.nodup h.waiting_nodup, hwaiting⟩
    rw [h.mem_ready]
    by_cases hnode : node = child
    · subst hnode
      rw [Function.update_self]
      apply and_congr_right
      intro _
      apply and_congr_right
      intro hleft
      have hpos := hchild hleft
      have hmore : awaited node ≠ 1 := fun hone => by simpa using hready.2 ⟨hleft, hone⟩
      omega
    · rw [Function.update_of_ne hnode]

/-- Releasing nodes one after the other takes one off what each of them awaits. -/
theorem Pending.Awaits.foldl_release (h : pending.Awaits graph left awaited) {nodes : List Nat}
    (hnodup : nodes.Nodup) (hnodes : ∀ node ∈ nodes, left node → 0 < awaited node) :
    (nodes.foldl (Pending.release graph) pending).Awaits graph left
      (fun node => if node ∈ nodes then awaited node - 1 else awaited node) := by
  induction nodes generalizing pending awaited with
  | nil => simpa using h
  | cons first rest ih =>
    obtain ⟨hfirst, hrest⟩ := List.nodup_cons.1 hnodup
    have hkeep : ∀ node ∈ rest, node ≠ first := fun node hnode heq => hfirst (heq ▸ hnode)
    have hnext := ih (h.release first (hnodes first List.mem_cons_self)) hrest (by
      intro node hnode hleft
      rw [Function.update_of_ne (hkeep node hnode)]
      exact hnodes node (List.mem_cons_of_mem _ hnode) hleft)
    apply hnext.congr
    intro node _
    by_cases hnode : node = first
    · subst hnode
      simp [hfirst]
    · simp [hnode]

/-- The pending nodes are the members that are not done yet. -/
abbrev Pending.Follows (graph : Graph) (members done : List Nat) (pending : Pending) : Prop :=
  pending.Awaits graph (fun node => node ∈ members ∧ node ∉ done)
    (fun node => (graph.openParents members done node).length)

theorem Pending.Follows.mem_ready_iff {members done : List Nat}
    (h : pending.Follows graph members done) {id : String} {node : Nat} :
    (id, node) ∈ pending.ready ↔ id = graph.idOf node ∧ graph.IsReady members done node := by
  rw [h.mem_ready, isReady_iff]

/-- Without the first ready node a search follows the nodes that are left
after it. They still await the parents that they awaited before. -/
theorem Pending.Follows.take {members done : List Nat} {id : String} {node : Nat}
    {rest : Members Nat} {waiting : Listing Nat Nat}
    (h : Pending.Follows graph members done ⟨(id, node) :: rest, waiting⟩) :
    Pending.Awaits graph (fun other => other ∈ members ∧ other ∉ done ++ [node])
      (fun other => (graph.openParents members done other).length) ⟨rest, waiting⟩ := by
  obtain ⟨hid, hready⟩ := h.mem_ready_iff.1 (List.mem_cons_self (a := (id, node)))
  obtain ⟨hfirst, hrest⟩ := Members.ascending_cons.1 h.ready_ascending
  have hleft : ∀ other, (other ∈ members ∧ other ∉ done ++ [node]) ↔
      (other ∈ members ∧ other ∉ done) ∧ other ≠ node := by
    intro other
    simp only [List.mem_append, List.mem_singleton, not_or]
    tauto
  refine ⟨fun other hother => h.left_lt other ((hleft other).1 hother).1, hrest,
    fun name other => ?_, h.waiting_nodup, fun other count => ?_⟩
  · rw [hleft]
    constructor
    · intro hentry
      obtain ⟨hname, hother⟩ := (h.mem_ready name other).1 (List.mem_cons_of_mem _ hentry)
      refine ⟨hname, ⟨hother.1, ?_⟩, hother.2⟩
      intro hsame
      have hlt := hfirst name (List.mem_map.2 ⟨_, hentry, rfl⟩)
      rw [hid, hname, hsame] at hlt
      exact lt_irrefl _ hlt
    · intro hboth
      obtain ⟨hname, ⟨hother, hne⟩, hzero⟩ := hboth
      have hentry := (h.mem_ready name other).2 ⟨hname, hother, hzero⟩
      refine (List.mem_cons.1 hentry).resolve_left fun heq => hne ?_
      exact (Prod.mk.inj heq).2
  · rw [hleft, h.mem_waiting]
    constructor
    · intro hboth
      obtain ⟨hother, hcount, hpos⟩ := hboth
      refine ⟨⟨hother, fun hsame => ?_⟩, hcount, hpos⟩
      have hnone := (isReady_iff.1 hready).2
      rw [hsame] at hcount
      omega
    · intro hboth
      obtain ⟨⟨hother, -⟩, hcount, hpos⟩ := hboth
      exact ⟨hother, hcount, hpos⟩

/-- Taking out the first ready node and releasing its children lists it. -/
theorem Pending.Follows.step {members done : List Nat} {id : String} {node : Nat}
    {rest : Members Nat} {waiting : Listing Nat Nat}
    (h : Pending.Follows graph members done ⟨(id, node) :: rest, waiting⟩) :
    ((graph.children node).foldl (Pending.release graph) ⟨rest, waiting⟩).Follows graph members
      (done ++ [node]) := by
  have hready := (h.mem_ready_iff.1 (List.mem_cons_self (a := (id, node)))).2
  have hopen : ∀ child ∈ graph.children node, child ∈ members ∧ child ∉ done ++ [node] →
      0 < (graph.openParents members done child).length := by
    intro child hchild _
    apply List.length_pos_of_mem (a := node)
    exact mem_openParents.2 ⟨hchild, hready.mem, hready.notMem⟩
  have hreleased := h.take.foldl_release (graph.children_nodup node) hopen
  exact hreleased.congr fun child _ => length_openParents_append hready.mem hready.notMem child

/-- What is drained goes on greedily after what is done. -/
theorem isGreedyOrder_drain {members done : List Nat} (h : pending.Follows graph members done) :
    graph.IsGreedyOrder members done (graph.drain pending) := by
  induction pending using drain.induct graph generalizing done
  case case1 pending hnone =>
    rw [drain]
    split
    · intro node hready
      have hentry := h.mem_ready_iff.2 ⟨rfl, hready⟩
      simp [hnone] at hentry
    · simp_all
  case case2 pending id node rest hsome next hlt ih =>
    obtain ⟨ready, waiting⟩ := pending
    simp only at hsome
    subst hsome
    obtain ⟨hid, hready⟩ := h.mem_ready_iff.1 (List.mem_cons_self (a := (id, node)))
    rw [drain]
    refine ⟨hready, fun other hother => ?_, ih h.step⟩
    have hentry := h.mem_ready_iff.2 ⟨rfl, hother⟩
    rcases List.mem_cons.1 hentry with heq | hentry
    · rw [(Prod.mk.inj heq).2]
    · have := (Members.ascending_cons.1 h.ready_ascending).1 (graph.idOf other)
        (List.mem_map.2 ⟨_, hentry, rfl⟩)
      exact hid ▸ this.le

/-- At the start every member is left and awaits its parents among the members. -/
theorem Pending.follows_start {members : List Nat} (hnodup : members.Nodup)
    (hlt : ∀ node ∈ members, node < graph.nodes.length) {counted : Listing Nat Nat}
    (hcounted : counted = members.map fun node => (node, graph.inDegree members node)) :
    Pending.Follows graph members []
      ⟨graph.sortById ((counted.filter (·.2 == 0)).map Prod.fst), counted.filter (·.2 != 0)⟩ := by
  subst hcounted
  have hcount : ∀ node, graph.inDegree members node =
      (graph.openParents members [] node).length := by
    intro node
    simp [inDegree, openParents]
  refine ⟨fun node h => hlt node h.1, Members.ascending_ofList _,
    fun id node => ?_, ?_, fun node count => ?_⟩
  · rw [mem_sortById fun node hnode => ?_]
    · simp only [List.mem_map, List.mem_filter, beq_iff_eq, List.not_mem_nil, not_false_eq_true,
        and_true]
      apply and_congr_right
      intro _
      constructor
      · intro hsome
        obtain ⟨_, ⟨⟨other, hother, rfl⟩, hzero⟩, rfl⟩ := hsome
        exact ⟨hother, (hcount other).symm.trans hzero⟩
      · intro hboth
        obtain ⟨hmem, hzero⟩ := hboth
        exact ⟨_, ⟨⟨node, hmem, rfl⟩, (hcount node).trans hzero⟩, rfl⟩
    · simp only [List.mem_map, List.mem_filter] at hnode
      obtain ⟨_, ⟨⟨other, hother, rfl⟩, -⟩, rfl⟩ := hnode
      exact hlt other hother
  · have hkeys :
        (Listing.keys (members.map fun node => (node, graph.inDegree members node))).Nodup := by
      simpa [Listing.keys, Function.comp_def] using hnodup
    exact (List.filter_sublist.map Prod.fst).nodup hkeys
  · simp only [List.mem_filter, List.mem_map, Prod.mk.injEq, bne_iff_ne, List.not_mem_nil,
      not_false_eq_true, and_true]
    constructor
    · intro hsome
      obtain ⟨⟨other, hother, rfl, rfl⟩, hne⟩ := hsome
      exact ⟨hother, (hcount other).symm, Nat.pos_of_ne_zero hne⟩
    · intro hboth
      obtain ⟨hmem, hsame, hpos⟩ := hboth
      exact ⟨⟨node, hmem, rfl, (hcount node).trans hsame⟩, by omega⟩

theorem isGreedyOrder_topologicalOrderWithin {members : List Nat} (hnodup : members.Nodup)
    (hlt : ∀ node ∈ members, node < graph.nodes.length) :
    graph.IsGreedyOrder members [] (graph.topologicalOrderWithin members) :=
  isGreedyOrder_drain (Pending.follows_start hnodup hlt rfl)

variable {members done order : List Nat} {node : Nat}

theorem IsGreedyOrder.mem_members (h : graph.IsGreedyOrder members done order)
    (hnode : node ∈ order) : node ∈ members ∧ node ∉ done := by
  induction order generalizing done with
  | nil => simp at hnode
  | cons first rest ih =>
    obtain ⟨hready, -, hrest⟩ := h
    rcases List.mem_cons.1 hnode with rfl | hnode
    · exact ⟨hready.mem, hready.notMem⟩
    · obtain ⟨hmem, hnew⟩ := ih hrest hnode
      exact ⟨hmem, fun hdone => hnew (List.mem_append_left _ hdone)⟩

theorem IsGreedyOrder.nodup (h : graph.IsGreedyOrder members done order) : order.Nodup := by
  induction order generalizing done with
  | nil => exact List.nodup_nil
  | cons first rest ih =>
    obtain ⟨-, -, hrest⟩ := h
    refine List.nodup_cons.2 ⟨fun hmem => ?_, ih hrest⟩
    exact (hrest.mem_members hmem).2 (List.mem_append_right _ (List.mem_singleton.2 rfl))

/-- What stands at a place of a greedy order is ready after what stands before. -/
theorem IsGreedyOrder.isReady {before after : List Nat}
    (h : graph.IsGreedyOrder members done (before ++ node :: after)) :
    graph.IsReady members (done ++ before) node := by
  induction before generalizing done with
  | nil => simpa using h.1
  | cons first rest ih => simpa using ih h.2.2

/-- When a greedy order is over no node is ready. -/
theorem IsGreedyOrder.not_isReady (h : graph.IsGreedyOrder members done order) (node : Nat) :
    ¬ graph.IsReady members (done ++ order) node := by
  induction order generalizing done with
  | nil => simpa using h node
  | cons first rest ih => simpa using ih h.2.2

theorem IsGreedyOrder.not_onOrBelowCycle (h : graph.IsGreedyOrder members done order)
    (hdone : ∀ other ∈ done, ¬ OnOrBelowCycle (graph.IsParentWithin members) other)
    (hnode : node ∈ order) : ¬ OnOrBelowCycle (graph.IsParentWithin members) node := by
  induction order generalizing done with
  | nil => simp at hnode
  | cons first rest ih =>
    obtain ⟨hready, -, hrest⟩ := h
    have hfirst : ¬ OnOrBelowCycle (graph.IsParentWithin members) first := by
      intro hcycle
      obtain ⟨parent, ⟨hmem, -, hedge⟩, habove⟩ := hcycle.exists_parent
      exact hdone parent (hready.closed parent hmem hedge) habove
    rcases List.mem_cons.1 hnode with rfl | hnode
    · exact hfirst
    · refine ih hrest (fun other hother => ?_) hnode
      rcases List.mem_append.1 hother with hother | hother
      · exact hdone other hother
      · rw [List.mem_singleton.1 hother]
        exact hfirst

/-- A greedy order from nothing lists the members off the cycles of the
members. The others would each have a parent among themselves. -/
theorem IsGreedyOrder.mem_iff (h : graph.IsGreedyOrder members [] order) :
    node ∈ order ↔ node ∈ members ∧ ¬ OnOrBelowCycle (graph.IsParentWithin members) node := by
  constructor
  · intro hnode
    exact ⟨(h.mem_members hnode).1, h.not_onOrBelowCycle (by simp) hnode⟩
  · intro hboth
    obtain ⟨hmem, hfree⟩ := hboth
    by_contra hstuck
    refine hfree (onOrBelowCycle_of_forall_exists_parent {other | other ∈ members ∧ other ∉ order}
      ((List.finite_toSet members).subset fun _ hother => hother.1) ?_ ⟨hmem, hstuck⟩)
    rintro other ⟨hother, hnew⟩
    have hblocked := h.not_isReady other
    rw [List.nil_append] at hblocked
    by_contra hnone
    refine hblocked ⟨hother, hnew, fun parent hparent hedge => ?_⟩
    by_contra hopen
    exact hnone ⟨parent, ⟨hparent, hopen⟩, hparent, hother, hedge⟩

theorem isParentWithin_indices (graph : Graph) :
    graph.IsParentWithin graph.indices = graph.IsParent := by
  funext parent child
  refine propext ⟨fun h => h.2.2, fun h => ⟨?_, ?_, h⟩⟩
  · exact List.mem_range.2 h.lt_left
  · exact List.mem_range.2 h.lt_right

theorem isGreedyOrder_topologicalOrder (graph : Graph) :
    graph.IsGreedyOrder graph.indices [] graph.topologicalOrder :=
  isGreedyOrder_topologicalOrderWithin List.nodup_range fun _ h => List.mem_range.1 h

/-- The order of all nodes leaves out those on or below a cycle. -/
theorem mem_topologicalOrder : node ∈ graph.topologicalOrder ↔
    node < graph.nodes.length ∧ ¬ OnOrBelowCycle graph.IsParent node := by
  rw [(isGreedyOrder_topologicalOrder graph).mem_iff, isParentWithin_indices, indices,
    List.mem_range]

theorem topologicalOrder_nodup (graph : Graph) : graph.topologicalOrder.Nodup :=
  (isGreedyOrder_topologicalOrder graph).nodup

end DocumentViews.Graph
