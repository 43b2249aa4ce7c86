import Mathlib
import DocumentViews.Proofs.Graph.DepthTurns
import DocumentViews.Proofs.Graph.SearchTree

/-!
The depth-first search by recursion. A search goes through the children of a
node in their order, records each that was not entered before, and searches it
before the next. It shares one trail of the nodes it has entered. The stack of
the search by turns holds what is left of each node it is in, so both find the
same.
-/

namespace DocumentViews

open Relation

/-- The nodes that a search has entered, in order, and what they discovered.
Each node is entered once, and all but the start were discovered. -/
structure Trail (start : Nat) where
  entered : List Nat
  found : Discoveries
  nodup : entered.Nodup
  perm : entered.Perm (start :: found.found)
  ne_nil : ∀ entry ∈ found, entry.2 ≠ []

namespace Trail

variable {start node child : Nat} {trail middle later : Trail start}

/-- The trail of a search that has entered its start only. -/
def begin (start : Nat) : Trail start where
  entered := [start]
  found := []
  nodup := List.nodup_singleton start
  perm := List.Perm.refl [start]
  ne_nil := by simp

theorem mem_entered : node ∈ trail.entered ↔ node = start ∨ node ∈ trail.found.found := by
  rw [trail.perm.mem_iff, List.mem_cons]

theorem start_mem (trail : Trail start) : start ∈ trail.entered :=
  mem_entered.2 (Or.inl rfl)

theorem nodup_found (trail : Trail start) :
    start ∉ trail.found.found ∧ trail.found.found.Nodup :=
  List.nodup_cons.1 (trail.perm.nodup_iff.1 trail.nodup)

theorem mem_found : node ∈ trail.found.found ↔ node ≠ start ∧ node ∈ trail.entered := by
  rw [mem_entered]
  constructor
  · intro hfound
    refine ⟨fun heq => trail.nodup_found.1 ?_, Or.inr hfound⟩
    rwa [heq] at hfound
  · intro hboth
    exact hboth.2.resolve_left hboth.1

/-- The keys of a trail are the nodes that discovered others. -/
theorem mem_keys : node ∈ Listing.keys trail.found ↔
    ∃ child, trail.found.discoverer? child = some node := by
  constructor
  · intro hkey
    obtain ⟨entry, hentry, rfl⟩ := List.mem_map.1 hkey
    obtain ⟨child, hchild⟩ := List.exists_mem_of_ne_nil _ (trail.ne_nil entry hentry)
    exact ⟨child, Discoveries.discoverer?_of_mem trail.nodup_found.2 hentry hchild⟩
  · intro hsome
    obtain ⟨child, hchild⟩ := hsome
    exact Discoveries.mem_keys_of_discoverer? hchild

/-- The trail after a node has recorded a child and the search has entered it. -/
def enter (trail : Trail start) (node child : Nat) (hnew : child ∉ trail.entered) :
    Trail start where
  entered := trail.entered ++ [child]
  found := trail.found.record node child
  nodup := by simpa using trail.nodup.concat hnew
  perm := by
    calc
      (trail.entered ++ [child]).Perm (child :: trail.entered) := List.perm_append_singleton _ _
      _ |>.Perm (child :: start :: trail.found.found) := trail.perm.cons child
      _ |>.Perm (start :: child :: trail.found.found) := List.Perm.swap _ _ _
      _ |>.Perm (start :: (trail.found.record node child).found) :=
        (trail.found.perm_found_record node child).symm.cons start
  ne_nil := Discoveries.ne_nil_of_mem_record trail.ne_nil

@[simp]
theorem mem_entered_begin : node ∈ (begin start).entered ↔ node = start :=
  List.mem_singleton

@[simp]
theorem mem_entered_enter {hnew : child ∉ trail.entered} {other : Nat} :
    other ∈ (trail.enter node child hnew).entered ↔ other ∈ trail.entered ∨ other = child := by
  simp [enter]

/-- A trail goes on from another. -/
structure Grows (trail later : Trail start) : Prop where
  entered : trail.entered <+: later.entered
  discoverer? : ∀ other key, trail.found.discoverer? other = some key →
    later.found.discoverer? other = some key

theorem Grows.refl (trail : Trail start) : trail.Grows trail :=
  ⟨List.prefix_rfl, fun _ _ h => h⟩

theorem Grows.trans (h : trail.Grows middle) (hlater : middle.Grows later) : trail.Grows later :=
  ⟨h.entered.trans hlater.entered, fun other key hkey =>
    hlater.discoverer? other key (h.discoverer? other key hkey)⟩

theorem discoverer?_enter (hnew : child ∉ trail.entered) (other : Nat) :
    (trail.enter node child hnew).found.discoverer? other =
      if other = child then some node else trail.found.discoverer? other := by
  apply Discoveries.discoverer?_record
  exact fun hfound => hnew (mem_entered.2 (Or.inr hfound))

theorem Grows.enter (hnew : child ∉ trail.entered) (node : Nat) :
    trail.Grows (trail.enter node child hnew) := by
  refine ⟨List.prefix_append _ _, fun other key hkey => ?_⟩
  have hentered : other ∈ trail.entered :=
    mem_entered.2 (Or.inr (Discoveries.mem_found_of_discoverer? hkey))
  rw [discoverer?_enter, if_neg, hkey]
  intro heq
  rw [heq] at hentered
  exact hnew hentered

theorem Grows.leads (h : trail.Grows later) {way : List Nat}
    (hway : trail.found.Leads start node way) : later.found.Leads start node way :=
  hway.mono h.discoverer?

theorem Grows.mem_entered (h : trail.Grows later) (hnode : node ∈ trail.entered) :
    node ∈ later.entered :=
  h.entered.subset hnode

/-- What has recorded a child stays a key. -/
theorem Grows.mem_keys_of_enter {hnew : child ∉ trail.entered}
    (h : (trail.enter node child hnew).Grows later) : node ∈ Listing.keys later.found := by
  refine mem_keys.2 ⟨child, h.discoverer? child node ?_⟩
  rw [discoverer?_enter, if_pos rfl]

end Trail

namespace Graph

variable {graph : Graph} {limit : Option Nat} {start node depth seen child : Nat}
  {children visited : List Nat} {frame : Frame} {below : List Frame}
  {trail middle later : Trail start}

/-- A search goes through children of a node that is at a certain depth. It
records a child that is new and searches it before it goes on to the next. -/
inductive Explores (graph : Graph) (limit : Option Nat) {start : Nat} :
    Nat → Nat → List Nat → Trail start → Trail start → Prop
  | done {node depth : Nat} {trail : Trail start} : Explores graph limit node depth [] trail trail
  | known {node depth child : Nat} {children : List Nat} {trail later : Trail start}
    (hknown : child ∈ trail.entered)
    (hrest : Explores graph limit node depth children trail later) :
    Explores graph limit node depth (child :: children) trail later
  | enter {node depth child : Nat} {children : List Nat} {trail middle later : Trail start}
    (hnew : child ∉ trail.entered)
    (hinner : Explores graph limit child (depth + 1)
      (graph.childrenBelow limit (depth + 1) child) (trail.enter node child hnew) middle)
    (hrest : Explores graph limit node depth children middle later) :
    Explores graph limit node depth (child :: children) trail later

/-- The trail of the search by recursion from the start. -/
def IsTrail (graph : Graph) (limit : Option Nat) (trail : Trail start) : Prop :=
  graph.Explores limit start 0 (graph.childrenBelow limit 0 start) (.begin start) trail

/-- A search does one thing only. -/
theorem Explores.unique {other : Trail start}
    (h : graph.Explores limit node depth children trail later)
    (hother : graph.Explores limit node depth children trail other) : other = later := by
  induction h generalizing other with
  | done =>
    cases hother
    rfl
  | known hknown hrest ih =>
    cases hother with
    | known _ hrest' => exact ih hrest'
    | enter hnew => exact absurd hknown hnew
  | enter hnew hinner hrest ihinner ihrest =>
    cases hother with
    | known hknown => exact absurd hknown hnew
    | enter _ hinner' hrest' =>
      obtain rfl := ihinner hinner'
      exact ihrest hrest'

theorem Explores.grows (h : graph.Explores limit node depth children trail later) :
    trail.Grows later := by
  induction h with
  | done => exact Trail.Grows.refl _
  | known hknown hrest ih => exact ih
  | enter hnew hinner hrest ihinner ihrest =>
    exact ((Trail.Grows.enter hnew _).trans ihinner).trans ihrest

/-- The nodes on a stack are searched one after the other, each from the child
it has come to. -/
inductive Unwinds (graph : Graph) (limit : Option Nat) {start : Nat} :
    List Frame → Trail start → Trail start → Prop
  | nil {trail : Trail start} : Unwinds graph limit [] trail trail
  | frame {frame : Frame} {below : List Frame} {trail middle later : Trail start}
    (htop : graph.Explores limit frame.node frame.depth
      ((graph.childrenBelow limit frame.depth frame.node).drop frame.seen) trail middle)
    (hbelow : Unwinds graph limit below middle later) :
    Unwinds graph limit (frame :: below) trail later

theorem drop_childrenBelow
    (h : (graph.childrenBelow limit depth node)[seen]? = some child) :
    (graph.childrenBelow limit depth node).drop seen =
      child :: (graph.childrenBelow limit depth node).drop (seen + 1) := by
  obtain ⟨hseen, hchild⟩ := List.getElem?_eq_some_iff.1 h
  rw [List.drop_eq_getElem_cons hseen, hchild]

theorem Unwinds.leave
    (h : (graph.childrenBelow limit frame.depth frame.node)[frame.seen]? = none)
    (hbelow : graph.Unwinds limit below trail later) :
    graph.Unwinds limit (frame :: below) trail later := by
  refine .frame ?_ hbelow
  rw [List.drop_eq_nil_iff.2 (List.getElem?_eq_none_iff.1 h)]
  exact .done

theorem Unwinds.skip
    (h : (graph.childrenBelow limit frame.depth frame.node)[frame.seen]? = some child)
    (hknown : child ∈ trail.entered)
    (hrest : graph.Unwinds limit (frame.advance :: below) trail later) :
    graph.Unwinds limit (frame :: below) trail later := by
  obtain _ | ⟨htop, hbelow⟩ := hrest
  refine .frame ?_ hbelow
  rw [drop_childrenBelow h]
  exact .known hknown htop

/-- A child on top of the stack is searched before the rest of its parent. -/
theorem Unwinds.enter
    (h : (graph.childrenBelow limit frame.depth frame.node)[frame.seen]? = some child)
    (hnew : child ∉ trail.entered)
    (hrest : graph.Unwinds limit (⟨child, frame.depth + 1, 0⟩ :: frame.advance :: below)
      (trail.enter frame.node child hnew) later) :
    graph.Unwinds limit (frame :: below) trail later := by
  obtain _ | ⟨hinner, hrest⟩ := hrest
  obtain _ | ⟨htop, hbelow⟩ := hrest
  refine .frame ?_ hbelow
  rw [drop_childrenBelow h]
  exact .enter hnew hinner htop

/-- What the search by turns finds is what the search by recursion finds. -/
theorem exists_unwinds (trail : Trail start) {turns : Nat} {stack : List Frame}
    {discoveries : Discoveries} (hvisited : ∀ other, other ∈ visited ↔ other ∈ trail.entered)
    (h : graph.run limit turns visited trail.found stack = some discoveries) :
    ∃ later, graph.Unwinds limit stack trail later ∧ later.found = discoveries := by
  induction turns generalizing visited trail stack with
  | zero => simp [run] at h
  | succ turns ih =>
    cases stack with
    | nil => exact ⟨trail, .nil, by simpa [run] using h⟩
    | cons frame below =>
      rw [run] at h
      cases hnext : (graph.childrenBelow limit frame.depth frame.node)[frame.seen]? with
      | none =>
        simp only [hnext] at h
        obtain ⟨later, hbelow, hfound⟩ := ih trail hvisited h
        exact ⟨later, hbelow.leave hnext, hfound⟩
      | some child =>
        simp only [hnext, hvisited] at h
        by_cases hentered : child ∈ trail.entered
        · rw [if_pos hentered] at h
          obtain ⟨later, hrest, hfound⟩ := ih trail hvisited h
          exact ⟨later, hrest.skip hnext hentered, hfound⟩
        · rw [if_neg hentered] at h
          have hmore : ∀ other, other ∈ child :: visited ↔
              other ∈ (trail.enter frame.node child hentered).entered := by
            intro other
            simp [hvisited, or_comm]
          obtain ⟨later, hrest, hfound⟩ := ih _ hmore h
          exact ⟨later, hrest.enter hnext hentered, hfound⟩

/-- A search has a trail, which the turns for all edges and nodes lead to. -/
theorem exists_isTrail (hstart : start < graph.nodes.length) (limit : Option Nat) :
    ∃ trail : Trail start, graph.IsTrail limit trail ∧
      trail.found = graph.successors start limit .depth ∧
      graph.run limit (graph.edges.length + graph.nodes.length + 1) [start] []
        [⟨start, 0, 0⟩] = some trail.found := by
  have hturns := Nat.lt_succ_of_le (turnsLeft_start hstart)
  have hrun := run_eq_descend limit [] hturns
  obtain ⟨trail, hunwinds, hfound⟩ := exists_unwinds (.begin start) (fun _ => Iff.rfl) hrun
  obtain _ | ⟨htop, hbelow⟩ := hunwinds
  cases hbelow
  refine ⟨trail, htop, hfound, ?_⟩
  rw [hfound]
  exact hrun

/-- The keys of a trail stand in the order in which the search entered them,
and a node that is no key yet was the last to be entered. -/
structure InOrder (trail : Trail start) (node : Nat) : Prop where
  sublist : (Listing.keys trail.found).Sublist trail.entered
  key_or_last : node ∈ Listing.keys trail.found ∨
    ∃ before, trail.entered = before ++ [node] ∧ (Listing.keys trail.found).Sublist before

theorem InOrder.enter (h : InOrder trail node) (hnew : child ∉ trail.entered) :
    InOrder (trail.enter node child hnew) child := by
  have hkeys : (Listing.keys (trail.enter node child hnew).found).Sublist trail.entered := by
    change (Listing.keys (trail.found.record node child)).Sublist trail.entered
    rw [Discoveries.keys_record]
    by_cases hkey : node ∈ Listing.keys trail.found
    · rw [if_pos hkey]
      exact h.sublist
    · -- The new key goes behind the keys of the nodes entered before it.
      rw [if_neg hkey]
      obtain ⟨before, hentered, hbefore⟩ := h.key_or_last.resolve_left hkey
      rw [hentered]
      exact hbefore.append_right [node]
  exact ⟨hkeys.trans (List.sublist_append_left _ _), Or.inr ⟨trail.entered, rfl, hkeys⟩⟩

theorem Explores.keys_sublist (h : graph.Explores limit node depth children trail later)
    (horder : InOrder trail node) :
    (Listing.keys later.found).Sublist later.entered := by
  induction h with
  | done => exact horder.sublist
  | known hknown hrest ih => exact ih horder
  | enter hnew hinner hrest ihinner ihrest =>
    exact ihrest ⟨ihinner (horder.enter hnew), Or.inl hinner.grows.mem_keys_of_enter⟩

/-- The search has entered a node on a path of so many steps. -/
def EntersAt (graph : Graph) (trail : Trail start) (node depth : Nat) : Prop :=
  ∃ way, trail.found.Leads start node way ∧ way.length = depth ∧
    IsPathTo (IsNeighbour graph.children) start node (start :: way)

theorem entersAt_start (graph : Graph) (start : Nat) : graph.EntersAt (.begin start) start 0 :=
  ⟨[], .start, rfl, .start⟩

theorem EntersAt.within (h : graph.EntersAt trail node depth) :
    Within graph.children start depth node := by
  obtain ⟨way, -, hlength, hpath⟩ := h
  exact hpath.within (by simp [hlength])

theorem EntersAt.mono (h : graph.EntersAt trail node depth) (hgrows : trail.Grows later) :
    graph.EntersAt later node depth := by
  obtain ⟨way, hway, hlength, hpath⟩ := h
  exact ⟨way, hgrows.leads hway, hlength, hpath⟩

theorem EntersAt.enter (h : graph.EntersAt trail node depth) (hnew : child ∉ trail.entered)
    (hchild : child ∈ graph.children node) :
    graph.EntersAt (trail.enter node child hnew) child (depth + 1) := by
  obtain ⟨way, hway, hlength, hpath⟩ := h
  refine ⟨way ++ [child], ?_, by simp [hlength], hpath.step hchild⟩
  refine .step ((Trail.Grows.enter hnew node).leads hway) ?_
  rw [Trail.discoverer?_enter, if_pos rfl]

/-- The search has entered a node within the limit and, unless it was at the
limit, all children of the node. -/
def Settles (graph : Graph) (limit : Option Nat) (trail : Trail start) (node : Nat) : Prop :=
  ∃ depth, graph.EntersAt trail node depth ∧ (∀ bound ∈ limit, depth ≤ bound) ∧
    ((∀ bound ∈ limit, depth < bound) → ∀ child ∈ graph.children node, child ∈ trail.entered)

theorem Settles.mono (h : graph.Settles limit trail node) (hgrows : trail.Grows later) :
    graph.Settles limit later node := by
  obtain ⟨depth, hdepth, hlimit, hchildren⟩ := h
  refine ⟨depth, hdepth.mono hgrows, hlimit, fun hbelow child hchild => ?_⟩
  exact hgrows.mem_entered (hchildren hbelow child hchild)

/-- A search enters the children it goes through and settles what it enters. -/
theorem Explores.settles (h : graph.Explores limit node depth children trail later)
    (hchildren : children ⊆ graph.childrenBelow limit depth node)
    (hnode : graph.EntersAt trail node depth) :
    children ⊆ later.entered ∧
      ∀ other ∈ later.entered, other ∉ trail.entered → graph.Settles limit later other := by
  induction h with
  | done => exact ⟨List.nil_subset _, fun other hin hout => absurd hin hout⟩
  | known hknown hrest ih =>
    obtain ⟨hentered, hsettled⟩ := ih (List.subset_of_cons_subset hchildren) hnode
    exact ⟨List.cons_subset.2 ⟨hrest.grows.mem_entered hknown, hentered⟩, hsettled⟩
  | @enter node depth child children trail middle later hnew hinner hrest ihinner ihrest =>
    obtain ⟨hbelow, hchild⟩ := mem_childrenBelow.1 (hchildren List.mem_cons_self)
    have hway := hnode.enter hnew hchild
    obtain ⟨hinside, hinnerSettled⟩ := ihinner (List.Subset.refl _) hway
    have hmiddle : trail.Grows middle := (Trail.Grows.enter hnew node).trans hinner.grows
    obtain ⟨hentered, hrestSettled⟩ :=
      ihrest (List.subset_of_cons_subset hchildren) (hnode.mono hmiddle)
    have hself : graph.Settles limit middle child := by
      refine ⟨depth + 1, hway.mono hinner.grows, hbelow, fun hmore other hother => ?_⟩
      exact hinside (mem_childrenBelow.2 ⟨hmore, hother⟩)
    have hchildIn : child ∈ middle.entered := hinner.grows.mem_entered (by simp)
    refine ⟨List.cons_subset.2 ⟨hrest.grows.mem_entered hchildIn, hentered⟩, ?_⟩
    -- What the child leads to was settled in the middle, the rest after it.
    intro other hother hout
    by_cases hin : other ∈ middle.entered
    · refine Settles.mono ?_ hrest.grows
      by_cases heq : other = child
      · rw [heq]
        exact hself
      · exact hinnerSettled other hin (by simp [hout, heq])
    · exact hrestSettled other hother hin

/-- A search settles all that it enters. -/
theorem IsTrail.settles (h : graph.IsTrail limit trail) (hnode : node ∈ trail.entered) :
    graph.Settles limit trail node := by
  have hbegin := graph.entersAt_start start
  obtain ⟨hchildren, hsettled⟩ := Explores.settles h (List.Subset.refl _) hbegin
  by_cases heq : node = start
  · subst heq
    refine ⟨0, hbegin.mono h.grows, fun _ _ => Nat.zero_le _, fun hbelow child hchild => ?_⟩
    exact hchildren (mem_childrenBelow.2 ⟨hbelow, hchild⟩)
  · exact hsettled node hnode (by simpa using heq)

/-- Without a limit a search enters what its start reaches. -/
theorem IsTrail.mem_entered_iff (h : graph.IsTrail none trail) :
    node ∈ trail.entered ↔ graph.Reaches start node := by
  constructor
  · intro hnode
    obtain ⟨depth, hdepth, -⟩ := h.settles hnode
    exact exists_within_iff.1 ⟨depth, hdepth.within⟩
  · intro hreach
    induction hreach with
    | refl => exact trail.start_mem
    | tail _ hchild ih =>
      obtain ⟨depth, -, -, hchildren⟩ := h.settles ih
      exact hchildren (by simp) _ hchild

theorem IsTrail.keys_sublist (h : graph.IsTrail limit trail) :
    (Listing.keys trail.found).Sublist trail.entered := by
  apply Explores.keys_sublist h
  exact ⟨List.nil_sublist _, Or.inr ⟨[], rfl, List.nil_sublist _⟩⟩

/-- What a depth-first search finds along its trail. -/
structure IsDepthFirstTree (graph : Graph) (limit : Option Nat) (trail : Trail start) : Prop where
  keys_sublist : (Listing.keys trail.found).Sublist trail.entered
  mem_keys : ∀ node, node ∈ Listing.keys trail.found ↔
    ∃ child, trail.found.discoverer? child = some node
  found_nodup : trail.found.found.Nodup
  mem_found : limit = none → ∀ node, node ∈ trail.found.found ↔
    node ≠ start ∧ graph.Reaches start node

/-- The search by turns ends and finds what the search by recursion finds, which
can find nothing else. It maps what it enters as a depth-first tree. -/
theorem isDepthFirstTree_successors (hstart : start < graph.nodes.length) (limit : Option Nat) :
    ∃ trail : Trail start, graph.IsTrail limit trail ∧
      (∀ other : Trail start, graph.IsTrail limit other → other = trail) ∧
      graph.successors start limit .depth = trail.found ∧
      graph.run limit (graph.edges.length + graph.nodes.length + 1) [start] []
        [⟨start, 0, 0⟩] = some trail.found ∧
      graph.IsDepthFirstTree limit trail := by
  obtain ⟨trail, htrail, hfound, hrun⟩ := exists_isTrail hstart limit
  refine ⟨trail, htrail, fun other hother => htrail.unique hother, hfound.symm, hrun, ?_⟩
  refine ⟨htrail.keys_sublist, fun node => Trail.mem_keys, trail.nodup_found.2, ?_⟩
  intro hnone node
  subst hnone
  rw [Trail.mem_found, htrail.mem_entered_iff]

theorem isDepthFirstTree_successors_ringTables :
    0 < ringTables.nodes.length ∧
      ringTables.run none 12 [0] [] [⟨0, 0, 0⟩] = some [(0, [1, 2]), (1, [3]), (3, [4])] ∧
      ∃ trail : Trail 0, ringTables.IsTrail none trail ∧
        (∀ other : Trail 0, ringTables.IsTrail none other → other = trail) ∧
        ringTables.successors 0 none .depth = trail.found ∧
        ringTables.run none (ringTables.edges.length + ringTables.nodes.length + 1) [0] []
          [⟨0, 0, 0⟩] = some trail.found ∧
        ringTables.IsDepthFirstTree none trail := by
  have hstart : 0 < ringTables.nodes.length := by decide
  exact ⟨hstart, by decide, isDepthFirstTree_successors hstart none⟩

end Graph

end DocumentViews
