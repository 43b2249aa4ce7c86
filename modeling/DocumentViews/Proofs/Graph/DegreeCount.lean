import Mathlib
import DocumentViews.Proofs.Graph.TopologicalOrder

/-!
The topological order by counting down. A search that keeps the counts of all
members, those of listed nodes included, takes no count below zero: when a node
is listed, the members among its children are not listed yet and still count
it. So it comes to its end, and its list is the topological order. A greedy
order is fixed by the set of the members, in whatever order they are given.
-/

namespace DocumentViews.Graph

/-- Takes one off the count of a node, which stays in the table. Tells whether
it is zero now. A node without a count is passed over, and nothing can be taken
off a count of zero. -/
def decrement (node : Nat) : Listing Nat Nat → Option (Listing Nat Nat × Bool)
  | [] => some ([], false)
  | (other, count) :: rest =>
    if other = node then
      match count with
      | 0 => none
      | less + 1 => some ((other, less) :: rest, less == 0)
    else (decrement node rest).map fun counted => ((other, count) :: counted.1, counted.2)

/-- The entries of the nodes that still count a parent. -/
def awaiting (degrees : Listing Nat Nat) : Listing Nat Nat :=
  degrees.filter (·.2 != 0)

theorem keys_decrement {node : Nat} {degrees : Listing Nat Nat}
    {counted : Listing Nat Nat × Bool} (h : decrement node degrees = some counted) :
    Listing.keys counted.1 = Listing.keys degrees := by
  induction degrees generalizing counted with
  | nil =>
    obtain rfl := Option.some.inj h
    rfl
  | cons entry rest ih =>
    obtain ⟨other, count⟩ := entry
    unfold decrement at h
    split at h
    · cases count with
      | zero => simp at h
      | succ less =>
        obtain rfl := Option.some.inj h
        rfl
    · obtain ⟨later, hlater, rfl⟩ := Option.map_eq_some_iff.1 h
      exact congrArg (List.cons other) (ih hlater)

/-- Taking one off a count releases the node among those that still count a
parent. -/
theorem release_awaiting {node : Nat} {degrees : Listing Nat Nat}
    {counted : Listing Nat Nat × Bool} (h : decrement node degrees = some counted) :
    release node (awaiting degrees) = (awaiting counted.1, counted.2) := by
  induction degrees generalizing counted with
  | nil =>
    obtain rfl := Option.some.inj h
    rfl
  | cons entry rest ih =>
    obtain ⟨other, count⟩ := entry
    unfold decrement at h
    split at h
    · next heq =>
      cases count with
      | zero => simp at h
      | succ less =>
        obtain rfl := Option.some.inj h
        have hkeep : awaiting ((other, less + 1) :: rest) = (other, less + 1) :: awaiting rest :=
          rfl
        rw [hkeep, release, if_pos heq]
        cases less with
        | zero => rfl
        | succ less => rfl
    · next hne =>
      obtain ⟨later, hlater, rfl⟩ := Option.map_eq_some_iff.1 h
      have hrest := ih hlater
      cases count with
      | zero => exact hrest
      | succ count =>
        have hkeep : ∀ degrees, awaiting ((other, count + 1) :: degrees) =
            (other, count + 1) :: awaiting degrees := fun _ => rfl
        rw [hkeep, hkeep, release, if_neg hne, hrest]

theorem exists_decrement {node : Nat} {degrees : Listing Nat Nat}
    (h : ∀ count, (node, count) ∈ degrees → 0 < count) :
    ∃ counted, decrement node degrees = some counted := by
  induction degrees with
  | nil => exact ⟨_, rfl⟩
  | cons entry rest ih =>
    obtain ⟨other, count⟩ := entry
    unfold decrement
    split
    · next heq =>
      have hpos := h count (heq ▸ List.mem_cons_self)
      cases count with
      | zero => exact absurd hpos (Nat.lt_irrefl 0)
      | succ less => exact ⟨_, rfl⟩
    · obtain ⟨counted, hcounted⟩ := ih fun count hin => h count (List.mem_cons_of_mem _ hin)
      exact ⟨_, by rw [hcounted]; rfl⟩

/-- A search that keeps a count for each member. -/
structure Census where
  ready : Members Nat
  degrees : Listing Nat Nat

namespace Census

/-- The search that forgets the members with a count of zero. -/
def pending (census : Census) : Pending :=
  ⟨census.ready, awaiting census.degrees⟩

/-- Takes one off the count of a node, which gets ready at zero. -/
def countDown (graph : Graph) (census : Census) (node : Nat) : Option Census :=
  (decrement node census.degrees).map fun counted =>
    ⟨if counted.2 then census.ready.insert (graph.idOf node) node else census.ready, counted.1⟩

theorem pending_countDown {graph : Graph} {census next : Census} {node : Nat}
    (h : census.countDown graph node = some next) :
    next.pending = census.pending.release graph node := by
  obtain ⟨⟨degrees, ready⟩, hcounted, rfl⟩ := Option.map_eq_some_iff.1 h
  have hrelease : Graph.release node census.pending.waiting = (awaiting degrees, ready) :=
    release_awaiting hcounted
  rw [Pending.release, hrelease]
  cases ready with
  | true => rfl
  | false => rfl

theorem pending_foldlM {graph : Graph} {nodes : List Nat} {census next : Census}
    (h : nodes.foldlM (countDown graph) census = some next) :
    next.pending = nodes.foldl (Pending.release graph) census.pending := by
  induction nodes generalizing census with
  | nil =>
    obtain rfl := Option.some.inj h
    rfl
  | cons node rest ih =>
    rw [List.foldlM_cons] at h
    obtain ⟨middle, hmiddle, hrest⟩ := Option.bind_eq_some_iff.1 h
    rw [ih hrest, pending_countDown hmiddle, List.foldl_cons]

/-- Lists the nodes as they get ready. Fails when a count would go below
zero. -/
def list (graph : Graph) (census : Census) : Option (List Nat) :=
  match hready : census.ready with
  | [] => some []
  | (_, node) :: rest =>
    match hnext : (graph.children node).foldlM (countDown graph) ⟨rest, census.degrees⟩ with
    | none => none
    | some next =>
      have : next.pending.size < census.pending.size := by
        have hless := Pending.size_foldl_release_le graph (graph.children node)
          (pending ⟨rest, census.degrees⟩)
        rw [← pending_foldlM hnext] at hless
        simp only [Pending.size, pending, hready, List.length_cons] at hless ⊢
        omega
      (list graph next).map (node :: ·)
termination_by census.pending.size

theorem list_cons {graph : Graph} {id : String} {node : Nat} {rest : Members Nat}
    {degrees : Listing Nat Nat} {next : Census}
    (hnext : (graph.children node).foldlM (countDown graph) ⟨rest, degrees⟩ = some next) :
    list graph ⟨(id, node) :: rest, degrees⟩ = (list graph next).map (node :: ·) := by
  rw [list]
  dsimp only
  split
  · next hnone =>
    rw [hnext] at hnone
    nomatch hnone
  · next other hother =>
    rw [hnext] at hother
    rw [Option.some.inj hother]

theorem keys_countDown {graph : Graph} {census next : Census} {node : Nat}
    (h : census.countDown graph node = some next) :
    Listing.keys next.degrees = Listing.keys census.degrees := by
  obtain ⟨counted, hcounted, rfl⟩ := Option.map_eq_some_iff.1 h
  exact keys_decrement hcounted

theorem keys_foldlM {graph : Graph} {nodes : List Nat} {census next : Census}
    (h : nodes.foldlM (countDown graph) census = some next) :
    Listing.keys next.degrees = Listing.keys census.degrees := by
  induction nodes generalizing census with
  | nil =>
    obtain rfl := Option.some.inj h
    rfl
  | cons node rest ih =>
    rw [List.foldlM_cons] at h
    obtain ⟨middle, hmiddle, hrest⟩ := Option.bind_eq_some_iff.1 h
    exact (ih hrest).trans (keys_countDown hmiddle)

end Census

/-- Kahn's algorithm on the counts of all members. -/
def countedOrder? (graph : Graph) (members : List Nat) : Option (List Nat) :=
  let degrees := members.map fun node => (node, graph.inDegree members node)
  Census.list graph ⟨graph.sortById ((degrees.filter (·.2 == 0)).map Prod.fst), degrees⟩

theorem drain_cons (graph : Graph) (id : String) (node : Nat) (rest : Members Nat)
    (waiting : Listing Nat Nat) :
    graph.drain ⟨(id, node) :: rest, waiting⟩ = node ::
      graph.drain ((graph.children node).foldl (Pending.release graph) ⟨rest, waiting⟩) := by
  rw [drain]

variable {graph : Graph} {members done order : List Nat} {census : Census} {node : Nat}

theorem eq_of_mem_of_keys_nodup {degrees : Listing Nat Nat} (h : (Listing.keys degrees).Nodup)
    {first second : Nat} (hfirst : (node, first) ∈ degrees) (hsecond : (node, second) ∈ degrees) :
    first = second :=
  congrArg Prod.snd (List.inj_on_of_nodup_map h hfirst hsecond rfl)

/-- Nodes can be counted down one after the other when those of them that are
members are left and await a parent. -/
theorem Census.exists_foldlM {left : Nat → Prop} {awaited : Nat → Nat} {nodes : List Nat}
    (hmembers : members.Nodup) (hkeys : Listing.keys census.degrees = members)
    (h : census.pending.Awaits graph left awaited) (hleft : ∀ node, left node → node ∈ members)
    (hnodup : nodes.Nodup)
    (hnodes : ∀ node ∈ nodes, node ∈ members → left node ∧ 0 < awaited node) :
    ∃ next, nodes.foldlM (Census.countDown graph) census = some next := by
  induction nodes generalizing census awaited with
  | nil => exact ⟨census, rfl⟩
  | cons node rest ih =>
    obtain ⟨hnode, hrest⟩ := List.nodup_cons.1 hnodup
    have hpositive : ∀ count, (node, count) ∈ census.degrees → 0 < count := by
      intro count hcount
      have hmem : node ∈ members := by
        rw [← hkeys]
        exact List.mem_map_of_mem hcount
      obtain ⟨hopen, hpos⟩ := hnodes node List.mem_cons_self hmem
      have hentry := List.mem_of_mem_filter ((h.mem_waiting node _).2 ⟨hopen, rfl, hpos⟩)
      rw [eq_of_mem_of_keys_nodup (hkeys.symm ▸ hmembers) hcount hentry]
      exact hpos
    obtain ⟨counted, hcounted⟩ := exists_decrement hpositive
    obtain ⟨middle, hmiddle⟩ : ∃ middle, census.countDown graph node = some middle :=
      ⟨_, by rw [Census.countDown, hcounted]; rfl⟩
    have hreleased := h.release node fun hopen =>
      (hnodes node List.mem_cons_self (hleft node hopen)).2
    rw [← Census.pending_countDown hmiddle] at hreleased
    obtain ⟨next, hnext⟩ := ih ((Census.keys_countDown hmiddle).trans hkeys) hreleased hrest
      fun other hother hmem => by
        have hne : other ≠ node := fun heq => hnode (heq ▸ hother)
        rw [Function.update_of_ne hne]
        exact hnodes other (List.mem_cons_of_mem _ hother) hmem
    exact ⟨next, by rw [List.foldlM_cons, hmiddle]; exact hnext⟩

/-- Where nodes are listed after all their parents among the members. -/
def IsClosed (graph : Graph) (members done : List Nat) : Prop :=
  ∀ node ∈ done, ∀ parent ∈ members, graph.IsParent parent node → parent ∈ done

theorem IsClosed.append (h : graph.IsClosed members done)
    (hready : graph.IsReady members done node) : graph.IsClosed members (done ++ [node]) := by
  intro other hother parent hparent hedge
  rcases List.mem_append.1 hother with hother | hother
  · exact List.mem_append_left _ (h other hother parent hparent hedge)
  · rw [List.mem_singleton.1 hother] at hedge
    exact List.mem_append_left _ (hready.closed parent hparent hedge)

/-- The members among the children of a ready node are left after it and await
it: were one of them listed, so would be the node. -/
theorem IsClosed.awaits_child (h : graph.IsClosed members done)
    (hready : graph.IsReady members done node) {child : Nat} (hchild : child ∈ graph.children node)
    (hmem : child ∈ members) :
    (child ∈ members ∧ child ∉ done ++ [node]) ∧
      0 < (graph.openParents members done child).length := by
  refine ⟨⟨hmem, fun hlisted => ?_⟩, ?_⟩
  · rcases List.mem_append.1 hlisted with hdone | hsame
    · exact hready.notMem (h child hdone node hready.mem hchild)
    · exact ne_of_mem_children hchild (List.mem_singleton.1 hsame).symm
  · exact List.length_pos_of_mem (mem_openParents.2 ⟨hchild, hready.mem, hready.notMem⟩)

/-- A search on the counts of all members lists what a search does that forgets
the counts of zero. -/
theorem Census.list_eq_drain (hmembers : members.Nodup)
    (hkeys : Listing.keys census.degrees = members)
    (h : census.pending.Follows graph members done) (hclosed : graph.IsClosed members done) :
    census.list graph = some (graph.drain census.pending) := by
  induction census using Census.list.induct graph generalizing done with
  | case1 census hnone =>
    obtain ⟨ready, degrees⟩ := census
    simp only at hnone
    subst hnone
    rw [Census.list, drain]
    rfl
  | case2 census id node rest hsome hfail =>
    obtain ⟨ready, degrees⟩ := census
    simp only at hsome
    subst hsome
    have hready := (h.mem_ready_iff.1 (List.mem_cons_self (a := (id, node)))).2
    have hcount : ∃ next, (graph.children node).foldlM (Census.countDown graph) ⟨rest, degrees⟩ =
        some next :=
      Census.exists_foldlM hmembers hkeys h.take (fun _ hleft => hleft.1)
        (graph.children_nodup node)
        fun child hchild hmem => hclosed.awaits_child hready hchild hmem
    obtain ⟨next, hnext⟩ := hcount
    simp [hnext] at hfail
  | case3 census id node rest hsome next hnext hlt ih =>
    obtain ⟨ready, degrees⟩ := census
    simp only at hsome
    subst hsome
    have hready := (h.mem_ready_iff.1 (List.mem_cons_self (a := (id, node)))).2
    have hpending := Census.pending_foldlM hnext
    have hfollows : next.pending.Follows graph members (done ++ [node]) := hpending ▸ h.step
    have hlist := ih ((Census.keys_foldlM hnext).trans hkeys) hfollows (hclosed.append hready)
    have hdrain := drain_cons graph id node rest (awaiting degrees)
    rw [Census.list_cons hnext, hlist, hpending]
    exact congrArg some hdrain.symm

/-- At the start nothing is listed and every member counts its parents among
the members. -/
theorem countedOrder?_eq (hnodup : members.Nodup)
    (hlt : ∀ node ∈ members, node < graph.nodes.length) :
    graph.countedOrder? members = some (graph.topologicalOrderWithin members) := by
  have hkeys : Listing.keys (members.map fun node => (node, graph.inDegree members node)) =
      members := by
    simp [Listing.keys, Function.comp_def]
  have hclosed : graph.IsClosed members [] := fun node hnode => by simp at hnode
  exact Census.list_eq_drain hnodup hkeys (Pending.follows_start hnodup hlt rfl) hclosed

theorem IsReady.congr {others : List Nat} (hsame : ∀ node, node ∈ others ↔ node ∈ members)
    (h : graph.IsReady others done node) : graph.IsReady members done node :=
  ⟨(hsame node).1 h.mem, h.notMem,
    fun parent hparent => h.closed parent ((hsame parent).2 hparent)⟩

theorem IsGreedyOrder.congr {others : List Nat} (hsame : ∀ node, node ∈ others ↔ node ∈ members)
    (h : graph.IsGreedyOrder others done order) : graph.IsGreedyOrder members done order := by
  have hback : ∀ node, node ∈ members ↔ node ∈ others := fun node => (hsame node).symm
  induction order generalizing done with
  | nil => exact fun node hready => h node (hready.congr hback)
  | cons first rest ih =>
    obtain ⟨hready, hleast, hrest⟩ := h
    exact ⟨hready.congr hsame, fun other hother => hleast other (hother.congr hback), ih hrest⟩

/-- The ready node with the smallest identifier is the only one there is. -/
theorem IsGreedyOrder.unique {other : List Nat} (hlt : ∀ node ∈ members, node < graph.nodes.length)
    (h : graph.IsGreedyOrder members done order) (hother : graph.IsGreedyOrder members done other) :
    order = other := by
  induction order generalizing done other with
  | nil =>
    cases other with
    | nil => rfl
    | cons first rest => exact absurd hother.1 (h first)
  | cons first rest ih =>
    obtain ⟨hready, hleast, hrest⟩ := h
    cases other with
    | nil => exact absurd hready (hother first)
    | cons first' rest' =>
      obtain ⟨hready', hleast', hrest'⟩ := hother
      have hid := le_antisymm (hleast first' hready') (hleast' first hready)
      obtain rfl := idOf_injective (hlt first hready.mem) (hlt first' hready'.mem) hid
      rw [ih hrest hrest']

theorem topologicalOrderWithin_perm {others : List Nat} (hnodup : members.Nodup)
    (hlt : ∀ node ∈ members, node < graph.nodes.length) (h : others.Perm members) :
    graph.topologicalOrderWithin others = graph.topologicalOrderWithin members := by
  have hothers := isGreedyOrder_topologicalOrderWithin (h.nodup_iff.2 hnodup)
    fun node hnode => hlt node (h.mem_iff.1 hnode)
  exact (hothers.congr fun node => h.mem_iff).unique hlt
    (isGreedyOrder_topologicalOrderWithin hnodup hlt)

/-- The node at a place of a greedy order comes before all others that are
ready there. -/
theorem IsGreedyOrder.lt_of_isReady {before after : List Nat} {other : Nat}
    (hlt : ∀ node ∈ members, node < graph.nodes.length)
    (h : graph.IsGreedyOrder members done (before ++ node :: after))
    (hother : graph.IsReady members (done ++ before) other) (hne : other ≠ node) :
    graph.idOf node < graph.idOf other := by
  induction before generalizing done with
  | nil =>
    obtain ⟨hready, hleast, -⟩ := h
    rw [List.append_nil] at hother
    refine lt_of_le_of_ne (hleast other hother) fun hid => hne ?_
    exact idOf_injective (hlt other hother.mem) (hlt node hready.mem) hid.symm
  | cons first rest ih => exact ih h.2.2 (by simpa using hother)

/-- All nodes have a place in the order when none of them is left out. -/
theorem isAcyclic_iff : graph.isAcyclic = true ↔ ¬ graph.HasCycle := by
  have hsubperm : graph.topologicalOrder.Subperm graph.indices :=
    graph.topologicalOrder_nodup.subperm fun node hnode =>
      List.mem_range.2 (mem_topologicalOrder.1 hnode).1
  have hlength : graph.isAcyclic = true ↔ graph.indices.length ≤ graph.topologicalOrder.length := by
    have := hsubperm.length_le
    simp only [isAcyclic, indices, List.length_range, beq_iff_eq] at this ⊢
    omega
  rw [hlength, hasCycle_iff]
  constructor
  · rintro hall ⟨node, hcycle⟩
    have hin := (hsubperm.perm_of_length_le hall).mem_iff.2
      (List.mem_range.2 (lt_of_onOrBelowCycle hcycle))
    exact (mem_topologicalOrder.1 hin).2 hcycle
  · intro hnone
    apply List.Subperm.length_le
    refine List.nodup_range.subperm fun node hnode => mem_topologicalOrder.2 ?_
    exact ⟨List.mem_range.1 hnode, fun hcycle => hnone ⟨node, hcycle⟩⟩

/-- The order of members lists those off the cycles among them, each once and
after its parents, and goes on with the smallest identifier. It is the same for
every enumeration of the members, and no count falls below zero on the way. All
nodes have their place in the order when no node leads back to itself. -/
theorem topologicalOrderWithin_greedy (hnodup : members.Nodup)
    (hlt : ∀ node ∈ members, node < graph.nodes.length) :
    (graph.topologicalOrderWithin members).Nodup ∧
      (∀ node, node ∈ graph.topologicalOrderWithin members ↔
        node ∈ members ∧ ¬ OnOrBelowCycle (graph.IsParentWithin members) node) ∧
      (∀ before node after, graph.topologicalOrderWithin members = before ++ node :: after →
        graph.IsReady members before node ∧
          ∀ other, graph.IsReady members before other → other ≠ node →
            graph.idOf node < graph.idOf other) ∧
      (∀ others : List Nat, others.Perm members →
        graph.topologicalOrderWithin others = graph.topologicalOrderWithin members) ∧
      graph.countedOrder? members = some (graph.topologicalOrderWithin members) ∧
      (graph.isAcyclic = true ↔ ¬ graph.HasCycle) := by
  have hgreedy := isGreedyOrder_topologicalOrderWithin hnodup hlt
  refine ⟨hgreedy.nodup, fun node => hgreedy.mem_iff, fun before node after heq => ?_,
    fun others => topologicalOrderWithin_perm hnodup hlt, countedOrder?_eq hnodup hlt,
    isAcyclic_iff⟩
  rw [heq] at hgreedy
  exact ⟨hgreedy.isReady, fun other => hgreedy.lt_of_isReady hlt⟩

/-- Two tables below the root that hold each other, with a column that the root
holds as well, and a column beside them. -/
def crossedTables : Graph where
  name := "g"
  nodes := [.table "roots" none, .table "a" none, .table "b" none, .field "x" none .string,
    .field "y" none .string]
  edges := [⟨0, 1, []⟩, ⟨1, 2, []⟩, ⟨2, 1, []⟩, ⟨2, 3, []⟩, ⟨0, 3, []⟩, ⟨0, 4, []⟩]
  ids_nodup := by decide +kernel
  ends_nodup := by decide
  joins := by decide +kernel

theorem topologicalOrderWithin_greedy_crossedTables :
    [4, 3, 2, 1, 0].Nodup ∧ (∀ node ∈ [4, 3, 2, 1, 0], node < crossedTables.nodes.length) ∧
      (crossedTables.topologicalOrderWithin [4, 3, 2, 1, 0]).Nodup ∧
      (∀ node, node ∈ crossedTables.topologicalOrderWithin [4, 3, 2, 1, 0] ↔
        node ∈ [4, 3, 2, 1, 0] ∧
          ¬ OnOrBelowCycle (crossedTables.IsParentWithin [4, 3, 2, 1, 0]) node) ∧
      (∀ before node after,
        crossedTables.topologicalOrderWithin [4, 3, 2, 1, 0] = before ++ node :: after →
        crossedTables.IsReady [4, 3, 2, 1, 0] before node ∧
          ∀ other, crossedTables.IsReady [4, 3, 2, 1, 0] before other → other ≠ node →
            crossedTables.idOf node < crossedTables.idOf other) ∧
      (∀ others : List Nat, others.Perm [4, 3, 2, 1, 0] →
        crossedTables.topologicalOrderWithin others =
          crossedTables.topologicalOrderWithin [4, 3, 2, 1, 0]) ∧
      crossedTables.countedOrder? [4, 3, 2, 1, 0] =
        some (crossedTables.topologicalOrderWithin [4, 3, 2, 1, 0]) ∧
      (crossedTables.isAcyclic = true ↔ ¬ crossedTables.HasCycle) := by
  have hnodup : [4, 3, 2, 1, 0].Nodup := by decide
  have hlt : ∀ node ∈ [4, 3, 2, 1, 0], node < crossedTables.nodes.length := by decide
  exact ⟨hnodup, hlt, topologicalOrderWithin_greedy hnodup hlt⟩

end DocumentViews.Graph
