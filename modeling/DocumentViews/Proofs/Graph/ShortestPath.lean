import Mathlib
import DocumentViews.Graph.Ancestry
import DocumentViews.Proofs.Graph.BreadthFirst

/-!
The paths that a breadth-first search finds. Nodes have ranks, and the search
looks at neighbours in the order of their ranks. Then each layer stands in the
order of the least paths to its nodes, so the node that discovers another is
the last but one on the least path to it. A path comes before another when it
is shorter, or as long and no greater in the ranks of its nodes.
-/

namespace DocumentViews

/-- A path along a relation from a start to a node. -/
inductive IsPathTo {α : Type} (r : α → α → Prop) (start : α) : α → List α → Prop
  | start : IsPathTo r start start [start]
  | step {node other : α} {path : List α} (hpath : IsPathTo r start node path)
    (hnext : r node other) : IsPathTo r start other (path ++ [other])

/-- A path is shorter than another, or as long and no greater. -/
def Precedes {α β : Type} [LinearOrder β] (rank : α → β) (first second : List α) : Prop :=
  first.length < second.length ∨
    first.length = second.length ∧ first.map rank ≤ second.map rank

structure IsLeastPath {α β : Type} [LinearOrder β] (r : α → α → Prop) (rank : α → β)
    (start node : α) (path : List α) : Prop where
  isPathTo : IsPathTo r start node path
  precedes : ∀ other, IsPathTo r start node other → Precedes rank path other

/-- Least paths to one node agree in the ranks of their nodes. -/
theorem IsLeastPath.map_eq {α β : Type} [LinearOrder β] {r : α → α → Prop} {rank : α → β}
    {start node : α} {first second : List α} (hfirst : IsLeastPath r rank start node first)
    (hsecond : IsLeastPath r rank start node second) : first.map rank = second.map rank := by
  rcases hfirst.precedes second hsecond.isPathTo with hless | ⟨hsame, hle⟩
  · rcases hsecond.precedes first hfirst.isPathTo with hmore | ⟨hsame, -⟩
    · omega
    · omega
  · rcases hsecond.precedes first hfirst.isPathTo with hless | ⟨-, hge⟩
    · omega
    · exact le_antisymm hle hge

/-- There is one least path. -/
theorem IsLeastPath.eq {α β : Type} [LinearOrder β] {r : α → α → Prop} {rank : α → β}
    (hrank : Function.Injective rank) {start node : α} {first second : List α}
    (hfirst : IsLeastPath r rank start node first)
    (hsecond : IsLeastPath r rank start node second) : first = second :=
  List.map_injective_iff.2 hrank (hfirst.map_eq hsecond)

theorem IsPathTo.length_pos {α : Type} {r : α → α → Prop} {start node : α} {path : List α}
    (h : IsPathTo r start node path) : 0 < path.length := by
  cases h with
  | start => exact Nat.one_pos
  | step hpath hnext => simp

theorem IsPathTo.head?_eq {α : Type} {r : α → α → Prop} {start node : α} {path : List α}
    (h : IsPathTo r start node path) : path.head? = some start := by
  induction h with
  | start => rfl
  | step hpath hnext ih => rw [List.head?_append, ih, Option.some_or]

theorem IsPathTo.getLast?_eq {α : Type} {r : α → α → Prop} {start node : α} {path : List α}
    (h : IsPathTo r start node path) : path.getLast? = some node := by
  cases h with
  | start => rfl
  | step hpath hnext => exact List.getLast?_concat

theorem isLeastPath_start {α β : Type} [LinearOrder β] (r : α → α → Prop) (rank : α → β)
    (start : α) : IsLeastPath r rank start start [start] := by
  refine ⟨.start, fun other hother => ?_⟩
  cases hother with
  | start => exact Or.inr ⟨rfl, le_rfl⟩
  | step hpath hnext =>
    have := hpath.length_pos
    exact Or.inl (by simpa using this)

/-- The step that a search takes. -/
def IsNeighbour (next : Nat → List Nat) (node other : Nat) : Prop :=
  other ∈ next node

variable {β : Type} [LinearOrder β] {next : Nat → List Nat} {rank : Nat → β} {start : Nat}

theorem append_lt_append {first second : List β} (hlength : first.length = second.length)
    (hlt : first < second) (firstRest secondRest : List β) :
    first ++ firstRest < second ++ secondRest := by
  induction first generalizing second with
  | nil =>
    rw [List.length_eq_zero_iff.1 hlength.symm] at hlt
    exact absurd hlt (lt_irrefl _)
  | cons a first ih =>
    cases second with
    | nil => simp at hlength
    | cons b second =>
      rw [List.cons_append, List.cons_append, List.cons_lt_cons_iff]
      rcases List.cons_lt_cons_iff.1 hlt with hhead | ⟨hhead, htail⟩
      · exact Or.inl hhead
      · exact Or.inr ⟨hhead, ih (by simpa using hlength) htail⟩

theorem append_le_append {first second : List β} (hlength : first.length = second.length)
    (hle : first ≤ second) (rest : List β) : first ++ rest ≤ second ++ rest := by
  rcases lt_or_eq_of_le hle with hlt | heq
  · exact le_of_lt (append_lt_append hlength hlt rest rest)
  · rw [heq]

theorem IsPathTo.within {node : Nat} {path : List Nat}
    (h : IsPathTo (IsNeighbour next) start node path) {count : Nat}
    (hlength : path.length ≤ count + 1) : Within next start count node := by
  induction h generalizing count with
  | start => exact Within.of_start next start count
  | step hpath hnext ih =>
    have hpos := hpath.length_pos
    rw [List.length_append, List.length_singleton] at hlength
    cases count with
    | zero => omega
    | succ count => exact (ih (by omega)).step hnext

theorem Within.exists_isPathTo {count node : Nat} (h : Within next start count node) :
    ∃ path, IsPathTo (IsNeighbour next) start node path ∧ path.length ≤ count + 1 := by
  induction count generalizing node with
  | zero =>
    rw [show node = start from h]
    exact ⟨[start], .start, le_rfl⟩
  | succ count ih =>
    rcases h with h | ⟨other, h, hnext⟩
    · obtain ⟨path, hpath, hlength⟩ := ih h
      exact ⟨path, hpath, by omega⟩
    · obtain ⟨path, hpath, hlength⟩ := ih h
      exact ⟨path ++ [node], hpath.step hnext, by simpa using hlength⟩

namespace Discoveries

theorem discoverer?_eq_none_iff {discoveries : Discoveries} {node : Nat} :
    discoveries.discoverer? node = none ↔ node ∉ discoveries.found := by
  simp only [discoverer?, Option.map_eq_none_iff, List.find?_eq_none, mem_found,
    decide_eq_true_eq, not_exists, not_and]

theorem exists_discoverer {discoveries : Discoveries} {node : Nat}
    (h : node ∈ discoveries.found) : ∃ key, discoveries.discoverer? node = some key := by
  rw [← Option.ne_none_iff_exists']
  exact fun hnone => discoverer?_eq_none_iff.1 hnone h

theorem mem_found_of_discoverer? {discoveries : Discoveries} {node key : Nat}
    (h : discoveries.discoverer? node = some key) : node ∈ discoveries.found := by
  by_contra hout
  rw [discoverer?_eq_none_iff.2 hout] at h
  simp at h

/-- What discovers a node is a key. -/
theorem mem_keys_of_discoverer? {discoveries : Discoveries} {node key : Nat}
    (h : discoveries.discoverer? node = some key) : key ∈ Listing.keys discoveries := by
  obtain ⟨entry, hentry, rfl⟩ := Option.map_eq_some_iff.1 h
  exact List.mem_map_of_mem (List.mem_of_find?_eq_some hentry)

theorem discoverer?_append (first second : Discoveries) (node : Nat) :
    discoverer? (first ++ second) node =
      (first.discoverer? node).or (second.discoverer? node) := by
  rw [discoverer?, List.find?_append, Option.map_or]
  rfl

theorem discoverer?_cons (key : Nat) (children : List Nat) (rest : Discoveries) (node : Nat) :
    discoverer? ((key, children) :: rest) node =
      if node ∈ children then some key else rest.discoverer? node := by
  rw [discoverer?, List.find?_cons]
  by_cases hin : node ∈ children
  · simp [hin]
  · simp [hin, discoverer?]

/-- Of discoveries that are all different each belongs to its entry. -/
theorem discoverer?_of_mem {discoveries : Discoveries} (hnodup : discoveries.found.Nodup)
    {entry : Nat × List Nat} (hentry : entry ∈ discoveries) {node : Nat}
    (hnode : node ∈ entry.2) : discoveries.discoverer? node = some entry.1 := by
  induction discoveries with
  | nil => simp at hentry
  | cons first rest ih =>
    obtain ⟨key, children⟩ := first
    rw [found_cons, List.nodup_append] at hnodup
    obtain ⟨-, hrest, hapart⟩ := hnodup
    rw [discoverer?_cons]
    rcases List.mem_cons.1 hentry with rfl | hentry
    · rw [if_pos hnode]
    · have hout : node ∉ children := fun hin =>
        hapart node hin node (mem_found.2 ⟨entry, hentry, hnode⟩) rfl
      rw [if_neg hout]
      exact ih hrest hentry

/-- Entries that found nothing discovered nothing. -/
theorem discoverer?_filter (entries : Discoveries) (node : Nat) :
    discoverer? (entries.filter (!·.2.isEmpty)) node = entries.discoverer? node := by
  rw [discoverer?, discoverer?, List.find?_filter]
  congr 2
  funext entry
  cases entry.2 with
  | nil => simp
  | cons child children => simp

/-- Later entries discover what earlier ones did not. -/
theorem discoverer?_filter_append (entries later : Discoveries) (node : Nat) :
    discoverer? (entries.filter (!·.2.isEmpty) ++ later) node =
      (entries.discoverer? node).or (later.discoverer? node) := by
  rw [discoverer?_append, discoverer?_filter]

/-- The nodes between two nodes, each discovered from the one before. The
first is left out. -/
inductive Leads (discoveries : Discoveries) (start : Nat) : Nat → List Nat → Prop
  | start : Leads discoveries start start []
  | step {node other : Nat} {tail : List Nat} (hleads : Leads discoveries start node tail)
    (hfound : discoveries.discoverer? other = some node) :
    Leads discoveries start other (tail ++ [other])

variable {discoveries : Discoveries}

theorem Leads.mono {more : Discoveries} (hsub : ∀ node key,
      discoveries.discoverer? node = some key → more.discoverer? node = some key)
    {node : Nat} {tail : List Nat} (h : discoveries.Leads start node tail) :
    more.Leads start node tail := by
  induction h with
  | start => exact .start
  | step _ hfound ih => exact .step ih (hsub _ _ hfound)

theorem Leads.head {first node : Nat} {tail : List Nat}
    (hfirst : discoveries.discoverer? first = some start)
    (h : discoveries.Leads first node tail) : discoveries.Leads start node (first :: tail) := by
  induction h with
  | start => exact .step .start hfirst
  | step _ hfound ih => exact .step ih hfound

theorem Leads.pathTo {node : Nat} {tail : List Nat} (h : discoveries.Leads start node tail)
    (path : List Nat) (count : Nat) : discoveries.pathTo node path (tail.length + count) =
      discoveries.pathTo start (tail ++ path) count := by
  induction h generalizing path with
  | start => rw [List.length_nil, Nat.zero_add, List.nil_append]
  | step _ hfound ih =>
    rw [List.length_append, List.length_singleton, Nat.add_right_comm, Discoveries.pathTo, hfound,
      List.append_assoc]
    exact ih _

theorem pathTo_of_undiscovered (h : discoveries.discoverer? start = none) (path : List Nat)
    (count : Nat) : discoveries.pathTo start path count = start :: path := by
  cases count with
  | zero => rfl
  | succ count => rw [pathTo, h]

end Discoveries

/-- What a layer discovers it keeps, whatever later layers discover. -/
theorem discoverer?_expandLayers_succ (visited layer : List Nat) (count node : Nat) :
    (expandLayers next visited layer (count + 1)).discoverer? node =
      ((expandLayer next visited layer).discoverer? node).or
        ((expandLayers next (visited ++ (expandLayer next visited layer).found)
          (expandLayer next visited layer).found count).discoverer? node) := by
  rw [expandLayers_succ, Discoveries.discoverer?_filter_append]

/-- A node of a layer takes what no node before it could take. -/
theorem discoverer?_expandLayer {visited layer : List Nat} {node key : Nat}
    (h : (expandLayer next visited layer).discoverer? node = some key) :
    ∃ before after, layer = before ++ key :: after ∧ node ∈ next key ∧
      ∀ other ∈ before, node ∉ next other := by
  have hfresh : node ∉ visited :=
    (mem_found_expandLayer.1 (Discoveries.mem_found_of_discoverer? h)).1
  induction layer generalizing visited with
  | nil => simp [expandLayer, Discoveries.discoverer?] at h
  | cons first rest ih =>
    rw [expandLayer, Discoveries.discoverer?_cons] at h
    by_cases htake : node ∈ (next first).filter (· ∉ visited)
    · rw [if_pos htake, Option.some_inj] at h
      subst h
      exact ⟨[], rest, rfl, List.mem_of_mem_filter htake, by simp⟩
    · rw [if_neg htake] at h
      have hnot : node ∉ next first := fun hin =>
        htake (List.mem_filter.2 ⟨hin, by simpa using hfresh⟩)
      have hlater : node ∉ visited ++ (next first).filter (· ∉ visited) := fun hin =>
        (List.mem_append.1 hin).elim hfresh htake
      obtain ⟨before, after, rfl, hin, hbefore⟩ := ih h hlater
      refine ⟨first :: before, after, rfl, hin, fun other hother => ?_⟩
      rcases List.mem_cons.1 hother with rfl | hother
      · exact hnot
      · exact hbefore other hother

/-- A layer whose nodes stand in the order of the least paths to them. -/
structure IsRankedLayer (next : Nat → List Nat) (rank : Nat → β) (start depth : Nat)
    (visited layer : List Nat) (way : Nat → List Nat) : Prop
    extends IsLayer next start depth visited layer where
  isLeastPath : ∀ node ∈ layer, IsLeastPath (IsNeighbour next) rank start node (way node)
  length_way : ∀ node ∈ layer, (way node).length = depth + 1
  sorted : layer.Pairwise fun first second => (way first).map rank < (way second).map rank

/-- The way to a node of the next layer: the way to the node that discovered
it, and one more step. -/
def nextWay (way : Nat → List Nat) (entries : Discoveries) (node : Nat) : List Nat :=
  ((entries.discoverer? node).map way).getD [] ++ [node]

theorem nextWay_eq {way : Nat → List Nat} {entries : Discoveries} {node key : Nat}
    (h : entries.discoverer? node = some key) : nextWay way entries node = way key ++ [node] := by
  rw [nextWay, h]
  rfl

theorem isRankedLayer_start (next : Nat → List Nat) (rank : Nat → β) (start : Nat) :
    IsRankedLayer next rank start 0 [start] [start] fun _ => [start] := by
  refine ⟨isLayer_start next start, ?_, fun _ _ => rfl, List.pairwise_singleton _ _⟩
  intro node hnode
  rw [List.mem_singleton.1 hnode]
  exact isLeastPath_start _ rank start

variable {depth : Nat} {visited layer : List Nat} {way : Nat → List Nat}

theorem nodup_of_ranked (hnext : ∀ node, (next node).Pairwise (rank · < rank ·)) (node : Nat) :
    (next node).Nodup := by
  refine (hnext node).imp ?_
  intro first second hlt heq
  rw [heq] at hlt
  exact lt_irrefl _ hlt

/-- The ways to a layer go no further down from an entry on. -/
theorem IsRankedLayer.way_le (h : IsRankedLayer next rank start depth visited layer way)
    {before after : List Nat} {key last : Nat} (hlayer : layer = before ++ key :: after)
    (hin : last ∈ layer) (hlater : last ∉ before) :
    (way key).map rank ≤ (way last).map rank := by
  have hsorted := h.sorted
  rw [hlayer] at hsorted hin
  have hafter := (List.pairwise_append.1 hsorted).2.1
  rcases List.mem_append.1 hin with hin | hin
  · exact absurd hin hlater
  · rcases List.mem_cons.1 hin with rfl | hin
    · exact le_rfl
    · exact le_of_lt ((List.pairwise_cons.1 hafter).1 last hin)

/-- A node that is discovered from a layer has its least path through the node
that discovered it. -/
theorem IsRankedLayer.isLeastPath_step (h : IsRankedLayer next rank start depth visited layer way)
    {node key : Nat} (hkey : (expandLayer next visited layer).discoverer? node = some key) :
    key ∈ layer ∧ IsLeastPath (IsNeighbour next) rank start node (way key ++ [node]) := by
  obtain ⟨before, after, hlayer, hstep, hbefore⟩ := discoverer?_expandLayer hkey
  have hmem : key ∈ layer := by
    rw [hlayer]
    simp
  have hnew : ¬ Within next start depth node :=
    (h.mem_found.1 (Discoveries.mem_found_of_discoverer? hkey)).2
  have hlength := h.length_way key hmem
  refine ⟨hmem, (h.isLeastPath key hmem).isPathTo.step hstep, fun other hother => ?_⟩
  cases hother with
  | start => exact absurd (Within.of_start next start depth) hnew
  | @step last _ path hpath hlast =>
    -- The last but one node of another path is no nearer than the layer.
    have hfar : depth + 1 ≤ path.length := by
      by_contra hnear
      have hpos := hpath.length_pos
      have hwithin : Within next start (depth - 1) last := hpath.within (by omega)
      exact hnew ((hwithin.step hlast).mono (by omega))
    rcases Nat.lt_or_eq_of_le hfar with hlonger | hsame
    · exact Or.inl (by simp [hlength, hlonger])
    · have hin : last ∈ layer := by
        refine (h.mem_layer last).2 ⟨hpath.within (by omega), fun less hless hnear => hnew ?_⟩
        exact (hnear.step hlast).mono hless
      have hwayLast : (way last).map rank ≤ path.map rank := by
        rcases (h.isLeastPath last hin).precedes path hpath with hshort | ⟨-, hle⟩
        · rw [h.length_way last hin] at hshort
          omega
        · exact hle
      have hwayKey := h.way_le hlayer hin fun hbetter => hbefore last hbetter hlast
      refine Or.inr ⟨by simp [hlength, hsame], ?_⟩
      rw [List.map_append, List.map_append]
      exact append_le_append (by simp [hlength, hsame]) (hwayKey.trans hwayLast) _

theorem IsRankedLayer.step (hnext : ∀ node, (next node).Pairwise (rank · < rank ·))
    (h : IsRankedLayer next rank start depth visited layer way) :
    IsRankedLayer next rank start (depth + 1)
      (visited ++ (expandLayer next visited layer).found) (expandLayer next visited layer).found
      (nextWay way (expandLayer next visited layer)) := by
  have hlayer := h.toIsLayer.step (nodup_of_ranked hnext)
  have hway : ∀ entry ∈ expandLayer next visited layer, ∀ node ∈ entry.2,
      nextWay way (expandLayer next visited layer) node = way entry.1 ++ [node] :=
    fun entry hentry node hnode =>
      nextWay_eq (Discoveries.discoverer?_of_mem hlayer.layer_nodup hentry hnode)
  have hkey : ∀ entry ∈ expandLayer next visited layer, entry.1 ∈ layer := by
    intro entry hentry
    have hin : entry.1 ∈ Listing.keys (expandLayer next visited layer) :=
      List.mem_map_of_mem hentry
    rwa [keys_expandLayer] at hin
  refine ⟨hlayer, fun node hnode => ?_, fun node hnode => ?_, ?_⟩
  · obtain ⟨key, hdiscovered⟩ := Discoveries.exists_discoverer hnode
    rw [nextWay_eq hdiscovered]
    exact (h.isLeastPath_step hdiscovered).2
  · obtain ⟨key, hdiscovered⟩ := Discoveries.exists_discoverer hnode
    rw [nextWay_eq hdiscovered, List.length_append, List.length_singleton,
      h.length_way key (h.isLeastPath_step hdiscovered).1]
  · -- Nodes of one entry differ in the last step, nodes of two entries before.
    rw [Discoveries.found, List.pairwise_flatMap]
    constructor
    · intro entry hentry
      refine ((hnext entry.1).sublist (sublist_of_mem_expandLayer hentry)).imp_of_mem ?_
      intro first second hfirst hsecond hlt
      rw [hway entry hentry first hfirst, hway entry hentry second hsecond, List.map_append,
        List.map_append]
      exact List.append_left_lt (List.cons_lt_cons_iff.2 (Or.inl hlt))
    · have hsorted := h.sorted
      have hkeys : Listing.keys (expandLayer next visited layer) = layer :=
        keys_expandLayer visited layer
      rw [← hkeys] at hsorted
      refine (List.pairwise_map.1 hsorted).imp_of_mem ?_
      intro first second hfirst hsecond hlt node hnode other hother
      rw [hway first hfirst node hnode, hway second hsecond other hother, List.map_append,
        List.map_append]
      refine append_lt_append ?_ hlt _ _
      rw [List.length_map, List.length_map, h.length_way _ (hkey first hfirst),
        h.length_way _ (hkey second hsecond)]

/-- What a search finds behind a layer it finds along the least path. -/
theorem IsRankedLayer.exists_leads (hnext : ∀ node, (next node).Pairwise (rank · < rank ·))
    (h : IsRankedLayer next rank start depth visited layer way) (count : Nat) {node : Nat}
    (hnode : node ∈ (expandLayers next visited layer count).found) :
    ∃ key ∈ layer, ∃ tail, tail.length ≤ count ∧
      IsLeastPath (IsNeighbour next) rank start node (way key ++ tail) ∧
      (expandLayers next visited layer count).Leads key node tail := by
  induction count generalizing depth visited layer way with
  | zero => simp [expandLayers, Discoveries.found] at hnode
  | succ count ih =>
    have hstep := h.step hnext
    have hlater : ∀ other ∈ (expandLayers next
          (visited ++ (expandLayer next visited layer).found)
          (expandLayer next visited layer).found count).found,
        other ∉ (expandLayer next visited layer).found := by
      intro other hother hin
      have hlayer := hstep.toIsLayer
      have hnew := ((hlayer.mem_found_expandLayers (nodup_of_ranked hnext) count).1 hother).2
      exact hnew (h.mem_found.1 hin).1
    have hdiscovered : ∀ other key,
        (expandLayer next visited layer).discoverer? other = some key →
          (expandLayers next visited layer (count + 1)).discoverer? other = some key := by
      intro other key hkey
      rw [discoverer?_expandLayers_succ, hkey, Option.some_or]
    rw [found_expandLayers_succ, List.mem_append] at hnode
    rcases hnode with hnode | hnode
    · obtain ⟨key, hkey⟩ := Discoveries.exists_discoverer hnode
      obtain ⟨hin, hleast⟩ := h.isLeastPath_step hkey
      exact ⟨key, hin, [node], by simp, hleast, .step .start (hdiscovered node key hkey)⟩
    · obtain ⟨middle, hmiddle, tail, hlength, hleast, hleads⟩ := ih hstep hnode
      obtain ⟨key, hkey⟩ := Discoveries.exists_discoverer hmiddle
      refine ⟨key, (h.isLeastPath_step hkey).1, middle :: tail, ?_, ?_, ?_⟩
      · rw [List.length_cons]
        omega
      · rw [nextWay_eq hkey, List.append_assoc] at hleast
        exact hleast
      · refine (hleads.mono ?_).head (hdiscovered middle key hkey)
        intro other otherKey hother
        have hnew := hlater other (Discoveries.mem_found_of_discoverer? hother)
        rw [discoverer?_expandLayers_succ, Discoveries.discoverer?_eq_none_iff.2 hnew,
          Option.none_or, hother]

/-- The way that a search found to a node is the least path to it. -/
theorem isLeastPath_pathTo (hnext : ∀ node, (next node).Pairwise (rank · < rank ·))
    {count node : Nat} (hnode : Within next start count node) :
    IsLeastPath (IsNeighbour next) rank start node
      ((breadthFirst next count start).pathTo node [] count) := by
  have hfound : ∀ other, other ∈ (breadthFirst next count start).found ↔
      Within next start count other ∧ other ≠ start :=
    fun _ => mem_found_breadthFirst (nodup_of_ranked hnext) count
  have hstart : (breadthFirst next count start).discoverer? start = none :=
    Discoveries.discoverer?_eq_none_iff.2 fun hin => ((hfound start).1 hin).2 rfl
  by_cases heq : node = start
  · rw [heq, Discoveries.pathTo_of_undiscovered hstart]
    exact isLeastPath_start _ rank start
  · obtain ⟨key, hkey, tail, hlength, hleast, hleads⟩ :=
      (isRankedLayer_start next rank start).exists_leads hnext count ((hfound node).2 ⟨hnode, heq⟩)
    rw [List.mem_singleton] at hkey
    subst hkey
    have hpath := hleads.pathTo [] (count - tail.length)
    rw [Nat.add_sub_cancel' hlength, ← breadthFirst, Discoveries.pathTo_of_undiscovered hstart,
      List.append_nil] at hpath
    rw [hpath]
    exact hleast

end DocumentViews
