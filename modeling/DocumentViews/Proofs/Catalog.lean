import Mathlib
import DocumentViews.Catalog
import DocumentViews.Proofs.Graph.History
import DocumentViews.Proofs.Schema.Growth

/-!
Graphs of different names keep out of each other's way. A step acts on the
graph of its own name alone, so what is seen of a name along a run is what the
steps with that name make of it by themselves.
-/

namespace DocumentViews.Catalog

/-- Something done with a single graph: a call or a walk that may add to it, or
a look at it. -/
inductive Operation (β : Type) where
  | call (next : Graph.Call)
  | walk (fragment : Json) (name : String) (parent : Option Nat)
  | walkDocument (schema : Json) (name : String)
  | look (observe : Graph → β)

/-- What an operation returns. -/
inductive Outcome (β : Type) where
  | answered (answer : Graph.Answer)
  | walked (result : Except Schema.Error (Option Nat))
  | seen (value : β)

/-- A step of the host of a catalog. An operation opens the graph of its name
first, which creates it if need be. -/
inductive Step (β : Type) where
  | create (name : String)
  | operate (name : String) (operation : Operation β)
  | get (name : String)
  | remove (name : String)

/-- What a step returns. -/
inductive Result (β : Type) where
  | created
  | operated (outcome : Outcome β)
  | found (graph : Option Graph)
  | removed (graph : Option Graph)

variable {β : Type}

def Operation.run (graph : Graph) : Operation β → Graph × Outcome β
  | call next => (graph.call next).map id .answered
  | walk fragment name parent => (Schema.walk graph fragment name parent).map id .walked
  | walkDocument schema name => (Schema.walkDocument graph schema name).map id .walked
  | look observe => (graph, .seen (observe graph))

namespace Step

/-- The name of the graph that a step is about. -/
def name : Step β → String
  | create name => name
  | operate name _ => name
  | get name => name
  | remove name => name

/-- Whether there is a graph of the name after the step in any case. -/
def Creates (key : String) : Step β → Prop
  | create name => name = key
  | operate name _ => name = key
  | get _ => False
  | remove _ => False

def Removes (key : String) : Step β → Prop
  | create _ => False
  | operate _ _ => False
  | get _ => False
  | remove name => name = key

/-- What a step makes of the graph of its name, and its result. -/
def act (graph : Option Graph) : Step β → Option Graph × Result β
  | create name => (some (graph.getD (.empty name)), .created)
  | operate name operation => (operation.run (graph.getD (.empty name))).map some .operated
  | get _ => (graph, .found graph)
  | remove _ => (none, .removed graph)

end Step

def step (catalog : Catalog) : Step β → Catalog × Result β
  | .create name => (catalog.openGraph name, .created)
  | .operate name operation => (catalog.update name operation.run).map id .operated
  | .get name => (catalog, .found (catalog.find? name))
  | .remove name => (catalog.remove name).map id .removed

/-- The catalog after steps from an empty one. -/
def run (steps : List (Step β)) : Catalog :=
  steps.foldl (fun catalog next => (catalog.step next).1) []

/-- What is seen of a name along steps: the result of each step with the name,
and the graph that it leaves. -/
def observed (name : String) (catalog : Catalog) : List (Step β) → List (Result β × Option Graph)
  | [] => []
  | next :: rest =>
    let (after, result) := catalog.step next
    if next.name = name then (result, after.find? name) :: observed name after rest
    else observed name after rest

variable {catalog : Catalog} {name : String}

theorem Operation.name_run (graph : Graph) (operation : Operation β) :
    (operation.run graph).1.name = graph.name := by
  have hkept : Schema.IsKept fun other => other.name = graph.name :=
    fun other node parent attributes h => (Graph.name_add other node parent attributes).trans h
  cases operation with
  | call next =>
    cases next with
    | addNode node => exact Graph.name_addNode graph node
    | addEdge parent child attributes => exact Graph.name_addEdge graph parent child attributes
    | add node parent attributes => exact Graph.name_add graph node parent attributes
  | walk fragment name parent => exact hkept.walkFragment rfl fragment name (some name) parent
  | walkDocument schema name => exact hkept.walkFragment rfl schema name (some name) none
  | look observe => rfl

/-- A step does to the graph of its name what it does by itself. -/
theorem step_eq_act (h : catalog.Ascending) (next : Step β) :
    ((catalog.step next).1.find? next.name, (catalog.step next).2) =
      next.act (catalog.find? next.name) := by
  cases next with
  | create key => exact Prod.ext ((Members.find?_insert _ _ _ _).trans (if_pos rfl)) rfl
  | operate key operation =>
    exact Prod.ext ((Members.find?_insert _ _ _ _).trans (if_pos rfl)) rfl
  | get key => rfl
  | remove key => exact Prod.ext ((Members.find?_erase h _ _).trans (if_pos rfl)) rfl

/-- Graphs of other names stay as they are. -/
theorem find?_step_of_ne (h : catalog.Ascending) {next : Step β} (hne : next.name ≠ name) :
    (catalog.step next).1.find? name = catalog.find? name := by
  cases next with
  | create key => exact (Members.find?_insert _ _ _ _).trans (if_neg hne.symm)
  | operate key operation => exact (Members.find?_insert _ _ _ _).trans (if_neg hne.symm)
  | get key => rfl
  | remove key => exact (Members.find?_erase h _ _).trans (if_neg hne.symm)

/-- A catalog lists each name once and each graph under its own name. -/
structure IsSound (catalog : Catalog) : Prop where
  ascending : catalog.Ascending
  name_eq : ∀ entry ∈ catalog, entry.2.name = entry.1

theorem isSound_nil : IsSound [] where
  ascending := Members.ascending_nil
  name_eq := by simp

namespace IsSound

theorem name_graph (h : catalog.IsSound) (key : String) : (catalog.graph key).name = key := by
  rw [graph]
  cases hfind : catalog.find? key with
  | none => rfl
  | some graph => exact h.name_eq _ (Members.mem_of_find?_eq_some hfind)

theorem insert (h : catalog.IsSound) {key : String} {graph : Graph} (hname : graph.name = key) :
    IsSound (Members.insert catalog key graph) where
  ascending := Members.ascending_insert h.ascending key graph
  name_eq := by
    intro entry hentry
    rcases (Members.mem_insert h.ascending key graph entry).1 hentry with rfl | ⟨hentry, -⟩
    · exact hname
    · exact h.name_eq entry hentry

theorem step (h : catalog.IsSound) (next : Step β) : (catalog.step next).1.IsSound := by
  cases next with
  | create key => exact h.insert (h.name_graph key)
  | operate key operation =>
    exact h.insert ((operation.name_run (catalog.graph key)).trans (h.name_graph key))
  | get key => exact h
  | remove key =>
    exact ⟨Members.ascending_erase h.ascending key,
      fun entry hentry => h.name_eq entry ((Members.erase_sublist catalog key).subset hentry)⟩

end IsSound

theorem run_concat (steps : List (Step β)) (next : Step β) :
    run (steps ++ [next]) = ((run steps).step next).1 :=
  List.foldl_concat ..

theorem isSound_run (steps : List (Step β)) : (run steps).IsSound := by
  induction steps using List.reverseRecOn with
  | nil => exact isSound_nil
  | append_singleton steps next ih => exact run_concat steps next ▸ ih.step next

/-- Where catalogs agree on the name of a step, it does the same in both. -/
theorem step_congr {other : Catalog} (h : catalog.IsSound) (hother : other.IsSound)
    {next : Step β} (hsame : catalog.find? next.name = other.find? next.name) :
    (catalog.step next).1.find? next.name = (other.step next).1.find? next.name ∧
      (catalog.step next).2 = (other.step next).2 := by
  have hact := step_eq_act h.ascending next
  rw [hsame, ← step_eq_act hother.ascending next] at hact
  exact Prod.mk.inj hact

/-- Catalogs that agree on a name show the same of it along steps, whether or
not the steps with other names are taken. -/
theorem observed_filter {other : Catalog} (h : catalog.IsSound) (hother : other.IsSound)
    (hsame : catalog.find? name = other.find? name) (steps : List (Step β)) :
    observed name catalog steps = observed name other (steps.filter (·.name = name)) := by
  induction steps generalizing catalog other with
  | nil => rfl
  | cons next rest ih =>
    by_cases hname : next.name = name
    · subst hname
      obtain ⟨hgraph, hresult⟩ := step_congr h hother hsame
      rw [List.filter_cons_of_pos (by simp)]
      simp only [observed, if_true]
      rw [hgraph, hresult, ih (h.step next) (hother.step next) hgraph]
    · rw [List.filter_cons_of_neg (by simpa using hname)]
      simp only [observed, if_neg hname]
      exact ih (h.step next) hother ((find?_step_of_ne h.ascending hname).trans hsame)

/-- The graph of a name after steps is the one after the steps with the name. -/
theorem find?_run_filter (steps : List (Step β)) (name : String) :
    (run steps).find? name = (run (steps.filter (·.name = name))).find? name := by
  induction steps using List.reverseRecOn with
  | nil => rfl
  | append_singleton steps next ih =>
    rw [List.filter_append, run_concat]
    by_cases hname : next.name = name
    · subst hname
      rw [List.filter_cons_of_pos (by simp), List.filter_nil, run_concat]
      exact (step_congr (isSound_run steps) (isSound_run _) ih).1
    · rw [List.filter_cons_of_neg (by simpa using hname), List.filter_nil, List.append_nil,
        find?_step_of_ne (isSound_run steps).ascending hname, ih]

/-- A name is in use: a step creates its graph, and none behind removes it. -/
def IsInUse (name : String) (steps : List (Step β)) : Prop :=
  ∃ before next after, steps = before ++ next :: after ∧ next.Creates name ∧
    ∀ later ∈ after, ¬ later.Removes name

theorem isInUse_concat {steps : List (Step β)} {next : Step β} :
    IsInUse name (steps ++ [next]) ↔
      next.Creates name ∨ IsInUse name steps ∧ ¬ next.Removes name := by
  constructor
  · rintro ⟨before, creating, after, heq, hcreates, hkept⟩
    rcases List.eq_nil_or_concat' after with rfl | ⟨after, last, rfl⟩
    · obtain ⟨-, hlast⟩ := List.append_inj' heq rfl
      exact Or.inl (List.singleton_inj.1 hlast ▸ hcreates)
    · rw [← List.cons_append, ← List.append_assoc] at heq
      obtain ⟨hsteps, hlast⟩ := List.append_inj' heq rfl
      refine Or.inr ⟨⟨before, creating, after, hsteps, hcreates, fun later hlater => ?_⟩, ?_⟩
      · exact hkept later (List.mem_append_left _ hlater)
      · exact List.singleton_inj.1 hlast ▸ hkept last (by simp)
  · rintro (hcreates | ⟨⟨before, creating, after, rfl, hcreates, hkept⟩, hnext⟩)
    · exact ⟨steps, next, [], rfl, hcreates, by simp⟩
    · refine ⟨before, creating, after ++ [next], by simp, hcreates, ?_⟩
      exact List.forall_mem_append.2 ⟨hkept, by simpa using hnext⟩

theorem Step.Creates.name_eq {next : Step β} (h : next.Creates name) : next.name = name := by
  cases next with
  | create key => exact h
  | operate key operation => exact h
  | get key => exact h.elim
  | remove key => exact h.elim

theorem Step.Removes.name_eq {next : Step β} (h : next.Removes name) : next.name = name := by
  cases next with
  | create key => exact h.elim
  | operate key operation => exact h.elim
  | get key => exact h.elim
  | remove key => exact h

theorem isSome_find?_step (h : catalog.Ascending) (next : Step β) :
    ((catalog.step next).1.find? name).isSome ↔
      next.Creates name ∨ (catalog.find? name).isSome ∧ ¬ next.Removes name := by
  by_cases hname : next.name = name
  · subst hname
    have hgraph := congrArg Prod.fst (step_eq_act h next)
    simp only at hgraph
    rw [hgraph]
    cases next <;> simp [Step.act, Step.Creates, Step.Removes, Step.name]
  · have hcreates : ¬ next.Creates name := fun hcreates => hname hcreates.name_eq
    have hremoves : ¬ next.Removes name := fun hremoves => hname hremoves.name_eq
    simp [find?_step_of_ne h hname, hcreates, hremoves]

theorem mem_keys_run {steps : List (Step β)} : name ∈ (run steps).keys ↔ IsInUse name steps := by
  induction steps using List.reverseRecOn with
  | nil => simp [run, Members.keys, IsInUse]
  | append_singleton steps next ih =>
    rw [run_concat, Members.mem_keys_iff, isSome_find?_step (isSound_run steps).ascending,
      isInUse_concat, ← ih, Members.mem_keys_iff]

theorem not_isInUse_of_removed {before between : List (Step β)}
    (h : ∀ next ∈ between, ¬ next.Creates name) :
    ¬ IsInUse name (before ++ .remove name :: between) := by
  induction between using List.reverseRecOn with
  | nil =>
    rw [isInUse_concat]
    simp [Step.Creates, Step.Removes]
  | append_singleton between next ih =>
    rw [← List.cons_append, ← List.append_assoc, isInUse_concat]
    obtain ⟨hbetween, hnext⟩ := List.forall_mem_append.1 h
    have hunused := ih hbetween
    simpa [hunused] using hnext

/-- A name that is not in use starts from an empty graph. -/
theorem graph_run {steps : List (Step β)} (h : ¬ IsInUse name steps) :
    (run steps).graph name = .empty name := by
  rw [← mem_keys_run, Members.mem_keys_iff, Option.not_isSome_iff_eq_none] at h
  rw [graph, h, Option.getD_none]

theorem step_operate {graph : Graph} (h : catalog.graph name = graph) (operation : Operation β) :
    (catalog.step (.operate name operation)).2 = .operated (operation.run graph).2 ∧
      (catalog.step (.operate name operation)).1.find? name = some (operation.run graph).1 := by
  subst h
  exact ⟨rfl, (Members.find?_insert _ _ _ _).trans (if_pos rfl)⟩

/-- Graphs of different names do not meddle with each other. What is seen of a
name is what its own steps make of it, the names in use are listed in ascending
order, each graph bears the name that it is listed under, and a name that was
removed starts anew. -/
theorem run_apart (steps : List (Step β)) (name : String) :
    (observed name [] steps = observed name [] (steps.filter (·.name = name)) ∧
      (run steps).find? name = (run (steps.filter (·.name = name))).find? name) ∧
    ((run steps).keys.Pairwise (· < ·) ∧ ∀ key, key ∈ (run steps).keys ↔ IsInUse key steps) ∧
    (∀ entry ∈ run steps, entry.2.name = entry.1) ∧
    ∀ before between, steps = before ++ .remove name :: between →
      (∀ next ∈ between, ¬ next.Creates name) →
        ((run steps).openGraph name).find? name = some (.empty name) ∧
        ∀ operation : Operation β,
          ((run steps).step (.operate name operation)).2 =
            .operated (operation.run (.empty name)).2 ∧
          ((run steps).step (.operate name operation)).1.find? name =
            some (operation.run (.empty name)).1 := by
  have hsound := isSound_run steps
  refine ⟨⟨observed_filter isSound_nil isSound_nil rfl steps, find?_run_filter steps name⟩,
    ⟨hsound.ascending, fun key => mem_keys_run⟩, hsound.name_eq, ?_⟩
  rintro before between rfl hbetween
  have hempty : (run (before ++ .remove name :: between)).graph name = .empty name :=
    graph_run (not_isInUse_of_removed hbetween)
  refine ⟨?_, step_operate hempty⟩
  rw [openGraph, Members.find?_insert, if_pos rfl, hempty]

/-- One graph is walked, removed and opened again, and the walk of another one
fails. -/
theorem run_apart_reopened :
    let schema : Json := .obj [("$schema", .str "x"),
      ("properties", .obj [("a", .obj [("type", .str "string")])])]
    let before : List (Step Nat) := [.operate "first" (.walkDocument schema "root"),
      .operate "second" (.walkDocument (.obj []) "root")]
    let between : List (Step Nat) := [.get "second", .get "first"]
    let steps := before ++ .remove "first" :: between
    let count : Operation Nat := .look fun graph => graph.nodes.length
    (∀ next ∈ between, ¬ next.Creates "first") ∧ (run steps).keys = ["second"] ∧
      observed "second" [] steps = observed "second" [] [before[1], .get "second"] ∧
      ((run steps).step (.operate "first" count)).2 = .operated (.seen 0) := by
  intro schema before between steps count
  have hbetween : ∀ next ∈ between, ¬ next.Creates "first" := by
    simp [between, Step.Creates]
  obtain ⟨-, -, -, hanew⟩ := run_apart steps "first"
  obtain ⟨⟨hobserved, -⟩, -, -, -⟩ := run_apart steps "second"
  exact ⟨hbetween, rfl, hobserved, ((hanew before between rfl hbetween).2 count).1⟩

end DocumentViews.Catalog
