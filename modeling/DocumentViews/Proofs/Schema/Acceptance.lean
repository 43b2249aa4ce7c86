import Mathlib
import DocumentViews.Proofs.Schema.Offense
import DocumentViews.Proofs.Schema.Registration
import DocumentViews.Proofs.Schema.Preorder

/-!
The walk accepts the grammar of schema fragments and nothing else, on every
graph. When it fails, its error is the first offense in the fragment: outer
fragments come before their parts, and properties in ascending order of their
keys.
-/

namespace DocumentViews.Schema

theorem exists_map_eq_ok_iff {ε α β : Type} {result : Except ε α} {change : α → β} :
    (∃ value, result.map change = .ok value) ↔ ∃ value, result = .ok value := by
  cases result with
  | error error => simp [Except.map]
  | ok value => simp [Except.map]

theorem map_eq_error_iff {ε α β : Type} {result : Except ε α} {change : α → β} {error : ε} :
    result.map change = .error error ↔ result = .error error := by
  cases result with
  | error error => simp [Except.map]
  | ok value => simp [Except.map]

theorem attachColumn_ok_iff (graph : Graph) (name : String) (key : Option String)
    (type : ScalarType) (parent : Option Nat) (label : String) :
    (∃ node, (attachColumn graph name key type parent label).2 = .ok node) ↔
      parent.isSome = true := by
  cases parent with
  | none => simp [attachColumn]
  | some parent => simp [attachColumn]

theorem acceptsParts_cons {key : String} {property : Json} {rest : Json.Object} :
    AcceptsParts ((key, property) :: rest) ↔
      (property.text? "type" ≠ some "null" → Accepts true property) ∧ AcceptsParts rest :=
  List.forall_mem_cons

mutual

/-- The walk ends well on accepted fragments, whatever the graph holds. -/
theorem walkFragment_ok_iff (graph : Graph) (fragment : Json) (name : String)
    (key : Option String) (parent : Option Nat) :
    (∃ node, (walkFragment graph fragment name key parent).2 = .ok node) ↔
      Accepts parent.isSome fragment := by
  rw [walkFragment_eq]
  split
  · next hvoid =>
    exact iff_of_false (by simp) fun h => h.not_isNothing (Json.isVoid_iff.1 hvoid)
  · rw [accepts_iff]
    cases hkind : classify fragment with
    | error rejection => simp
    | ok kind =>
      have hsize := sizeOf_of_classify hkind
      simp only [Except.ok.injEq, exists_eq_left']
      cases kind with
      | top object =>
        have := hsize.1 object rfl
        exact walkObject_ok_iff graph object.properties name key parent
      | nested object =>
        have := hsize.1 object rfl
        exact walkObject_ok_iff graph object.properties name key parent
      | array array =>
        have := hsize.2 array rfl
        cases parent with
        | none => simp [walkKind, AcceptsKind]
        | some parent =>
          have hitems := walkFragment_ok_iff (attachTable graph name key (some parent)).1
            array.items (array.itemTitle?.getD name) none
            (some (attachTable graph name key (some parent)).2)
          simp only [walkKind, AcceptsKind, Option.isSome_some, true_and, exists_map_eq_ok_iff]
          exact hitems
      | scalar type => exact attachColumn_ok_iff graph name key type parent _
      | boundedNumber => exact attachColumn_ok_iff graph name key .number parent _
termination_by 2 * sizeOf fragment

theorem walkObject_ok_iff (graph : Graph) (properties : Json.Object) (name : String)
    (key : Option String) (parent : Option Nat) :
    (∃ node, (walkObject graph properties name key parent).2 = .ok node) ↔
      AcceptsParts properties := by
  rw [walkObject_eq]
  split
  · next hempty =>
    rw [List.isEmpty_iff.1 hempty]
    simp [AcceptsParts]
  · simp only [exists_map_eq_ok_iff]
    exact walkProperties_ok_iff _ properties _
termination_by 2 * sizeOf properties + 1

theorem walkProperties_ok_iff (graph : Graph) (properties : Json.Object) (table : Nat) :
    (∃ done, (walkProperties graph properties table).2 = .ok done) ↔ AcceptsParts properties := by
  cases properties with
  | nil => simp [walkProperties, AcceptsParts]
  | cons entry rest =>
    obtain ⟨key, property⟩ := entry
    rw [walkProperties_cons, acceptsParts_cons]
    split
    · next htype =>
      rw [walkProperties_ok_iff graph rest table]
      simp [htype]
    · next htype =>
      have hproperty := walkFragment_ok_iff graph property key (some key) (some table)
      have hrest := walkProperties_ok_iff
        (walkFragment graph property key (some key) (some table)).1 rest table
      simp only
      cases hresult : (walkFragment graph property key (some key) (some table)).2 with
      | error error =>
        have hnot : ¬ Accepts true property := fun h => by
          obtain ⟨node, hnode⟩ := hproperty.2 h
          rw [hresult] at hnode
          nomatch hnode
        exact iff_of_false (by simp) fun h => hnot (h.1 htype)
      | ok node =>
        have haccepts : Accepts true property := hproperty.1 ⟨node, hresult⟩
        exact hrest.trans ⟨fun h => ⟨fun _ => haccepts, h⟩, And.right⟩
termination_by 2 * sizeOf properties
decreasing_by
  all_goals
    simp only [List.cons.sizeOf_spec, Prod.mk.sizeOf_spec]
    omega

end

/-- The first offense in properties is in the first one, or that one is
accepted or of type null and the offense is in the rest. -/
theorem offenseInParts_cons {key : String} {property : Json} {rest : Json.Object} {error : Error}
    (hascending : Members.Ascending ((key, property) :: rest)) :
    OffenseInParts ((key, property) :: rest) error ↔
      (property.text? "type" ≠ some "null" ∧ FirstOffense key true property error) ∨
        ((property.text? "type" ≠ some "null" → Accepts true property) ∧
          OffenseInParts rest error) := by
  obtain ⟨hkeys, -⟩ := Members.ascending_cons.1 hascending
  constructor
  · rintro ⟨other, part, hpart, hbefore, htype, hoffense⟩
    rcases List.mem_cons.1 hpart with heq | hpart
    · obtain ⟨rfl, rfl⟩ := Prod.mk.inj heq
      exact Or.inl ⟨htype, hoffense⟩
    · have hlt : key < other := hkeys other (List.mem_map_of_mem hpart)
      refine Or.inr ⟨hbefore _ List.mem_cons_self hlt, other, part, hpart, ?_, htype, hoffense⟩
      exact fun entry hentry => hbefore entry (List.mem_cons_of_mem _ hentry)
  · rintro (⟨htype, hoffense⟩ | ⟨haccepts, other, part, hpart, hbefore, htype, hoffense⟩)
    · refine ⟨key, property, List.mem_cons_self, fun entry hentry hlt => ?_, htype, hoffense⟩
      rcases List.mem_cons.1 hentry with rfl | hentry
      · exact absurd hlt (lt_irrefl _)
      · exact absurd hlt (hkeys entry.1 (List.mem_map_of_mem hentry)).asymm
    · refine ⟨other, part, List.mem_cons_of_mem _ hpart, fun entry hentry hlt => ?_, htype,
        hoffense⟩
      rcases List.mem_cons.1 hentry with rfl | hentry
      · exact haccepts
      · exact hbefore entry hentry hlt

theorem attachColumn_error_iff (graph : Graph) (name : String) (key : Option String)
    (type : ScalarType) (parent : Option Nat) (label : String) (error : Error) :
    (attachColumn graph name key type parent label).2 = .error error ↔
      parent.isSome = false ∧ error = .orphan name label := by
  cases parent with
  | none => simp [attachColumn, eq_comm]
  | some parent => simp [attachColumn]

mutual

/-- A walk that fails returns the first offense, whatever the graph holds. -/
theorem walkFragment_error_iff (graph : Graph) {fragment : Json} (hordered : fragment.IsOrdered)
    (name : String) (key : Option String) (parent : Option Nat) (error : Error) :
    (walkFragment graph fragment name key parent).2 = .error error ↔
      FirstOffense name parent.isSome fragment error := by
  rw [walkFragment_eq, firstOffense_iff]
  split
  · simp [eq_comm]
  · cases hkind : classify fragment with
    | error rejection => simp [OffenseInResult, eq_comm]
    | ok kind =>
      have hsize := sizeOf_of_classify hkind
      have hparts := isOrdered_of_classify hordered hkind
      cases kind with
      | top object =>
        have := hsize.1 object rfl
        exact walkObject_error_iff graph (hparts.1 object rfl) name key parent error
      | nested object =>
        have := hsize.1 object rfl
        exact walkObject_error_iff graph (hparts.1 object rfl) name key parent error
      | array array =>
        have := hsize.2 array rfl
        cases parent with
        | none => simp [walkKind, OffenseInResult, OffenseInKind, eq_comm]
        | some parent =>
          have hitems := walkFragment_error_iff (attachTable graph name key (some parent)).1
            (hparts.2 array rfl) (array.itemTitle?.getD name) none
            (some (attachTable graph name key (some parent)).2) error
          simp only [walkKind, map_eq_error_iff]
          exact hitems
      | scalar type => exact attachColumn_error_iff graph name key type parent _ error
      | boundedNumber => exact attachColumn_error_iff graph name key .number parent _ error
termination_by 2 * sizeOf fragment

theorem walkObject_error_iff (graph : Graph) {properties : Json.Object}
    (hordered : properties.IsOrdered) (name : String) (key : Option String) (parent : Option Nat)
    (error : Error) :
    (walkObject graph properties name key parent).2 = .error error ↔
      OffenseInParts properties error := by
  rw [walkObject_eq]
  split
  · next hempty =>
    rw [List.isEmpty_iff.1 hempty]
    simp [OffenseInParts]
  · simp only [map_eq_error_iff]
    exact walkProperties_error_iff _ hordered _ error
termination_by 2 * sizeOf properties + 1

theorem walkProperties_error_iff (graph : Graph) {properties : Json.Object}
    (hordered : properties.IsOrdered) (table : Nat) (error : Error) :
    (walkProperties graph properties table).2 = .error error ↔
      OffenseInParts properties error := by
  match properties, hordered with
  | [], _ => simp [walkProperties, OffenseInParts]
  | (key, property) :: rest, hordered =>
    obtain ⟨-, hascending⟩ := Members.ascending_cons.1 hordered.ascending
    have hinside : Json.Object.IsOrdered rest :=
      ⟨hascending, fun entry hentry => hordered.inside entry (List.mem_cons_of_mem _ hentry)⟩
    rw [walkProperties_cons, offenseInParts_cons hordered.ascending]
    split
    · next htype =>
      rw [walkProperties_error_iff graph hinside table error]
      simp [htype]
    · next htype =>
      have hok := walkFragment_ok_iff graph property key (some key) (some table)
      have hproperty := walkFragment_error_iff graph
        (hordered.inside (key, property) List.mem_cons_self) key (some key) (some table) error
      have hrest := walkProperties_error_iff
        (walkFragment graph property key (some key) (some table)).1 hinside table error
      simp only
      cases hresult : (walkFragment graph property key (some key) (some table)).2 with
      | error found =>
        rw [hresult] at hok hproperty
        rw [Except.error.injEq] at hproperty
        change (Except.error found : Except Error Unit) = .error error ↔ _
        rw [Except.error.injEq, hproperty]
        constructor
        · exact fun hoffense => Or.inl ⟨htype, hoffense⟩
        · rintro (⟨-, hoffense⟩ | ⟨haccepts, -⟩)
          · exact hoffense
          · obtain ⟨node, hnode⟩ := hok.2 (haccepts htype)
            nomatch hnode
      | ok node =>
        rw [hresult] at hok hproperty
        refine hrest.trans ⟨fun h => Or.inr ⟨fun _ => hok.1 ⟨node, rfl⟩, h⟩, ?_⟩
        rintro (⟨-, hoffense⟩ | ⟨-, hoffense⟩)
        · nomatch hproperty.2 hoffense
        · exact hoffense
termination_by 2 * sizeOf properties

end

/-- A walk accepts the fragments of the grammar, whatever the graph holds. On
all others it fails with the first offense. -/
theorem walk_grammar (graph : Graph) (fragment : Json) (name : String) (parent : Option Nat) :
    ((∃ node, (walk graph fragment name parent).2 = .ok node) ↔
      Accepts parent.isSome fragment) ∧
    (fragment.IsOrdered → ∀ error, (walk graph fragment name parent).2 = .error error ↔
      FirstOffense name parent.isSome fragment error) :=
  ⟨walkFragment_ok_iff graph fragment name (some name) parent,
    fun hordered => walkFragment_error_iff graph hordered name (some name) parent⟩

/-- An object with three properties. The first is of type null, whatever else it
holds. The items of the second are of no kind, and the third is empty. -/
def faultyFragment : Json :=
  .obj [("properties", .obj [
    ("a", .obj [("properties", .null), ("type", .str "null")]),
    ("b", .obj [("items", .obj [("title", .str "x"), ("type", .str "date")]),
      ("type", .str "array")]),
    ("c", .null)])]

theorem isOrdered_faultyFragment : faultyFragment.IsOrdered := by
  have hpair : ∀ {first second : String} {value other : Json}, first < second →
      value.IsOrdered → other.IsOrdered → (Json.obj [(first, value), (second, other)]).IsOrdered :=
    fun hlt hvalue hother => .obj _ (List.pairwise_pair.2 hlt) fun entry hentry => by
      rcases List.mem_pair.1 hentry with rfl | rfl
      · exact hvalue
      · exact hother
  have hitems := hpair (by decide : "title" < "type") (.str "x") (.str "date")
  refine .obj _ (List.pairwise_singleton _ _) (List.forall_mem_singleton.2 ?_)
  refine .obj _ (show ["a", "b", "c"].Pairwise (· < ·) by decide) ?_
  simp only [List.forall_mem_cons]
  exact ⟨hpair (by decide) .null (.str "null"), hpair (by decide) hitems (.str "array"), .null,
    fun entry hentry => by simp at hentry⟩

/-- The walk passes over the first property and stops in the second. -/
theorem walk_grammar_faultyFragment :
    faultyFragment.IsOrdered ∧
      (∀ error, (walk (Graph.empty "g") faultyFragment "root" none).2 = .error error ↔
        FirstOffense "root" false faultyFragment error) ∧
      (walk (Graph.empty "g") faultyFragment "root" none).2 =
        .error (.rejected "x" (.unsupported (some (.str "date")))) := by
  have herror := (walk_grammar (Graph.empty "g") faultyFragment "root" none).2
    isOrdered_faultyFragment
  refine ⟨isOrdered_faultyFragment, herror, (herror _).2 ?_⟩
  refine .property false (fun h => ?_) rfl (List.mem_cons_of_mem _ List.mem_cons_self) ?_
    (by decide) ?_
  · obtain ⟨first, second, hrequired⟩ := h.required
    nomatch hrequired
  · intro entry hentry hlt htype
    simp only [List.mem_cons, List.not_mem_nil, or_false] at hentry
    rcases hentry with rfl | rfl | rfl
    · exact absurd rfl htype
    · exact absurd hlt (lt_irrefl _)
    · exact absurd hlt (by decide)
  · refine .items rfl rfl rfl (.here ?_)
    exact .unsupported true (by simp) rfl (by decide)

end DocumentViews.Schema
