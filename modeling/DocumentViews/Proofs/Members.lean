import Mathlib
import DocumentViews.Members

/-!
The laws of finite maps from names. Inserting keeps the names in ascending
order, and afterwards a name has the value that was inserted for it and every
other name the value that it had before.
-/

namespace DocumentViews.Members

variable {α : Type}

instance (members : Members α) : Decidable members.Ascending :=
  inferInstanceAs (Decidable (List.Pairwise _ _))

theorem mem_keys_insert (members : Members α) (key : String) (value : α) (name : String) :
    name ∈ (members.insert key value).keys ↔ name = key ∨ name ∈ members.keys := by
  induction members with
  | nil => simp [insert, keys]
  | cons entry rest ih =>
    obtain ⟨k, v⟩ := entry
    simp only [insert]
    split
    · simp [keys]
    · split
      · next h =>
        subst h
        simp [keys]
      · simp only [keys, List.map_cons, List.mem_cons] at ih ⊢
        rw [ih]
        tauto

theorem ascending_nil : Ascending ([] : Members α) :=
  List.Pairwise.nil

theorem ascending_cons {key : String} {value : α} {rest : Members α} :
    Ascending ((key, value) :: rest) ↔ (∀ name ∈ rest.keys, key < name) ∧ rest.Ascending := by
  simp only [Ascending, keys, List.map_cons, List.pairwise_cons]

theorem ascending_insert {members : Members α} (h : members.Ascending) (key : String)
    (value : α) : (members.insert key value).Ascending := by
  induction members with
  | nil => simp [insert, Ascending, keys]
  | cons entry rest ih =>
    obtain ⟨k, v⟩ := entry
    obtain ⟨hk, hrest⟩ := ascending_cons.1 h
    simp only [insert]
    split
    · next hlt =>
      refine ascending_cons.2 ⟨fun name hname => ?_, h⟩
      rcases List.mem_cons.1 hname with rfl | hname
      · exact hlt
      · exact lt_trans hlt (hk name hname)
    · next hlt =>
      split
      · next heq => exact ascending_cons.2 ⟨heq ▸ hk, hrest⟩
      · next hne =>
        refine ascending_cons.2 ⟨fun name hname => ?_, ih hrest⟩
        rcases (mem_keys_insert rest key value name).1 hname with rfl | hname
        · exact lt_of_le_of_ne (not_lt.1 hlt) (Ne.symm hne)
        · exact hk name hname

/-- Inserting replaces the entry of the name and keeps all others. -/
theorem mem_insert {members : Members α} (h : members.Ascending) (key : String) (value : α)
    (entry : String × α) :
    entry ∈ members.insert key value ↔ entry = (key, value) ∨ entry ∈ members ∧ entry.1 ≠ key := by
  induction members with
  | nil => simp [insert]
  | cons first rest ih =>
    obtain ⟨k, v⟩ := first
    obtain ⟨hk, hrest⟩ := ascending_cons.1 h
    have hlater : entry ∈ rest → k < entry.1 := fun hmem =>
      hk entry.1 (List.mem_map_of_mem hmem)
    simp only [insert]
    split
    · next hlt =>
      simp only [List.mem_cons]
      refine or_congr_right ⟨fun hmem => ⟨hmem, ?_⟩, And.left⟩
      rcases hmem with rfl | hmem
      · exact (ne_of_lt hlt).symm
      · exact (ne_of_lt (lt_trans hlt (hlater hmem))).symm
    · split
      · next heq =>
        subst heq
        simp only [List.mem_cons]
        constructor
        · intro heither
          rcases heither with rfl | hmem
          · exact Or.inl rfl
          · exact Or.inr ⟨Or.inr hmem, (ne_of_lt (hlater hmem)).symm⟩
        · intro heither
          rcases heither with rfl | ⟨rfl | hmem, hne⟩
          · exact Or.inl rfl
          · exact absurd rfl hne
          · exact Or.inr hmem
      · next hne =>
        simp only [List.mem_cons, ih hrest]
        constructor
        · intro heither
          rcases heither with rfl | rfl | ⟨hmem, hkey⟩
          · exact Or.inr ⟨Or.inl rfl, Ne.symm hne⟩
          · exact Or.inl rfl
          · exact Or.inr ⟨Or.inr hmem, hkey⟩
        · intro heither
          rcases heither with rfl | ⟨rfl | hmem, hkey⟩
          · exact Or.inr (Or.inl rfl)
          · exact Or.inl rfl
          · exact Or.inr (Or.inr ⟨hmem, hkey⟩)

/-- What is inserted last counts. -/
theorem insert_insert (members : Members α) (key : String) (first last : α) :
    (members.insert key first).insert key last = members.insert key last := by
  induction members with
  | nil => simp [insert]
  | cons entry rest ih =>
    obtain ⟨k, v⟩ := entry
    simp only [insert]
    split
    · simp [insert]
    · next hlt =>
      split
      · simp [insert]
      · next hne => simp only [insert, if_neg hlt, if_neg hne, ih]

theorem ascending_extend {members : Members α} (h : members.Ascending) (later : Members α) :
    (members.extend later).Ascending := by
  induction later generalizing members with
  | nil => exact h
  | cons entry rest ih => exact ih (ascending_insert h entry.1 entry.2)

theorem ascending_ofList (entries : List (String × α)) : (ofList entries).Ascending :=
  ascending_extend ascending_nil entries

/-- Entries with names of their own are all kept. -/
theorem mem_extend {members later : Members α} (h : members.Ascending)
    (hunique : ∀ first ∈ members ++ later, ∀ second ∈ later, first.1 = second.1 → first = second)
    (entry : String × α) : entry ∈ members.extend later ↔ entry ∈ members ∨ entry ∈ later := by
  induction later generalizing members with
  | nil => simp [extend]
  | cons next rest ih =>
    have hmem := mem_insert h next.1 next.2
    have hinsert : ∀ other,
        other ∈ members.insert next.1 next.2 ↔ other = next ∨ other ∈ members := by
      intro other
      rw [hmem other]
      constructor
      · intro heither
        rcases heither with rfl | ⟨hother, -⟩
        · exact Or.inl rfl
        · exact Or.inr hother
      · intro heither
        rcases heither with rfl | hother
        · exact Or.inl rfl
        · by_cases hkey : other.1 = next.1
          · exact Or.inl (hunique other (by simp [hother]) next (by simp) hkey)
          · exact Or.inr ⟨hother, hkey⟩
    have hrest := ih (ascending_insert h next.1 next.2) (by
      intro first hfirst second hsecond hkey
      refine hunique first ?_ second (List.mem_cons_of_mem _ hsecond) hkey
      rcases List.mem_append.1 hfirst with hfirst | hfirst
      · rcases (hinsert first).1 hfirst with rfl | hfirst
        · simp
        · simp [hfirst]
      · simp [hfirst])
    change entry ∈ (members.insert next.1 next.2).extend rest ↔ _
    rw [hrest, hinsert, List.mem_cons]
    tauto

theorem mem_ofList {entries : List (String × α)}
    (hunique : ∀ first ∈ entries, ∀ second ∈ entries, first.1 = second.1 → first = second)
    (entry : String × α) : entry ∈ ofList entries ↔ entry ∈ entries := by
  rw [ofList, mem_extend ascending_nil (by simpa using hunique)]
  simp

theorem mem_of_find?_eq_some {members : Members α} {key : String} {value : α}
    (h : members.find? key = some value) : (key, value) ∈ members := by
  induction members with
  | nil => simp [find?] at h
  | cons entry rest ih =>
    obtain ⟨k, v⟩ := entry
    simp only [find?] at h
    split at h
    · next heq =>
      rw [heq, ← Option.some.inj h]
      exact List.mem_cons_self
    · exact List.mem_cons_of_mem _ (ih h)

theorem find?_insert (members : Members α) (key : String) (value : α) (name : String) :
    (members.insert key value).find? name =
      if name = key then some value else members.find? name := by
  induction members with
  | nil => simp [insert, find?]
  | cons entry rest ih =>
    obtain ⟨k, v⟩ := entry
    simp only [insert]
    split
    · simp [find?]
    · split
      · next heq =>
        subst heq
        by_cases hname : name = key
        · simp [find?, hname]
        · simp [find?, hname]
      · next hne =>
        simp only [find?, ih]
        by_cases hname : name = k
        · rw [if_pos hname, if_pos hname, if_neg (hname ▸ Ne.symm hne)]
        · rw [if_neg hname, if_neg hname]

theorem find?_eq_none_of_lt {members : Members α} {key : String}
    (h : ∀ name ∈ members.keys, key < name) : members.find? key = none := by
  induction members with
  | nil => rfl
  | cons entry rest ih =>
    obtain ⟨hfirst, hrest⟩ := List.forall_mem_cons.1 h
    rw [find?, if_neg (ne_of_lt hfirst), ih hrest]

/-- The first name is the smallest that has a value. -/
theorem le_of_find?_eq_some {key name : String} {value found : α} {rest : Members α}
    (h : Ascending ((key, value) :: rest))
    (hfind : find? ((key, value) :: rest) name = some found) : key ≤ name := by
  by_contra hless
  have hname : name < key := not_le.1 hless
  have hbelow : ∀ other ∈ keys ((key, value) :: rest), name < other :=
    List.forall_mem_cons.2 ⟨hname, fun other hother =>
      hname.trans ((ascending_cons.1 h).1 other hother)⟩
  rw [find?_eq_none_of_lt hbelow] at hfind
  nomatch hfind

/-- Maps with the same values under all names are the same. -/
theorem eq_of_find? {first second : Members α} (hfirst : first.Ascending)
    (hsecond : second.Ascending) (h : ∀ name, first.find? name = second.find? name) :
    first = second := by
  induction first generalizing second with
  | nil =>
    cases second with
    | nil => rfl
    | cons entry rest => simpa [find?] using h entry.1
  | cons entry rest ih =>
    cases second with
    | nil => simpa [find?] using h entry.1
    | cons entry' rest' =>
      obtain ⟨key, value⟩ := entry
      obtain ⟨key', value'⟩ := entry'
      have hhead : find? ((key, value) :: rest) key = some value := if_pos rfl
      have hhead' : find? ((key', value') :: rest') key' = some value' := if_pos rfl
      obtain rfl : key = key' := le_antisymm
        (le_of_find?_eq_some hfirst ((h key').trans hhead'))
        (le_of_find?_eq_some hsecond ((h key).symm.trans hhead))
      obtain rfl : value = value' := by simpa [hhead, hhead'] using h key
      obtain ⟨hkey, hrest⟩ := ascending_cons.1 hfirst
      obtain ⟨hkey', hrest'⟩ := ascending_cons.1 hsecond
      congr 1
      apply ih hrest hrest'
      intro name
      by_cases hname : name = key
      · rw [hname, find?_eq_none_of_lt hkey, find?_eq_none_of_lt hkey']
      · simpa only [find?, if_neg hname] using h name

theorem insert_eq_append {members : Members α} {key : String}
    (h : ∀ name ∈ members.keys, name < key) (value : α) :
    members.insert key value = members ++ [(key, value)] := by
  induction members with
  | nil => rfl
  | cons entry rest ih =>
    obtain ⟨hfirst, hrest⟩ := List.forall_mem_cons.1 h
    rw [insert, if_neg (not_lt_of_gt hfirst), if_neg (ne_of_gt hfirst), ih hrest, List.cons_append]

theorem extend_nil {members : Members α} (h : members.Ascending) :
    extend [] members = members := by
  induction members using List.reverseRecOn with
  | nil => rfl
  | append_singleton members last ih =>
    rw [Ascending, keys, List.map_append, List.pairwise_append] at h
    obtain ⟨hmembers, -, hlast⟩ := h
    have hbefore : extend [] (members ++ [last]) = (extend [] members).insert last.1 last.2 := by
      rw [extend, List.foldl_append]
      rfl
    rw [hbefore, ih hmembers]
    exact insert_eq_append (fun name hname => hlast name hname last.1 List.mem_cons_self) last.2

theorem mem_keys_iff {members : Members α} {name : String} :
    name ∈ members.keys ↔ (members.find? name).isSome := by
  induction members with
  | nil => simp [keys, find?]
  | cons entry rest ih =>
    obtain ⟨key, value⟩ := entry
    change name ∈ key :: keys rest ↔ _
    rw [List.mem_cons, ih, find?]
    split
    · next hkey => simp [hkey]
    · next hkey => simp [hkey]

theorem erase_sublist (members : Members α) (key : String) :
    (members.erase key).Sublist members := by
  induction members with
  | nil => exact List.Sublist.refl _
  | cons entry rest ih =>
    obtain ⟨k, v⟩ := entry
    rw [erase]
    split
    · exact List.sublist_cons_self _ _
    · exact ih.cons_cons _

theorem ascending_erase {members : Members α} (h : members.Ascending) (key : String) :
    (members.erase key).Ascending :=
  List.Pairwise.sublist ((erase_sublist members key).map _) h

theorem find?_erase {members : Members α} (h : members.Ascending) (key name : String) :
    (members.erase key).find? name = if name = key then none else members.find? name := by
  induction members with
  | nil => simp [erase, find?]
  | cons entry rest ih =>
    obtain ⟨k, v⟩ := entry
    obtain ⟨hk, hrest⟩ := ascending_cons.1 h
    rw [erase]
    split
    · next hkey =>
      by_cases hname : name = key
      · rw [if_pos hname, find?_eq_none_of_lt fun other hother => hname ▸ hkey ▸ hk other hother]
      · rw [if_neg hname, find?, if_neg (hkey ▸ hname)]
    · next hkey =>
      by_cases hname : name = key
      · rw [find?, if_neg (hname ▸ hkey), ih hrest]
        simp only [if_pos hname]
      · rw [find?, find?, ih hrest, if_neg hname, if_neg hname]

/-- Several maps in one. Of the values of a name the last wins. -/
def union (maps : List (Members α)) : Members α :=
  maps.foldl extend []

end DocumentViews.Members
