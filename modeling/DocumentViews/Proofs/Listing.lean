import Mathlib
import DocumentViews.Listing

/-!
The laws of association lists and of first arrivals. First arrivals are the
members of a list, each once, in the order in which they first stand there, so
picking members before or after comes to the same, and so does renaming them
apart.
-/

namespace DocumentViews

variable {κ κ' : Type} [DecidableEq κ] [DecidableEq κ']

theorem Listing.mem_of_find?_eq_some {α : Type} {listing : Listing κ α}
    {key : κ} {value : α} (h : listing.find? key = some value) : (key, value) ∈ listing := by
  induction listing with
  | nil => simp [Listing.find?] at h
  | cons entry rest ih =>
    obtain ⟨k, v⟩ := entry
    simp only [Listing.find?] at h
    split at h
    · next heq =>
      rw [heq, ← Option.some.inj h]
      exact List.mem_cons_self
    · exact List.mem_cons_of_mem _ (ih h)

theorem Listing.find?_alter {α : Type} (listing : Listing κ α) (key : κ) (change : Option α → α)
    (other : κ) :
    (listing.alter key change).find? other =
      if other = key then some (change (listing.find? key)) else listing.find? other := by
  induction listing with
  | nil => simp [Listing.alter, Listing.find?]
  | cons entry rest ih =>
    obtain ⟨k, v⟩ := entry
    rw [Listing.alter]
    split
    · next heq =>
      subst heq
      by_cases hother : other = key
      · simp [Listing.find?, hother]
      · simp [Listing.find?, hother]
    · next hne =>
      rw [Listing.find?, Listing.find?, Listing.find?, if_neg hne, ih]
      by_cases hother : other = k
      · rw [if_pos hother, if_pos hother, if_neg (fun heq => hne (heq.symm.trans hother))]
      · rw [if_neg hother, if_neg hother]

theorem Listing.find?_put {α : Type} (listing : Listing κ α) (key : κ) (value : α) (other : κ) :
    (listing.put key value).find? other =
      if other = key then some value else listing.find? other :=
  listing.find?_alter key _ other

theorem firstArrivals_concat (items : List κ) (item : κ) :
    firstArrivals (items ++ [item]) =
      if item ∈ firstArrivals items then firstArrivals items
      else firstArrivals items ++ [item] := by
  simp only [firstArrivals, List.foldl_append, List.foldl_cons, List.foldl_nil]
  congr

theorem mem_firstArrivals {items : List κ} {item : κ} :
    item ∈ firstArrivals items ↔ item ∈ items := by
  induction items using List.reverseRecOn with
  | nil => rfl
  | append_singleton items last ih =>
    rw [firstArrivals_concat, List.mem_append, List.mem_singleton]
    split
    · next hlast =>
      rw [ih]
      refine ⟨Or.inl, ?_⟩
      intro heither
      rcases heither with h | rfl
      · exact h
      · exact ih.1 hlast
    · rw [List.mem_append, List.mem_singleton, ih]

theorem head?_firstArrivals (items : List κ) : (firstArrivals items).head? = items.head? := by
  induction items using List.reverseRecOn with
  | nil => rfl
  | append_singleton items last ih =>
    rw [firstArrivals_concat]
    split
    · next hlast =>
      obtain ⟨first, rest, rfl⟩ :=
        List.exists_cons_of_ne_nil (List.ne_nil_of_mem (mem_firstArrivals.1 hlast))
      exact ih
    · rw [List.head?_append, List.head?_append, ih]

theorem firstArrivals_nodup (items : List κ) : (firstArrivals items).Nodup := by
  induction items using List.reverseRecOn with
  | nil => exact List.nodup_nil
  | append_singleton items last ih =>
    rw [firstArrivals_concat]
    split
    · exact ih
    · next hlast =>
      refine List.nodup_append.2 ⟨ih, List.nodup_singleton last, ?_⟩
      rintro item hitem _ hother rfl
      exact hlast (List.mem_singleton.1 hother ▸ hitem)

theorem firstArrivals_eq_self {items : List κ} (h : items.Nodup) : firstArrivals items = items := by
  induction items using List.reverseRecOn with
  | nil => rfl
  | append_singleton items last ih =>
    obtain ⟨hitems, -, hapart⟩ := List.nodup_append.1 h
    rw [firstArrivals_concat, ih hitems, if_neg]
    intro hlast
    exact hapart last hlast last (List.mem_singleton.2 rfl) rfl

/-- Items that arrived before need not arrive again. -/
theorem firstArrivals_append (first later : List κ) :
    firstArrivals (first ++ later) = firstArrivals (firstArrivals first ++ later) := by
  have hself := firstArrivals_eq_self (firstArrivals_nodup first)
  simp only [firstArrivals, List.foldl_append] at hself ⊢
  rw [hself]

/-- What arrives again changes nothing. -/
theorem firstArrivals_append_of_subset {first later : List κ} (h : later ⊆ firstArrivals first) :
    firstArrivals (firstArrivals first ++ later) = firstArrivals first := by
  induction later using List.reverseRecOn with
  | nil => rw [List.append_nil, firstArrivals_eq_self (firstArrivals_nodup first)]
  | append_singleton later last ih =>
    obtain ⟨hlater, hlast⟩ := List.append_subset.1 h
    rw [← List.append_assoc, firstArrivals_concat, ih hlater,
      if_pos (hlast (List.mem_singleton.2 rfl))]

theorem firstArrivals_filter (keep : κ → Bool) (items : List κ) :
    firstArrivals (items.filter keep) = (firstArrivals items).filter keep := by
  induction items using List.reverseRecOn with
  | nil => rfl
  | append_singleton items last ih =>
    rw [List.filter_append, firstArrivals_concat]
    cases hkeep : keep last with
    | false =>
      rw [List.filter_cons_of_neg (by simp [hkeep]), List.filter_nil, List.append_nil, ih]
      split
      · rfl
      · simp [List.filter_append, hkeep]
    | true =>
      rw [List.filter_cons_of_pos hkeep, List.filter_nil, firstArrivals_concat, ih]
      have hmem : last ∈ (firstArrivals items).filter keep ↔ last ∈ firstArrivals items := by
        rw [List.mem_filter]
        exact ⟨And.left, fun h => ⟨h, hkeep⟩⟩
      by_cases hlast : last ∈ firstArrivals items
      · rw [if_pos hlast, if_pos (hmem.2 hlast)]
      · rw [if_neg hlast, if_neg (fun h => hlast (hmem.1 h))]
        simp [List.filter_append, hkeep]

theorem firstArrivals_map {items : List κ} (rename : κ → κ')
    (hinj : ∀ first ∈ items, ∀ second ∈ items, rename first = rename second → first = second) :
    firstArrivals (items.map rename) = (firstArrivals items).map rename := by
  induction items using List.reverseRecOn with
  | nil => rfl
  | append_singleton items last ih =>
    have hitems := ih fun first hfirst second hsecond => hinj first (by simp [hfirst]) second
      (by simp [hsecond])
    rw [List.map_append, List.map_cons, List.map_nil, firstArrivals_concat, firstArrivals_concat,
      hitems]
    have hmem : rename last ∈ (firstArrivals items).map rename ↔ last ∈ firstArrivals items := by
      constructor
      · intro h
        obtain ⟨other, hother, hsame⟩ := List.mem_map.1 h
        have hin := mem_firstArrivals.1 hother
        rwa [← hinj other (by simp [hin]) last (by simp) hsame]
      · exact List.mem_map_of_mem
    by_cases hlast : last ∈ firstArrivals items
    · rw [if_pos hlast, if_pos (hmem.2 hlast)]
    · rw [if_neg hlast, if_neg (fun h => hlast (hmem.1 h)), List.map_append, List.map_cons,
        List.map_nil]

end DocumentViews
