import Mathlib
import DocumentViews.Files.Tree
import DocumentViews.Proofs.Files.Path
import DocumentViews.Proofs.Listing

/-!
What operations do to a file system in memory. Making a directory fills a free
place, and writing a file replaces what stood at its place and was no directory.
Directories stay, so a path keeps leading where it led, and a file that was
written can be read back until another is written at its place.
-/

namespace DocumentViews.FileTree

variable {tree before made next after : FileTree} {path text : String} {place : List String}
  {files : List (String × String)}

/-- The place that a path names, when it leads to one. -/
def place? (tree : FileTree) (path : String) : Option (List String) :=
  match tree.locate path with
  | .ok ⟨directory, some name, _⟩ => some (directory ++ [name])
  | _ => none

theorem place?_eq_some_iff : tree.place? path = some place ↔
    ∃ directory name slash, tree.locate path = .ok ⟨directory, some name, slash⟩ ∧
      place = directory ++ [name] := by
  rw [place?]
  split
  · next directory name slash hlocate =>
    simp only [hlocate, Option.some.injEq, Except.ok.injEq, Location.mk.injEq]
    constructor
    · rintro rfl
      exact ⟨directory, name, slash, ⟨rfl, rfl, rfl⟩, rfl⟩
    · rintro ⟨other, otherName, otherSlash, ⟨rfl, rfl, rfl⟩, rfl⟩
      rfl
  · next hother =>
    refine iff_of_false (by simp) ?_
    rintro ⟨directory, name, slash, hlocate, -⟩
    exact hother directory name slash hlocate

/-- A path leads to the name in its last segment, if it leads to a name. -/
theorem getLast?_of_place? {segments : List String} {file : String}
    (hsegments : Path.segments path = segments ++ [file])
    (hfile : file ≠ "" ∧ file ≠ "." ∧ file ≠ "..") (hplace : tree.place? path = some place) :
    place.getLast? = some file := by
  obtain ⟨hfull, hdot, hdots⟩ := hfile
  have hreversed : (Path.segments path).reverse.dropWhile (· == "") = file :: segments.reverse := by
    rw [hsegments, List.reverse_append, List.reverse_singleton, List.singleton_append,
      List.dropWhile_cons_of_neg (by simpa using hfull)]
  obtain ⟨directory, name, slash, hlocate, rfl⟩ := place?_eq_some_iff.1 hplace
  simp only [locate, hreversed, if_neg hdot, if_neg hdots] at hlocate
  rw [List.getLast?_concat]
  split at hlocate
  · nomatch hlocate
  · split at hlocate
    · nomatch hlocate
    · split at hlocate
      · nomatch hlocate
      · split at hlocate
        · nomatch hlocate
        · split at hlocate
          · nomatch hlocate
          · exact (Location.mk.inj (Except.ok.inj hlocate)).2.1.symm

theorem entry?_put (hplace : place ≠ []) (entry : Entry) (other : List String) :
    FileTree.entry? (tree.put place entry) other =
      if other = place then some entry else tree.entry? other := by
  simp only [put, entry?, Listing.find?_put]
  by_cases hother : other = place
  · rw [if_pos hother, if_pos hother, if_neg (hother ▸ hplace)]
  · rw [if_neg hother, if_neg hother]

/-- A tree that starts from the same directory and has all directories of
another. -/
structure Keeps (before after : FileTree) : Prop where
  here_eq : after.here = before.here
  directory : ∀ place, before.entry? place = some .directory →
    after.entry? place = some .directory

theorem Keeps.refl (tree : FileTree) : tree.Keeps tree :=
  ⟨rfl, fun _ h => h⟩

theorem Keeps.trans (hfirst : before.Keeps made) (hsecond : made.Keeps after) :
    before.Keeps after :=
  ⟨hsecond.here_eq.trans hfirst.here_eq,
    fun place h => hsecond.directory place (hfirst.directory place h)⟩

theorem Keeps.enter (h : before.Keeps after) {directory target : List String}
    {segments : List String} (henter : before.enter directory segments = .ok target) :
    after.enter directory segments = .ok target := by
  induction segments generalizing directory with
  | nil => exact henter
  | cons segment rest ih =>
    rw [FileTree.enter] at henter ⊢
    split
    · next hidle =>
      rw [if_pos hidle] at henter
      exact ih henter
    · next hidle =>
      rw [if_neg hidle] at henter
      split
      · next hup =>
        rw [if_pos hup] at henter
        exact ih henter
      · next hup =>
        rw [if_neg hup] at henter
        split
        · next hlong => simp [hlong] at henter
        · next hlong =>
          rw [if_neg hlong] at henter
          split at henter
          · nomatch henter
          · nomatch henter
          · next hdirectory =>
            rw [h.directory _ hdirectory]
            exact ih henter

/-- A path leads where it led before. -/
theorem Keeps.locate (h : before.Keeps after) {location : Location}
    (hlocate : before.locate path = .ok location) : after.locate path = .ok location := by
  unfold FileTree.locate at hlocate ⊢
  rw [h.here_eq]
  split
  · next hnul => simp [hnul] at hlocate
  · next hnul =>
    rw [if_neg hnul] at hlocate
    split
    · next hempty => simp [hempty] at hlocate
    · next hempty =>
      rw [if_neg hempty] at hlocate
      split
      · next hlong => simp [hlong] at hlocate
      · next hlong =>
        rw [if_neg hlong] at hlocate
        simp only at hlocate ⊢
        split
        · next hnil =>
          simpa [hnil] using hlocate
        · next last front hlast =>
          cases henter : before.enter (if Path.isAbsolute path then [] else before.here)
              front.reverse with
          | error fault => simp [hlast, henter] at hlocate
          | ok directory =>
            rw [h.enter henter]
            simpa [hlast, henter] using hlocate

theorem Keeps.place? (h : before.Keeps after) (hplace : before.place? path = some place) :
    after.place? path = some place := by
  obtain ⟨directory, name, slash, hlocate, heq⟩ := place?_eq_some_iff.1 hplace
  exact place?_eq_some_iff.2 ⟨directory, name, slash, h.locate hlocate, heq⟩

/-- A written file stands at the place that its path names, which was no
directory. -/
theorem write_eq_ok_iff : tree.write path text = .ok next ↔
    ∃ directory name, tree.locate path = .ok ⟨directory, some name, false⟩ ∧
      tree.entry? (directory ++ [name]) ≠ some .directory ∧
      next = tree.put (directory ++ [name]) (.file (some text)) := by
  rw [write]
  split
  · next hlocate => simp [hlocate]
  · next hlocate => simp [hlocate]
  · next directory name slash hlocate =>
    rw [hlocate]
    split
    · next hdirectory =>
      refine iff_of_false (by simp) ?_
      rintro ⟨other, otherName, heq, hfree, -⟩
      obtain ⟨rfl, hname, rfl⟩ := Location.mk.inj (Except.ok.inj heq)
      obtain rfl := Option.some.inj hname
      exact hfree (hdirectory.resolve_left Bool.false_ne_true)
    · next hdirectory =>
      rw [not_or] at hdirectory
      constructor
      · intro heq
        rw [Bool.eq_false_of_not_eq_true hdirectory.1]
        exact ⟨directory, name, rfl, hdirectory.2, (Except.ok.inj heq).symm⟩
      · rintro ⟨other, otherName, heq, -, rfl⟩
        obtain ⟨rfl, hname, -⟩ := Location.mk.inj (Except.ok.inj heq)
        obtain rfl := Option.some.inj hname
        rfl

theorem concat_ne_nil (directory : List String) (name : String) : directory ++ [name] ≠ [] := by
  simp

theorem keeps_of_write (h : tree.write path text = .ok next) : tree.Keeps next := by
  obtain ⟨directory, name, -, hfree, rfl⟩ := write_eq_ok_iff.1 h
  refine ⟨rfl, fun place hplace => ?_⟩
  rw [entry?_put (concat_ne_nil directory name), if_neg]
  · exact hplace
  · rintro rfl
    exact hfree hplace

/-- Writing changes the one place that the path names. -/
theorem entry?_write (h : tree.write path text = .ok next)
    (hother : tree.place? path ≠ some place) : next.entry? place = tree.entry? place := by
  obtain ⟨directory, name, hlocate, -, rfl⟩ := write_eq_ok_iff.1 h
  rw [entry?_put (concat_ne_nil directory name), if_neg]
  rintro rfl
  exact hother (place?_eq_some_iff.2 ⟨directory, name, false, hlocate, rfl⟩)

theorem read_of_locate {directory : List String} {name : String}
    (hlocate : tree.locate path = .ok ⟨directory, some name, false⟩)
    (hentry : tree.entry? (directory ++ [name]) = some (.file (some text))) :
    tree.read path = .ok text := by
  simp [read, hlocate, hentry]

/-- A place is as it was, or it was free and has a new directory. -/
def IsLeft (before after : FileTree) (place : List String) : Prop :=
  after.entry? place = before.entry? place ∨
    before.entry? place = none ∧ after.entry? place = some .directory

/-- Nothing but new directories tells a tree from another. -/
structure Furnishes (before after : FileTree) : Prop where
  here_eq : after.here = before.here
  isLeft : ∀ place, before.IsLeft after place

theorem Furnishes.refl (tree : FileTree) : tree.Furnishes tree :=
  ⟨rfl, fun _ => Or.inl rfl⟩

theorem Furnishes.trans (hfirst : before.Furnishes made) (hsecond : made.Furnishes after) :
    before.Furnishes after := by
  refine ⟨hsecond.here_eq.trans hfirst.here_eq, fun place => ?_⟩
  rcases hsecond.isLeft place with hsame | ⟨hfree, hnew⟩
  · rcases hfirst.isLeft place with heq | ⟨hfree, hnew⟩
    · exact Or.inl (hsame.trans heq)
    · exact Or.inr ⟨hfree, hsame.trans hnew⟩
  · rcases hfirst.isLeft place with heq | ⟨-, hfilled⟩
    · exact Or.inr ⟨heq.symm.trans hfree, hnew⟩
    · rw [hfree] at hfilled
      nomatch hfilled

theorem furnishes_of_makeDirectory (h : tree.makeDirectory path = .ok next) :
    tree.Furnishes next := by
  rw [makeDirectory] at h
  split at h
  · nomatch h
  · nomatch h
  · next directory name slash hlocate =>
    split at h
    · nomatch h
    · next hfree =>
      obtain rfl := Except.ok.inj h
      refine ⟨rfl, fun place => ?_⟩
      rw [IsLeft, entry?_put (concat_ne_nil directory name)]
      by_cases hplace : place = directory ++ [name]
      · rw [if_pos hplace, hplace]
        exact Or.inr ⟨hfree, rfl⟩
      · rw [if_neg hplace]
        exact Or.inl rfl

/-- Files are written one after the other. -/
inductive Takes : FileTree → List (String × String) → FileTree → Prop
  | nil (tree : FileTree) : Takes tree [] tree
  | cons {before next after : FileTree} {path text : String} {rest : List (String × String)}
    (hwrite : before.write path text = .ok next) (hrest : Takes next rest after) :
    Takes before ((path, text) :: rest) after

theorem Takes.keeps (h : before.Takes files after) : before.Keeps after := by
  induction h with
  | nil tree => exact .refl tree
  | cons hwrite hrest ih => exact (keeps_of_write hwrite).trans ih

/-- Only the places of the files that are written change. -/
theorem Takes.entry?_eq (h : before.Takes files after)
    (hother : ∀ file ∈ files, after.place? file.1 ≠ some place) :
    after.entry? place = before.entry? place := by
  induction h with
  | nil tree => rfl
  | cons hwrite hrest ih =>
    obtain ⟨hfirst, hlater⟩ := List.forall_mem_cons.1 hother
    rw [ih hlater]
    refine entry?_write hwrite fun hplace => hfirst ?_
    exact hrest.keeps.place? ((keeps_of_write hwrite).place? hplace)

/-- Files whose paths name different places. -/
def Apart (files : List (String × String)) : Prop :=
  files.Pairwise fun first second => ∀ (tree : FileTree) (place : List String),
    tree.place? first.1 = some place → tree.place? second.1 ≠ some place

/-- Files at different places can all be read back. -/
theorem Takes.read_eq (h : before.Takes files after) (hapart : Apart files) :
    ∀ file ∈ files, after.read file.1 = .ok file.2 := by
  induction h with
  | nil tree => simp
  | @cons before next after path text rest hwrite hrest ih =>
    obtain ⟨hfirst, hlater⟩ := List.pairwise_cons.1 hapart
    refine List.forall_mem_cons.2 ⟨?_, ih hlater⟩
    obtain ⟨directory, name, hlocate, -, hnext⟩ := write_eq_ok_iff.1 hwrite
    have hkept := hrest.keeps.locate ((keeps_of_write hwrite).locate hlocate)
    have hplace : after.place? path = some (directory ++ [name]) :=
      place?_eq_some_iff.2 ⟨directory, name, false, hkept, rfl⟩
    apply read_of_locate hkept
    rw [hrest.entry?_eq fun file hfile => hfirst file hfile after _ hplace, hnext,
      entry?_put (concat_ne_nil directory name), if_pos rfl]

/-- A tree has received files: it holds them in full, and their places apart it
is as another was, but for new directories. -/
structure Receives (before : FileTree) (files : List (String × String)) (after : FileTree) :
    Prop where
  here_eq : after.here = before.here
  read_eq : ∀ file ∈ files, after.read file.1 = .ok file.2
  isLeft : ∀ place, (∀ file ∈ files, after.place? file.1 ≠ some place) → before.IsLeft after place

theorem Takes.receives (h : made.Takes files after) (hapart : Apart files)
    (hmade : before.Furnishes made) : before.Receives files after where
  here_eq := h.keeps.here_eq.trans hmade.here_eq
  read_eq := h.read_eq hapart
  isLeft := by
    intro place hother
    rw [IsLeft, h.entry?_eq hother]
    exact hmade.isLeft place

end DocumentViews.FileTree
