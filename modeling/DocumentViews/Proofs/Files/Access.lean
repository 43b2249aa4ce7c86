import Mathlib
import DocumentViews.Proofs.Files.Tree

/-!
Access to files by actions on a state that holds a tree, and may hold more.
Actions may fail for reasons of their own, but then they leave the tree as it
is, and a file that was written is written in full.
-/

namespace DocumentViews.FileAccess

variable {σ α β : Type}

/-- An action that starts from a state returns a value and leaves a state. -/
def Yields (action : StateM σ α) (before : σ) (value : α) (after : σ) : Prop :=
  action before = (value, after)

theorem exists_yields (action : StateM σ α) (before : σ) :
    ∃ value after, Yields action before value after :=
  ⟨_, _, rfl⟩

theorem Yields.unique {action : StateM σ α} {before after otherAfter : σ} {value other : α}
    (h : Yields action before value after) (hother : Yields action before other otherAfter) :
    value = other ∧ after = otherAfter :=
  Prod.mk.inj (h.symm.trans hother)

theorem yields_pure_iff {before after : σ} {value result : α} :
    Yields (pure value) before result after ↔ result = value ∧ after = before := by
  constructor
  · intro h
    obtain ⟨hvalue, hstate⟩ := Prod.mk.inj h
    exact ⟨hvalue.symm, hstate.symm⟩
  · rintro ⟨rfl, rfl⟩
    rfl

theorem yields_bind_iff {action : StateM σ α} {next : α → StateM σ β} {before after : σ}
    {result : β} : Yields (action >>= next) before result after ↔
      ∃ value middle, Yields action before value middle ∧
        Yields (next value) middle result after := by
  constructor
  · intro h
    exact ⟨_, _, rfl, h⟩
  · rintro ⟨value, middle, haction, hnext⟩
    rw [Yields] at haction
    change (next (action before).1) (action before).2 = _
    rw [haction]
    exact hnext

variable [FileAccess (StateM σ)]

/-- A tree that an access to files works on. Nothing changes it but the writing
of a file, which then is there in full, and the creation of a directory, and
they only when they do not fail. -/
structure IsFaithful (tree : σ → FileTree) : Prop where
  read : ∀ {path before result after}, Yields (FileAccess.read path) before result after →
    tree after = tree before
  isDirectory : ∀ {path before result after},
    Yields (FileAccess.isDirectory path) before result after → tree after = tree before
  write : ∀ {path text before after}, Yields (FileAccess.write path text) before (.ok ()) after →
    (tree before).write path text = .ok (tree after)
  write_error : ∀ {path text before fault after},
    Yields (FileAccess.write path text) before (.error fault) after → tree after = tree before
  makeDirectory : ∀ {path before after},
    Yields (FileAccess.makeDirectory path) before (.ok ()) after →
      (tree before).makeDirectory path = .ok (tree after)
  makeDirectory_error : ∀ {path before fault after},
    Yields (FileAccess.makeDirectory path) before (.error fault) after → tree after = tree before

/-- Files are written one after the other, and none of the writings fails. -/
inductive Writes : σ → List (String × String) → σ → Prop
  | nil (state : σ) : Writes state [] state
  | cons {before next after : σ} {path text : String} {rest : List (String × String)}
    (hwrite : Yields (FileAccess.write path text) before (.ok ()) next)
    (hrest : Writes next rest after) : Writes before ((path, text) :: rest) after

variable {tree : σ → FileTree} {before after : σ} {path : String}

theorem Writes.takes (hfaithful : IsFaithful tree) {files : List (String × String)}
    (h : Writes before files after) : (tree before).Takes files (tree after) := by
  induction h with
  | nil state => exact .nil _
  | cons hwrite hrest ih => exact .cons (hfaithful.write hwrite) ih

theorem IsFaithful.ensureDirectory (hfaithful : IsFaithful tree) {result : Except Fault Unit}
    (h : Yields (FileAccess.ensureDirectory path) before result after) :
    (tree before).Furnishes (tree after) := by
  rw [FileAccess.ensureDirectory, yields_bind_iff] at h
  obtain ⟨made, middle, hmade, h⟩ := h
  cases made with
  | ok done =>
    rw [(yields_pure_iff.1 h).2]
    exact FileTree.furnishes_of_makeDirectory (hfaithful.makeDirectory hmade)
  | error fault =>
    obtain ⟨found, last, hfound, h⟩ := yields_bind_iff.1 h
    have hsame : after = last := by
      split at h
      · exact (yields_pure_iff.1 h).2
      · exact (yields_pure_iff.1 h).2
    rw [hsame, hfaithful.isDirectory hfound, hfaithful.makeDirectory_error hmade]
    exact .refl _

theorem IsFaithful.ensureBelow (hfaithful : IsFaithful tree) {above : List String}
    {result : Except Fault Unit}
    (h : Yields (FileAccess.ensureBelow path above) before result after) :
    (tree before).Furnishes (tree after) := by
  induction above generalizing path before result after with
  | nil =>
    rw [FileAccess.ensureBelow, yields_bind_iff] at h
    obtain ⟨first, middle, hfirst, h⟩ := h
    have hmade := hfaithful.ensureDirectory hfirst
    split at h
    · exact hmade.trans (hfaithful.ensureDirectory h)
    · rw [(yields_pure_iff.1 h).2]
      exact hmade
  | cons nearest rest ih =>
    rw [FileAccess.ensureBelow, yields_bind_iff] at h
    obtain ⟨first, middle, hfirst, h⟩ := h
    have hmade := hfaithful.ensureDirectory hfirst
    split at h
    · obtain ⟨second, last, hsecond, h⟩ := yields_bind_iff.1 h
      have hbelow := hmade.trans (ih hsecond)
      cases second with
      | error fault =>
        rw [(yields_pure_iff.1 h).2]
        exact hbelow
      | ok done => exact hbelow.trans (hfaithful.ensureDirectory h)
    · rw [(yields_pure_iff.1 h).2]
      exact hmade

/-- Creating directories brings new directories at most, also when it fails. -/
theorem IsFaithful.createDirectories (hfaithful : IsFaithful tree) {result : Except Fault Unit}
    (h : Yields (FileAccess.createDirectories path) before result after) :
    (tree before).Furnishes (tree after) := by
  rw [FileAccess.createDirectories] at h
  split at h
  · rw [(yields_pure_iff.1 h).2]
    exact .refl _
  · exact hfaithful.ensureBelow h

end DocumentViews.FileAccess

namespace DocumentViews.FileTree

open FileAccess

theorem yields_change_ok {operation : FileTree → Except Fault FileTree} {before after : FileTree}
    (h : Yields (change operation) before (.ok ()) after) : operation before = .ok after := by
  rw [Yields, change] at h
  split at h
  · nomatch h
  · next hoperation => rw [hoperation, (Prod.mk.inj h).2]

theorem yields_change_error {operation : FileTree → Except Fault FileTree}
    {before after : FileTree} {fault : Fault}
    (h : Yields (change operation) before (.error fault) after) : after = before := by
  rw [Yields, change] at h
  split at h
  · exact (Prod.mk.inj h).2.symm
  · nomatch h

/-- The tree in memory is the state itself. -/
theorem isFaithful_id : IsFaithful (fun tree : FileTree => tree) where
  read h := (Prod.mk.inj h).2.symm
  isDirectory h := (Prod.mk.inj h).2.symm
  write h := yields_change_ok h
  write_error h := yields_change_error h
  makeDirectory h := yields_change_ok h
  makeDirectory_error h := yields_change_error h

end DocumentViews.FileTree
