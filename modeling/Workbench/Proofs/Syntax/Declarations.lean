import Workbench.Proofs.Histories
import Workbench.Proofs.Syntax.Index

/-!
The owners of classes, read off all that was done to an index. A class goes to the file that last
got a tree with it, and it is this file's as long as this tree stays. Then the class has no owner,
also where another file that got it earlier still declares it: no name goes back to an earlier
declaration.
-/

namespace Workbench

namespace SyntaxIndex

/-- A file has a tree that declares a class. -/
def Declares (x : SyntaxIndex) (file : FileId) (name : String) : Prop :=
  ∃ tree, x.get? file = some tree ∧ tree.Declares name

/-! ### Histories -/

/-- One thing that is done to an index. -/
inductive Action where
  | insert (file : FileId) (tree : FileSyntax)
  | erase (file : FileId)

def act (x : SyntaxIndex) : Action → SyntaxIndex
  | .insert file tree => x.insert file tree
  | .erase file => x.erase file

/-- An index that was empty at first. -/
def ofActions (actions : List Action) : SyntaxIndex := actions.foldl act {}

namespace Action

/-- Whether an action is about a file. -/
def Touches (file : FileId) : Action → Prop
  | .insert other _ => other = file
  | .erase other => other = file

/-- Whether an action brings a tree that declares a class. -/
def Brings (name : String) : Action → Prop
  | .insert _ tree => tree.Declares name
  | .erase _ => False

end Action

/-- A file is the last that got a tree with a class. -/
def LastDeclarer (actions : List Action) (name : String) (file : FileId) : Prop :=
  ∃ tree, LastOf (Action.Brings name) actions (.insert file tree)

theorem lastDeclarer_concat {actions : List Action} {action : Action} {name : String}
    {file : FileId} :
    LastDeclarer (actions ++ [action]) name file ↔
      (∃ tree, action = .insert file tree ∧ tree.Declares name) ∨
        ¬ action.Brings name ∧ LastDeclarer actions name file := by
  simp only [LastDeclarer, lastOf_concat, exists_or, exists_and_left]
  rfl

theorem ofActions_concat (actions : List Action) (action : Action) :
    ofActions (actions ++ [action]) = (ofActions actions).act action := by
  rw [ofActions, List.foldl_append, ofActions]
  rfl

theorem made_ofActions (actions : List Action) : (ofActions actions).Made := by
  induction actions using List.reverseRecOn with
  | nil => exact .empty
  | append_singleton actions action ih =>
      rw [ofActions_concat]
      cases action with
      | insert file tree => exact ih.insert file tree
      | erase file => exact ih.erase file

/-- The tree of a file is the one that the last action about the file brought. -/
theorem get?_ofActions {actions : List Action} {file : FileId} {tree : FileSyntax} :
    (ofActions actions).get? file = some tree ↔
      LastOf (Action.Touches file) actions (.insert file tree) := by
  induction actions using List.reverseRecOn with
  | nil => simp [not_lastOf_nil, ofActions, get?]
  | append_singleton actions action ih =>
      rw [ofActions_concat, lastOf_concat]
      cases action with
      | insert other new =>
          simp only [act, get?_insert, Action.insert.injEq, Action.Touches]
          by_cases h : file = other
          · subst h
            simp
          · simp [h, Ne.symm h, ih]
      | erase other =>
          simp only [act, get?_erase, reduceCtorEq, false_and, false_or, Action.Touches]
          by_cases h : file = other
          · simp [h]
          · simp [h, Ne.symm h, ih]

/-! ### Owners -/

variable {x : SyntaxIndex} {actions : List Action} {file gone : FileId} {name : String}

/-- When a file is erased, what it owned loses its owner and all else keeps it. -/
theorem Sound.declaringFile?_erase_eq_some_iff (hx : x.Sound) :
    (x.erase gone).declaringFile? name = some file ↔
      x.declaringFile? name = some file ∧ file ≠ gone := by
  rw [declaringFile?_erase]
  split
  case isTrue howned =>
    simp only [howned.1, reduceCtorEq, Option.some.injEq, false_iff, not_and, not_not]
    exact Eq.symm
  case isFalse hkeeps =>
    refine ⟨fun h => ⟨h, ?_⟩, And.left⟩
    rintro rfl
    obtain ⟨tree, htree, hdeclares⟩ := hx name file h
    exact hkeeps ⟨h, by simpa [classesIn, htree, FileSyntax.Declares] using hdeclares⟩

theorem declares_insert {other : FileId} {tree : FileSyntax} :
    (x.insert other tree).Declares file name ↔
      if file = other then tree.Declares name else x.Declares file name := by
  unfold Declares
  rw [get?_insert]
  split <;> simp

theorem declares_erase :
    (x.erase gone).Declares file name ↔ file ≠ gone ∧ x.Declares file name := by
  unfold Declares
  rw [get?_erase]
  split <;> simp_all

/-- The owner of a class is the file that last got a tree with it, if it still has such a tree. -/
theorem declaringFile?_ofActions :
    (ofActions actions).declaringFile? name = some file ↔
      LastDeclarer actions name file ∧ (ofActions actions).Declares file name := by
  induction actions using List.reverseRecOn with
  | nil => simp [LastDeclarer, not_lastOf_nil, ofActions, declaringFile?]
  | append_singleton actions action ih =>
      have hsound := (made_ofActions actions).sound
      rw [ofActions_concat, lastDeclarer_concat]
      cases action with
      | erase gone =>
          simp only [act, hsound.declaringFile?_erase_eq_some_iff, ih, declares_erase,
            Action.Brings, reduceCtorEq, false_and, exists_false, false_or, not_false_eq_true,
            true_and]
          rw [and_assoc, and_congr_right_iff]
          exact fun _ => and_comm
      | insert other tree =>
          simp only [act, declaringFile?_insert, declares_insert, Action.Brings,
            Action.insert.injEq]
          by_cases hbrings : tree.Declares name
          · by_cases hfile : file = other
            · subst hfile
              simp [hbrings]
            · simp [hbrings, hfile, Ne.symm hfile]
          · rw [if_neg hbrings, hsound.declaringFile?_erase_eq_some_iff, ih]
            by_cases hfile : file = other
            · simp [hbrings, hfile]
            · simp [hbrings, hfile, Ne.symm hfile]

theorem declares_of_act {action : Action} (h : (x.act action).Declares file name)
    (hbrings : ¬ action.Brings name) : x.Declares file name := by
  cases action with
  | erase gone => exact (declares_erase.mp h).2
  | insert other tree =>
      rw [act, declares_insert] at h
      split at h
      · exact absurd h hbrings
      · exact h

theorem exists_lastDeclarer (h : (ofActions actions).Declares file name) :
    ∃ last, LastDeclarer actions name last := by
  induction actions using List.reverseRecOn with
  | nil => simp [Declares, ofActions, get?] at h
  | append_singleton actions action ih =>
      rw [ofActions_concat] at h
      simp only [lastDeclarer_concat]
      by_cases hbrings : action.Brings name
      · cases action with
        | insert other tree => exact ⟨other, .inl ⟨tree, rfl, hbrings⟩⟩
        | erase gone => exact hbrings.elim
      · obtain ⟨last, hlast⟩ := ih (declares_of_act h hbrings)
        exact ⟨last, .inr ⟨hbrings, hlast⟩⟩

/-- What the owners of classes owe to the history of an index. -/
structure Attributes (x : SyntaxIndex) (actions : List Action) : Prop where
  get?_eq_some_iff : ∀ file tree, x.get? file = some tree ↔
    LastOf (Action.Touches file) actions (.insert file tree)
  declaringFile?_eq_some_iff : ∀ name file, x.declaringFile? name = some file ↔
    LastDeclarer actions name file ∧ x.Declares file name
  mem_classNames_iff : ∀ name, name ∈ x.classNames ↔ ∃ file, x.declaringFile? name = some file
  /-- A class that is declared has an owner, unless its last declarer gave it up. -/
  exists_owner_iff : ∀ name,
    ((∃ file, x.declaringFile? name = some file) ↔ ∃ file, x.Declares file name) ↔
      ∀ last, LastDeclarer actions name last → ¬ x.Declares last name →
        ∀ file, ¬ x.Declares file name

/-- Whatever is put into an index or taken away: the trees are those brought last, a class belongs
to the file that last got a tree with it if the file still has one, and the names are those of the
classes with an owner. So a class that some file declares is missing just if the file that last got
it has it no more. -/
theorem attributes_ofActions (actions : List Action) : (ofActions actions).Attributes actions where
  get?_eq_some_iff _ _ := get?_ofActions
  declaringFile?_eq_some_iff _ _ := declaringFile?_ofActions
  mem_classNames_iff _ := mem_classNames
  exists_owner_iff name := by
    simp only [declaringFile?_ofActions]
    constructor
    · intro howned last hlast hgone file hfile
      obtain ⟨owner, ⟨tree, howner⟩, hdeclares⟩ := howned.mpr ⟨file, hfile⟩
      obtain ⟨tree', hlast⟩ := hlast
      cases howner.unique hlast
      exact hgone hdeclares
    · intro hkept
      refine ⟨fun ⟨file, _, hfile⟩ => ⟨file, hfile⟩, fun ⟨file, hfile⟩ => ?_⟩
      obtain ⟨last, hlast⟩ := exists_lastDeclarer hfile
      exact ⟨last, hlast, by_contra fun hgone => hkept last hlast hgone file hfile⟩

/-- Two files declare one class, and the one that came last is taken away. -/
def duplicates : List Action :=
  [.insert 0 { classes := [.capture "X" none [] [] []] },
    .insert 1 { classes := [.capture "X" none [] [] []] }, .erase 1]

theorem not_owned_duplicates :
    ¬ ∀ (actions : List Action) (name : String),
        ((∃ file, (ofActions actions).declaringFile? name = some file) ↔
          ∃ file, (ofActions actions).Declares file name) ∧
        (name ∈ (ofActions actions).classNames ↔
          ∃ file, (ofActions actions).Declares file name) := by
  intro hclaim
  have hdeclares : (ofActions duplicates).Declares 0 "X" :=
    ⟨{ classes := [.capture "X" none [] [] []] },
      get?_ofActions.mpr ⟨[], duplicates.tail, rfl, rfl, by simp [duplicates, Action.Touches]⟩,
      by decide⟩
  have hnone : (ofActions duplicates).declaringFile? "X" = none := by decide +kernel
  obtain ⟨owner, howner⟩ := (hclaim duplicates "X").1.mpr ⟨0, hdeclares⟩
  rw [hnone] at howner
  contradiction

end SyntaxIndex

end Workbench
