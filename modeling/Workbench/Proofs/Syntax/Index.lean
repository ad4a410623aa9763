import Workbench.Scope.Incremental

/-!
How the syntax index answers after trees were put into it or taken away. The trees are a plain map.
The owner of a class is not: it goes to the file that was put in last, and taking a file away also
takes the classes it owns, whether or not another file declares them too. The lemmas below say for
one name when its owner stays, when it changes, and when there is one at all.
-/

namespace Workbench

/-- A tree declares a class of the given name. -/
def FileSyntax.Declares (tree : FileSyntax) (name : String) : Prop :=
  ∃ c ∈ tree.classes, c.name = name

instance (tree : FileSyntax) (name : String) : Decidable (tree.Declares name) :=
  inferInstanceAs (Decidable (∃ c ∈ tree.classes, c.name = name))

namespace SyntaxIndex

/-- An index made from the empty one by putting trees in and taking trees away. There is no other
way to make one. -/
inductive Made : SyntaxIndex → Prop where
  | empty : Made {}
  | insert {x : SyntaxIndex} (hx : Made x) (file : FileId) (tree : FileSyntax) :
      Made (x.insert file tree)
  | erase {x : SyntaxIndex} (hx : Made x) (file : FileId) : Made (x.erase file)

/-- Every owner has a tree that declares the class. -/
def Sound (x : SyntaxIndex) : Prop :=
  ∀ name file, x.declaringFile? name = some file →
    ∃ tree, x.get? file = some tree ∧ tree.Declares name

/-- Every class that a tree declares has an owner. -/
def Complete (x : SyntaxIndex) : Prop :=
  ∀ file tree name, x.get? file = some tree → tree.Declares name → name ∈ x.classNames

theorem mem_classNames {x : SyntaxIndex} {name : String} :
    name ∈ x.classNames ↔ ∃ file, x.declaringFile? name = some file := by
  rw [← Option.isSome_iff_exists]
  simp [classNames, declaringFile?]

/-! ### One tree -/

theorem get?_erase (x : SyntaxIndex) (file other : FileId) :
    (x.erase file).get? other = if other = file then none else x.get? other := by
  unfold erase
  split
  case h_1 hnone =>
    split
    · subst other
      exact hnone
    · rfl
  case h_2 =>
    simp only [get?, Std.ExtTreeMap.getElem?_erase, Std.LawfulEqCmp.compare_eq_iff_eq]
    simp only [eq_comm]

theorem get?_insert (x : SyntaxIndex) (file other : FileId) (tree : FileSyntax) :
    (x.insert file tree).get? other = if other = file then some tree else x.get? other := by
  by_cases h : other = file
  · subst other
    simp [insert, get?]
  · have hother := get?_erase x file other
    simp only [get?, h, if_false] at hother ⊢
    simp [insert, Std.ExtTreeMap.getElem?_insert, hother, Ne.symm h]

/-- Taking classes from a table of owners removes exactly those that the file owns. -/
theorem getElem?_foldl_disown (classes : List ClassSignature) (file : FileId)
    (declared : Std.ExtTreeMap String FileId) (name : String) :
    (classes.foldl (fun declared c =>
        if declared[c.name]? = some file then declared.erase c.name else declared)
      declared)[name]? =
      if declared[name]? = some file ∧ ∃ c ∈ classes, c.name = name then none
      else declared[name]? := by
  induction classes generalizing declared with
  | nil => simp
  | cons c rest ih =>
      simp only [List.foldl_cons, ih, List.mem_cons, exists_eq_or_imp]
      by_cases hname : c.name = name
      · subst name
        by_cases howner : declared[c.name]? = some file <;> simp [howner]
      · split
        · simp [Std.ExtTreeMap.getElem?_erase, hname]
        · simp [hname]

theorem getElem?_foldl_own (classes : List ClassSignature) (file : FileId)
    (declared : Std.ExtTreeMap String FileId) (name : String) :
    (classes.foldl (fun declared c => declared.insert c.name file) declared)[name]? =
      if ∃ c ∈ classes, c.name = name then some file else declared[name]? := by
  induction classes generalizing declared with
  | nil => simp
  | cons c rest ih =>
      rw [List.foldl_cons, ih]
      by_cases hrest : ∃ c ∈ rest, c.name = name
      · simp [hrest]
      · by_cases hname : c.name = name <;>
          simp [hrest, hname, Std.ExtTreeMap.getElem?_insert]

/-- A file that is taken away owns nothing of what its tree declares, and all other owners stay. -/
theorem declaringFile?_erase (x : SyntaxIndex) (file : FileId) (name : String) :
    (x.erase file).declaringFile? name =
      if x.declaringFile? name = some file ∧ ∃ c ∈ x.classesIn file, c.name = name then none
      else x.declaringFile? name := by
  cases htree : x.get? file with
  | none => simp [erase, classesIn, htree]
  | some tree =>
      simp only [erase, htree, declaringFile?, getElem?_foldl_disown]
      simp [classesIn, htree]

/-- The file put in last owns what its tree declares. -/
theorem declaringFile?_insert (x : SyntaxIndex) (file : FileId) (tree : FileSyntax)
    (name : String) :
    (x.insert file tree).declaringFile? name =
      if tree.Declares name then some file else (x.erase file).declaringFile? name :=
  getElem?_foldl_own tree.classes file (x.erase file).declarations name

/-- Without a tree that declares it, a class has after an insertion at most the owner it had. -/
theorem declaringFile?_of_insert {x : SyntaxIndex} {file owner : FileId} {tree : FileSyntax}
    {name : String} (hname : ¬ tree.Declares name)
    (h : (x.insert file tree).declaringFile? name = some owner) :
    x.declaringFile? name = some owner := by
  rw [declaringFile?_insert, if_neg hname, declaringFile?_erase] at h
  split at h
  · contradiction
  · exact h

/-- Neither the tree that leaves nor the one that comes declares the class, so its owner stays. -/
theorem declaringFile?_insert_of_not_declared {x : SyntaxIndex} {file : FileId}
    {tree : FileSyntax} {name : String} (hnew : ¬ tree.Declares name)
    (hold : ¬ ∃ c ∈ x.classesIn file, c.name = name) :
    (x.insert file tree).declaringFile? name = x.declaringFile? name := by
  rw [declaringFile?_insert, if_neg hnew, declaringFile?_erase, if_neg]
  rintro ⟨-, hdeclares⟩
  exact hold hdeclares

theorem sound_empty : Sound {} := by
  intro name file h
  simp [declaringFile?] at h

theorem sound_erase {x : SyntaxIndex} (hx : x.Sound) (file : FileId) : (x.erase file).Sound := by
  intro name owner h
  rw [declaringFile?_erase] at h
  split at h
  case isTrue => contradiction
  case isFalse hkeeps =>
    obtain ⟨tree, htree, hdeclares⟩ := hx name owner h
    -- A sound index would have given up an owner that is the erased file itself.
    have hother : owner ≠ file := by
      rintro rfl
      exact hkeeps ⟨h, by simpa [classesIn, htree, FileSyntax.Declares] using hdeclares⟩
    exact ⟨tree, by rw [get?_erase, if_neg hother, htree], hdeclares⟩

theorem sound_insert {x : SyntaxIndex} (hx : x.Sound) (file : FileId) (tree : FileSyntax) :
    (x.insert file tree).Sound := by
  intro name owner h
  rw [declaringFile?_insert] at h
  split at h
  case isTrue hdeclares =>
    cases h
    exact ⟨tree, by rw [get?_insert, if_pos rfl], hdeclares⟩
  case isFalse =>
    obtain ⟨old, hold, hdeclares⟩ := sound_erase hx file name owner h
    rw [get?_erase] at hold
    split at hold
    · contradiction
    · exact ⟨old, by rw [get?_insert, if_neg ‹_›, hold], hdeclares⟩

theorem Made.sound {x : SyntaxIndex} (hx : x.Made) : x.Sound := by
  induction hx with
  | empty => exact sound_empty
  | insert _ file tree ih => exact sound_insert ih file tree
  | erase _ file ih => exact sound_erase ih file

/-! ### Several trees

The trees that are put in come from a map, so those of one file agree; `f` below is that map. -/

theorem get?_insertAll (x : SyntaxIndex) {trees : List (FileId × FileSyntax)}
    {f : FileId → Option FileSyntax} (hf : ∀ entry ∈ trees, f entry.1 = some entry.2)
    (file : FileId) :
    (x.insertAll trees).get? file =
      if file ∈ trees.map Prod.fst then f file else x.get? file := by
  induction trees generalizing x with
  | nil => simp [insertAll]
  | cons entry rest ih =>
      have hrest : ∀ entry ∈ rest, f entry.1 = some entry.2 := fun e he =>
        hf e (List.mem_cons_of_mem _ he)
      have hstep : x.insertAll (entry :: rest) = (x.insert entry.1 entry.2).insertAll rest := rfl
      rw [hstep, ih _ hrest, get?_insert]
      by_cases hfile : file = entry.1
      · subst file
        simp [hf entry (List.mem_cons_self ..)]
      · simp only [List.map_cons, List.mem_cons, hfile, false_or, if_false]

theorem mem_filterMap_trees {visited : List FileId} {f : FileId → Option FileSyntax}
    {entry : FileId × FileSyntax} :
    entry ∈ visited.filterMap (fun file => (f file).map (Prod.mk file)) ↔
      entry.1 ∈ visited ∧ f entry.1 = some entry.2 := by
  rw [List.mem_filterMap]
  constructor
  · rintro ⟨file, hfile, htree⟩
    obtain ⟨tree, hf, rfl⟩ := Option.map_eq_some_iff.mp htree
    exact ⟨hfile, hf⟩
  · rintro ⟨hfile, hf⟩
    exact ⟨entry.1, hfile, by rw [hf]; rfl⟩

/-- Visited files that have a new tree get it, and all others keep what they had. -/
theorem get?_insertAll_filterMap (x : SyntaxIndex) (visited : List FileId)
    (f : FileId → Option FileSyntax) (file : FileId) :
    (x.insertAll (visited.filterMap fun file => (f file).map (Prod.mk file))).get? file =
      (if file ∈ visited then f file else none).or (x.get? file) := by
  rw [get?_insertAll x fun entry hentry => (mem_filterMap_trees.mp hentry).2]
  have hkeys : file ∈ (visited.filterMap fun file => (f file).map (Prod.mk file)).map Prod.fst ↔
      file ∈ visited ∧ (f file).isSome := by
    rw [List.mem_map]
    constructor
    · rintro ⟨entry, hentry, rfl⟩
      obtain ⟨hfile, hf⟩ := mem_filterMap_trees.mp hentry
      exact ⟨hfile, by rw [hf]; rfl⟩
    · rintro ⟨hfile, hsome⟩
      obtain ⟨tree, hf⟩ := Option.isSome_iff_exists.mp hsome
      exact ⟨(file, tree), mem_filterMap_trees.mpr ⟨hfile, hf⟩, rfl⟩
  by_cases hfile : file ∈ visited
  · cases hf : f file <;> simp [hkeys, hfile, hf]
  · simp [hkeys, hfile]

/-- All trees of a map win over those that were there. -/
theorem get?_insertAll_toList (x : SyntaxIndex) (trees : Std.ExtTreeMap FileId FileSyntax)
    (file : FileId) :
    (x.insertAll trees.toList).get? file = trees[file]?.or (x.get? file) := by
  rw [get?_insertAll x fun entry hentry =>
    Std.ExtTreeMap.mem_toList_iff_getElem?_eq_some.mp hentry]
  simp only [Std.ExtTreeMap.map_fst_toList_eq_keys, Std.ExtTreeMap.mem_keys,
    ← Std.ExtTreeMap.isSome_getElem?_iff_mem]
  cases trees[file]? <;> rfl

theorem Made.insertAll {x : SyntaxIndex} (hx : x.Made) (trees : List (FileId × FileSyntax)) :
    (x.insertAll trees).Made := by
  induction trees generalizing x with
  | nil => exact hx
  | cons entry rest ih => exact ih (hx.insert entry.1 entry.2)

/-- A class that none of the new trees declares has at most the owner it had. -/
theorem declaringFile?_of_insertAll {x : SyntaxIndex} {trees : List (FileId × FileSyntax)}
    {name : String} {owner : FileId} (hnew : ∀ entry ∈ trees, ¬ entry.2.Declares name)
    (h : (x.insertAll trees).declaringFile? name = some owner) :
    x.declaringFile? name = some owner := by
  induction trees generalizing x with
  | nil => exact h
  | cons entry rest ih =>
      have hinserted := ih (fun e he => hnew e (List.mem_cons_of_mem _ he)) h
      exact declaringFile?_of_insert (hnew entry (List.mem_cons_self ..)) hinserted

/-- A class that neither the new trees nor those they replace declare keeps its owner. -/
theorem declaringFile?_insertAll_of_not_declared {x : SyntaxIndex}
    {trees : List (FileId × FileSyntax)} {name : String}
    (hnew : ∀ entry ∈ trees, ¬ entry.2.Declares name)
    (hold : ∀ entry ∈ trees, ¬ ∃ c ∈ x.classesIn entry.1, c.name = name) :
    (x.insertAll trees).declaringFile? name = x.declaringFile? name := by
  induction trees generalizing x with
  | nil => rfl
  | cons entry rest ih =>
      have hentry := hnew entry (List.mem_cons_self ..)
      have hstep : (x.insertAll (entry :: rest)).declaringFile? name =
          (x.insert entry.1 entry.2).declaringFile? name := by
        apply ih (fun e he => hnew e (List.mem_cons_of_mem _ he))
        intro e he
        -- A file that comes up again is replaced in the tree that was just put in.
        rw [classesIn, get?_insert]
        split
        · exact hentry
        · exact hold e (List.mem_cons_of_mem _ he)
      rw [hstep]
      exact declaringFile?_insert_of_not_declared hentry (hold entry (List.mem_cons_self ..))

/-- The owner of a class stays as long as its file is not replaced and no new tree declares it. -/
theorem declaringFile?_insertAll_of_not_mem {x : SyntaxIndex}
    {trees : List (FileId × FileSyntax)} {name : String} {owner : FileId}
    (hnew : ∀ entry ∈ trees, ¬ entry.2.Declares name) (howner : owner ∉ trees.map Prod.fst)
    (h : x.declaringFile? name = some owner) :
    (x.insertAll trees).declaringFile? name = some owner := by
  induction trees generalizing x with
  | nil => exact h
  | cons entry rest ih =>
      simp only [List.map_cons, List.mem_cons, not_or] at howner
      apply ih (fun e he => hnew e (List.mem_cons_of_mem _ he)) howner.2
      rw [declaringFile?_insert, if_neg (hnew entry (List.mem_cons_self ..)),
        declaringFile?_erase, if_neg, h]
      rintro ⟨hfile, -⟩
      rw [h] at hfile
      exact howner.1 (Option.some.inj hfile)

/-- Whatever one of the new trees declares has an owner in the end. -/
theorem mem_classNames_insertAll (x : SyntaxIndex) {trees : List (FileId × FileSyntax)}
    {f : FileId → Option FileSyntax} (hf : ∀ entry ∈ trees, f entry.1 = some entry.2)
    {name : String} (h : ∃ entry ∈ trees, entry.2.Declares name) :
    name ∈ (x.insertAll trees).classNames := by
  induction trees generalizing x with
  | nil => simp at h
  | cons entry rest ih =>
      have hrest : ∀ entry ∈ rest, f entry.1 = some entry.2 := fun e he =>
        hf e (List.mem_cons_of_mem _ he)
      by_cases hlater : ∃ entry ∈ rest, entry.2.Declares name
      · exact ih (x.insert entry.1 entry.2) hrest hlater
      · have hnew : ∀ entry ∈ rest, ¬ entry.2.Declares name := fun e he hd => hlater ⟨e, he, hd⟩
        have hentry : entry.2.Declares name := by
          obtain ⟨e, he, hd⟩ := h
          rcases List.mem_cons.mp he with rfl | he
          · exact hd
          · exact absurd hd (hnew e he)
        -- No later tree is for this file: it would be the same tree, which declares the class.
        have howner : entry.1 ∉ rest.map Prod.fst := by
          intro hmem
          obtain ⟨e, he, hfile⟩ := List.mem_map.mp hmem
          have hsame : some e.2 = some entry.2 := by
            rw [← hrest e he, hfile, hf entry (List.mem_cons_self ..)]
          exact hnew e he (Option.some.inj hsame ▸ hentry)
        rw [mem_classNames]
        refine ⟨entry.1, declaringFile?_insertAll_of_not_mem (x := x.insert entry.1 entry.2)
          hnew howner ?_⟩
        rw [declaringFile?_insert, if_pos hentry]

theorem get?_foldl_erase (x : SyntaxIndex) (files : List FileId) (file : FileId) :
    (files.foldl erase x).get? file = if file ∈ files then none else x.get? file := by
  induction files generalizing x with
  | nil => simp
  | cons gone rest ih =>
      rw [List.foldl_cons, ih, get?_erase]
      by_cases hrest : file ∈ rest
      · simp [hrest]
      · by_cases hgone : file = gone <;> simp [hrest, hgone]

theorem declaringFile?_of_foldl_erase {x : SyntaxIndex} {files : List FileId} {name : String}
    {owner : FileId} (h : (files.foldl erase x).declaringFile? name = some owner) :
    x.declaringFile? name = some owner := by
  induction files generalizing x with
  | nil => exact h
  | cons gone rest ih =>
      have herased := ih h
      rw [declaringFile?_erase] at herased
      split at herased
      · contradiction
      · exact herased

end SyntaxIndex

end Workbench
