import Workbench.Path

/-!
Paths and their components. The plain spelling of the components of a path has just these
components, so a path may be written anew at any time without becoming another one. A normal path is
absolute and goes from name to name.
-/

namespace Workbench

/-! ### Pieces -/

theorem splitPieces_ne_nil (separator : Char) (cs : List Char) : splitPieces separator cs ≠ [] := by
  cases cs with
  | nil => simp [splitPieces]
  | cons c rest =>
      rw [splitPieces]
      split
      · simp
      · split <;> simp

theorem splitPieces_of_not_mem {separator : Char} {cs : List Char} (h : separator ∉ cs) :
    splitPieces separator cs = [cs] := by
  induction cs with
  | nil => rfl
  | cons c rest ih =>
      obtain ⟨hc, hrest⟩ := not_or.mp (mt List.mem_cons.mpr h)
      rw [splitPieces, if_neg (Ne.symm hc), ih hrest]

/-- The pieces before and behind a separator. -/
theorem splitPieces_append_cons (separator : Char) (init cs : List Char) :
    splitPieces separator (init ++ separator :: cs) =
      splitPieces separator init ++ splitPieces separator cs := by
  induction init with
  | nil => exact if_pos rfl
  | cons c rest ih =>
      rw [List.cons_append, splitPieces, splitPieces, ih]
      split
      · rfl
      · cases hpieces : splitPieces separator rest with
        | nil => exact absurd hpieces (splitPieces_ne_nil separator rest)
        | cons piece pieces => rfl

theorem splitPieces_append {separator : Char} {piece : List Char} (h : separator ∉ piece)
    (cs : List Char) :
    splitPieces separator (piece ++ separator :: cs) = piece :: splitPieces separator cs := by
  rw [splitPieces_append_cons, splitPieces_of_not_mem h, List.singleton_append]

/-- The last piece is what stands behind the last separator, or all if there is none. -/
theorem getLast?_splitPieces_iff {separator : Char} {cs piece : List Char} :
    (splitPieces separator cs).getLast? = some piece ↔
      separator ∉ piece ∧ (cs = piece ∨ ∃ init, cs = init ++ separator :: piece) := by
  have hlast {cs piece : List Char} (hpiece : separator ∉ piece)
      (h : cs = piece ∨ ∃ init, cs = init ++ separator :: piece) :
      (splitPieces separator cs).getLast? = some piece := by
    rcases h with rfl | ⟨init, rfl⟩
    · rw [splitPieces_of_not_mem hpiece, List.getLast?_singleton]
    · rw [splitPieces_append_cons, splitPieces_of_not_mem hpiece, List.getLast?_concat]
  have hexists (cs : List Char) : ∃ piece, separator ∉ piece ∧
      (cs = piece ∨ ∃ init, cs = init ++ separator :: piece) := by
    induction cs with
    | nil => exact ⟨[], List.not_mem_nil, .inl rfl⟩
    | cons c rest ih =>
        obtain ⟨piece, hpiece, rfl | ⟨init, rfl⟩⟩ := ih
        · by_cases hc : separator = c
          · exact ⟨rest, hpiece, .inr ⟨[], by rw [hc, List.nil_append]⟩⟩
          · exact ⟨c :: rest, mt List.mem_cons.mp (not_or.mpr ⟨hc, hpiece⟩), .inl rfl⟩
        · exact ⟨piece, hpiece, .inr ⟨c :: init, rfl⟩⟩
  refine ⟨fun h => ?_, fun ⟨hpiece, hcs⟩ => hlast hpiece hcs⟩
  obtain ⟨other, hother, hcs⟩ := hexists cs
  cases h.symm.trans (hlast hother hcs)
  exact ⟨hother, hcs⟩

theorem splitPieces_intercalate {separator : Char} {pieces : List (List Char)} (hne : pieces ≠ [])
    (h : ∀ piece ∈ pieces, separator ∉ piece) :
    splitPieces separator ([separator].intercalate pieces) = pieces := by
  induction pieces with
  | nil => exact absurd rfl hne
  | cons piece rest ih =>
      have hpiece := h piece List.mem_cons_self
      cases rest with
      | nil => simpa using splitPieces_of_not_mem hpiece
      | cons next rest =>
          have hrest := ih (List.cons_ne_nil _ _) fun p hp => h p (List.mem_cons_of_mem _ hp)
          rw [List.intercalate_cons_cons, List.append_assoc, List.singleton_append,
            splitPieces_append hpiece, hrest]

theorem not_mem_of_mem_splitPieces {separator : Char} {cs piece : List Char}
    (h : piece ∈ splitPieces separator cs) : separator ∉ piece := by
  induction cs generalizing piece with
  | nil =>
      rw [splitPieces, List.mem_singleton] at h
      simp [h]
  | cons c rest ih =>
      rw [splitPieces] at h
      split at h
      case isTrue =>
        rcases List.mem_cons.mp h with rfl | hrest
        · simp
        · exact ih hrest
      case isFalse hc =>
        split at h
        case h_1 => simpa [List.mem_singleton.mp h] using Ne.symm hc
        case h_2 first others hpieces =>
          rw [hpieces] at ih
          rcases List.mem_cons.mp h with rfl | hother
          · have hfirst := ih List.mem_cons_self
            simp [Ne.symm hc, hfirst]
          · exact ih (List.mem_cons_of_mem _ hother)

namespace Path

/-- A text that can stand between separators and is a name there. -/
def IsName (text : String) : Prop :=
  innerComponent? text = some (.name text) ∧ '/' ∉ text.toList

/-- A component as they stand behind the first one. -/
def IsInner : Component → Prop
  | .parent => True
  | .name text => IsName text
  | _ => False

theorem innerComponent?_text {c : Component} (h : IsInner c) : innerComponent? c.text = some c := by
  cases c with
  | parent => rfl
  | name text => exact h.1
  | root => exact h.elim
  | current => exact h.elim

theorem not_mem_text {c : Component} (h : IsInner c) : '/' ∉ c.text.toList := by
  cases c with
  | parent => decide
  | name text => exact h.2
  | root => exact h.elim
  | current => exact h.elim

theorem isInner_of_innerComponent? {piece : String} {c : Component}
    (h : innerComponent? piece = some c) (hpiece : '/' ∉ piece.toList) : IsInner c := by
  unfold innerComponent? at h
  split at h
  · contradiction
  · contradiction
  · cases h
    trivial
  · rename_i hempty hdot hup
    cases h
    refine ⟨?_, hpiece⟩
    rw [innerComponent?]
    · exact hempty
    · exact hdot
    · exact hup

theorem isName_iff {text : String} :
    IsName text ↔ (text ≠ "" ∧ text ≠ "." ∧ text ≠ "..") ∧ '/' ∉ text.toList := by
  rw [IsName, innerComponent?.eq_def]
  split <;> simp_all

theorem IsName.stepName {text : String} (h : IsName text) :
    text ≠ "" ∧ text ≠ "." ∧ text ≠ ".." := by
  refine ⟨?_, ?_, ?_⟩ <;>
  · rintro rfl
    exact absurd h.1 (by decide)

theorem not_mem_of_mem_pieces {p : Path} {piece : String} (h : piece ∈ p.pieces) :
    '/' ∉ piece.toList := by
  obtain ⟨cs, hcs, rfl⟩ := List.mem_map.mp h
  rw [String.toList_ofList]
  exact not_mem_of_mem_splitPieces hcs

theorem isInner_of_mem_filterMap {p : Path} {pieces : List String} (h : pieces ⊆ p.pieces)
    {c : Component} (hc : c ∈ pieces.filterMap innerComponent?) : IsInner c := by
  obtain ⟨piece, hpiece, heq⟩ := List.mem_filterMap.mp hc
  exact isInner_of_innerComponent? heq (not_mem_of_mem_pieces (h hpiece))

/-! ### Spelling -/

/-- The pieces of a text that is made of pieces, if there are any. -/
theorem pieces_intercalate {texts : List String} (hne : texts ≠ [])
    (h : ∀ text ∈ texts, '/' ∉ text.toList) : (Path.mk ("/".intercalate texts)).pieces = texts := by
  have hsplit : splitPieces '/' (['/'].intercalate (texts.map String.toList)) =
      texts.map String.toList := by
    refine splitPieces_intercalate (by simpa using hne) fun piece hpiece => ?_
    obtain ⟨text, htext, rfl⟩ := List.mem_map.mp hpiece
    exact h text htext
  rw [pieces, String.toList_intercalate, show ("/" : String).toList = ['/'] from rfl, hsplit,
    List.map_map]
  simp [Function.comp_def]

theorem pieces_separator_append (text : String) :
    (Path.mk ("/" ++ text)).pieces = "" :: (Path.mk text).pieces := by
  rw [pieces, String.toList_append, show ("/" : String).toList = ['/'] from rfl,
    List.singleton_append, splitPieces, if_pos rfl]
  rfl

theorem isAbsolute_separator_append (text : String) : (Path.mk ("/" ++ text)).isAbsolute := by
  rw [isAbsolute, String.toList_append]
  rfl

@[simp] theorem isAbsolute_root (cs : List Component) : (ofComponents (.root :: cs)).isAbsolute :=
  isAbsolute_separator_append _

/-- A text made of pieces begins with a separator only if its first piece does. -/
theorem isAbsolute_intercalate {texts : List String}
    (h : ∀ text ∈ texts, text ≠ "" ∧ '/' ∉ text.toList) :
    (Path.mk ("/".intercalate texts)).isAbsolute = false := by
  cases texts with
  | nil => decide
  | cons first rest =>
      obtain ⟨hne, hfirst⟩ := h first List.mem_cons_self
      cases hcs : first.toList with
      | nil => exact absurd (String.toList_eq_nil_iff.mp hcs) hne
      | cons c cs =>
          have hc : c ≠ '/' := by
            rintro rfl
            exact hfirst (hcs ▸ List.mem_cons_self)
          rw [isAbsolute, String.toList_intercalate, List.map_cons, hcs]
          cases rest <;> simp [List.intercalate_cons_cons, hc]

theorem text_ne_empty {c : Component} (h : IsInner c) : c.text ≠ "" := by
  cases c with
  | parent => decide
  | name text => exact h.stepName.1
  | root => exact h.elim
  | current => exact h.elim

theorem text_ne_point {c : Component} (h : IsInner c) : c.text ≠ "." := by
  cases c with
  | parent => decide
  | name text => exact h.stepName.2.1
  | root => exact h.elim
  | current => exact h.elim

section Spelling

variable {cs : List Component} (h : ∀ c ∈ cs, IsInner c)

include h

theorem pieces_texts (hne : cs ≠ []) :
    (Path.mk ("/".intercalate (cs.map Component.text))).pieces = cs.map Component.text := by
  refine pieces_intercalate (by simpa using hne) fun text htext => ?_
  obtain ⟨c, hc, rfl⟩ := List.mem_map.mp htext
  exact not_mem_text (h c hc)

theorem filterMap_texts : (cs.map Component.text).filterMap innerComponent? = cs := by
  induction cs with
  | nil => rfl
  | cons c rest ih =>
      rw [List.map_cons, List.filterMap_cons_some (innerComponent?_text (h c List.mem_cons_self)),
        ih fun c hc => h c (List.mem_cons_of_mem _ hc)]

theorem filterMap_pieces :
    (Path.mk ("/".intercalate (cs.map Component.text))).pieces.filterMap innerComponent? = cs := by
  cases cs with
  | nil => decide
  | cons first rest => rw [pieces_texts h (List.cons_ne_nil _ _), filterMap_texts h]

theorem components_root : (ofComponents (.root :: cs)).components = .root :: cs := by
  rw [ofComponents, components, if_pos (isAbsolute_separator_append _), pieces_separator_append,
    List.filterMap_cons_none rfl, filterMap_pieces h]

theorem isAbsolute_inner :
    (Path.mk ("/".intercalate (cs.map Component.text))).isAbsolute = false := by
  refine isAbsolute_intercalate fun text htext => ?_
  obtain ⟨c, hc, rfl⟩ := List.mem_map.mp htext
  exact ⟨text_ne_empty (h c hc), not_mem_text (h c hc)⟩

theorem ofComponents_inner :
    ofComponents cs = ⟨"/".intercalate (cs.map Component.text)⟩ := by
  cases cs with
  | nil => rfl
  | cons first rest =>
      cases first with
      | root => exact (h .root List.mem_cons_self).elim
      | _ => rfl

theorem components_inner : (ofComponents cs).components = cs := by
  rw [ofComponents_inner h, components, isAbsolute_inner h]
  split
  · contradiction
  · split
    case h_1 rest hpieces =>
      cases cs with
      | nil =>
          have hempty : (Path.mk ("/".intercalate ([].map Component.text))).pieces = [""] := rfl
          exact absurd (List.cons.inj (hempty.symm.trans hpieces)).1 (by decide)
      | cons first others =>
          rw [pieces_texts h (List.cons_ne_nil _ _)] at hpieces
          exact absurd (List.cons.inj hpieces).1 (text_ne_point (h first List.mem_cons_self))
    case h_2 => exact filterMap_pieces h

theorem components_current : (ofComponents (.current :: cs)).components = .current :: cs := by
  have htexts : ∀ text ∈ (Component.current :: cs).map Component.text,
      text ≠ "" ∧ '/' ∉ text.toList := by
    intro text htext
    rcases List.mem_cons.mp htext with rfl | hrest
    · decide
    · obtain ⟨c, hc, rfl⟩ := List.mem_map.mp hrest
      exact ⟨text_ne_empty (h c hc), not_mem_text (h c hc)⟩
  have hpieces := pieces_intercalate (by simp) fun text htext => (htexts text htext).2
  change (Path.mk ("/".intercalate ((Component.current :: cs).map Component.text))).components = _
  rw [components, isAbsolute_intercalate htexts, hpieces, List.map_cons]
  exact congrArg (Component.current :: ·) (filterMap_texts h)

end Spelling

/-- What the components of a path can be: behind the first one there are only names and `..`. -/
theorem components_eq (p : Path) : ∃ cs, (∀ c ∈ cs, IsInner c) ∧
    (p.components = .root :: cs ∧ p.isAbsolute ∨
      (p.components = .current :: cs ∨ p.components = cs) ∧ p.isAbsolute = false) := by
  unfold components
  split
  case isTrue habsolute =>
    exact ⟨_, fun c => isInner_of_mem_filterMap (List.Subset.refl _), .inl ⟨rfl, habsolute⟩⟩
  case isFalse hrelative =>
    have hrelative : p.isAbsolute = false := Bool.eq_false_iff.mpr hrelative
    split
    case h_1 rest hpieces =>
      have hrest : rest ⊆ p.pieces := hpieces ▸ List.subset_cons_self _ _
      exact ⟨_, fun c => isInner_of_mem_filterMap hrest, .inr ⟨.inl rfl, hrelative⟩⟩
    case h_2 =>
      exact ⟨_, fun c => isInner_of_mem_filterMap (List.Subset.refl _),
        .inr ⟨.inr rfl, hrelative⟩⟩

/-- A path that is spelt anew has the same components. -/
theorem components_ofComponents (p : Path) : (ofComponents p.components).components = p.components := by
  obtain ⟨cs, hcs, ⟨heq, -⟩ | ⟨heq | heq, -⟩⟩ := p.components_eq
  · rw [heq, components_root hcs]
  · rw [heq, components_current hcs]
  · rw [heq, components_inner hcs]

theorem isAbsolute_iff {p : Path} : p.isAbsolute ↔ ∃ cs, p.components = .root :: cs := by
  obtain ⟨cs, hcs, ⟨heq, habsolute⟩ | ⟨heq, hrelative⟩⟩ := p.components_eq
  · simp [heq, habsolute]
  · rw [hrelative]
    refine iff_of_false Bool.false_ne_true ?_
    rintro ⟨others, hroot⟩
    rcases heq with heq | heq
    · simp [heq] at hroot
    · exact hcs .root (heq ▸ hroot ▸ List.mem_cons_self)

theorem isAbsolute_congr {p q : Path} (h : p.components = q.components) :
    p.isAbsolute = q.isAbsolute := by
  rw [Bool.eq_iff_iff, isAbsolute_iff, isAbsolute_iff, h]

/-! ### Normal paths -/

/-- A normal path is absolute and goes from name to name. -/
def IsNormal (p : Path) : Prop := p.isAbsolute = true ∧ p.normalComponents = p.components

instance (p : Path) : Decidable p.IsNormal := inferInstanceAs (Decidable (_ ∧ _))

/-- Whether a path is normal is a matter of its components. -/
theorem IsNormal.congr {p q : Path} (h : p.IsNormal) (heq : q.components = p.components) :
    q.IsNormal := by
  have habsolute := isAbsolute_congr heq
  refine ⟨habsolute.trans h.1, ?_⟩
  rw [heq, ← h.2, normalComponents, normalComponents, habsolute, heq]

theorem isInner_foldl {isAbsolute : Bool} {cs stack : List Component} (hcs : ∀ c ∈ cs, IsInner c)
    (hstack : ∀ c ∈ stack, IsInner c) :
    ∀ c ∈ cs.foldl (normalStep isAbsolute) stack, IsInner c := by
  induction cs generalizing stack with
  | nil => exact hstack
  | cons c rest ih =>
      have hrest : ∀ c ∈ rest, IsInner c := fun c hc => hcs c (List.mem_cons_of_mem _ hc)
      refine ih hrest fun inner hinner => ?_
      cases c with
      | root => exact hstack inner hinner
      | current => exact hstack inner hinner
      | name text =>
          rcases List.mem_cons.mp hinner with rfl | hold
          · exact hcs _ List.mem_cons_self
          · exact hstack inner hold
      | parent =>
          simp only [normalStep] at hinner
          split at hinner
          · exact hstack inner (List.mem_cons_of_mem _ hinner)
          · split at hinner
            · exact hstack inner hinner
            · rcases List.mem_cons.mp hinner with rfl | hold
              · exact hcs _ List.mem_cons_self
              · exact hstack inner hold

/-- Whether a relative path begins with its current directory does not show in its normal form. -/
theorem normalComponents_eq_of_relative {p : Path} (h : p.isAbsolute = false) :
    ∃ cs : List Component, (∀ c ∈ cs, IsInner c) ∧
      p.normalComponents = (cs.foldl (normalStep false) []).reverse := by
  obtain ⟨cs, hcs, ⟨-, habsolute⟩ | ⟨heq, -⟩⟩ := p.components_eq
  · simp [h] at habsolute
  · refine ⟨cs, hcs, ?_⟩
    rcases heq with heq | heq <;> rw [normalComponents, h, heq] <;> rfl

theorem isInner_normalComponents {p : Path} (h : p.isAbsolute = false) :
    ∀ c ∈ p.normalComponents, IsInner c := by
  obtain ⟨cs, hcs, heq⟩ := normalComponents_eq_of_relative h
  rw [heq]
  simpa using isInner_foldl hcs (List.forall_mem_nil IsInner)

/-- The names on the way of an absolute path. -/
theorem exists_names_of_foldl {cs : List Component} (h : ∀ c ∈ cs, IsInner c) {stack : List String}
    (hstack : ∀ name ∈ stack, IsName name) :
    ∃ names : List String, (∀ name ∈ names, IsName name) ∧
      cs.foldl (normalStep true) (stack.map Component.name) = names.map Component.name := by
  induction cs generalizing stack with
  | nil => exact ⟨stack, hstack, rfl⟩
  | cons c rest ih =>
      have hrest : ∀ c ∈ rest, IsInner c := fun c hc => h c (List.mem_cons_of_mem _ hc)
      rw [List.foldl_cons]
      cases c with
      | root => exact ih hrest hstack
      | current => exact ih hrest hstack
      | name text =>
          have hpushed : ∀ name ∈ text :: stack, IsName name :=
            List.forall_mem_cons.mpr ⟨h _ List.mem_cons_self, hstack⟩
          exact ih hrest hpushed
      | parent =>
          cases stack with
          | nil => exact ih hrest hstack
          | cons last others =>
              exact ih hrest (List.forall_mem_cons.mp hstack).2

theorem normalComponents_of_isAbsolute {p : Path} (h : p.isAbsolute) :
    ∃ names : List String, (∀ name ∈ names, IsName name) ∧
      p.normalComponents = .root :: names.map Component.name := by
  obtain ⟨cs, hcs, ⟨heq, -⟩ | ⟨-, hrelative⟩⟩ := p.components_eq
  · obtain ⟨names, hnames, hfold⟩ := exists_names_of_foldl hcs (List.forall_mem_nil IsName)
    refine ⟨names.reverse, by simpa using hnames, ?_⟩
    rw [normalComponents, heq, h, List.foldl_cons]
    simp only [normalStep]
    rw [← List.map_nil, hfold, if_pos trivial, List.map_reverse]
  · simp [h] at hrelative

@[simp] theorem isAbsolute_normal (p : Path) : p.normal.isAbsolute = p.isAbsolute := by
  rw [normal]
  cases h : p.isAbsolute with
  | true =>
      obtain ⟨names, -, heq⟩ := normalComponents_of_isAbsolute h
      rw [heq, isAbsolute_root]
  | false =>
      have hinner := isInner_normalComponents h
      rw [ofComponents_inner hinner, isAbsolute_inner hinner]

/-- The normal form of a path has the components that it is spelt with. -/
theorem components_normal (p : Path) : p.normal.components = p.normalComponents := by
  rw [normal]
  cases h : p.isAbsolute with
  | true =>
      obtain ⟨names, hnames, heq⟩ := normalComponents_of_isAbsolute h
      rw [heq, components_root fun c hc => ?_]
      obtain ⟨name, hname, rfl⟩ := List.mem_map.mp hc
      exact hnames name hname
  | false => exact components_inner (isInner_normalComponents h)

end Path

end Workbench
