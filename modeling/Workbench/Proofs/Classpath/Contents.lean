import Workbench.Proofs.Classpath.Index
import Workbench.Proofs.Disk.Walk

/-!
What a classpath index holds. The names of class files are said here without the way they are taken
apart: a class file has the binary name that is spelt in front of its extension, and a binary name
has the simple name that stands behind its last point or dollar sign.
-/

namespace Workbench

/-! ### Names -/

namespace Path

/-- The extension is what stands behind the last point, unless that point leads the name. -/
theorem nameExtension?_eq_some_iff {name extension : String} :
    nameExtension? name = some extension ↔
      '.' ∉ extension.toList ∧ ∃ stem, stem ≠ "" ∧ name = stem ++ "." ++ extension := by
  constructor
  · intro h
    rw [nameExtension?] at h
    split at h
    case h_1 => contradiction
    case h_2 => contradiction
    case h_3 => contradiction
    case h_4 last others hone hhidden hreverse =>
      cases h
      have hpieces : splitPieces '.' name.toList = others.reverse ++ [last] := by
        rw [← List.reverse_reverse (splitPieces '.' name.toList), hreverse, List.reverse_cons]
      have hlast : (splitPieces '.' name.toList).getLast? = some last := by
        rw [hpieces, List.getLast?_concat]
      obtain ⟨hpoint, hname | ⟨init, hname⟩⟩ := getLast?_splitPieces_iff.mp hlast
      · rw [hname, splitPieces_of_not_mem hpoint] at hreverse
        exact absurd (List.cons.inj hreverse).2.symm hone
      · rw [hname, splitPieces_append_cons, splitPieces_of_not_mem hpoint] at hpieces
        have hinit := List.append_cancel_right hpieces
        refine ⟨by simpa using hpoint, String.ofList init, fun hempty => hhidden ?_, ?_⟩
        · have hnil : init = [] := by simpa using congrArg String.toList hempty
          rw [hnil] at hinit
          exact List.reverse_eq_iff.mp hinit.symm
        · rw [← String.toList_inj, hname]
          simp
  · rintro ⟨hpoint, stem, hne, rfl⟩
    have hpieces : splitPieces '.' (stem ++ "." ++ extension).toList =
        splitPieces '.' stem.toList ++ [extension.toList] := by
      have htext : (stem ++ "." ++ extension).toList = stem.toList ++ '.' :: extension.toList := by
        simp
      rw [htext, splitPieces_append_cons, splitPieces_of_not_mem hpoint]
    rw [nameExtension?, hpieces, List.reverse_concat]
    split
    case h_1 => contradiction
    case h_2 heq =>
      exact absurd (List.reverse_eq_nil_iff.mp (List.cons.inj heq).2) (splitPieces_ne_nil _ _)
    case h_3 heq =>
      have hstem := List.reverse_eq_iff.mp (List.cons.inj heq).2
      have hjoined := intercalate_splitPieces '.' stem.toList
      rw [hstem] at hjoined
      exact absurd (String.toList_eq_nil_iff.mp hjoined.symm) hne
    case h_4 heq =>
      rw [← (List.cons.inj heq).1, String.ofList_toList]

end Path

namespace ClassFile

/-- Whether a way without its extension names the description of a module or package. -/
def IsDescription (stem : String) : Prop :=
  ∃ description ∈ descriptions, stem = description ∨ ("/" ++ description).toList <:+ stem.toList

/-- A class file has the binary name that is spelt in front of the extension, with points for
separators. Descriptions have none. -/
def IsNamed (file name : String) : Prop :=
  ∃ stem, file = stem ++ ".class" ∧ ¬ IsDescription stem ∧
    name = String.ofList (stem.toList.map fun c => if c = '/' then '.' else c)

/-- The characters between packages, classes and the classes in them. -/
def isBoundary (c : Char) : Bool := c = '.' || c = '$'

/-- A binary name has the simple name that stands behind its last boundary. -/
def HasSimpleName (name simple : String) : Prop :=
  (∀ c ∈ simple.toList, ¬ isBoundary c) ∧
    (name = simple ∨ ∃ init c, isBoundary c ∧ name.toList = init ++ c :: simple.toList)

theorem not_mem_description : ∀ description ∈ descriptions, '/' ∉ description.toList := by
  decide

theorem isDescription_iff (stem : List Char) :
    descriptions.contains (String.ofList ((splitPieces '/' stem).getLast?.getD stem)) ↔
      IsDescription (String.ofList stem) := by
  obtain ⟨simple, hsimple⟩ := Option.isSome_iff_exists.mp
    (List.getLast?_isSome.mpr (splitPieces_ne_nil '/' stem))
  rw [hsimple, Option.getD_some, List.contains_iff_mem, IsDescription]
  constructor
  · intro hmem
    obtain ⟨-, rfl | ⟨init, rfl⟩⟩ := getLast?_splitPieces_iff.mp hsimple
    · exact ⟨_, hmem, .inl rfl⟩
    · refine ⟨_, hmem, .inr ⟨init, ?_⟩⟩
      simp
  · rintro ⟨description, hmem, hstem⟩
    have hlast : (splitPieces '/' stem).getLast? = some description.toList := by
      refine getLast?_splitPieces_iff.mpr ⟨not_mem_description _ hmem, hstem.imp ?_ ?_⟩
      · rintro rfl
        rw [String.toList_ofList]
      · rintro ⟨init, heq⟩
        exact ⟨init, by simpa using heq.symm⟩
    rw [hsimple, Option.some.injEq] at hlast
    rwa [hlast, String.ofList_toList]

theorem binaryName?_append {stem name : String} :
    binaryName? (stem ++ ".class") = some name ↔ ¬ IsDescription stem ∧
      name = String.ofList (stem.toList.map fun c => if c = '/' then '.' else c) := by
  have hsuffix : suffix.isSuffixOf (stem ++ ".class").toList := by
    rw [List.isSuffixOf_iff_suffix, String.toList_append]
    exact List.suffix_append _ _
  have htake : (stem ++ ".class").toList.take ((stem ++ ".class").toList.length - suffix.length) =
      stem.toList := by
    have hlength : (stem ++ ".class").toList.length - suffix.length = stem.toList.length := by
      rw [String.toList_append, List.length_append]
      exact Nat.add_sub_cancel ..
    rw [hlength, String.toList_append, List.take_left]
  have hdescription := isDescription_iff stem.toList
  rw [String.ofList_toList] at hdescription
  rw [binaryName?, if_pos hsuffix, htake, ← hdescription]
  dsimp only
  split
  · rename_i h
    exact iff_of_false nofun fun hnot => hnot.1 h
  · rename_i h
    rw [Option.some.injEq, and_iff_right h]
    exact eq_comm

theorem binaryName?_eq_some_iff {file name : String} :
    binaryName? file = some name ↔ IsNamed file name := by
  constructor
  · intro h
    have hsuffix : suffix <:+ file.toList := by
      rw [binaryName?] at h
      split at h
      case isTrue hsuffix => exact List.isSuffixOf_iff_suffix.mp hsuffix
      case isFalse => contradiction
    obtain ⟨stem, hfile⟩ := hsuffix
    have heq : file = String.ofList stem ++ ".class" := by
      rw [← String.toList_inj, ← hfile, String.toList_append, String.toList_ofList]
      rfl
    rw [heq] at h ⊢
    exact ⟨_, rfl, binaryName?_append.mp h⟩
  · rintro ⟨stem, rfl, h⟩
    exact binaryName?_append.mpr h

/-- A name has one simple name only. -/
theorem HasSimpleName.unique {name simple other : String} (h : HasSimpleName name simple)
    (hother : HasSimpleName name other) : simple = other := by
  have hlast {simple : String} (h : HasSimpleName name simple) :
      simple.toList.reverse = name.toList.reverse.takeWhile fun c => !isBoundary c := by
    obtain ⟨hnone, hend⟩ := h
    obtain ⟨before, hbefore, heq⟩ : ∃ before, before.takeWhile (fun c => !isBoundary c) = [] ∧
        name.toList.reverse = simple.toList.reverse ++ before := by
      rcases hend with rfl | ⟨init, c, hc, heq⟩
      · exact ⟨[], rfl, (List.append_nil _).symm⟩
      · exact ⟨c :: init.reverse, List.takeWhile_cons_of_neg (by simpa using hc), by simp [heq]⟩
    rw [heq, List.takeWhile_append_of_pos, hbefore, List.append_nil]
    exact fun c hc => by simpa using hnone c (List.mem_reverse.mp hc)
  rw [← String.toList_inj, ← List.reverse_inj, hlast h, hlast hother]

theorem hasSimpleName_simpleName (name : String) : HasSimpleName name (simpleName name) := by
  obtain ⟨last, hlast⟩ := Option.isSome_iff_exists.mp
    (List.getLast?_isSome.mpr (splitPieces_ne_nil '.' name.toList))
  obtain ⟨inner, hinner⟩ := Option.isSome_iff_exists.mp
    (List.getLast?_isSome.mpr (splitPieces_ne_nil '$' last))
  have hname : simpleName name = String.ofList inner := by
    rw [simpleName, hlast, Option.getD_some, hinner, Option.getD_some]
  obtain ⟨hpoint, hbefore⟩ := getLast?_splitPieces_iff.mp hlast
  obtain ⟨hdollar, hwithin⟩ := getLast?_splitPieces_iff.mp hinner
  have hsubset : inner ⊆ last := by
    rcases hwithin with rfl | ⟨init, rfl⟩
    · exact List.Subset.refl last
    · simp
  rw [hname, HasSimpleName, String.toList_ofList]
  refine ⟨fun c hc hboundary => ?_, ?_⟩
  · rcases Bool.or_eq_true_iff.mp hboundary with heq | heq
    · exact hpoint (of_decide_eq_true heq ▸ hsubset hc)
    · exact hdollar (of_decide_eq_true heq ▸ hc)
  · rcases hwithin with rfl | ⟨init, rfl⟩
    · refine hbefore.imp (fun heq => ?_) fun ⟨init, heq⟩ => ⟨init, '.', by decide, heq⟩
      rw [← heq, String.ofList_toList]
    · right
      rcases hbefore with heq | ⟨front, heq⟩
      · exact ⟨init, '$', by decide, heq⟩
      · exact ⟨front ++ '.' :: init, '$', by decide, by simp [heq]⟩

theorem simpleName_eq_iff {name simple : String} :
    simpleName name = simple ↔ HasSimpleName name simple :=
  ⟨fun h => h ▸ hasSimpleName_simpleName name, (hasSimpleName_simpleName name).unique⟩

end ClassFile

/-! ### Class files -/

namespace ClasspathEntry

variable {d : Disk} {e : ClasspathEntry}

/-- An entry can be read if it is a directory that is there, or a file that is an archive. -/
def IsReadable (d : Disk) (e : ClasspathEntry) : Prop :=
  match e.kind with
  | .classDir => d.isDir e.path
  | .jar => ∃ content modified names,
      d.file? e.path = some (content, modified) ∧ content.entryNames? = some names

/-- An entry lists a class file: one somewhere below the directory, with directories all the way
down to it, or one in the archive outside the directory of overlays. -/
def Lists (d : Disk) (e : ClasspathEntry) (file : String) : Prop :=
  match e.kind with
  | .classDir => d.isDir e.path ∧ ∃ top way stem content modified,
      d.resolve e.path = .ok top ∧ stem ≠ "" ∧
        (∀ init, init ≠ [] → init <+: way → d.node? (top ++ init) = some .dir) ∧
          d.node? (top ++ way ++ [stem ++ ".class"]) = some (.file content modified) ∧
            file = "/".intercalate (way ++ [stem ++ ".class"])
  | .jar => ∃ content modified names,
      d.file? e.path = some (content, modified) ∧ content.entryNames? = some names ∧
        file ∈ names ∧ ".class".toList <:+ file.toList ∧ ¬ "META-INF/".toList <+: file.toList

theorem isSome_classFiles?_iff : (e.classFiles? d).isSome ↔ e.IsReadable d := by
  rw [classFiles?, IsReadable]
  cases e.kind with
  | classDir =>
      dsimp only
      split
      case isTrue hdir =>
        refine iff_of_true ?_ hdir
        split <;> rfl
      case isFalse hnot => exact iff_of_false Bool.false_ne_true hnot
  | jar =>
      dsimp only
      cases d.file? e.path with
      | none => simp
      | some file =>
          obtain ⟨content, modified⟩ := file
          rw [Option.bind_some, Content.classFiles?, Option.isSome_map, Option.isSome_iff_exists]
          simp

/-- The class files of a directory are the files below it with the extension of class files. -/
theorem mem_classFilesIn {top : Place} {file : String} :
    file ∈ d.classFilesIn top ↔ ∃ way stem content modified, stem ≠ "" ∧
      (∀ init, init ≠ [] → init <+: way → d.node? (top ++ init) = some .dir) ∧
        d.node? (top ++ way ++ [stem ++ ".class"]) = some (.file content modified) ∧
          file = "/".intercalate (way ++ [stem ++ ".class"]) := by
  rw [Disk.classFilesIn, List.mem_filterMap]
  constructor
  · rintro ⟨⟨place, node⟩, hmem, hfile⟩
    obtain ⟨way, last, rfl, hway, hnode, -⟩ := Disk.mem_walk.mp hmem
    cases node with
    | dir => contradiction
    | link target => contradiction
    | file content modified =>
        dsimp only at hfile
        rw [List.getLast?_concat, Option.bind_some, List.append_assoc, List.drop_left] at hfile
        by_cases hextension : Path.nameExtension? last = some "class"
        · obtain ⟨-, stem, hstem, hlast⟩ := Path.nameExtension?_eq_some_iff.mp hextension
          rw [String.append_assoc, show ("." ++ "class" : String) = ".class" from rfl] at hlast
          rw [if_pos hextension, Option.some.injEq, hlast] at hfile
          exact ⟨way, stem, content, modified, hstem, (Disk.descends_iff.mp hway).2, hlast ▸ hnode,
            hfile.symm⟩
        · rw [if_neg hextension] at hfile
          contradiction
  · rintro ⟨way, stem, content, modified, hstem, hway, hnode, rfl⟩
    have hdown : d.Descends (fun _ => true) top way :=
      Disk.descends_iff.mpr ⟨fun _ _ => rfl, hway⟩
    refine ⟨_, Disk.mem_walk.mpr ⟨way, _, rfl, hdown, hnode, fun _ => rfl⟩, ?_⟩
    have hextension : Path.nameExtension? (stem ++ ".class") = some "class" :=
      Path.nameExtension?_eq_some_iff.mpr ⟨by decide, stem, hstem, by
        rw [String.append_assoc]
        rfl⟩
    dsimp only
    rw [List.getLast?_concat, Option.bind_some, if_pos hextension, List.append_assoc,
      List.drop_left]

theorem exists_mem_classFiles?_iff {file : String} :
    (∃ files, e.classFiles? d = some files ∧ file ∈ files) ↔ e.Lists d file := by
  rw [classFiles?, Lists]
  cases e.kind with
  | classDir =>
      dsimp only
      split
      case isTrue hdir =>
        rw [and_iff_right hdir]
        cases hresolve : d.resolve e.path with
        | error e => simp
        | ok top => simp [mem_classFilesIn]
      case isFalse hnot => simp [hnot]
  | jar =>
      dsimp only
      cases d.file? e.path with
      | none => simp
      | some found =>
          obtain ⟨content, modified⟩ := found
          rw [Option.bind_some, Content.classFiles?]
          have hkept (name : String) : (ClassFile.suffix.isSuffixOf name.toList &&
              !ClassFile.overlayDir.isPrefixOf name.toList) = true ↔
              ".class".toList <:+ name.toList ∧ ¬ "META-INF/".toList <+: name.toList := by
            rw [Bool.and_eq_true, Bool.not_eq_true', ← Bool.not_eq_true,
              List.isSuffixOf_iff_suffix, List.isPrefixOf_iff_prefix]
            rfl
          constructor
          · rintro ⟨files, heq, hmem⟩
            obtain ⟨names, hnames, rfl⟩ := Option.map_eq_some_iff.mp heq
            obtain ⟨hname, hfile⟩ := List.mem_filter.mp hmem
            exact ⟨content, modified, names, rfl, hnames, hname, (hkept file).mp hfile⟩
          · rintro ⟨_, _, names, heq, hnames, hname, hfile⟩
            cases heq
            exact ⟨_, Option.map_eq_some_iff.mpr ⟨names, hnames, rfl⟩,
              List.mem_filter.mpr ⟨hname, (hkept file).mpr hfile⟩⟩

instance (d : Disk) (e : ClasspathEntry) : Decidable (e.IsReadable d) :=
  decidable_of_iff _ isSome_classFiles?_iff

theorem Lists.isReadable {file : String} (h : e.Lists d file) : e.IsReadable d := by
  obtain ⟨files, hfiles, -⟩ := exists_mem_classFiles?_iff.mpr h
  exact isSome_classFiles?_iff.mp (Option.isSome_of_eq_some hfiles)

theorem classFile?_eq_some {name file : String} (h : e.classFile? d name = some file) :
    e.Lists d file ∧ ClassFile.IsNamed file name := by
  obtain ⟨files, hfiles, hfind⟩ := Option.bind_eq_some_iff.mp h
  refine ⟨exists_mem_classFiles?_iff.mp ⟨files, hfiles, List.mem_of_find?_eq_some hfind⟩, ?_⟩
  exact ClassFile.binaryName?_eq_some_iff.mp (by simpa using List.find?_some hfind)

theorem classFile?_eq_none_iff {name : String} : e.classFile? d name = none ↔
    ∀ file, e.Lists d file → ¬ ClassFile.IsNamed file name := by
  constructor
  · intro h file hlists hnamed
    obtain ⟨files, hfiles, hmem⟩ := exists_mem_classFiles?_iff.mpr hlists
    rw [classFile?, hfiles, Option.bind_some, List.find?_eq_none] at h
    exact h file hmem (by simpa using ClassFile.binaryName?_eq_some_iff.mpr hnamed)
  · intro h
    rw [Option.eq_none_iff_forall_ne_some]
    intro file hfile
    obtain ⟨hlists, hnamed⟩ := classFile?_eq_some hfile
    exact h file hlists hnamed

theorem has_iff {name : String} : e.has d name ↔
    ∃ file, e.Lists d file ∧ ClassFile.IsNamed file name := by
  rw [has, Option.isSome_iff_ne_none, Ne, classFile?_eq_none_iff]
  simp

end ClasspathEntry

/-! ### Texts that begin alike -/

theorem compare_text_eq_lt {a b : String} : compare a b = .lt ↔ a.toList < b.toList :=
  compareOfLessAndEq_eq_lt

theorem isLE_compare_text {a b : String} : (compare a b).isLE ↔ ¬ b.toList < a.toList := by
  rw [← compare_text_eq_lt, Ordering.isLE_iff_ne_gt, ← Std.OrientedCmp.gt_iff_lt]

/-- What stands between a text and one that begins with it begins with it, too. -/
theorem isPrefix_of_between {first a b : List Char} (hfirst : ¬ a < first) (hle : ¬ b < a)
    (h : first <+: b) : first <+: a := by
  induction first generalizing a b with
  | nil => exact List.nil_prefix
  | cons c rest ih =>
      obtain ⟨more, rfl⟩ := h
      cases a with
      | nil => exact absurd (List.nil_lt_cons c rest) hfirst
      | cons x a =>
          rw [List.cons_lt_cons_iff, not_or] at hfirst
          rw [List.cons_append, List.cons_lt_cons_iff, not_or] at hle
          obtain ⟨hbelow, hrest⟩ := hfirst
          obtain ⟨habove, hbehind⟩ := hle
          obtain rfl : c = x := Char.le_antisymm (Char.not_lt.mp hbelow) (Char.not_lt.mp habove)
          exact List.cons_prefix_cons.mpr ⟨rfl, ih (fun hlt => hrest ⟨rfl, hlt⟩)
            (fun hlt => hbehind ⟨rfl, hlt⟩) (List.prefix_append rest more)⟩

theorem takeWhile_eq_filter {α : Type} {p : α → Bool} {xs : List α}
    (h : xs.Pairwise fun a b => p b → p a) : xs.takeWhile p = xs.filter p := by
  induction xs with
  | nil => rfl
  | cons x rest ih =>
      obtain ⟨hx, hrest⟩ := List.pairwise_cons.mp h
      by_cases hp : p x
      · rw [List.takeWhile_cons_of_pos hp, List.filter_cons_of_pos hp, ih hrest]
      · have hnone : rest.filter p = [] :=
          List.filter_eq_nil_iff.mpr fun b hb hpb => hp (hx b hb hpb)
        rw [List.takeWhile_cons_of_neg hp, List.filter_cons_of_neg hp, hnone]

namespace ClasspathIndex

variable {d : Disk} {entries : List ClasspathEntry} {name start : String}

theorem pairwise_namesFrom (x : ClasspathIndex) (start : String) :
    (x.namesFrom start).Pairwise fun a b => compare a b = .lt :=
  x.classes.ordered_keys.filter _

/-- The names that begin with a text stand together, so none is missed behind the first that does
not. -/
theorem namesBeginning_eq_filter (x : ClasspathIndex) (start : String) :
    x.namesBeginning start =
      (x.namesFrom start).filter fun name => start.toList.isPrefixOf name.toList := by
  refine takeWhile_eq_filter ((x.pairwise_namesFrom start).imp_of_mem fun ha _ hlt hb => ?_)
  rw [List.isPrefixOf_iff_prefix] at hb ⊢
  have hfirst := isLE_compare_text.mp (List.mem_filter.mp ha).2
  exact isPrefix_of_between hfirst (List.lt_asymm (compare_text_eq_lt.mp hlt)) hb

theorem mem_namesBeginning {x : ClasspathIndex} : name ∈ x.namesBeginning start ↔
    x.contains name ∧ start.toList <+: name.toList := by
  rw [namesBeginning_eq_filter, namesFrom, List.filter_filter, List.mem_filter,
    Std.ExtTreeMap.mem_keys, Bool.and_eq_true, List.isPrefixOf_iff_prefix, isLE_compare_text]
  exact and_congr_right fun _ => and_iff_left_of_imp fun h => List.not_lt.mpr h.le

theorem containsSimpleName_build_iff {simple : String} :
    (build d entries).containsSimpleName simple ↔
      ∃ name, (build d entries).contains name ∧ ClassFile.HasSimpleName name simple := by
  have hcontains : (build d entries).containsSimpleName simple ↔
      simple ∈ (build d entries).classes.keys.map ClassFile.simpleName := by
    rw [containsSimpleName, build, Std.ExtTreeSet.contains_ofList, List.contains_iff_mem]
  rw [hcontains, List.mem_map]
  refine exists_congr fun name => ?_
  rw [ClassFile.simpleName_eq_iff, Std.ExtTreeMap.mem_keys]
  rfl

/-- A class is found in the first entry that has it. -/
theorem lookup?_build_eq_some {l : ClassLocation} (h : (build d entries).lookup? name = some l) :
    (∃ e, entries[l.entry]? = some e ∧ e.classFile? d name = some l.path) ∧
      ∀ number < l.entry, ∀ e, entries[number]? = some e → e.classFile? d name = none := by
  rw [lookup?_build] at h
  obtain ⟨before, ⟨e, number⟩, after, hsplit, hfound, hbefore⟩ := List.findSome?_eq_some_iff.mp h
  obtain ⟨file, hfile, rfl⟩ := Option.map_eq_some_iff.mp hfound
  have hentry : entries[number]? = some e :=
    List.mk_mem_zipIdx_iff_getElem?.mp (hsplit ▸ List.mem_append_right _ List.mem_cons_self)
  have hnumbered (i : Nat) : entries.zipIdx[i]? = entries[i]?.map fun e => (e, i) := by
    rw [List.getElem?_zipIdx, Nat.zero_add]
  have hlength : number = before.length := by
    have hplace := hnumbered before.length
    rw [hsplit, List.getElem?_append_right (Nat.le_refl _), Nat.sub_self,
      List.getElem?_cons_zero] at hplace
    obtain ⟨other, -, heq⟩ := Option.map_eq_some_iff.mp hplace.symm
    exact (Prod.mk.inj heq).2.symm
  refine ⟨⟨e, hentry, hfile⟩, fun i hi other hother => ?_⟩
  have hplace := hnumbered i
  rw [hsplit, List.getElem?_append_left (hlength ▸ hi), hother] at hplace
  simpa [locate] using hbefore _ (List.mem_of_getElem? hplace)

/-- What an index of a classpath has in it: just the classes with a class file in an entry that can
be read, each under the first entry that lists one, their simple names, and all of their names that
begin with a text, in order. -/
structure IsIndexOf (d : Disk) (entries : List ClasspathEntry) (x : ClasspathIndex) : Prop where
  entries_eq : x.entries = entries
  isSome_lookup?_iff : ∀ name, (x.lookup? name).isSome ↔
    ∃ e ∈ entries, e.IsReadable d ∧ ∃ file, e.Lists d file ∧ ClassFile.IsNamed file name
  lookup?_eq_some : ∀ name l, x.lookup? name = some l →
    (∃ e, entries[l.entry]? = some e ∧ e.Lists d l.path ∧ ClassFile.IsNamed l.path name) ∧
      ∀ number < l.entry, ∀ e, entries[number]? = some e →
        ∀ file, e.Lists d file → ¬ ClassFile.IsNamed file name
  containsSimpleName_iff : ∀ simple, x.containsSimpleName simple ↔
    ∃ name, (x.lookup? name).isSome ∧ ClassFile.HasSimpleName name simple
  pairwise_namesBeginning : ∀ start,
    (x.namesBeginning start).Pairwise fun a b => compare a b = .lt
  mem_namesBeginning_iff : ∀ start name, name ∈ x.namesBeginning start ↔
    (x.lookup? name).isSome ∧ start.toList <+: name.toList

/-- An index has in it what its classpath lists, and there is a warning for just the entries that
cannot be read. -/
theorem isIndexOf_build (d : Disk) (entries : List ClasspathEntry) :
    (build d entries).IsIndexOf d entries ∧
      buildWarnings d entries =
        (entries.filter fun e => ¬ e.IsReadable d).map unreadableEntry := by
  refine ⟨⟨rfl, fun name => ?_, fun name l hl => ?_, fun simple => ?_, fun start => ?_,
    fun start name => ?_⟩, ?_⟩
  · rw [← contains_eq_isSome, (respects_build d entries).contains_iff]
    refine exists_congr fun e => and_congr_right fun _ => ?_
    rw [ClasspathEntry.has_iff]
    exact (and_iff_right_of_imp fun ⟨file, hlists, _⟩ => hlists.isReadable).symm
  · obtain ⟨⟨e, hentry, hfile⟩, hbefore⟩ := lookup?_build_eq_some hl
    exact ⟨⟨e, hentry, ClasspathEntry.classFile?_eq_some hfile⟩, fun number hnumber other hother =>
      ClasspathEntry.classFile?_eq_none_iff.mp (hbefore number hnumber other hother)⟩
  · rw [containsSimpleName_build_iff]
    simp only [contains_eq_isSome]
  · rw [namesBeginning_eq_filter]
    exact (pairwise_namesFrom _ start).filter _
  · rw [mem_namesBeginning, contains_eq_isSome]
  · have hreadable : (fun e : ClasspathEntry => (e.classFiles? d).isNone) =
        fun e => decide (¬ e.IsReadable d) := by
      funext e
      rw [← Option.not_isSome, Bool.eq_iff_iff, decide_eq_true_iff, Bool.not_eq_true',
        ← Bool.not_eq_true, ClasspathEntry.isSome_classFiles?_iff]
    rw [buildWarnings, hreadable]

end ClasspathIndex

end Workbench
