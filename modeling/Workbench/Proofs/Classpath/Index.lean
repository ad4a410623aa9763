import Mathlib.Data.List.Find
import Workbench.Classpath.Index
import Workbench.Proofs.Maps

/-!
What a classpath index answers. It is searched like the classpath itself: entry after entry, and in
each of them file after file, up to the first one with the class. Whether the answers are right for
some list of entries depends on nothing but which of them has a class first.
-/

namespace Workbench

namespace ClasspathEntry

/-- The first file of an entry that is a class of this name. -/
def classFile? (d : Disk) (name : String) (e : ClasspathEntry) : Option String :=
  (e.classFiles? d).bind fun files => files.find? fun file => ClassFile.binaryName? file = some name

/-- Whether an entry can be read and has a class. -/
def has (d : Disk) (name : String) (e : ClasspathEntry) : Bool := (e.classFile? d name).isSome

end ClasspathEntry

namespace ClasspathIndex

variable {d d' : Disk} {entries own : List ClasspathEntry} {name : String}

/-- Where a class stands in an entry with a number. -/
def locate (d : Disk) (name : String) (numbered : ClasspathEntry × Nat) : Option ClassLocation :=
  (numbered.1.classFile? d name).map (ClassLocation.mk numbered.2)

theorem getElem?_addFiles (number : Nat) (classes : Std.ExtTreeMap String ClassLocation)
    (files : List String) (name : String) :
    (addFiles number classes files)[name]? = classes[name]?.or
      ((files.find? fun file => ClassFile.binaryName? file = some name).map
        (ClassLocation.mk number)) := by
  induction files generalizing classes with
  | nil => simp [addFiles]
  | cons file rest ih =>
      cases hname : ClassFile.binaryName? file with
      | none =>
          have hstep : addFiles number classes (file :: rest) = addFiles number classes rest := by
            simp [addFiles, hname]
          rw [hstep, ih, List.find?_cons, hname]
          simp
      | some found =>
          have hstep : addFiles number classes (file :: rest) =
              addFiles number (classes.insertIfNew found ⟨number, file⟩) rest := by
            simp [addFiles, hname]
          rw [hstep, ih, List.find?_cons, hname]
          simp only [getElem?_insertIfNew_or, Option.or_assoc, Option.some.injEq]
          by_cases heq : found = name <;> simp [heq]

theorem getElem?_addEntries (d : Disk) (number : Nat)
    (classes : Std.ExtTreeMap String ClassLocation) (entries : List ClasspathEntry)
    (name : String) :
    (addEntries d number classes entries)[name]? =
      classes[name]?.or ((entries.zipIdx number).findSome? (locate d name)) := by
  induction entries generalizing number classes with
  | nil => simp [addEntries]
  | cons e rest ih =>
      have hfirst : locate d name (e, number) = (e.classFile? d name).map (ClassLocation.mk number) :=
        rfl
      rw [addEntries, List.zipIdx_cons, List.findSome?_cons, hfirst, ClasspathEntry.classFile?]
      cases e.classFiles? d with
      | none => simp [ih]
      | some files =>
          simp only [ih, getElem?_addFiles, Option.or_assoc, Option.bind_some]
          cases files.find? fun file => ClassFile.binaryName? file = some name <;> simp

/-- An index is searched like its classpath. -/
theorem lookup?_build (d : Disk) (entries : List ClasspathEntry) (name : String) :
    (build d entries).lookup? name = entries.zipIdx.findSome? (locate d name) := by
  have hbuilt := getElem?_addEntries d 0 ∅ entries name
  rw [Std.ExtTreeMap.getElem?_empty, Option.none_or] at hbuilt
  exact hbuilt

theorem contains_eq_isSome (x : ClasspathIndex) (name : String) :
    x.contains name = (x.lookup? name).isSome :=
  Std.ExtTreeMap.contains_eq_isSome_getElem?

/-- An index answers for some entries: it knows just the classes that one of them has, and finds
each of them in the first that has it. -/
structure Respects (d : Disk) (own : List ClasspathEntry) (x : ClasspathIndex) : Prop where
  contains_iff : ∀ name, x.contains name = true ↔ ∃ e ∈ own, e.has d name = true
  getElem?_entry : ∀ name l, x.lookup? name = some l →
    x.entries[l.entry]? = own.find? (ClasspathEntry.has d name)

theorem respects_build (d : Disk) (entries : List ClasspathEntry) :
    (build d entries).Respects d entries where
  contains_iff name := by
    rw [contains_eq_isSome, lookup?_build, List.isSome_findSome?, List.any_eq_true]
    constructor
    · rintro ⟨⟨e, number⟩, hmem, hfound⟩
      exact ⟨e, List.fst_mem_of_mem_zipIdx hmem, by
        simpa [locate, ClasspathEntry.has] using hfound⟩
    · rintro ⟨e, hmem, hfound⟩
      obtain ⟨number, hnumber⟩ := List.getElem?_of_mem hmem
      exact ⟨(e, number), List.mk_mem_zipIdx_iff_getElem?.mpr hnumber, by
        simpa [locate, ClasspathEntry.has] using hfound⟩
  getElem?_entry name l hl := by
    rw [lookup?_build] at hl
    obtain ⟨before, ⟨e, number⟩, after, hsplit, hfound, hbefore⟩ :=
      List.findSome?_eq_some_iff.mp hl
    have hnumber : entries[number]? = some e :=
      List.mk_mem_zipIdx_iff_getElem?.mp (hsplit ▸ List.mem_append_right _ List.mem_cons_self)
    obtain ⟨file, hfile, rfl⟩ := Option.map_eq_some_iff.mp hfound
    have hentries := congrArg (List.map Prod.fst) hsplit
    rw [List.zipIdx_map_fst, List.map_append, List.map_cons] at hentries
    refine hnumber.trans (Eq.symm (List.find?_eq_some_iff_append.mpr
      ⟨by simp [ClasspathEntry.has, hfile], _, _, hentries, fun e' hmem => ?_⟩))
    obtain ⟨numbered, hnumbered, rfl⟩ := List.mem_map.mp hmem
    have hnone := hbefore numbered hnumbered
    simpa [locate, ClasspathEntry.has] using hnone

theorem Respects.lookup?_eq_none_iff {x : ClasspathIndex} (h : x.Respects d own) :
    x.lookup? name = none ↔ own.find? (ClasspathEntry.has d name) = none := by
  rw [← Option.not_isSome_iff_eq_none, ← contains_eq_isSome, h.contains_iff]
  simp

theorem find?_has_congr (h : ∀ e ∈ own, ∀ name, e.has d name = e.has d' name) (name : String) :
    own.find? (ClasspathEntry.has d name) = own.find? (ClasspathEntry.has d' name) :=
  List.find?_congr fun e he => h e he name

theorem respects_congr {x : ClasspathIndex} (h : ∀ e ∈ own, ∀ name, e.has d name = e.has d' name) :
    x.Respects d own ↔ x.Respects d' own := by
  have hsame : ∀ {d d' : Disk}, (∀ e ∈ own, ∀ name, e.has d name = e.has d' name) →
      x.Respects d own → x.Respects d' own := by
    intro d d' h hrespects
    refine ⟨fun name => ?_, fun name l hl => ?_⟩
    · rw [hrespects.contains_iff]
      exact exists_congr fun e => and_congr_right fun he => by rw [h e he]
    · rw [hrespects.getElem?_entry name l hl, find?_has_congr h]
  exact ⟨hsame h, hsame fun e he name => (h e he name).symm⟩

/-- An index that was built for some entries answers for others just if both lists have every class
in the same entry first. -/
theorem respects_build_iff :
    (build d entries).Respects d own ↔
      ∀ name, entries.find? (ClasspathEntry.has d name) = own.find? (ClasspathEntry.has d name) := by
  have hbuilt := respects_build d entries
  constructor
  · intro hown name
    cases hl : (build d entries).lookup? name with
    | none => rw [hbuilt.lookup?_eq_none_iff.mp hl, hown.lookup?_eq_none_iff.mp hl]
    | some l => rw [← hbuilt.getElem?_entry name l hl, hown.getElem?_entry name l hl]
  · intro hsame
    refine ⟨fun name => ?_, fun name l hl => (hbuilt.getElem?_entry name l hl).trans (hsame name)⟩
    rw [hbuilt.contains_iff, ← List.find?_isSome, hsame, List.find?_isSome]

end ClasspathIndex

end Workbench
