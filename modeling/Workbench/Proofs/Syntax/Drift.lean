import Mathlib.Data.List.Nodup
import Workbench.Proofs.Histories
import Workbench.Proofs.Sorting
import Workbench.Proofs.Syntax.Surface

/-!
The drift between two captures. A capture puts interfaces and members in order, so that two captured
classes are equal just if they were described with the same ones, in whatever order. The drift names
each class that is described differently once, and taken the other way round it names the same
classes.
-/

namespace Workbench

/-! ### Orders of members -/

theorem MethodSignature.compare_eq_compareLex :
    (compare : MethodSignature → MethodSignature → Ordering) =
      compareLex (compareOn name) (compareLex (compareOn parameters)
        (compareLex (compareOn returns) (compareOn modifiers))) := rfl

instance : Std.TransOrd MethodSignature := by
  unfold Std.TransOrd
  rw [MethodSignature.compare_eq_compareLex]
  infer_instance

instance : Std.LawfulEqOrd MethodSignature where
  eq_of_compare {a b} h := by
    rw [MethodSignature.compare_eq_compareLex] at h
    obtain ⟨hname, h⟩ := Ordering.then_eq_eq.1 h
    obtain ⟨hparameters, h⟩ := Ordering.then_eq_eq.1 h
    obtain ⟨hreturns, hmodifiers⟩ := Ordering.then_eq_eq.1 h
    have hname : a.name = b.name := Std.LawfulEqOrd.eq_of_compare hname
    have hparameters : a.parameters = b.parameters := Std.LawfulEqOrd.eq_of_compare hparameters
    have hreturns : a.returns = b.returns := Std.LawfulEqOrd.eq_of_compare hreturns
    have hmodifiers : a.modifiers = b.modifiers := Std.LawfulEqOrd.eq_of_compare hmodifiers
    cases a
    cases b
    simp_all only

theorem FieldSignature.compare_eq_compareLex :
    (compare : FieldSignature → FieldSignature → Ordering) =
      compareLex (compareOn name) (compareLex (compareOn type) (compareOn modifiers)) := rfl

instance : Std.TransOrd FieldSignature := by
  unfold Std.TransOrd
  rw [FieldSignature.compare_eq_compareLex]
  infer_instance

instance : Std.LawfulEqOrd FieldSignature where
  eq_of_compare {a b} h := by
    rw [FieldSignature.compare_eq_compareLex] at h
    obtain ⟨hname, h⟩ := Ordering.then_eq_eq.1 h
    obtain ⟨htype, hmodifiers⟩ := Ordering.then_eq_eq.1 h
    have hname : a.name = b.name := Std.LawfulEqOrd.eq_of_compare hname
    have htype : a.type = b.type := Std.LawfulEqOrd.eq_of_compare htype
    have hmodifiers : a.modifiers = b.modifiers := Std.LawfulEqOrd.eq_of_compare hmodifiers
    cases a
    cases b
    simp_all only

/-! ### Captured classes -/

namespace ClassSignature

/-- Two descriptions of a class differ at most in the order of interfaces and members. -/
structure Alike (a b : ClassSignature) : Prop where
  superclass : a.superclass = b.superclass
  interfaces : a.interfaces.Perm b.interfaces
  methods : a.methods.Perm b.methods
  fields : a.fields.Perm b.fields

/-- The capture of a class as it is described. -/
def captured (c : ClassSignature) : ClassSignature :=
  capture c.name c.superclass c.interfaces c.methods c.fields

theorem captured_eq_iff {a b : ClassSignature} :
    a.captured = b.captured ↔ a.name = b.name ∧ a.Alike b := by
  simp only [captured, capture, mk.injEq, sortBy_eq_sortBy_iff]
  constructor
  · rintro ⟨hname, hsuperclass, hinterfaces, hmethods, hfields⟩
    exact ⟨hname, hsuperclass, hinterfaces, hmethods, hfields⟩
  · rintro ⟨hname, hsuperclass, hinterfaces, hmethods, hfields⟩
    exact ⟨hname, hsuperclass, hinterfaces, hmethods, hfields⟩

end ClassSignature

/-- Some descriptions tell of a class with this name. -/
def Describes (classes : List ClassSignature) (name : String) : Prop := ∃ c ∈ classes, c.name = name

/-- The description of a class that counts: of several with its name it is the last. -/
def DescribesAs (classes : List ClassSignature) (name : String) (c : ClassSignature) : Prop :=
  LastOf (fun c => c.name = name) classes c

section

variable {classes : List ClassSignature} {name : String} {c : ClassSignature}

theorem DescribesAs.name_eq (h : DescribesAs classes name c) : c.name = name := by
  obtain ⟨-, -, -, hname, -⟩ := h
  exact hname

/-- The surface of some classes, each captured as it is described. -/
def Surface.captureAll (classes : List ClassSignature) : Surface :=
  .ofClasses (classes.map ClassSignature.captured)

theorem Surface.getElem?_captureAll {found : ClassSignature} :
    (captureAll classes)[name]? = some found ↔
      ∃ c, DescribesAs classes name c ∧ c.captured = found := by
  induction classes using List.reverseRecOn with
  | nil =>
      have hnone : (captureAll [])[name]? = none := Std.ExtTreeMap.getElem?_empty
      simp [hnone, DescribesAs, not_lastOf_nil]
  | append_singleton init last ih =>
      have hinsert : captureAll (init ++ [last]) =
          (captureAll init).insert last.name last.captured := by
        simp [captureAll, ofClasses, ClassSignature.captured, ClassSignature.capture]
      rw [hinsert, Std.ExtTreeMap.getElem?_insert]
      simp only [DescribesAs, lastOf_concat, Std.LawfulEqCmp.compare_eq_iff_eq]
      split
      case isTrue hname => simp [hname, eq_comm]
      case isFalse hname =>
        rw [ih]
        simp only [DescribesAs]
        refine exists_congr fun c => and_congr_left fun _ => ?_
        simp only [hname, not_false_eq_true, true_and]
        refine ⟨.inr, fun h => h.resolve_left ?_⟩
        rintro ⟨rfl, hlast⟩
        exact hname hlast

theorem Surface.mem_captureAll : name ∈ captureAll classes ↔ Describes classes name := by
  simp [captureAll, mem_ofClasses, Describes, ClassSignature.captured, ClassSignature.capture]

end

/-! ### Drifts -/

namespace Drift

/-- The name of the class that differs. -/
def className : Drift → String
  | changed name => name
  | removed name => name
  | added name => name

/-- The same difference, seen from the other capture. -/
def swap : Drift → Drift
  | changed name => changed name
  | removed name => added name
  | added name => removed name

@[simp] theorem swap_swap (d : Drift) : d.swap.swap = d := by
  cases d <;> rfl

theorem swap_injective : Function.Injective swap :=
  Function.LeftInverse.injective swap_swap

variable {after : Surface} {name : String} {old : ClassSignature} {d : Drift}

theorem ofClass?_eq_some_iff : ofClass? after name old = some d ↔
    name ∉ after ∧ d = .removed name ∨
      (∃ new, after[name]? = some new ∧ new ≠ old) ∧ d = .changed name := by
  rw [ofClass?]
  cases hafter : after[name]? with
  | none =>
      have hmem : name ∉ after := by rw [Std.ExtTreeMap.mem_iff_isSome_getElem?, hafter]; simp
      simp [hmem, eq_comm]
  | some new =>
      have hmem : name ∈ after := by rw [Std.ExtTreeMap.mem_iff_isSome_getElem?, hafter]; rfl
      by_cases heq : new = old
      · simp [hmem, heq]
      · simp [hmem, heq, eq_comm (a := d)]

theorem className_of_ofClass? (h : ofClass? after name old = some d) : d.className = name := by
  rcases ofClass?_eq_some_iff.mp h with ⟨-, rfl⟩ | ⟨-, rfl⟩ <;> rfl

end Drift

namespace Surface

variable {before after : Surface} {name : String} {d : Drift}

/-- The classes of the first surface that changed or went away. -/
def outdated (before after : Surface) : List Drift :=
  before.toList.filterMap fun (name, old) => Drift.ofClass? after name old

/-- The classes of the second surface that are new. -/
def arrivals (before after : Surface) : List Drift :=
  (after.keys.filter fun name => !before.contains name).map Drift.added

theorem drift_eq (before after : Surface) :
    before.drift after = before.outdated after ++ before.arrivals after := rfl

theorem mem_outdated : d ∈ before.outdated after ↔
    ∃ name old, before[name]? = some old ∧ Drift.ofClass? after name old = some d := by
  simp only [outdated, List.mem_filterMap, Prod.exists,
    Std.ExtTreeMap.mem_toList_iff_getElem?_eq_some]

theorem mem_arrivals : d ∈ before.arrivals after ↔
    ∃ name, (name ∉ before ∧ name ∈ after) ∧ .added name = d := by
  simp only [arrivals, List.mem_map, List.mem_filter, Std.ExtTreeMap.mem_keys,
    Bool.not_eq_true', ← Bool.not_eq_true, Std.ExtTreeMap.contains_iff_mem, and_comm]

theorem changed_mem_drift : .changed name ∈ before.drift after ↔
    ∃ old new, before[name]? = some old ∧ after[name]? = some new ∧ new ≠ old := by
  simp only [drift_eq, List.mem_append, mem_outdated, mem_arrivals, Drift.ofClass?_eq_some_iff]
  simp

theorem removed_mem_drift : .removed name ∈ before.drift after ↔ name ∈ before ∧ name ∉ after := by
  rw [Std.ExtTreeMap.mem_iff_isSome_getElem?, Option.isSome_iff_exists]
  simp only [drift_eq, List.mem_append, mem_outdated, mem_arrivals, Drift.ofClass?_eq_some_iff]
  simp

theorem added_mem_drift : .added name ∈ before.drift after ↔ name ∉ before ∧ name ∈ after := by
  simp only [drift_eq, List.mem_append, mem_outdated, mem_arrivals, Drift.ofClass?_eq_some_iff]
  simp

/-! ### Order of the drift -/

theorem names_outdated_sublist (before after : Surface) :
    ((before.outdated after).map Drift.className).Sublist before.keys := by
  rw [← Std.ExtTreeMap.map_fst_toList_eq_keys, outdated]
  induction before.toList with
  | nil => exact .slnil
  | cons entry rest ih =>
      obtain ⟨name, old⟩ := entry
      rw [List.filterMap_cons]
      split
      case h_1 => exact ih.cons name
      case h_2 d hd =>
        rw [List.map_cons, List.map_cons, Drift.className_of_ofClass? hd]
        exact ih.cons_cons name

theorem names_arrivals (before after : Surface) :
    (before.arrivals after).map Drift.className =
      after.keys.filter fun name => !before.contains name := by
  simp [arrivals, Function.comp_def, Drift.className]

theorem nodup_names_drift (before after : Surface) :
    ((before.drift after).map Drift.className).Nodup := by
  have hold := names_outdated_sublist before after
  rw [drift_eq, List.map_append, names_arrivals]
  refine List.nodup_append.mpr ⟨Std.ExtTreeMap.nodup_keys.sublist hold,
    Std.ExtTreeMap.nodup_keys.sublist List.filter_sublist, fun name hname other hother heq => ?_⟩
  -- What is new is no class of the first surface, of which the others are.
  subst heq
  have hknown := Std.ExtTreeMap.mem_keys.mp (hold.subset hname)
  have hnew := (List.mem_filter.mp hother).2
  rw [Bool.not_eq_true', ← Bool.not_eq_true, Std.ExtTreeMap.contains_iff_mem] at hnew
  exact hnew hknown

theorem drift_in_order (before after : Surface) : ∃ first last,
    before.drift after = first ++ last ∧
      (∀ d ∈ first, ∀ name, d ≠ .added name) ∧ (∀ d ∈ last, ∃ name, d = .added name) ∧
      (first.map Drift.className).Pairwise (compare · · = .lt) ∧
      (last.map Drift.className).Pairwise (compare · · = .lt) := by
  refine ⟨_, _, drift_eq before after, ?_, ?_, ?_, ?_⟩
  · rintro d hd name rfl
    obtain ⟨_, _, -, hclass⟩ := mem_outdated.mp hd
    simp [Drift.ofClass?_eq_some_iff] at hclass
  · intro d hd
    obtain ⟨name, -, rfl⟩ := mem_arrivals.mp hd
    exact ⟨name, rfl⟩
  · exact Std.ExtTreeMap.ordered_keys.sublist (names_outdated_sublist before after)
  · rw [names_arrivals]
    exact Std.ExtTreeMap.ordered_keys.sublist List.filter_sublist

end Surface

/-- What a list of drifts says of two lists of descriptions. -/
structure Drift.Tells (before after : List ClassSignature) (drifts : List Drift) : Prop where
  eq_nil_iff : drifts = [] ↔ (∀ name, Describes before name ↔ Describes after name) ∧
    ∀ name old new, DescribesAs before name old → DescribesAs after name new → old.Alike new
  changed_iff : ∀ name, .changed name ∈ drifts ↔
    ∃ old new, DescribesAs before name old ∧ DescribesAs after name new ∧ ¬ old.Alike new
  removed_iff : ∀ name, .removed name ∈ drifts ↔ Describes before name ∧ ¬ Describes after name
  added_iff : ∀ name, .added name ∈ drifts ↔ ¬ Describes before name ∧ Describes after name
  names_nodup : (drifts.map Drift.className).Nodup
  in_order : ∃ first last, drifts = first ++ last ∧
    (∀ d ∈ first, ∀ name, d ≠ .added name) ∧ (∀ d ∈ last, ∃ name, d = .added name) ∧
    (first.map Drift.className).Pairwise (compare · · = .lt) ∧
    (last.map Drift.className).Pairwise (compare · · = .lt)

namespace Surface

/-- Seen from the other surface it is the same drift, up to the order. -/
theorem drift_perm_swap (before after : Surface) :
    (after.drift before).Perm ((before.drift after).map Drift.swap) := by
  have hnodup (before after : Surface) : (before.drift after).Nodup :=
    List.Nodup.of_map Drift.className (nodup_names_drift before after)
  refine (List.perm_ext_iff_of_nodup (hnodup after before)
    ((hnodup before after).map Drift.swap_injective)).mpr fun d => ?_
  rw [List.mem_map_of_involutive Drift.swap_swap]
  cases d with
  | changed name =>
      rw [Drift.swap, changed_mem_drift, changed_mem_drift]
      constructor <;> exact fun ⟨old, new, hold, hnew, hne⟩ => ⟨new, old, hnew, hold, hne.symm⟩
  | removed name => rw [Drift.swap, removed_mem_drift, added_mem_drift, and_comm]
  | added name => rw [Drift.swap, removed_mem_drift, added_mem_drift, and_comm]

section

variable {before after : List ClassSignature} {name : String}

theorem changed_mem_drift_captureAll :
    .changed name ∈ (captureAll before).drift (captureAll after) ↔
      ∃ old new, DescribesAs before name old ∧ DescribesAs after name new ∧ ¬ old.Alike new := by
  simp only [changed_mem_drift, getElem?_captureAll]
  constructor
  · rintro ⟨_, _, ⟨old, hold, rfl⟩, ⟨new, hnew, rfl⟩, hne⟩
    refine ⟨old, new, hold, hnew, fun halike => hne ?_⟩
    exact (ClassSignature.captured_eq_iff.mpr ⟨hold.name_eq.trans hnew.name_eq.symm, halike⟩).symm
  · rintro ⟨old, new, hold, hnew, hnot⟩
    refine ⟨_, _, ⟨old, hold, rfl⟩, ⟨new, hnew, rfl⟩, fun heq => hnot ?_⟩
    exact (ClassSignature.captured_eq_iff.mp heq.symm).2

theorem removed_mem_drift_captureAll :
    .removed name ∈ (captureAll before).drift (captureAll after) ↔
      Describes before name ∧ ¬ Describes after name := by
  simp only [removed_mem_drift, mem_captureAll]

theorem added_mem_drift_captureAll :
    .added name ∈ (captureAll before).drift (captureAll after) ↔
      ¬ Describes before name ∧ Describes after name := by
  simp only [added_mem_drift, mem_captureAll]

theorem drift_captureAll_eq_nil_iff : (captureAll before).drift (captureAll after) = [] ↔
    (∀ name, Describes before name ↔ Describes after name) ∧
      ∀ name old new, DescribesAs before name old → DescribesAs after name new →
        old.Alike new := by
  rw [List.eq_nil_iff_forall_not_mem]
  constructor
  · intro hnone
    refine ⟨fun name => ?_, fun name old new hold hnew => ?_⟩
    · have hremoved := hnone (.removed name)
      have hadded := hnone (.added name)
      rw [removed_mem_drift_captureAll] at hremoved
      rw [added_mem_drift_captureAll] at hadded
      tauto
    · by_contra hnot
      exact hnone (.changed name) (changed_mem_drift_captureAll.mpr ⟨old, new, hold, hnew, hnot⟩)
  · rintro ⟨hsame, halike⟩ d hd
    cases d with
    | changed name =>
        obtain ⟨old, new, hold, hnew, hnot⟩ := changed_mem_drift_captureAll.mp hd
        exact hnot (halike name old new hold hnew)
    | removed name =>
        obtain ⟨hold, hgone⟩ := removed_mem_drift_captureAll.mp hd
        exact hgone ((hsame name).mp hold)
    | added name =>
        obtain ⟨hnone, hnew⟩ := added_mem_drift_captureAll.mp hd
        exact hnone ((hsame name).mpr hnew)

end

/-- The drift between two captures is empty just if the same classes were described alike. It names
each class that was not once, those of the first capture before the new ones, both in order; and the
drift from the second capture to the first is the same with added and removed classes exchanged. -/
theorem tells_drift_captureAll (before after : List ClassSignature) :
    Drift.Tells before after ((captureAll before).drift (captureAll after)) ∧
      ((captureAll after).drift (captureAll before)).Perm
        (((captureAll before).drift (captureAll after)).map Drift.swap) := by
  refine ⟨?_, drift_perm_swap _ _⟩
  constructor
  case eq_nil_iff => exact drift_captureAll_eq_nil_iff
  case changed_iff => exact fun _ => changed_mem_drift_captureAll
  case removed_iff => exact fun _ => removed_mem_drift_captureAll
  case added_iff => exact fun _ => added_mem_drift_captureAll
  case names_nodup => exact nodup_names_drift _ _
  case in_order => exact drift_in_order _ _

end Surface

end Workbench
