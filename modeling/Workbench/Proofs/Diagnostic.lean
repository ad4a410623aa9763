import Workbench.Diagnostic
import Workbench.Proofs.Sorting

/-!
The order of diagnostics. It compares all fields, so two diagnostics that it takes for equal are
equal, and a tidied list is sorted and has no diagnostic twice.
-/

namespace Workbench

theorem Position.compare_eq_compareLex :
    (compare : Position → Position → Ordering) =
      compareLex (compareOn line) (compareOn character) := rfl

instance : Std.TransOrd Position := by
  unfold Std.TransOrd
  rw [Position.compare_eq_compareLex]
  infer_instance

instance : Std.LawfulEqOrd Position where
  eq_of_compare {p q} h := by
    rw [Position.compare_eq_compareLex] at h
    obtain ⟨hline, hcharacter⟩ := Ordering.then_eq_eq.1 h
    have hline : p.line = q.line := Std.LawfulEqOrd.eq_of_compare hline
    have hcharacter : p.character = q.character := Std.LawfulEqOrd.eq_of_compare hcharacter
    cases p
    cases q
    simp_all only

theorem Range.compare_eq_compareLex :
    (compare : Range → Range → Ordering) = compareLex (compareOn start) (compareOn stop) := rfl

instance : Std.TransOrd Range := by
  unfold Std.TransOrd
  rw [Range.compare_eq_compareLex]
  infer_instance

instance : Std.LawfulEqOrd Range where
  eq_of_compare {r s} h := by
    rw [Range.compare_eq_compareLex] at h
    obtain ⟨hstart, hstop⟩ := Ordering.then_eq_eq.1 h
    have hstart : r.start = s.start := Std.LawfulEqOrd.eq_of_compare hstart
    have hstop : r.stop = s.stop := Std.LawfulEqOrd.eq_of_compare hstop
    cases r
    cases s
    simp_all only

theorem Severity.eq_of_rank_eq {a b : Severity} (h : a.rank = b.rank) : a = b := by
  cases a <;> cases b <;> first | rfl | contradiction

namespace Diagnostic

theorem compareCode_eq_compare (a b : Option String) : compareCode a b = compare a b := by
  cases a <;> cases b <;> rfl

theorem compare_eq_compareLex :
    (compare : Diagnostic → Diagnostic → Ordering) =
      compareLex (compareOn range) (compareLex (compareOn fun d => d.severity.rank)
        (compareLex (compareOn message) (compareOn code))) := by
  funext a b
  exact congrArg
    (fun last => (compare a.range b.range).then <| (compare a.severity.rank b.severity.rank).then <|
      (compare a.message b.message).then last)
    (compareCode_eq_compare a.code b.code)

instance : Std.TransOrd Diagnostic := by
  unfold Std.TransOrd
  rw [compare_eq_compareLex]
  infer_instance

instance : Std.LawfulEqOrd Diagnostic where
  eq_of_compare {a b} h := by
    rw [compare_eq_compareLex] at h
    obtain ⟨hrange, h⟩ := Ordering.then_eq_eq.1 h
    obtain ⟨hseverity, h⟩ := Ordering.then_eq_eq.1 h
    obtain ⟨hmessage, hcode⟩ := Ordering.then_eq_eq.1 h
    have hrange : a.range = b.range := Std.LawfulEqOrd.eq_of_compare hrange
    have hseverity : a.severity = b.severity :=
      Severity.eq_of_rank_eq (Std.LawfulEqOrd.eq_of_compare hseverity)
    have hmessage : a.message = b.message := Std.LawfulEqOrd.eq_of_compare hmessage
    have hcode : a.code = b.code := Std.LawfulEqOrd.eq_of_compare hcode
    cases a
    cases b
    simp_all only

/-- A list of diagnostics in order and without repetition. -/
structure IsTidy (diagnostics : List Diagnostic) : Prop where
  sorted : diagnostics.Pairwise fun a b => (compare a b).isLE
  nodup : diagnostics.Nodup

theorem isTidy_tidy (diagnostics : List Diagnostic) : IsTidy (tidy diagnostics) := by
  have hincreasing : (tidy diagnostics).Pairwise fun a b => compare a b = .lt :=
    pairwise_sortUnique diagnostics
  constructor
  · exact hincreasing.imp fun {a b} hlt => by rw [hlt]; rfl
  · refine hincreasing.imp fun {a b} hlt heq => ?_
    subst heq
    rw [Std.ReflOrd.compare_self] at hlt
    contradiction

end Diagnostic

end Workbench
