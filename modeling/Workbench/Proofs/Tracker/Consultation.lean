import Workbench.Compiler.Bench
import Workbench.Proofs.Registry
import Workbench.Proofs.Tracker.Action
import Workbench.Proofs.Tracker.ClosedTexts

/-!
Looking things up in a tracker. A compile registers paths and reads texts, and it does nothing else
to the tracker. That makes new paths known and moves the kept texts of closed files about; the open
documents, the marks of changed files and the clock stay as they are.
-/

namespace Workbench

namespace Tracker

/-- Between two states a tracker was only consulted. -/
structure Consulted (t t' : Tracker) : Prop where
  grows : t.registry.Grows t'.registry
  documents_eq : t'.documents = t.documents
  changed_eq : t'.changed = t.changed
  clock_eq : t'.clock = t.clock
  timeToLive_eq : t'.timeToLive = t.timeToLive
  capacity_eq : t'.closed.capacity = t.closed.capacity
  fits : t.closed.Fits → t'.closed.Fits

theorem Consulted.refl (t : Tracker) : t.Consulted t :=
  ⟨.refl t.registry, rfl, rfl, rfl, rfl, rfl, id⟩

theorem Consulted.trans {t₁ t₂ t₃ : Tracker} (h : t₁.Consulted t₂) (h' : t₂.Consulted t₃) :
    t₁.Consulted t₃ :=
  ⟨h.grows.trans h'.grows, h'.documents_eq.trans h.documents_eq,
    h'.changed_eq.trans h.changed_eq, h'.clock_eq.trans h.clock_eq,
    h'.timeToLive_eq.trans h.timeToLive_eq, h'.capacity_eq.trans h.capacity_eq,
    fun hfits => h'.fits (h.fits hfits)⟩

variable (t : Tracker) (d : Disk)

theorem consulted_register (p : Path) : t.Consulted (t.register d p).1 :=
  ⟨t.registry.grows_register (d.normalize p), rfl, rfl, rfl, rfl, rfl, id⟩

/-- A look at the kept text of a file puts it in front, or drops it if it is too old. -/
theorem keptText?_cases (file : FileId) :
    (t.keptText? file).1 = t ∨ (t.keptText? file).1 = { t with closed := t.closed.promote file } ∨
      (t.keptText? file).1 = t.forget file := by
  unfold keptText?
  split
  · exact .inl rfl
  · split
    · exact .inr (.inl rfl)
    · exact .inr (.inr rfl)

/-- A read of a file leaves the tracker alone or looks at the kept text; if there is none, what the
disk holds is kept. -/
theorem textOf_cases (file : FileId) (p : Path) :
    (t.textOf d file p).1 = t ∨ (t.textOf d file p).1 = (t.keptText? file).1 ∨
      ∃ text, (t.textOf d file p).1 = (t.keptText? file).1.keep file text ∧
        t.documents[file]? = none ∧ (t.keptText? file).2 = none ∧ d.text? p = some text := by
  unfold textOf
  split
  case h_1 => exact .inl rfl
  case h_2 hnone =>
    generalize t.keptText? file = found
    obtain ⟨t', text⟩ := found
    cases text with
    | some text => exact .inr (.inl rfl)
    | none =>
        cases hread : d.text? p with
        | none => exact .inr (.inl rfl)
        | some text => exact .inr (.inr ⟨text, rfl, hnone, rfl, rfl⟩)

theorem consulted_keptText? (file : FileId) : t.Consulted (t.keptText? file).1 := by
  rcases t.keptText?_cases file with heq | heq | heq <;> rw [heq]
  · exact .refl t
  · exact ⟨.refl t.registry, rfl, rfl, rfl, rfl, ClosedTexts.capacity_promote,
      fun hfits => hfits.promote file⟩
  · exact ⟨.refl t.registry, rfl, rfl, rfl, rfl, rfl, fun hfits => hfits.erase file⟩

theorem consulted_textOf (file : FileId) (p : Path) : t.Consulted (t.textOf d file p).1 := by
  have hkept := t.consulted_keptText? file
  rcases t.textOf_cases d file p with heq | heq | ⟨text, heq, -⟩ <;> rw [heq]
  · exact .refl t
  · exact hkept
  · exact ⟨hkept.grows, hkept.documents_eq, hkept.changed_eq, hkept.clock_eq,
      hkept.timeToLive_eq, hkept.capacity_eq, fun _ => ClosedTexts.fits_put _ _ _⟩

theorem consulted_contents (p : Path) : t.Consulted (t.contents d p).1 :=
  (t.consulted_register d p).trans (consulted_textOf _ d _ p)

theorem consulted_contentsOfId (file : FileId) : t.Consulted (t.contentsOfId d file).1 := by
  unfold contentsOfId
  split
  · exact t.consulted_textOf d file _
  · exact .refl t

/-- Whether an action only looks something up. -/
def Action.isLookup : Action → Bool
  | .register _ | .readId _ => true
  | _ => false

/-- Between two states nothing was done to a tracker but looking things up. -/
def LookedUp (t : Tracker) (d : Disk) (t' : Tracker) : Prop :=
  ∃ actions, (∀ action ∈ actions, action.isLookup) ∧ t.run d actions = t'

variable {t d}

theorem run_append (t : Tracker) (d : Disk) (first second : List Action) :
    t.run d (first ++ second) = (t.run d first).run d second :=
  List.foldl_append

theorem LookedUp.refl (t : Tracker) (d : Disk) : t.LookedUp d t := ⟨[], by simp, rfl⟩

theorem LookedUp.trans {t₁ t₂ : Tracker} (h : t.LookedUp d t₁) (h' : t₁.LookedUp d t₂) :
    t.LookedUp d t₂ := by
  obtain ⟨first, hfirst, rfl⟩ := h
  obtain ⟨second, hsecond, rfl⟩ := h'
  refine ⟨first ++ second, fun action haction => ?_, run_append t d first second⟩
  exact (List.mem_append.mp haction).elim (hfirst action) (hsecond action)

theorem lookedUp_register (t : Tracker) (d : Disk) (p : Path) :
    t.LookedUp d (t.register d p).1 :=
  ⟨[.register p], by simp [Action.isLookup], rfl⟩

theorem lookedUp_contentsOfId (t : Tracker) (d : Disk) (file : FileId) :
    t.LookedUp d (t.contentsOfId d file).1 :=
  ⟨[.readId file], by simp [Action.isLookup], rfl⟩

theorem consulted_act (t : Tracker) (d : Disk) {action : Action} (h : action.isLookup) :
    t.Consulted (t.act d action) := by
  cases action with
  | register p => exact t.consulted_register d p
  | readId file => exact t.consulted_contentsOfId d file
  | _ => contradiction

theorem consulted_run {actions : List Action} (t : Tracker) (d : Disk)
    (h : ∀ action ∈ actions, action.isLookup) : t.Consulted (t.run d actions) := by
  induction actions generalizing t with
  | nil => exact .refl t
  | cons action rest ih =>
      obtain ⟨haction, hrest⟩ := List.forall_mem_cons.mp h
      exact (t.consulted_act d haction).trans (ih _ hrest)

theorem LookedUp.consulted {t' : Tracker} (h : t.LookedUp d t') : t.Consulted t' := by
  obtain ⟨actions, hactions, rfl⟩ := h
  exact t.consulted_run d hactions

end Tracker

namespace Bench

variable {κ : Type} (b : Bench κ) (d : Disk)

theorem lookedUp_registerAll (paths : List Path) :
    b.tracker.LookedUp d (b.registerAll d paths).1.tracker := by
  induction paths generalizing b with
  | nil => exact .refl b.tracker d
  | cons p rest ih =>
      have hrest := ih { b with tracker := (b.tracker.register d p).1 }
      exact (b.tracker.lookedUp_register d p).trans hrest

theorem lookedUp_read (file : FileId) (p : Path) :
    b.tracker.LookedUp d (b.read d file p).1.tracker :=
  b.tracker.lookedUp_contentsOfId d file

theorem lookedUp_readSome (files : List (FileId × Path)) :
    b.tracker.LookedUp d (b.readSome d files).1.tracker := by
  induction files generalizing b with
  | nil => exact .refl b.tracker d
  | cons entry rest ih =>
      have hrest := ih (b.read d entry.1 entry.2).1
      exact (b.lookedUp_read d entry.1 entry.2).trans hrest

theorem lookedUp_readAll (files : List FileId) :
    b.tracker.LookedUp d (b.readAll d files).1.tracker := by
  induction files generalizing b with
  | nil => exact .refl b.tracker d
  | cons file rest ih =>
      rw [readAll]
      split
      · exact .refl b.tracker d
      · rename_i p hp
        have hread := b.lookedUp_read d file p
        cases h : b.read d file p with
        | mk b' source =>
            rw [h] at hread
            cases source with
            | none => exact hread
            | some source => exact hread.trans (ih b')

theorem lookedUp_of_readAll {b b' : Bench κ} {d : Disk} {files : List FileId}
    {sources : Option (List SourceFile)} (h : b.readAll d files = (b', sources)) :
    b.tracker.LookedUp d b'.tracker := by
  have hread := b.lookedUp_readAll d files
  rw [h] at hread
  exact hread

theorem tracker_of_compile [Compiler κ] {b b' : Bench κ} {sources : SourceSet}
    {env : CompileEnvironment} {answer : Except CompileError CompileOutput}
    (h : b.compile sources env = (b', answer)) : b'.tracker = b.tracker := by
  obtain ⟨rfl, -⟩ := Prod.mk.inj h
  rfl

end Bench

end Workbench
