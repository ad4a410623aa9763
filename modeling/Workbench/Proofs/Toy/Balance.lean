import Mathlib.Data.List.Induction
import Mathlib.Data.List.Infix
import Workbench.Text.Position

/-!
Sequences of braces. Which braces belong together is said without counting along: a closing brace
closes an opening one if what stands between them is balanced. A counter that stays at zero when it
cannot go down finds out the same. It is at zero just where nothing before waits to be closed, so a
closing brace that comes then has no partner; and in the end it says whether an opening brace is left.
-/

namespace Workbench.Toy

inductive BraceKind where
  | opening
  | closing
  deriving DecidableEq

/-- A brace and the place where it stands. -/
structure Brace where
  kind : BraceKind
  position : Position
  deriving DecidableEq

variable {bs before behind inner : List Brace} {d : Nat} {p : Position}

/-! ### Balanced sequences -/

/-- How many braces open. -/
def opened (bs : List Brace) : Nat := bs.countP fun b => b.kind = .opening

/-- How many braces close. -/
def closed (bs : List Brace) : Nat := bs.countP fun b => b.kind = .closing

@[simp] theorem opened_nil : opened [] = 0 := rfl

@[simp] theorem closed_nil : closed [] = 0 := rfl

@[simp] theorem opened_append (xs ys : List Brace) : opened (xs ++ ys) = opened xs + opened ys :=
  List.countP_append

@[simp] theorem closed_append (xs ys : List Brace) : closed (xs ++ ys) = closed xs + closed ys :=
  List.countP_append

@[simp] theorem opened_cons_opening : opened (⟨.opening, p⟩ :: bs) = opened bs + 1 := by
  simp [opened]

@[simp] theorem opened_cons_closing : opened (⟨.closing, p⟩ :: bs) = opened bs := by simp [opened]

@[simp] theorem closed_cons_opening : closed (⟨.opening, p⟩ :: bs) = closed bs := by simp [closed]

@[simp] theorem closed_cons_closing : closed (⟨.closing, p⟩ :: bs) = closed bs + 1 := by
  simp [closed]

/-- With `d` braces open before, no beginning closes more than is open. -/
def Covered (d : Nat) (bs : List Brace) : Prop :=
  ∀ init, init <+: bs → closed init ≤ d + opened init

/-- No beginning closes more than it opens, and in the end all is closed. -/
structure Balanced (bs : List Brace) : Prop where
  covered : Covered 0 bs
  closed_eq : closed bs = opened bs

@[simp] theorem covered_nil : Covered d [] := by
  intro init hinit
  rw [List.prefix_nil.mp hinit]
  exact Nat.zero_le _

@[simp] theorem covered_cons_opening : Covered d (⟨.opening, p⟩ :: bs) ↔ Covered (d + 1) bs := by
  constructor
  · intro h init hinit
    have := h (⟨.opening, p⟩ :: init) (List.prefix_cons_inj _ |>.mpr hinit)
    simp at this
    omega
  · intro h init hinit
    rcases List.prefix_cons_iff.mp hinit with rfl | ⟨rest, rfl, hrest⟩
    · simp
    · have := h rest hrest
      simp
      omega

@[simp] theorem covered_cons_closing :
    Covered d (⟨.closing, p⟩ :: bs) ↔ 0 < d ∧ Covered (d - 1) bs := by
  constructor
  · intro h
    have hfirst := h [⟨.closing, p⟩] (by simp)
    simp at hfirst
    refine ⟨hfirst, fun init hinit => ?_⟩
    have := h (⟨.closing, p⟩ :: init) (List.prefix_cons_inj _ |>.mpr hinit)
    simp at this
    omega
  · rintro ⟨hpos, h⟩ init hinit
    rcases List.prefix_cons_iff.mp hinit with rfl | ⟨rest, rfl, hrest⟩
    · simp
    · have := h rest hrest
      simp
      omega

theorem Covered.append (h : Covered d bs) (h' : Covered (d + opened bs - closed bs) inner) :
    Covered d (bs ++ inner) := by
  intro init hinit
  rcases List.prefix_or_prefix_of_prefix hinit (List.prefix_append bs inner) with
    hinit' | ⟨more, rfl⟩
  · exact h init hinit'
  · have := h bs List.prefix_rfl
    have := h' more ((List.prefix_append_right_inj bs).mp hinit)
    simp
    omega

theorem balanced_nil : Balanced [] := ⟨covered_nil, rfl⟩

theorem Balanced.append (h : Balanced bs) (h' : Balanced inner) : Balanced (bs ++ inner) := by
  refine ⟨h.covered.append ?_, by simp [h.closed_eq, h'.closed_eq]⟩
  simpa [h.closed_eq] using h'.covered

/-- A pair of braces around something balanced is balanced. -/
theorem Balanced.enclose (h : Balanced inner) (p q : Position) :
    Balanced (⟨.opening, p⟩ :: (inner ++ [⟨.closing, q⟩])) := by
  refine ⟨covered_cons_opening.mpr (Covered.append (fun init hinit => ?_) ?_), ?_⟩
  · exact Nat.le_trans (h.covered init hinit) (by omega)
  · simp [h.closed_eq]
  · simp [h.closed_eq]

/-! ### Partners -/

/-- Some braces hold the partner of a closing brace that comes right behind them. -/
def HasOpening (before : List Brace) : Prop :=
  ∃ p inner, ⟨.opening, p⟩ :: inner <:+ before ∧ Balanced inner

/-- Some braces hold the partner of an opening brace that stands right in front of them. -/
def HasClosing (behind : List Brace) : Prop :=
  ∃ inner p, inner ++ [⟨.closing, p⟩] <+: behind ∧ Balanced inner

/-- A brace that opens right before some braces stays open just if no beginning of these closes more
than it opens. -/
theorem covered_zero_iff : Covered 0 bs ↔ ¬ HasClosing bs := by
  constructor
  · rintro h ⟨inner, p, hprefix, hinner⟩
    have := h _ hprefix
    have := hinner.closed_eq
    simp at *
    omega
  · intro h init hinit
    -- The induction carries that all beginnings up to here close no more than they open.
    suffices hcovered : Covered 0 init from hcovered init List.prefix_rfl
    induction init using List.reverseRecOn with
    | nil => exact covered_nil
    | append_singleton init b ih =>
        have hbefore := ih ((List.prefix_append init [b]).trans hinit)
        refine hbefore.append ?_
        obtain ⟨kind, p⟩ := b
        cases kind with
        | opening => simp
        | closing =>
            have hle := hbefore init List.prefix_rfl
            have hne : closed init ≠ opened init := fun heq =>
              h ⟨init, p, hinit, hbefore, heq⟩
            simp
            omega

/-! ### Counting -/

/-- A counter of open braces, which stays at zero when it cannot go down. -/
def count (d : Nat) : List Brace → Nat
  | [] => d
  | ⟨.opening, _⟩ :: bs => count (d + 1) bs
  | ⟨.closing, _⟩ :: bs => count (d - 1) bs

/-- The closing braces that come while a counter is at zero. -/
def strays : (d : Nat) → List Brace → List Brace
  | _, [] => []
  | d, ⟨.opening, _⟩ :: bs => strays (d + 1) bs
  | 0, ⟨.closing, p⟩ :: bs => ⟨.closing, p⟩ :: strays 0 bs
  | d + 1, ⟨.closing, _⟩ :: bs => strays d bs

theorem count_append (d : Nat) (xs ys : List Brace) :
    count d (xs ++ ys) = count (count d xs) ys := by
  induction xs generalizing d with
  | nil => rfl
  | cons b xs ih =>
      obtain ⟨kind, p⟩ := b
      cases kind <;> exact ih _

theorem strays_append (d : Nat) (xs ys : List Brace) :
    strays d (xs ++ ys) = strays d xs ++ strays (count d xs) ys := by
  induction xs generalizing d with
  | nil => rfl
  | cons b xs ih =>
      obtain ⟨kind, p⟩ := b
      cases kind with
      | opening => exact ih _
      | closing =>
          cases d with
          | zero => exact congrArg _ (ih 0)
          | succ d => exact ih d

/-- A counter that always can go down counts what is open. -/
theorem count_add_closed (h : Covered d bs) : count d bs + closed bs = d + opened bs := by
  induction bs generalizing d with
  | nil => rfl
  | cons b bs ih =>
      obtain ⟨kind, p⟩ := b
      cases kind with
      | opening =>
          have := ih (covered_cons_opening.mp h)
          simp [count]
          omega
      | closing =>
          obtain ⟨hpos, hrest⟩ := covered_cons_closing.mp h
          have := ih hrest
          simp [count]
          omega

theorem Balanced.count_eq (h : Balanced bs) (d : Nat) : count d bs = d := by
  have hcovered : Covered d bs := fun init hinit =>
    Nat.le_trans (h.covered init hinit) (by omega)
  have := count_add_closed hcovered
  have := h.closed_eq
  omega

theorem strays_eq_nil_iff : strays d bs = [] ↔ Covered d bs := by
  induction bs generalizing d with
  | nil => simp [strays]
  | cons b bs ih =>
      obtain ⟨kind, p⟩ := b
      cases kind with
      | opening => rw [strays, ih, covered_cons_opening]
      | closing => cases d <;> simp [strays, ih]

/-- A sequence is balanced just if no closing brace comes at zero and the counter ends there. -/
theorem balanced_iff : Balanced bs ↔ strays 0 bs = [] ∧ count 0 bs = 0 := by
  rw [strays_eq_nil_iff]
  constructor
  · exact fun h => ⟨h.covered, h.count_eq 0⟩
  · rintro ⟨hcovered, hzero⟩
    have := count_add_closed hcovered
    exact ⟨hcovered, by omega⟩

/-- Where the counter is above zero, there is the brace that brought it there, and all behind it is
balanced. -/
theorem exists_opening_of_count {k : Nat} (h : count 0 bs = k + 1) :
    ∃ outer p inner, bs = outer ++ ⟨.opening, p⟩ :: inner ∧ Balanced inner ∧ count 0 outer = k := by
  induction hlength : bs.length using Nat.strongRecOn generalizing bs k with
  | ind length ih =>
      cases bs using List.reverseRecOn with
      | nil => simp [count] at h
      | append_singleton bs b =>
          rw [List.length_append, List.length_singleton] at hlength
          obtain ⟨kind, q⟩ := b
          rw [count_append] at h
          cases kind with
          | opening => exact ⟨bs, q, [], rfl, balanced_nil, Nat.succ.inj h⟩
          | closing =>
              -- The last brace closes one; the brace looked for is behind the one before that.
              have hbefore : count 0 bs = k + 1 + 1 := by
                simp only [count] at h
                omega
              obtain ⟨outer, p, inner, rfl, hinner, houter⟩ :=
                ih bs.length (by omega) hbefore rfl
              obtain ⟨outermost, p', inner', rfl, hinner', hcount⟩ := ih outer.length
                (by simp only [List.length_append, List.length_cons] at hlength; omega) houter rfl
              refine ⟨outermost, p', inner' ++ ⟨.opening, p⟩ :: (inner ++ [⟨.closing, q⟩]), ?_,
                hinner'.append (hinner.enclose p q), hcount⟩
              simp

/-- The counter is above zero just where a closing brace has its partner before it. -/
theorem count_pos_iff : 0 < count 0 bs ↔ HasOpening bs := by
  constructor
  · intro hpos
    obtain ⟨k, hk⟩ := Nat.exists_eq_succ_of_ne_zero hpos.ne'
    obtain ⟨outer, p, inner, rfl, hinner, -⟩ := exists_opening_of_count hk
    exact ⟨p, inner, List.suffix_append outer _, hinner⟩
  · rintro ⟨p, inner, ⟨outer, rfl⟩, hinner⟩
    rw [count_append, count, hinner.count_eq]
    exact Nat.succ_pos _

instance : Decidable (HasOpening bs) := decidable_of_iff _ count_pos_iff

instance : Decidable (Balanced bs) := decidable_of_iff _ balanced_iff.symm

/-! ### Braces without partners -/

/-- The closing braces that have no partner, in their order. Each brace is looked at with what stands
before it. -/
def unopened (bs : List Brace) : List Brace :=
  ((bs.zip bs.inits).filter fun entry =>
    entry.1.kind = .closing ∧ ¬ HasOpening entry.2).map Prod.fst

/-- Some opening brace has no partner. -/
def LeavesOpen (bs : List Brace) : Prop :=
  ∃ p behind, ⟨.opening, p⟩ :: behind <:+ bs ∧ ¬ HasClosing behind

theorem strays_eq_unopened (bs : List Brace) : strays 0 bs = unopened bs := by
  -- Read behind some braces, the counter stands where these have brought it.
  suffices hbehind : ∀ before : List Brace, strays (count 0 before) bs =
      ((bs.zip (bs.inits.map (before ++ ·))).filter fun entry =>
        entry.1.kind = .closing ∧ ¬ HasOpening entry.2).map Prod.fst by
    have hall := hbehind []
    simp only [count, List.nil_append, List.map_id'] at hall
    exact hall
  intro before
  induction bs generalizing before with
  | nil => rfl
  | cons b bs ih =>
      have hnext := ih (before ++ [b])
      have hinits : (b :: bs).inits.map (before ++ ·) =
          before :: bs.inits.map ((before ++ [b]) ++ ·) := by
        simp [Function.comp_def]
      rw [count_append] at hnext
      rw [hinits, List.zip_cons_cons, List.filter_cons]
      obtain ⟨kind, p⟩ := b
      cases kind with
      | opening => simpa [strays, count] using hnext
      | closing =>
          simp only [← count_pos_iff] at hnext ⊢
          cases hcount : count 0 before <;> simpa [strays, count, hcount] using hnext

theorem leavesOpen_iff : LeavesOpen bs ↔ 0 < count 0 bs := by
  constructor
  · rintro ⟨p, behind, ⟨outer, rfl⟩, hclosing⟩
    have hcovered := covered_zero_iff.mpr hclosing
    have hle := hcovered behind List.prefix_rfl
    have hlater : Covered (count 0 outer + 1) behind := fun init hinit =>
      Nat.le_trans (hcovered init hinit) (by omega)
    have := count_add_closed hlater
    rw [count_append, count]
    omega
  · intro hpos
    obtain ⟨p, inner, hsuffix, hinner⟩ := count_pos_iff.mp hpos
    exact ⟨p, inner, hsuffix, covered_zero_iff.mp hinner.covered⟩

instance : Decidable (LeavesOpen bs) := decidable_of_iff _ leavesOpen_iff.symm

end Workbench.Toy
