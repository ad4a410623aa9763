import Workbench.Disk.Basic

/-!
Look-ups, step by step. What one step of a look-up needs and where it goes is said once here, for
each kind of step and in both directions.
-/

namespace Workbench

namespace Node

/-- Whether a look-up goes on behind the node instead of following it. -/
def IsLink (node : Node) : Prop := ∃ target, node = .link target

instance (node : Node) : Decidable node.IsLink :=
  match node with
  | .dir => isFalse nofun
  | .file _ _ => isFalse nofun
  | .link target => isTrue ⟨target, rfl⟩

theorem not_isLink_dir : ¬ IsLink .dir := nofun

theorem not_isLink_file (content : Content) (modified : Int) : ¬ IsLink (.file content modified) :=
  nofun

end Node

/-- Only the empty path is refused as if it led nowhere. -/
theorem Path.refusal?_eq_some {p : Path} {e : DiskError} (h : p.refusal? = some e) :
    e = .pathCut ∨ e = .notFound ∧ p.text = "" ∨ e = .nameTooLong := by
  rw [refusal?] at h
  split at h
  case h_1 hflaw =>
    rw [flaw?] at hflaw
    split at hflaw
    case isTrue =>
      cases hflaw
      exact .inl (Option.some.inj h).symm
    case isFalse =>
      split at hflaw
      case isTrue hempty =>
        cases hflaw
        exact .inr (.inl ⟨(Option.some.inj h).symm, String.isEmpty_iff.mp hempty⟩)
      case isFalse => cases hflaw
  case h_2 =>
    split at h
    case isTrue => exact .inr (.inr (Option.some.inj h).symm)
    case isFalse => cases h

namespace Disk

variable {d : Disk} {place : Place} {rest : List Step} {progress : Progress}

@[simp] theorem node?_nil (d : Disk) : d.node? [] = some .dir := rfl

theorem node?_of_ne_nil (d : Disk) (h : place ≠ []) : d.node? place = d.nodes[place]? := by
  rw [node?, if_neg (mt List.isEmpty_iff.mp h)]

@[simp] theorem node?_concat (d : Disk) (place : Place) (name : String) :
    d.node? (place ++ [name]) = d.nodes[place ++ [name]]? :=
  d.node?_of_ne_nil (by simp)

@[simp] theorem advance_nil (d : Disk) (place : Place) : d.advance place [] = .ok (.found place) :=
  rfl

/-- Every step is made from a directory. -/
theorem node?_of_advance {step : Step} (h : d.advance place (step :: rest) = .ok progress) :
    d.node? place = some .dir := by
  unfold advance at h
  split at h
  case h_1 => contradiction
  case h_2 => contradiction
  case h_3 => contradiction
  case h_4 hdir => exact hdir

theorem advance_stay (h : d.node? place = some .dir) :
    d.advance place (.stay :: rest) = d.advance place rest := by
  rw [advance.eq_def]
  simp only [h]

theorem advance_up (h : d.node? place = some .dir) :
    d.advance place (.up :: rest) = d.advance place.dropLast rest := by
  rw [advance.eq_def]
  simp only [h]

/-- Going into a name ends at a free place, turns to the target of a link, or goes on behind what is
there. -/
theorem advance_into_iff {name : String} :
    d.advance place (.into name :: rest) = .ok progress ↔
      d.node? place = some .dir ∧ name.utf8ByteSize ≤ maxNameBytes ∧
        ((d.node? (place ++ [name]) = none ∧ rest = [] ∧ progress = .vacant (place ++ [name])) ∨
          (∃ target, d.node? (place ++ [name]) = some (.link target) ∧
            progress = .detour place target rest) ∨
          ∃ node, d.node? (place ++ [name]) = some node ∧ ¬ node.IsLink ∧
            d.advance (place ++ [name]) rest = .ok progress) := by
  constructor
  · intro h
    have hdir := node?_of_advance h
    rw [advance.eq_def] at h
    simp only [hdir] at h
    split at h
    · contradiction
    · rename_i hlength
      refine ⟨hdir, Nat.le_of_not_lt hlength, ?_⟩
      split at h
      case h_1 hnone =>
        split at h
        · rename_i hend
          cases h
          exact .inl ⟨hnone, List.isEmpty_iff.mp hend, rfl⟩
        · contradiction
      case h_2 target hlink =>
        cases h
        exact .inr (.inl ⟨target, hlink, rfl⟩)
      case h_3 node hnot hnode =>
        exact .inr (.inr ⟨node, hnode, fun ⟨target, heq⟩ => hnot target heq, h⟩)
  · rintro ⟨hdir, hlength, hcases⟩
    rw [advance.eq_def]
    simp only [hdir, if_neg (Nat.not_lt_of_le hlength)]
    rcases hcases with ⟨hnone, rfl, rfl⟩ | ⟨target, hlink, rfl⟩ | ⟨node, hnode, hnot, hrest⟩
    · simp only [hnone, List.isEmpty_nil, if_true]
    · simp only [hlink]
    · rw [hnode]
      cases node with
      | link target => exact absurd ⟨target, rfl⟩ hnot
      | dir => exact hrest
      | file content modified => exact hrest

/-- A step that stays needs only what every other step needs. -/
theorem advance_stay_of_ne_nil (d : Disk) (place : Place) (hne : rest ≠ []) :
    d.advance place (.stay :: rest) = d.advance place rest := by
  cases rest with
  | nil => exact absurd rfl hne
  | cons step rest =>
      cases hnode : d.node? place with
      | none => rw [advance.eq_def, advance.eq_def]; simp only [hnode]
      | some node =>
          cases node with
          | dir => exact advance_stay hnode
          | file content modified => rw [advance.eq_def, advance.eq_def]; simp only [hnode]
          | link target => rw [advance.eq_def, advance.eq_def]; simp only [hnode]

/-- Going some steps and then others. A free place is only found at the very end of the way. -/
theorem advance_append (d : Disk) (place : Place) (init : List Step) (hne : rest ≠ []) :
    d.advance place (init ++ rest) =
      match d.advance place init with
      | .error e => .error e
      | .ok (.found middle) => d.advance middle rest
      | .ok (.vacant _) => .error .notFound
      | .ok (.detour dir target left) => .ok (.detour dir target (left ++ rest)) := by
  induction init generalizing place with
  | nil => rfl
  | cons step init ih =>
      rw [List.cons_append]
      cases hnode : d.node? place with
      | none => rw [advance.eq_def, advance.eq_def d place (step :: init)]; simp only [hnode]
      | some node =>
          cases node with
          | file content modified =>
              rw [advance.eq_def, advance.eq_def d place (step :: init)]; simp only [hnode]
          | link target =>
              rw [advance.eq_def, advance.eq_def d place (step :: init)]; simp only [hnode]
          | dir =>
              cases step with
              | stay => rw [advance_stay hnode, advance_stay hnode, ih]
              | up => rw [advance_up hnode, advance_up hnode, ih]
              | into name =>
                  rw [advance.eq_def, advance.eq_def d place (.into name :: init)]
                  simp only [hnode]
                  split
                  · rfl
                  · cases d.node? (place ++ [name]) with
                    | none =>
                        cases init <;> simp [hne]
                    | some inner =>
                        cases inner with
                        | link target => rfl
                        | dir => exact ih _
                        | file content modified => exact ih _

/-! ### Following links -/

theorem chase_of_found {links : Nat} {steps : List Step} {found : Place}
    (h : d.advance place steps = .ok (.found found)) :
    d.chase links place steps = .ok (.found found) := by
  rw [chase.eq_def]
  simp only [h]

theorem chase_of_vacant {links : Nat} {steps : List Step} {free : Place}
    (h : d.advance place steps = .ok (.vacant free)) :
    d.chase links place steps = .ok (.vacant free) := by
  rw [chase.eq_def]
  simp only [h]

theorem chase_of_detour {links : Nat} {steps : List Step} {dir : Place} {target : String}
    (h : d.advance place steps = .ok (.detour dir target rest)) :
    d.chase (links + 1) place steps =
      d.chase links (origin dir ⟨target⟩) ((Path.mk target).steps ++ rest) := by
  rw [chase.eq_def]
  simp only [h]

/-- A look-up that gets somewhere gets there at once, or behind the first link. -/
theorem of_chase {links : Nat} {steps : List Step} {landing : Landing}
    (h : d.chase links place steps = .ok landing) :
    (∃ found, d.advance place steps = .ok (.found found) ∧ landing = .found found) ∨
      (∃ free, d.advance place steps = .ok (.vacant free) ∧ landing = .vacant free) ∨
        ∃ fewer dir target rest, links = fewer + 1 ∧
          d.advance place steps = .ok (.detour dir target rest) ∧
          d.chase fewer (origin dir ⟨target⟩) ((Path.mk target).steps ++ rest) = .ok landing := by
  rw [chase.eq_def] at h
  dsimp only at h
  split at h
  case h_1 => contradiction
  case h_2 found hadvance =>
    cases h
    exact .inl ⟨found, hadvance, rfl⟩
  case h_3 free hadvance =>
    cases h
    exact .inr (.inl ⟨free, hadvance, rfl⟩)
  case h_4 dir target rest hadvance =>
    cases links with
    | zero => contradiction
    | succ fewer => exact .inr (.inr ⟨fewer, dir, target, rest, rfl, hadvance, h⟩)

theorem exists_advance_of_chase {links : Nat} {steps : List Step} {landing : Landing}
    (h : d.chase links place steps = .ok landing) : ∃ progress, d.advance place steps = .ok progress := by
  obtain ⟨found, hadvance, -⟩ | ⟨free, hadvance, -⟩ | ⟨_, dir, target, rest, -, hadvance, -⟩ :=
    of_chase h
  · exact ⟨_, hadvance⟩
  · exact ⟨_, hadvance⟩
  · exact ⟨_, hadvance⟩

theorem chase_congr {place' : Place} {steps steps' : List Step}
    (h : d.advance place steps = d.advance place' steps') (links : Nat) :
    d.chase links place steps = d.chase links place' steps' := by
  rw [chase.eq_def, chase.eq_def d links place']
  dsimp only
  rw [h]

/-- A look-up goes to a directory first, and its last step is made there. -/
theorem chase_init {links : Nat} {init : List Step} {last : Step} {landing : Landing}
    (h : d.chase links place (init ++ [last]) = .ok landing) :
    ∃ fewer dir, d.node? dir = some .dir ∧
      ∀ step, d.chase links place (init ++ [step]) = d.chase fewer dir [step] := by
  induction links using Nat.strongRecOn generalizing place init with
  | ind links ih =>
      have happend (step : Step) := d.advance_append place init (List.cons_ne_nil step [])
      obtain ⟨progress, hadvance⟩ := exists_advance_of_chase h
      rw [happend] at hadvance
      split at hadvance
      case h_1 => contradiction
      case h_2 middle hinit =>
        refine ⟨links, middle, node?_of_advance hadvance, fun step => chase_congr ?_ links⟩
        rw [happend, hinit]
      case h_3 => contradiction
      case h_4 dir target left hinit =>
        have hdetour (step : Step) :
            d.advance place (init ++ [step]) = .ok (.detour dir target (left ++ [step])) := by
          rw [happend, hinit]
        -- The link is followed, whatever the last step is, with one link less to go.
        obtain ⟨_, hother, -⟩ | ⟨_, hother, -⟩ | ⟨fewer, _, _, _, rfl, hsame, hbehind⟩ := of_chase h
        · cases (hdetour last).symm.trans hother
        · cases (hdetour last).symm.trans hother
        · cases (hdetour last).symm.trans hsame
          rw [← List.append_assoc] at hbehind
          obtain ⟨links, middle, hmiddle, heq⟩ := ih fewer (Nat.lt_succ_self fewer) hbehind
          refine ⟨links, middle, hmiddle, fun step => ?_⟩
          rw [chase_of_detour (hdetour step), ← List.append_assoc, heq]

/-! ### The last step -/

theorem chase_stay {links : Nat} (h : d.node? place = some .dir) :
    d.chase links place [.stay] = .ok (.found place) :=
  chase_of_found (by rw [advance_stay h, advance_nil])

theorem chase_into_free {links : Nat} {name : String} (h : d.node? place = some .dir)
    (hlength : name.utf8ByteSize ≤ maxNameBytes) (hfree : d.node? (place ++ [name]) = none) :
    d.chase links place [.into name] = .ok (.vacant (place ++ [name])) :=
  chase_of_vacant (advance_into_iff.mpr ⟨h, hlength, .inl ⟨hfree, rfl, rfl⟩⟩)

theorem chase_into_node {links : Nat} {name : String} {node : Node} (h : d.node? place = some .dir)
    (hlength : name.utf8ByteSize ≤ maxNameBytes) (hnode : d.node? (place ++ [name]) = some node)
    (hlink : ¬ node.IsLink) : d.chase links place [.into name] = .ok (.found (place ++ [name])) :=
  chase_of_found (advance_into_iff.mpr ⟨h, hlength, .inr (.inr ⟨node, hnode, hlink, rfl⟩)⟩)

theorem length_of_chase_into {links : Nat} {name : String} {landing : Landing}
    (h : d.chase links place [.into name] = .ok landing) : name.utf8ByteSize ≤ maxNameBytes := by
  obtain ⟨progress, hadvance⟩ := exists_advance_of_chase h
  exact (advance_into_iff.mp hadvance).2.1

/-- Whether one comes out of removed directories on the way does not depend on the last step. -/
theorem leave_init {removed : Nat} {init steps : List Step} {last : Step} (hlast : last ≠ .up)
    (h : leave removed (init ++ [last]) = .ok (some steps)) :
    ∃ left, ∀ step, leave removed (init ++ [step]) = .ok (some (left ++ [step])) := by
  induction init generalizing removed with
  | nil =>
      cases removed with
      | zero => exact ⟨[], fun step => rfl⟩
      | succ removed =>
          cases last with
          | stay => simp [leave] at h
          | up => exact absurd rfl hlast
          | into name => contradiction
  | cons first init ih =>
      cases removed with
      | zero => exact ⟨first :: init, fun step => rfl⟩
      | succ removed =>
          cases first with
          | stay => exact ih h
          | up => exact ih h
          | into name => contradiction

/-- Where the last step of a path is made. -/
theorem follow_init {p : Path} {init : List Step} {last : Step} {landing : Landing}
    (hlast : last ≠ .up) (hlanding : landing ≠ .removed)
    (h : d.follow p (init ++ [last]) = .ok landing) :
    ∃ links dir, d.node? dir = some .dir ∧
      ∀ step, d.follow p (init ++ [step]) = d.chase links dir [step] := by
  cases hrefused : p.refusal? with
  | some e => simp [follow, hrefused] at h
  | none =>
      cases habsolute : p.isAbsolute with
      | true =>
          have hfollow (step : Step) :
              d.follow p (init ++ [step]) = d.chase maxLinks [] (init ++ [step]) := by
            simp [follow, hrefused, habsolute]
          obtain ⟨links, dir, hdir, hsame⟩ := chase_init (hfollow last ▸ h)
          exact ⟨links, dir, hdir, fun step => (hfollow step).trans (hsame step)⟩
      | false =>
          simp only [follow, hrefused, habsolute, Bool.false_eq_true, if_false] at h ⊢
          split at h
          case h_1 => contradiction
          case h_2 =>
            cases h
            exact absurd rfl hlanding
          case h_3 steps hleave =>
            obtain ⟨left, hleft⟩ := leave_init hlast hleave
            cases hleave.symm.trans (hleft last)
            obtain ⟨links, dir, hdir, hsame⟩ := chase_init h
            refine ⟨links, dir, hdir, fun step => ?_⟩
            rw [hleft]
            exact hsame step

theorem resolve_eq_ok {p : Path} : d.resolve p = .ok place ↔ d.look p = .ok (.found place) := by
  rw [resolve]
  constructor
  · intro h
    split at h
    · contradiction
    · rename_i found hlook
      cases h
      exact hlook
    · contradiction
  · intro h
    rw [h]

theorem follow_of_isAbsolute {p : Path} (hp : p.isAbsolute) {steps : List Step} {landing : Landing} :
    d.follow p steps = .ok landing ↔
      p.refusal? = none ∧ d.chase maxLinks [] steps = .ok landing := by
  rw [follow]
  cases p.refusal? with
  | some e => simp
  | none => simp [hp]

/-! ### Normal forms -/

theorem anchor?_of_ok {reversed : List Component} {names : List String}
    (h : d.locate (Path.ofComponents reversed.reverse) = .ok place) :
    d.anchor? reversed names = some (Path.absolute (place ++ names)) := by
  rw [anchor?.eq_def]
  simp only [h]

theorem anchor?_of_error {e : DiskError} {text : String} {up : List Component} {names : List String}
    (h : d.locate (Path.ofComponents (Component.name text :: up).reverse) = .error e) :
    d.anchor? (.name text :: up) names = d.anchor? up (text :: names) := by
  rw [anchor?.eq_def]
  simp only [h]

end Disk

end Workbench
