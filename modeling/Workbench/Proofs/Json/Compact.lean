import Workbench.Proofs.Json.RoundTrip

/-!
The compact form tells values apart. Values are read off the front of a text without a look at what
follows, but for numbers, which end where the digits end. So two values without floating-point
numbers are written alike only if they are one, and then also the texts behind them are the same.
-/

namespace Workbench.Json

/-- A value without floating-point numbers. -/
inductive Floatless : Json → Prop where
  | null : Floatless .null
  | bool (value : Bool) : Floatless (.bool value)
  | int (value : Int) : Floatless (.int value)
  | str (value : String) : Floatless (.str value)
  | arr {items : List Json} (h : ∀ item ∈ items, Floatless item) : Floatless (.arr items)
  | obj {members : List (String × Json)} (h : ∀ member ∈ members, Floatless member.2) :
      Floatless (.obj members)

/-- What may stand behind a number without being taken for a part of it. -/
def EndsDigits (rest : List Char) : Prop := ∀ c ∈ rest.head?, c.isDigit = false

theorem endsDigits_nil : EndsDigits [] := nofun

theorem endsDigits_cons {c : Char} (h : c.isDigit = false) (rest : List Char) :
    EndsDigits (c :: rest) := by
  rintro _ ⟨⟩
  exact h

/-- Two things are told apart by how they are written, whatever follows them. -/
def Apart {α : Type} (write : α → List Char) (x y : α) : Prop :=
  ∀ rest rest', EndsDigits rest → EndsDigits rest' → write x ++ rest = write y ++ rest' →
    x = y ∧ rest = rest'

/-! ### Texts and numbers -/

theorem seen_quote_append (text : String) (rest : List Char) :
    seen (quote text ++ rest) =
      '"' :: (seen (text.toList.flatMap escapeChar) ++ '"' :: seen rest) := by
  rw [seen_append, seen_quote]

/-- A text between quotes is read back, so it is the one that was written. -/
theorem quote_append_inj {text other : String} {rest rest' : List Char}
    (h : quote text ++ rest = quote other ++ rest') : text = other ∧ rest = rest' := by
  have hseen := congrArg seen h
  rw [seen_quote_append, seen_quote_append, List.cons.injEq] at hseen
  have hread := congrArg readText? hseen.2
  rw [readText?_escaped, readText?_escaped] at hread
  simp only [Option.some.injEq, Prod.mk.injEq] at hread
  obtain ⟨rfl, -⟩ := hread
  exact ⟨rfl, List.append_cancel_left h⟩

theorem takeWhile_toDigits (n : Nat) {rest : List Char} (h : EndsDigits rest) :
    (Nat.toDigits 10 n ++ rest).takeWhile Char.isDigit = Nat.toDigits 10 n := by
  have hstop : rest.takeWhile Char.isDigit = [] := by
    cases rest with
    | nil => rfl
    | cons c rest => simp [h c rfl]
  rw [List.takeWhile_append_of_pos, hstop, List.append_nil]
  exact fun c hc => Nat.isDigit_of_mem_toDigits (by decide) (by decide) hc

theorem toDigits_append_inj {m n : Nat} {rest rest' : List Char} (hrest : EndsDigits rest)
    (hrest' : EndsDigits rest') (h : Nat.toDigits 10 m ++ rest = Nat.toDigits 10 n ++ rest') :
    m = n ∧ rest = rest' := by
  have hdigits := congrArg (List.takeWhile Char.isDigit) h
  rw [takeWhile_toDigits m hrest, takeWhile_toDigits n hrest'] at hdigits
  have hvalue := congrArg (Nat.ofDigitChars 10 · 0) hdigits
  simp only [Nat.ofDigitChars_ten_toDigits] at hvalue
  exact ⟨hvalue, List.append_cancel_left (hdigits ▸ h)⟩

theorem toList_toString_ofNat (n : Nat) :
    (toString (Int.ofNat n)).toList = Nat.toDigits 10 n := by
  rw [Int.toString_eq_repr, Int.repr, Nat.toList_repr]

theorem toList_toString_negSucc (n : Nat) :
    (toString (Int.negSucc n)).toList = '-' :: Nat.toDigits 10 (n + 1) := by
  rw [Int.toString_eq_repr, Int.repr, String.toList_append, Nat.toList_repr]
  rfl

theorem exists_digit (n : Nat) : ∃ c cs, Nat.toDigits 10 n = c :: cs ∧ c.isDigit := by
  cases hcs : Nat.toDigits 10 n with
  | nil => exact absurd hcs Nat.toDigits_ne_nil
  | cons c cs =>
      exact ⟨c, cs, rfl, Nat.isDigit_of_mem_toDigits (b := 10) (n := n) (by decide) (by decide)
        (hcs ▸ List.mem_cons_self)⟩

theorem minus_ne_toDigits (n : Nat) (cs rest : List Char) :
    '-' :: cs ≠ Nat.toDigits 10 n ++ rest := by
  obtain ⟨c, digits, hdigits, hc⟩ := exists_digit n
  rw [hdigits, List.cons_append]
  intro h
  rw [← (List.cons.inj h).1] at hc
  exact absurd hc (by decide)

theorem apart_int (m n : Int) : Apart (fun n : Int => (toString n).toList) m n := by
  intro rest rest' hrest hrest' h
  dsimp only at h
  cases m with
  | ofNat m =>
      cases n with
      | ofNat n =>
          rw [toList_toString_ofNat, toList_toString_ofNat] at h
          exact (toDigits_append_inj hrest hrest' h).imp_left fun heq => by rw [heq]
      | negSucc n =>
          rw [toList_toString_ofNat, toList_toString_negSucc] at h
          exact absurd h.symm (minus_ne_toDigits m _ rest)
  | negSucc m =>
      cases n with
      | ofNat n =>
          rw [toList_toString_ofNat, toList_toString_negSucc] at h
          exact absurd h (minus_ne_toDigits n _ rest')
      | negSucc n =>
          rw [toList_toString_negSucc, toList_toString_negSucc] at h
          obtain ⟨heq, hbehind⟩ := toDigits_append_inj hrest hrest' (List.cons.inj h).2
          exact ⟨by rw [Nat.succ.inj heq], hbehind⟩

/-! ### Items and members -/

section Separated

variable {α : Type} {write : α → List Char} {close : Char} {xs ys : List α}

/-- What stands behind the first of some things with commas between them. -/
theorem intercalate_cons_append (write : α → List Char) (x : α) (xs : List α) (rest : List Char) :
    [','].intercalate ((x :: xs).map write) ++ rest =
      write x ++ if xs = [] then rest else ',' :: ([','].intercalate (xs.map write) ++ rest) := by
  cases xs with
  | nil => simp
  | cons y xs => simp [List.intercalate_cons_cons]

/-- Things are told apart with commas between them if each of them is, and if none of them begins
with what stands behind the last. -/
theorem intercalate_append_inj (hcomma : close ≠ ',') (hdigit : close.isDigit = false)
    (hwrite : ∀ x ∈ xs, ∀ y ∈ ys, Apart write x y)
    (hxs : ∀ x ∈ xs, ∃ c cs, write x = c :: cs ∧ c ≠ close)
    (hys : ∀ y ∈ ys, ∃ c cs, write y = c :: cs ∧ c ≠ close) {rest rest' : List Char}
    (h : [','].intercalate (xs.map write) ++ close :: rest =
      [','].intercalate (ys.map write) ++ close :: rest') : xs = ys ∧ rest = rest' := by
  have hends (zs : List α) (more : List Char) : EndsDigits
      (if zs = [] then close :: more else ',' :: ([','].intercalate (zs.map write) ++ close :: more)) := by
    split
    · exact endsDigits_cons hdigit _
    · exact endsDigits_cons (by decide) _
  induction xs generalizing ys with
  | nil =>
      cases ys with
      | nil => exact ⟨rfl, (List.cons.inj h).2⟩
      | cons y ys =>
          obtain ⟨c, cs, hy, hc⟩ := hys y List.mem_cons_self
          rw [intercalate_cons_append, hy] at h
          exact absurd (List.cons.inj h).1.symm hc
  | cons x xs ih =>
      cases ys with
      | nil =>
          obtain ⟨c, cs, hx, hc⟩ := hxs x List.mem_cons_self
          rw [intercalate_cons_append, hx] at h
          exact absurd (List.cons.inj h).1 hc
      | cons y ys =>
          rw [intercalate_cons_append, intercalate_cons_append] at h
          obtain ⟨rfl, hbehind⟩ := hwrite x List.mem_cons_self y List.mem_cons_self _ _
            (hends xs rest) (hends ys rest') h
          split at hbehind
          case isTrue hnil =>
            split at hbehind
            case isTrue hnil' => exact ⟨by rw [hnil, hnil'], (List.cons.inj hbehind).2⟩
            case isFalse => exact absurd (List.cons.inj hbehind).1 hcomma
          case isFalse =>
            split at hbehind
            case isTrue => exact absurd (List.cons.inj hbehind).1.symm hcomma
            case isFalse =>
              obtain ⟨rfl, hrest⟩ := ih
                (fun z hz w hw => hwrite z (List.mem_cons_of_mem x hz) w (List.mem_cons_of_mem x hw))
                (fun z hz => hxs z (List.mem_cons_of_mem x hz))
                (fun w hw => hys w (List.mem_cons_of_mem x hw)) (List.cons.inj hbehind).2
              exact ⟨rfl, hrest⟩

end Separated

/-- How a member of an object is written. -/
def memberChars (member : String × Json) : List Char :=
  quote member.1 ++ ':' :: member.2.compactChars

theorem compactItems_eq (items : List Json) :
    compactItems items = [','].intercalate (items.map compactChars) := by
  induction items with
  | nil => rfl
  | cons item rest ih =>
      cases rest with
      | nil => simp [compactItems]
      | cons next rest =>
          rw [compactItems, ih]
          · simp [List.intercalate_cons_cons]
          · nofun

theorem compactMembers_eq (members : List (String × Json)) :
    compactMembers members = [','].intercalate (members.map memberChars) := by
  induction members with
  | nil => rfl
  | cons member rest ih =>
      obtain ⟨key, value⟩ := member
      cases rest with
      | nil => simp [compactMembers, memberChars]
      | cons next rest =>
          rw [compactMembers, ih]
          · simp [List.intercalate_cons_cons, memberChars]
          · nofun

/-! ### Values -/

/-- The kind of value that a character begins. -/
def kindOf (c : Char) : Nat :=
  if c = 'n' then Json.null.ctorIdx
  else if c = 't' ∨ c = 'f' then (Json.bool true).ctorIdx
  else if c = '"' then (Json.str "").ctorIdx
  else if c = '[' then (Json.arr []).ctorIdx
  else if c = '\x7b' then (Json.obj []).ctorIdx
  else (Json.int 0).ctorIdx

theorem exists_compactChars {j : Json} (h : Floatless j) :
    ∃ c cs, j.compactChars = c :: cs ∧ kindOf c = j.ctorIdx ∧ c ≠ ']' ∧ c ≠ '\x7d' := by
  cases h with
  | null => exact ⟨'n', _, rfl, rfl, by decide⟩
  | bool value => cases value with
    | true => exact ⟨'t', _, rfl, rfl, by decide⟩
    | false => exact ⟨'f', _, rfl, rfl, by decide⟩
  | int value =>
      cases value with
      | ofNat n =>
          obtain ⟨c, cs, hdigits, hc⟩ := exists_digit n
          have hne {other : Char} (hother : other.isDigit = false) : c ≠ other := by
            rintro rfl
            exact absurd hc (by simp [hother])
          refine ⟨c, cs, (toList_toString_ofNat n).trans hdigits, ?_, hne rfl, hne rfl⟩
          rw [kindOf, if_neg (hne rfl), if_neg (not_or.mpr ⟨hne rfl, hne rfl⟩), if_neg (hne rfl),
            if_neg (hne rfl), if_neg (hne rfl)]
          rfl
      | negSucc n => exact ⟨'-', _, toList_toString_negSucc n, rfl, by decide⟩
  | str value => exact ⟨'"', _, rfl, rfl, by decide⟩
  | arr => exact ⟨'[', _, rfl, rfl, by decide⟩
  | obj => exact ⟨'\x7b', _, rfl, rfl, by decide⟩

/-- Values that begin alike are of one kind. -/
theorem ctorIdx_eq_of_append {j k : Json} (hj : Floatless j) (hk : Floatless k)
    {rest rest' : List Char} (h : j.compactChars ++ rest = k.compactChars ++ rest') :
    j.ctorIdx = k.ctorIdx := by
  obtain ⟨c, cs, hjs, hjkind, -⟩ := exists_compactChars hj
  obtain ⟨d, ds, hks, hkkind, -⟩ := exists_compactChars hk
  rw [hjs, hks] at h
  rw [← hjkind, ← hkkind, (List.cons.inj h).1]

theorem apart_memberChars {member other : String × Json} (h : Apart compactChars member.2 other.2) :
    Apart memberChars member other := by
  intro rest rest' hrest hrest' heq
  rw [memberChars, memberChars, List.append_assoc, List.append_assoc] at heq
  obtain ⟨hkey, hbehind⟩ := quote_append_inj heq
  obtain ⟨hvalue, hrests⟩ := h rest rest' hrest hrest' (List.cons.inj hbehind).2
  exact ⟨Prod.ext hkey hvalue, hrests⟩

/-- Values without floating-point numbers are told apart. -/
theorem apart_compactChars {j k : Json} (hj : Floatless j) (hk : Floatless k) :
    Apart compactChars j k := by
  induction hj generalizing k with
  | null =>
      intro rest rest' _ _ h
      have hkind := ctorIdx_eq_of_append .null hk h
      cases hk with
      | null => exact ⟨rfl, List.append_cancel_left h⟩
      | _ => cases hkind
  | bool value =>
      intro rest rest' _ _ h
      have hkind := ctorIdx_eq_of_append (.bool value) hk h
      cases hk with
      | bool other =>
          cases value <;> cases other <;> simp_all [compactChars]
      | _ => cases hkind
  | int value =>
      intro rest rest' hrest hrest' h
      have hkind := ctorIdx_eq_of_append (.int value) hk h
      cases hk with
      | int other => exact (apart_int value other rest rest' hrest hrest' h).imp_left (congrArg _)
      | _ => cases hkind
  | str value =>
      intro rest rest' _ _ h
      have hkind := ctorIdx_eq_of_append (.str value) hk h
      cases hk with
      | str other => exact (quote_append_inj h).imp_left (congrArg _)
      | _ => cases hkind
  | @arr items hitems ih =>
      intro rest rest' _ _ h
      have hkind := ctorIdx_eq_of_append (.arr hitems) hk h
      cases hk with
      | @arr others hothers =>
          rw [compactChars, compactChars, compactItems_eq, compactItems_eq] at h
          simp only [List.cons_append, List.cons.injEq, true_and, List.append_assoc] at h
          refine (intercalate_append_inj (by decide) (by decide)
            (fun x hx y hy => ih x hx (hothers y hy)) (fun x hx => ?_) (fun y hy => ?_) h).imp_left
            (congrArg _)
          · obtain ⟨c, cs, hx, -, hc, -⟩ := exists_compactChars (hitems x hx)
            exact ⟨c, cs, hx, hc⟩
          · obtain ⟨c, cs, hy, -, hc, -⟩ := exists_compactChars (hothers y hy)
            exact ⟨c, cs, hy, hc⟩
      | _ => cases hkind
  | @obj members hmembers ih =>
      intro rest rest' _ _ h
      have hkind := ctorIdx_eq_of_append (.obj hmembers) hk h
      cases hk with
      | @obj others hothers =>
          rw [compactChars, compactChars, compactMembers_eq, compactMembers_eq] at h
          simp only [List.cons_append, List.cons.injEq, true_and, List.append_assoc] at h
          refine (intercalate_append_inj (by decide) (by decide)
            (fun x hx y hy => apart_memberChars (ih x hx (hothers y hy)))
            (fun x _ => ⟨'"', _, rfl, by decide⟩) (fun y _ => ⟨'"', _, rfl, by decide⟩) h).imp_left
            (congrArg _)
      | _ => cases hkind

/-- The compact form tells values without floating-point numbers apart. -/
theorem compact_inj {j k : Json} (hj : Floatless j) (hk : Floatless k) (h : j.compact = k.compact) :
    j = k := by
  have hchars := congrArg String.toList h
  rw [compact, compact, String.toList_ofList, String.toList_ofList] at hchars
  exact (apart_compactChars hj hk [] [] endsDigits_nil endsDigits_nil (by rw [hchars])).1

end Workbench.Json
