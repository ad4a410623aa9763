import Mathlib.Data.List.TakeDrop
import Workbench.Json.Reader
import Workbench.Proofs.Text.Bytes

/-!
What is written as JSON is read back. The reader sees one character for each byte, so a text between
quotes is read as the bytes of its characters. Values are exact if they hold no number that is
rounded; the pretty form of an exact value reads back as the value.
-/

namespace Workbench.Json

/-! ### What a reader sees -/

/-- The character that a byte is taken for. -/
def byteChar (byte : UInt8) : Char := Char.ofNat byte.toNat

/-- What a reader sees of a text: a character for each byte. -/
def seen (cs : List Char) : List Char := (cs.flatMap String.utf8EncodeChar).map byteChar

@[simp] theorem seen_nil : seen [] = [] := rfl

@[simp] theorem seen_append (cs ds : List Char) : seen (cs ++ ds) = seen cs ++ seen ds := by
  rw [seen, List.flatMap_append, List.map_append]
  rfl

theorem toNat_byteChar (byte : UInt8) : (byteChar byte).toNat = byte.toNat := by
  have hbyte := byte.toNat_lt
  have hvalid : byte.toNat.isValidChar := .inl (by omega)
  rw [byteChar, Char.ofNat, dif_pos hvalid]
  rfl

theorem byteChar_ofNat {c : Char} (h : c.toNat < 128) : byteChar (UInt8.ofNat c.toNat) = c := by
  have hlt : c.toNat < UInt8.size := Nat.lt_trans h (by decide)
  rw [byteChar, UInt8.toNat_ofNat_of_lt' hlt, Char.ofNat_toNat]

theorem seen_cons_of_lt {c : Char} (h : c.toNat < 128) (cs : List Char) :
    seen (c :: cs) = c :: seen cs := by
  rw [seen, List.flatMap_cons, Text.utf8EncodeChar_of_lt h, List.map_append, List.map_singleton,
    byteChar_ofNat h]
  rfl

theorem seen_of_lt {cs : List Char} (h : ∀ c ∈ cs, c.toNat < 128) : seen cs = cs := by
  induction cs with
  | nil => rfl
  | cons c rest ih =>
      rw [seen_cons_of_lt (h c List.mem_cons_self),
        ih fun other hother => h other (List.mem_cons_of_mem _ hother)]

/-! ### Texts -/

/-- Some pieces are read off what is seen of some characters, and stand for their bytes. -/
def ReadsAs (cs : List Char) (bytes : List UInt8) : Prop :=
  ∃ front, (∀ rest, pieces? 0 (seen cs ++ rest) =
      (pieces? 0 rest).map fun read => (front ++ read.1, read.2)) ∧
    ∀ back, join? (front ++ back) = (join? back).map (bytes ++ ·)

theorem ReadsAs.append {cs ds : List Char} {bytes more : List UInt8} (h : ReadsAs cs bytes)
    (h' : ReadsAs ds more) : ReadsAs (cs ++ ds) (bytes ++ more) := by
  obtain ⟨front, hpieces, hjoin⟩ := h
  obtain ⟨front', hpieces', hjoin'⟩ := h'
  refine ⟨front ++ front', fun rest => ?_, fun back => ?_⟩
  · rw [seen_append, List.append_assoc, hpieces, hpieces', Option.map_map]
    simp [Function.comp_def]
  · rw [List.append_assoc, hjoin, hjoin', Option.map_map]
    simp [Function.comp_def]

theorem readsAs_bytes {c : Char} (hquote : c ≠ '"') (hslash : c ≠ '\\') (hcontrol : 0x20 ≤ c.toNat) :
    ReadsAs [c] (String.utf8EncodeChar c) := by
  have hplain : ∀ byte ∈ String.utf8EncodeChar c,
      byteChar byte ≠ '"' ∧ byteChar byte ≠ '\\' ∧ 0x20 ≤ (byteChar byte).toNat := by
    intro byte hbyte
    by_cases hlow : c.toNat < 128
    · rw [Text.utf8EncodeChar_of_lt hlow, List.mem_singleton] at hbyte
      rw [hbyte, byteChar_ofNat hlow]
      exact ⟨hquote, hslash, hcontrol⟩
    · have hhigh := Text.le_of_mem_utf8EncodeChar (Nat.le_of_not_lt hlow) hbyte
      have hvalue := toNat_byteChar byte
      refine ⟨?_, ?_, by omega⟩ <;>
      · intro heq
        rw [heq] at hvalue
        exact absurd (hvalue ▸ hhigh) (by decide)
  have hseen : seen [c] = (String.utf8EncodeChar c).map byteChar := by simp [seen]
  rw [ReadsAs, hseen]
  generalize String.utf8EncodeChar c = bytes at hplain
  refine ⟨bytes.map fun byte => .char (byteChar byte), fun rest => ?_, fun back => ?_⟩
  · induction bytes with
    | nil => simp
    | cons byte bytes ih =>
        obtain ⟨hquote, hslash, hcontrol⟩ := hplain byte List.mem_cons_self
        have hrest := ih fun other hother => hplain other (List.mem_cons_of_mem _ hother)
        rw [List.map_cons, List.cons_append, pieces?, if_neg (Nat.not_lt_of_le hcontrol), hrest]
        · cases pieces? 0 rest <;> rfl
        · exact hquote
        · exact hslash
  · clear hplain hseen
    induction bytes with
    | nil => simp
    | cons byte bytes ih =>
        rw [List.map_cons, List.cons_append, join?, ih, Option.map_map, toNat_byteChar]
        simp [Function.comp_def]

theorem readsAs_short {c short : Char} (hshort : shortEscape? short = some c) (hnot : short ≠ 'u')
    (hc : c.toNat < 128) (hlow : short.toNat < 128) :
    ReadsAs ['\\', short] (String.utf8EncodeChar c) := by
  have hseen : seen ['\\', short] = ['\\', short] := seen_of_lt (by simpa using hlow)
  refine ⟨[.char c], fun rest => ?_, fun back => ?_⟩
  · have hskip : pieces? 1 (short :: rest) = pieces? 0 rest := rfl
    rw [hseen, List.cons_append, List.singleton_append, pieces?, hshort]
    · dsimp only [bind, Option.bind]
      rw [hskip]
      cases pieces? 0 rest <;> rfl
    · exact hnot
  · rw [List.singleton_append, join?, Text.utf8EncodeChar_of_lt hc]
    rfl

theorem hexValue?_hexDigit {n : Nat} (h : n < 16) : hexValue? (hexDigit n) = some n := by
  have hall : ∀ n < 16, hexValue? (hexDigit n) = some n := by decide
  exact hall n h

theorem readsAs_unit {c : Char} (hc : c.toNat < 0x20) :
    ReadsAs ['\\', 'u', '0', '0', hexDigit (c.toNat / 16), hexDigit (c.toNat % 16)]
      (String.utf8EncodeChar c) := by
  have hdigit : ∀ n < 16, (hexDigit n).toNat < 128 := by decide
  have hhigh := hexValue?_hexDigit (show c.toNat / 16 < 16 by omega)
  have hlow := hexValue?_hexDigit (Nat.mod_lt c.toNat (show 0 < 16 by omega))
  have hseen : seen ['\\', 'u', '0', '0', hexDigit (c.toNat / 16), hexDigit (c.toNat % 16)] =
      ['\\', 'u', '0', '0', hexDigit (c.toNat / 16), hexDigit (c.toNat % 16)] := by
    have hfirst := hdigit (c.toNat / 16) (by omega)
    have hsecond := hdigit (c.toNat % 16) (by omega)
    refine seen_of_lt ?_
    simp [hfirst, hsecond]
  have hzero : hexValue? '0' = some 0 := by decide
  have hnumber (rest : List Char) : fourDigits? ('0' :: '0' :: hexDigit (c.toNat / 16) ::
      hexDigit (c.toNat % 16) :: rest) = some (c.toNat, rest) := by
    have hvalue : ((0 * 16 + 0) * 16 + c.toNat / 16) * 16 + c.toNat % 16 = c.toNat := by omega
    simp only [fourDigits?, hzero, hhigh, hlow, bind, Option.bind, pure, hvalue]
  refine ⟨[.unit c.toNat], fun rest => ?_, fun back => ?_⟩
  · rw [hseen]
    simp only [List.cons_append, List.nil_append, pieces?, hnumber, bind, Option.bind]
    cases pieces? 0 rest <;> rfl
  · have hnotHigh : isHigh c.toNat = false := by
      simp only [isHigh, Bool.and_eq_false_iff, decide_eq_false_iff_not]
      omega
    have hnotLow : isLow c.toNat = false := by
      simp only [isLow, Bool.and_eq_false_iff, decide_eq_false_iff_not]
      omega
    have hbytes : charBytes c = String.utf8EncodeChar c := by
      rw [charBytes, Text.encode_eq, String.toList_singleton]
      simp
    rw [List.singleton_append, join?.eq_def]
    simp only [hnotHigh, hnotLow, Bool.false_eq_true, if_false, Char.ofNat_toNat, hbytes]

theorem readsAs_escapeChar (c : Char) : ReadsAs (escapeChar c) (String.utf8EncodeChar c) := by
  unfold escapeChar
  split
  · exact readsAs_short rfl (by decide) (by decide) (by decide)
  · exact readsAs_short rfl (by decide) (by decide) (by decide)
  · exact readsAs_short rfl (by decide) (by decide) (by decide)
  · exact readsAs_short rfl (by decide) (by decide) (by decide)
  · exact readsAs_short rfl (by decide) (by decide) (by decide)
  · exact readsAs_short rfl (by decide) (by decide) (by decide)
  · exact readsAs_short rfl (by decide) (by decide) (by decide)
  · rename_i hquote hslash _ _ _ _ _
    split
    · rename_i hcontrol
      exact readsAs_unit hcontrol
    · rename_i hcontrol
      exact readsAs_bytes hquote hslash (Nat.le_of_not_lt hcontrol)

theorem readsAs_escaped (cs : List Char) :
    ReadsAs (cs.flatMap escapeChar) (cs.flatMap String.utf8EncodeChar) := by
  induction cs with
  | nil => exact ⟨[], fun rest => by simp, fun back => by simp⟩
  | cons c rest ih => exact (readsAs_escapeChar c).append ih

/-- A text between quotes is read as it was. -/
theorem readText?_escaped (text : String) (rest : List Char) :
    readText? (seen (text.toList.flatMap escapeChar) ++ '"' :: rest) = some (some text, rest) := by
  obtain ⟨front, hpieces, hjoin⟩ := readsAs_escaped text.toList
  have hend : pieces? 0 ('"' :: rest) = some ([], rest) := by rw [pieces?]
  have hbytes := hjoin []
  rw [List.append_nil, join?, Option.map_some, List.append_nil, ← Text.encode_eq] at hbytes
  rw [readText?, hpieces, hend]
  simp only [Option.map_some, bind, Option.bind, pure, List.append_nil, hbytes, Text.decode?_encode]

/-! ### Numbers -/

/-- What may stand behind a value: nothing, a comma, or the end of a line. -/
def EndsValue (rest : List Char) : Prop := ∀ c ∈ rest.head?, c = ',' ∨ c = '\n'

theorem appendDigits_of_lt {n : Nat} {digits : List Char}
    (h : Nat.ofDigitChars 10 digits n < wordLimit) :
    appendDigits n digits = (Nat.ofDigitChars 10 digits n, []) := by
  have hle (n : Nat) (digits : List Char) : n ≤ Nat.ofDigitChars 10 digits n := by
    induction digits generalizing n with
    | nil => exact Nat.le_refl n
    | cons d rest ih =>
        rw [Nat.ofDigitChars_cons]
        exact Nat.le_trans (by omega) (ih _)
  induction digits generalizing n with
  | nil => rfl
  | cons d rest ih =>
      have hvalue : n * 10 + digitValue d = 10 * n + (d.toNat - '0'.toNat) := by
        rw [digitValue, Nat.mul_comm]
      rw [Nat.ofDigitChars_cons] at h ⊢
      rw [appendDigits, hvalue, if_pos (Nat.lt_of_le_of_lt (hle _ _) h), ih h]

theorem head?_toDigits {n : Nat} (h : (Nat.toDigits 10 n).head? = some '0') :
    (Nat.toDigits 10 n).length = 1 := by
  induction n using Nat.strongRecOn with
  | ind n ih =>
      by_cases hlt : n < 10
      · rw [Nat.toDigits_of_lt_base hlt, List.length_singleton]
      · have hsmaller : n / 10 < n := by omega
        rw [Nat.toDigits_of_base_le (by decide) (Nat.le_of_not_lt hlt),
          List.head?_append_of_ne_nil _ Nat.toDigits_ne_nil] at h
        have hone := ih _ hsmaller h
        by_cases hfirst : n / 10 < 10
        · have hnot : ∀ m < 10, 0 < m → Nat.digitChar m ≠ '0' := by decide
          rw [Nat.toDigits_of_lt_base hfirst, List.head?_singleton, Option.some.injEq] at h
          exact absurd h (hnot _ hfirst (by omega))
        · rw [Nat.toDigits_of_base_le (by decide) (Nat.le_of_not_lt hfirst), List.length_append,
            List.length_singleton] at hone
          exact absurd (Nat.length_toDigits_pos (b := 10) (n := n / 10 / 10)) (by omega)

theorem readDigits?_toDigits (n : Nat) {rest : List Char} (hrest : EndsValue rest) :
    readDigits? (Nat.toDigits 10 n ++ rest) = some (Nat.toDigits 10 n, rest) := by
  have hdigits : ∀ c ∈ Nat.toDigits 10 n, c.isDigit := fun c hc =>
    Nat.isDigit_of_mem_toDigits (by decide) (by decide) hc
  have hstop : rest.takeWhile Char.isDigit = [] ∧ rest.dropWhile Char.isDigit = rest := by
    cases rest with
    | nil => exact ⟨rfl, rfl⟩
    | cons c rest =>
        have hc : c.isDigit = false := by
          rcases hrest c rfl with rfl | rfl <;> decide
        simp [hc]
  rw [readDigits?, List.span_eq_takeWhile_dropWhile, List.takeWhile_append_of_pos hdigits,
    List.dropWhile_append_of_pos hdigits, hstop.1, hstop.2, List.append_nil]
  split
  · rename_i heq
    exact absurd (congrArg Prod.fst heq) Nat.toDigits_ne_nil
  · rename_i digits rest' _ heq
    cases heq
    rfl

theorem readPlaces?_end {rest : List Char} (hrest : EndsValue rest) :
    readPlaces? rest = some (none, rest) := by
  cases rest with
  | nil => rfl
  | cons c rest => rcases hrest c rfl with rfl | rfl <;> rfl

theorem readExponent?_end {rest : List Char} (hrest : EndsValue rest) :
    readExponent? rest = some (none, rest) := by
  cases rest with
  | nil => rfl
  | cons c rest => rcases hrest c rfl with rfl | rfl <;> rfl

/-- The value of a number behind its sign. -/
def readMagnitude? (negative : Bool) (cs : List Char) : Option (Json × List Char) := do
  let (whole, rest) ← readDigits? cs
  if whole.head? = some '0' ∧ 1 < whole.length then none
  else
    let (places, rest) ← readPlaces? rest
    let (exponent, rest) ← readExponent? rest
    return ((number? negative whole places exponent).getD .unreadable, rest)

theorem readNumber?_of_isDigit {c : Char} (hc : c.isDigit) (cs : List Char) :
    readNumber? (c :: cs) = readMagnitude? false (c :: cs) := by
  have hminus : c ≠ '-' := by
    rintro rfl
    exact absurd hc (by decide)
  rw [readNumber?]
  · rfl
  · intro rest heq
    exact hminus (List.cons.inj heq).1

theorem readMagnitude?_toDigits (negative : Bool) {n : Nat} {rest : List Char}
    (hrest : EndsValue rest) :
    readMagnitude? negative (Nat.toDigits 10 n ++ rest) =
      some ((number? negative (Nat.toDigits 10 n) none none).getD .unreadable, rest) := by
  have hzero : ¬ ((Nat.toDigits 10 n).head? = some '0' ∧ 1 < (Nat.toDigits 10 n).length) := by
    rintro ⟨hhead, hlength⟩
    rw [head?_toDigits hhead] at hlength
    exact absurd hlength (by decide)
  simp only [readMagnitude?, readDigits?_toDigits n hrest, bind, Option.bind, if_neg hzero,
    readPlaces?_end hrest, readExponent?_end hrest, pure]

theorem number?_toDigits (negative : Bool) {n : Nat} (hn : n < wordLimit) :
    number? negative (Nat.toDigits 10 n) none none =
      if !negative then some (.int n)
      else if n = 0 ∨ leastMagnitude < n then float? true n 0
      else some (.int (-(n : Int))) := by
  have hvalue := Nat.ofDigitChars_toDigits (b := 10) (n := n) (by decide) (by decide)
  have hlimit : Nat.ofDigitChars 10 (Nat.toDigits 10 n) 0 < wordLimit := by rwa [hvalue]
  have hdigits := appendDigits_of_lt hlimit
  simp only [number?, hdigits, hvalue]
  rfl

/-- The numbers that are written and read without rounding. -/
def IsWord (value : Int) : Prop := -(leastMagnitude : Int) ≤ value ∧ value < wordLimit

/-- A whole number is read as it was. -/
theorem readNumber?_toString {value : Int} (h : IsWord value) {rest : List Char}
    (hrest : EndsValue rest) :
    readNumber? ((toString value).toList ++ rest) = some (.int value, rest) := by
  obtain ⟨hleast, hlimit⟩ := h
  rw [Int.toString_eq_repr]
  cases value with
  | ofNat n =>
      have hn : n < wordLimit := Int.ofNat_lt.mp hlimit
      have hfirst : ∃ c cs, Nat.toDigits 10 n = c :: cs ∧ c.isDigit := by
        cases hcs : Nat.toDigits 10 n with
        | nil => exact absurd hcs Nat.toDigits_ne_nil
        | cons c cs => exact ⟨c, cs, rfl, Nat.isDigit_of_mem_toDigits (b := 10) (n := n)
            (by decide) (by decide) (hcs ▸ List.mem_cons_self)⟩
      obtain ⟨c, cs, hcs, hc⟩ := hfirst
      have hread := readMagnitude?_toDigits false (n := n) hrest
      rw [number?_toDigits false hn] at hread
      rw [Int.repr, Nat.toList_repr, hcs, List.cons_append, readNumber?_of_isDigit hc,
        ← List.cons_append, ← hcs, hread]
      rfl
  | negSucc n =>
      have hn : n + 1 ≤ leastMagnitude := by omega
      have hread := readMagnitude?_toDigits true (n := n + 1) hrest
      rw [number?_toDigits true (Nat.lt_of_le_of_lt hn (by decide))] at hread
      rw [Int.repr, String.toList_append, Nat.toList_repr]
      exact hread.trans (by simp [Nat.not_lt_of_le hn]; omega)

/-! ### Values -/

/-- A value without numbers that are rounded. -/
inductive Exact : Json → Prop where
  | null : Exact .null
  | bool (value : Bool) : Exact (.bool value)
  | int {value : Int} (h : IsWord value) : Exact (.int value)
  | str (value : String) : Exact (.str value)
  | arr {items : List Json} (h : ∀ item ∈ items, Exact item) : Exact (.arr items)
  | obj {members : List (String × Json)} (h : ∀ member ∈ members, Exact member.2) :
      Exact (.obj members)

theorem seen_newline (level : Nat) : seen (newline level) = newline level := by
  refine seen_of_lt fun c hc => ?_
  rcases List.mem_cons.mp hc with rfl | hspace
  · decide
  · rw [List.eq_of_mem_replicate hspace]
    decide

theorem skipBlanks_newline (level : Nat) (cs : List Char) :
    skipBlanks (newline level ++ cs) = skipBlanks cs := by
  have hblank : ∀ c ∈ newline level, isBlank c := by
    intro c hc
    rcases List.mem_cons.mp hc with rfl | hspace
    · decide
    · rw [List.eq_of_mem_replicate hspace]
      decide
  rw [skipBlanks, List.dropWhile_append_of_pos hblank]
  rfl

theorem skipBlanks_cons {c : Char} (h : isBlank c = false) (cs : List Char) :
    skipBlanks (c :: cs) = c :: cs := by
  rw [skipBlanks, List.dropWhile_cons_of_neg (by simp [h])]

theorem seen_quote (text : String) (rest : List Char) :
    seen (quote text) ++ rest = '"' :: (seen (text.toList.flatMap escapeChar) ++ '"' :: rest) := by
  rw [quote, seen_cons_of_lt (by decide), seen_append, seen_of_lt (by simp : ∀ c ∈ ['"'], _)]
  simp

theorem seen_toString (value : Int) : seen (toString value).toList = (toString value).toList := by
  have hdigits (n : Nat) : ∀ c ∈ Nat.toDigits 10 n, c.toNat < 128 := by
    intro c hc
    have hdigit := Nat.isDigit_of_mem_toDigits (b := 10) (by decide) (by decide) hc
    rw [Char.isDigit, Bool.and_eq_true, decide_eq_true_iff, decide_eq_true_iff] at hdigit
    exact Nat.lt_of_le_of_lt hdigit.2 (by decide)
  refine seen_of_lt ?_
  rw [Int.toString_eq_repr]
  cases value with
  | ofNat n =>
      rw [Int.repr, Nat.toList_repr]
      exact hdigits n
  | negSucc n =>
      rw [Int.repr, String.toList_append, Nat.toList_repr]
      have hsign : ∀ c ∈ "-".toList, c.toNat < 128 := by simp
      intro c hc
      exact (List.mem_append.mp hc).elim (hsign c) (hdigits _ c)

/-- How a value begins: not with a blank, and not with what ends an array or an object. -/
def BeginsValue (c : Char) : Prop := isBlank c = false ∧ c ≠ ']' ∧ c ≠ '\x7d'

instance (c : Char) : Decidable (BeginsValue c) := inferInstanceAs (Decidable (_ ∧ _))

theorem beginsValue_of_isDigit {c : Char} (h : c.isDigit) : BeginsValue c := by
  refine ⟨?_, ?_, ?_⟩
  · by_contra hblank
    simp only [isBlank, Bool.or_eq_true, decide_eq_true_iff, Bool.not_eq_false] at hblank
    rcases hblank with ((rfl | rfl) | rfl) | rfl <;> exact absurd h (by decide)
  · rintro rfl
    exact absurd h (by decide)
  · rintro rfl
    exact absurd h (by decide)

theorem exists_prettyChars {j : Json} (h : Exact j) (level : Nat) :
    ∃ c cs, seen (j.prettyChars level) = c :: cs ∧ BeginsValue c := by
  cases h with
  | null => exact ⟨'n', _, seen_cons_of_lt (by decide) _, by decide⟩
  | bool value =>
      cases value with
      | true => exact ⟨'t', _, seen_cons_of_lt (by decide) _, by decide⟩
      | false => exact ⟨'f', _, seen_cons_of_lt (by decide) _, by decide⟩
  | @int value hword =>
      rw [prettyChars, compactChars, seen_toString, Int.toString_eq_repr]
      cases value with
      | ofNat n =>
          rw [Int.repr, Nat.toList_repr]
          cases hcs : Nat.toDigits 10 n with
          | nil => exact absurd hcs Nat.toDigits_ne_nil
          | cons c cs => exact ⟨c, cs, rfl, beginsValue_of_isDigit (Nat.isDigit_of_mem_toDigits
              (b := 10) (n := n) (by decide) (by decide) (hcs ▸ List.mem_cons_self))⟩
      | negSucc n =>
          rw [Int.repr, String.toList_append]
          exact ⟨'-', _, rfl, by decide⟩
  | str value => exact ⟨'"', _, seen_cons_of_lt (by decide) _, by decide⟩
  | @arr items _ =>
      cases items <;> exact ⟨'[', _, seen_cons_of_lt (by decide) _, by decide⟩
  | @obj members _ =>
      cases members <;> exact ⟨'\x7b', _, seen_cons_of_lt (by decide) _, by decide⟩

theorem skipBlanks_prettyChars {j : Json} (h : Exact j) (level : Nat) (rest : List Char) :
    skipBlanks (seen (j.prettyChars level) ++ rest) = seen (j.prettyChars level) ++ rest := by
  obtain ⟨c, cs, heq, hbegins⟩ := exists_prettyChars h level
  rw [heq, List.cons_append, skipBlanks_cons hbegins.1]

/-- A value is read off its pretty form, whatever follows it. -/
def ReadsBack (j : Json) : Prop :=
  ∀ (level fuel : Nat) (rest : List Char), EndsValue rest →
    2 * (seen (j.prettyChars level)).length ≤ fuel →
    readValue? fuel (seen (j.prettyChars level) ++ rest) = some (j, rest)

theorem endsValue_newline (level : Nat) (rest : List Char) : EndsValue (newline level ++ rest) := by
  rintro c ⟨⟩
  exact .inr rfl

theorem endsValue_comma (rest : List Char) : EndsValue (',' :: rest) := by
  rintro c ⟨⟩
  exact .inl rfl

theorem readItems?_pretty {items : List Json} (hne : items ≠ []) (h : ∀ item ∈ items, Exact item)
    (hread : ∀ item ∈ items, ReadsBack item) (level outer fuel : Nat) (rest : List Char)
    (hfuel : 2 * (seen (prettyItems level items)).length ≤ fuel) :
    readItems? fuel (skipBlanks (seen (prettyItems level items) ++ (newline outer ++ ']' :: rest))) =
      some (items, rest) := by
  induction items generalizing fuel with
  | nil => exact absurd rfl hne
  | cons item others ih =>
      have hitem := h item List.mem_cons_self
      have hback := hread item List.mem_cons_self
      have hstop : skipBlanks (newline outer ++ ']' :: rest) = ']' :: rest := by
        rw [skipBlanks_newline, skipBlanks_cons (by decide)]
      cases others with
      | nil =>
          rw [prettyItems, seen_append, List.length_append, seen_newline] at hfuel
          have hpos : 0 < (newline level).length := Nat.succ_pos _
          obtain ⟨fuel, rfl⟩ : ∃ fewer, fuel = fewer + 1 := ⟨fuel - 1, by omega⟩
          rw [prettyItems, seen_append, seen_newline, List.append_assoc, skipBlanks_newline,
            skipBlanks_prettyChars hitem, readItems?,
            hback level fuel _ (endsValue_newline _ _) (by omega)]
          simp only [bind, Option.bind, hstop]
          rfl
      | cons next others =>
          have hsplit : seen (prettyItems level (item :: next :: others)) =
              newline level ++ (seen (item.prettyChars level) ++
                ',' :: seen (prettyItems level (next :: others))) := by
            rw [prettyItems, seen_append, seen_append, seen_newline, seen_cons_of_lt (by decide),
              List.append_assoc]
            exact List.cons_ne_nil _ _
          rw [hsplit, List.length_append, List.length_append, List.length_cons] at hfuel
          obtain ⟨fuel, rfl⟩ : ∃ fewer, fuel = fewer + 1 := ⟨fuel - 1, by omega⟩
          have hrest := ih (List.cons_ne_nil _ _)
            (fun other hother => h other (List.mem_cons_of_mem _ hother))
            (fun other hother => hread other (List.mem_cons_of_mem _ hother)) fuel (by omega)
          rw [hsplit, List.append_assoc, List.append_assoc, skipBlanks_newline,
            skipBlanks_prettyChars hitem, List.cons_append, readItems?,
            hback level fuel _ (endsValue_comma _) (by omega)]
          simp only [bind, Option.bind, skipBlanks_cons (show isBlank ',' = false by decide), hrest]
          rfl

/-- The name of a member stands in quotes before its value. -/
theorem seen_member (key : String) (value : Json) (level : Nat) (cs : List Char) :
    seen (quote key ++ ':' :: ' ' :: value.prettyChars level) ++ cs =
      '"' :: (seen (key.toList.flatMap escapeChar) ++
        '"' :: ':' :: ' ' :: (seen (value.prettyChars level) ++ cs)) := by
  rw [seen_append, List.append_assoc, seen_quote, seen_cons_of_lt (by decide),
    seen_cons_of_lt (by decide), List.cons_append, List.cons_append]

theorem length_lt_seen_member (key : String) (value : Json) (level : Nat) :
    (seen (value.prettyChars level)).length <
      (seen (quote key ++ ':' :: ' ' :: value.prettyChars level)).length := by
  have hlength := congrArg List.length (seen_member key value level [])
  simp only [List.append_nil, List.length_cons, List.length_append] at hlength
  omega

theorem readMembers?_pretty {members : List (String × Json)} (hne : members ≠ [])
    (h : ∀ member ∈ members, Exact member.2) (hread : ∀ member ∈ members, ReadsBack member.2)
    (level outer fuel : Nat) (rest : List Char)
    (hfuel : 2 * (seen (prettyMembers level members)).length ≤ fuel) :
    readMembers? fuel
        (skipBlanks (seen (prettyMembers level members) ++ (newline outer ++ '\x7d' :: rest))) =
      some (members.map fun member => (some member.1, member.2), rest) := by
  induction members generalizing fuel with
  | nil => exact absurd rfl hne
  | cons member others ih =>
      obtain ⟨key, value⟩ := member
      have hvalue : Exact value := h _ List.mem_cons_self
      have hback : ReadsBack value := hread _ List.mem_cons_self
      have hcolon : isBlank ':' = false := by decide
      have hspace (cs : List Char) : skipBlanks (' ' :: cs) = skipBlanks cs := rfl
      have hquote (cs : List Char) : skipBlanks ('"' :: cs) = '"' :: cs :=
        skipBlanks_cons (by decide) cs
      have hlonger := length_lt_seen_member key value level
      have hstop : skipBlanks (newline outer ++ '\x7d' :: rest) = '\x7d' :: rest := by
        rw [skipBlanks_newline, skipBlanks_cons (by decide)]
      cases others with
      | nil =>
          have hsplit : seen (prettyMembers level [(key, value)]) =
              newline level ++ seen (quote key ++ ':' :: ' ' :: value.prettyChars level) := by
            rw [prettyMembers, List.append_assoc, seen_append, seen_newline]
          rw [hsplit, List.length_append] at hfuel
          obtain ⟨fuel, rfl⟩ : ∃ fewer, fuel = fewer + 1 := ⟨fuel - 1, by omega⟩
          rw [hsplit, List.append_assoc, skipBlanks_newline, seen_member, hquote, readMembers?,
            readText?_escaped]
          simp only [bind, Option.bind, skipBlanks_cons hcolon, hspace, skipBlanks_prettyChars hvalue,
            hback level fuel _ (endsValue_newline _ _) (by omega), hstop]
          rfl
      | cons next others =>
          have hsplit : seen (prettyMembers level ((key, value) :: next :: others)) =
              newline level ++ (seen (quote key ++ ':' :: ' ' :: value.prettyChars level) ++
                ',' :: seen (prettyMembers level (next :: others))) := by
            rw [prettyMembers, seen_append, List.append_assoc, seen_append, seen_newline,
              seen_cons_of_lt (by decide), List.append_assoc]
            exact List.cons_ne_nil _ _
          rw [hsplit, List.length_append, List.length_append, List.length_cons] at hfuel
          obtain ⟨fuel, rfl⟩ : ∃ fewer, fuel = fewer + 1 := ⟨fuel - 1, by omega⟩
          have hrest := ih (List.cons_ne_nil _ _)
            (fun other hother => h other (List.mem_cons_of_mem _ hother))
            (fun other hother => hread other (List.mem_cons_of_mem _ hother)) fuel (by omega)
          rw [hsplit, List.append_assoc, List.append_assoc, skipBlanks_newline, seen_member, hquote,
            List.cons_append, readMembers?, readText?_escaped]
          simp only [bind, Option.bind, skipBlanks_cons hcolon, hspace, skipBlanks_prettyChars hvalue,
            hback level fuel _ (endsValue_comma _) (by omega),
            skipBlanks_cons (show isBlank ',' = false by decide), hrest]
          rfl

theorem mapM_members_some (members : List (String × Json)) :
    (members.map fun member => (some member.1, member.2)).mapM
      (fun (key, value) => key.map fun key => (key, value)) = some members := by
  induction members with
  | nil => rfl
  | cons member rest ih =>
      rw [List.map_cons, List.mapM_cons, ih]
      rfl

theorem ofMembers_some (members : List (String × Json)) :
    ofMembers (members.map fun member => (some member.1, member.2)) = .obj members := by
  rw [ofMembers]
  simp only [mapM_members_some]

theorem readValue?_of_isDigit {c : Char} (hc : c.isDigit) (fuel : Nat) (cs : List Char) :
    readValue? (fuel + 1) (c :: cs) = readNumber? (c :: cs) := by
  rw [readValue?]
  all_goals
    intro rest heq
    obtain ⟨rfl, -⟩ := List.cons.inj heq
    exact absurd hc (by decide)

theorem readValue?_minus (fuel : Nat) (cs : List Char) :
    readValue? (fuel + 1) ('-' :: cs) = readNumber? ('-' :: cs) := by
  rw [readValue?]
  all_goals
    intro rest heq
    exact absurd (List.cons.inj heq).1 (by decide)

/-- A value has at least one character, so its reader always has a step to make. -/
theorem readsBack_of_succ {j : Json} (hj : Exact j)
    (h : ∀ (level fuel : Nat) (rest : List Char), EndsValue rest →
      2 * (seen (j.prettyChars level)).length ≤ fuel + 1 →
      readValue? (fuel + 1) (seen (j.prettyChars level) ++ rest) = some (j, rest)) :
    ReadsBack j := by
  intro level fuel rest hrest hfuel
  cases fuel with
  | zero =>
      obtain ⟨c, cs, heq, -⟩ := exists_prettyChars hj level
      rw [heq] at hfuel
      exact absurd hfuel (by simp)
  | succ fuel => exact h level fuel rest hrest hfuel

theorem readsBack_null : ReadsBack .null := by
  have hseen : seen ['n', 'u', 'l', 'l'] = ['n', 'u', 'l', 'l'] := seen_of_lt (by simp)
  refine readsBack_of_succ .null fun level fuel rest _ _ => ?_
  rw [prettyChars, compactChars, hseen]
  rfl

theorem readsBack_bool (value : Bool) : ReadsBack (.bool value) := by
  have htrue : seen ['t', 'r', 'u', 'e'] = ['t', 'r', 'u', 'e'] := seen_of_lt (by simp)
  have hfalse : seen ['f', 'a', 'l', 's', 'e'] = ['f', 'a', 'l', 's', 'e'] :=
    seen_of_lt (by simp)
  refine readsBack_of_succ (.bool value) fun level fuel rest _ _ => ?_
  cases value with
  | true =>
      rw [prettyChars, compactChars, htrue]
      rfl
  | false =>
      rw [prettyChars, compactChars, hfalse]
      rfl

theorem readsBack_int {value : Int} (h : IsWord value) : ReadsBack (.int value) := by
  refine readsBack_of_succ (.int h) fun level fuel rest hrest _ => ?_
  have hread := readNumber?_toString h hrest
  rw [prettyChars, compactChars, seen_toString]
  rw [Int.toString_eq_repr] at hread ⊢
  cases value with
  | ofNat n =>
      rw [Int.repr, Nat.toList_repr] at hread ⊢
      cases hcs : Nat.toDigits 10 n with
      | nil => exact absurd hcs Nat.toDigits_ne_nil
      | cons c cs =>
          have hc : c.isDigit := Nat.isDigit_of_mem_toDigits (b := 10) (n := n) (by decide)
            (by decide) (hcs ▸ List.mem_cons_self)
          rw [hcs] at hread
          exact (readValue?_of_isDigit hc fuel _).trans hread
  | negSucc n =>
      rw [Int.repr, String.toList_append] at hread ⊢
      exact (readValue?_minus fuel _).trans hread

theorem readsBack_str (value : String) : ReadsBack (.str value) := by
  refine readsBack_of_succ (.str value) fun level fuel rest _ _ => ?_
  rw [prettyChars, compactChars, seen_quote, readValue?, readText?_escaped]
  rfl

theorem exists_prettyItems (level : Nat) (item : Json) (others : List Json) :
    ∃ more, prettyItems level (item :: others) =
      newline level ++ (item.prettyChars level ++ more) := by
  cases others with
  | nil => exact ⟨[], by rw [prettyItems, List.append_nil]⟩
  | cons next others => exact ⟨_, by rw [prettyItems, List.append_assoc]; exact List.cons_ne_nil _ _⟩

theorem readsBack_arr {items : List Json} (h : ∀ item ∈ items, Exact item)
    (hread : ∀ item ∈ items, ReadsBack item) : ReadsBack (.arr items) := by
  refine readsBack_of_succ (.arr h) fun level fuel rest _ hfuel => ?_
  cases items with
  | nil =>
      have hseen : seen ['[', ']'] = ['[', ']'] := seen_of_lt (by simp)
      rw [prettyChars, hseen]
      rfl
  | cons item others =>
      have hseen : seen (prettyChars level (.arr (item :: others))) =
          '[' :: (seen (prettyItems (level + 1) (item :: others)) ++ (newline level ++ [']'])) := by
        rw [prettyChars, seen_cons_of_lt (by decide), seen_append, seen_append, seen_newline,
          seen_of_lt (by simp : ∀ c ∈ [']'], _), List.append_assoc]
        exact List.cons_ne_nil _ _
      rw [hseen, List.length_cons, List.length_append] at hfuel
      have hback := readItems?_pretty (List.cons_ne_nil item others) h hread (level + 1) level fuel
        rest (by omega)
      have hfirst : ∃ c cs, skipBlanks (seen (prettyItems (level + 1) (item :: others)) ++
          (newline level ++ ']' :: rest)) = c :: cs ∧ BeginsValue c := by
        obtain ⟨more, hmore⟩ := exists_prettyItems (level + 1) item others
        obtain ⟨c, cs, heq, hbegins⟩ := exists_prettyChars (h item List.mem_cons_self) (level + 1)
        rw [hmore, seen_append, seen_append, seen_newline, heq, List.append_assoc,
          skipBlanks_newline, List.append_assoc, List.cons_append, skipBlanks_cons hbegins.1]
        exact ⟨c, _, rfl, hbegins⟩
      obtain ⟨c, cs, heq, hbegins⟩ := hfirst
      rw [heq] at hback
      rw [hseen, List.cons_append, List.append_assoc, List.append_assoc, List.singleton_append,
        readValue?, heq]
      split
      case h_1 hclosed => exact absurd (List.cons.inj hclosed).1 hbegins.2.1
      case h_2 =>
        rw [hback]
        rfl

theorem exists_prettyMembers (level : Nat) (member : String × Json)
    (others : List (String × Json)) :
    ∃ more, prettyMembers level (member :: others) = newline level ++ '"' :: more := by
  obtain ⟨key, value⟩ := member
  cases others with
  | nil => exact ⟨_, by rw [prettyMembers, quote, List.append_assoc, List.cons_append]⟩
  | cons next others =>
      exact ⟨_, by
        rw [prettyMembers, quote, List.append_assoc, List.append_assoc, List.cons_append]
        exact List.cons_ne_nil _ _⟩

theorem readsBack_obj {members : List (String × Json)} (h : ∀ member ∈ members, Exact member.2)
    (hread : ∀ member ∈ members, ReadsBack member.2) : ReadsBack (.obj members) := by
  refine readsBack_of_succ (.obj h) fun level fuel rest _ hfuel => ?_
  cases members with
  | nil =>
      have hseen : seen ['\x7b', '\x7d'] = ['\x7b', '\x7d'] := seen_of_lt (by simp)
      rw [prettyChars, hseen]
      rfl
  | cons member others =>
      have hseen : seen (prettyChars level (.obj (member :: others))) =
          '\x7b' :: (seen (prettyMembers (level + 1) (member :: others)) ++
            (newline level ++ ['\x7d'])) := by
        rw [prettyChars, seen_cons_of_lt (by decide), seen_append, seen_append, seen_newline,
          seen_of_lt (by simp : ∀ c ∈ ['\x7d'], _), List.append_assoc]
        exact List.cons_ne_nil _ _
      rw [hseen, List.length_cons, List.length_append] at hfuel
      have hback := readMembers?_pretty (List.cons_ne_nil member others) h hread (level + 1) level
        fuel rest (by omega)
      obtain ⟨more, hmore⟩ := exists_prettyMembers (level + 1) member others
      have hfirst : ∃ cs, skipBlanks (seen (prettyMembers (level + 1) (member :: others)) ++
          (newline level ++ '\x7d' :: rest)) = '"' :: cs := by
        rw [hmore, seen_append, seen_newline, seen_cons_of_lt (by decide), List.append_assoc,
          skipBlanks_newline, List.cons_append, skipBlanks_cons (by decide)]
        exact ⟨_, rfl⟩
      obtain ⟨cs, heq⟩ := hfirst
      rw [heq] at hback
      rw [hseen, List.cons_append, List.append_assoc, List.append_assoc, List.singleton_append,
        readValue?, heq]
      split
      case h_1 hclosed => exact absurd (List.cons.inj hclosed).1 (by decide)
      case h_2 =>
        rw [hback]
        dsimp only [bind, Option.bind, pure]
        rw [ofMembers_some]

theorem Exact.readsBack {j : Json} (h : Exact j) : ReadsBack j := by
  induction h with
  | null => exact readsBack_null
  | bool value => exact readsBack_bool value
  | int hword => exact readsBack_int hword
  | str value => exact readsBack_str value
  | arr h ih => exact readsBack_arr h ih
  | obj h ih => exact readsBack_obj h ih

/-- The pretty form of an exact value is read as the value. -/
theorem read?_pretty {j : Json} (h : Exact j) : read? (Text.encode j.pretty) = some j := by
  have hseen : (Text.encode j.pretty).map (fun byte => Char.ofNat byte.toNat) =
      seen (j.prettyChars 0) := by
    rw [pretty, Text.encode_ofList]
    rfl
  have hend : EndsValue [] := nofun
  have hstart := skipBlanks_prettyChars h 0 []
  have hread := h.readsBack 0 (2 * (seen (j.prettyChars 0)).length + 2) [] hend (by omega)
  rw [List.append_nil] at hstart hread
  rw [read?]
  simp only [hseen, hstart, hread, bind, Option.bind]
  rfl

end Workbench.Json
