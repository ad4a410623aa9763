import Workbench.Proofs.Text.Edit
import Workbench.Proofs.Toy.Warnings
import Workbench.Proofs.Toy.Words

/-!
Places of symbols. All that the parser finds on a line it finds about a word of the line, and says
the range of that word. So the range of a symbol, taken as an editor takes it, has a span of the
text, and there stands the name of the symbol.
-/

namespace Workbench

open Text

/-! ### Spans of parts of a line -/

/-- A text reads as another one at a span of its bytes. -/
def Span.Reads (span : Span) (text part : String) : Prop :=
  ∃ before after, text = before ++ part ++ after ∧
    before.utf8ByteSize = span.start ∧ (before ++ part).utf8ByteSize = span.stop

/-- The range of a part of a line has a span, at which the text reads as that part. -/
theorem exists_span?_across {text : String} {earlier later : List (List Char × LineEnding)}
    {before part after : List Char} {ending : LineEnding}
    (hlines : splitLines text.toList = earlier ++ (before ++ part ++ after, ending) :: later) :
    ∃ span, (LineTable.ofText text).span?
        (.across earlier.length (unitCount before) (unitCount part)) = some span ∧
      span.Reads text (String.ofList part) := by
  have hstart : Position.Divides ⟨earlier.length, unitCount before⟩ text.toList
      (earlier.flatMap lineChars ++ before)
      (part ++ after ++ ending.chars ++ later.flatMap lineChars) :=
    ⟨earlier, _, ending, later, before, part ++ after, hlines, rfl, by simp, rfl, rfl, rfl⟩
  have hstop : Position.Divides ⟨earlier.length, unitCount before + unitCount part⟩ text.toList
      (earlier.flatMap lineChars ++ (before ++ part))
      (after ++ ending.chars ++ later.flatMap lineChars) :=
    ⟨earlier, _, ending, later, before ++ part, after, hlines, rfl, rfl, measure_append _ _ _, rfl,
      rfl⟩
  have hle : byteSize (earlier.flatMap lineChars ++ before) ≤
      byteSize (earlier.flatMap lineChars ++ (before ++ part)) := by
    rw [← List.append_assoc, byteSize_append (earlier.flatMap lineChars ++ before)]
    exact Nat.le_add_right _ _
  refine ⟨⟨_, _, hle⟩, LineTable.span?_eq_some_iff.mpr
    ⟨LineTable.offset?_eq_some_iff.mpr ⟨_, _, hstart, rfl⟩,
      LineTable.offset?_eq_some_iff.mpr ⟨_, _, hstop, rfl⟩⟩,
    String.ofList (earlier.flatMap lineChars ++ before),
    String.ofList (after ++ ending.chars ++ later.flatMap lineChars), ?_, ?_, ?_⟩
  · rw [← String.ofList_append, ← String.ofList_append, ← String.toList_inj, String.toList_ofList,
      ← hstop.append_eq]
    simp only [List.append_assoc]
  · rw [utf8ByteSize_eq, String.toList_ofList]
  · rw [← String.ofList_append, utf8ByteSize_eq, String.toList_ofList, List.append_assoc]

namespace Toy

/-! ### Findings of a line -/

/-- A finding is about a part of a line: it has the name that stands there, and its range. -/
def Finding.StandsOn (f : Finding) (line : Nat) (raw : List Char) : Prop :=
  ∃ before part after, raw = before ++ part ++ after ∧ f.toSymbol.name = String.ofList part ∧
    f.toSymbol.range = .across line (unitCount before) (unitCount part)

/-- All of some words stand on a line. -/
def AllStand (ws : List Word) (raw : List Char) : Prop :=
  ∀ w ∈ ws, StandsAt w.start w.chars raw

variable {line : Nat} {code raw : List Char} {w : Word} {ws : List Word} {f : Finding}
  {findings : List Finding}

theorem Finding.StandsOn.extend (h : f.StandsOn line code) (hcode : code <+: raw) :
    f.StandsOn line raw := by
  obtain ⟨before, part, after, rfl, hname, hrange⟩ := h
  obtain ⟨comment, rfl⟩ := hcode
  exact ⟨before, part, after ++ comment, List.append_assoc _ _ _, hname, hrange⟩

/-- The bytes before a word make the columns before it. -/
theorem exists_range_eq (hw : StandsAt w.start w.chars code) (line : Nat) :
    ∃ before after, code = before ++ w.chars ++ after ∧
      w.range line code = .across line (unitCount before) (unitCount w.chars) := by
  obtain ⟨before, after, rfl, hstart⟩ := hw
  refine ⟨before, after, rfl, ?_⟩
  rw [Word.range, ← hstart, List.append_assoc, utf16Col_append]

theorem standsOn_symbolOf (hw : StandsAt w.start w.chars code) (kind : SymbolKind) :
    (symbolOf line code kind w).StandsOn line code := by
  obtain ⟨before, after, hcode, hrange⟩ := exists_range_eq hw line
  exact ⟨before, w.chars, after, hcode, rfl, hrange⟩

theorem standsOn_of_mem_useOf (hw : StandsAt w.start w.chars code) (hf : f ∈ useOf line code w) :
    f.StandsOn line code := by
  rw [useOf] at hf
  split at hf
  case isTrue => contradiction
  case isFalse =>
    obtain rfl := List.mem_singleton.mp hf
    obtain ⟨before, after, hcode, hrange⟩ := exists_range_eq hw line
    exact ⟨before, w.chars, after, hcode, rfl, hrange⟩

theorem AllStand.of_subset {ws' : List Word} (h : AllStand ws code) (hsub : ws' ⊆ ws) :
    AllStand ws' code :=
  fun w hw => h w (hsub hw)

theorem AllStand.dropModifiers (h : AllStand ws code) : AllStand (ws.dropWhile isModifier) code :=
  h.of_subset (List.dropWhile_sublist _).subset

theorem standsOn_of_mem_classHeader (hws : AllStand ws code) {c : ClassSignature}
    (h : classHeader? line code ws = some (c, findings)) (hf : f ∈ findings) : f.StandsOn line code := by
  have hall := hws.dropModifiers
  rw [classHeader?] at h
  split at h
  case h_2 => contradiction
  case h_1 keyword name rest hrest =>
    rw [hrest] at hall
    split at h
    case isFalse => contradiction
    case isTrue =>
      obtain ⟨-, rfl⟩ := Prod.mk.inj (Option.some.inj h)
      rcases List.mem_cons.mp hf with rfl | hf
      · exact standsOn_symbolOf (hall name (by simp)) _
      · obtain ⟨w, hw, hf⟩ := List.mem_flatMap.mp hf
        have hrest := (List.mem_filter.mp hw).1
        exact standsOn_of_mem_useOf (hall w (by simp [hrest])) hf

theorem standsOn_of_mem_parameterUse (hws : AllStand ws code) (hf : f ∈ parameterUse line code ws) :
    f.StandsOn line code := by
  unfold parameterUse at hf
  split at hf
  case h_1 type _ _ => exact standsOn_of_mem_useOf (hws type (by simp)) hf
  case h_2 => contradiction

theorem standsOn_of_mem_member (hws : AllStand ws code) {m : Member}
    (h : member? line code ws = some (m, findings)) (hf : f ∈ findings) : f.StandsOn line code := by
  have hall := hws.dropModifiers
  rw [member?] at h
  split at h
  case h_2 => contradiction
  case h_1 type name rest hrest =>
    rw [hrest] at hall
    have htype {f : Finding} (hf : f ∈ useOf line code type) : f.StandsOn line code :=
      standsOn_of_mem_useOf (hall type (by simp)) hf
    have hname (kind : SymbolKind) : (symbolOf line code kind name).StandsOn line code :=
      standsOn_symbolOf (hall name (by simp)) kind
    split at h
    case isTrue => contradiction
    case isFalse =>
      split at h
      case h_1 =>
        obtain ⟨-, rfl⟩ := Prod.mk.inj (Option.some.inj h)
        rcases List.mem_append.mp hf with hf | hf
        · exact htype hf
        · exact List.mem_singleton.mp hf ▸ hname .field
      case h_2 pieces hpieces =>
        obtain ⟨-, rfl⟩ := Prod.mk.inj (Option.some.inj h)
        rcases List.mem_append.mp hf with hf | hf
        · rcases List.mem_append.mp hf with hf | hf
          · exact htype hf
          · -- The words of a parameter stand in its piece, and this stands in the code.
            obtain ⟨ws, hws, hf⟩ := List.mem_flatMap.mp hf
            obtain ⟨⟨offset, piece⟩, hpiece, rfl⟩ := List.mem_map.mp hws
            exact standsOn_of_mem_parameterUse (fun w hw =>
              standsAt_of_mem_wordsAt hw (standsAt_of_mem_parameters hpieces hpiece)) hf
        · exact List.mem_singleton.mp hf ▸ hname .method

theorem standsOn_of_mem_mentions (hws : AllStand ws code) (hf : f ∈ mentions line code ws) :
    f.StandsOn line code := by
  obtain ⟨w, hw, rfl⟩ := List.mem_map.mp hf
  exact standsOn_symbolOf (hws w (List.mem_filter.mp hw).1) _

theorem standsOn_of_mem_creations (hws : AllStand ws code) (hf : f ∈ creations line code ws) :
    f.StandsOn line code := by
  fun_induction creations line code ws with
  | case1 w type rest ih =>
      rcases List.mem_append.mp hf with hf | hf
      · split at hf
        · exact standsOn_of_mem_useOf (hws type (by simp)) hf
        · contradiction
      · exact ih (hws.of_subset (List.subset_cons_self _ _)) hf
  | case2 => contradiction

/-! ### Findings of a file -/

theorem exists_finding_of_mem_symbols {r : Reading} {s : Symbol}
    (hs : s ∈ r.toParsed.tree.symbols) : ∃ f ∈ r.findings, f.toSymbol = s :=
  List.mem_map.mp hs

theorem exists_finding_of_mem_typeUses {r : Reading} {use : String × Range}
    (huse : use ∈ r.toParsed.typeUses) :
    ∃ f ∈ r.findings, f.toSymbol.name = use.1 ∧ f.toSymbol.range = use.2 := by
  obtain ⟨f, hf, huse⟩ := List.mem_filterMap.mp (List.mem_filter.mp huse).1
  cases f with
  | symbol s => contradiction
  | typeUse name range =>
      obtain rfl := Option.some.inj huse
      exact ⟨_, hf, rfl, rfl⟩

theorem standsOn_of_mem_readDeclarations {r : Reading} (hws : AllStand ws code)
    (hf : f ∈ (readDeclarations r code ws).2) : f.StandsOn r.line code := by
  unfold readDeclarations at hf
  split at hf
  case h_1 =>
    split at hf
    case h_1 c findings h => exact standsOn_of_mem_classHeader hws h hf
    case h_2 => contradiction
  case h_2 =>
    split at hf
    case h_1 => contradiction
    case h_2 =>
      split at hf
      case h_1 m findings h => exact standsOn_of_mem_member hws h hf
      case h_2 => contradiction
  case h_3 => exact standsOn_of_mem_mentions hws hf

/-- What is found on a line is found about its words. -/
theorem mem_findings_readLine {r : Reading} (hf : f ∈ (readLine r raw).findings) :
    f ∈ r.findings ∨ f.StandsOn r.line raw := by
  have hws : AllStand (wordsAt 0 (codeOf raw)) (codeOf raw) := fun w hw =>
    standsAt_of_mem_wordsAt hw (standsAt_zero List.prefix_rfl)
  rcases List.mem_append.mp hf with hf | hf
  · rcases List.mem_append.mp hf with hf | hf
    · exact .inl hf
    · exact .inr ((standsOn_of_mem_readDeclarations hws hf).extend (prefix_codeOf raw))
  · exact .inr ((standsOn_of_mem_creations hws hf).extend (prefix_codeOf raw))

/-- Over some lines, each finding that is new is about a word of one of them. -/
theorem mem_findings_foldl {lines : List (List Char)} {r : Reading}
    (hf : f ∈ (lines.foldl readLine r).findings) :
    f ∈ r.findings ∨ ∃ n raw, lines[n]? = some raw ∧ f.StandsOn (r.line + n) raw := by
  induction lines generalizing r with
  | nil => exact .inl hf
  | cons first rest ih =>
      rcases ih (r := readLine r first) hf with hf | ⟨n, raw, hraw, hstands⟩
      · exact (mem_findings_readLine hf).imp_right fun hstands => ⟨0, first, rfl, hstands⟩
      · have hline : (readLine r first).line + n = r.line + (n + 1) :=
          Nat.add_right_comm r.line 1 n
        exact .inr ⟨n + 1, raw, hraw, hline ▸ hstands⟩

theorem parse_of_isEmpty {text : String} (h : (readFile text).allErrors.isEmpty = true) :
    parse text = .ok (readFile text).toParsed := by
  simp only [parse, h, if_true]

/-- Where a finding says to be, an editor finds its name. -/
theorem exists_span?_of_mem_findings {text : String} (hreturns : ReturnsPaired text.toList)
    (hf : f ∈ (readFile text).findings) :
    ∃ span, (LineTable.ofText text).span? f.toSymbol.range = some span ∧
      span.Reads text f.toSymbol.name := by
  rcases mem_findings_foldl hf with hf | ⟨n, raw, hraw, before, part, after, rfl, hname, hrange⟩
  · exact absurd hf List.not_mem_nil
  · obtain ⟨earlier, ending, later, hlines, rfl⟩ := exists_line_of_sourceLines hreturns hraw
    obtain ⟨span, hspan, hreads⟩ := exists_span?_across hlines
    refine ⟨span, ?_, hname ▸ hreads⟩
    rw [hrange, ← hspan]
    simp

/-- Where each carriage return has its line feed, the range of every symbol of a file that parses,
and of every use of a class, has a span of the text, and there stands the name. -/
theorem ranges_read_names {text : String} {p : Parsed} (hreturns : ReturnsPaired text.toList)
    (hparse : parse text = .ok p) :
    (∀ s ∈ p.tree.symbols, ∃ span,
        (LineTable.ofText text).span? s.range = some span ∧ span.Reads text s.name) ∧
      ∀ use ∈ p.typeUses, ∃ span,
        (LineTable.ofText text).span? use.2 = some span ∧ span.Reads text use.1 := by
  rw [eq_toParsed_of_parse hparse]
  constructor
  · intro s hs
    obtain ⟨f, hf, rfl⟩ := exists_finding_of_mem_symbols hs
    exact exists_span?_of_mem_findings hreturns hf
  · intro use huse
    obtain ⟨f, hf, hname, hrange⟩ := exists_finding_of_mem_typeUses huse
    rw [← hname, ← hrange]
    exact exists_span?_of_mem_findings hreturns hf

/-! A use behind two characters of two columns each, on a line that follows a comment and a pair of
carriage return and line feed. -/

def pairedText : String := "class A \x7b // \x7d\r\n 😀 Util f(Cfg é, 😀 Ré b)\r\n\x7d\r\n"

def pairedSpan : Span := ⟨42, 45, by decide⟩

theorem ranges_read_names_paired :
    ReturnsPaired pairedText.toList ∧ ∃ p, parse pairedText = .ok p ∧
      ("Ré", .across 1 21 2) ∈ p.typeUses ∧
      (LineTable.ofText pairedText).span? (.across 1 21 2) = some pairedSpan ∧
      pairedSpan.Reads pairedText "Ré" := by
  have hreturns : ReturnsPaired pairedText.toList := by decide +kernel
  have hempty : (readFile pairedText).allErrors.isEmpty = true := by decide +kernel
  have hparse := parse_of_isEmpty hempty
  have huse : ("Ré", .across 1 21 2) ∈ (readFile pairedText).toParsed.typeUses := by decide +kernel
  have hspan : (LineTable.ofText pairedText).span? (.across 1 21 2) = some pairedSpan := by
    decide +kernel
  obtain ⟨span, hfound, hreads⟩ := (ranges_read_names hreturns hparse).2 _ huse
  obtain rfl := Option.some.inj (hspan.symm.trans hfound)
  exact ⟨hreturns, _, hparse, huse, hspan, hreads⟩

end Toy

end Workbench
