import Workbench.Proofs.Toy.Balance
import Workbench.Proofs.Toy.Compiler
import Workbench.Proofs.Toy.Words

/-!
Which files the parser accepts. Only braces decide that, those which no comment hides: a text parses
just if they are balanced. Otherwise every closing brace without a partner is an error at its place,
and one error more on the last line says that an opening brace is left.
-/

namespace Workbench.Toy

open Text

/-! ### The braces of a text -/

def BraceKind.ofChar? (c : Char) : Option BraceKind :=
  if c = '\x7b' then some .opening else if c = '\x7d' then some .closing else none

/-- No comment begins on a line before the character with this index. -/
def IsCode (raw : List Char) (i : Nat) : Prop := ∀ j, j < i → ¬ ['/', '/'] <+: raw.drop j

instance (raw : List Char) (i : Nat) : Decidable (IsCode raw i) :=
  inferInstanceAs (Decidable (∀ j, j < i → _))

/-- The braces in the code of a line, or of the end of a line that starts at a column. -/
def lineBraces (line column : Nat) (raw : List Char) : List Brace :=
  (List.range raw.length).filterMap fun i =>
    if IsCode raw i then
      (raw[i]?.bind BraceKind.ofChar?).map fun kind =>
        ⟨kind, ⟨line, column + unitCount (raw.take i)⟩⟩
    else none

def linesBraces (line : Nat) (lines : List (List Char)) : List Brace :=
  (lines.zipIdx line).flatMap fun (raw, line) => lineBraces line 0 raw

/-- The braces in the code of a text, from line to line. -/
def sourceBraces (text : String) : List Brace := linesBraces 0 (sourceLines text.toList)

/-- The error for a closing brace without a partner. -/
def unexpectedBrace (b : Brace) : Diagnostic :=
  ⟨Range.across b.position.line b.position.character 1, .error, "unexpected '\x7d'", none⟩

/-- What is wrong with the braces of a text. -/
def braceErrors (text : String) : List Diagnostic :=
  (unopened (sourceBraces text)).map unexpectedBrace ++
    if LeavesOpen (sourceBraces text) then [missingBrace ((sourceLines text.toList).length - 1)]
    else []

/-! ### Reading lines -/

variable {line column d : Nat} {c : Char} {cs : List Char}

theorem isCode_succ {i : Nat} :
    IsCode (c :: cs) (i + 1) ↔ ¬ ['/', '/'] <+: c :: cs ∧ IsCode cs i := by
  constructor
  · intro h
    exact ⟨h 0 (Nat.succ_pos i), fun j hj => h (j + 1) (Nat.succ_lt_succ hj)⟩
  · rintro ⟨hfirst, hrest⟩ j hj
    cases j with
    | zero => exact hfirst
    | succ j => exact hrest j (Nat.lt_of_succ_lt_succ hj)

theorem lineBraces_comment : lineBraces line column ('/' :: '/' :: cs) = [] := by
  refine List.filterMap_eq_nil_iff.mpr fun i _ => ?_
  cases i with
  | zero => simp [BraceKind.ofChar?]
  | succ i =>
      rw [if_neg]
      simp [isCode_succ]

theorem lineBraces_cons (h : ¬ ['/', '/'] <+: c :: cs) : lineBraces line column (c :: cs) =
    ((BraceKind.ofChar? c).map fun kind => ⟨kind, ⟨line, column⟩⟩).toList ++
      lineBraces line (column + unitSize c) cs := by
  have hrest : ((List.range cs.length).map Nat.succ).filterMap (fun i =>
      if IsCode (c :: cs) i then
        ((c :: cs)[i]?.bind BraceKind.ofChar?).map fun kind =>
          (⟨kind, ⟨line, column + unitCount ((c :: cs).take i)⟩⟩ : Brace)
      else none) = lineBraces line (column + unitSize c) cs := by
    rw [List.filterMap_map, lineBraces]
    refine List.filterMap_congr fun i _ => ?_
    simp [isCode_succ, h, Nat.add_assoc]
  rw [← hrest, lineBraces, List.length_cons, List.range_succ_eq_map, List.filterMap_cons]
  have hcode : IsCode (c :: cs) 0 := fun j hj => absurd hj (Nat.not_lt_zero j)
  rw [if_pos hcode]
  cases hkind : BraceKind.ofChar? c <;> simp [hkind]

/-- The counter of the parser runs over the braces of a line, from any place of it on. -/
theorem scanBraces_append (line d : Nat) (before raw : List Char) :
    scanBraces line (before ++ codeOf raw) (byteSize before) d (codeOf raw) =
      (count d (lineBraces line (unitCount before) raw),
        (strays d (lineBraces line (unitCount before) raw)).map unexpectedBrace) := by
  fun_induction codeOf raw generalizing before d with
  | case1 => rfl
  | case2 cs => rw [lineBraces_comment]; rfl
  | case3 c cs hcomment ih =>
      have hcode : ¬ ['/', '/'] <+: c :: cs := by
        rintro ⟨rest, hrest⟩
        obtain ⟨rfl, rfl⟩ := List.cons.inj hrest
        exact hcomment rest rfl rfl
      have hnext (d : Nat) : scanBraces line (before ++ c :: codeOf cs)
          (byteSize before + c.utf8Size) d (codeOf cs) =
            (count d (lineBraces line (unitCount before + unitSize c) cs),
              (strays d (lineBraces line (unitCount before + unitSize c) cs)).map
                unexpectedBrace) := by
        simpa using ih d (before ++ [c])
      rw [lineBraces_cons hcode, scanBraces.eq_def]
      simp only [hnext, utf16Col_append]
      by_cases hopening : c = '\x7b'
      · subst hopening
        rfl
      · by_cases hclosing : c = '\x7d'
        · subst hclosing
          cases d <;> rfl
        · have hnone : BraceKind.ofChar? c = none := by
            simp [BraceKind.ofChar?, hopening, hclosing]
          rw [if_neg hopening, if_neg hclosing, hnone]
          rfl

theorem scanBraces_codeOf (line d : Nat) (raw : List Char) :
    scanBraces line (codeOf raw) 0 d (codeOf raw) =
      (count d (lineBraces line 0 raw), (strays d (lineBraces line 0 raw)).map unexpectedBrace) :=
  scanBraces_append line d [] raw

/-! ### Reading files -/

theorem depth_readLine (r : Reading) (raw : List Char) :
    (readLine r raw).depth = count r.depth (lineBraces r.line 0 raw) := by
  simp only [readLine, scanBraces_codeOf]

theorem errors_readLine (r : Reading) (raw : List Char) : (readLine r raw).errors =
    r.errors ++ (strays r.depth (lineBraces r.line 0 raw)).map unexpectedBrace := by
  simp only [readLine, scanBraces_codeOf]

theorem linesBraces_cons (line : Nat) (raw : List Char) (lines : List (List Char)) :
    linesBraces line (raw :: lines) = lineBraces line 0 raw ++ linesBraces (line + 1) lines := by
  rw [linesBraces, List.zipIdx_cons, List.flatMap_cons]
  rfl

/-- Over some lines a reading goes on counting, and collects what is stray. -/
theorem foldl_readLine (lines : List (List Char)) (r : Reading) :
    (lines.foldl readLine r).line = r.line + lines.length ∧
      (lines.foldl readLine r).depth = count r.depth (linesBraces r.line lines) ∧
      (lines.foldl readLine r).errors =
        r.errors ++ (strays r.depth (linesBraces r.line lines)).map unexpectedBrace := by
  induction lines generalizing r with
  | nil => simp [linesBraces, count, strays]
  | cons raw lines ih =>
      obtain ⟨hline, hdepth, herrors⟩ := ih (readLine r raw)
      have hnext : (readLine r raw).line = r.line + 1 := rfl
      rw [hnext] at hline hdepth herrors
      rw [depth_readLine] at hdepth herrors
      rw [errors_readLine] at herrors
      refine ⟨?_, ?_, ?_⟩
      · rw [List.foldl_cons, hline, List.length_cons]
        omega
      · rw [List.foldl_cons, hdepth, linesBraces_cons, count_append]
      · rw [List.foldl_cons, herrors, linesBraces_cons, strays_append, List.map_append,
          List.append_assoc]

theorem allErrors_readFile (text : String) : (readFile text).allErrors = braceErrors text := by
  obtain ⟨hline, hdepth, herrors⟩ := foldl_readLine (sourceLines text.toList) {}
  have hzero : (({} : Reading).line, ({} : Reading).depth) = (0, 0) := rfl
  rw [Reading.allErrors, readFile, hline, hdepth, herrors, braceErrors, sourceBraces,
    ← strays_eq_unopened]
  simp only [leavesOpen_iff, List.nil_append, Nat.zero_add, Nat.pos_iff_ne_zero, ite_not]

theorem braceErrors_eq_nil_iff {text : String} :
    braceErrors text = [] ↔ Balanced (sourceBraces text) := by
  rw [balanced_iff, braceErrors, ← strays_eq_unopened, List.append_eq_nil_iff, List.map_eq_nil_iff]
  refine and_congr_right fun _ => ?_
  split
  case isTrue hopen =>
    have := leavesOpen_iff.mp hopen
    simp
    omega
  case isFalse hopen =>
    have := mt leavesOpen_iff.mpr hopen
    simp
    omega

theorem parse_eq (text : String) : parse text =
    if Balanced (sourceBraces text) then .ok (readFile text).toParsed
    else .error (braceErrors text) := by
  rw [parse]
  simp only [allErrors_readFile, List.isEmpty_iff, braceErrors_eq_nil_iff]

/-! ### Compiling files -/

/-- Every source has balanced braces. -/
def AllBalanced (sources : SourceSet) : Prop :=
  ∀ (file : FileId) (source : SourceFile), sources[file]? = some source →
    Balanced (sourceBraces source.text)

theorem exists_parse_iff {text : String} :
    (∃ parsed, parse text = .ok parsed) ↔ Balanced (sourceBraces text) := by
  rw [parse_eq]
  split
  case isTrue h => exact iff_of_true ⟨_, rfl⟩ h
  case isFalse h => exact iff_of_false nofun h

theorem allParse_iff {sources : SourceSet} : AllParse sources ↔ AllBalanced sources := by
  simp only [AllParse, AllBalanced, exists_parse_iff]

theorem getElem?_syntaxErrors_eq (sources : SourceSet) (file : FileId) :
    (syntaxErrors sources)[file]? = sources[file]?.bind fun source =>
      if Balanced (sourceBraces source.text) then none else some (braceErrors source.text) := by
  rw [getElem?_syntaxErrors]
  refine congrArg (sources[file]?).bind (funext fun source => ?_)
  rw [parse_eq]
  by_cases h : Balanced (sourceBraces source.text)
  · rw [if_pos h, if_pos h]
  · rw [if_neg h, if_neg h]

theorem compileSources_of_not_allBalanced {sources : SourceSet} (h : ¬ AllBalanced sources)
    (env : CompileEnvironment) :
    compileSources sources env = .error (.source (syntaxErrors sources)) := by
  rw [← allParse_iff, ← isEmpty_syntaxErrors] at h
  rw [compileSources]
  simp only [if_neg h]

/-- A text parses just if its braces are balanced, and otherwise its errors are those of the braces
without partners. A compile goes through just if all files are balanced, and otherwise it has nothing
but the errors of those that are not. -/
theorem accepts_balanced :
    (∀ text : String, ((∃ parsed, parse text = .ok parsed) ↔ Balanced (sourceBraces text)) ∧
        (¬ Balanced (sourceBraces text) → parse text = .error (braceErrors text))) ∧
      ∀ (state : CompilerState) (sources : SourceSet) (env : CompileEnvironment),
        state.failNext = none → state.failing = none →
          (AllBalanced sources →
              ∃ output, (Compiler.compile state sources env).2 = .ok output) ∧
          (¬ AllBalanced sources → ∃ errors : DiagnosticMap,
              (Compiler.compile state sources env).2 = .error (.source errors) ∧
              ∀ file : FileId, errors[file]? = sources[file]?.bind fun source =>
                if Balanced (sourceBraces source.text) then none
                else some (braceErrors source.text)) := by
  refine ⟨fun text => ⟨exists_parse_iff, fun h => ?_⟩, fun state sources env hnext hfailing => ?_⟩
  · rw [parse_eq, if_neg h]
  · rw [compile_eq hnext hfailing]
    refine ⟨fun h => ?_, fun h => ?_⟩
    · exact ⟨_, compileSources_eq_ok.mpr ⟨allParse_iff.mpr h, rfl⟩⟩
    · exact ⟨_, compileSources_of_not_allBalanced h env, getElem?_syntaxErrors_eq sources⟩

/-! A brace too many, behind a character of two columns, and one too few, as the comment hides the
brace that would close it. -/

def strayText : String := "class A \x7b\x7d 😀\x7d\n\x7b // \x7d\n"

def strayErrors : List Diagnostic :=
  [⟨Range.across 0 13 1, .error, "unexpected '\x7d'", none⟩,
    ⟨Range.point ⟨1, 0⟩, .error, "missing '\x7d'", none⟩]

def strayFile : SourceFile := ⟨0, ⟨"/p/A.groovy"⟩, strayText⟩

def straySources : SourceSet := .ofList [strayFile, ⟨1, ⟨"/p/B.groovy"⟩, "class B \x7b\n\x7d\n"⟩]

theorem accepts_balanced_stray :
    ¬ Balanced (sourceBraces strayText) ∧ parse strayText = .error strayErrors ∧
      ¬ AllBalanced straySources ∧ ∃ errors : DiagnosticMap,
        (Compiler.compile ({} : CompilerState) straySources {}).2 = .error (.source errors) ∧
        errors[(0 : FileId)]? = some strayErrors ∧ errors[(1 : FileId)]? = none := by
  have hstray : ¬ Balanced (sourceBraces strayText) := by decide +kernel
  have hstray' : ¬ Balanced (sourceBraces strayFile.text) := hstray
  have herrors : braceErrors strayText = strayErrors := by decide +kernel
  have hfirst : straySources[(0 : FileId)]? = some strayFile := by decide +kernel
  have hall : ¬ AllBalanced straySources := fun h => hstray (h 0 strayFile hfirst)
  obtain ⟨htexts, hcompiles⟩ := accepts_balanced
  obtain ⟨errors, hcompile, hfiles⟩ := (hcompiles {} straySources {} rfl rfl).2 hall
  refine ⟨hstray, ?_, hall, errors, hcompile, ?_, ?_⟩
  · rw [(htexts strayText).2 hstray, herrors]
  · rw [hfiles, hfirst, Option.bind_some, if_neg hstray']
    exact congrArg some herrors
  · rw [hfiles]
    decide +kernel

end Workbench.Toy
