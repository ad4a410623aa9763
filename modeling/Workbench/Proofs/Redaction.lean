import Workbench.Redaction

/-!
What redaction keeps and what it hides. A message is taken as it was written: segments without a
quote, and quotations between them in which a backslash takes the next character along. Its redaction
is the message with the mark in every quotation, so nothing of a quoted text is left in it. Every text
is such a message.
-/

namespace Workbench

/-! ### Messages -/

/-- What can stand between quotes. A quote or a backslash stands there only behind a backslash. -/
inductive IsQuotable : List Char → Prop where
  | nil : IsQuotable []
  | plain {c : Char} {cs : List Char} (hquote : c ≠ '"') (hescape : c ≠ '\\') (h : IsQuotable cs) :
      IsQuotable (c :: cs)
  | escape {c : Char} {cs : List Char} (h : IsQuotable cs) : IsQuotable ('\\' :: c :: cs)

theorem isQuotable_of_all {cs : List Char} (h : cs.all fun c => c ≠ '"' ∧ c ≠ '\\') :
    IsQuotable cs := by
  induction cs with
  | nil => exact .nil
  | cons c cs ih =>
      simp only [List.all_cons, Bool.and_eq_true, decide_eq_true_eq] at h
      obtain ⟨hc, hcs⟩ := h
      exact .plain hc.1 hc.2 (ih hcs)

/-- A text outside quotes. -/
structure Segment where
  chars : List Char
  unquoted : '"' ∉ chars

/-- A text between quotes, as it is written there. -/
structure Quotation where
  chars : List Char
  isQuotable : IsQuotable chars

/-- What stands in a redacted message for every quotation. -/
def Quotation.mark : Quotation where
  chars := redacted
  isQuotable := isQuotable_of_all (by decide)

namespace Message

/-- How a message ends behind its last segment. -/
inductive Ending where
  | outside
  /-- A quotation is begun and not ended. -/
  | unfinished (quotation : Quotation)
  /-- A quotation is begun and not ended, and its last character is a backslash that takes nothing
  along. -/
  | escaping (quotation : Quotation)

namespace Ending

def chars : Ending → List Char
  | outside => []
  | unfinished quotation => '"' :: quotation.chars
  | escaping quotation => '"' :: (quotation.chars ++ ['\\'])

def isOutside : Ending → Bool
  | outside => true
  | _ => false

def redacted : Ending → Ending
  | outside => outside
  | _ => unfinished .mark

end Ending

end Message

/-- A message, divided at its quotes. -/
structure Message where
  /-- The segments with a quotation behind each of them. -/
  parts : List (Segment × Quotation)
  last : Segment
  ending : Message.Ending

namespace Message

def partChars (part : Segment × Quotation) : List Char :=
  part.1.chars ++ '"' :: (part.2.chars ++ ['"'])

def chars (m : Message) : List Char :=
  m.parts.flatMap partChars ++ (m.last.chars ++ m.ending.chars)

def text (m : Message) : String := String.ofList m.chars

/-- The message with the mark in every quotation. -/
def redacted (m : Message) : Message where
  parts := m.parts.map fun part => (part.1, .mark)
  last := m.last
  ending := m.ending.redacted

/-- Two messages differ at most inside their quotations. -/
structure SameOutside (m m' : Message) : Prop where
  parts : m.parts.map Prod.fst = m'.parts.map Prod.fst
  last : m.last = m'.last
  ending : m.ending.isOutside = m'.ending.isOutside

theorem redacted_redacted (m : Message) : m.redacted.redacted = m.redacted := by
  obtain ⟨parts, last, ending⟩ := m
  cases ending <;> simp [redacted, Ending.redacted, Function.comp_def]

/-- The redaction of a message depends on what is outside its quotations. -/
theorem SameOutside.redacted_eq {m m' : Message} (h : m.SameOutside m') :
    m.redacted = m'.redacted := by
  obtain ⟨parts, last, ending⟩ := m
  obtain ⟨parts', last', ending'⟩ := m'
  obtain ⟨hparts, rfl, hending⟩ := h
  have hmark (parts : List (Segment × Quotation)) :
      parts.map (fun part => (part.1, Quotation.mark)) =
        (parts.map Prod.fst).map fun segment => (segment, .mark) := by
    rw [List.map_map]
    rfl
  have hredacted : ending.redacted = ending'.redacted := by
    cases ending <;> cases ending' <;> first | rfl | contradiction
  simp only [redacted, hmark, show parts.map Prod.fst = parts'.map Prod.fst from hparts, hredacted]

end Message

/-! ### Reading a message -/

variable {cs : List Char}

theorem redactFrom_segment (h : '"' ∉ cs) (rest : List Char) :
    redactFrom .outside (cs ++ rest) = cs ++ redactFrom .outside rest := by
  induction cs with
  | nil => rfl
  | cons c cs ih =>
      rw [List.mem_cons, not_or] at h
      rw [List.cons_append, redactFrom, ih h.2, List.cons_append]
      exact fun heq => h.1 heq.symm

/-- Nothing is written for a quotation, and behind it a reader is inside quotes as before. -/
theorem redactFrom_quotable (h : IsQuotable cs) (rest : List Char) :
    redactFrom .inside (cs ++ rest) = redactFrom .inside rest := by
  induction h with
  | nil => rfl
  | plain hquote hescape _ ih =>
      rw [List.cons_append, redactFrom, ih]
      · exact hquote
      · exact hescape
  | escape _ ih => rw [List.cons_append, List.cons_append, redactFrom, redactFrom, ih]

theorem redactFrom_part (part : Segment × Quotation) (rest : List Char) :
    redactFrom .outside (Message.partChars part ++ rest) =
      Message.partChars (part.1, .mark) ++ redactFrom .outside rest := by
  obtain ⟨segment, quotation⟩ := part
  simp only [Message.partChars, List.append_assoc, List.cons_append, List.nil_append]
  rw [redactFrom_segment segment.unquoted, redactFrom, redactFrom_quotable quotation.isQuotable,
    redactFrom]
  rfl

theorem redactFrom_ending (ending : Message.Ending) :
    redactFrom .outside ending.chars = ending.redacted.chars := by
  cases ending with
  | outside => rfl
  | unfinished quotation =>
      have hend := redactFrom_quotable quotation.isQuotable []
      rw [List.append_nil] at hend
      rw [Message.Ending.chars, redactFrom, hend]
      rfl
  | escaping quotation =>
      rw [Message.Ending.chars, redactFrom, redactFrom_quotable quotation.isQuotable]
      rfl

theorem redactFrom_chars (m : Message) : redactFrom .outside m.chars = m.redacted.chars := by
  obtain ⟨parts, last, ending⟩ := m
  simp only [Message.chars, Message.redacted]
  induction parts with
  | nil =>
      simp only [List.map_nil, List.flatMap_nil, List.nil_append]
      rw [redactFrom_segment last.unquoted, redactFrom_ending]
  | cons part parts ih =>
      simp only [List.map_cons, List.flatMap_cons, List.append_assoc]
      rw [redactFrom_part, ih]

theorem redactQuoted_text (m : Message) : redactQuoted m.text = m.redacted.text := by
  rw [redactQuoted, Message.text, String.toList_ofList, redactFrom_chars, Message.text]

/-! ### Every text is a message -/

/-- A text begins inside quotes: a quotation, and the quote that ends it or the end of the text. -/
def BeginsQuoted (cs : List Char) : Prop :=
  ∃ quotation : Quotation, (∃ rest, cs = quotation.chars ++ '"' :: rest) ∨
    cs = quotation.chars ∨ cs = quotation.chars ++ ['\\']

theorem BeginsQuoted.append (h : BeginsQuoted cs) (first : List Char)
    (hfirst : ∀ {cs}, IsQuotable cs → IsQuotable (first ++ cs)) : BeginsQuoted (first ++ cs) := by
  obtain ⟨quotation, hend⟩ := h
  refine ⟨⟨first ++ quotation.chars, hfirst quotation.isQuotable⟩, ?_⟩
  rcases hend with ⟨rest, rfl⟩ | rfl | rfl
  · exact .inl ⟨rest, by simp⟩
  · exact .inr (.inl rfl)
  · exact .inr (.inr (by simp))

/-- Whatever comes inside quotes can be read. The induction also reads what comes right behind a
backslash, for that is not read one character at a time. -/
theorem beginsQuoted (cs : List Char) : BeginsQuoted cs ∧ BeginsQuoted ('\\' :: cs) := by
  induction cs with
  | nil => exact ⟨⟨⟨[], .nil⟩, .inr (.inl rfl)⟩, ⟨⟨[], .nil⟩, .inr (.inr rfl)⟩⟩
  | cons c cs ih =>
      refine ⟨?_, ih.1.append ['\\', c] .escape⟩
      by_cases hquote : c = '"'
      · exact ⟨⟨[], .nil⟩, .inl ⟨cs, by simp [hquote]⟩⟩
      · by_cases hescape : c = '\\'
        · exact hescape ▸ ih.2
        · exact ih.1.append [c] (.plain hquote hescape)

theorem exists_chars_eq (cs : List Char) : ∃ m : Message, m.chars = cs := by
  induction hlength : cs.length using Nat.strongRecOn generalizing cs with
  | ind length ih =>
      by_cases hquote : '"' ∈ cs
      · obtain ⟨before, behind, rfl, hbefore⟩ := List.eq_append_cons_of_mem hquote
        obtain ⟨quotation, ⟨rest, rfl⟩ | rfl | rfl⟩ := (beginsQuoted behind).1
        · -- The first quotation is ended, and what is behind it is a message again.
          obtain ⟨m, hm⟩ := ih rest.length (by simp [← hlength]; omega) rest rfl
          refine ⟨⟨(⟨before, hbefore⟩, quotation) :: m.parts, m.last, m.ending⟩, ?_⟩
          have hchars : m.parts.flatMap Message.partChars ++ (m.last.chars ++ m.ending.chars) = rest :=
            hm
          simp only [Message.chars, List.flatMap_cons, List.append_assoc, hchars,
            Message.partChars, List.cons_append, List.nil_append]
        · exact ⟨⟨[], ⟨before, hbefore⟩, .unfinished quotation⟩, rfl⟩
        · exact ⟨⟨[], ⟨before, hbefore⟩, .escaping quotation⟩, rfl⟩
      · exact ⟨⟨[], ⟨cs, hquote⟩, .outside⟩, by simp [Message.chars, Message.Ending.chars]⟩

theorem exists_text_eq (s : String) : ∃ m : Message, m.text = s := by
  obtain ⟨m, hm⟩ := exists_chars_eq s.toList
  exact ⟨m, by rw [Message.text, hm, String.ofList_toList]⟩

/-! ### What redaction hides -/

/-- The redaction of a message is the message with the mark in every quotation. So it is the same for
messages that differ only in what they quote, and it is its own redaction, whatever the text. -/
theorem redactQuoted_hides_quotations :
    (∀ m : Message, redactQuoted m.text = m.redacted.text) ∧
      (∀ m m' : Message, m.SameOutside m' → redactQuoted m.text = redactQuoted m'.text) ∧
        ∀ s : String, redactQuoted (redactQuoted s) = redactQuoted s := by
  refine ⟨redactQuoted_text, fun m m' hsame => ?_, fun s => ?_⟩
  · rw [redactQuoted_text, redactQuoted_text, hsame.redacted_eq]
  · obtain ⟨m, rfl⟩ := exists_text_eq s
    rw [redactQuoted_text, redactQuoted_text, m.redacted_redacted]

/-- A fault in a record that quotes a value, and then a path up to where the message was cut off. -/
def cutFault (value path : Quotation) : Message where
  parts := [(⟨"invalid type: string ".toList, by decide⟩, value)]
  last := ⟨", expected bool in ".toList, by decide⟩
  ending := .unfinished path

/-- A value with an escaped quote and a backslash at its end cannot be told from an empty one. -/
theorem redactQuoted_hides_quotations_fault :
    ∃ value path : Quotation,
      (cutFault value path).text = "invalid type: string \"a\\\"b\\\\\", expected bool in \"/home/me" ∧
      (cutFault ⟨[], .nil⟩ .mark).text =
        "invalid type: string \"\", expected bool in \"<redacted>" ∧
      (cutFault value path).SameOutside (cutFault ⟨[], .nil⟩ .mark) ∧
      redactQuoted (cutFault value path).text = redactQuoted (cutFault ⟨[], .nil⟩ .mark).text := by
  have hvalue : IsQuotable "a\\\"b\\\\".toList :=
    .plain (by decide) (by decide) (.escape (.plain (by decide) (by decide) (.escape .nil)))
  have hpath : IsQuotable "/home/me".toList := isQuotable_of_all (by decide)
  have hsame : (cutFault ⟨_, hvalue⟩ ⟨_, hpath⟩).SameOutside (cutFault ⟨[], .nil⟩ .mark) :=
    ⟨rfl, rfl, rfl⟩
  exact ⟨⟨_, hvalue⟩, ⟨_, hpath⟩, rfl, rfl, hsame,
    redactQuoted_hides_quotations.2.1 _ _ hsame⟩

end Workbench
