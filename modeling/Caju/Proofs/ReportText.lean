import Caju.Proofs.JsonForms
import Caju.Proofs.JsonTracking
import Caju.Report

/-! Reports, read back from their text. Indentation puts blanks between the words of a value and
nothing else, so an indented text has the form of the value it is written for, and the reader
takes that value from it (`document_indented`). A report is an object of three members, whose
strings may hold any characters at all. -/

namespace Caju

namespace Json

/-! ### The form of a value -/

/-- What a string is written as, between its quotes and with them. -/
def stringWord (s : String) : List Char := '"' :: writeStringBody s.toList []

mutual

/-- The form that a value is written in, whatever the blanks. -/
def Value.form : Value → Form
  | .list vs => .group .list (elementForms vs)
  | .object ms => .group .object (memberForms ms)
  | v => .word (writeScalar v [])

def elementForms : List Value → List (List Char × Form)
  | [] => []
  | v :: vs => ([], v.form) :: elementForms vs

def memberForms : List (String × Value) → List (List Char × Form)
  | [] => []
  | (name, v) :: ms => (stringWord name, v.form) :: memberForms ms

end

theorem keyName_stringWord (name : String) : keyName (stringWord name) = name := by
  have read : stringBody [] (writeStringBody name.toList [] ++ []) = .ok (name, []) := by
    simp [stringBody_write]
  exact keyName_of_stringBody read

theorem wordValue_of_writeScalar {v : Value} (read : scalar (writeScalar v []) = .ok (v, [])) :
    wordValue (writeScalar v []) = v := by
  rw [← List.append_nil (writeScalar v [])] at read
  exact wordValue_of_scalar read

theorem elements_elementForms {vs : List Value} (each : ∀ v ∈ vs, v.form.value = v) :
    Form.elements (elementForms vs) = vs := by
  induction vs with
  | nil => rfl
  | cons v vs ih =>
    obtain ⟨first, others⟩ := List.forall_mem_cons.mp each
    rw [elementForms, Form.elements, first, ih others]

theorem members_memberForms {ms : List (String × Value)} (each : ∀ m ∈ ms, m.2.form.value = m.2) :
    Form.members (memberForms ms) = ms := by
  induction ms with
  | nil => rfl
  | cons m ms ih =>
    obtain ⟨first, others⟩ := List.forall_mem_cons.mp each
    rw [memberForms, Form.members, keyName_stringWord, first, ih others]

/-- The form of a value stands for that value. -/
theorem Value.Exact.form_value {v : Value} (exact : v.Exact) : v.form.value = v := by
  induction exact with
  | null => rfl
  | boolean b => cases b <;> rfl
  | integer low high =>
    exact wordValue_of_writeScalar (scalar_toString low high (by simp [Delimited]))
  | string s => exact wordValue_of_writeScalar (scalar_writeString s [])
  | list _ ih => rw [Value.form, Form.value, elements_elementForms ih]
  | object _ ih => rw [Value.form, Form.value, members_memberForms ih]

/-! ### Words -/

theorem writeChar_append (c : Char) (text rest : List Char) :
    writeChar c (text ++ rest) = writeChar c text ++ rest := by
  fun_cases writeChar c text
  case case9 quote backslash backspace feed line carriage tab printable =>
    rw [writeChar, if_neg printable]
    · rfl
    all_goals assumption
  all_goals simp_all [writeChar]

/-- What is written for a string does not depend on what follows it. -/
theorem writeStringBody_append (chars rest : List Char) :
    writeStringBody chars rest = writeStringBody chars [] ++ rest := by
  induction chars with
  | nil => rfl
  | cons c chars ih => rw [writeStringBody, writeStringBody, ih, writeChar_append]

theorem writeString_eq (s : String) (rest : List Char) :
    writeString s rest = stringWord s ++ rest :=
  congrArg ('"' :: ·) (writeStringBody_append s.toList rest)

theorem stringText_writeChar (c : Char) {text rest : List Char}
    (more : StringText PairedEscape text rest) :
    StringText PairedEscape (writeChar c text) rest := by
  fun_cases writeChar c text
  case case8 control =>
    have small : c.toNat < 32 := control
    have unit : Escapes c.toNat
        ['\\', 'u', '0', '0', hexDigit (c.toNat / 16), hexDigit (c.toNat % 16)] :=
      ⟨_, _, _, _, rfl, hexUnit?_hexDigit c.toNat small⟩
    have noTrailing : isTrailingSurrogate c.toNat = false := by simp [isTrailingSurrogate]; omega
    have noLeading : isLeadingSurrogate c.toNat = false := by simp [isLeadingSurrogate]; omega
    exact .unit (.inl ⟨_, unit, noLeading, noTrailing⟩) more
  case case9 quote backslash _ _ _ _ _ printable => exact .plain printable quote backslash more
  all_goals exact .short rfl more

theorem stringText_write (chars rest : List Char) :
    StringText PairedEscape (writeStringBody chars [] ++ rest) rest := by
  rw [← writeStringBody_append]
  induction chars with
  | nil => exact .close rest
  | cons c chars ih => exact stringText_writeChar c ih

/-- The digits of a whole number are a numeral, whatever follows. -/
theorem number_written {n : Int} (low : -Numeral.maxNegative ≤ n) (high : n ≤ Numeral.maxWord)
    (rest : List Char) : Limits.reader.number ((toString n).toList ++ rest) rest := by
  have ended : Delimited [] := by simp [Delimited]
  have read := number_toString low high ended
  obtain ⟨⟨numeral, _⟩, scanned, read⟩ := bind_eq_ok_iff.mp read
  obtain ⟨v, known, same⟩ := bind_eq_ok_iff.mp read
  cases same
  obtain ⟨digits, spelled, written⟩ := (Numeral.scan_sound scanned).stretch
  obtain rfl : (toString n).toList = digits := by simpa using spelled
  exact ⟨numeral, written rest, fun rest' => ⟨_, Numeral.value_anywhere known rest'⟩⟩

/-! ### Indented texts -/

section Indented

variable {limits : Limits} {depth : Nat}

/-- A line break in front of a part is nothing but blanks. -/
theorem Spelling.breakLine {part : Part} {content : part.Content} {text rest : List Char}
    (spelling : Spelling limits depth part content text rest) (level : Nat) :
    Spelling limits depth part content (breakLine level text) rest := by
  refine .blank rfl ?_
  induction 2 * level with
  | zero => exact spelling
  | succ n ih => exact .blank rfl ih

theorem Spelling.writeString (s : String) (rest : List Char) :
    Spelling .reader depth .value (.word (stringWord s)) (Json.writeString s rest) rest := by
  rw [writeString_eq]
  exact .string (stringText_write s.toList rest)

/-- A name, a colon, a blank and a value. -/
theorem Spelling.writeMember (name : String) {form : Form} {text rest : List Char}
    (value : Spelling .reader depth .value form text rest) :
    Spelling .reader depth (.entry .object) (stringWord name, form)
      (Json.writeString name (':' :: ' ' :: text)) rest := by
  rw [writeString_eq]
  exact .member (stringText_write name.toList _) (.named (.blank rfl value))

/-- The value is spelled by what is written for it, in front of anything, at any indentation. -/
def Indents (depth : Nat) (v : Value) : Prop :=
  ∀ level rest, Spelling .reader depth .value v.form (v.writeIndented level rest) rest

theorem Spelling.indentElements {vs : List Value} (each : ∀ v ∈ vs, Indents depth v)
    (level outer : Nat) (rest : List Char) :
    Spelling .reader depth (.more .list) (elementForms vs)
      (Json.indentElements vs level (Json.breakLine outer (']' :: rest))) rest := by
  induction vs with
  | nil =>
    rw [elementForms, Json.indentElements]
    exact Spelling.breakLine (.close rest) outer
  | cons v vs ih =>
    obtain ⟨first, others⟩ := List.forall_mem_cons.mp each
    rw [elementForms, Json.indentElements]
    exact .next (.breakLine (.element (first _ _)) level) (ih others)

theorem Spelling.indentMembers {ms : List (String × Value)} (each : ∀ m ∈ ms, Indents depth m.2)
    (level outer : Nat) (rest : List Char) :
    Spelling .reader depth (.more .object) (memberForms ms)
      (Json.indentMembers ms level (Json.breakLine outer ('}' :: rest))) rest := by
  induction ms with
  | nil =>
    rw [memberForms, Json.indentMembers]
    exact Spelling.breakLine (.close rest) outer
  | cons m ms ih =>
    obtain ⟨first, others⟩ := List.forall_mem_cons.mp each
    rw [memberForms, Json.indentMembers]
    exact .next (.breakLine (.writeMember m.1 (first _ _)) level) (ih others)

theorem indents_list {vs : List Value} (room : Limits.reader.nests depth)
    (each : ∀ v ∈ vs, Indents (depth + 1) v) : Indents depth (.list vs) := by
  intro level rest
  cases vs with
  | nil => exact .bracket room (.empty rest)
  | cons v vs =>
    obtain ⟨first, others⟩ := List.forall_mem_cons.mp each
    refine .bracket room (.first (.breakLine (.element (first _ _)) (level + 1)) ?_)
    exact .indentElements others (level + 1) level rest

theorem indents_object {ms : List (String × Value)} (room : Limits.reader.nests depth)
    (each : ∀ m ∈ ms, Indents (depth + 1) m.2) : Indents depth (.object ms) := by
  intro level rest
  cases ms with
  | nil => exact .bracket room (.empty rest)
  | cons m ms =>
    obtain ⟨first, others⟩ := List.forall_mem_cons.mp each
    refine .bracket room (.first (.breakLine (.writeMember m.1 (first _ _)) (level + 1)) ?_)
    exact .indentMembers others (level + 1) level rest

end Indented

/-- An exact value is spelled by its indented text as long as not too many brackets are open. -/
theorem Value.Exact.indents {v : Value} (exact : v.Exact) {depth : Nat}
    (fits : depth + v.nesting ≤ maxNesting) : Indents depth v := by
  -- on the value, with the brackets around it left free: each level of nesting uses up one
  induction exact generalizing depth with
  | null => exact fun _ rest => .literal (by decide) rest
  | boolean b =>
    intro _ rest
    cases b with
    | false => exact .literal (by decide) rest
    | true => exact .literal (by decide) rest
  | @integer n low high =>
    intro _ rest
    have spelled : Spelling .reader depth .value _ _ rest := .number (number_written low high rest)
    simpa [Value.form, Value.writeIndented, writeScalar] using spelled
  | string s => exact fun _ rest => .writeString s rest
  | @list vs _ ih =>
    have deeper : depth + 1 + nestingElements vs ≤ maxNesting := by
      rw [Value.nesting] at fits
      omega
    have inner := nestingElements_le_iff.mp (Nat.le_sub_of_add_le' deeper)
    refine indents_list (Nat.lt_of_lt_of_le (by omega) deeper) fun v member => ih v member ?_
    have own := inner v member
    omega
  | @object ms _ ih =>
    have deeper : depth + 1 + nestingMembers ms ≤ maxNesting := by
      rw [Value.nesting] at fits
      omega
    have inner := nestingMembers_le_iff.mp (Nat.le_sub_of_add_le' deeper)
    refine indents_object (Nat.lt_of_lt_of_le (by omega) deeper) fun m member => ih m member ?_
    have own := inner m member
    omega

/-- Every exact value that is not nested too deeply is read back from its indented text. -/
theorem document_indented {v : Value} (exact : v.Exact) (fits : v.nesting ≤ maxNesting) :
    document v.indented.toList = .ok v := by
  have spelling : Spelling .reader 0 .value v.form (v.writeIndented 0 []) [] :=
    exact.indents (by omega) 0 []
  have read := Form.document_of_spelled ⟨[], spelling, List.forall_mem_nil _⟩
  rw [Value.indented, String.toList_ofList, read, exact.form_value]

end Json

open Caju.Json

theorem ReportEntry.decode?_encode (entry : ReportEntry) : decode? entry.encode = some entry := rfl

namespace Report

theorem decode?_encode (report : Report) : decode? report.encode = some report := by
  have entries : (report.entries.map ReportEntry.encode).mapM ReportEntry.decode? =
      some report.entries := by
    induction report.entries with
    | nil => rfl
    | cons entry rest ih => simp [ReportEntry.decode?_encode, ih]
  show (do return ⟨report.success, report.sourceFile,
    ← (report.entries.map ReportEntry.encode).mapM ReportEntry.decode?⟩ : Option Report) = _
  rw [entries]
  rfl

theorem exact_encode (report : Report) : report.encode.Exact := by
  have entry (entry : ReportEntry) : entry.encode.Exact :=
    .object (List.forall_mem_cons.mpr ⟨.string _, List.forall_mem_singleton.mpr (.string _)⟩)
  have entries : (Value.list (report.entries.map ReportEntry.encode)).Exact :=
    .list (List.forall_mem_map.mpr fun e _ => entry e)
  exact .object (List.forall_mem_cons.mpr ⟨.boolean _, List.forall_mem_cons.mpr ⟨.string _,
    List.forall_mem_singleton.mpr entries⟩⟩)

/-- The object, the list and its entries. -/
theorem nesting_encode (report : Report) : report.encode.nesting ≤ 3 := by
  have entries : nestingElements (report.entries.map ReportEntry.encode) ≤ 1 :=
    nestingElements_le_iff.mpr (List.forall_mem_map.mpr fun _ _ => Nat.le_refl 1)
  have list : (Value.list (report.entries.map ReportEntry.encode)).nesting ≤ 2 :=
    Nat.succ_le_succ entries
  simp only [encode, Value.nesting, nestingMembers] at list ⊢
  omega

theorem document_text (report : Report) : document report.text.toList = .ok report.encode :=
  document_indented report.exact_encode (Nat.le_trans report.nesting_encode (by decide))

theorem ofText?_text (report : Report) : ofText? report.text = some report := by
  rw [ofText?, report.document_text]
  exact report.decode?_encode

/-- The text of a report on any file, with any diagnostics, is a JSON document. Read strictly, it
holds the three members and nothing else, and the report that was written comes back from it:
it is a success exactly if there are no diagnostics, and it has the code and the message of each
in order. -/
theorem text_lossless (sourceFile : String) (diagnostics : List Diagnostic) :
    let report := Report.ofDiagnostics sourceFile diagnostics
    Json.WellFormed report.text.toList ∧
    document report.text.toList = .ok (.object [("success", .boolean diagnostics.isEmpty),
      ("source_file", .string sourceFile),
      ("diagnostics", .list (diagnostics.map fun diagnostic => .object
        [("code", .string diagnostic.code), ("message", .string diagnostic.message)]))]) ∧
    Report.ofText? report.text = some report ∧
    (report.success = true ↔ diagnostics = []) ∧ report.sourceFile = sourceFile ∧
    report.entries.map (fun entry => (entry.code, entry.message)) =
      diagnostics.map fun diagnostic => (diagnostic.code, diagnostic.message) := by
  intro report
  have read := report.document_text
  refine ⟨wellFormed_of_document read, ?_, report.ofText?_text, List.isEmpty_iff, rfl, ?_⟩
  · rw [read]
    simp [report, encode, ofDiagnostics, ReportEntry.encode, ReportEntry.ofDiagnostic]
  · simp [report, ofDiagnostics, ReportEntry.ofDiagnostic]

end Report

end Caju
