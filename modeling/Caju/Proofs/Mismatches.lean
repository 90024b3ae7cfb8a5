import Caju.Proofs.CheckPlans
import Mathlib.Data.List.Basic

/-! Mismatches that are reported. An unresolved name is of unknown type, which fits everywhere,
so no mismatch follows from it: wherever two types are reported as a mismatch both are known
and they differ. They also differ as they are printed, because a type can be read back from
its text, however deeply arrays and functions nest in it. -/

namespace Caju

open Check

/-! ### Types can be told apart by their texts -/

namespace Ty

/-- What follows the first parameter in the text of a function type, up to the bracket that
closes the list. -/
def laterTexts : List Ty → List Char
  | [] => [')']
  | ty :: rest => ',' :: ' ' :: (ty.text.toList ++ laterTexts rest)

/-- The parameters in the text of a function type, with the bracket that closes the list. -/
def paramTexts : List Ty → List Char
  | [] => [')']
  | ty :: rest => ty.text.toList ++ laterTexts rest

theorem paramTexts_eq (params : List Ty) :
    paramTexts params = (", ".intercalate (texts params)).toList ++ [')'] := by
  cases params with
  | nil => simp [paramTexts, texts]
  | cons ty rest =>
    induction rest generalizing ty with
    | nil => simp [paramTexts, texts, laterTexts]
    | cons next rest ih =>
      have shorter := ih next
      simp only [paramTexts, texts] at shorter ⊢
      simp only [String.intercalate_cons_cons, String.toList_append, List.append_assoc, ← shorter,
        laterTexts]
      rfl

theorem toList_text_function (params : List Ty) (result : Ty) :
    (function params result).text.toList =
      "funcao(".toList ++ (paramTexts params ++ (':' :: ' ' :: result.text.toList)) := by
  simp [text, paramTexts_eq]

/-- No type is spelled with a closing bracket in front. -/
theorem text_ne_bracket (ty : Ty) (rest more : List Char) :
    ty.text.toList ++ rest ≠ ')' :: more := by
  cases ty <;> simp [text]

mutual

/-- The text of a type shows which type it is, and where it ends. -/
theorem text_append_inj : ∀ (first second : Ty) (rest rest' : List Char),
    first.text.toList ++ rest = second.text.toList ++ rest' → first = second ∧ rest = rest'
  | number, second, _, _, same => by
    cases second <;> simp [text] at same ⊢
    exact same
  | character, second, _, _, same => by
    cases second <;> simp [text] at same ⊢
    exact same
  | boolean, second, _, _, same => by
    cases second <;> simp [text] at same ⊢
    exact same
  | void, second, _, _, same => by
    cases second <;> simp [text] at same ⊢
    exact same
  | unknown, second, _, _, same => by
    cases second <;> simp [text] at same ⊢
    exact same
  | array element, second, rest, rest', same => by
    cases second with
    | array other =>
      have inside : element.text.toList ++ (']' :: rest) = other.text.toList ++ (']' :: rest') := by
        simpa [text] using same
      obtain ⟨equal, tails⟩ := text_append_inj element other _ _ inside
      exact ⟨congrArg array equal, (List.cons.inj tails).2⟩
    | _ => simp [text] at same
  | function params result, second, rest, rest', same => by
    cases second with
    | function others other =>
      simp only [toList_text_function, List.append_assoc, List.append_cancel_left_eq] at same
      obtain ⟨equal, tails⟩ := paramTexts_append_inj params others _ _ same
      have results : result.text.toList ++ rest = other.text.toList ++ rest' := by simpa using tails
      obtain ⟨equal', ends⟩ := text_append_inj result other _ _ results
      exact ⟨by rw [equal, equal'], ends⟩
    | _ => simp [text] at same

theorem paramTexts_append_inj : ∀ (first second : List Ty) (rest rest' : List Char),
    paramTexts first ++ rest = paramTexts second ++ rest' → first = second ∧ rest = rest'
  | [], [], _, _, same => ⟨rfl, (List.cons.inj same).2⟩
  | [], ty :: others, rest, rest', same => by
    rw [paramTexts, paramTexts, List.append_assoc] at same
    exact absurd same.symm (text_ne_bracket ty _ rest)
  | ty :: rest, [], _, tail, same => by
    rw [paramTexts, paramTexts, List.append_assoc] at same
    exact absurd same (text_ne_bracket ty _ tail)
  | ty :: rest, other :: others, _, _, same => by
    rw [paramTexts, paramTexts, List.append_assoc, List.append_assoc] at same
    obtain ⟨head, tails⟩ := text_append_inj ty other _ _ same
    obtain ⟨equal, ends⟩ := laterTexts_append_inj rest others _ _ tails
    exact ⟨by rw [head, equal], ends⟩

theorem laterTexts_append_inj : ∀ (first second : List Ty) (rest rest' : List Char),
    laterTexts first ++ rest = laterTexts second ++ rest' → first = second ∧ rest = rest'
  | [], [], _, _, same => ⟨rfl, (List.cons.inj same).2⟩
  | [], _ :: _, _, _, same => by simp [laterTexts] at same
  | _ :: _, [], _, _, same => by simp [laterTexts] at same
  | ty :: rest, other :: others, tail, tail', same => by
    have inside : ty.text.toList ++ (laterTexts rest ++ tail) =
        other.text.toList ++ (laterTexts others ++ tail') := by
      simpa [laterTexts] using same
    obtain ⟨head, tails⟩ := text_append_inj ty other _ _ inside
    obtain ⟨equal, ends⟩ := laterTexts_append_inj rest others _ _ tails
    exact ⟨by rw [head, equal], ends⟩

end

/-- Different types have different texts. -/
theorem text_injective : Function.Injective text := by
  intro first second same
  exact (text_append_inj first second [] [] (by rw [same])).1

/-- Two types that are known, and not the same. -/
structure Clash (wanted found : Ty) : Prop where
  differ : wanted ≠ found
  wantedKnown : wanted ≠ unknown
  foundKnown : found ≠ unknown

theorem Clash.symm {wanted found : Ty} (clash : Clash wanted found) : Clash found wanted :=
  ⟨clash.differ.symm, clash.foundKnown, clash.wantedKnown⟩

/-- Only known types that differ are refused. -/
theorem clash_of_refused {expected found : Ty} (refused : expected.accepts found = false) :
    Clash expected found := by
  have never := (accepts_iff expected found).not.mp (by simp [refused])
  obtain ⟨wantedKnown, foundKnown, differ⟩ := by simpa only [not_or] using never
  exact ⟨differ, wantedKnown, foundKnown⟩

end Ty

/-! ### Mismatches in a journal -/

/-- The two types of a mismatch, in the order in which they are printed. -/
def Diagnostic.mismatch? : Diagnostic → Option (Ty × Ty)
  | .assignmentMismatch _ expected found => some (expected, found)
  | .argumentMismatch _ _ expected found => some (expected, found)
  | .conditionNotBoolean _ found => some (.boolean, found)
  | .elementMismatch _ element found => some (element, found)
  | .notOperand found => some (.boolean, found)
  | .negOperand found => some (.number, found)
  | .returnMismatch _ expected found => some (expected, found)
  | _ => none

private theorem expectedFound_behind (front : String) (expected found : Ty) :
    front ++ Diagnostic.expectedFound expected found =
      front ++ "expected " ++ expected.text ++ ", found " ++ found.text := by
  simp only [Diagnostic.expectedFound, String.append_assoc]

/-- The message of a mismatch ends in the second type, and has the first one before. -/
theorem Diagnostic.message_of_mismatch {diagnostic : Diagnostic} {wanted found : Ty}
    (mismatch : diagnostic.mismatch? = some (wanted, found)) :
    ∃ before between, diagnostic.message = before ++ wanted.text ++ between ++ found.text := by
  cases diagnostic with
  | assignmentMismatch target expected found =>
    cases mismatch
    exact ⟨"type mismatch in assignment to '" ++ target ++ "': " ++ "expected ", ", found ",
      expectedFound_behind _ wanted _⟩
  | argumentMismatch function position expected found =>
    cases mismatch
    exact ⟨"type mismatch in argument " ++ toString position ++ " of '" ++ function ++ "': " ++
      "expected ", ", found ", expectedFound_behind _ wanted _⟩
  | returnMismatch function expected found =>
    cases mismatch
    exact ⟨"return type mismatch in '" ++ function ++ "': " ++ "expected ", ", found ",
      expectedFound_behind _ wanted _⟩
  | elementMismatch name element found =>
    cases mismatch
    have spelled : (Diagnostic.elementMismatch name wanted found).message =
        "type mismatch in 'para cada': elements are " ++ wanted.text ++ ", but '" ++ name ++
          "' is " ++ found.text := rfl
    refine ⟨"type mismatch in 'para cada': elements are ", ", but '" ++ name ++ "' is ", ?_⟩
    simp only [spelled, String.append_assoc]
  | conditionNotBoolean construct found =>
    cases mismatch
    have spelled : (Diagnostic.conditionNotBoolean construct found).message =
        "condition of '" ++ construct.text ++ "' must be booleano, found " ++ found.text := rfl
    refine ⟨"condition of '" ++ construct.text ++ "' must be ", ", found ", ?_⟩
    simp [spelled, Ty.text, String.append_assoc]
  | notOperand found =>
    cases mismatch
    have spelled : (Diagnostic.notOperand found).message =
        "operator 'nao' expects booleano, found " ++ found.text := rfl
    exact ⟨"operator 'nao' expects ", ", found ", by simp [spelled, Ty.text]⟩
  | negOperand found =>
    cases mismatch
    have spelled : (Diagnostic.negOperand found).message =
        "unary operator '-' expects numero, found " ++ found.text := rfl
    exact ⟨"unary operator '-' expects ", ", found ", by simp [spelled, Ty.text]⟩
  | _ => cases mismatch

/-- A diagnostic that is a mismatch of known types, or none at all. -/
def Diagnostic.Fair (diagnostic : Diagnostic) : Prop :=
  ∀ wanted found, diagnostic.mismatch? = some (wanted, found) → Ty.Clash wanted found

namespace Check

/-- A journal that reports nothing as a mismatch that is none. -/
def Fair (journal : List Event) : Prop := ∀ diagnostic ∈ diagnostics journal, diagnostic.Fair

theorem Fair.append {first second : List Event} (before : Fair first) (after : Fair second) :
    Fair (first ++ second) := by
  unfold Fair
  rw [diagnostics_append]
  exact List.forall_mem_append.mpr ⟨before, after⟩

theorem fair_of_silent {journal : List Event} (silent : diagnostics journal = []) :
    Fair journal := by
  unfold Fair
  rw [silent]
  exact List.forall_mem_nil _

theorem fair_reported {diagnostic : Diagnostic} (fair : diagnostic.Fair) :
    Fair [.reported diagnostic] :=
  List.forall_mem_singleton.mpr fair

theorem fair_require {holds : Bool} {diagnostic : Diagnostic}
    (fair : holds = false → diagnostic.Fair) : Fair (require holds diagnostic) := by
  cases holds with
  | true => exact fair_of_silent rfl
  | false => exact fair_reported (fair rfl)

/-- Where a mismatch is reported because one type refuses the other, it is one. -/
theorem fair_mismatch {holds : Bool} {diagnostic : Diagnostic} {wanted found : Ty}
    (mismatch : diagnostic.mismatch? = some (wanted, found))
    (refused : holds = false → Ty.Clash wanted found) : Fair (require holds diagnostic) := by
  refine fair_require fun fails wanted' found' same => ?_
  cases mismatch.symm.trans same
  exact refused fails

end Check

section Expressions

variable (scopes : ScopeStack)

mutual

theorem Expr.infer_fair : ∀ expr : Expr, Fair (expr.infer scopes).2
  | .number _ => by
    rw [Expr.infer]
    exact fair_of_silent rfl
  | .boolean _ => by
    rw [Expr.infer]
    exact fair_of_silent rfl
  | .character _ => by
    rw [Expr.infer]
    exact fair_require fun _ => nofun
  | .var name => by
    have read : Fair [.read name] := fair_of_silent rfl
    rw [Expr.infer]
    cases scopes.lookup name with
    | none => exact read.append (fair_reported nofun)
    | some symbol => exact read.append (fair_require fun _ => nofun)
  | .binary _ left right => by
    rw [Expr.infer]
    exact (Expr.infer_fair left).append (Expr.infer_fair right)
  | .not operand => by
    rw [Expr.infer]
    exact (Expr.infer_fair operand).append (fair_mismatch rfl Ty.clash_of_refused)
  | .neg operand => by
    rw [Expr.infer]
    exact (Expr.infer_fair operand).append (fair_mismatch rfl Ty.clash_of_refused)
  | .call callee args => by
    rw [Expr.infer]
    cases scopes.lookup callee with
    | none => exact fair_reported nofun
    | some symbol =>
      dsimp only
      cases symbol.kind with
      | var => exact fair_reported nofun
      | param => exact fair_reported nofun
      | function params result =>
        dsimp only
        split
        · exact Expr.checkArgs_fair callee 1 params args
        · exact fair_reported nofun

theorem Expr.checkArgs_fair (callee : String) : ∀ (position : Nat) (params : List Ty)
    (args : List Expr), Fair (Expr.checkArgs scopes callee position params args)
  | _, [], _ => by
    rw [Expr.checkArgs]
    · exact fair_of_silent rfl
    · simp
  | _, _ :: _, [] => by
    rw [Expr.checkArgs]
    · exact fair_of_silent rfl
    · simp
  | position, expected :: params, arg :: args => by
    rw [Expr.checkArgs]
    exact ((Expr.infer_fair arg).append (fair_mismatch rfl Ty.clash_of_refused)).append
      (Expr.checkArgs_fair callee (position + 1) params args)

end

theorem Expr.checkCondition_fair (construct : Construct) (condition : Expr) :
    Fair (condition.checkCondition construct scopes) :=
  (condition.infer_fair scopes).append (fair_mismatch rfl Ty.clash_of_refused)

/-- Here the variable refuses the elements, which are the type named first. -/
theorem checkContainer_fair (ty : Ty) (name container : String) :
    Fair (checkContainer ty name container scopes) := by
  unfold checkContainer
  cases scopes.lookup container with
  | none => exact fair_reported nofun
  | some symbol =>
    dsimp only
    cases symbol.ty.element? with
    | none => exact fair_reported nofun
    | some element => exact fair_mismatch rfl fun refused => (Ty.clash_of_refused refused).symm

theorem checkReturnValue_fair (context : Context) (value : Option Expr) :
    Fair (checkReturnValue context value scopes) := by
  cases value with
  | none => exact fair_require fun _ => nofun
  | some value => exact (value.infer_fair scopes).append (fair_mismatch rfl Ty.clash_of_refused)

end Expressions

/-! ### Mismatches of a program -/

namespace Check

theorem fair_declareNew {duplicate : Diagnostic} (other : duplicate.mismatch? = none)
    (symbol : Symbol) (scopes : ScopeStack) :
    Fair (declareNew duplicate symbol scopes).journal := by
  unfold Fair
  rw [diagnostics_declareNew]
  split
  · refine List.forall_mem_singleton.mpr fun wanted found mismatch => ?_
    rw [other] at mismatch
    cases mismatch
  · exact List.forall_mem_nil _

end Check

theorem Assign.check_fair (assign : Assign) (scopes : ScopeStack) :
    Fair (assign.check scopes).journal := by
  unfold Assign.check
  cases scopes.lookup assign.target with
  | none => exact fair_reported nofun
  | some symbol =>
    refine Fair.append ?_ (fair_of_silent rfl)
    exact (assign.value.infer_fair scopes).append (fair_mismatch rfl Ty.clash_of_refused)

/-- Whatever the scopes, no task reports a mismatch that is none. -/
theorem Check.Task.check_fair (task : Task) (scopes : ScopeStack) :
    Fair (task.check scopes).journal := by
  cases task with
  | var name ty => exact fair_declareNew rfl _ scopes
  | function f => exact fair_declareNew rfl _ scopes
  | bound name ty => exact fair_of_silent (diagnostics_declare _ scopes)
  | param p => exact fair_of_silent (diagnostics_declare _ scopes)
  | checking name => exact fair_of_silent rfl
  | assign step => exact step.check_fair scopes
  | call callee args => exact (Expr.call callee args).infer_fair scopes
  | condition construct expr => exact expr.checkCondition_fair scopes construct
  | container ty name array => exact checkContainer_fair scopes ty name array
  | ret context value =>
    cases context with
    | none => exact fair_reported nofun
    | some context => exact checkReturnValue_fair scopes context value
  | ending f returned => exact fair_require fun _ => nofun

/-- Every mismatch that is reported in a program, wherever it stands, is one of two known types
that differ, and these are printed as different texts. -/
theorem Program.mismatches_clash (p : Program) :
    ∀ diagnostic ∈ p.diagnostics, ∀ wanted found, diagnostic.mismatch? = some (wanted, found) →
      (wanted ≠ found ∧ wanted ≠ .unknown ∧ found ≠ .unknown) ∧ wanted.text ≠ found.text ∧
      ∃ before between, diagnostic.message = before ++ wanted.text ++ between ++ found.text := by
  intro diagnostic reported wanted found mismatch
  obtain ⟨task, -, scopes, told⟩ := Program.mem_diagnostics reported
  have clash := task.check_fair scopes diagnostic told wanted found mismatch
  refine ⟨⟨clash.differ, clash.wantedKnown, clash.foundKnown⟩, ?_,
    Diagnostic.message_of_mismatch mismatch⟩
  exact fun same => clash.differ (Ty.text_injective same)

/-- An argument of an unknown type is let pass; one whose type differs deep inside is not. -/
theorem Program.mismatches_clash_nested :
    let inner (param : Ty) : Ty := .function [.function [param] .void, .number] (.array param)
    let p : Program := ⟨[.function ⟨"f", [⟨"g", inner .number⟩, ⟨"h", inner .boolean⟩], .void,
      [.assign ⟨"g", .var "h"⟩, .assign ⟨"g", .var "y"⟩, .ret (some (.not (.var "h")))]⟩]⟩
    let mismatch : Diagnostic := .assignmentMismatch "g" (inner .number) (inner .boolean)
    p.diagnostics = [mismatch, .undeclaredVariable "y", .notOperand (inner .boolean),
      .returnMismatch "f" .void .boolean] ∧
    (inner .number).text ≠ (inner .boolean).text ∧
    ∃ before between, mismatch.message =
      before ++ (inner .number).text ++ between ++ (inner .boolean).text := by
  intro inner p mismatch
  have reported : mismatch ∈ p.diagnostics := by decide
  exact ⟨by decide, (p.mismatches_clash mismatch reported _ _ rfl).2⟩

end Caju
