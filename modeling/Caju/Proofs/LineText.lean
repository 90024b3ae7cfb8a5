import Caju.C.Emitter
import Caju.Proofs.ExprText

/-! The texts that generated C is made of, line by line. None has a line end in it,
whatever constants it holds, and each begins with a character that is neither a blank
nor a brace; so what stands on a line shows whether it opens a block, closes one, or does
neither. -/

namespace Caju

namespace C

/-- A text without a line end in it. -/
def OneLine (text : String) : Prop := '\n' ∉ text.toList

instance (text : String) : Decidable (OneLine text) := inferInstanceAs (Decidable (_ ∉ _))

theorem OneLine.append {first second : String} (one : OneLine first) (other : OneLine second) :
    OneLine (first ++ second) := by
  simpa [OneLine] using ⟨one, other⟩

theorem oneLine_intercalate {separator : String} (between : OneLine separator) {texts : List String}
    (each : ∀ text ∈ texts, OneLine text) : OneLine (separator.intercalate texts) := by
  induction texts with
  | nil => simp [OneLine]
  | cons first rest ih =>
    obtain ⟨one, others⟩ := List.forall_mem_cons.mp each
    cases rest with
    | nil => simpa using one
    | cons second more =>
      rw [String.intercalate_cons_cons]
      exact (one.append between).append (ih others)

theorem oneLine_word {text : String} (word : isWord text.toList = true) : OneLine text := by
  intro member
  cases spelled : text.toList with
  | nil => simp [spelled] at member
  | cons first more =>
    rw [spelled] at word member
    simp only [isWord, Bool.and_eq_true, List.all_eq_true] at word
    rcases List.mem_cons.mp member with same | later
    · simp [← same, isNondigit] at word
    · exact absurd (word.2 _ later) (by decide)

theorem oneLine_ident {name : String} (identifier : isIdentifier name = true) :
    OneLine (ident name) :=
  oneLine_word (isWord_ident identifier)

theorem oneLine_digits (n : Nat) : OneLine (toString n) := by
  intro member
  exact absurd (isDigit_of_mem_toString n _ member) (by decide)

theorem oneLine_parenthesized {text : String} (one : OneLine text) (needed : Bool) :
    OneLine (parenthesized needed text) := by
  cases needed with
  | false => exact one
  | true => exact (OneLine.append (by decide) one).append (by decide)

theorem oneLine_number (n : Int) : OneLine (numberLiteral n) := by
  have digits := oneLine_digits n.natAbs
  rw [numberLiteral_eq]
  split
  · exact oneLine_parenthesized (OneLine.append (by decide) digits) true
  · exact digits

private theorem digitChar_ne_newline : ∀ digit < 16, '\n' ≠ Nat.digitChar digit := by
  decide

theorem oneLine_charLiteral (c : Char) : OneLine (charLiteral c) := by
  unfold charLiteral
  split
  iterate 6 decide
  rename_i newline _ _ _
  split
  · simp only [OneLine, String.toList_ofList, List.mem_cons]
    simpa using fun same => newline same.symm
  · split
    -- No digit of a hexadecimal escape is a line end.
    · rename_i small
      have bound : c.toNat ≤ maxCharacter.toNat := small
      have limit : maxCharacter.toNat = 255 := rfl
      have high := digitChar_ne_newline (c.toNat / 16) (by omega)
      have low := digitChar_ne_newline (c.toNat % 16) (by omega)
      simp [OneLine, hexByte, high, low]
    · exact oneLine_digits c.toNat

theorem oneLine_call {callee : String} (identifier : isIdentifier callee = true)
    {args : List String} (each : ∀ text ∈ args, OneLine text) : OneLine (call callee args) :=
  (((oneLine_ident identifier).append (by decide)).append
    (oneLine_intercalate (by decide) each)).append (by decide)

/-- A text that a line may start with, behind its indentation. -/
structure LineText (text : String) : Prop where
  begins : Begins text
  oneLine : OneLine text

theorem LineText.append {first second : String} (front : LineText first)
    (one : OneLine second) : LineText (first ++ second) :=
  ⟨front.begins.append second, front.oneLine.append one⟩

theorem lineText_word {text : String} (word : isWord text.toList = true) : LineText text :=
  ⟨begins_word word, oneLine_word word⟩

/-- A text that is written out. -/
theorem lineText_spelled {text : String}
    (known : (text.toList.head?.any beginsOperand && !text.toList.contains '\n') = true) :
    LineText text := by
  obtain ⟨first, one⟩ := Bool.and_eq_true_iff.mp known
  refine ⟨?_, by simpa [OneLine] using one⟩
  cases spelled : text.toList with
  | nil => simp [spelled] at first
  | cons c more => exact ⟨c, more, spelled, by simpa [spelled] using first⟩

/-- A text that is a whole line and belongs to no brace: it ends in a semicolon. -/
structure LeafText (text : String) : Prop extends LineText text where
  ends : text.toList.getLast? = some ';'

theorem LineText.leaf {text : String} (front : LineText text) : LeafText (text ++ ";") :=
  ⟨front.append (by decide), by simp⟩

theorem lineText_ident {name : String} (identifier : isIdentifier name = true) :
    LineText (ident name) :=
  lineText_word (isWord_ident identifier)

end C

open C

mutual

theorem Expr.oneLine : ∀ e : Expr, (∀ name ∈ e.names, isIdentifier name = true) → OneLine e.cText
  | .number value, _ => oneLine_number value.toInt
  | .character value, _ => oneLine_charLiteral value
  | .boolean value, _ => by cases value <;> decide
  | .var name, named => oneLine_ident (named name (by simp [names]))
  | .binary op left right, named => by
    obtain ⟨namedLeft, namedRight⟩ := List.forall_mem_append.mp named
    have first := oneLine_parenthesized (oneLine left namedLeft) left.isBinary
    have second := oneLine_parenthesized (oneLine right namedRight) right.isBinary
    have operator : OneLine op.cText := by cases op <;> decide
    exact (((first.append (by decide)).append operator).append (by decide)).append second
  | .not operand, named =>
    OneLine.append (by decide) (oneLine_parenthesized (oneLine operand named) _)
  | .neg operand, named =>
    OneLine.append (by decide) (oneLine_parenthesized (oneLine operand named) _)
  | .call callee args, named => by
    obtain ⟨identifier, others⟩ := List.forall_mem_cons.mp named
    exact oneLine_call identifier (eachOneLine args others)

theorem Expr.eachOneLine : ∀ args : List Expr, (∀ name ∈ namesAll args, isIdentifier name = true) →
    ∀ text ∈ cTexts args, OneLine text
  | [], _ => by simp [cTexts]
  | expr :: rest, named => by
    obtain ⟨namedFirst, namedRest⟩ := List.forall_mem_append.mp named
    exact List.forall_mem_cons.mpr ⟨oneLine expr namedFirst, eachOneLine rest namedRest⟩

end

/-- The names in an assignment. -/
def Assign.names (assign : Assign) : List String := assign.target :: assign.value.names

theorem Assign.lineText (assign : Assign)
    (named : ∀ name ∈ assign.names, isIdentifier name = true) : LineText assign.cText := by
  obtain ⟨identifier, others⟩ := List.forall_mem_cons.mp named
  exact ((lineText_ident identifier).append (by decide)).append (assign.value.oneLine others)

namespace Ty

mutual

theorem oneLine_mangle : ∀ ty : Ty, OneLine ty.mangle
  | number => by decide
  | unknown => by decide
  | character => by decide
  | boolean => by decide
  | void => by decide
  | array element => OneLine.append (by decide) (oneLine_mangle element)
  | function params result => by
    refine OneLine.append (by decide) (oneLine_intercalate (by decide) ?_)
    exact List.forall_mem_append.mpr ⟨oneLine_mangleAll params, by simpa using oneLine_mangle result⟩

theorem oneLine_mangleAll : ∀ tys : List Ty, ∀ text ∈ mangleAll tys, OneLine text
  | [] => by simp [mangleAll]
  | ty :: rest => List.forall_mem_cons.mpr ⟨oneLine_mangle ty, oneLine_mangleAll rest⟩

end

private theorem oneLine_paramList {params : List String} (each : ∀ text ∈ params, OneLine text) :
    OneLine (paramList params) := by
  unfold paramList
  split
  · decide
  · exact oneLine_intercalate (by decide) each

mutual

theorem lineText_cType : ∀ ty : Ty, LineText ty.cType
  | number => lineText_spelled (by decide)
  | unknown => lineText_spelled (by decide)
  | character => lineText_spelled (by decide)
  | boolean => lineText_spelled (by decide)
  | void => lineText_spelled (by decide)
  | array element =>
    LineText.append (lineText_spelled (by decide)) (oneLine_mangle (array element))
  | function params result =>
    (((lineText_cType result).append (by decide)).append
      (oneLine_paramList (oneLine_cTypes params))).append (by decide)

theorem oneLine_cTypes : ∀ tys : List Ty, ∀ text ∈ cTypes tys, OneLine text
  | [] => by simp [cTypes]
  | ty :: rest => List.forall_mem_cons.mpr ⟨(lineText_cType ty).oneLine, oneLine_cTypes rest⟩

end

theorem lineText_declarator (ty : Ty) {name : String} (one : OneLine name) :
    LineText (ty.declarator name) := by
  unfold declarator
  split
  · rename_i params result
    have front : LineText (result.cType ++ " (*" ++ name) :=
      ((lineText_cType result).append (by decide)).append one
    exact ((front.append (by decide)).append (oneLine_paramList (oneLine_cTypes params))).append
      (by decide)
  · exact ((lineText_cType ty).append (by decide)).append one

end Ty

namespace C

/-- The head of a block that depends on a condition. -/
theorem lineText_condition {keyword : String} (front : LineText keyword) {condition : Expr}
    (named : ∀ name ∈ condition.names, isIdentifier name = true) :
    LineText (keyword ++ condition.cText ++ ")") :=
  (front.append (condition.oneLine named)).append (by decide)

private theorem oneLine_afterBlank {text : String} (one : OneLine text) :
    OneLine (afterBlank text) := by
  unfold afterBlank
  split
  · decide
  · exact OneLine.append (by decide) one

private theorem oneLine_assigns {steps : List Assign}
    (named : ∀ name ∈ steps.flatMap Assign.names, isIdentifier name = true) :
    OneLine (", ".intercalate (steps.map Assign.cText)) := by
  refine oneLine_intercalate (by decide) (List.forall_mem_map.mpr fun assign member => ?_)
  have own : ∀ name ∈ assign.names, isIdentifier name = true := fun name present =>
    named name (List.mem_flatMap.mpr ⟨assign, member, present⟩)
  exact (assign.lineText own).oneLine

theorem lineText_forHead {start : List Assign} {condition : Option Expr} {step : List Assign}
    (named : ∀ name ∈ start.flatMap Assign.names ++ condition.toList.flatMap Expr.names ++
      step.flatMap Assign.names, isIdentifier name = true) :
    LineText (forHead start condition step) := by
  obtain ⟨namedFront, namedStep⟩ := List.forall_mem_append.mp named
  obtain ⟨namedStart, namedCondition⟩ := List.forall_mem_append.mp namedFront
  have test : OneLine ((condition.map Expr.cText).getD "") := by
    cases condition with
    | none => decide
    | some condition => exact condition.oneLine (by simpa using namedCondition)
  have keyword : LineText "for (" := lineText_spelled (by decide)
  have front := (keyword.append (oneLine_assigns namedStart)).append (by decide : OneLine ";")
  exact ((((front.append (oneLine_afterBlank test)).append (by decide)).append
    (oneLine_afterBlank (oneLine_assigns namedStep))).append (by decide))

theorem oneLine_loopIndex (number : Nat) : OneLine (loopIndex number) :=
  OneLine.append (by decide) (oneLine_digits number)

theorem lineText_forEachHead {index container : String} (one : OneLine index)
    (other : OneLine container) : LineText (forEachHead index container) := by
  have keyword : LineText "for (int " := lineText_spelled (by decide)
  have front : LineText ("for (int " ++ index ++ " = 0; " ++ index ++ " < ") :=
    (((keyword.append one).append (by decide)).append one).append (by decide)
  exact (((front.append other).append (by decide)).append one).append (by decide)

/-- The line that binds the element of a pass. -/
theorem leafText_binding (ty : Ty) {name container : String}
    (identifier : isIdentifier name = true) (array : isIdentifier container = true)
    (index : Nat) :
    LeafText (ty.declarator (ident name) ++ " = " ++ ident container ++ ".data[" ++
      loopIndex index ++ "];") := by
  have front : LineText (ty.declarator (ident name) ++ " = " ++ ident container) :=
    ((ty.lineText_declarator (oneLine_ident identifier)).append (by decide)).append
      (oneLine_ident array)
  refine ⟨((front.append (by decide)).append (oneLine_loopIndex index)).append (by decide), ?_⟩
  rw [String.toList_append, List.getLast?_append]
  rfl

theorem leafText_returnLine (inEntryPoint : Bool) (value : Option Expr)
    (named : ∀ name ∈ value.toList.flatMap Expr.names, isIdentifier name = true) :
    LeafText (returnLine inEntryPoint value) := by
  cases value with
  | some value =>
    have keyword : LineText "return " := lineText_spelled (by decide)
    exact (keyword.append (value.oneLine (by simpa using named))).leaf
  | none => cases inEntryPoint <;> exact ⟨lineText_spelled (by decide), by decide⟩

/-- A name as it is declared along with others: an array starts out empty. -/
def declared (ty : Ty) (name : String) : String :=
  match ty with
  | .array _ => ident name ++ " = \x7b0\x7d"
  | _ => ident name

theorem leafText_declarationLines (decl : VarDecl)
    (named : ∀ name ∈ decl.names, isIdentifier name = true) :
    ∀ text ∈ declarationLines decl, LeafText text := by
  obtain ⟨ty, names⟩ := decl
  have each : ∀ name ∈ names, OneLine (declared ty name) := by
    intro name member
    have one := oneLine_ident (named name member)
    unfold declared
    split
    · exact one.append (by decide)
    · exact one
  have together : LeafText
      (ty.cType ++ " " ++ ", ".intercalate (names.map (declared ty)) ++ ";") :=
    ((ty.lineText_cType.append (by decide)).append
      (oneLine_intercalate (by decide) (List.forall_mem_map.mpr each))).leaf
  cases ty with
  | function params result =>
    refine List.forall_mem_map.mpr fun name member => ?_
    exact (Ty.lineText_declarator _ (oneLine_ident (named name member))).leaf
  | _ => exact List.forall_mem_singleton.mpr together

end C

end Caju
