import Caju.Check.Event
import Caju.Tree

/-! The types of expressions. Looking at an expression changes no scope; what is
wrong with it goes to the journal, and its type is worked out all the same. -/

namespace Caju

open Check

mutual

/-- The type of an expression, and the journal of working it out. The operands of
a binary operator are looked at, but any types will do. -/
def Expr.infer (scopes : ScopeStack) : Expr → Ty × List Event
  | .number _ => (.number, [])
  | .character value =>
    (.character, require (decide (value ≤ maxCharacter)) (.unsupportedCharacter value))
  | .boolean _ => (.boolean, [])
  | .var name =>
    match scopes.lookup name with
    | none => (.unknown, [.read name, .reported (.undeclaredVariable name)])
    | some symbol =>
      (symbol.ty, .read name :: require symbol.initialized (.uninitializedVariable name))
  | .binary op left right =>
    (op.opClass.result, (left.infer scopes).2 ++ (right.infer scopes).2)
  | .not operand =>
    let (found, journal) := operand.infer scopes
    (.boolean, journal ++ require (Ty.boolean.accepts found) (.notOperand found))
  | .neg operand =>
    let (found, journal) := operand.infer scopes
    (.number, journal ++ require (Ty.number.accepts found) (.negOperand found))
  | .call callee args =>
    match scopes.lookup callee with
    | none => (.unknown, [.reported (.undeclaredFunction callee)])
    | some symbol =>
      match symbol.kind with
      | .function params result =>
        if args.length = params.length then
          (result, Expr.checkArgs scopes callee 1 params args)
        else (result, [.reported (.argumentCount callee params.length args.length)])
      | _ => (.unknown, [.reported (.notAFunction callee)])

/-- Checks arguments against parameter types, the first at the given position. -/
def Expr.checkArgs (scopes : ScopeStack) (callee : String) (position : Nat) :
    List Ty → List Expr → List Event
  | expected :: params, arg :: args =>
    let (found, journal) := arg.infer scopes
    journal ++ require (expected.accepts found) (.argumentMismatch callee position expected found) ++
      Expr.checkArgs scopes callee (position + 1) params args
  | _, _ => []

end

/-- A condition must be a `booleano`. -/
def Expr.checkCondition (construct : Construct) (scopes : ScopeStack) (condition : Expr) :
    List Event :=
  let (found, journal) := condition.infer scopes
  journal ++ require (Ty.boolean.accepts found) (.conditionNotBoolean construct found)

end Caju
