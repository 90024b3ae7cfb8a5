import Caju.Tree
import Caju.Scope
import Mathlib.Data.Set.Insert

/-! The static semantics of Caju as rules. A program is well formed if there is a
derivation for it; nothing here reports, stops early or updates a stack. The order
in which a program is read matters in two ways only: a name stands for what was
declared before, and a variable may be read once it was assigned to. -/

namespace Caju

mutual

/-- Whether there is a `retorne` anywhere in a statement. -/
def Stmt.returns : Stmt → Bool
  | .ret _ => true
  | .ifElse _ yes none => Stmt.returnsAny yes
  | .ifElse _ yes (some no) => Stmt.returnsAny yes || Stmt.returnsAny no
  | .whileDo _ body => Stmt.returnsAny body
  | .forDo _ _ _ body => Stmt.returnsAny body
  | .forEach _ _ _ body => Stmt.returnsAny body
  | .declare _ => false
  | .assign _ => false
  | .call _ _ => false

def Stmt.returnsAny : List Stmt → Bool
  | [] => false
  | stmt :: rest => stmt.returns || Stmt.returnsAny rest

end

namespace Static

/-- What a name is declared as. -/
structure Binding where
  kind : SymbolKind
  ty : Ty

/-- The names declared directly in one scope. -/
abbrev Table := String → Option Binding

/-- A declaration that is in force, known by the number of scopes around its own and
by its name. -/
abbrev Declaration := Nat × String

/-- What is known at a point of a program: the tables of the scopes around it, from
the inside out, and which of their declarations have been given a value. -/
@[ext]
structure Situation where
  scopes : List Table
  initialised : Set Declaration

/-- The declaration a name stands for: that of the innermost scope with the name. -/
inductive Resolves : List Table → String → Declaration → Binding → Prop where
  | here {table : Table} {outer : List Table} {name : String} {binding : Binding}
      (declared : table name = some binding) :
      Resolves (table :: outer) name (outer.length, name) binding
  | outward {table : Table} {outer : List Table} {name : String} {declaration : Declaration}
      {binding : Binding} (undeclared : table name = none)
      (resolved : Resolves outer name declaration binding) :
      Resolves (table :: outer) name declaration binding

namespace Situation

/-- Where a program begins: in one scope, with nothing declared. -/
def start : Situation := ⟨[fun _ => none], ∅⟩

/-- The beginning of a block: nothing is declared in its own scope. -/
def within (s : Situation) : Situation := ⟨(fun _ => none) :: s.scopes, s.initialised⟩

/-- The end of a block that ended in `last`: the declarations are those before it, and
what the block gave values to keeps them. -/
def after (s last : Situation) : Situation :=
  ⟨s.scopes, {declaration ∈ last.initialised | declaration.1 < s.scopes.length}⟩

/-- Gives a value to a declaration. -/
def initialise (s : Situation) (declaration : Declaration) : Situation :=
  ⟨s.scopes, insert declaration s.initialised⟩

/-- A name declared in the innermost scope. -/
def declare (s : Situation) (name : String) (binding : Binding) : Situation :=
  match s.scopes with
  | [] => s
  | table :: outer => ⟨Function.update table name (some binding) :: outer, s.initialised⟩

/-- A name declared in the innermost scope together with a value. -/
def bind (s : Situation) (name : String) (binding : Binding) : Situation :=
  (s.declare name binding).initialise (s.scopes.length - 1, name)

/-- Whether the innermost scope has no declaration of a name yet. -/
def Lacks (s : Situation) (name : String) : Prop :=
  ∃ table outer, s.scopes = table :: outer ∧ table name = none

end Situation

mutual

/-- The type of an expression. -/
inductive HasType (s : Situation) : Expr → Ty → Prop where
  | number {value : Int32} : HasType s (.number value) .number
  | character {value : Char} (fits : value ≤ maxCharacter) : HasType s (.character value) .character
  | boolean {value : Bool} : HasType s (.boolean value) .boolean
  | var {name : String} {declaration : Declaration} {binding : Binding}
      (resolved : Resolves s.scopes name declaration binding)
      (initialised : declaration ∈ s.initialised) : HasType s (.var name) binding.ty
  | arithmetic {op : BinOp} {left right : Expr} {leftTy rightTy : Ty}
      (computes : op ∈ [.add, .sub, .mul, .div, .mod]) (first : HasType s left leftTy)
      (second : HasType s right rightTy) : HasType s (.binary op left right) .number
  | truth {op : BinOp} {left right : Expr} {leftTy rightTy : Ty}
      (decides : op ∈ [.lt, .le, .gt, .ge, .eq, .ne, .and, .or]) (first : HasType s left leftTy)
      (second : HasType s right rightTy) : HasType s (.binary op left right) .boolean
  | not {operand : Expr} {found : Ty} (typed : HasType s operand found)
      (accepted : Ty.boolean.accepts found = true) : HasType s (.not operand) .boolean
  | neg {operand : Expr} {found : Ty} (typed : HasType s operand found)
      (accepted : Ty.number.accepts found = true) : HasType s (.neg operand) .number
  | call {callee : String} {args : List Expr} {declaration : Declaration} {params : List Ty}
      {result ty : Ty}
      (resolved : Resolves s.scopes callee declaration ⟨.function params result, ty⟩)
      (fit : ArgumentsFit s args params) : HasType s (.call callee args) result

/-- Arguments that fit parameters, one for one. -/
inductive ArgumentsFit (s : Situation) : List Expr → List Ty → Prop where
  | nil : ArgumentsFit s [] []
  | cons {arg : Expr} {args : List Expr} {expected found : Ty} {params : List Ty}
      (typed : HasType s arg found) (accepted : expected.accepts found = true)
      (rest : ArgumentsFit s args params) : ArgumentsFit s (arg :: args) (expected :: params)

end

/-- An expression that may decide a branch or a loop. -/
def IsCondition (s : Situation) (condition : Expr) : Prop :=
  ∃ found, HasType s condition found ∧ Ty.boolean.accepts found = true

/-- Things read in order, each in the situation that the one before left. -/
inductive InOrder {α : Type} (rule : Situation → α → Situation → Prop) :
    Situation → List α → Situation → Prop where
  | nil {s : Situation} : InOrder rule s [] s
  | cons {s middle last : Situation} {x : α} {rest : List α} (first : rule s x middle)
      (later : InOrder rule middle rest last) : InOrder rule s (x :: rest) last

/-- A variable, new in its scope, and without a value. -/
inductive DeclaresName (ty : Ty) : Situation → String → Situation → Prop where
  | new {s : Situation} {name : String} (unused : s.Lacks name) :
      DeclaresName ty s name (s.declare name ⟨.var, ty⟩)

/-- The target of an assignment takes its value, and holds one from then on. -/
inductive Assigns : Situation → Assign → Situation → Prop where
  | fits {s : Situation} {assign : Assign} {declaration : Declaration} {binding : Binding}
      {found : Ty} (resolved : Resolves s.scopes assign.target declaration binding)
      (typed : HasType s assign.value found) (accepted : binding.ty.accepts found = true) :
      Assigns s assign (s.initialise declaration)

/-- The container of a `para cada` is an array whose elements fit the variable. -/
def IsContainer (s : Situation) (ty : Ty) (container : String) : Prop :=
  ∃ declaration binding element, Resolves s.scopes container declaration binding ∧
    binding.ty = .array element ∧ ty.accepts element = true

/-- What a function with the given result may return. -/
def MayReturn (result : Ty) (s : Situation) : Option Expr → Prop
  | none => result = .void
  | some value => ∃ found, HasType s value found ∧ result.accepts found = true

mutual

/-- A statement of a function with the given result, from the situation before it to
that after it. The branches of a `se` are read one after the other; a `para` reads its
start, its steps, its condition and its body, each once. -/
inductive Checks (result : Ty) : Situation → Stmt → Situation → Prop where
  | declare {s last : Situation} {decl : VarDecl}
      (names : InOrder (DeclaresName decl.ty) s decl.names last) : Checks result s (.declare decl) last
  | assign {s last : Situation} {step : Assign} (assigned : Assigns s step last) :
      Checks result s (.assign step) last
  | call {s : Situation} {callee : String} {args : List Expr} {ty : Ty}
      (typed : HasType s (.call callee args) ty) : Checks result s (.call callee args) s
  | ifOnly {s last : Situation} {condition : Expr} {yes : List Stmt}
      (decided : IsCondition s condition) (taken : ChecksAll result s.within yes last) :
      Checks result s (.ifElse condition yes none) (s.after last)
  | ifElse {s middle last : Situation} {condition : Expr} {yes no : List Stmt}
      (decided : IsCondition s condition) (taken : ChecksAll result s.within yes middle)
      (otherwise : ChecksAll result (s.after middle).within no last) :
      Checks result s (.ifElse condition yes (some no)) ((s.after middle).after last)
  | whileDo {s last : Situation} {condition : Expr} {body : List Stmt}
      (decided : IsCondition s condition) (inside : ChecksAll result s.within body last) :
      Checks result s (.whileDo condition body) (s.after last)
  | forDo {s started stepped last : Situation} {start step : List Assign}
      {condition : Option Expr} {body : List Stmt} (starts : InOrder Assigns s.within start started)
      (steps : InOrder Assigns started step stepped)
      (decided : ∀ expr ∈ condition, IsCondition stepped expr)
      (inside : ChecksAll result stepped body last) :
      Checks result s (.forDo start condition step body) (s.after last)
  | forEach {s last : Situation} {ty : Ty} {name container : String} {body : List Stmt}
      (visited : IsContainer (s.within.bind name ⟨.var, ty⟩) ty container)
      (inside : ChecksAll result (s.within.bind name ⟨.var, ty⟩) body last) :
      Checks result s (.forEach ty name container body) (s.after last)
  | ret {s : Situation} {value : Option Expr} (returned : MayReturn result s value) :
      Checks result s (.ret value) s

/-- Statements in order. -/
inductive ChecksAll (result : Ty) : Situation → List Stmt → Situation → Prop where
  | nil {s : Situation} : ChecksAll result s [] s
  | cons {s middle last : Situation} {stmt : Stmt} {rest : List Stmt}
      (first : Checks result s stmt middle) (later : ChecksAll result middle rest last) :
      ChecksAll result s (stmt :: rest) last

end

/-- A scope with the parameters of a function, the last of a name being the one that
counts. -/
def Situation.withParams (s : Situation) (params : List Param) : Situation :=
  params.foldl (fun s param => s.bind param.name ⟨.param, param.ty⟩) s.within

/-- What a function is declared as. -/
def functionBinding (f : Function) : Binding :=
  ⟨.function (f.params.map Param.ty) f.result, f.signature⟩

/-- A function, new in its scope. Its body knows it, and gives back a result if there
is one to give, somewhere. -/
inductive ChecksFunction : Situation → Function → Situation → Prop where
  | body {s last : Situation} {f : Function} (unused : s.Lacks f.name)
      (inside : ChecksAll f.result ((s.bind f.name (functionBinding f)).withParams f.params)
        f.body last)
      (returned : f.result = .void ∨ Stmt.returnsAny f.body = true ∨ f.name = entryPoint) :
      ChecksFunction s f ((s.bind f.name (functionBinding f)).after last)

inductive ChecksItem : Situation → Item → Situation → Prop where
  | declare {s last : Situation} {decl : VarDecl}
      (names : InOrder (DeclaresName decl.ty) s decl.names last) : ChecksItem s (.declare decl) last
  | function {s last : Situation} {f : Function} (checked : ChecksFunction s f last) :
      ChecksItem s (.function f) last

end Static

/-- A program that has a derivation. -/
def Program.WellFormed (p : Program) : Prop :=
  ∃ last, Static.InOrder Static.ChecksItem .start p.items last

end Caju
