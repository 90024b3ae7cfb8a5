import Caju.C.Program
import Caju.Proofs.Acceptance
import Caju.Proofs.Visits

/-! Where returns end up in C. Like the checker, the generator comes to every statement of a
program; what it has written by then is what any later text begins with, so the line of a
`retorne` can be found in the finished file. Two things decide whether that line fits the
function around it: what the checker lets a function return, and how the generator writes an
entry point without result. -/

namespace Caju

open Check C

namespace C

/-- An emitter after it has written something: it has added lines, and what it writes next
is as deep as before and in the same function. -/
structure Emitter.Extends (e after : Emitter) : Prop where
  lines : e.lines.toList <+: after.lines.toList
  indent : after.indent = e.indent
  inEntryPoint : after.inEntryPoint = e.inEntryPoint

namespace Emitter

/-- The emitter inside a block whose head it has written. -/
def inside (head : String) (e : Emitter) : Emitter :=
  { e.line (head ++ " \x7b") with indent := e.indent + 1 }

namespace Extends

variable {e middle after : Emitter} {head : String} {body : Emitter → Emitter}

theorem refl (e : Emitter) : e.Extends e := ⟨List.prefix_rfl, rfl, rfl⟩

theorem trans (first : e.Extends middle) (second : middle.Extends after) : e.Extends after where
  lines := first.lines.trans second.lines
  indent := second.indent.trans first.indent
  inEntryPoint := second.inEntryPoint.trans first.inEntryPoint

theorem line (e : Emitter) (text : String) : e.Extends (e.line text) where
  lines := by simp [Emitter.line]
  indent := rfl
  inEntryPoint := rfl

theorem writeLines (texts : List String) (e : Emitter) : e.Extends (e.writeLines texts) := by
  induction texts generalizing e with
  | nil => exact refl e
  | cons text rest ih => exact (line e text).trans (ih _)

/-- A block that is opened leaves the emitter outside of it. -/
theorem openBlock (inner : (e.inside head).Extends (body (e.inside head))) :
    e.Extends (e.openBlock head body) where
  lines := (line e _).lines.trans inner.lines
  indent := by
    have deeper : (body (e.inside head)).indent = e.indent + 1 := inner.indent
    exact congrArg (· - 1) deeper
  inEntryPoint := inner.inEntryPoint

theorem block (inner : (e.inside head).Extends (body (e.inside head))) :
    e.Extends (e.block head body) :=
  (openBlock inner).trans (line _ _)

end Extends

end Emitter

end C

open Emitter

mutual

theorem Stmt.emit_extends : ∀ (stmt : Stmt) (e : Emitter), e.Extends (stmt.emit e)
  | .declare decl, e => by
    rw [Stmt.emit]
    exact .writeLines _ e
  | .assign step, e => by
    rw [Stmt.emit]
    exact .line e _
  | .call callee args, e => by
    rw [Stmt.emit]
    exact .line e _
  | .ret value, e => by
    rw [Stmt.emit]
    exact .line e _
  | .ifElse condition yes none, e => by
    rw [Stmt.emit]
    exact .block (Stmt.emitAll_extends yes _)
  | .ifElse condition yes (some no), e => by
    rw [Stmt.emit]
    exact (Extends.openBlock (Stmt.emitAll_extends yes _)).trans
      (.block (Stmt.emitAll_extends no _))
  | .whileDo condition body, e => by
    rw [Stmt.emit]
    exact .block (Stmt.emitAll_extends body _)
  | .forDo start condition step body, e => by
    rw [Stmt.emit]
    exact .block (Stmt.emitAll_extends body _)
  | .forEach ty name container body, e => by
    rw [Stmt.emit]
    have counted : e.Extends { e with loops := e.loops + 1 } := ⟨List.prefix_rfl, rfl, rfl⟩
    exact counted.trans (.block ((Extends.line _ _).trans (Stmt.emitAll_extends body _)))

theorem Stmt.emitAll_extends : ∀ (stmts : List Stmt) (e : Emitter),
    e.Extends (Stmt.emitAll stmts e)
  | [], e => by
    rw [Stmt.emitAll]
    exact .refl e
  | stmt :: rest, e => by
    rw [Stmt.emitAll]
    exact (Stmt.emit_extends stmt e).trans (Stmt.emitAll_extends rest _)

end

/-- A statement of a function, as the generator comes to it. -/
structure C.Writing where
  function : Function
  stmt : Stmt
  emitter : Emitter

namespace Stmt

mutual

/-- The statements that are written for a statement, itself first. -/
def writings (f : Function) : Stmt → Emitter → List Writing
  | .ifElse condition yes none, e =>
    ⟨f, .ifElse condition yes none, e⟩ ::
      writingsAll f yes (e.inside ("if (" ++ condition.cText ++ ")"))
  | .ifElse condition yes (some no), e =>
    let head := "if (" ++ condition.cText ++ ")"
    let between := e.openBlock head (Stmt.emitAll yes)
    ⟨f, .ifElse condition yes (some no), e⟩ ::
      (writingsAll f yes (e.inside head) ++ writingsAll f no (between.inside "\x7d else"))
  | .whileDo condition body, e =>
    ⟨f, .whileDo condition body, e⟩ ::
      writingsAll f body (e.inside ("while (" ++ condition.cText ++ ")"))
  | .forDo start condition step body, e =>
    ⟨f, .forDo start condition step body, e⟩ ::
      writingsAll f body (e.inside (forHead start condition step))
  | .forEach ty name container body, e =>
    let index := loopIndex e.loops
    let binding := ty.declarator (ident name) ++ " = " ++ ident container ++ ".data[" ++ index ++ "];"
    let counted : Emitter := { e with loops := e.loops + 1 }
    ⟨f, .forEach ty name container body, e⟩ ::
      writingsAll f body ((counted.inside (forEachHead index (ident container))).line binding)
  | stmt, e => [⟨f, stmt, e⟩]

def writingsAll (f : Function) : List Stmt → Emitter → List Writing
  | [], _ => []
  | stmt :: rest, e => writings f stmt e ++ writingsAll f rest (stmt.emit e)

end

end Stmt

namespace C

/-- Writings whose lines a text has. Each was made with the emitter set to its function. -/
def Keeps (after : Emitter) (writings : List Writing) : Prop :=
  ∀ writing ∈ writings, (writing.stmt.emit writing.emitter).lines.toList <+: after.lines.toList ∧
    writing.emitter.inEntryPoint = writing.function.isVoidEntryPoint

namespace Keeps

variable {middle after : Emitter} {writings others : List Writing}

theorem none : Keeps after [] := by simp [Keeps]

theorem append (early : Keeps after writings) (late : Keeps after others) :
    Keeps after (writings ++ others) :=
  List.forall_mem_append.mpr ⟨early, late⟩

theorem later (keeps : Keeps middle writings)
    (lines : middle.lines.toList <+: after.lines.toList) : Keeps after writings := by
  intro writing member
  obtain ⟨written, flag⟩ := keeps writing member
  exact ⟨written.trans lines, flag⟩

/-- A statement itself is written first. -/
theorem itself {f : Function} {stmt : Stmt} {e : Emitter} (flag : e.inEntryPoint = f.isVoidEntryPoint)
    (keeps : Keeps (stmt.emit e) writings) :
    Keeps (stmt.emit e) (⟨f, stmt, e⟩ :: writings) :=
  List.forall_mem_cons.mpr ⟨⟨List.prefix_rfl, flag⟩, keeps⟩

theorem openBlock {e : Emitter} {head : String} {body : Emitter → Emitter}
    (inner : Keeps (body (e.inside head)) writings) :
    Keeps (e.openBlock head body) writings :=
  inner

theorem block {e : Emitter} {head : String} {body : Emitter → Emitter}
    (inner : Keeps (body (e.inside head)) writings) :
    Keeps (e.block head body) writings :=
  inner.openBlock.later (Extends.line _ _).lines

end Keeps

end C

section Writings

variable (f : Function)

mutual

theorem Stmt.keeps : ∀ (stmt : Stmt) (e : Emitter), e.inEntryPoint = f.isVoidEntryPoint →
    Keeps (stmt.emit e) (stmt.writings f e)
  | .declare _, e, flag => by
    rw [Stmt.writings]
    · exact .itself flag .none
    all_goals simp
  | .assign _, e, flag => by
    rw [Stmt.writings]
    · exact .itself flag .none
    all_goals simp
  | .call _ _, e, flag => by
    rw [Stmt.writings]
    · exact .itself flag .none
    all_goals simp
  | .ret _, e, flag => by
    rw [Stmt.writings]
    · exact .itself flag .none
    all_goals simp
  | .ifElse condition yes none, e, flag => by
    rw [Stmt.writings]
    refine .itself flag ?_
    rw [Stmt.emit]
    exact .block (Stmt.keepsAll yes _ flag)
  | .ifElse condition yes (some no), e, flag => by
    rw [Stmt.writings]
    refine .itself flag ?_
    rw [Stmt.emit]
    have first : Keeps (e.openBlock ("if (" ++ condition.cText ++ ")") (Stmt.emitAll yes)) _ :=
      .openBlock (Stmt.keepsAll yes _ flag)
    have opened : e.Extends (e.openBlock ("if (" ++ condition.cText ++ ")") (Stmt.emitAll yes)) :=
      .openBlock (Stmt.emitAll_extends yes _)
    have same := opened.inEntryPoint.trans flag
    generalize e.openBlock ("if (" ++ condition.cText ++ ")") (Stmt.emitAll yes) = between at *
    exact (first.later (Extends.block (Stmt.emitAll_extends no _)).lines).append
      (.block (Stmt.keepsAll no _ same))
  | .whileDo condition body, e, flag => by
    rw [Stmt.writings]
    refine .itself flag ?_
    rw [Stmt.emit]
    exact .block (Stmt.keepsAll body _ flag)
  | .forDo start condition step body, e, flag => by
    rw [Stmt.writings]
    refine .itself flag ?_
    rw [Stmt.emit]
    exact .block (Stmt.keepsAll body _ flag)
  | .forEach ty name container body, e, flag => by
    rw [Stmt.writings]
    refine .itself flag ?_
    rw [Stmt.emit]
    generalize counted : { e with loops := e.loops + 1 } = inner
    have same : inner.inEntryPoint = f.isVoidEntryPoint := counted ▸ flag
    exact Keeps.block (e := inner) (Stmt.keepsAll body _ same)

theorem Stmt.keepsAll : ∀ (stmts : List Stmt) (e : Emitter), e.inEntryPoint = f.isVoidEntryPoint →
    Keeps (Stmt.emitAll stmts e) (Stmt.writingsAll f stmts e)
  | [], _, _ => by
    rw [Stmt.writingsAll]
    exact .none
  | stmt :: rest, e, flag => by
    rw [Stmt.writingsAll, Stmt.emitAll]
    have same := (Stmt.emit_extends stmt e).inEntryPoint.trans flag
    exact ((Stmt.keeps stmt e flag).later (Stmt.emitAll_extends rest _).lines).append
      (Stmt.keepsAll rest _ same)

end

end Writings

namespace Function

/-- The emitter that is about to write a function. -/
def started (f : Function) (e : Emitter) : Emitter :=
  { e with loops := 0, inEntryPoint := f.isVoidEntryPoint }

/-- Writes the body of a function, with the return that C wants at the end of an entry point. -/
def emitBody (f : Function) (e : Emitter) : Emitter :=
  let written := Stmt.emitAll f.body e
  if written.inEntryPoint then written.line "return 0;" else written

/-- The statements of a function, as they are written. -/
def writings (f : Function) (e : Emitter) : List Writing :=
  Stmt.writingsAll f f.body ((f.started e).inside f.cSignature)

theorem emit_lines (f : Function) (e : Emitter) :
    (f.emit e).lines = (((f.started e).block f.cSignature f.emitBody).line "").lines := rfl

theorem emitBody_lines (f : Function) (e : Emitter) :
    (Stmt.emitAll f.body e).Extends (f.emitBody e) := by
  unfold emitBody
  dsimp only
  split
  · exact .line _ _
  · exact .refl _

/-- A function is written behind what is there. -/
theorem emit_behind (f : Function) (e : Emitter) : e.lines.toList <+: (f.emit e).lines.toList := by
  have body : ((f.started e).inside f.cSignature).Extends _ :=
    (Stmt.emitAll_extends f.body _).trans (f.emitBody_lines _)
  rw [emit_lines]
  exact (Extends.block body).lines.trans (Extends.line _ "").lines

theorem keeps (f : Function) (e : Emitter) :
    Keeps (f.emit e) (f.writings e) := by
  have body : Keeps _ (f.writings e) := Stmt.keepsAll f f.body _ rfl
  have block := (body.later (f.emitBody_lines _).lines).block
  refine block.later ?_
  rw [emit_lines]
  exact (Extends.line _ "").lines

end Function

def Item.writingsAll : Bool → List Item → Emitter → List Writing
  | _, [], _ => []
  | _, .declare decl :: rest, e => Item.writingsAll true rest (e.writeLines (declarationLines decl))
  | afterVariables, .function f :: rest, e =>
    let start := if afterVariables then e.line "" else e
    f.writings start ++ Item.writingsAll false rest (f.emit start)

theorem Item.emitAll_behind (afterVariables : Bool) (items : List Item) (e : Emitter) :
    e.lines.toList <+: (Item.emitAll afterVariables items e).lines.toList := by
  fun_induction Item.emitAll afterVariables items e with
  | case1 => exact List.prefix_rfl
  | case2 _ decl rest e ih => exact (Extends.writeLines _ e).lines.trans ih
  | case3 afterVariables f rest e ih =>
    refine List.IsPrefix.trans ?_ ((f.emit_behind _).trans ih)
    split
    · exact (Extends.line e "").lines
    · exact List.prefix_rfl

theorem Item.keepsAll (afterVariables : Bool) (items : List Item) (e : Emitter) :
    Keeps (Item.emitAll afterVariables items e) (Item.writingsAll afterVariables items e) := by
  fun_induction Item.emitAll afterVariables items e with
  | case1 => exact .none
  | case2 _ decl rest e ih => exact ih
  | case3 afterVariables f rest e ih =>
    exact ((f.keeps _).later (Item.emitAll_behind false rest _)).append ih

namespace Program

/-- What is written ahead of the items of a program. -/
def preamble (p : Program) : Emitter :=
  ((Emitter.fresh.writeLines ["/* Generated by cajuc */", "#include <stdbool.h>", ""]).writeLines
    (p.arrayTypes.flatMap Ty.structureLines)).writeLines (prototypeLines p.functions)

/-- The statements of a program, as they are written. -/
def writings (p : Program) : List Writing := Item.writingsAll false p.items p.preamble

theorem keeps (p : Program) : Keeps (p.emit .fresh) p.writings :=
  Item.keepsAll false p.items p.preamble

/-- The line of a `retorne` stands in the text behind the lines there were when it was
written. -/
theorem return_line (p : Program) {writing : Writing} (member : writing ∈ p.writings)
    {value : Option Expr} (returns : writing.stmt = .ret value) :
    (p.emit .fresh).lines[writing.emitter.lines.size]? = some (indented writing.emitter.indent
      (returnLine writing.function.isVoidEntryPoint value)) := by
  obtain ⟨⟨later, written⟩, flag⟩ := p.keeps writing member
  rw [returns, Stmt.emit, flag] at written
  rw [← Array.getElem?_toList, ← written]
  simp [Emitter.line]

end Program

/-- What a statement returns from a function, if it is a `retorne`. -/
def Stmt.returnedFrom (f : Function) : Stmt → Option (Function × Option Expr)
  | .ret value => some (f, value)
  | _ => none

/-- The returns of a program, each with its function. -/
def Program.returns (p : Program) : List (Function × Option Expr) :=
  p.functions.flatMap fun f => (Stmt.partsAll f.body).filterMap (Stmt.returnedFrom f)

def Check.Visit.returned? (visit : Visit) : Option (Function × Option Expr) :=
  visit.stmt.returnedFrom visit.function

def C.Writing.returned? (writing : Writing) : Option (Function × Option Expr) :=
  writing.stmt.returnedFrom writing.function

section Returns

variable (f : Function)

mutual

theorem Stmt.writings_returns : ∀ (stmt : Stmt) (e : Emitter),
    (stmt.writings f e).filterMap Writing.returned? = stmt.parts.filterMap (Stmt.returnedFrom f)
  | .declare _, _ => by simp [Stmt.writings, Stmt.parts, Writing.returned?, List.filterMap_cons]
  | .assign _, _ => by simp [Stmt.writings, Stmt.parts, Writing.returned?, List.filterMap_cons]
  | .call _ _, _ => by simp [Stmt.writings, Stmt.parts, Writing.returned?, List.filterMap_cons]
  | .ret _, _ => by simp [Stmt.writings, Stmt.parts, Writing.returned?, List.filterMap_cons]
  | .ifElse _ yes none, _ => by
    simp [Stmt.writings, Stmt.parts, Writing.returned?, Stmt.returnedFrom, List.filterMap_cons,
      Stmt.writingsAll_returns yes]
  | .ifElse _ yes (some no), _ => by
    simp [Stmt.writings, Stmt.parts, Writing.returned?, Stmt.returnedFrom, List.filterMap_cons,
      Stmt.writingsAll_returns yes, Stmt.writingsAll_returns no]
  | .whileDo _ body, _ => by
    simp [Stmt.writings, Stmt.parts, Writing.returned?, Stmt.returnedFrom, List.filterMap_cons,
      Stmt.writingsAll_returns body]
  | .forDo _ _ _ body, _ => by
    have assigns (steps : List Assign) :
        (steps.map Stmt.assign).filterMap (Stmt.returnedFrom f) = [] := by
      simp [Stmt.returnedFrom]
    simp [Stmt.writings, Stmt.parts, Writing.returned?, Stmt.returnedFrom, List.filterMap_cons,
      Stmt.writingsAll_returns body, assigns]
  | .forEach _ _ _ body, _ => by
    simp [Stmt.writings, Stmt.parts, Writing.returned?, Stmt.returnedFrom, List.filterMap_cons,
      Stmt.writingsAll_returns body]

theorem Stmt.writingsAll_returns : ∀ (stmts : List Stmt) (e : Emitter),
    (Stmt.writingsAll f stmts e).filterMap Writing.returned? =
      (Stmt.partsAll stmts).filterMap (Stmt.returnedFrom f)
  | [], _ => by simp [Stmt.writingsAll, Stmt.partsAll]
  | stmt :: rest, _ => by
    simp [Stmt.writingsAll, Stmt.partsAll, Stmt.writings_returns stmt,
      Stmt.writingsAll_returns rest]

end

end Returns

theorem Program.writings_returns (p : Program) :
    p.writings.filterMap Writing.returned? = p.returns := by
  unfold Program.writings Program.returns Program.functions
  generalize p.preamble = e, false = afterVariables
  fun_induction Item.writingsAll afterVariables p.items e with
  | case1 => rfl
  | case2 _ decl rest e ih => simpa using ih
  | case3 afterVariables f rest e start ih =>
    simp [ih, Function.writings, Stmt.writingsAll_returns]

theorem Program.visits_returns (p : Program) : p.visits.filterMap Visit.returned? = p.returns := by
  have fused : p.visits.filterMap Visit.returned? =
      (p.visits.map Visit.part).filterMap fun part => part.2.returnedFrom part.1 := by
    rw [List.filterMap_map]
    rfl
  rw [fused, p.visits_parts, Program.parts, Program.returns, List.filterMap_flatMap]
  simp [List.filterMap_map]

theorem Stmt.returnedFrom_eq_some {f g : Function} {stmt : Stmt} {value : Option Expr} :
    stmt.returnedFrom f = some (g, value) ↔ stmt = .ret value ∧ f = g := by
  cases stmt <;> simp [Stmt.returnedFrom, and_comm]

theorem Ty.cType_eq_void_iff (ty : Ty) : ty.cType = "void" ↔ ty = .void := by
  cases ty with
  | array element =>
    refine iff_of_false (fun same => ?_) (by simp)
    have begins := congrArg (·.toList.head?) same
    simp [Ty.cType, C.mark] at begins
  | function params result =>
    refine iff_of_false (fun same => ?_) (by simp)
    have ends := congrArg (·.toList.getLast?) same
    simp [Ty.cType, List.getLast?_cons] at ends
  | _ => simp [Ty.cType]

/-- Only functions declared without result are `void` in C, and the entry point never is. -/
theorem Function.cResult_eq_void_iff (f : Function) :
    f.cResult = "void" ↔ f.result = .void ∧ f.name ≠ entryPoint := by
  have isVoid : f.result.isVoid = true ↔ f.result = .void := by cases f.result <;> simp [Ty.isVoid]
  unfold Function.cResult Function.isVoidEntryPoint
  by_cases entry : f.name = entryPoint
  · by_cases void : f.result = .void
    · simp [entry, void, Ty.isVoid]
    · simp [entry, isVoid, void, Ty.cType_eq_void_iff]
  · simp [entry, Ty.cType_eq_void_iff]

/-- A returned value is of the type of its function, unless one of the two is unknown. -/
theorem Program.returned_type {p : Program} (clean : p.diagnostics = []) {visit : Visit}
    (member : visit ∈ p.visits) {value : Expr} (returns : visit.stmt = .ret (some value)) :
    (value.infer visit.scopes).1 = visit.function.result ∨
      (value.infer visit.scopes).1 = .unknown ∨ visit.function.result = .unknown := by
  have nothing := visit_clean clean member
  rw [Visit.journal, returns, Stmt.check] at nothing
  obtain ⟨_, accepted⟩ : _ ∧ visit.function.result.accepts (value.infer visit.scopes).1 = true := by
    simpa [checkReturn, checkReturnValue, Function.context] using nothing
  rcases (Ty.accepts_iff _ _).mp accepted with result | found | same
  · exact .inr (.inr result)
  · exact .inr (.inl found)
  · exact .inl same.symm

/-- Only functions declared without result return without a value. -/
theorem Program.bare_return {p : Program} (clean : p.diagnostics = []) {f : Function}
    (member : (f, none) ∈ p.returns) : f.result = .void := by
  rw [← p.visits_returns] at member
  obtain ⟨visit, visited, returned⟩ := List.mem_filterMap.mp member
  obtain ⟨returns, rfl⟩ := Stmt.returnedFrom_eq_some.mp returned
  have nothing := visit_clean clean visited
  rw [Visit.journal, returns, Stmt.check] at nothing
  have isVoid : visit.function.result.isVoid = true := by
    simpa [checkReturn, checkReturnValue, Function.context] using nothing
  cases void : visit.function.result with
  | void => rfl
  | _ => simp [void, Ty.isVoid] at isVoid

/-- In a program without diagnostics, a `retorne` without value is only found in functions
declared without result; it is written `return;` if C has that function `void`, and
`return 0;` if it is the entry point, which C has `int`. A `retorne` with a value is written
with that value, which is of the type its function is declared with unless one of the two is
unknown; C has the function `void` only if it is declared without result and not the entry
point. -/
theorem Program.returns_fit (p : Program) (clean : p.diagnostics = []) :
    p.visits.filterMap Visit.returned? = p.returns ∧
    p.writings.filterMap Writing.returned? = p.returns ∧
    (∀ visit ∈ p.visits, ∀ value, visit.stmt = .ret (some value) →
      (value.infer visit.scopes).1 = visit.function.result ∨
        (value.infer visit.scopes).1 = .unknown ∨ visit.function.result = .unknown) ∧
    ∀ writing ∈ p.writings, ∀ value, writing.stmt = .ret value →
      ∃ text, (p.emit .fresh).lines[writing.emitter.lines.size]? =
          some (indented writing.emitter.indent text) ∧
        match value with
        | none => writing.function.result = .void ∧
          (text = "return;" ∧ writing.function.cResult = "void" ∧
              writing.function.name ≠ entryPoint ∨
            text = "return 0;" ∧ writing.function.cResult = "int" ∧
              writing.function.name = entryPoint)
        | some value => text = "return " ++ value.cText ++ ";" ∧
          (writing.function.cResult = "void" ↔
            writing.function.result = .void ∧ writing.function.name ≠ entryPoint) := by
  refine ⟨p.visits_returns, p.writings_returns, fun visit member value => returned_type clean member,
    fun writing member value returns => ⟨_, p.return_line member returns, ?_⟩⟩
  cases value with
  | some value => exact ⟨rfl, writing.function.cResult_eq_void_iff⟩
  | none =>
    have returned : (writing.function, none) ∈ p.returns := by
      rw [← p.writings_returns]
      exact List.mem_filterMap.mpr ⟨writing, member, Stmt.returnedFrom_eq_some.mpr ⟨returns, rfl⟩⟩
    have void := bare_return clean returned
    refine ⟨void, ?_⟩
    by_cases entry : writing.function.name = entryPoint
    · simp [returnLine, Function.cResult, Function.isVoidEntryPoint, entry, void, Ty.isVoid]
    · simp [returnLine, Function.cResult, Function.isVoidEntryPoint, entry, void, Ty.cType]

/-- Two returns without value, one of them deep inside the entry point, and one with a value. -/
theorem Program.returns_fit_mixed :
    let value : Expr := .neg (.var "x")
    let f : Function := ⟨"f", [], .void, [.ret none]⟩
    let g : Function := ⟨"g", [⟨"x", .number⟩], .number, [.ret (some value)]⟩
    let main : Function := ⟨"main", [], .void, [.whileDo (.boolean true) [.ret none]]⟩
    let p : Program := ⟨[.function f, .function g, .function main]⟩
    p.diagnostics = [] ∧ p.returns = [(f, none), (g, some value), (main, none)] ∧
    (∀ visit ∈ p.visits, visit.stmt = .ret (some value) →
      (value.infer visit.scopes).1 = visit.function.result ∨
        (value.infer visit.scopes).1 = .unknown ∨ visit.function.result = .unknown) ∧
    (∀ writing ∈ p.writings, writing.stmt = .ret none →
      ∃ text, (p.emit .fresh).lines[writing.emitter.lines.size]? =
          some (indented writing.emitter.indent text) ∧
        (text = "return;" ∧ writing.function.cResult = "void" ∨
          text = "return 0;" ∧ writing.function.cResult = "int")) ∧
    ∀ writing ∈ p.writings, writing.stmt = .ret (some value) →
      (p.emit .fresh).lines[writing.emitter.lines.size]? =
          some (indented writing.emitter.indent "return -x;") ∧
        (writing.function.cResult = "void" ↔
          writing.function.result = .void ∧ writing.function.name ≠ entryPoint) := by
  intro value f g main p
  have clean : p.diagnostics = [] := by decide
  obtain ⟨_, _, typed, lines⟩ := p.returns_fit clean
  refine ⟨clean, rfl, fun visit member => typed visit member value, ?_, ?_⟩
  · intro writing member returns
    obtain ⟨text, placed, _, fits⟩ := lines writing member none returns
    exact ⟨text, placed,
      fits.imp (fun other => ⟨other.1, other.2.1⟩) fun entry => ⟨entry.1, entry.2.1⟩⟩
  · intro writing member returns
    obtain ⟨text, placed, spelled, fits⟩ := lines writing member (some value) returns
    have same : text = "return -x;" := spelled.trans (by decide)
    rw [same] at placed
    exact ⟨placed, fits⟩

/-- A function without result may return the call of another one: that call then stands
behind `return` in a C function that is `void`, and in an `int main`. -/
theorem Program.returns_fit_called :
    let call : Expr := .call "g" []
    let g : Function := ⟨"g", [], .void, []⟩
    let f : Function := ⟨"f", [], .void, [.ret (some call)]⟩
    let main : Function := ⟨"main", [], .void, [.ret (some call)]⟩
    let p : Program := ⟨[.function g, .function f, .function main]⟩
    p.diagnostics = [] ∧ p.returns = [(f, some call), (main, some call)] ∧
    (∀ visit ∈ p.visits, (call.infer visit.scopes).1 = .void) ∧
    p.writings.map (fun writing => (p.emit .fresh).lines.toList[writing.emitter.lines.size]?) =
      [some "    return g();", some "    return g();"] ∧
    f.cResult = "void" ∧ main.cResult = "int" := by
  intro call g f main p
  exact ⟨by decide, rfl, by decide, by decide, by decide, by decide⟩

end Caju
