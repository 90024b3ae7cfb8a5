import Caju.Proofs.AssignmentTargets
import Caju.Proofs.ExprText
import Caju.Proofs.ReturnLines

/-! Character constants that C has no room for. The generator writes such a character as its
number; the checker reports it. It does not look at everything: what is assigned to an unknown
name, or handed to an unknown function or in the wrong number, is passed over. But then that is
reported, so a program without diagnostics has no such character anywhere, and every character
of it stands in the C text as a constant between quotes. -/

namespace Caju

open Check C

/-! ### Where characters stand -/

namespace Stmt

mutual

/-- The character constants in a statement, at any depth. -/
def characters : Stmt → List Char
  | .declare _ => []
  | .assign step => step.value.characters
  | .call _ args => Expr.charactersAll args
  | .ifElse condition yes none => condition.characters ++ charactersAll yes
  | .ifElse condition yes (some no) =>
    condition.characters ++ charactersAll yes ++ charactersAll no
  | .whileDo condition body => condition.characters ++ charactersAll body
  | .forDo start condition step body =>
    start.flatMap (·.value.characters) ++ (condition.map Expr.characters).getD [] ++
      step.flatMap (·.value.characters) ++ charactersAll body
  | .forEach _ _ _ body => charactersAll body
  | .ret value => (value.map Expr.characters).getD []

def charactersAll : List Stmt → List Char
  | [] => []
  | stmt :: rest => characters stmt ++ charactersAll rest

end

end Stmt

def Item.characters : Item → List Char
  | .declare _ => []
  | .function f => Stmt.charactersAll f.body

/-- The character constants in a program. -/
def Program.characters (p : Program) : List Char := p.items.flatMap Item.characters

/-! ### Characters and diagnostics -/

section Expressions

variable (scopes : ScopeStack)

mutual

theorem Expr.fits_of_clean : ∀ expr : Expr, diagnostics (expr.infer scopes).2 = [] →
    ∀ c ∈ expr.characters, c ≤ maxCharacter
  | .number _, _ => List.forall_mem_nil _
  | .boolean _, _ => List.forall_mem_nil _
  | .var _, _ => List.forall_mem_nil _
  | .character value, clean => by
    have fits : value ≤ maxCharacter := by simpa [Expr.infer] using clean
    exact List.forall_mem_singleton.mpr fits
  | .binary _ left right, clean => by
    obtain ⟨first, second⟩ : _ ∧ diagnostics (right.infer scopes).2 = [] := by
      simpa [Expr.infer] using clean
    exact List.forall_mem_append.mpr
      ⟨Expr.fits_of_clean left first, Expr.fits_of_clean right second⟩
  | .not operand, clean => by
    obtain ⟨inner, _⟩ : diagnostics (operand.infer scopes).2 = [] ∧
        Ty.boolean.accepts (operand.infer scopes).1 = true := by
      simpa [Expr.infer] using clean
    exact Expr.fits_of_clean operand inner
  | .neg operand, clean => by
    obtain ⟨inner, _⟩ : diagnostics (operand.infer scopes).2 = [] ∧
        Ty.number.accepts (operand.infer scopes).1 = true := by
      simpa [Expr.infer] using clean
    exact Expr.fits_of_clean operand inner
  | .call callee args, clean => by
    rw [Expr.infer] at clean
    cases found : scopes.lookup callee with
    | none => simp [found, Event.diagnostic?] at clean
    | some symbol =>
      cases kind : symbol.kind with
      | var => simp [found, kind, Event.diagnostic?] at clean
      | param => simp [found, kind, Event.diagnostic?] at clean
      | function params result =>
        by_cases arity : args.length = params.length
        · simp only [found, kind, arity, if_true] at clean
          exact Expr.argumentsFit_of_clean callee 1 params args arity clean
        · simp [found, kind, arity, Event.diagnostic?] at clean

/-- All arguments are looked at, because there are as many as parameters. -/
theorem Expr.argumentsFit_of_clean (callee : String) : ∀ (position : Nat) (params : List Ty)
    (args : List Expr), args.length = params.length →
    diagnostics (Expr.checkArgs scopes callee position params args) = [] →
    ∀ c ∈ Expr.charactersAll args, c ≤ maxCharacter
  | _, _, [], _, _ => List.forall_mem_nil _
  | _, [], _ :: _, arity, _ => by simp at arity
  | position, expected :: params, arg :: args, arity, clean => by
    obtain ⟨first, _, later⟩ : diagnostics (arg.infer scopes).2 = [] ∧ _ ∧
        diagnostics (Expr.checkArgs scopes callee (position + 1) params args) = [] := by
      simpa [Expr.checkArgs] using clean
    exact List.forall_mem_append.mpr ⟨Expr.fits_of_clean arg first,
      Expr.argumentsFit_of_clean callee (position + 1) params args (Nat.succ.inj arity) later⟩

end

end Expressions

theorem Expr.fits_of_condition {construct : Construct} {condition : Expr} {scopes : ScopeStack}
    (clean : diagnostics (condition.checkCondition construct scopes) = []) :
    ∀ c ∈ condition.characters, c ≤ maxCharacter := by
  obtain ⟨inner, _⟩ : diagnostics (condition.infer scopes).2 = [] ∧
      Ty.boolean.accepts (condition.infer scopes).1 = true := by
    simpa [Expr.checkCondition] using clean
  exact condition.fits_of_clean scopes inner

theorem Check.returnFits_of_clean {context : Context} {value : Option Expr} {scopes : ScopeStack}
    (clean : diagnostics (checkReturnValue context value scopes) = []) :
    ∀ c ∈ (value.map Expr.characters).getD [], c ≤ maxCharacter := by
  cases value with
  | none => exact List.forall_mem_nil _
  | some value =>
    obtain ⟨inner, _⟩ : diagnostics (value.infer scopes).2 = [] ∧
        context.result.accepts (value.infer scopes).1 = true := by
      simpa [checkReturnValue] using clean
    exact value.fits_of_clean scopes inner

namespace Check.Task

/-- The character constants that a task looks at. -/
def characters : Task → List Char
  | .assign step => step.value.characters
  | .call _ args => Expr.charactersAll args
  | .condition _ expr => expr.characters
  | .ret (some _) value => (value.map Expr.characters).getD []
  | _ => []

/-- A task that finds nothing wrong has only characters that fit. -/
theorem fits_of_clean {task : Task} {scopes : ScopeStack}
    (clean : diagnostics (task.check scopes).journal = []) :
    ∀ c ∈ task.characters, c ≤ maxCharacter := by
  cases task with
  | assign step =>
    obtain ⟨_, _, value, _⟩ := (step.clean_iff scopes).mp clean
    exact step.value.fits_of_clean scopes value
  | call callee args => exact (Expr.call callee args).fits_of_clean scopes clean
  | condition construct expr => exact Expr.fits_of_condition clean
  | ret context value =>
    cases context with
    | none => exact List.forall_mem_nil _
    | some context => exact returnFits_of_clean clean
  | _ => exact List.forall_mem_nil _

end Check.Task

section Tasks

variable (context : Context)

mutual

/-- Every character of a statement is looked at in one of its tasks. -/
theorem Stmt.characters_planned : ∀ stmt : Stmt, ∀ c ∈ stmt.characters,
    c ∈ (Plan.tasksAll (stmt.plan (some context))).flatMap Task.characters
  | .declare _ => by simp [Stmt.characters]
  | .assign step => by simp [Stmt.characters, Stmt.plan, Plan.tasksAll, Plan.tasks, Task.characters]
  | .call callee args => by
    simp [Stmt.characters, Stmt.plan, Plan.tasksAll, Plan.tasks, Task.characters]
  | .ret value => by simp [Stmt.characters, Stmt.plan, Plan.tasksAll, Plan.tasks, Task.characters]
  | .ifElse condition yes none => by
    have inside := Stmt.charactersAll_planned yes
    simp only [Stmt.characters, Stmt.plan, Plan.tasksAll, Plan.tasks, List.flatMap_append,
      List.flatMap_singleton, Task.characters]
    grind
  | .ifElse condition yes (some no) => by
    have first := Stmt.charactersAll_planned yes
    have second := Stmt.charactersAll_planned no
    simp only [Stmt.characters, Stmt.plan, Plan.tasksAll, Plan.tasks, List.flatMap_append,
      List.flatMap_singleton, Task.characters]
    grind
  | .whileDo condition body => by
    have inside := Stmt.charactersAll_planned body
    simp only [Stmt.characters, Stmt.plan, Plan.tasksAll, Plan.tasks, List.flatMap_append,
      List.flatMap_singleton, Task.characters]
    grind
  | .forDo start condition step body => by
    have inside := Stmt.charactersAll_planned body
    simp only [Stmt.characters, Stmt.plan, Plan.tasksAll, Plan.tasks, Plan.tasksAll_append,
      Plan.tasksAll_ofTasks, List.flatMap_append, List.flatMap_map, Task.characters]
    cases condition <;> grind
  | .forEach ty name container body => by
    have inside := Stmt.charactersAll_planned body
    simp only [Stmt.characters, Stmt.plan, Plan.tasksAll, Plan.tasks, Plan.tasksAll_append,
      Plan.tasksAll_ofTasks, List.flatMap_append]
    grind

theorem Stmt.charactersAll_planned : ∀ stmts : List Stmt, ∀ c ∈ Stmt.charactersAll stmts,
    c ∈ (Plan.tasksAll (Stmt.planAll (some context) stmts)).flatMap Task.characters
  | [] => by simp [Stmt.charactersAll]
  | stmt :: rest => by
    have first := Stmt.characters_planned stmt
    have later := Stmt.charactersAll_planned rest
    rw [Stmt.charactersAll, Stmt.planAll, Plan.tasksAll_append, List.flatMap_append]
    grind

end

end Tasks

theorem Item.characters_planned (item : Item) {c : Char} (member : c ∈ item.characters) :
    ∃ task ∈ Plan.tasksAll item.plan, c ∈ task.characters := by
  cases item with
  | declare decl => cases member
  | function f =>
    obtain ⟨task, present, own⟩ :=
      List.mem_flatMap.mp (Stmt.charactersAll_planned f.context f.body c member)
    refine ⟨task, ?_, own⟩
    rw [Item.plan, f.plan_tasks]
    exact List.mem_append_left _ (List.mem_append_right _ present)

/-- A program without diagnostics has only characters that fit. -/
theorem Program.characters_fit {p : Program} (clean : p.diagnostics = []) :
    ∀ c ∈ p.characters, c ≤ maxCharacter := by
  intro c member
  obtain ⟨item, listed, inItem⟩ := List.mem_flatMap.mp member
  obtain ⟨task, present, inTask⟩ := item.characters_planned inItem
  obtain ⟨scopes, taskClean⟩ :=
    Program.task_clean clean (Program.mem_plan_tasks.mpr ⟨item, listed, present⟩)
  exact Task.fits_of_clean taskClean c inTask

/-! ### Characters in the C text -/

namespace C

/-- A text that stands somewhere in another. -/
def Within (part text : String) : Prop := part.toList <:+: text.toList

namespace Within

variable {part text : String}

theorem refl (text : String) : Within text text := List.infix_rfl

theorem behind (within : Within part text) (front : String) : Within part (front ++ text) := by
  unfold Within
  rw [String.toList_append]
  exact within.trans (List.suffix_append _ _).isInfix

theorem ahead (within : Within part text) (back : String) : Within part (text ++ back) := by
  unfold Within
  rw [String.toList_append]
  exact within.trans (List.prefix_append _ _).isInfix

theorem parenthesized (within : Within part text) (needed : Bool) :
    Within part (parenthesized needed text) := by
  cases needed with
  | false => exact within
  | true => exact (within.behind "(").ahead ")"

theorem afterBlank (within : Within part text) : Within part (afterBlank text) := by
  unfold C.afterBlank
  by_cases empty : text.isEmpty = true
  · rw [if_pos empty, ← String.isEmpty_iff.mp empty]
    exact within
  · rw [if_neg empty]
    exact within.behind " "

theorem intercalate {texts : List String} (within : Within part text) (member : text ∈ texts)
    (separator : String) : Within part (separator.intercalate texts) := by
  induction texts with
  | nil => cases member
  | cons first rest ih =>
    cases rest with
    | nil =>
      obtain rfl := List.mem_singleton.mp member
      rwa [String.intercalate_singleton]
    | cons second rest =>
      rw [String.intercalate_cons_cons]
      rcases List.mem_cons.mp member with rfl | later
      · exact (within.ahead _).ahead _
      · exact (ih later).behind _

end Within

/-- A text stands somewhere in a line that was written. -/
def Emitter.Shows (e : Emitter) (part : String) : Prop := ∃ line ∈ e.lines.toList, Within part line

namespace Emitter.Shows

variable {e after : Emitter} {part text head : String} {body : Emitter → Emitter}

theorem later (shown : e.Shows part) (lines : e.lines.toList <+: after.lines.toList) :
    after.Shows part := by
  obtain ⟨line, member, within⟩ := shown
  exact ⟨line, lines.subset member, within⟩

theorem line (within : Within part text) (e : Emitter) : (e.line text).Shows part := by
  refine ⟨indented e.indent text, by simp [Emitter.line], ?_⟩
  exact within.behind _

theorem openBlock (inner : (body (e.inside head)).Shows part) :
    (e.openBlock head body).Shows part :=
  inner

theorem block (inner : (body (e.inside head)).Shows part) : (e.block head body).Shows part :=
  inner.openBlock.later (Extends.line _ _).lines

/-- What stands in the head of a block is there before its body. -/
theorem atHead (within : Within part head) (e : Emitter) : (e.inside head).Shows part :=
  line (within.ahead _) e

end Emitter.Shows

end C

open Emitter

mutual

/-- Every character constant stands in the text of its expression. -/
theorem Expr.characters_within : ∀ (expr : Expr), ∀ c ∈ expr.characters,
    Within (charLiteral c) expr.cText
  | .number _ => List.forall_mem_nil _
  | .boolean _ => List.forall_mem_nil _
  | .var _ => List.forall_mem_nil _
  | .character value => List.forall_mem_singleton.mpr (.refl _)
  | .binary op left right => by
    refine List.forall_mem_append.mpr ⟨fun c member => ?_, fun c member => ?_⟩
    · have operand := (Expr.characters_within left c member).parenthesized left.isBinary
      exact (((operand.ahead _).ahead _).ahead _).ahead _
    · exact ((Expr.characters_within right c member).parenthesized _).behind _
  | .not operand => fun c member =>
    ((Expr.characters_within operand c member).parenthesized _).behind _
  | .neg operand => fun c member =>
    ((Expr.characters_within operand c member).parenthesized _).behind _
  | .call callee args => fun c member => by
    obtain ⟨text, argument, within⟩ := Expr.charactersAll_within args c member
    exact ((within.intercalate argument ", ").behind _).ahead _

theorem Expr.charactersAll_within : ∀ (args : List Expr), ∀ c ∈ Expr.charactersAll args,
    ∃ text ∈ Expr.cTexts args, Within (charLiteral c) text
  | [] => List.forall_mem_nil _
  | arg :: args => by
    refine List.forall_mem_append.mpr ⟨fun c member => ?_, fun c member => ?_⟩
    · exact ⟨arg.cText, List.mem_cons_self, Expr.characters_within arg c member⟩
    · obtain ⟨text, later, within⟩ := Expr.charactersAll_within args c member
      exact ⟨text, List.mem_cons_of_mem _ later, within⟩

end

theorem assigns_within (steps : List Assign) (c : Char)
    (member : c ∈ steps.flatMap (·.value.characters)) :
    Within (charLiteral c) (", ".intercalate (steps.map Assign.cText)) := by
  obtain ⟨step, listed, character⟩ := List.mem_flatMap.mp member
  have within : Within (charLiteral c) step.cText :=
    (step.value.characters_within c character).behind (ident step.target ++ " = ")
  exact within.intercalate (List.mem_map_of_mem listed) ", "

theorem forHead_within (start : List Assign) (condition : Option Expr) (step : List Assign)
    (c : Char) (member : c ∈ start.flatMap (·.value.characters) ++
      (condition.map Expr.characters).getD [] ++ step.flatMap (·.value.characters)) :
    Within (charLiteral c) (forHead start condition step) := by
  unfold forHead
  refine Within.ahead ?_ ")"
  rcases List.mem_append.mp member with before | stepped
  · refine (Within.ahead ?_ ";").ahead _
    rcases List.mem_append.mp before with started | decided
    · exact (((assigns_within start c started).behind _).ahead ";").ahead _
    · refine Within.behind (Within.afterBlank ?_) _
      cases condition with
      | none => cases decided
      | some condition => exact condition.characters_within c decided
  · exact (assigns_within step c stepped).afterBlank.behind _

mutual

/-- Every character constant of a statement stands in a line that is written for it. -/
theorem Stmt.characters_shown : ∀ (stmt : Stmt) (e : Emitter), ∀ c ∈ stmt.characters,
    (stmt.emit e).Shows (charLiteral c)
  | .declare _, _, c, member => by simp [Stmt.characters] at member
  | .assign step, e, c, member => by
    rw [Stmt.characters] at member
    rw [Stmt.emit]
    exact .line (((step.value.characters_within c member).behind _).ahead ";") e
  | .call callee args, e, c, member => by
    rw [Stmt.characters] at member
    rw [Stmt.emit]
    exact .line (((Expr.call callee args).characters_within c member).ahead ";") e
  | .ret value, e, c, member => by
    rw [Stmt.characters] at member
    rw [Stmt.emit]
    cases value with
    | none => cases member
    | some value => exact .line (((value.characters_within c member).behind _).ahead ";") e
  | .ifElse condition yes none, e, c, member => by
    rw [Stmt.characters] at member
    rw [Stmt.emit]
    rcases List.mem_append.mp member with decided | inside
    · have head :=
        Shows.atHead (((condition.characters_within c decided).behind "if (").ahead ")") e
      exact .block (head.later (Stmt.emitAll_extends yes _).lines)
    · exact .block (Stmt.charactersAll_shown yes _ c inside)
  | .ifElse condition yes (some no), e, c, member => by
    rw [Stmt.characters] at member
    rw [Stmt.emit]
    have otherwise (between : Emitter) :
        between.lines.toList <+: (between.block "\x7d else" (Stmt.emitAll no)).lines.toList :=
      (Extends.block (Stmt.emitAll_extends no _)).lines
    rcases List.mem_append.mp member with before | inside
    · refine Shows.later ?_ (otherwise _)
      rcases List.mem_append.mp before with decided | inside
      · have head :=
          Shows.atHead (((condition.characters_within c decided).behind "if (").ahead ")") e
        exact .openBlock (head.later (Stmt.emitAll_extends yes _).lines)
      · exact .openBlock (Stmt.charactersAll_shown yes _ c inside)
    · exact .block (Stmt.charactersAll_shown no _ c inside)
  | .whileDo condition body, e, c, member => by
    rw [Stmt.characters] at member
    rw [Stmt.emit]
    rcases List.mem_append.mp member with decided | inside
    · have head :=
        Shows.atHead (((condition.characters_within c decided).behind "while (").ahead ")") e
      exact .block (head.later (Stmt.emitAll_extends body _).lines)
    · exact .block (Stmt.charactersAll_shown body _ c inside)
  | .forDo start condition step body, e, c, member => by
    rw [Stmt.characters] at member
    rw [Stmt.emit]
    rcases List.mem_append.mp member with ahead | inside
    · have head := Shows.atHead (forHead_within start condition step c ahead) e
      exact .block (head.later (Stmt.emitAll_extends body _).lines)
    · exact .block (Stmt.charactersAll_shown body _ c inside)
  | .forEach ty name container body, e, c, member => by
    rw [Stmt.characters] at member
    rw [Stmt.emit]
    exact .block (Stmt.charactersAll_shown body _ c member)

theorem Stmt.charactersAll_shown : ∀ (stmts : List Stmt) (e : Emitter),
    ∀ c ∈ Stmt.charactersAll stmts, (Stmt.emitAll stmts e).Shows (charLiteral c)
  | [], _, c, member => by simp [Stmt.charactersAll] at member
  | stmt :: rest, e, c, member => by
    rw [Stmt.charactersAll] at member
    rw [Stmt.emitAll]
    rcases List.mem_append.mp member with first | later
    · exact (Stmt.characters_shown stmt e c first).later (Stmt.emitAll_extends rest _).lines
    · exact Stmt.charactersAll_shown rest _ c later

end

theorem Function.characters_shown (f : Function) (e : Emitter) (c : Char)
    (member : c ∈ Stmt.charactersAll f.body) : (f.emit e).Shows (charLiteral c) := by
  have body := Stmt.charactersAll_shown f.body ((f.started e).inside f.cSignature) c member
  have block : ((f.started e).block f.cSignature f.emitBody).Shows (charLiteral c) :=
    .block (body.later (f.emitBody_lines _).lines)
  refine block.later ?_
  rw [f.emit_lines]
  exact (Extends.line _ "").lines

theorem Item.characters_shown (afterVariables : Bool) (items : List Item) (e : Emitter) (c : Char)
    (member : c ∈ items.flatMap Item.characters) :
    (Item.emitAll afterVariables items e).Shows (charLiteral c) := by
  fun_induction Item.emitAll afterVariables items e with
  | case1 => cases member
  | case2 _ decl rest e ih =>
    rw [List.flatMap_cons, Item.characters, List.nil_append] at member
    exact ih member
  | case3 afterVariables f rest e ih =>
    rw [List.flatMap_cons, Item.characters] at member
    rcases List.mem_append.mp member with first | later
    · exact (f.characters_shown _ c first).later (Item.emitAll_behind false rest _)
    · exact ih later

/-- A character that fits is written between quotes. -/
theorem C.charLiteral_quoted {c : Char} (small : c ≤ maxCharacter) :
    ∃ inside, charLiteral c = "'" ++ inside ++ "'" := by
  unfold charLiteral
  split
  · exact ⟨"\\'", rfl⟩
  · exact ⟨"\\\\", rfl⟩
  · exact ⟨"\\n", rfl⟩
  · exact ⟨"\\t", rfl⟩
  · exact ⟨"\\r", rfl⟩
  · exact ⟨"\\0", rfl⟩
  · split
    · exact ⟨String.ofList [c], by simp [← String.toList_inj]⟩
    · exact ⟨String.ofList (['\\', 'x'] ++ hexByte c.toNat), by simp [← String.toList_inj]⟩

/-- A character constant that is too large for C, wherever in a program it stands, is never
without a diagnostic. So every one of a program without diagnostics is written as a constant of
C between quotes, which stands for that very character. -/
theorem Program.characters_reported (p : Program) :
    ((∃ c ∈ p.characters, maxCharacter < c) → p.diagnostics ≠ []) ∧
    (p.diagnostics = [] → ∀ c ∈ p.characters,
      (∃ inside, charLiteral c = "'" ++ inside ++ "'") ∧
      characterConstant? (charLiteral c).toList = some c ∧
      ∃ line ∈ (p.emit .fresh).lines.toList, (charLiteral c).toList <:+: line.toList) := by
  refine ⟨fun ⟨c, member, large⟩ clean => ?_, fun clean c member => ?_⟩
  · exact absurd (characters_fit clean c member) (Char.not_le.mpr large)
  · have small := characters_fit clean c member
    exact ⟨charLiteral_quoted small, characterConstant?_charLiteral small,
      Item.characters_shown false p.items p.preamble c member⟩

/-- Characters in a loop head, in an argument and behind a sign, up to the largest one. -/
theorem Program.characters_reported_deep :
    let step : Assign := ⟨"x", .call "f" [.character 'b']⟩
    let p (last : Char) : Program := ⟨[.function ⟨"f", [⟨"x", .character⟩], .character,
      [.whileDo (.not (.boolean true)) [.forDo [⟨"x", .character 'a'⟩] none [step]
        [.ret (some (.character last))]]]⟩]⟩
    (p '\xff').characters = ['a', 'b', '\xff'] ∧
    ((∃ c ∈ (p 'Ā').characters, maxCharacter < c) ∧ (p 'Ā').diagnostics ≠ []) ∧
    ((p '\xff').diagnostics = [] ∧
      ∃ line ∈ ((p '\xff').emit .fresh).lines.toList, "'\\xff'".toList <:+: line.toList) := by
  intro step p
  have large : ∃ c ∈ (p 'Ā').characters, maxCharacter < c := ⟨'Ā', by decide, by decide⟩
  have clean : (p '\xff').diagnostics = [] := by decide
  have last : '\xff' ∈ (p '\xff').characters := by decide
  exact ⟨by decide, ⟨large, (p 'Ā').characters_reported.1 large⟩, clean,
    ((p '\xff').characters_reported.2 clean '\xff' last).2.2⟩

end Caju
