import Caju.Proofs.ReturnLines
import Caju.Session

/-! Runs that leave no trace in later ones. The generator keeps its counters between runs, and
what it writes may depend on them only until the next function resets them; so everything
rests on writing being the same behind whatever lines there are already. Main statement: a
session answers every call as a fresh one would, and a function is written the same behind
anything (`Session.answers_fresh`). -/

namespace Caju

open C

namespace C.Emitter

/-- The emitter with other lines in front of what it has written. -/
def behind (front : Array String) (e : Emitter) : Emitter := { e with lines := front ++ e.lines }

/-- Writing that takes no notice of the lines that are there already. -/
def Local (write : Emitter → Emitter) : Prop :=
  ∀ front e, write (e.behind front) = (write e).behind front

namespace Local

variable {write next : Emitter → Emitter}

theorem andThen (first : Local write) (second : Local next) : Local fun e => next (write e) := by
  intro front e
  show next (write (e.behind front)) = (next (write e)).behind front
  rw [first, second]

theorem line (text : String) : Local (line text) := by
  intro front e
  simp [Emitter.line, behind]

theorem writeLines (texts : List String) : Local (writeLines texts) := by
  induction texts with
  | nil => exact fun _ _ => rfl
  | cons text rest ih => exact (line text).andThen ih

theorem deeper (inner : Local write) : Local (deeper write) := by
  intro front e
  have indented := inner front { e with indent := e.indent + 1 }
  exact congrArg (fun after : Emitter => { after with indent := after.indent - 1 }) indented

theorem openBlock (head : String) (body : Local write) :
    Local fun e => e.openBlock head write :=
  (line _).andThen body.deeper

theorem block (head : String) (body : Local write) : Local fun e => e.block head write :=
  (body.openBlock head).andThen (line _)

end Local

theorem text_behind (front : Array String) (e : Emitter) :
    (e.behind front).text = String.join (front.toList.map (· ++ "\n")) ++ e.text := by
  rw [text_eq, text_eq, behind, Array.toList_append, List.map_append, String.join_append]

/-- Lines that are not indented are written as they are. -/
theorem writeLines_lines {e : Emitter} (outermost : e.indent = 0) (texts : List String) :
    (e.writeLines texts).lines = e.lines ++ texts.toArray := by
  induction texts generalizing e with
  | nil => simp [writeLines]
  | cons text rest ih =>
    have written : (e.line text).lines = e.lines.push text := by simp [line, indented, outermost]
    have stays : (e.line text).indent = 0 := outermost
    calc (e.writeLines (text :: rest)).lines
        = (e.line text).lines ++ rest.toArray := ih stays
      _ = e.lines ++ (text :: rest).toArray := by simp [written]

end C.Emitter

open Emitter

mutual

theorem Stmt.emit_local : ∀ stmt : Stmt, Local stmt.emit
  | .declare decl => by
    intro front e
    rw [Stmt.emit, Stmt.emit]
    exact Local.writeLines _ front e
  | .assign step => by
    intro front e
    rw [Stmt.emit, Stmt.emit]
    exact Local.line _ front e
  | .call callee args => by
    intro front e
    rw [Stmt.emit, Stmt.emit]
    exact Local.line _ front e
  | .ret value => by
    intro front e
    rw [Stmt.emit, Stmt.emit]
    exact Local.line _ front e
  | .ifElse condition yes none => by
    intro front e
    rw [Stmt.emit, Stmt.emit]
    exact (Stmt.emitAll_local yes).block _ front e
  | .ifElse condition yes (some no) => by
    intro front e
    rw [Stmt.emit, Stmt.emit]
    exact ((Stmt.emitAll_local yes).openBlock _).andThen ((Stmt.emitAll_local no).block _) front e
  | .whileDo condition body => by
    intro front e
    rw [Stmt.emit, Stmt.emit]
    exact (Stmt.emitAll_local body).block _ front e
  | .forDo start condition step body => by
    intro front e
    rw [Stmt.emit, Stmt.emit]
    exact (Stmt.emitAll_local body).block _ front e
  | .forEach ty name container body => by
    intro front e
    rw [Stmt.emit, Stmt.emit]
    -- the index is chosen before the loop is counted, from a number that is the same
    exact ((Local.line _).andThen (Stmt.emitAll_local body)).block _ front
      { e with loops := e.loops + 1 }

theorem Stmt.emitAll_local : ∀ stmts : List Stmt, Local (Stmt.emitAll stmts)
  | [] => by
    intro front e
    rw [Stmt.emitAll, Stmt.emitAll]
  | stmt :: rest => by
    intro front e
    rw [Stmt.emitAll, Stmt.emitAll, Stmt.emit_local stmt, Stmt.emitAll_local rest]

end

namespace Function

theorem emitBody_local (f : Function) : Local f.emitBody := by
  intro front e
  unfold emitBody
  rw [Stmt.emitAll_local]
  have same : ((Stmt.emitAll f.body e).behind front).inEntryPoint =
      (Stmt.emitAll f.body e).inEntryPoint := rfl
  by_cases flag : (Stmt.emitAll f.body e).inEntryPoint
  · simp only [same, flag, if_true]
    exact Local.line _ front _
  · simp only [same, flag, Bool.false_eq_true, if_false]

theorem emit_local (f : Function) : Local f.emit := by
  intro front e
  have block := (f.emitBody_local.block f.cSignature).andThen (Local.line "") front (f.started e)
  exact congrArg (fun after : Emitter => { after with inEntryPoint := false }) block

/-- A function begins with counters of its own, so those it is handed do not matter. -/
theorem emit_outermost (f : Function) (lines : Array String) (loops : Nat) (inEntryPoint : Bool) :
    f.emit ⟨lines, 0, loops, inEntryPoint⟩ = (f.emit .fresh).behind lines := by
  have restarted : f.emit ⟨lines, 0, loops, inEntryPoint⟩ =
      f.emit (Emitter.fresh.behind lines) := by
    have same : Emitter.fresh.behind lines = ⟨lines, 0, 0, false⟩ := by simp [behind, fresh]
    rw [same]
    rfl
  rw [restarted, f.emit_local]

/-- The lines of a function that is written on its own. -/
def lines (f : Function) : List String := (f.emit .fresh).lines.toList

theorem emit_indent (f : Function) (e : Emitter) : (f.emit e).indent = e.indent := by
  have body : ((f.started e).inside f.cSignature).Extends _ :=
    (Stmt.emitAll_extends f.body _).trans (f.emitBody_lines _)
  exact ((Extends.block body).trans (Extends.line _ "")).indent

theorem emit_lines_of_outermost (f : Function) {e : Emitter} (outermost : e.indent = 0) :
    (f.emit e).lines = e.lines ++ f.lines.toArray := by
  obtain ⟨before, indent, loops, inEntryPoint⟩ := e
  cases outermost
  rw [emit_outermost]
  simp [behind, lines]

end Function

namespace Item

/-- The lines that items are written as. A function has its own; only the blank line in front
of it depends on what comes before it. -/
def linesAll : Bool → List Item → List String
  | _, [] => []
  | _, .declare decl :: rest => declarationLines decl ++ linesAll true rest
  | afterVariables, .function f :: rest =>
    (if afterVariables then [""] else []) ++ f.lines ++ linesAll false rest

theorem emitAll_lines (afterVariables : Bool) (items : List Item) (e : Emitter)
    (outermost : e.indent = 0) :
    (Item.emitAll afterVariables items e).lines =
      e.lines ++ (linesAll afterVariables items).toArray := by
  fun_induction Item.emitAll afterVariables items e with
  | case1 => simp [linesAll]
  | case2 _ decl rest e ih =>
    have stays := (Extends.writeLines (declarationLines decl) e).indent.trans outermost
    rw [ih stays, writeLines_lines outermost]
    simp [linesAll]
  | case3 afterVariables f rest e ih =>
    have blank : (if afterVariables then e.line "" else e) =
        e.writeLines (if afterVariables then [""] else []) := by
      cases afterVariables <;> rfl
    rw [blank] at ih ⊢
    generalize separator : (if afterVariables then [""] else [] : List String) = lines at ih ⊢
    have stays := (Extends.writeLines lines e).indent.trans outermost
    rw [ih ((f.emit_indent _).trans stays), f.emit_lines_of_outermost stays,
      writeLines_lines outermost]
    simp [linesAll, separator]

end Item

namespace Program

/-- The lines above the items of a program. -/
def frontLines (p : Program) : List String :=
  ["/* Generated by cajuc */", "#include <stdbool.h>", ""] ++
    p.arrayTypes.flatMap Ty.structureLines ++ prototypeLines p.functions

theorem emit_lines_eq (p : Program) (e : Emitter) :
    (p.emit e).lines = (p.frontLines ++ Item.linesAll false p.items).toArray := by
  unfold emit
  dsimp only
  generalize opened : { e with lines := #[], indent := 0 } = start
  have outermost : start.indent = 0 := opened ▸ rfl
  have empty : start.lines = #[] := opened ▸ rfl
  have headed := (Extends.writeLines ["/* Generated by cajuc */", "#include <stdbool.h>", ""]
    start).indent.trans outermost
  have typed := (Extends.writeLines (p.arrayTypes.flatMap Ty.structureLines) _).indent.trans headed
  have declared := (Extends.writeLines (prototypeLines p.functions) _).indent.trans typed
  rw [Item.emitAll_lines _ _ _ declared, writeLines_lines typed, writeLines_lines headed,
    writeLines_lines outermost, empty]
  simp [frontLines]

theorem emit_text (p : Program) (e : Emitter) : (p.emit e).text = p.toC := by
  rw [toC, text_eq, text_eq, emit_lines_eq, emit_lines_eq]

end Program

namespace Session

/-- A call is answered from the program alone. -/
theorem perform_answer (session : Session) (call : Call) :
    (session.perform call).1 = (fresh.perform call).1 := by
  cases call with
  | analyze p => rfl
  | generate p =>
    have same : (p.emit session.emitter).text = (p.emit fresh.emitter).text := by
      rw [p.emit_text, p.emit_text]
    exact congrArg Answer.generated same

theorem answers_eq_map (session : Session) (calls : List Call) :
    session.answers calls = calls.map fun call => (fresh.perform call).1 := by
  induction calls generalizing session with
  | nil => rfl
  | cons call rest ih =>
    have first := session.perform_answer call
    have others := ih (session.perform call).2
    calc session.answers (call :: rest)
        = (session.perform call).1 :: (session.perform call).2.answers rest := rfl
      _ = (call :: rest).map fun call => (fresh.perform call).1 := by
        rw [first, others, List.map_cons]

end Session

/-- Nothing leaks between runs or functions. Whatever a session was used for before, it answers
every call as a fresh one does. Whatever was written before and wherever the counters stand, the
text that is added for a function is the text of that function alone; and a whole file is made
of such texts. -/
theorem Session.answers_fresh :
    (∀ (session : Session) (calls : List Session.Call),
      session.answers calls = calls.map fun call => (Session.fresh.perform call).1) ∧
    (∀ (f : Function) (lines : Array String) (loops : Nat) (inEntryPoint : Bool),
      (f.emit ⟨lines, 0, loops, inEntryPoint⟩).text =
        (Emitter.mk lines 0 loops inEntryPoint).text ++ (f.emit .fresh).text) ∧
    ∀ (p : Program) (e : Emitter),
      (p.emit e).lines.toList = p.frontLines ++ Item.linesAll false p.items := by
  refine ⟨answers_eq_map, ?_, ?_⟩
  · intro f lines loops inEntryPoint
    rw [f.emit_outermost, text_behind, text_eq ⟨lines, 0, loops, inEntryPoint⟩]
  · intro p e
    rw [p.emit_lines_eq]

end Caju
