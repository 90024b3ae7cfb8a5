import Caju.Proofs.LineText

/-! The block structure of generated C. Lines are grouped into blocks by their braces
alone: a line that ends in an opening brace opens a block, and one that starts with a
closing brace closes one. The lines written for statements group to the forest of these
statements, with four blanks of indentation for each block around a line. -/

namespace Caju

namespace C

/-- Lines in groups. A block goes by the line that opens it. -/
inductive Node where
  | leaf (text : String)
  | block (head : String) (body : List Node)
  deriving Inhabited

/-- A block whose end has not been read: the line that opened it, and what came before it. -/
structure Opened where
  head : String
  before : List Node

/-- How far lines have been grouped: what the innermost open block holds by now, and the
open blocks from the innermost on. -/
structure Grouping where
  nodes : List Node
  opened : List Opened

/-- The number of blanks that a line starts with. -/
def blanks (line : String) : Nat := (line.toList.takeWhile (· == ' ')).length

/-- A line without the blanks that it starts with. -/
def unindented (line : String) : List Char := line.toList.dropWhile (· == ' ')

namespace Grouping

def close? (g : Grouping) : Option Grouping :=
  match g.opened with
  | [] => none
  | latest :: rest => some ⟨latest.before ++ [.block latest.head g.nodes], rest⟩

/-- Takes in a line. It is refused if there is no block for it to close, or if it is not
indented by four blanks for each block around it, beyond those of the given level. -/
def step (level : Nat) (g : Grouping) (line : String) : Option Grouping :=
  let text := unindented line
  let closes := text.head? == some '\x7d'
  let opens := text.getLast? == some '\x7b'
  match if closes then g.close? else some g with
  | none => none
  | some outer =>
    if blanks line ≠ 4 * (level + outer.opened.length) then none
    else if opens then some ⟨[], ⟨String.ofList text, outer.nodes⟩ :: outer.opened⟩
    else if closes then some outer
    else some { outer with nodes := outer.nodes ++ [.leaf (String.ofList text)] }

def run (level : Nat) (g : Grouping) : List String → Option Grouping
  | [] => some g
  | line :: rest =>
    match g.step level line with
    | none => none
    | some next => next.run level rest

end Grouping

/-- Groups lines into a forest. Blocks that stay open are refused. -/
def group (level : Nat) (lines : List String) : Option (List Node) :=
  match Grouping.run level ⟨[], []⟩ lines with
  | some ⟨nodes, []⟩ => some nodes
  | _ => none

end C

open C

namespace Stmt

mutual

/-- The names in a statement. -/
def names : Stmt → List String
  | .declare decl => decl.names
  | .assign step => step.names
  | .call callee args => callee :: Expr.namesAll args
  | .ifElse condition yes none => condition.names ++ namesAll yes
  | .ifElse condition yes (some no) => condition.names ++ (namesAll yes ++ namesAll no)
  | .whileDo condition body => condition.names ++ namesAll body
  | .forDo start condition step body =>
    (start.flatMap Assign.names ++ condition.toList.flatMap Expr.names ++
      step.flatMap Assign.names) ++ namesAll body
  | .forEach _ name container body => name :: container :: namesAll body
  | .ret value => value.toList.flatMap Expr.names

def namesAll : List Stmt → List String
  | [] => []
  | stmt :: rest => stmt.names ++ namesAll rest

end

mutual

/-- The number of `para cada` loops in a statement. -/
def eachLoops : Stmt → Nat
  | .ifElse _ yes none => eachLoopsAll yes
  | .ifElse _ yes (some no) => eachLoopsAll yes + eachLoopsAll no
  | .whileDo _ body => eachLoopsAll body
  | .forDo _ _ _ body => eachLoopsAll body
  | .forEach _ _ _ body => 1 + eachLoopsAll body
  | _ => 0

def eachLoopsAll : List Stmt → Nat
  | [] => 0
  | stmt :: rest => stmt.eachLoops + eachLoopsAll rest

end

mutual

/-- The forest that a statement is to be in C, after so many `para cada` loops. -/
def forest (inEntryPoint : Bool) (loops : Nat) : Stmt → List Node
  | .declare ⟨.function params result, names⟩ =>
    names.map fun name => .leaf ((Ty.function params result).declarator (ident name) ++ ";")
  | .declare ⟨ty, names⟩ =>
    [.leaf (ty.cType ++ " " ++ ", ".intercalate (names.map (declared ty)) ++ ";")]
  | .assign step => [.leaf (step.cText ++ ";")]
  | .call callee args => [.leaf (C.call callee (Expr.cTexts args) ++ ";")]
  | .ifElse condition yes none =>
    [.block ("if (" ++ condition.cText ++ ")" ++ " \x7b") (forestAll inEntryPoint loops yes)]
  | .ifElse condition yes (some no) =>
    [.block ("if (" ++ condition.cText ++ ")" ++ " \x7b") (forestAll inEntryPoint loops yes),
      .block "\x7d else \x7b" (forestAll inEntryPoint (loops + eachLoopsAll yes) no)]
  | .whileDo condition body =>
    [.block ("while (" ++ condition.cText ++ ")" ++ " \x7b") (forestAll inEntryPoint loops body)]
  | .forDo start condition step body =>
    [.block (forHead start condition step ++ " \x7b") (forestAll inEntryPoint loops body)]
  | .forEach ty name container body =>
    [.block (forEachHead (loopIndex loops) (ident container) ++ " \x7b")
      (.leaf (ty.declarator (ident name) ++ " = " ++ ident container ++ ".data[" ++
          loopIndex loops ++ "];") ::
        forestAll inEntryPoint (loops + 1) body)]
  | .ret value => [.leaf (returnLine inEntryPoint value)]

def forestAll (inEntryPoint : Bool) (loops : Nat) : List Stmt → List Node
  | [] => []
  | stmt :: rest =>
    stmt.forest inEntryPoint loops ++ forestAll inEntryPoint (loops + stmt.eachLoops) rest

end

end Stmt

namespace C

/-- The lines of a declaration are the leaves that its forest has. -/
theorem map_leaf_declarationLines (decl : VarDecl) (inEntryPoint : Bool) (loops : Nat) :
    (declarationLines decl).map .leaf = (Stmt.declare decl).forest inEntryPoint loops := by
  obtain ⟨ty, names⟩ := decl
  cases ty with
  | function params result => simp [declarationLines, Stmt.forest]
  | _ => rfl

/-- A line after its indentation is the text that was indented. -/
theorem unindented_indented {text : String} {c : Char} {more : List Char}
    (spelled : text.toList = c :: more) (visible : c ≠ ' ') (depth : Nat) :
    blanks (Emitter.indented depth text) = 4 * depth ∧
      unindented (Emitter.indented depth text) = text.toList := by
  have line : (Emitter.indented depth text).toList =
      List.replicate (4 * depth) ' ' ++ c :: more := by
    simp [Emitter.indented, spelled]
  constructor
  · rw [blanks, line, List.takeWhile_append_of_pos (by simp)]
    simp [visible]
  · rw [unindented, line, List.dropWhile_append_of_pos (by simp), spelled]
    simp [visible]

namespace Grouping

private theorem step_indented {text : String} {c : Char} {more : List Char}
    (spelled : text.toList = c :: more) (visible : c ≠ ' ') (level depth : Nat) (g : Grouping) :
    g.step level (Emitter.indented depth text) =
      match if c == '\x7d' then g.close? else some g with
      | none => none
      | some outer =>
        if 4 * depth ≠ 4 * (level + outer.opened.length) then none
        else if text.toList.getLast? == some '\x7b' then
          some ⟨[], ⟨text, outer.nodes⟩ :: outer.opened⟩
        else if c == '\x7d' then some outer
        else some { outer with nodes := outer.nodes ++ [.leaf text] } := by
  obtain ⟨counted, rest⟩ := unindented_indented spelled visible depth
  have first : text.toList.head? = some c := by rw [spelled]; rfl
  simp only [step, counted, rest, first, String.ofList_toList]
  rfl

private theorem visible_of_beginsOperand {c : Char} (begins : beginsOperand c = true) :
    c ≠ ' ' ∧ (c == '\x7d') = false := by
  constructor
  · rintro rfl
    simp [beginsOperand, isWordRest, isNondigit] at begins
  · rw [beq_eq_false_iff_ne]
    rintro rfl
    simp [beginsOperand, isWordRest, isNondigit] at begins

theorem step_leaf {text : String} (leaf : LeafText text) (level : Nat) (g : Grouping) :
    g.step level (Emitter.indented (level + g.opened.length) text) =
      some { g with nodes := g.nodes ++ [.leaf text] } := by
  obtain ⟨c, more, spelled, begins⟩ := leaf.begins
  obtain ⟨visible, keeps⟩ := visible_of_beginsOperand begins
  rw [step_indented spelled visible, keeps, leaf.ends]
  simp

theorem step_open {head : String} (starts : LineText head) (level : Nat) (g : Grouping) :
    g.step level (Emitter.indented (level + g.opened.length) (head ++ " \x7b")) =
      some ⟨[], ⟨head ++ " \x7b", g.nodes⟩ :: g.opened⟩ := by
  obtain ⟨c, more, spelled, first⟩ := starts.begins.append " \x7b"
  obtain ⟨visible, keeps⟩ := visible_of_beginsOperand first
  rw [step_indented spelled visible, keeps]
  simp

theorem step_close (level : Nat) (latest : Opened) (opened : List Opened) (nodes : List Node) :
    step level ⟨nodes, latest :: opened⟩ (Emitter.indented (level + opened.length) "\x7d") =
      some ⟨latest.before ++ [.block latest.head nodes], opened⟩ := by
  rw [step_indented (by decide : "\x7d".toList = '\x7d' :: []) (by decide)]
  simp [close?]

theorem step_else (level : Nat) (latest : Opened) (opened : List Opened) (nodes : List Node) :
    step level ⟨nodes, latest :: opened⟩
        (Emitter.indented (level + opened.length) ("\x7d else" ++ " \x7b")) =
      some ⟨[], ⟨"\x7d else \x7b", latest.before ++ [.block latest.head nodes]⟩ :: opened⟩ := by
  rw [step_indented (by decide : ("\x7d else" ++ " \x7b").toList = '\x7d' :: " else \x7b".toList)
    (by decide)]
  simp [close?]

theorem run_append {level : Nat} {first second : List String} {g next : Grouping}
    (ran : g.run level first = some next) :
    g.run level (first ++ second) = next.run level second := by
  induction first generalizing g with
  | nil =>
    cases ran
    rfl
  | cons line rest ih =>
    rw [List.cons_append, run]
    rw [run] at ran
    cases stepped : g.step level line with
    | none => simp [stepped] at ran
    | some middle =>
      rw [stepped] at ran
      exact ih ran

end Grouping

/-- Writing that adds whole lines and counts loops, and does nothing else; taken in one by
one, the lines lead from one grouping to another. -/
def Writes (level : Nat) (e after : Emitter) (loops : Nat) (g next : Grouping) : Prop :=
  ∃ lines : List String,
    after = { e with lines := e.lines ++ lines.toArray, loops := e.loops + loops } ∧
    (∀ line ∈ lines, OneLine line) ∧ g.run level lines = some next

namespace Writes

theorem refl (level : Nat) (e : Emitter) (g : Grouping) : Writes level e e 0 g g :=
  ⟨[], by simp, by simp, rfl⟩

theorem trans {level : Nat} {e middle after : Emitter} {loops more : Nat}
    {g next last : Grouping} (first : Writes level e middle loops g next)
    (second : Writes level middle after more next last) :
    Writes level e after (loops + more) g last := by
  obtain ⟨lines, rfl, one, ran⟩ := first
  obtain ⟨others, rfl, other, ranOn⟩ := second
  refine ⟨lines ++ others, ?_, List.forall_mem_append.mpr ⟨one, other⟩, ?_⟩
  · simp [Nat.add_assoc]
  · rw [Grouping.run_append ran, ranOn]

theorem line {level : Nat} {e : Emitter} {text : String} {g next : Grouping}
    (one : OneLine text) (stepped : g.step level (Emitter.indented e.indent text) = some next) :
    Writes level e (e.line text) 0 g next := by
  have indented : OneLine (Emitter.indented e.indent text) := by
    refine OneLine.append ?_ one
    simp [OneLine]
  refine ⟨[Emitter.indented e.indent text], ?_, by simpa using indented, ?_⟩
  · simp [Emitter.line]
  · simp [Grouping.run, stepped]

theorem deeper {level loops : Nat} {e : Emitter} {write : Emitter → Emitter} {g next : Grouping}
    (inner : Writes level { e with indent := e.indent + 1 }
      (write { e with indent := e.indent + 1 }) loops g next) :
    Writes level e (e.deeper write) loops g next := by
  obtain ⟨lines, written, one, ran⟩ := inner
  refine ⟨lines, ?_, one, ran⟩
  rw [Emitter.deeper, written]
  rfl

theorem kept {level loops : Nat} {e after : Emitter} {g next : Grouping}
    (writes : Writes level e after loops g next) :
    after.indent = e.indent ∧ after.inEntryPoint = e.inEntryPoint ∧
      after.loops = e.loops + loops := by
  obtain ⟨lines, rfl, _, _⟩ := writes
  exact ⟨rfl, rfl, rfl⟩

end Writes

/-- Writing that lays out a forest wherever the emitter is: at any indentation, with any
blocks open around it, and with any lines before it. -/
def Lays (write : Emitter → Emitter) (loops : Nat) (forest : Bool → Nat → List Node) : Prop :=
  ∀ level (e : Emitter) (g : Grouping), e.indent = level + g.opened.length →
    Writes level e (write e) loops g
      { g with nodes := g.nodes ++ forest e.inEntryPoint e.loops }

theorem lays_nothing : Lays (fun e => e) 0 fun _ _ => [] := by
  intro level e g _
  simpa using Writes.refl level e g

theorem Lays.andThen {first second : Emitter → Emitter} {loops more : Nat}
    {before behind : Bool → Nat → List Node} (one : Lays first loops before)
    (other : Lays second more behind) :
    Lays (fun e => second (first e)) (loops + more) fun inEntryPoint count =>
      before inEntryPoint count ++ behind inEntryPoint (count + loops) := by
  intro level e g indent
  have front := one level e g indent
  obtain ⟨sameIndent, sameEntry, counted⟩ := front.kept
  have back := other level (first e) { g with nodes := g.nodes ++ before e.inEntryPoint e.loops }
    (sameIndent.trans indent)
  rw [sameEntry, counted] at back
  simpa using front.trans back

theorem lays_line {text : String} (leaf : LeafText text) :
    Lays (fun e => e.line text) 0 fun _ _ => [.leaf text] := by
  intro level e g indent
  exact Writes.line leaf.oneLine (indent ▸ Grouping.step_leaf leaf level g)

theorem lays_lines {texts : List String} (leaves : ∀ text ∈ texts, LeafText text) :
    Lays (fun e => e.writeLines texts) 0 fun _ _ => texts.map .leaf := by
  induction texts with
  | nil => exact lays_nothing
  | cons text rest ih =>
    obtain ⟨leaf, others⟩ := List.forall_mem_cons.mp leaves
    exact (lays_line leaf).andThen (ih others)

/-- A block that is opened holds what its body lays out. -/
theorem Lays.openBlock {write : Emitter → Emitter} {loops : Nat}
    {forest : Bool → Nat → List Node} (body : Lays write loops forest) {head : String}
    (one : OneLine head) {level : Nat} {e : Emitter} {g : Grouping} {latest : Opened}
    {opened : List Opened}
    (stepped : g.step level (Emitter.indented e.indent (head ++ " \x7b")) =
      some ⟨[], latest :: opened⟩)
    (indent : e.indent = level + opened.length) :
    Writes level e (e.openBlock head write) loops g
      ⟨forest e.inEntryPoint e.loops, latest :: opened⟩ := by
  have opening := Writes.line (one.append (by decide)) stepped
  have inner := Writes.deeper (body level
    { e.line (head ++ " \x7b") with indent := e.indent + 1 } ⟨[], latest :: opened⟩
    (by simp [indent, Nat.add_assoc]))
  have whole := opening.trans inner
  rwa [Nat.zero_add] at whole

/-- The last brace of a block puts it behind what came before it. -/
theorem Writes.close {level loops : Nat} {e after : Emitter} {g : Grouping} {nodes : List Node}
    {latest : Opened} {opened : List Opened}
    (inside : Writes level e after loops g ⟨nodes, latest :: opened⟩)
    (indent : e.indent = level + opened.length) :
    Writes level e (after.line "\x7d") loops g
      ⟨latest.before ++ [.block latest.head nodes], opened⟩ := by
  have depth := inside.kept.1.trans indent
  have closing : Writes level after (after.line "\x7d") 0 ⟨nodes, latest :: opened⟩
      ⟨latest.before ++ [.block latest.head nodes], opened⟩ :=
    Writes.line (by decide) (depth ▸ Grouping.step_close level latest opened nodes)
  exact inside.trans closing

theorem Lays.block {write : Emitter → Emitter} {loops : Nat} {forest : Bool → Nat → List Node}
    (body : Lays write loops forest) {head : String} (starts : LineText head) :
    Lays (fun e => e.block head write) loops fun inEntryPoint count =>
      [.block (head ++ " \x7b") (forest inEntryPoint count)] := by
  intro level e g indent
  have opening := indent ▸ Grouping.step_open starts level g
  exact (body.openBlock starts.oneLine opening indent).close indent

/-- Two branches: the line between them closes the first block and opens the second. -/
theorem Lays.branches {yes no : Emitter → Emitter} {loops more : Nat}
    {first second : Bool → Nat → List Node} (one : Lays yes loops first)
    (other : Lays no more second) {head : String} (starts : LineText head) :
    Lays (fun e => (e.openBlock head yes).block "\x7d else" no) (loops + more)
      fun inEntryPoint count =>
        [.block (head ++ " \x7b") (first inEntryPoint count),
          .block "\x7d else \x7b" (second inEntryPoint (count + loops))] := by
  intro level e g indent
  have opening := indent ▸ Grouping.step_open starts level g
  have taken := one.openBlock starts.oneLine opening indent
  obtain ⟨sameIndent, sameEntry, counted⟩ := taken.kept
  have depth := sameIndent.trans indent
  -- The first block is still open here: no brace of its own has been written.
  have between := depth ▸ Grouping.step_else level ⟨head ++ " \x7b", g.nodes⟩ g.opened
    (first e.inEntryPoint e.loops)
  have otherwise := other.openBlock (by decide) between depth
  rw [sameEntry, counted] at otherwise
  simpa [Emitter.block] using (taken.trans otherwise).close indent

end C

/-- A loop over an array first counts itself. -/
private theorem Lays.counted {write : Nat → Emitter → Emitter} {loops : Nat}
    {forest : Nat → Bool → Nat → List Node}
    (body : ∀ index, Lays (write index) loops (forest index)) :
    Lays (fun e => write e.loops { e with loops := e.loops + 1 }) (1 + loops)
      fun inEntryPoint count => forest count inEntryPoint (count + 1) := by
  intro level e g indent
  obtain ⟨lines, written, one, ran⟩ := body e.loops level { e with loops := e.loops + 1 } g indent
  refine ⟨lines, ?_, one, ran⟩
  dsimp only
  rw [written]
  simp [Nat.add_assoc]

mutual

/-- A statement lays out its forest. -/
theorem Stmt.lays : ∀ stmt : Stmt, (∀ name ∈ stmt.names, isIdentifier name = true) →
    Lays stmt.emit stmt.eachLoops fun inEntryPoint loops => stmt.forest inEntryPoint loops
  | .declare decl, named => by
    intro level e g indent
    have written := lays_lines (leafText_declarationLines decl named) level e g indent
    rwa [map_leaf_declarationLines decl e.inEntryPoint e.loops] at written
  | .assign step, named => lays_line (step.lineText named).leaf
  | .call callee args, named => by
    obtain ⟨identifier, others⟩ := List.forall_mem_cons.mp named
    have front : LineText (C.call callee (Expr.cTexts args)) :=
      ⟨begins_call identifier _, oneLine_call identifier (Expr.eachOneLine args others)⟩
    exact lays_line front.leaf
  | .ifElse condition yes none, named => by
    obtain ⟨namedCondition, namedYes⟩ := List.forall_mem_append.mp named
    have keyword : LineText "if (" := lineText_spelled (by decide)
    exact (Stmt.laysAll yes namedYes).block (lineText_condition keyword namedCondition)
  | .ifElse condition yes (some no), named => by
    obtain ⟨namedCondition, namedBranches⟩ := List.forall_mem_append.mp named
    obtain ⟨namedYes, namedNo⟩ := List.forall_mem_append.mp namedBranches
    have keyword : LineText "if (" := lineText_spelled (by decide)
    exact (Stmt.laysAll yes namedYes).branches (Stmt.laysAll no namedNo)
      (lineText_condition keyword namedCondition)
  | .whileDo condition body, named => by
    obtain ⟨namedCondition, namedBody⟩ := List.forall_mem_append.mp named
    have keyword : LineText "while (" := lineText_spelled (by decide)
    exact (Stmt.laysAll body namedBody).block (lineText_condition keyword namedCondition)
  | .forDo start condition step body, named => by
    obtain ⟨namedHead, namedBody⟩ := List.forall_mem_append.mp named
    exact (Stmt.laysAll body namedBody).block (lineText_forHead namedHead)
  | .forEach ty name container body, named => by
    obtain ⟨identifier, others⟩ := List.forall_mem_cons.mp named
    obtain ⟨array, namedBody⟩ := List.forall_mem_cons.mp others
    have pass := fun index => ((lays_line (leafText_binding ty identifier array index)).andThen
      (Stmt.laysAll body namedBody)).block
        (lineText_forEachHead (oneLine_loopIndex index) (oneLine_ident array))
    simp only [Nat.zero_add] at pass
    -- The number in the head is that of this loop, and the loops within it come after.
    exact Lays.counted pass
  | .ret value, named => by
    intro level e g indent
    exact lays_line (leafText_returnLine e.inEntryPoint value named) level e g indent

theorem Stmt.laysAll : ∀ stmts : List Stmt,
    (∀ name ∈ Stmt.namesAll stmts, isIdentifier name = true) →
    Lays (Stmt.emitAll stmts) (Stmt.eachLoopsAll stmts) fun inEntryPoint loops =>
      Stmt.forestAll inEntryPoint loops stmts
  | [], _ => lays_nothing
  | stmt :: rest, named => by
    obtain ⟨namedFirst, namedRest⟩ := List.forall_mem_append.mp named
    exact (stmt.lays namedFirst).andThen (Stmt.laysAll rest namedRest)

end

theorem C.Writes.text_eq {level loops : Nat} {e after : Emitter} {g next : Grouping}
    (writes : Writes level e after loops g next) :
    ∃ lines, after.text = e.text ++ String.join (lines.map (· ++ "\n")) ∧
      (∀ line ∈ lines, '\n' ∉ line.toList) ∧ g.run level lines = some next := by
  obtain ⟨lines, rfl, one, ran⟩ := writes
  refine ⟨lines, ?_, one, ran⟩
  simp [Emitter.text, Emitter.foldl_lines]

/-- Statements become lines that are added to what was written. By their braces the lines
group to the forest of the statements, and each is indented by its depth. Indentation
and kind of function are then as they were. -/
theorem Stmt.emitAll_keeps_blocks (stmts : List Stmt)
    (named : ∀ name ∈ Stmt.namesAll stmts, isIdentifier name = true) (e : Emitter) :
    ∃ lines : List String,
      (Stmt.emitAll stmts e).text = e.text ++ String.join (lines.map (· ++ "\n")) ∧
      (∀ line ∈ lines, '\n' ∉ line.toList) ∧
      (Stmt.emitAll stmts e).indent = e.indent ∧
      (Stmt.emitAll stmts e).inEntryPoint = e.inEntryPoint ∧
      group e.indent lines = some (Stmt.forestAll e.inEntryPoint e.loops stmts) := by
  have writes := Stmt.laysAll stmts named e.indent e ⟨[], []⟩ rfl
  obtain ⟨sameIndent, sameEntry, _⟩ := writes.kept
  obtain ⟨lines, text, one, ran⟩ := writes.text_eq
  refine ⟨lines, text, one, sameIndent, sameEntry, ?_⟩
  simp [group, ran]

/-- Braces in a constant and in the value of an array open and close nothing. -/
theorem Stmt.emitAll_keeps_blocks_braces :
    let stmts : List Stmt :=
      [.declare ⟨.array .number, ["xs"]⟩,
        .ifElse (.binary .eq (.var "c") (.character '\x7b'))
          [.forEach .number "x" "xs" [.call "f" [.character '\x7d']]] (some [.ret none])]
    let e : Emitter := ⟨#["int main(void) \x7b"], 1, 2, true⟩
    (∀ name ∈ Stmt.namesAll stmts, isIdentifier name = true) ∧
    ∃ lines : List String,
      (Stmt.emitAll stmts e).text = e.text ++ String.join (lines.map (· ++ "\n")) ∧
      (∀ line ∈ lines, '\n' ∉ line.toList) ∧
      (Stmt.emitAll stmts e).indent = 1 ∧ (Stmt.emitAll stmts e).inEntryPoint = true ∧
      group 1 lines = some
        [.leaf "caju_array_int xs = \x7b0\x7d;",
          .block "if (c == '\x7b') \x7b"
            [.block "for (int caju_i2 = 0; caju_i2 < xs.length; caju_i2++) \x7b"
              [.leaf "int x = xs.data[caju_i2];", .leaf "f('\x7d');"]],
          .block "\x7d else \x7b" [.leaf "return 0;"]] := by
  refine ⟨by decide, ?_⟩
  exact Stmt.emitAll_keeps_blocks
    [.declare ⟨.array .number, ["xs"]⟩,
      .ifElse (.binary .eq (.var "c") (.character '\x7b'))
        [.forEach .number "x" "xs" [.call "f" [.character '\x7d']]] (some [.ret none])]
    (by decide) ⟨#["int main(void) \x7b"], 1, 2, true⟩

end Caju
