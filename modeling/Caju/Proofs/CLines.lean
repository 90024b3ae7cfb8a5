import Caju.Proofs.BlockStructure
import Caju.Proofs.Isolation
import Caju.Proofs.Visits

/-! The lines of generated C, each by what it says. A line is known before it is a text: which
statement or declaration it comes from, and which loop it belongs to. What the generator writes
are the texts of these lines, whatever names a program has. -/

namespace Caju

namespace C

/-- Lines that are the same in every program. -/
def fixedTexts : List String :=
  ["/* Generated by cajuc */", "#include <stdbool.h>", "", "typedef struct \x7b", "    int length;",
   "\x7d", "\x7d else \x7b", "return 0;"]

/-- A line of generated C. Loops over arrays are numbered within their function. -/
inductive Line where
  | fixed (text : String) (known : text ∈ fixedTexts)
  | assign (step : Assign)
  | call (callee : String) (args : List Expr)
  | ret (inEntryPoint : Bool) (value : Option Expr)
  | ifHead (condition : Expr)
  | whileHead (condition : Expr)
  | forHead (start : List Assign) (condition : Option Expr) (step : List Assign)
  | eachHead (number : Nat) (container : String)
  | element (number : Nat) (ty : Ty) (name container : String)
  | shared (ty : Ty) (names : List String)
  | pointer (params : List Ty) (result : Ty) (name : String)
  | prototype (function : Function)
  | header (function : Function)
  | member (element : Ty)
  | defined (element : Ty)

namespace Line

def text : Line → String
  | fixed text _ => text
  | assign step => step.cText ++ ";"
  | call callee args => C.call callee (Expr.cTexts args) ++ ";"
  | ret inEntryPoint value => returnLine inEntryPoint value
  | ifHead condition => "if (" ++ condition.cText ++ ")" ++ " \x7b"
  | whileHead condition => "while (" ++ condition.cText ++ ")" ++ " \x7b"
  | forHead start condition step => C.forHead start condition step ++ " \x7b"
  | eachHead number container => forEachHead (loopIndex number) (ident container) ++ " \x7b"
  | element number ty name container =>
    ty.declarator (ident name) ++ " = " ++ ident container ++ ".data[" ++ loopIndex number ++ "];"
  | shared ty names => ty.cType ++ " " ++ ", ".intercalate (names.map (declared ty)) ++ ";"
  | pointer params result name => (Ty.function params result).declarator (ident name) ++ ";"
  | prototype f => f.cSignature ++ ";"
  | header f => f.cSignature ++ " \x7b"
  | member ty => "    " ++ ty.declarator "*data" ++ ";"
  | defined ty => "\x7d " ++ (Ty.array ty).cType ++ ";"

/-- The names of the program in a line. -/
def names : Line → List String
  | assign step => step.names
  | call callee args => callee :: Expr.namesAll args
  | ret _ value => value.toList.flatMap Expr.names
  | ifHead condition => condition.names
  | whileHead condition => condition.names
  | forHead start condition step =>
    start.flatMap Assign.names ++ condition.toList.flatMap Expr.names ++ step.flatMap Assign.names
  | eachHead _ container => [container]
  | element _ _ name container => [name, container]
  | shared _ names => names
  | pointer _ _ name => [name]
  | prototype f => f.name :: f.params.map Param.name
  | header f => f.name :: f.params.map Param.name
  | fixed .. | member _ | defined _ => []

def close : Line := fixed "\x7d" (by decide)

def otherwise : Line := fixed "\x7d else \x7b" (by decide)

def blank : Line := fixed "" (by decide)

def returnZero : Line := fixed "return 0;" (by decide)

end Line

/-- A line at its indentation. -/
structure Placed where
  level : Nat
  line : Line

def Placed.text (placed : Placed) : String := Emitter.indented placed.level placed.line.text

/-- Lines that are all at one level. -/
def placeAll (level : Nat) (lines : List Line) : List Placed := lines.map fun line => ⟨level, line⟩

namespace Emitter

/-- The emitter once it has written more lines and counted more loops. -/
def adding (e : Emitter) (placed : List Placed) (loops : Nat) : Emitter :=
  { e with lines := e.lines ++ (placed.map Placed.text).toArray, loops := e.loops + loops }

end Emitter

/-- Writing that adds lines and counts loops, and does nothing else. The lines depend on the
kind of function, on the level, and on how many loops there were. -/
def Adds (write : Emitter → Emitter) (loops : Nat) (placed : Bool → Nat → Nat → List Placed) :
    Prop :=
  ∀ e, write e = e.adding (placed e.inEntryPoint e.indent e.loops) loops

theorem adds_nothing : Adds (fun e => e) 0 fun _ _ _ => [] := by
  intro e
  simp [Emitter.adding]

theorem Adds.andThen {first second : Emitter → Emitter} {loops more : Nat}
    {before behind : Bool → Nat → Nat → List Placed} (one : Adds first loops before)
    (other : Adds second more behind) :
    Adds (fun e => second (first e)) (loops + more) fun inEntryPoint level count =>
      before inEntryPoint level count ++ behind inEntryPoint level (count + loops) := by
  intro e
  have back := other (first e)
  rw [one e] at back
  dsimp only
  rw [one e, back]
  simp [Emitter.adding, Nat.add_assoc]

theorem adds_line (line : Line) :
    Adds (fun e => e.line line.text) 0 fun _ level _ => [⟨level, line⟩] := by
  intro e
  simp [Emitter.adding, Emitter.line, Placed.text]

theorem adds_lines (lines : List Line) :
    Adds (fun e => e.writeLines (lines.map Line.text)) 0 fun _ level _ => placeAll level lines := by
  induction lines with
  | nil => exact adds_nothing
  | cons line rest ih => exact (adds_line line).andThen ih

theorem Adds.openBlock {write : Emitter → Emitter} {loops : Nat}
    {placed : Bool → Nat → Nat → List Placed} (body : Adds write loops placed) {head : String}
    (line : Line) (same : head ++ " \x7b" = line.text) :
    Adds (fun e => e.openBlock head write) loops fun inEntryPoint level count =>
      ⟨level, line⟩ :: placed inEntryPoint (level + 1) count := by
  intro e
  have inner := body { e.line (head ++ " \x7b") with indent := e.indent + 1 }
  have opened : e.openBlock head write = { write { e.line (head ++ " \x7b") with
      indent := e.indent + 1 } with indent := (write { e.line (head ++ " \x7b") with
      indent := e.indent + 1 }).indent - 1 } := rfl
  dsimp only
  rw [opened, inner]
  simp [Emitter.adding, Emitter.line, Placed.text, same]

theorem Adds.block {write : Emitter → Emitter} {loops : Nat}
    {placed : Bool → Nat → Nat → List Placed} (body : Adds write loops placed) {head : String}
    (line : Line) (same : head ++ " \x7b" = line.text) :
    Adds (fun e => e.block head write) loops fun inEntryPoint level count =>
      ⟨level, line⟩ :: placed inEntryPoint (level + 1) count ++ [⟨level, .close⟩] :=
  (body.openBlock line same).andThen (adds_line .close)

end C

open C

/-- The lines of a declaration. -/
def VarDecl.cLines : VarDecl → List Line
  | ⟨.function params result, names⟩ => names.map (.pointer params result)
  | ⟨ty, names⟩ => [.shared ty names]

theorem VarDecl.declarationLines_eq (decl : VarDecl) :
    declarationLines decl = decl.cLines.map Line.text := by
  obtain ⟨ty, names⟩ := decl
  cases ty with
  | function params result => simp [declarationLines, cLines, Line.text]
  | _ => rfl

/-- A declaration has one line, or one for each pointer to a function. -/
theorem VarDecl.each_line {P : Line → Prop} (decl : VarDecl) (shared : P (.shared decl.ty decl.names))
    (pointers : ∀ params result, decl.ty = .function params result →
      ∀ name ∈ decl.names, P (.pointer params result name)) : ∀ line ∈ decl.cLines, P line := by
  obtain ⟨ty, names⟩ := decl
  cases ty with
  | function params result => exact List.forall_mem_map.mpr (pointers params result rfl)
  | _ => exact List.forall_mem_singleton.mpr shared

namespace Stmt

mutual

/-- The lines of a statement, after so many loops over arrays. -/
def placed (inEntryPoint : Bool) (level loops : Nat) : Stmt → List Placed
  | .declare decl => placeAll level decl.cLines
  | .assign step => [⟨level, .assign step⟩]
  | .call callee args => [⟨level, .call callee args⟩]
  | .ifElse condition yes none =>
    ⟨level, .ifHead condition⟩ :: placedAll inEntryPoint (level + 1) loops yes ++ [⟨level, .close⟩]
  | .ifElse condition yes (some no) =>
    ⟨level, .ifHead condition⟩ :: placedAll inEntryPoint (level + 1) loops yes ++
      (⟨level, .otherwise⟩ :: placedAll inEntryPoint (level + 1) (loops + eachLoopsAll yes) no ++
        [⟨level, .close⟩])
  | .whileDo condition body =>
    ⟨level, .whileHead condition⟩ :: placedAll inEntryPoint (level + 1) loops body ++
      [⟨level, .close⟩]
  | .forDo start condition step body =>
    ⟨level, .forHead start condition step⟩ :: placedAll inEntryPoint (level + 1) loops body ++
      [⟨level, .close⟩]
  | .forEach ty name container body =>
    ⟨level, .eachHead loops container⟩ :: (⟨level + 1, .element loops ty name container⟩ ::
      placedAll inEntryPoint (level + 1) (loops + 1) body) ++ [⟨level, .close⟩]
  | .ret value => [⟨level, .ret inEntryPoint value⟩]

def placedAll (inEntryPoint : Bool) (level loops : Nat) : List Stmt → List Placed
  | [] => []
  | stmt :: rest =>
    placed inEntryPoint level loops stmt ++
      placedAll inEntryPoint level (loops + stmt.eachLoops) rest

end

/-- A loop over an array is counted before its body is written. -/
theorem adds_counted {write : Nat → Emitter → Emitter} {loops : Nat}
    {placed : Nat → Bool → Nat → Nat → List Placed}
    (body : ∀ number, Adds (write number) loops (placed number)) :
    Adds (fun e => write e.loops { e with loops := e.loops + 1 }) (1 + loops)
      fun inEntryPoint level count => placed count inEntryPoint level (count + 1) := by
  intro e
  have written := body e.loops { e with loops := e.loops + 1 }
  dsimp only
  rw [written]
  simp [Emitter.adding, Nat.add_assoc]

/-- The lines that a statement may have of its own, besides those of the statements inside it. -/
inductive Own : Stmt → Line → Prop where
  | declare {decl : VarDecl} {line : Line} : line ∈ decl.cLines → Own (.declare decl) line
  | assign (step : Assign) : Own (.assign step) (.assign step)
  | call (callee : String) (args : List Expr) : Own (.call callee args) (.call callee args)
  | ret (inEntryPoint : Bool) (value : Option Expr) : Own (.ret value) (.ret inEntryPoint value)
  | ifHead (condition : Expr) (yes : List Stmt) (no : Option (List Stmt)) :
      Own (.ifElse condition yes no) (.ifHead condition)
  | whileHead (condition : Expr) (body : List Stmt) :
      Own (.whileDo condition body) (.whileHead condition)
  | forHead (start : List Assign) (condition : Option Expr) (step : List Assign)
      (body : List Stmt) : Own (.forDo start condition step body) (.forHead start condition step)
  | eachHead (number : Nat) (ty : Ty) (name container : String) (body : List Stmt) :
      Own (.forEach ty name container body) (.eachHead number container)
  | element (number : Nat) (ty : Ty) (name container : String) (body : List Stmt) :
      Own (.forEach ty name container body) (.element number ty name container)
  | otherwise (stmt : Stmt) : Own stmt .otherwise
  | close (stmt : Stmt) : Own stmt .close

/-- Lines that all belong to statements among the given ones. -/
def Covers (stmts : List Stmt) (lines : List Placed) : Prop :=
  ∀ placed ∈ lines, ∃ stmt ∈ stmts, stmt.Own placed.line

namespace Covers

variable {stmts : List Stmt}

theorem mono {some : List Stmt} {lines : List Placed} (covers : Covers some lines)
    (among : ∀ stmt ∈ some, stmt ∈ stmts) : Covers stmts lines := by
  intro placed member
  obtain ⟨stmt, inside, own⟩ := covers placed member
  exact ⟨stmt, among stmt inside, own⟩

theorem append {front behind : List Placed} (one : Covers stmts front)
    (other : Covers stmts behind) : Covers stmts (front ++ behind) :=
  List.forall_mem_append.mpr ⟨one, other⟩

theorem single {stmt : Stmt} {placed : Placed} (member : stmt ∈ stmts)
    (own : stmt.Own placed.line) : Covers stmts [placed] :=
  List.forall_mem_singleton.mpr ⟨stmt, member, own⟩

theorem block {stmt : Stmt} {level : Nat} {head : Line} {body : List Placed} (member : stmt ∈ stmts)
    (first : stmt.Own head) (inside : Covers stmts body) :
    Covers stmts (⟨level, head⟩ :: body ++ [⟨level, .close⟩]) :=
  ((@single stmts stmt ⟨level, head⟩ member first).append inside).append
    (single member (.close stmt))

end Covers

section Parts

variable (inEntryPoint : Bool)

mutual

/-- Every line of a statement belongs to one of its parts. -/
theorem parts_cover : ∀ (stmt : Stmt) (level loops : Nat),
    Covers stmt.parts (stmt.placed inEntryPoint level loops)
  | .declare _, _, _ => List.forall_mem_map.mpr fun _ member =>
    ⟨_, List.mem_cons_self, .declare member⟩
  | .assign step, _, _ => .single List.mem_cons_self (.assign step)
  | .call callee args, _, _ => .single List.mem_cons_self (.call callee args)
  | .ret value, _, _ => .single List.mem_cons_self (.ret inEntryPoint value)
  | .ifElse condition yes none, level, loops => by
    have inside := partsAll_cover yes (level + 1) loops
    refine .block List.mem_cons_self (.ifHead condition yes none) (inside.mono fun stmt member => ?_)
    exact List.mem_cons_of_mem _ member
  | .ifElse condition yes (some no), level, loops => by
    have first := partsAll_cover yes (level + 1) loops
    have second := partsAll_cover no (level + 1) (loops + eachLoopsAll yes)
    have head := @Covers.single (Stmt.ifElse condition yes (some no)).parts _
      ⟨level, .ifHead condition⟩ List.mem_cons_self (.ifHead condition yes (some no))
    refine (head.append (first.mono fun stmt member => ?_)).append
      (.block List.mem_cons_self (.otherwise _) (second.mono fun stmt member => ?_))
    · exact List.mem_cons_of_mem _ (List.mem_append_left _ member)
    · exact List.mem_cons_of_mem _ (List.mem_append_right _ member)
  | .whileDo condition body, level, loops => by
    have inside := partsAll_cover body (level + 1) loops
    refine .block List.mem_cons_self (.whileHead condition body) (inside.mono fun stmt member => ?_)
    exact List.mem_cons_of_mem _ member
  | .forDo start condition step body, level, loops => by
    have inside := partsAll_cover body (level + 1) loops
    refine .block List.mem_cons_self (.forHead start condition step body)
      (inside.mono fun stmt member => ?_)
    exact List.mem_cons_of_mem _ (List.mem_append_right _ member)
  | .forEach ty name container body, level, loops => by
    have inside := partsAll_cover body (level + 1) (loops + 1)
    have binding := @Covers.single (Stmt.forEach ty name container body).parts _
      ⟨level + 1, .element loops ty name container⟩ List.mem_cons_self
      (.element loops ty name container body)
    refine .block List.mem_cons_self (.eachHead loops ty name container body)
      (binding.append (inside.mono fun stmt member => ?_))
    exact List.mem_cons_of_mem _ member

theorem partsAll_cover : ∀ (stmts : List Stmt) (level loops : Nat),
    Covers (partsAll stmts) (placedAll inEntryPoint level loops stmts)
  | [], _, _ => List.forall_mem_nil _
  | stmt :: rest, level, loops =>
    ((parts_cover stmt level loops).mono fun _ member => List.mem_append_left _ member).append
      ((partsAll_cover rest level (loops + stmt.eachLoops)).mono fun _ member =>
        List.mem_append_right _ member)

end

end Parts

mutual

/-- The names in a part of a statement are names in the statement. -/
theorem names_parts : ∀ stmt : Stmt, ∀ part ∈ stmt.parts, ∀ name ∈ part.names, name ∈ stmt.names
  | .declare _ => List.forall_mem_singleton.mpr fun _ member => member
  | .assign _ => List.forall_mem_singleton.mpr fun _ member => member
  | .call _ _ => List.forall_mem_singleton.mpr fun _ member => member
  | .ret _ => List.forall_mem_singleton.mpr fun _ member => member
  | .ifElse _ yes none => by
    refine List.forall_mem_cons.mpr ⟨fun _ member => member, fun part inside name member => ?_⟩
    exact List.mem_append_right _ (names_partsAll yes part inside name member)
  | .ifElse _ yes (some no) => by
    refine List.forall_mem_cons.mpr ⟨fun _ member => member, List.forall_mem_append.mpr
      ⟨fun part inside name member => ?_, fun part inside name member => ?_⟩⟩
    · have own := names_partsAll yes part inside name member
      exact List.mem_append_right _ (List.mem_append_left _ own)
    · have own := names_partsAll no part inside name member
      exact List.mem_append_right _ (List.mem_append_right _ own)
  | .whileDo _ body => by
    refine List.forall_mem_cons.mpr ⟨fun _ member => member, fun part inside name member => ?_⟩
    exact List.mem_append_right _ (names_partsAll body part inside name member)
  | .forDo start condition step body => by
    have first : ∀ part ∈ start.map Stmt.assign, ∀ name ∈ part.names,
        name ∈ start.flatMap Assign.names :=
      List.forall_mem_map.mpr fun assign inside name member =>
        List.mem_flatMap.mpr ⟨assign, inside, member⟩
    have again : ∀ part ∈ step.map Stmt.assign, ∀ name ∈ part.names,
        name ∈ step.flatMap Assign.names :=
      List.forall_mem_map.mpr fun assign inside name member =>
        List.mem_flatMap.mpr ⟨assign, inside, member⟩
    intro part inside name member
    simp only [parts, List.mem_cons, List.mem_append] at inside
    simp only [names, List.mem_append]
    rcases inside with rfl | ((inStart | inStep) | inStep) | inBody
    · simpa only [names, List.mem_append] using member
    · exact .inl (.inl (.inl (first part inStart name member)))
    · exact .inl (.inr (again part inStep name member))
    · exact .inl (.inr (again part inStep name member))
    · exact .inr (names_partsAll body part inBody name member)
  | .forEach _ _ _ body => by
    refine List.forall_mem_cons.mpr ⟨fun _ member => member, fun part inside name member => ?_⟩
    have own := names_partsAll body part inside name member
    exact List.mem_cons_of_mem _ (List.mem_cons_of_mem _ own)

theorem names_partsAll : ∀ stmts : List Stmt,
    ∀ part ∈ partsAll stmts, ∀ name ∈ part.names, name ∈ namesAll stmts
  | [] => List.forall_mem_nil _
  | stmt :: rest => by
    refine List.forall_mem_append.mpr ⟨fun part inside name member => ?_,
      fun part inside name member => ?_⟩
    · exact List.mem_append_left _ (names_parts stmt part inside name member)
    · exact List.mem_append_right _ (names_partsAll rest part inside name member)

end

/-- The names in a line are names of the statement that it belongs to. -/
theorem Own.names {stmt : Stmt} {line : Line} (own : stmt.Own line) :
    ∀ name ∈ line.names, name ∈ stmt.names := by
  cases own with
  | @declare decl line member =>
    refine decl.each_line (P := fun line => ∀ name ∈ line.names, name ∈ decl.names)
      (fun _ inside => inside) (fun _ _ _ name inside => ?_) line member
    exact List.forall_mem_singleton.mpr inside
  | ifHead condition yes no =>
    intro name member
    cases no <;> exact List.mem_append_left _ member
  | whileHead condition body => exact fun _ member => List.mem_append_left _ member
  | forHead start condition step body => exact fun _ member => List.mem_append_left _ member
  | eachHead number ty name container body =>
    exact List.forall_mem_singleton.mpr (by simp [Stmt.names])
  | element number ty name container body => simp [Line.names, Stmt.names]
  | otherwise => exact List.forall_mem_nil _
  | close => exact List.forall_mem_nil _
  | _ => exact fun _ member => member

mutual

/-- A statement is written as its lines. -/
theorem adds : ∀ stmt : Stmt, Adds stmt.emit stmt.eachLoops fun inEntryPoint level loops =>
    stmt.placed inEntryPoint level loops
  | .declare decl => by
    intro e
    have written := adds_lines decl.cLines e
    rwa [← decl.declarationLines_eq] at written
  | .assign step => adds_line (.assign step)
  | .call callee args => adds_line (.call callee args)
  | .ifElse condition yes none => (addsAll yes).block (.ifHead condition) rfl
  | .ifElse condition yes (some no) =>
    ((addsAll yes).openBlock (.ifHead condition) rfl).andThen ((addsAll no).block .otherwise rfl)
  | .whileDo condition body => (addsAll body).block (.whileHead condition) rfl
  | .forDo start condition step body => (addsAll body).block (.forHead start condition step) rfl
  | .forEach ty name container body => by
    have pass := fun number => ((adds_line (.element number ty name container)).andThen
      (addsAll body)).block (.eachHead number container) rfl
    simp only [Nat.zero_add] at pass
    exact adds_counted pass
  | .ret value => fun e => adds_line (.ret e.inEntryPoint value) e

theorem addsAll : ∀ stmts : List Stmt, Adds (emitAll stmts) (eachLoopsAll stmts)
    fun inEntryPoint level loops => placedAll inEntryPoint level loops stmts
  | [] => adds_nothing
  | stmt :: rest => (adds stmt).andThen (addsAll rest)

end

end Stmt

namespace Function

/-- The lines of a body, with the return that C wants at the end of an entry point. -/
def bodyPlaced (f : Function) (inEntryPoint : Bool) (level loops : Nat) : List Placed :=
  Stmt.placedAll inEntryPoint level loops f.body ++
    if inEntryPoint then [⟨level, .returnZero⟩] else []

/-- The lines of a function, whose loops are numbered from zero. -/
def placed (f : Function) (level : Nat) : List Placed :=
  ⟨level, .header f⟩ :: f.bodyPlaced f.isVoidEntryPoint (level + 1) 0 ++
    [⟨level, .close⟩, ⟨level, .blank⟩]

theorem adds_body (f : Function) : Adds f.emitBody (Stmt.eachLoopsAll f.body) f.bodyPlaced := by
  intro e
  have written := Stmt.addsAll f.body e
  have flag : (Stmt.emitAll f.body e).inEntryPoint = e.inEntryPoint := by rw [written]; rfl
  unfold emitBody bodyPlaced
  dsimp only
  rw [flag]
  cases entry : e.inEntryPoint with
  | false =>
    rw [entry] at written
    simpa using written
  | true =>
    have ending := (Stmt.addsAll f.body).andThen (adds_line .returnZero) e
    rw [entry] at ending
    exact ending

/-- A function is written as its lines, wherever it is. -/
theorem emit_placed (f : Function) (e : Emitter) :
    (f.emit e).lines.toList = e.lines.toList ++ (f.placed e.indent).map Placed.text := by
  have written := (f.adds_body.block (.header f) rfl).andThen (adds_line .blank) (f.started e)
  dsimp only at written
  calc (f.emit e).lines.toList
      = (((f.started e).block f.cSignature f.emitBody).line Line.blank.text).lines.toList := rfl
    _ = e.lines.toList ++ (f.placed e.indent).map Placed.text := by
      rw [written]
      simp [Emitter.adding, placed, started]

/-- What is true of the lines that belong to the statements of a function, and of the lines
around them, is true of all its lines. -/
theorem each_placed (f : Function) {P : Line → Prop} (header : P (.header f)) (close : P .close)
    (blank : P .blank) (returnZero : P .returnZero)
    (body : ∀ stmt ∈ Stmt.partsAll f.body, ∀ line, stmt.Own line → P line) (level : Nat) :
    ∀ placed ∈ f.placed level, P placed.line := by
  have inside : ∀ placed ∈ f.bodyPlaced f.isVoidEntryPoint (level + 1) 0, P placed.line := by
    refine List.forall_mem_append.mpr ⟨fun placed member => ?_, ?_⟩
    · obtain ⟨stmt, part, own⟩ :=
        Stmt.partsAll_cover f.isVoidEntryPoint f.body (level + 1) 0 placed member
      exact body stmt part placed.line own
    · cases f.isVoidEntryPoint with
      | false => exact List.forall_mem_nil _
      | true => exact List.forall_mem_singleton.mpr returnZero
  refine List.forall_mem_append.mpr ⟨List.forall_mem_cons.mpr ⟨header, inside⟩, ?_⟩
  exact List.forall_mem_cons.mpr ⟨close, List.forall_mem_singleton.mpr blank⟩

theorem lines_eq (f : Function) : f.lines = (f.placed 0).map Placed.text := by
  have written := f.emit_placed .fresh
  simpa [lines, Emitter.fresh] using written

end Function

namespace C

theorem placeAll_append (level : Nat) (front behind : List Line) :
    placeAll level (front ++ behind) = placeAll level front ++ placeAll level behind :=
  List.map_append

theorem placeAll_text (lines : List Line) :
    (placeAll 0 lines).map Placed.text = lines.map Line.text := by
  simp [placeAll, Placed.text, Emitter.indented]

end C

/-- The lines that an array type is defined with. -/
def Ty.definition : Ty → List Line
  | array element =>
    [.fixed "typedef struct \x7b" (by decide), .member element, .fixed "    int length;" (by decide),
      .defined element, .blank]
  | _ => []

theorem Ty.structureLines_eq (ty : Ty) : ty.structureLines = ty.definition.map Line.text := by
  cases ty <;> rfl

theorem Ty.definition_names (ty : Ty) : ∀ line ∈ ty.definition, line.names = [] := by
  cases ty <;> simp [definition, Line.names, Line.blank]

/-- The lines of items. -/
def Item.placedAll : Bool → List Item → List Placed
  | _, [] => []
  | _, .declare decl :: rest => placeAll 0 decl.cLines ++ Item.placedAll true rest
  | afterVariables, .function f :: rest =>
    (if afterVariables then [⟨0, .blank⟩] else []) ++ f.placed 0 ++ Item.placedAll false rest

theorem Item.linesAll_eq (afterVariables : Bool) (items : List Item) :
    Item.linesAll afterVariables items = (Item.placedAll afterVariables items).map Placed.text := by
  fun_induction Item.linesAll afterVariables items with
  | case1 => rfl
  | case2 _ decl rest ih =>
    rw [Item.placedAll, List.map_append, placeAll_text, decl.declarationLines_eq, ih]
  | case3 afterVariables f rest ih =>
    rw [Item.placedAll, List.map_append, List.map_append, f.lines_eq, ih]
    cases afterVariables <;> rfl

/-- What is true of the lines of declarations and functions, and of blank ones, is true of
all lines of items. -/
theorem Item.each_placed {P : Line → Prop} (blank : P .blank) {items : List Item}
    (declarations : ∀ decl, .declare decl ∈ items → ∀ line ∈ decl.cLines, P line)
    (functions : ∀ f, .function f ∈ items → ∀ placed ∈ f.placed 0, P placed.line)
    (afterVariables : Bool) :
    ∀ placed ∈ Item.placedAll afterVariables items, P placed.line := by
  induction items generalizing afterVariables with
  | nil => exact List.forall_mem_nil _
  | cons item rest ih =>
    have others := ih (fun decl member => declarations decl (List.mem_cons_of_mem _ member))
      (fun f member => functions f (List.mem_cons_of_mem _ member))
    cases item with
    | declare decl =>
      refine List.forall_mem_append.mpr ⟨List.forall_mem_map.mpr ?_, others true⟩
      exact declarations decl List.mem_cons_self
    | function f =>
      refine List.forall_mem_append.mpr ⟨List.forall_mem_append.mpr ⟨?_, ?_⟩, others false⟩
      · cases afterVariables with
        | false => exact List.forall_mem_nil _
        | true => exact List.forall_mem_singleton.mpr blank
      · exact functions f List.mem_cons_self

/-- The names in an item. -/
def Item.names : Item → List String
  | .declare decl => decl.names
  | .function f => f.name :: f.params.map Param.name ++ Stmt.namesAll f.body

namespace Program

/-- The names in a program. -/
def names (p : Program) : List String := p.items.flatMap Item.names

theorem mem_functions {p : Program} {f : Function} (member : f ∈ p.functions) :
    .function f ∈ p.items := by
  obtain ⟨item, inside, found⟩ := List.mem_filterMap.mp member
  cases item with
  | declare decl => simp at found
  | function g => simpa [Option.some.inj found] using inside

/-- The prototypes of a program. -/
def prototypes (p : Program) : List Line :=
  if p.functions.isEmpty then [] else p.functions.map .prototype ++ [.blank]

/-- The lines that every program begins with. -/
def opening : List Line :=
  [.fixed "/* Generated by cajuc */" (by decide), .fixed "#include <stdbool.h>" (by decide), .blank]

/-- The lines above the items of a program. -/
def front (p : Program) : List Line :=
  opening ++ p.arrayTypes.flatMap Ty.definition ++ p.prototypes

/-- The lines of a program. -/
def placed (p : Program) : List Placed := placeAll 0 p.front ++ Item.placedAll false p.items

theorem frontLines_eq (p : Program) : p.frontLines = p.front.map Line.text := by
  have structures : p.arrayTypes.flatMap Ty.structureLines =
      (p.arrayTypes.flatMap Ty.definition).map Line.text := by
    rw [List.map_flatMap]
    exact List.flatMap_congr fun ty _ => ty.structureLines_eq
  have prototypes : prototypeLines p.functions = p.prototypes.map Line.text := by
    unfold prototypeLines Program.prototypes
    split
    · rfl
    · simp [Line.text, Line.blank]
  rw [frontLines, front, List.map_append, List.map_append, structures, prototypes]
  rfl

/-- The names in the lines of a program are its own. -/
theorem placed_names (p : Program) :
    ∀ placed ∈ p.placed, ∀ name ∈ placed.line.names, name ∈ p.names := by
  have known : ∀ item ∈ p.items, ∀ name ∈ item.names, name ∈ p.names := fun item member name own =>
    List.mem_flatMap.mpr ⟨item, member, own⟩
  have signature : ∀ f, .function f ∈ p.items → ∀ name ∈ f.name :: f.params.map Param.name,
      name ∈ p.names := fun f member name own =>
    known (.function f) member name (List.mem_append_left _ own)
  refine List.forall_mem_append.mpr ⟨List.forall_mem_map.mpr ?_, ?_⟩
  · refine List.forall_mem_append.mpr ⟨List.forall_mem_append.mpr ⟨?_, ?_⟩, ?_⟩
    · simp [opening, Line.names, Line.blank]
    · intro line member
      obtain ⟨ty, _, inside⟩ := List.mem_flatMap.mp member
      rw [ty.definition_names line inside]
      exact List.forall_mem_nil _
    · unfold prototypes
      split
      · exact List.forall_mem_nil _
      · refine List.forall_mem_append.mpr ⟨List.forall_mem_map.mpr fun f member => ?_, ?_⟩
        · exact signature f (mem_functions member)
        · exact List.forall_mem_singleton.mpr (List.forall_mem_nil _)
  · refine Item.each_placed (P := fun line => ∀ name ∈ line.names, name ∈ p.names)
      (List.forall_mem_nil _) (fun decl member line inside name own => ?_) (fun f member => ?_) false
    · exact known (.declare decl) member name ((Stmt.Own.declare inside).names name own)
    · refine f.each_placed (P := fun line => ∀ name ∈ line.names, name ∈ p.names)
        (signature f member) (List.forall_mem_nil _) (List.forall_mem_nil _) (List.forall_mem_nil _)
        (fun stmt part line own name present => ?_) 0
      have inside := Stmt.names_partsAll f.body stmt part name (own.names name present)
      exact known (.function f) member name (List.mem_append_right _ inside)

/-- A program is written as its lines. -/
theorem emit_placed (p : Program) (e : Emitter) :
    (p.emit e).lines.toList = p.placed.map Placed.text := by
  rw [p.emit_lines_eq, placed, List.map_append, placeAll_text, ← frontLines_eq, Item.linesAll_eq]

end Program

end Caju
