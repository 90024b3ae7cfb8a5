import Caju.Proofs.Replay

/-! Declarations of one name in one block. The first is kept and each later one is
reported, for variables, functions and the variable of a `para cada` alike. Parameters are
the exception: they are declared unasked, so the last of several with one name is kept, and
nothing is reported of the others. -/

namespace Caju

open Check

/-- The symbols of a declaration, one for each of its names. -/
def VarDecl.symbols (decl : VarDecl) : List Symbol := decl.names.map fun name => .var name decl.ty

def Function.symbol (f : Function) : Symbol := .function f.name (f.params.map Param.ty) f.result

def Param.symbol (param : Param) : Symbol := .param param.name param.ty

/-- The symbols that a statement declares in the block it stands in. -/
def Stmt.symbols : Stmt → List Symbol
  | .declare decl => decl.symbols
  | _ => []

/-- The declarations that fall in one scope, in order: those that it starts with, and those
of the statements or items directly in it. -/
structure Block where
  bound : List Symbol
  declared : List Symbol

def Block.declarations (block : Block) : List Symbol := block.bound ++ block.declared

mutual

/-- The blocks inside a statement, in the order they end. -/
def Stmt.blocks : Stmt → List Block
  | .ifElse _ yes none => Stmt.blocksAll yes ++ [⟨[], yes.flatMap Stmt.symbols⟩]
  | .ifElse _ yes (some no) =>
    Stmt.blocksAll yes ++ [⟨[], yes.flatMap Stmt.symbols⟩] ++
      (Stmt.blocksAll no ++ [⟨[], no.flatMap Stmt.symbols⟩])
  | .whileDo _ body => Stmt.blocksAll body ++ [⟨[], body.flatMap Stmt.symbols⟩]
  | .forDo _ _ _ body => Stmt.blocksAll body ++ [⟨[], body.flatMap Stmt.symbols⟩]
  | .forEach ty name _ body =>
    Stmt.blocksAll body ++ [⟨[.bound name ty], body.flatMap Stmt.symbols⟩]
  | .declare _ => []
  | .assign _ => []
  | .call _ _ => []
  | .ret _ => []

def Stmt.blocksAll : List Stmt → List Block
  | [] => []
  | stmt :: rest => stmt.blocks ++ Stmt.blocksAll rest

end

def Item.symbols : Item → List Symbol
  | .declare decl => decl.symbols
  | .function f => [f.symbol]

/-- The blocks inside an item: parameters and body of a function are one. -/
def Item.blocks : Item → List Block
  | .declare _ => []
  | .function f =>
    Stmt.blocksAll f.body ++ [⟨f.params.map Param.symbol, f.body.flatMap Stmt.symbols⟩]

/-- All blocks of a program in the order they end, the global one last. -/
def Program.blocks (p : Program) : List Block :=
  p.items.flatMap Item.blocks ++ [⟨[], p.items.flatMap Item.symbols⟩]

/-- The name that is reported as declared already. -/
def Diagnostic.duplicate? : Diagnostic → Option String
  | .duplicateVariable name => some name
  | .duplicateFunction name => some name
  | _ => none

def Symbol.isNamed (name : String) (symbol : Symbol) : Bool := symbol.name == name

namespace Check

/-- How many times a journal reports a name as declared already. -/
def duplicates (name : String) (journal : List Event) : Nat :=
  (diagnostics journal).countP (·.duplicate? == some name)

theorem duplicates_append (name : String) (first second : List Event) :
    duplicates name (first ++ second) = duplicates name first + duplicates name second := by
  simp [duplicates]

@[simp] theorem duplicates_declared (name : String) (symbol : Symbol) (replaced : Option Symbol) :
    duplicates name [.declared symbol replaced] = 0 := rfl

theorem duplicates_reported (name : String) (diagnostic : Diagnostic) :
    duplicates name [.reported diagnostic] = if diagnostic.duplicate? = some name then 1 else 0 := by
  simp [duplicates, diagnostics, Event.diagnostic?, List.countP_cons]

/-- Whether an event leaves the scopes alone and reports no duplicate. -/
def Event.isRemark : Event → Bool
  | .read _ => true
  | .checking _ => true
  | .reported diagnostic => diagnostic.duplicate?.isNone
  | _ => false

theorem Event.isRemark_of_isNote {event : Event} (note : event.isNote = true) :
    event.isRemark = true := by
  cases event with
  | reported diagnostic => cases diagnostic <;> simp_all [isNote, isRemark, Diagnostic.duplicate?]
  | _ => simp_all [isNote, isRemark]

theorem Event.isQuiet_of_isRemark {event : Event} (remark : event.isRemark = true) :
    event.isQuiet = true := by
  cases event <;> simp_all [isRemark, isQuiet]

theorem replay_remarks {journal : List Event} (remarks : ∀ event ∈ journal, event.isRemark = true)
    (scopes : ScopeStack) : journal.foldl Event.replay scopes = scopes := by
  induction journal with
  | nil => rfl
  | cons event journal ih =>
    obtain ⟨first, rest⟩ := List.forall_mem_cons.mp remarks
    have still : event.replay scopes = scopes := by
      cases event <;> simp_all [Event.isRemark, Event.replay]
    rw [List.foldl_cons, still, ih rest]

theorem duplicates_remarks {journal : List Event}
    (remarks : ∀ event ∈ journal, event.isRemark = true) (name : String) :
    duplicates name journal = 0 := by
  refine List.countP_eq_zero.mpr fun diagnostic member => ?_
  obtain ⟨event, present, found⟩ := List.mem_filterMap.mp member
  have remark := remarks event present
  cases event <;> simp_all [Event.diagnostic?, Event.isRemark]

end Check

/-- How a scope comes out that had the declarations of a block: what it holds under a name
is the last that was bound to it, or else the first that was declared; and all other
declarations of the name have been reported. -/
structure Block.Tallies (block : Block) (life : ScopeLife) : Prop where
  held : ∀ name, Option.Rel Symbol.Ages
    ((block.bound.reverse ++ block.declared).find? (Symbol.isNamed name)) (life.frame.find? name)
  reported : ∀ name, duplicates name life.events =
    block.declared.countP (Symbol.isNamed name) -
      if block.bound.any (Symbol.isNamed name) then 0 else 1

namespace Block.Tallies

variable {bound declared : List Symbol} {frame later : Frame} {events : List Event}

theorem blank : Tallies ⟨[], []⟩ ⟨.empty, []⟩ where
  held _ := .none
  reported _ := rfl

/-- What is bound replaces whatever was bound to the name before. -/
theorem bind (tallies : Tallies ⟨bound, []⟩ ⟨frame, events⟩) (symbol : Symbol)
    (replaced : Option Symbol) :
    Tallies ⟨bound ++ [symbol], []⟩
      ⟨frame.insert symbol.name symbol, events ++ [.declared symbol replaced]⟩ where
  held name := by
    have before := tallies.held name
    by_cases same : symbol.name = name
    · have itself : Option.Rel Symbol.Ages (some symbol) (some symbol) := .some (.refl symbol)
      simpa [Frame.find?_insert, Symbol.isNamed, same] using itself
    · have other : name ≠ symbol.name := fun equal => same equal.symm
      simpa [Frame.find?_insert, Symbol.isNamed, same, other] using before
  reported name := by
    have before := tallies.reported name
    simp_all [duplicates_append]

/-- A time in which nothing is declared changes nothing. -/
theorem wait {block : Block} {own : List Event} (tallies : block.Tallies ⟨frame, events⟩)
    (ages : frame.Ages [] later) (none : ∀ name, duplicates name own = 0) :
    block.Tallies ⟨later, events ++ own⟩ where
  held name := by
    have before := tallies.held name
    cases found : frame.find? name with
    | none =>
      have absent : later.find? name = .none := by
        by_contra present
        exact List.not_mem_nil (ages.fresh name found present)
      simpa [found, absent] using before
    | some symbol =>
      obtain ⟨aged, present, older⟩ := ages.kept name symbol found
      rw [found] at before
      rw [present]
      generalize List.find? _ _ = first at before ⊢
      cases before with
      | some young => exact .some (young.trans older)
  reported name := by
    rw [duplicates_append, none name]
    exact tallies.reported name

/-- Whether a scope holds a name is whether the block has declared it so far. -/
private theorem holds_iff {block : Block} (tallies : block.Tallies ⟨frame, events⟩) (name : String) :
    (frame.find? name).isSome = (block.bound.any (Symbol.isNamed name) ||
      block.declared.any (Symbol.isNamed name)) := by
  have before := tallies.held name
  have found : (frame.find? name).isSome =
      ((block.bound.reverse ++ block.declared).find? (Symbol.isNamed name)).isSome := by
    generalize List.find? _ _ = first at before ⊢
    generalize frame.find? name = held at before ⊢
    cases before <;> rfl
  rw [found, Bool.eq_iff_iff]
  simp [List.find?_isSome]

/-- The first declaration of a name is kept. -/
theorem declare (tallies : Tallies ⟨bound, declared⟩ ⟨frame, events⟩) {symbol : Symbol}
    (absent : frame.find? symbol.name = none) (replaced : Option Symbol) :
    Tallies ⟨bound, declared ++ [symbol]⟩
      ⟨frame.insert symbol.name symbol, events ++ [.declared symbol replaced]⟩ where
  held name := by
    have before := tallies.held name
    rw [← List.append_assoc, List.find?_append]
    by_cases same : symbol.name = name
    · subst same
      rw [absent] at before
      generalize List.find? _ (bound.reverse ++ declared) = first at before ⊢
      cases before
      have itself : Option.Rel Symbol.Ages (some symbol) (some symbol) := .some (.refl symbol)
      simpa [Frame.find?_insert, Symbol.isNamed] using itself
    · have other : name ≠ symbol.name := fun equal => same equal.symm
      simpa [Frame.find?_insert, Symbol.isNamed, same, other] using before
  reported name := by
    have before := tallies.reported name
    rw [duplicates_append, duplicates_declared, before, List.countP_append]
    by_cases same : symbol.name = name
    · subst same
      have new := tallies.holds_iff symbol.name
      rw [absent, Option.isSome_none, eq_comm, Bool.or_eq_false_iff] at new
      obtain ⟨unbound, undeclared⟩ := new
      have zero : declared.countP (Symbol.isNamed symbol.name) = 0 :=
        List.countP_eq_zero.mpr (by simpa using undeclared)
      simp [unbound, zero, Symbol.isNamed]
    · simp [Symbol.isNamed, same]

/-- Every further declaration of a name is reported. -/
theorem refuse (tallies : Tallies ⟨bound, declared⟩ ⟨frame, events⟩) {symbol : Symbol}
    (present : (frame.find? symbol.name).isSome = true) {diagnostic : Diagnostic}
    (duplicate : diagnostic.duplicate? = some symbol.name) :
    Tallies ⟨bound, declared ++ [symbol]⟩ ⟨frame, events ++ [.reported diagnostic]⟩ where
  held name := by
    have before := tallies.held name
    rw [← List.append_assoc, List.find?_append]
    by_cases same : symbol.name = name
    · subst same
      generalize List.find? _ (bound.reverse ++ declared) = first at before ⊢
      generalize frame.find? symbol.name = held at before present ⊢
      cases before with
      | none => simp at present
      | some aged => exact .some aged
    · simpa [Symbol.isNamed, same] using before
  reported name := by
    have before := tallies.reported name
    rw [duplicates_append, duplicates_reported, duplicate, before, List.countP_append]
    by_cases same : symbol.name = name
    · subst same
      have old := tallies.holds_iff symbol.name
      rw [present, eq_comm, Bool.or_eq_true_iff] at old
      cases unbound : bound.any (Symbol.isNamed symbol.name) with
      | true => simp [Symbol.isNamed]
      | false =>
        simp only [unbound, Bool.false_eq_true, false_or] at old
        have positive : 0 < declared.countP (Symbol.isNamed symbol.name) :=
          List.countP_pos_iff.mpr (by simpa using old)
        have itself : [symbol].countP (Symbol.isNamed symbol.name) = 1 := by simp [Symbol.isNamed]
        simp only [itself, Bool.false_eq_true, if_true, if_false]
        omega
    · simp [Symbol.isNamed, same]

end Block.Tallies

namespace Check

/-- The course of a check: what becomes of the innermost frame and of the others, what the
journal tells, and how the blocks inside come out. -/
structure Course (frame : Frame) (frames : List Frame) (outcome : Outcome) (own : List Event)
    (lives : List ScopeLife) (later : Frame) (laters : List Frame) (blocks : List Block) : Prop where
  scopes : outcome.scopes = ⟨later :: laters⟩
  tells : Tells ⟨frame :: frames⟩ outcome own lives
  inner : List.Forall₂ Block.Tallies blocks lives

theorem Course.andThen {frame middle later : Frame} {frames middles laters : List Frame}
    {first : Outcome} {next : ScopeStack → Outcome} {own own' : List Event}
    {lives lives' : List ScopeLife} {blocks blocks' : List Block}
    (before : Course frame frames first own lives middle middles blocks)
    (after : Course middle middles (next ⟨middle :: middles⟩) own' lives' later laters blocks') :
    Course frame frames (first.andThen next) (own ++ own') (lives ++ lives') later laters
      (blocks ++ blocks') where
  scopes := by simpa [Outcome.andThen, before.scopes] using after.scopes
  tells := before.tells.andThen (by simpa only [before.scopes] using after.tells)
  inner := List.rel_append before.inner after.inner

/-- A check that declares the given symbols in the innermost scope, and has the given blocks
inside it. -/
def Follows (check : ScopeStack → Outcome) (symbols : List Symbol) (blocks : List Block) : Prop :=
  ∀ frame frames, ∃ own lives later laters,
    Course frame frames (check ⟨frame :: frames⟩) own lives later laters blocks ∧
    ∀ bound declared events, Block.Tallies ⟨bound, declared⟩ ⟨frame, events⟩ →
      Block.Tallies ⟨bound, declared ++ symbols⟩ ⟨later, events ++ own⟩

/-- A check that fills a new scope with the declarations of a block. -/
def Fills (check : ScopeStack → Outcome) (block : Block) (blocks : List Block) : Prop :=
  ∀ frames, ∃ own lives later laters,
    Course .empty frames (check ⟨.empty :: frames⟩) own lives later laters blocks ∧
    block.Tallies ⟨later, own⟩

theorem Follows.fills {check : ScopeStack → Outcome} {symbols : List Symbol} {blocks : List Block}
    (follows : Follows check symbols blocks) : Fills check ⟨[], symbols⟩ blocks := by
  intro frames
  obtain ⟨own, lives, later, laters, course, grows⟩ := follows .empty frames
  exact ⟨own, lives, later, laters, course, grows [] [] [] .blank⟩

theorem Fills.andThen {check next : ScopeStack → Outcome} {bound declared symbols : List Symbol}
    {blocks blocks' : List Block} (fills : Fills check ⟨bound, declared⟩ blocks)
    (follows : Follows next symbols blocks') :
    Fills (fun scopes => (check scopes).andThen next) ⟨bound, declared ++ symbols⟩
      (blocks ++ blocks') := by
  intro frames
  obtain ⟨own, lives, middle, middles, first, tallies⟩ := fills frames
  obtain ⟨own', lives', later, laters, second, grows⟩ := follows middle middles
  exact ⟨_, _, later, laters, first.andThen second, grows bound declared own tallies⟩

namespace Follows

variable {check next : ScopeStack → Outcome} {symbols symbols' : List Symbol}
  {blocks blocks' : List Block}

theorem of_eq {other : ScopeStack → Outcome} (follows : Follows other symbols blocks)
    (same : ∀ scopes, check scopes = other scopes) : Follows check symbols blocks := by
  have equal : check = other := funext same
  exact equal ▸ follows

theorem andThen (first : Follows check symbols blocks) (second : Follows next symbols' blocks') :
    Follows (fun scopes => (check scopes).andThen next) (symbols ++ symbols') (blocks ++ blocks') := by
  intro frame frames
  obtain ⟨own, lives, middle, middles, before, grows⟩ := first frame frames
  obtain ⟨own', lives', later, laters, after, grows'⟩ := second middle middles
  refine ⟨_, _, later, laters, before.andThen after, fun bound declared events tallies => ?_⟩
  simpa using grows' bound _ _ (grows bound declared events tallies)

theorem sequence {α : Type} {check : α → ScopeStack → Outcome} {symbols : α → List Symbol}
    {blocks : α → List Block} (xs : List α)
    (each : ∀ x ∈ xs, Follows (check x) (symbols x) (blocks x)) :
    Follows (sequence check xs) (xs.flatMap symbols) (xs.flatMap blocks) := by
  induction xs with
  | nil =>
    intro frame frames
    refine ⟨[], [], frame, frames, ⟨rfl, fun _ _ _ => by simp [Check.sequence, Outcome.idle], .nil⟩, ?_⟩
    intro bound declared events tallies
    simpa using tallies
  | cons x rest ih =>
    obtain ⟨first, others⟩ := List.forall_mem_cons.mp each
    exact (first.andThen (ih others)).of_eq fun _ => rfl

/-- A check that declares nothing and neither opens nor closes a scope. -/
theorem quiet (lexical : ∀ scopes, Lexical (Frame.Ages []) scopes (check scopes))
    (silent : ∀ scopes, ∀ event ∈ (check scopes).journal, event.isQuiet = true)
    (none : ∀ scopes name, duplicates name (check scopes).journal = 0)
    (replayed : ∀ scopes, (check scopes).journal.foldl Event.replay scopes = (check scopes).scopes) :
    Follows check [] [] := by
  intro frame frames
  have told := Tells.quiet (silent ⟨frame :: frames⟩) (replayed ⟨frame :: frames⟩)
  have ages := (lexical ⟨frame :: frames⟩).ages
  have none := none ⟨frame :: frames⟩
  generalize check ⟨frame :: frames⟩ = outcome at told ages none
  obtain ⟨scopes, journal, returned⟩ := outcome
  cases ages with
  | @opened _ later _ laters inner outer =>
    refine ⟨journal, [], later, laters, ⟨rfl, told, .nil⟩, fun bound declared events tallies => ?_⟩
    simpa using tallies.wait inner none

/-- A check that only looks. -/
theorem remarks (still : ∀ scopes, (check scopes).scopes = scopes)
    (remarks : ∀ scopes, ∀ event ∈ (check scopes).journal, event.isRemark = true) :
    Follows check [] [] := by
  have silent : ∀ scopes, ∀ event ∈ (check scopes).journal, event.isQuiet = true :=
    fun scopes event member => Event.isQuiet_of_isRemark (remarks scopes event member)
  refine quiet (fun scopes => ⟨?_, .of_quiet (silent scopes)⟩) silent
    (fun scopes => duplicates_remarks (remarks scopes)) (fun scopes => ?_)
  · rw [still scopes]
    exact .refl scopes
  · rw [replay_remarks (remarks scopes), still scopes]

theorem notes {journal : ScopeStack → List Event}
    (notes : ∀ scopes, ∀ event ∈ journal scopes, event.isNote = true) :
    Follows (fun scopes => .noting (journal scopes) scopes) [] [] :=
  remarks (fun _ => rfl) fun scopes event member =>
    Event.isRemark_of_isNote (notes scopes event member)

/-- What is declared in a scope of its own stays there. -/
theorem inScope {block : Block} (lexical : Contained check)
    (fills : Fills check block blocks) : Follows (inScope check) [] (blocks ++ [block]) := by
  intro frame frames
  obtain ⟨own, lives, later, laters, course, tallies⟩ := fills (frame :: frames)
  have inside := lexical (ScopeStack.enter_opened ⟨frame :: frames⟩)
  have told := Tells.inScope inside course.scopes course.tells
  obtain ⟨left, outer, same, ages, result⟩ := inside.inScope_eq
  obtain ⟨rfl, rfl⟩ : later = left ∧ laters = outer := by
    simpa using course.scopes.symm.trans same
  cases ages with
  | @cons _ aged _ older head tail =>
    refine ⟨[], _, aged, older, ⟨by rw [result], told, ?_⟩, fun bound declared events tallies => ?_⟩
    · exact List.rel_append course.inner (.cons tallies .nil)
    · have nothing : ∀ name, duplicates name [] = 0 := fun _ => rfl
      simpa using tallies.wait head nothing

/-- A new declaration is made, or else reported. -/
theorem declareNew {diagnostic : Diagnostic} {symbol : Symbol}
    (duplicate : diagnostic.duplicate? = some symbol.name) :
    Follows (declareNew diagnostic symbol) [symbol] [] := by
  intro frame frames
  cases held : (frame.find? symbol.name).isSome with
  | true =>
    have refused : Check.declareNew diagnostic symbol ⟨frame :: frames⟩ =
        .noting [.reported diagnostic] ⟨frame :: frames⟩ := by
      simp [Check.declareNew, ScopeStack.holds, held]
    rw [refused]
    refine ⟨_, [], frame, frames, ⟨rfl, .quiet (by simp [Outcome.noting, Event.isQuiet]) rfl, .nil⟩, ?_⟩
    exact fun bound declared events tallies => tallies.refuse held duplicate
  | false =>
    have absent : frame.find? symbol.name = none := by simpa using held
    have declared : Check.declareNew diagnostic symbol ⟨frame :: frames⟩ =
        ⟨⟨frame.insert symbol.name symbol :: frames⟩, [.declared symbol none], false⟩ := by
      simp [Check.declareNew, ScopeStack.holds, declare, ScopeStack.declare, absent]
    rw [declared]
    refine ⟨_, [], _, frames, ⟨rfl, .quiet (by simp [Event.isQuiet]) rfl, .nil⟩, ?_⟩
    exact fun bound declared events tallies => tallies.declare absent none

end Follows

/-- Something may be remarked at the end, depending on whether there was a `retorne`. -/
theorem Fills.andRemark {check : ScopeStack → Outcome} {block : Block} {blocks : List Block}
    (fills : Fills check block blocks) (journal : Bool → List Event)
    (remarks : ∀ returned, ∀ event ∈ journal returned, event.isRemark = true) :
    Fills (fun scopes => (check scopes).andThen (.noting (journal (check scopes).returned)))
      block blocks := by
  intro frames
  have noted : Follows (.noting (journal (check ⟨.empty :: frames⟩).returned)) [] [] :=
    .remarks (fun _ => rfl) fun _ => remarks _
  obtain ⟨own, lives, middle, middles, first, tallies⟩ := fills frames
  obtain ⟨own', lives', later, laters, second, waits⟩ := noted middle middles
  refine ⟨own ++ own', lives ++ lives', later, laters, ?_, by simpa using waits _ _ _ tallies⟩
  simpa only [List.append_nil] using first.andThen second

end Check

theorem VarDecl.follows (decl : VarDecl) : Follows decl.check decl.symbols [] := by
  have each : ∀ name ∈ decl.names, Follows
      (declareNew (.duplicateVariable name) (.var name decl.ty)) [.var name decl.ty] [] :=
    fun name _ => .declareNew rfl
  have none : decl.names.flatMap (fun _ => ([] : List Block)) = [] := by
    simp [List.flatMap_eq_nil_iff]
  rw [VarDecl.symbols, List.map_eq_flatMap, ← none]
  exact .sequence decl.names each

/-- An assignment that is not refused makes its notes, and then gives its target a value. -/
theorem Assign.check_eq (assign : Assign) (scopes : ScopeStack) :
    assign.check scopes = .noting [.reported (.undeclaredVariable assign.target)] scopes ∨
    ∃ notes, (∀ event ∈ notes, event.isNote = true) ∧ assign.check scopes =
      ⟨scopes.markInitialized assign.target, notes ++ [.assigned assign.target], false⟩ := by
  unfold Assign.check
  cases scopes.lookup assign.target with
  | none => exact .inl rfl
  | some symbol =>
    refine .inr ⟨_, ?_, rfl⟩
    exact List.forall_mem_append.mpr ⟨assign.value.infer_note scopes, require_note _ rfl⟩

theorem Assign.follows (assign : Assign) : Follows assign.check [] [] := by
  have course : ∀ scopes, (∀ event ∈ (assign.check scopes).journal, event.isQuiet = true) ∧
      (∀ name, duplicates name (assign.check scopes).journal = 0) ∧
      (assign.check scopes).journal.foldl Event.replay scopes = (assign.check scopes).scopes := by
    intro scopes
    obtain refused | ⟨notes, noted, assigned⟩ := assign.check_eq scopes
    · rw [refused]
      exact ⟨by simp [Outcome.noting, Event.isQuiet], fun _ => rfl, rfl⟩
    · have remarks : ∀ event ∈ notes, event.isRemark = true :=
        fun event member => Event.isRemark_of_isNote (noted event member)
      rw [assigned]
      refine ⟨?_, fun name => ?_, ?_⟩
      · exact List.forall_mem_append.mpr ⟨quiet_of_notes noted, by simp [Event.isQuiet]⟩
      · rw [duplicates_append, duplicates_remarks remarks]
        rfl
      · rw [List.foldl_append, replay_remarks remarks]
        rfl
  exact .quiet assign.check_lexical (fun scopes => (course scopes).1)
    (fun scopes => (course scopes).2.1) fun scopes => (course scopes).2.2

theorem assigns_follow (steps : List Assign) : Follows (sequence Assign.check steps) [] [] := by
  have follows := Follows.sequence steps fun step _ => step.follows
  simpa [List.flatMap_eq_nil_iff.mpr] using follows

private theorem guarded_follows {body : ScopeStack → Outcome} {symbols : List Symbol}
    {blocks : List Block} (construct : Construct) (condition : Expr) (lexical : Contained body)
    (follows : Follows body symbols blocks) :
    Follows (fun scopes => (Outcome.noting (condition.checkCondition construct scopes) scopes).andThen
      (inScope body)) [] (blocks ++ [⟨[], symbols⟩]) :=
  (Follows.notes (condition.checkCondition_note construct)).andThen (.inScope lexical follows.fills)

theorem checkLoop_follows (start : List Assign) (condition : Option Expr) (step : List Assign)
    {body : ScopeStack → Outcome} {symbols : List Symbol} {blocks : List Block}
    (follows : Follows body symbols blocks) :
    Follows (checkLoop start condition step body) symbols blocks := by
  have started := (assigns_follow start).andThen (assigns_follow step)
  have looked := started.andThen (.notes (forCondition_note condition))
  exact (looked.andThen (assigns_follow step)).andThen follows

theorem checkEach_fills (ty : Ty) (name container : String) {body : ScopeStack → Outcome}
    {symbols : List Symbol} {blocks : List Block} (follows : Follows body symbols blocks) :
    Fills (checkEach ty name container body) ⟨[.bound name ty], symbols⟩ blocks := by
  have bound : Fills (Check.declare (.bound name ty)) ⟨[.bound name ty], []⟩ [] := by
    intro frames
    refine ⟨_, [], _, frames, ⟨rfl, .quiet ?_ rfl, .nil⟩, Block.Tallies.blank.bind (.bound name ty) none⟩
    simp [Check.declare, ScopeStack.declare, Event.isQuiet]
  exact (bound.andThen (.notes (checkContainer_note ty name container))).andThen follows

private theorem checkReturn_follows (context : Option Context) (value : Option Expr) :
    Follows (checkReturn context value) [] [] := by
  cases context with
  | none => exact .remarks (fun _ => rfl) (by simp [checkReturn, Outcome.noting, Event.isRemark, Diagnostic.duplicate?])
  | some context =>
    refine .remarks (fun _ => rfl) fun scopes event member => ?_
    exact Event.isRemark_of_isNote (checkReturnValue_note context value scopes event member)

mutual

theorem Stmt.follows (context : Option Context) :
    ∀ stmt : Stmt, Follows (stmt.check context) stmt.symbols stmt.blocks
  | .declare decl => by
    rw [Stmt.blocks]
    exact decl.follows.of_eq fun _ => by rw [Stmt.check]
  | .assign step => by
    rw [Stmt.blocks]
    exact step.follows.of_eq fun _ => by rw [Stmt.check]
  | .call callee args => by
    rw [Stmt.blocks]
    exact (Follows.notes fun scopes => Expr.infer_note scopes (.call callee args)).of_eq
      fun _ => by rw [Stmt.check]
  | .ifElse condition yes none => by
    rw [Stmt.blocks]
    have follows := guarded_follows .ifElse condition (Stmt.checkAll_contained context yes)
      (Stmt.followsAll context yes)
    exact follows.of_eq fun _ => by rw [Stmt.check]
  | .ifElse condition yes (some no) => by
    rw [Stmt.blocks]
    have first := guarded_follows .ifElse condition (Stmt.checkAll_contained context yes)
      (Stmt.followsAll context yes)
    have second := Follows.inScope (Stmt.checkAll_contained context no) (Stmt.followsAll context no).fills
    exact (first.andThen second).of_eq fun _ => by rw [Stmt.check]
  | .whileDo condition body => by
    rw [Stmt.blocks]
    have follows := guarded_follows .whileDo condition (Stmt.checkAll_contained context body)
      (Stmt.followsAll context body)
    exact follows.of_eq fun _ => by rw [Stmt.check]
  | .forDo start condition step body => by
    rw [Stmt.blocks]
    have follows := checkLoop_follows start condition step (Stmt.followsAll context body)
    have lexical := checkLoop_contained start condition step context body
    exact (Follows.inScope lexical follows.fills).of_eq fun _ => by rw [Stmt.check]
  | .forEach ty name container body => by
    rw [Stmt.blocks]
    have fills := checkEach_fills ty name container (Stmt.followsAll context body)
    have lexical := checkEach_contained ty name container context body
    exact (Follows.inScope lexical fills).of_eq fun _ => by rw [Stmt.check]
  | .ret value => by
    rw [Stmt.blocks]
    exact (checkReturn_follows context value).of_eq fun _ => by rw [Stmt.check]

theorem Stmt.followsAll (context : Option Context) : ∀ stmts : List Stmt,
    Follows (Stmt.checkAll context stmts) (stmts.flatMap Stmt.symbols) (Stmt.blocksAll stmts)
  | [] => by
    rw [Stmt.blocksAll]
    have nothing := Follows.notes (fun _ _ member => absurd member List.not_mem_nil)
    exact nothing.of_eq fun _ => by rw [Stmt.checkAll]; rfl
  | stmt :: rest => by
    rw [Stmt.blocksAll, List.flatMap_cons]
    have follows := (Stmt.follows context stmt).andThen (Stmt.followsAll context rest)
    exact follows.of_eq fun _ => by rw [Stmt.checkAll]

end

private theorem params_course (params : List Param) {frame : Frame} {bound : List Symbol}
    {events : List Event} (frames : List Frame)
    (tallies : Block.Tallies ⟨bound, []⟩ ⟨frame, events⟩) :
    ∃ own later, Course frame frames
        (sequence (fun param => declare (.param param.name param.ty)) params ⟨frame :: frames⟩)
        own [] later frames [] ∧
      Block.Tallies ⟨bound ++ params.map Param.symbol, []⟩ ⟨later, events ++ own⟩ := by
  induction params generalizing frame bound events with
  | nil =>
    refine ⟨[], frame, ⟨rfl, fun _ _ _ => by simp [Check.sequence, Outcome.idle], .nil⟩, ?_⟩
    simpa using tallies
  | cons param rest ih =>
    have bind := tallies.bind param.symbol (frame.find? param.name)
    obtain ⟨own, later, course, filled⟩ := ih bind
    have first : Course frame frames (declare (.param param.name param.ty) ⟨frame :: frames⟩)
        [.declared param.symbol (frame.find? param.name)] []
        (frame.insert param.name param.symbol) frames [] :=
      ⟨rfl, .quiet (by simp [declare, ScopeStack.declare, Event.isQuiet]) rfl, .nil⟩
    exact ⟨_, later, first.andThen course, by simpa using filled⟩

theorem Function.checkBody_fills (f : Function) :
    Fills f.checkBody ⟨f.params.map Param.symbol, f.body.flatMap Stmt.symbols⟩
      (Stmt.blocksAll f.body) := by
  have params : Fills (sequence (fun param => declare (.param param.name param.ty)) f.params)
      ⟨f.params.map Param.symbol, []⟩ [] := by
    intro frames
    obtain ⟨own, later, course, bound⟩ := params_course f.params frames Block.Tallies.blank
    exact ⟨own, [], later, frames, course, bound⟩
  have body := params.andThen (Stmt.followsAll (some ⟨f.name, f.result⟩) f.body)
  refine body.andRemark (checkReturned f) fun returned => ?_
  cases done : f.result.isVoid || returned || f.name == entryPoint <;>
    simp [checkReturned, require, done, Event.isRemark, Diagnostic.duplicate?]

theorem Function.follows (f : Function) :
    Follows f.check [f.symbol] (Item.function f).blocks := by
  have declared : Follows (declareNew (.duplicateFunction f.name) f.symbol) [f.symbol] [] :=
    .declareNew rfl
  have noted : Follows (.noting [.checking f.name]) [] [] :=
    .remarks (fun _ => rfl) (by simp [Outcome.noting, Event.isRemark])
  exact (declared.andThen noted).andThen (.inScope f.checkBody_contained f.checkBody_fills)

theorem Item.follows (item : Item) : Follows item.check item.symbols item.blocks := by
  cases item with
  | declare decl => exact decl.follows
  | function f => exact f.follows

/-- The scopes of a program's check come out as its blocks say. -/
theorem Program.scopes_tally (p : Program) :
    List.Forall₂ Block.Tallies p.blocks (scopeLives p.check.journal) := by
  have follows := Follows.sequence p.items fun item _ => item.follows
  have lexical := items_contained p.items (ScopeStack.enter_opened .empty)
  obtain ⟨own, lives, later, laters, course, tallies⟩ := follows.fills []
  obtain ⟨_, _, _, _, result⟩ := lexical.inScope_eq
  have told := course.tells [] [] []
  rw [course.scopes] at told
  have closed : scopeLives p.check.journal = lives ++ [⟨later, own⟩] := by
    rw [Program.check, result, scopeLives, List.cons_append, List.foldl_cons, List.foldl_append]
    have entered : Telling.next ⟨.empty, [], []⟩ (.entered (ScopeStack.depth .empty + 1)) =
        ⟨⟨[.empty]⟩, [[]], []⟩ := rfl
    rw [entered]
    simp [told, ScopeStack.enter, ScopeStack.empty, Telling.next]
  rw [closed]
  exact List.rel_append course.inner (.cons tallies .nil)

/-- Whether every declaration in a journal is of a name that its scope did not hold. -/
def Check.ReplacesNone (journal : List Event) : Prop :=
  ∀ symbol replaced, Event.declared symbol replaced ∈ journal → replaced = none

namespace Check

theorem replacesNone_append {first second : List Event} :
    ReplacesNone (first ++ second) ↔ ReplacesNone first ∧ ReplacesNone second := by
  simp only [ReplacesNone, List.mem_append]
  exact ⟨fun all => ⟨fun symbol replaced member => all symbol replaced (.inl member),
      fun symbol replaced member => all symbol replaced (.inr member)⟩,
    fun both symbol replaced member => member.elim (both.1 symbol replaced) (both.2 symbol replaced)⟩

theorem replacesNone_of_notes {journal : List Event}
    (notes : ∀ event ∈ journal, event.isNote = true) : ReplacesNone journal := by
  intro symbol replaced member
  simpa [Event.isNote] using notes _ member

theorem replacesNone_sequence {α : Type} {check : α → ScopeStack → Outcome} {P : α → Prop}
    (each : ∀ x scopes, ReplacesNone (check x scopes).journal ↔ P x) (xs : List α)
    (scopes : ScopeStack) :
    ReplacesNone (sequence check xs scopes).journal ↔ ∀ x ∈ xs, P x := by
  induction xs generalizing scopes with
  | nil => simp [Check.sequence, Outcome.idle, ReplacesNone]
  | cons x rest ih =>
    simp only [sequence, Outcome.andThen, replacesNone_append, each, ih, List.forall_mem_cons]

theorem replacesNone_inScope (body : ScopeStack → Outcome) (scopes : ScopeStack) :
    ReplacesNone (inScope body scopes).journal ↔ ReplacesNone (body scopes.enter).journal := by
  have opening : ReplacesNone (enter scopes).journal := by simp [ReplacesNone, enter]
  have closing : ∀ scopes, ReplacesNone (leave scopes).journal := by
    intro scopes
    unfold leave
    split <;> simp [ReplacesNone, Outcome.noting]
  have inside : (enter scopes).scopes = scopes.enter := rfl
  simp [inScope, Outcome.andThen, replacesNone_append, opening, closing, inside]

theorem declareNew_replacesNone (diagnostic : Diagnostic) (symbol : Symbol) (scopes : ScopeStack) :
    ReplacesNone (declareNew diagnostic symbol scopes).journal := by
  obtain ⟨frames⟩ := scopes
  unfold declareNew
  cases frames with
  | nil => simp [ScopeStack.holds, declare, ScopeStack.declare, Outcome.noting, ReplacesNone]
  | cons frame frames =>
    cases held : frame.find? symbol.name with
    | none => simp [ScopeStack.holds, declare, ScopeStack.declare, held, ReplacesNone]
    | some other => simp [ScopeStack.holds, held, Outcome.noting, ReplacesNone]

end Check

theorem VarDecl.check_replacesNone (decl : VarDecl) (scopes : ScopeStack) :
    ReplacesNone (decl.check scopes).journal :=
  (replacesNone_sequence (fun _ scopes => iff_true_intro (declareNew_replacesNone _ _ scopes))
    decl.names scopes).mpr fun _ _ => trivial

theorem Assign.check_replacesNone (assign : Assign) (scopes : ScopeStack) :
    ReplacesNone (assign.check scopes).journal := by
  obtain refused | ⟨notes, noted, assigned⟩ := assign.check_eq scopes
  · simp [refused, Outcome.noting, ReplacesNone]
  · rw [assigned, replacesNone_append]
    exact ⟨replacesNone_of_notes noted, by simp [ReplacesNone]⟩

private theorem assigns_replaceNone (steps : List Assign) (scopes : ScopeStack) :
    ReplacesNone (sequence Assign.check steps scopes).journal :=
  (replacesNone_sequence (fun step scopes => iff_true_intro (step.check_replacesNone scopes))
    steps scopes).mpr fun _ _ => trivial

private theorem guarded_replacesNone {body : ScopeStack → Outcome} (construct : Construct)
    (condition : Expr) (inside : ∀ scopes, ReplacesNone (body scopes).journal)
    (scopes : ScopeStack) :
    ReplacesNone ((Outcome.noting (condition.checkCondition construct scopes) scopes).andThen
      (inScope body)).journal := by
  rw [Outcome.andThen, replacesNone_append, replacesNone_inScope]
  exact ⟨replacesNone_of_notes (condition.checkCondition_note construct scopes), inside _⟩

mutual

/-- No statement replaces what a scope holds. -/
theorem Stmt.check_replacesNone (context : Option Context) :
    ∀ (stmt : Stmt) (scopes : ScopeStack), ReplacesNone (stmt.check context scopes).journal
  | .declare decl, scopes => by
    rw [Stmt.check]
    exact decl.check_replacesNone scopes
  | .assign step, scopes => by
    rw [Stmt.check]
    exact step.check_replacesNone scopes
  | .call callee args, scopes => by
    rw [Stmt.check]
    exact replacesNone_of_notes (Expr.infer_note scopes (.call callee args))
  | .ifElse condition yes none, scopes => by
    rw [Stmt.check]
    exact guarded_replacesNone .ifElse condition (Stmt.checkAll_replacesNone context yes) scopes
  | .ifElse condition yes (some no), scopes => by
    rw [Stmt.check, Outcome.andThen, replacesNone_append, replacesNone_inScope]
    exact ⟨guarded_replacesNone .ifElse condition (Stmt.checkAll_replacesNone context yes) scopes,
      Stmt.checkAll_replacesNone context no _⟩
  | .whileDo condition body, scopes => by
    rw [Stmt.check]
    exact guarded_replacesNone .whileDo condition (Stmt.checkAll_replacesNone context body) scopes
  | .forDo start condition step body, scopes => by
    rw [Stmt.check, replacesNone_inScope]
    simp only [checkLoop, Outcome.andThen, replacesNone_append, assigns_replaceNone, true_and]
    exact ⟨⟨replacesNone_of_notes (forCondition_note condition _), trivial⟩,
      Stmt.checkAll_replacesNone context body _⟩
  | .forEach ty name container body, scopes => by
    -- The loop variable is declared in a scope that was opened just now.
    rw [Stmt.check, replacesNone_inScope]
    simp only [checkEach, Outcome.andThen, replacesNone_append]
    refine ⟨⟨?_, replacesNone_of_notes (checkContainer_note ty name container _)⟩,
      Stmt.checkAll_replacesNone context body _⟩
    simp [Check.declare, ScopeStack.declare, ScopeStack.enter, Frame.find?, Frame.empty, ReplacesNone]
  | .ret value, scopes => by
    rw [Stmt.check]
    cases context with
    | none => simp [checkReturn, Outcome.noting, ReplacesNone]
    | some context => exact replacesNone_of_notes (checkReturnValue_note context value scopes)

theorem Stmt.checkAll_replacesNone (context : Option Context) :
    ∀ (stmts : List Stmt) (scopes : ScopeStack),
      ReplacesNone (Stmt.checkAll context stmts scopes).journal
  | [], scopes => by simp [Stmt.checkAll, Outcome.idle, ReplacesNone]
  | stmt :: rest, scopes => by
    rw [Stmt.checkAll, Outcome.andThen, replacesNone_append]
    exact ⟨Stmt.check_replacesNone context stmt scopes, Stmt.checkAll_replacesNone context rest _⟩

end

/-- Parameters replace nothing if their names are new and all different. -/
private theorem params_replaceNone (params : List Param) (frame : Frame) (frames : List Frame) :
    ReplacesNone (sequence (fun param => declare (.param param.name param.ty)) params
      ⟨frame :: frames⟩).journal ↔
    (params.map Param.name).Nodup ∧ ∀ param ∈ params, frame.find? param.name = none := by
  induction params generalizing frame with
  | nil => simp [Check.sequence, Outcome.idle, ReplacesNone]
  | cons param rest ih =>
    have first : declare (.param param.name param.ty) ⟨frame :: frames⟩ =
        ⟨⟨frame.insert param.name (.param param.name param.ty) :: frames⟩,
          [.declared (.param param.name param.ty) (frame.find? param.name)], false⟩ := rfl
    have single : ReplacesNone [.declared (.param param.name param.ty) (frame.find? param.name)] ↔
        frame.find? param.name = none := by simp [ReplacesNone]
    have absent : ∀ name, (frame.insert param.name (.param param.name param.ty)).find? name = none ↔
        name ≠ param.name ∧ frame.find? name = none := by
      intro name
      rw [Frame.find?_insert]
      by_cases same : name = param.name <;> simp [same]
    rw [Check.sequence, first, Outcome.andThen, replacesNone_append, ih, single]
    simp only [absent, List.map_cons, List.nodup_cons, List.forall_mem_cons, List.mem_map, not_exists,
      not_and, forall_and]
    tauto

/-- The check of a function replaces something exactly if two parameters share a name. -/
theorem Function.check_replacesNone (f : Function) (scopes : ScopeStack) :
    ReplacesNone (f.check scopes).journal ↔ (f.params.map Param.name).Nodup := by
  have body := Stmt.checkAll_replacesNone (some ⟨f.name, f.result⟩) f.body
  have named := declareNew_replacesNone (.duplicateFunction f.name) f.symbol scopes
  have noted : ∀ scopes, ReplacesNone (Outcome.noting [.checking f.name] scopes).journal := by
    simp [Outcome.noting, ReplacesNone]
  have ended : ∀ returned scopes,
      ReplacesNone (Outcome.noting (checkReturned f returned) scopes).journal := by
    intro returned scopes
    unfold checkReturned require
    split <;> simp [Outcome.noting, ReplacesNone]
  have params : ∀ scopes : ScopeStack, ReplacesNone (sequence
      (fun param => declare (.param param.name param.ty)) f.params scopes.enter).journal ↔
      (f.params.map Param.name).Nodup := by
    intro scopes
    exact (params_replaceNone f.params .empty scopes.frames).trans (and_iff_left fun _ _ => rfl)
  rw [Function.check]
  simp only [Outcome.andThen, replacesNone_append, replacesNone_inScope, Function.checkBody,
    params, body, ended, and_true, noted]
  exact and_iff_right named

theorem Program.check_replacesNone (p : Program) :
    ReplacesNone p.check.journal ↔ ∀ f ∈ p.functions, (f.params.map Param.name).Nodup := by
  have each : ∀ (item : Item) (scopes : ScopeStack), ReplacesNone (item.check scopes).journal ↔
      ∀ f, item = .function f → (f.params.map Param.name).Nodup := by
    intro item scopes
    cases item with
    | declare decl => simpa [Item.check] using decl.check_replacesNone scopes
    | function f => simpa [Item.check] using f.check_replacesNone scopes
  rw [Program.check, replacesNone_inScope, replacesNone_sequence each]
  constructor
  · intro all f member
    obtain ⟨item, present, found⟩ := List.mem_filterMap.mp member
    cases item with
    | declare decl => simp at found
    | function g => exact all (.function g) present f (by simpa using found)
  · rintro all item present f rfl
    exact all f (List.mem_filterMap.mpr ⟨_, present, rfl⟩)

/-- The rule for one block and the scope it became: of the declarations of a name the first
is kept, and each of the others is reported once; but the rule says nothing of a name that
the block starts with more than once. -/
def Block.KeepsFirst (block : Block) (life : ScopeLife) : Prop :=
  ∀ name, block.bound.countP (Symbol.isNamed name) ≤ 1 →
    duplicates name life.events = block.declarations.countP (Symbol.isNamed name) - 1 ∧
    Option.Rel Symbol.Ages (block.declarations.find? (Symbol.isNamed name)) (life.frame.find? name)

private theorem find?_reverse {symbols : List Symbol} {p : Symbol → Bool}
    (once : symbols.countP p ≤ 1) : symbols.reverse.find? p = symbols.find? p := by
  induction symbols with
  | nil => rfl
  | cons symbol rest ih =>
    rw [List.reverse_cons, List.find?_append]
    cases here : p symbol with
    | true =>
      have none : rest.countP p = 0 := by
        rw [List.countP_cons_of_pos here] at once
        omega
      have missing : rest.reverse.find? p = .none := by
        simpa using List.countP_eq_zero.mp none
      simp [missing, here]
    | false =>
      rw [List.countP_cons_of_neg (by simp [here])] at once
      simp [ih once, here]

theorem Block.Tallies.keepsFirst {block : Block} {life : ScopeLife} (tallies : block.Tallies life) :
    block.KeepsFirst life := by
  intro name once
  have held := tallies.held name
  have reported := tallies.reported name
  rw [List.find?_append, find?_reverse once, ← List.find?_append] at held
  refine ⟨?_, held⟩
  rw [reported, Block.declarations, List.countP_append]
  cases bound : block.bound.any (Symbol.isNamed name) with
  | true =>
    have positive : 0 < block.bound.countP (Symbol.isNamed name) :=
      List.countP_pos_iff.mpr (by simpa using bound)
    simp only [if_true]
    omega
  | false =>
    have zero : block.bound.countP (Symbol.isNamed name) = 0 :=
      List.countP_eq_zero.mpr (by simpa using bound)
    simp [zero]

/-- A check never replaces a declaration if, and only if, no function has two parameters of
one name; and every scope keeps the first of the declarations of a name and reports each of
the others once, unless two of them are such parameters. -/
theorem Program.declarations_kept (p : Program) :
    ((∀ symbol replaced, Event.declared symbol replaced ∈ p.check.journal → replaced = none) ↔
      ∀ f ∈ p.functions, (f.params.map Param.name).Nodup) ∧
    List.Forall₂ Block.KeepsFirst p.blocks (scopeLives p.check.journal) :=
  ⟨p.check_replacesNone, p.scopes_tally.imp fun _ _ tallies => tallies.keepsFirst⟩

/-- One global scope with a variable, a function and another variable of one name. -/
theorem Program.declarations_kept_thrice :
    let p : Program := ⟨[.declare ⟨.number, ["x"]⟩, .function ⟨"x", [], .void, []⟩,
      .declare ⟨.boolean, ["x"]⟩]⟩
    (∀ f ∈ p.functions, (f.params.map Param.name).Nodup) ∧
    p.diagnostics = [.duplicateFunction "x", .duplicateVariable "x"] ∧
    (∀ symbol replaced, Event.declared symbol replaced ∈ p.check.journal → replaced = none) ∧
    List.Forall₂ Block.KeepsFirst
      [⟨[], []⟩, ⟨[], [.var "x" .number, .function "x" [] .void, .var "x" .boolean]⟩]
      (scopeLives p.check.journal) := by
  intro p
  have distinct : ∀ f ∈ p.functions, (f.params.map Param.name).Nodup := by simp [p, Program.functions]
  exact ⟨distinct, by decide, (declarations_kept p).1.mpr distinct, (declarations_kept p).2⟩

/-- The second of two parameters of one name replaces the first, and nothing is reported. -/
theorem Program.declarations_kept_not_params :
    let p : Program := ⟨[.function ⟨"f", [⟨"x", .number⟩, ⟨"x", .boolean⟩], .void, []⟩]⟩
    Event.declared (.param "x" .boolean) (some (.param "x" .number)) ∈ p.check.journal ∧
    p.diagnostics = [] ∧
    ¬ ∀ (p : Program) (symbol : Symbol) (replaced : Option Symbol),
      Event.declared symbol replaced ∈ p.check.journal → replaced = none := by
  intro p
  have replaced : Event.declared (.param "x" .boolean) (some (.param "x" .number)) ∈
      p.check.journal := by decide
  exact ⟨replaced, by decide, fun never => absurd (never p _ _ replaced) (by simp)⟩

end Caju
