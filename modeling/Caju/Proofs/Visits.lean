import Caju.Proofs.Runs

/-! Where the checker comes past. Every statement of a program is visited, with the scopes
that are open at that moment; the steps of a `para` are visited twice. What a visit notes is
a stretch of the journal, and a run leads up to it, so a program without diagnostics has
none at any visit, and what actions preserve holds at each. The assignments that the journal
tells of are those visited. -/

namespace Caju

open Check

/-- The function that the body of a function is checked for. -/
def Function.context (f : Function) : Context := ⟨f.name, f.result⟩

namespace Check

/-- A statement of a function, as the checker comes to it. -/
structure Visit where
  function : Function
  stmt : Stmt
  scopes : ScopeStack

/-- What the checker notes at a visit. -/
def Visit.journal (visit : Visit) : List Event :=
  (visit.stmt.check (some visit.function.context) visit.scopes).journal

def Event.assigned? : Event → Option String
  | .assigned name => some name
  | _ => none

/-- The name that is given a value at a visit: the target of an assignment, if it is
declared. -/
def Visit.assigned? (visit : Visit) : Option String :=
  match visit.stmt with
  | .assign step => (visit.scopes.lookup step.target).map fun _ => step.target
  | _ => none

/-- The visits of checking things one after another. -/
def along {α : Type} (check : α → ScopeStack → Outcome) (visits : α → ScopeStack → List Visit) :
    List α → ScopeStack → List Visit
  | [], _ => []
  | x :: rest, scopes => visits x scopes ++ along check visits rest (check x scopes).scopes

/-- The visits of a list of assignments. -/
def assignVisits (f : Function) : List Assign → ScopeStack → List Visit :=
  along Assign.check fun step scopes => [⟨f, .assign step, scopes⟩]

end Check

namespace Stmt

mutual

/-- The visits of a statement, itself first. -/
def visits (f : Function) : Stmt → ScopeStack → List Visit
  | .ifElse condition yes none, scopes =>
    ⟨f, .ifElse condition yes none, scopes⟩ :: visitsAll f yes scopes.enter
  | .ifElse condition yes (some no), scopes =>
    let between := (inScope (Stmt.checkAll (some f.context) yes) scopes).scopes
    ⟨f, .ifElse condition yes (some no), scopes⟩ ::
      (visitsAll f yes scopes.enter ++ visitsAll f no between.enter)
  | .whileDo condition body, scopes =>
    ⟨f, .whileDo condition body, scopes⟩ :: visitsAll f body scopes.enter
  | .forDo start condition step body, scopes =>
    let started := (sequence Assign.check start scopes.enter).scopes
    let stepped := (sequence Assign.check step started).scopes
    let again := (sequence Assign.check step stepped).scopes
    ⟨f, .forDo start condition step body, scopes⟩ ::
      (assignVisits f start scopes.enter ++ assignVisits f step started ++
        assignVisits f step stepped ++ visitsAll f body again)
  | .forEach ty name container body, scopes =>
    ⟨f, .forEach ty name container body, scopes⟩ ::
      visitsAll f body (Check.declare (.bound name ty) scopes.enter).scopes
  | stmt, scopes => [⟨f, stmt, scopes⟩]

def visitsAll (f : Function) : List Stmt → ScopeStack → List Visit
  | [], _ => []
  | stmt :: rest, scopes =>
    visits f stmt scopes ++ visitsAll f rest (stmt.check (some f.context) scopes).scopes

end

mutual

/-- The statements that a statement consists of, itself first, in the order of its visits.
The assignments of a `para` count as statements. -/
def parts : Stmt → List Stmt
  | .ifElse condition yes none => .ifElse condition yes none :: partsAll yes
  | .ifElse condition yes (some no) =>
    .ifElse condition yes (some no) :: (partsAll yes ++ partsAll no)
  | .whileDo condition body => .whileDo condition body :: partsAll body
  | .forDo start condition step body =>
    .forDo start condition step body ::
      (start.map Stmt.assign ++ step.map Stmt.assign ++ step.map Stmt.assign ++ partsAll body)
  | .forEach ty name container body => .forEach ty name container body :: partsAll body
  | stmt => [stmt]

def partsAll : List Stmt → List Stmt
  | [] => []
  | stmt :: rest => parts stmt ++ partsAll rest

end

end Stmt

/-- The scopes in which the checker finds the body of a function. -/
def Function.bodyScopes (f : Function) (scopes : ScopeStack) : ScopeStack :=
  let named := (declareNew (.duplicateFunction f.name)
    (.function f.name (f.params.map Param.ty) f.result) scopes).scopes
  (sequence (fun param => Check.declare (.param param.name param.ty)) f.params named.enter).scopes

def Item.visits : Item → ScopeStack → List Visit
  | .declare _, _ => []
  | .function f, scopes => Stmt.visitsAll f f.body (f.bodyScopes scopes)

namespace Program

/-- The visits of a program, in order. -/
def visits (p : Program) : List Visit := along Item.check Item.visits p.items ScopeStack.empty.enter

/-- The statements of a program, each with its function. -/
def parts (p : Program) : List (Function × Stmt) :=
  p.functions.flatMap fun f => (Stmt.partsAll f.body).map fun stmt => (f, stmt)

end Program

/-- The statement of a visit, with its function. -/
def Check.Visit.part (visit : Visit) : Function × Stmt := (visit.function, visit.stmt)

section Parts

variable (f : Function)

theorem Check.assignVisits_parts (steps : List Assign) (scopes : ScopeStack) :
    (assignVisits f steps scopes).map Visit.part =
      (steps.map Stmt.assign).map fun stmt => (f, stmt) := by
  unfold assignVisits
  induction steps generalizing scopes with
  | nil => rfl
  | cons step rest ih => simp [along, Visit.part, ih]

mutual

theorem Stmt.visits_parts : ∀ (stmt : Stmt) (scopes : ScopeStack),
    (stmt.visits f scopes).map Visit.part = stmt.parts.map fun stmt => (f, stmt)
  | .declare _, _ => by simp [Stmt.visits, Stmt.parts, Visit.part]
  | .assign _, _ => by simp [Stmt.visits, Stmt.parts, Visit.part]
  | .call _ _, _ => by simp [Stmt.visits, Stmt.parts, Visit.part]
  | .ret _, _ => by simp [Stmt.visits, Stmt.parts, Visit.part]
  | .ifElse _ yes none, _ => by
    simp [Stmt.visits, Stmt.parts, Visit.part, Stmt.visitsAll_parts yes]
  | .ifElse _ yes (some no), _ => by
    simp [Stmt.visits, Stmt.parts, Visit.part, Stmt.visitsAll_parts yes, Stmt.visitsAll_parts no]
  | .whileDo _ body, _ => by
    simp [Stmt.visits, Stmt.parts, Visit.part, Stmt.visitsAll_parts body]
  | .forDo _ _ _ body, _ => by
    simp [Stmt.visits, Stmt.parts, Visit.part, Stmt.visitsAll_parts body, assignVisits_parts]
  | .forEach _ _ _ body, _ => by
    simp [Stmt.visits, Stmt.parts, Visit.part, Stmt.visitsAll_parts body]

theorem Stmt.visitsAll_parts : ∀ (stmts : List Stmt) (scopes : ScopeStack),
    (Stmt.visitsAll f stmts scopes).map Visit.part =
      (Stmt.partsAll stmts).map fun stmt => (f, stmt)
  | [], _ => by simp [Stmt.visitsAll, Stmt.partsAll]
  | stmt :: rest, _ => by
    simp [Stmt.visitsAll, Stmt.partsAll, Stmt.visits_parts stmt, Stmt.visitsAll_parts rest]

end

end Parts

/-- Every statement of a program is visited, in order. -/
theorem Program.visits_parts (p : Program) : p.visits.map Visit.part = p.parts := by
  obtain ⟨items⟩ := p
  unfold Program.visits Program.parts Program.functions
  generalize ScopeStack.empty.enter = scopes
  induction items generalizing scopes with
  | nil => rfl
  | cons item rest ih =>
    cases item with
    | declare decl => simp [along, Item.visits, ih]
    | function f => simp [along, Item.visits, ih, Stmt.visitsAll_parts]

namespace Check

/-- Visits that are made by a check. The check is a run; each visit notes a stretch of its
journal, and a run leads up to it; and what the check gives a value to, it does at a visit. -/
structure Makes (scopes : ScopeStack) (outcome : Outcome) (visits : List Visit) : Prop where
  run : Run scopes outcome.journal outcome.scopes
  reached : ∀ visit ∈ visits, ∃ before after,
    outcome.journal = before ++ visit.journal ++ after ∧ Run scopes before visit.scopes
  assigned : outcome.journal.filterMap Event.assigned? = visits.filterMap Visit.assigned?

/-- Notes tell of no assignment. -/
theorem assigned_of_notes {journal : List Event}
    (notes : ∀ event ∈ journal, event.isNote = true) : journal.filterMap Event.assigned? = [] := by
  refine List.filterMap_eq_nil_iff.mpr fun event member => ?_
  have note := notes event member
  cases event with
  | assigned _ => simp [Event.isNote] at note
  | _ => rfl

@[simp] theorem assigned_require (holds : Bool) (diagnostic : Diagnostic) :
    (require holds diagnostic).filterMap Event.assigned? = [] := by
  cases holds <;> rfl

namespace Makes

variable {scopes : ScopeStack} {first : Outcome} {next body : ScopeStack → Outcome}
  {visits others : List Visit}

theorem andThen (before : Makes scopes first visits)
    (after : Makes first.scopes (next first.scopes) others) :
    Makes scopes (first.andThen next) (visits ++ others) where
  run := before.run.append after.run
  reached := by
    refine List.forall_mem_append.mpr ⟨fun visit member => ?_, fun visit member => ?_⟩
    · obtain ⟨early, late, split, run⟩ := before.reached visit member
      exact ⟨early, late ++ (next first.scopes).journal, by simp [Outcome.andThen, split], run⟩
    · obtain ⟨early, late, split, run⟩ := after.reached visit member
      exact ⟨first.journal ++ early, late, by simp [Outcome.andThen, split], before.run.append run⟩
  assigned := by simp [Outcome.andThen, before.assigned, after.assigned]

/-- A check that comes to no statement and gives nothing a value. -/
theorem none {outcome : Outcome} (run : Run scopes outcome.journal outcome.scopes)
    (silent : outcome.journal.filterMap Event.assigned? = []) : Makes scopes outcome [] where
  run := run
  reached := nofun
  assigned := silent

theorem noting {journal : List Event} (run : Run scopes journal scopes)
    (notes : ∀ event ∈ journal, event.isNote = true) : Makes scopes (.noting journal scopes) [] :=
  none run (assigned_of_notes notes)

theorem andNote {journal : ScopeStack → List Event} (makes : Makes scopes first visits)
    (run : ∀ scopes, Run scopes (journal scopes) scopes)
    (notes : ∀ scopes, ∀ event ∈ journal scopes, event.isNote = true) :
    Makes scopes (first.andThen fun scopes => .noting (journal scopes) scopes) visits := by
  have whole : Makes scopes (first.andThen fun scopes => .noting (journal scopes) scopes) _ :=
    makes.andThen (noting (run first.scopes) (notes first.scopes))
  rwa [List.append_nil] at whole

/-- A statement that is no assignment is itself visited first. -/
theorem itself {f : Function} {stmt : Stmt}
    (other : (⟨f, stmt, scopes⟩ : Visit).assigned? = Option.none)
    (makes : Makes scopes (stmt.check (some f.context) scopes) visits) :
    Makes scopes (stmt.check (some f.context) scopes) (⟨f, stmt, scopes⟩ :: visits) where
  run := makes.run
  reached := by
    refine List.forall_mem_cons.mpr ⟨⟨[], [], ?_, .done scopes⟩, makes.reached⟩
    simp [Visit.journal]
  assigned := by rw [makes.assigned, List.filterMap_cons_none other]

theorem enter (scopes : ScopeStack) : Makes scopes (enter scopes) [] :=
  none (.single (.enter scopes)) rfl

theorem leave : ∀ scopes : ScopeStack, Makes scopes (leave scopes) []
  | ⟨[]⟩ => none (.single (.aside rfl)) rfl
  | ⟨frame :: frames⟩ => none (.single (.leave frame frames)) rfl

theorem inScope (makes : Makes scopes.enter (body scopes.enter) visits) :
    Makes scopes (inScope body scopes) visits := by
  have whole : Makes scopes (Check.inScope body scopes) _ :=
    (enter scopes).andThen (makes.andThen (leave _))
  rwa [List.nil_append, List.append_nil] at whole

theorem declare {symbol : Symbol} (arises : symbol.Arises scopes.depth) :
    Makes scopes (declare symbol scopes) [] := by
  refine none (declare_run arises) ?_
  unfold Check.declare
  cases scopes.declare symbol.name symbol <;> rfl

theorem declareNew {symbol : Symbol} {duplicate : Diagnostic}
    (aside : (Event.reported duplicate).isAside = true) (arises : symbol.Arises scopes.depth) :
    Makes scopes (declareNew duplicate symbol scopes) [] := by
  unfold Check.declareNew
  split
  · exact none (.single (.aside aside)) rfl
  · exact declare arises

end Makes

/-- A law of checks and the visits they make that is kept when one check follows another. -/
structure Visiting (law : ScopeStack → Outcome → List Visit → Prop) : Prop where
  idle : ∀ scopes, law scopes (.idle scopes) []
  andThen : ∀ {scopes : ScopeStack} {first : Outcome} {next : ScopeStack → Outcome}
    {visits others : List Visit}, law scopes first visits →
    law first.scopes (next first.scopes) others →
    law scopes (first.andThen next) (visits ++ others)

namespace Visiting

variable {law : ScopeStack → Outcome → List Visit → Prop}

/-- Checking things in order makes the visits of each. -/
theorem along {α : Type} {check : α → ScopeStack → Outcome} {visits : α → ScopeStack → List Visit}
    (visiting : Visiting law) (holds : ScopeStack → Prop)
    (keeps : ∀ x scopes, holds scopes → holds (check x scopes).scopes)
    (each : ∀ x scopes, holds scopes → law scopes (check x scopes) (visits x scopes))
    (xs : List α) {scopes : ScopeStack} (start : holds scopes) :
    law scopes (sequence check xs scopes) (along check visits xs scopes) := by
  induction xs generalizing scopes with
  | nil => exact visiting.idle scopes
  | cons x rest ih => exact visiting.andThen (each x scopes start) (ih (keeps x scopes start))

theorem assigns {f : Function} (visiting : Visiting law)
    (each : ∀ (step : Assign) scopes, law scopes (step.check scopes) [⟨f, .assign step, scopes⟩])
    (steps : List Assign) (scopes : ScopeStack) :
    law scopes (sequence Assign.check steps scopes) (assignVisits f steps scopes) :=
  visiting.along (fun _ => True) (fun _ _ _ => trivial) (fun step scopes _ => each step scopes)
    steps trivial

/-- What is checked of a `para` ahead of its body. -/
theorem loopHead {f : Function} (visiting : Visiting law)
    (each : ∀ (step : Assign) scopes, law scopes (step.check scopes) [⟨f, .assign step, scopes⟩])
    (start : List Assign) (condition : Option Expr) (step : List Assign)
    (looked : ∀ scopes,
      law scopes (.noting ((condition.map (Expr.checkCondition .forDo scopes)).getD []) scopes) [])
    (scopes : ScopeStack) :
    let started := (sequence Assign.check start scopes).scopes
    let stepped := (sequence Assign.check step started).scopes
    law scopes
      ((((sequence Assign.check start scopes).andThen (sequence Assign.check step)).andThen
        fun scopes =>
          .noting ((condition.map (Expr.checkCondition .forDo scopes)).getD []) scopes).andThen
        (sequence Assign.check step))
      (assignVisits f start scopes ++ assignVisits f step started ++
        assignVisits f step stepped) := by
  intro started stepped
  have once := visiting.andThen (visiting.assigns each start scopes)
    (visiting.assigns each step started)
  have noted := visiting.andThen once (looked _)
  rw [List.append_nil] at noted
  exact visiting.andThen noted (visiting.assigns each step stepped)

end Visiting

theorem makes_visiting : Visiting Makes where
  idle scopes := .none (.done scopes) rfl
  andThen := .andThen

theorem makes_none_lawful : Lawful fun check => ∀ scopes, Makes scopes (check scopes) [] where
  idle _ := .none (.done _) rfl
  andThen first second scopes := (first scopes).andThen (second _)
  inScope inside _ := (inside _).inScope

end Check

theorem VarDecl.makes (decl : VarDecl) (scopes : ScopeStack) : Makes scopes (decl.check scopes) [] :=
  makes_none_lawful.sequence (fun _ _ _ => .declareNew rfl (.var _ _ _)) scopes

section Makes

variable (f : Function)

/-- An assignment is a visit of its own. -/
theorem Assign.makes (step : Assign) (scopes : ScopeStack) :
    Makes scopes (step.check scopes) [⟨f, .assign step, scopes⟩] where
  run := by
    unfold Assign.check
    cases found : scopes.lookup step.target with
    | none => exact .single (.aside rfl)
    | some symbol =>
      refine Run.append ?_ (.single (.assign found))
      exact (step.value.infer_run scopes).append (.required _ rfl)
  reached := by
    refine List.forall_mem_singleton.mpr ⟨[], [], ?_, .done scopes⟩
    simp [Visit.journal, Stmt.check]
  assigned := by
    unfold Assign.check
    cases found : scopes.lookup step.target with
    | none => simp [Visit.assigned?, Outcome.noting, Event.assigned?, found]
    | some symbol =>
      have value := assigned_of_notes (step.value.infer_note scopes)
      simp [Visit.assigned?, Event.assigned?, found, value]

/-- A condition notes something ahead of the visits of a block. -/
private theorem guarded_makes {body : ScopeStack → Outcome} {visits : List Visit}
    (construct : Construct) (condition : Expr) (scopes : ScopeStack)
    (inside : Makes scopes.enter (body scopes.enter) visits) :
    Makes scopes ((Outcome.noting (condition.checkCondition construct scopes) scopes).andThen
      (inScope body)) visits :=
  (Makes.noting (condition.checkCondition_run scopes construct)
    (condition.checkCondition_note construct scopes)).andThen inside.inScope

theorem Check.checkLoop_makes (start : List Assign) (condition : Option Expr) (step : List Assign)
    {body : ScopeStack → Outcome} {visits : List Visit} (scopes : ScopeStack)
    (inside :
      let started := (sequence Assign.check start scopes).scopes
      let stepped := (sequence Assign.check step started).scopes
      let again := (sequence Assign.check step stepped).scopes
      Makes again (body again) visits) :
    let started := (sequence Assign.check start scopes).scopes
    let stepped := (sequence Assign.check step started).scopes
    Makes scopes (checkLoop start condition step body scopes)
      (assignVisits f start scopes ++ assignVisits f step started ++ assignVisits f step stepped ++
        visits) := by
  intro started stepped
  have looked (scopes : ScopeStack) := Makes.noting (forCondition_run scopes condition)
    (forCondition_note condition scopes)
  have head := makes_visiting.loopHead (fun step => step.makes f) start condition step looked scopes
  exact head.andThen inside

mutual

/-- Which scopes are open at a visit depends on all the checks before it, so the visits are
followed along the statements and not along their plans. -/
theorem Stmt.makes : ∀ (stmt : Stmt) (scopes : ScopeStack),
    Makes scopes (stmt.check (some f.context) scopes) (stmt.visits f scopes)
  | .declare decl, scopes => by
    rw [Stmt.visits]
    · refine .itself rfl ?_
      rw [Stmt.check]
      exact decl.makes scopes
    all_goals simp
  | .assign step, scopes => by
    rw [Stmt.visits, Stmt.check]
    · exact step.makes f scopes
    all_goals simp
  | .call callee args, scopes => by
    rw [Stmt.visits]
    · refine .itself rfl ?_
      rw [Stmt.check]
      exact .noting (Expr.infer_run scopes _) (Expr.infer_note scopes _)
    all_goals simp
  | .ret value, scopes => by
    rw [Stmt.visits]
    · refine .itself rfl ?_
      rw [Stmt.check]
      exact .none (checkReturnValue_run scopes f.context value)
        (assigned_of_notes (checkReturnValue_note f.context value scopes))
    all_goals simp
  | .ifElse condition yes none, scopes => by
    rw [Stmt.visits]
    refine .itself rfl ?_
    rw [Stmt.check]
    exact guarded_makes .ifElse condition scopes (Stmt.makesAll yes _)
  | .ifElse condition yes (some no), scopes => by
    rw [Stmt.visits]
    refine .itself rfl ?_
    rw [Stmt.check]
    exact (guarded_makes .ifElse condition scopes (Stmt.makesAll yes _)).andThen
      (Stmt.makesAll no _).inScope
  | .whileDo condition body, scopes => by
    rw [Stmt.visits]
    refine .itself rfl ?_
    rw [Stmt.check]
    exact guarded_makes .whileDo condition scopes (Stmt.makesAll body _)
  | .forDo start condition step body, scopes => by
    rw [Stmt.visits]
    refine .itself rfl ?_
    rw [Stmt.check]
    exact (checkLoop_makes f start condition step scopes.enter (Stmt.makesAll body _)).inScope
  | .forEach ty name container body, scopes => by
    rw [Stmt.visits]
    refine .itself rfl ?_
    rw [Stmt.check]
    have bound : Makes scopes.enter (Check.declare (.bound name ty) scopes.enter) [] :=
      .declare (.bound _ _ _)
    have looked := bound.andNote (fun scopes => checkContainer_run scopes ty name container)
      (checkContainer_note ty name container)
    exact (looked.andThen (Stmt.makesAll body _)).inScope

theorem Stmt.makesAll : ∀ (stmts : List Stmt) (scopes : ScopeStack),
    Makes scopes (Stmt.checkAll (some f.context) stmts scopes) (Stmt.visitsAll f stmts scopes)
  | [], scopes => by
    rw [Stmt.visitsAll, Stmt.checkAll]
    exact .none (.done scopes) rfl
  | stmt :: rest, scopes => by
    rw [Stmt.visitsAll, Stmt.checkAll]
    exact (Stmt.makes stmt scopes).andThen (Stmt.makesAll rest _)

end

theorem Function.params_make (scopes : ScopeStack) :
    Makes scopes
      (sequence (fun param => Check.declare (.param param.name param.ty)) f.params scopes) [] :=
  makes_none_lawful.sequence (fun _ _ _ => .declare (.param _ _ _)) scopes

theorem Function.checkBody_makes (scopes : ScopeStack) :
    let bodyScopes :=
      (sequence (fun param => Check.declare (.param param.name param.ty)) f.params scopes).scopes
    Makes scopes (f.checkBody scopes) (Stmt.visitsAll f f.body bodyScopes) := by
  have body := (f.params_make scopes).andThen (Stmt.makesAll f f.body _)
  have ended : Makes scopes (f.checkBody scopes) _ :=
    body.andThen (.none (.required _ rfl) (assigned_require _ _))
  rwa [List.nil_append, List.append_nil] at ended

/-- A function is checked in the global scope, where its name is declared. -/
theorem Function.makes {scopes : ScopeStack} (global : scopes.depth = 1) :
    Makes scopes (f.check scopes) (Stmt.visitsAll f f.body (f.bodyScopes scopes)) := by
  have arises : (Symbol.function f.name (f.params.map Param.ty) f.result).Arises scopes.depth :=
    global ▸ .function _ _ _
  have named : Makes scopes (declareNew (.duplicateFunction f.name) _ scopes) [] :=
    .declareNew rfl arises
  have checking (scopes : ScopeStack) : Makes scopes (.noting [.checking f.name] scopes) [] :=
    .none (.single (.aside rfl)) rfl
  exact (named.andThen (checking _)).andThen (f.checkBody_makes _).inScope

end Makes

theorem Item.makes (item : Item) {scopes : ScopeStack} (global : scopes.depth = 1) :
    Makes scopes (item.check scopes) (item.visits scopes) := by
  cases item with
  | declare decl => exact decl.makes scopes
  | function f => exact f.makes global

/-- Items leave the global scope the only one. -/
theorem Item.check_global (item : Item) {scopes : ScopeStack} (global : scopes.depth = 1) :
    (item.check scopes).scopes.depth = 1 := by
  have nonempty : scopes.frames ≠ [] := by
    rintro empty
    simp [ScopeStack.depth, empty] at global
  exact (item.check_contained nonempty).ages.depth_eq.trans global

namespace Program

theorem makes (p : Program) : Makes .empty p.check p.visits := by
  have items : Makes ScopeStack.empty.enter _ p.visits :=
    makes_visiting.along (fun scopes => scopes.depth = 1) (fun item _ => item.check_global)
      (fun item _ => item.makes) p.items rfl
  exact items.inScope

/-- A program without diagnostics has none at any visit. -/
theorem visit_clean {p : Program} (clean : p.diagnostics = []) {visit : Visit}
    (member : visit ∈ p.visits) : Check.diagnostics visit.journal = [] := by
  obtain ⟨before, after, split, _⟩ := p.makes.reached visit member
  simp only [Program.diagnostics, split, diagnostics_append, List.append_eq_nil_iff] at clean
  exact clean.1.2

end Program

end Caju
