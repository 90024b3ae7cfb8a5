import Caju.Proofs.Scoping

/-! Checks as runs of small actions. An action depends on the open scopes alone; it says
which events go to the journal and which scopes are open afterwards. Every check is such a
run, so what all actions preserve holds wherever a check comes past. -/

namespace Caju

/-- The symbols that come to be declared while so many scopes are open. Functions are
declared in the global scope only. -/
inductive Symbol.Arises : Nat → Symbol → Prop where
  | var (depth : Nat) (name : String) (ty : Ty) : Arises depth (.var name ty)
  | bound (depth : Nat) (name : String) (ty : Ty) : Arises depth (.bound name ty)
  | param (depth : Nat) (name : String) (ty : Ty) : Arises depth (.param name ty)
  | function (name : String) (params : List Ty) (result : Ty) :
      Arises 1 (.function name params result)

namespace Check

/-- Whether an event neither changes the scopes nor tells of a variable that is read. -/
def Event.isAside : Event → Bool
  | .checking _ => true
  | .misused _ => true
  | .reported (.uninitializedVariable _) => false
  | .reported _ => true
  | _ => false

theorem eq_of_mem_require {holds : Bool} {diagnostic : Diagnostic} {event : Event}
    (member : event ∈ require holds diagnostic) : event = .reported diagnostic := by
  cases holds with
  | true => simp [require] at member
  | false => simpa [require] using member

/-- The actions that checks are made of: the scopes before, the events, and the scopes
after. Reading a variable that holds no value is reported there and then. -/
inductive Action : ScopeStack → List Event → ScopeStack → Prop where
  | enter (scopes : ScopeStack) : Action scopes [.entered scopes.enter.depth] scopes.enter
  | leave (frame : Frame) (frames : List Frame) :
      Action ⟨frame :: frames⟩ [.left frames.length] ⟨frames⟩
  | declare {scopes after : ScopeStack} {symbol : Symbol} {replaced : Option Symbol}
      (arises : symbol.Arises scopes.depth)
      (declared : scopes.declare symbol.name symbol = .ok (replaced, after)) :
      Action scopes [.declared symbol replaced] after
  | assign {scopes : ScopeStack} {name : String} {symbol : Symbol}
      (found : scopes.lookup name = some symbol) :
      Action scopes [.assigned name] (scopes.markInitialized name)
  | read {scopes : ScopeStack} {name : String} {symbol : Symbol}
      (found : scopes.lookup name = some symbol) :
      Action scopes (.read name :: require symbol.initialized (.uninitializedVariable name)) scopes
  | readUndeclared {scopes : ScopeStack} {name : String} (missing : scopes.lookup name = none) :
      Action scopes [.read name] scopes
  | aside {scopes : ScopeStack} {event : Event} (aside : event.isAside = true) :
      Action scopes [event] scopes

/-- Actions one after another, with the journal they make together. -/
inductive Run : ScopeStack → List Event → ScopeStack → Prop where
  | done (scopes : ScopeStack) : Run scopes [] scopes
  | next {scopes middle last : ScopeStack} {events journal : List Event}
      (action : Action scopes events middle) (rest : Run middle journal last) :
      Run scopes (events ++ journal) last

namespace Run

variable {scopes middle last : ScopeStack} {journal later : List Event}

theorem single (action : Action scopes journal last) : Run scopes journal last := by
  have run := next action (done last)
  rwa [List.append_nil] at run

theorem append (before : Run scopes journal middle) (after : Run middle later last) :
    Run scopes (journal ++ later) last := by
  induction before with
  | done _ => exact after
  | next action _ ih =>
    rw [List.append_assoc]
    exact next action (ih after)

/-- What holds at the start and is preserved by every action holds after a run. The journal
so far may be part of it. -/
theorem preserves (holds : List Event → ScopeStack → Prop)
    (step : ∀ {past events : List Event} {before after : ScopeStack}, Action before events after →
      holds past before → holds (past ++ events) after)
    (run : Run scopes journal last) (past : List Event) (start : holds past scopes) :
    holds (past ++ journal) last := by
  induction run generalizing past with
  | done _ => rwa [List.append_nil]
  | next action _ ih =>
    rw [← List.append_assoc]
    exact ih _ (step action start)

/-- Every event of a run belongs to one of its actions. -/
theorem at_event {before after : List Event} {event : Event}
    (run : Run scopes (before ++ event :: after) last) :
    ∃ front inner outer rest here beyond, before = front ++ inner ∧ after = outer ++ rest ∧
      Run scopes front here ∧ Action here (inner ++ event :: outer) beyond ∧ Run beyond rest last := by
  generalize split : before ++ event :: after = journal at run
  induction run generalizing before with
  | done _ => simp at split
  | @next scopes middle last events journal action rest ih =>
    have later (remains : List Event) (begins : before = events ++ remains)
        (goes : remains ++ event :: after = journal) :
        ∃ front inner outer rest here beyond, before = front ++ inner ∧ after = outer ++ rest ∧
          Run scopes front here ∧ Action here (inner ++ event :: outer) beyond ∧
          Run beyond rest last := by
      obtain ⟨front, inner, outer, rest, here, beyond, rfl, ends, ran, acts, goesOn⟩ := ih goes
      exact ⟨events ++ front, inner, outer, rest, here, beyond, by simp [begins], ends,
        next action ran, acts, goesOn⟩
    rcases List.append_eq_append_iff.mp split with ⟨own, within, follows⟩ | ⟨remains, begins, goes⟩
    · cases own with
      | nil =>
        rw [List.append_nil] at within
        exact later [] (by rw [within, List.append_nil]) follows
      | cons first outer =>
        obtain ⟨rfl, rfl⟩ : event = first ∧ after = outer ++ journal := by simpa using follows
        exact ⟨[], before, outer, journal, scopes, middle, rfl, rfl, done scopes, within ▸ action, rest⟩
    · exact later remains begins goes.symm

theorem asides (asides : ∀ event ∈ journal, event.isAside = true) : Run scopes journal scopes := by
  induction journal with
  | nil => exact done scopes
  | cons event journal ih =>
    obtain ⟨first, others⟩ := List.forall_mem_cons.mp asides
    exact next (.aside first) (ih others)

theorem required (holds : Bool) {diagnostic : Diagnostic}
    (aside : (Event.reported diagnostic).isAside = true) :
    Run scopes (require holds diagnostic) scopes := by
  refine asides fun event member => ?_
  rw [eq_of_mem_require member]
  exact aside

end Run

section Throughout

variable {good better : Nat → String → Symbol → Prop} {frames : List Frame}

/-- Every symbol of some frames has a property, given the level of its frame and its key. -/
def Throughout (good : Nat → String → Symbol → Prop) : List Frame → Prop
  | [] => True
  | frame :: outer =>
    (∀ key symbol, frame.find? key = some symbol → good (outer.length + 1) key symbol) ∧
      Throughout good outer

namespace Throughout

theorem mono (throughout : Throughout good frames)
    (implied : ∀ {level key symbol}, good level key symbol → better level key symbol) :
    Throughout better frames := by
  induction frames with
  | nil => trivial
  | cons frame outer ih =>
    obtain ⟨here, further⟩ := throughout
    exact ⟨fun key symbol found => implied (here key symbol found), ih further⟩

theorem insert {frame : Frame} {key : String} {symbol : Symbol}
    (throughout : Throughout good (frame :: frames)) (new : good (frames.length + 1) key symbol) :
    Throughout good (frame.insert key symbol :: frames) := by
  obtain ⟨here, further⟩ := throughout
  refine ⟨fun other found held => ?_, further⟩
  rw [Frame.find?_insert] at held
  split at held
  · rename_i same
    exact Option.some.inj held ▸ same ▸ new
  · exact here other found held

theorem markFrames (throughout : Throughout good frames)
    (valued : ∀ {level key symbol}, good level key symbol →
      good level key { symbol with initialized := true })
    (key : String) : Throughout good (ScopeStack.markFrames key frames) := by
  induction frames with
  | nil => trivial
  | cons frame outer ih =>
    obtain ⟨here, further⟩ := throughout
    unfold ScopeStack.markFrames
    cases held : frame.find? key with
    | none =>
      refine ⟨fun other symbol found => ?_, ih further⟩
      have levels : (ScopeStack.markFrames key outer).length = outer.length :=
        ScopeStack.depth_markInitialized ⟨outer⟩ key
      rw [levels]
      exact here other symbol found
    | some symbol => exact insert ⟨here, further⟩ (valued (here key symbol held))

theorem of_mem (throughout : Throughout good frames) {frame : Frame} (member : frame ∈ frames) :
    ∃ level, ∀ key symbol, frame.find? key = some symbol → good level key symbol := by
  induction frames with
  | nil => cases member
  | cons first outer ih =>
    obtain ⟨here, further⟩ := throughout
    rcases List.mem_cons.mp member with rfl | later
    · exact ⟨_, here⟩
    · exact ih further later

end Throughout

end Throughout

section Symbols

variable {before after scopes : ScopeStack} {past events journal : List Event}

/-- What holds of symbols when they are declared, and still does once they are given a value,
holds throughout after an action. The journal so far may be part of it. -/
theorem Action.throughout (good : List Event → Nat → String → Symbol → Prop)
    (action : Action before events after)
    (later : ∀ {past events level key symbol}, good past level key symbol →
      good (past ++ events) level key symbol)
    (arises : ∀ {past level symbol replaced}, symbol.Arises level →
      good (past ++ [.declared symbol replaced]) level symbol.name symbol)
    (valued : ∀ {past level key symbol}, good past level key symbol →
      good past level key { symbol with initialized := true })
    (throughout : Throughout (good past) before.frames) :
    Throughout (good (past ++ events)) after.frames := by
  have still : Throughout (good (past ++ events)) before.frames := throughout.mono later
  cases action with
  | enter _ => exact ⟨nofun, still⟩
  | leave frame frames => exact still.2
  | declare new declared =>
    obtain ⟨frames⟩ := before
    cases frames with
    | nil => simp [ScopeStack.declare] at declared
    | cons frame frames =>
      simp only [ScopeStack.declare, Except.ok.injEq, Prod.mk.injEq] at declared
      obtain ⟨_, rfl⟩ := declared
      exact still.insert (arises new)
  | assign _ => exact still.markFrames valued _
  | _ => exact still

theorem Run.throughout (good : List Event → Nat → String → Symbol → Prop)
    (run : Run .empty journal scopes)
    (later : ∀ {past events level key symbol}, good past level key symbol →
      good (past ++ events) level key symbol)
    (arises : ∀ {past level symbol replaced}, symbol.Arises level →
      good (past ++ [.declared symbol replaced]) level symbol.name symbol)
    (valued : ∀ {past level key symbol}, good past level key symbol →
      good past level key { symbol with initialized := true }) :
    Throughout (good journal) scopes.frames := by
  have start : Throughout (good []) ScopeStack.empty.frames := trivial
  exact run.preserves (fun past scopes => Throughout (good past) scopes.frames)
    (fun action => action.throughout good later arises valued) [] start

/-- What holds of every symbol that arises, and goes on holding once it is given a value,
holds of every symbol there is after a run. -/
theorem Run.symbols {good : Symbol → Prop} (run : Run .empty journal scopes)
    (arises : ∀ {depth : Nat} {symbol : Symbol}, symbol.Arises depth → good symbol)
    (valued : ∀ {symbol : Symbol}, good symbol → good { symbol with initialized := true })
    {name : String} {symbol : Symbol} (found : scopes.lookup name = some symbol) : good symbol := by
  have all : Throughout (fun _ _ symbol => good symbol) scopes.frames :=
    run.throughout (fun _ _ _ symbol => good symbol) (fun held => held) arises valued
  obtain ⟨frame, member, held⟩ := List.exists_of_findSome?_eq_some found
  obtain ⟨level, here⟩ := all.of_mem member
  exact here name symbol held

end Symbols

theorem declare_run {scopes : ScopeStack} {symbol : Symbol} (arises : symbol.Arises scopes.depth) :
    Run scopes (declare symbol scopes).journal (declare symbol scopes).scopes := by
  obtain ⟨frames⟩ := scopes
  cases frames with
  | nil => exact .single (.aside rfl)
  | cons frame frames => exact .single (.declare arises rfl)

end Check

open Check

section Expressions

variable (scopes : ScopeStack)

mutual

theorem Expr.infer_run : ∀ expr : Expr, Run scopes (expr.infer scopes).2 scopes
  | .number _ => by
    rw [Expr.infer]
    exact .done scopes
  | .boolean _ => by
    rw [Expr.infer]
    exact .done scopes
  | .character _ => by
    rw [Expr.infer]
    exact .required _ rfl
  | .var name => by
    rw [Expr.infer]
    cases found : scopes.lookup name with
    | none => exact .next (.readUndeclared found) (.single (.aside rfl))
    | some symbol => exact .single (.read found)
  | .binary _ left right => by
    rw [Expr.infer]
    exact (Expr.infer_run left).append (Expr.infer_run right)
  | .not operand => by
    rw [Expr.infer]
    exact (Expr.infer_run operand).append (.required _ rfl)
  | .neg operand => by
    rw [Expr.infer]
    exact (Expr.infer_run operand).append (.required _ rfl)
  | .call callee args => by
    rw [Expr.infer]
    cases scopes.lookup callee with
    | none => exact .single (.aside rfl)
    | some symbol =>
      dsimp only
      cases symbol.kind with
      | var => exact .single (.aside rfl)
      | param => exact .single (.aside rfl)
      | function params result =>
        dsimp only
        split
        · exact Expr.checkArgs_run callee 1 params args
        · exact .single (.aside rfl)

theorem Expr.checkArgs_run (callee : String) : ∀ (position : Nat) (params : List Ty)
    (args : List Expr), Run scopes (Expr.checkArgs scopes callee position params args) scopes
  | _, [], _ => by
    rw [Expr.checkArgs]
    · exact .done scopes
    · simp
  | _, _ :: _, [] => by
    rw [Expr.checkArgs]
    · exact .done scopes
    · simp
  | position, expected :: params, arg :: args => by
    rw [Expr.checkArgs]
    exact ((Expr.infer_run arg).append (.required _ rfl)).append
      (Expr.checkArgs_run callee (position + 1) params args)

end

theorem Expr.checkCondition_run (construct : Construct) (condition : Expr) :
    Run scopes (condition.checkCondition construct scopes) scopes :=
  (condition.infer_run scopes).append (.required _ rfl)

theorem checkContainer_run (ty : Ty) (name container : String) :
    Run scopes (checkContainer ty name container scopes) scopes := by
  unfold checkContainer
  cases scopes.lookup container with
  | none => exact .single (.aside rfl)
  | some symbol =>
    dsimp only
    cases symbol.ty.element? with
    | none => exact .single (.aside rfl)
    | some element => exact .required _ rfl

theorem checkReturnValue_run (context : Context) (value : Option Expr) :
    Run scopes (checkReturnValue context value scopes) scopes := by
  cases value with
  | none => exact .required _ rfl
  | some value => exact (value.infer_run scopes).append (.required _ rfl)

theorem forCondition_run (condition : Option Expr) :
    Run scopes ((condition.map (Expr.checkCondition .forDo scopes)).getD []) scopes := by
  cases condition with
  | none => exact .done scopes
  | some condition => exact condition.checkCondition_run scopes .forDo

end Expressions

end Caju
