import Caju.Proofs.AssignmentTargets
import Caju.Proofs.CScopes
import Caju.Proofs.ForwardReferences

/-! What the symbol table holds at every moment of a check. Its states are those that the journal
leads to, event by event. In each of them a symbol stands under its own name, a function has its
signature for a type and holds a value, parameters hold one too, and functions are found in the
global scope alone. So it makes no difference whether a function is looked at through its kind, as
calls do, or through its type, as reads and assignments do; and what a call finds was declared by
the item at hand or by one before it. Main statement: `Program.symbol_table`. -/

namespace Caju

open Check

/-! ### The states of a check -/

namespace Check

/-- The scopes that a check passes through, from those it began in: at any time the journal so far
leads to them. -/
def Passes (before : ScopeStack) (outcome : Outcome) (scopes : ScopeStack) : Prop :=
  ∃ past, past <+: outcome.journal ∧ past.foldl Event.replay before = scopes

theorem Action.replay {before after : ScopeStack} {events : List Event}
    (action : Action before events after) : events.foldl Event.replay before = after := by
  cases action with
  | declare _ declared => simp [Event.replay, Check.declare, declared]
  | @read _ name symbol _ => cases symbol.initialized <;> rfl
  | @aside _ event aside => cases event <;> simp_all [Event.isAside, Event.replay]
  | _ => rfl

/-- An action changes no scope before its last event. -/
theorem Action.replay_part {before after : ScopeStack} {inner outer : List Event} {event : Event}
    (action : Action before (inner ++ event :: outer) after) :
    inner.foldl Event.replay before = before := by
  cases inner with
  | nil => rfl
  | cons first rest =>
    generalize whole : first :: rest ++ event :: outer = events at action
    cases action with
    | @read _ name symbol _ =>
      obtain ⟨rfl, tail⟩ : first = .read name ∧ rest ++ event :: outer =
          require symbol.initialized (.uninitializedVariable name) := List.cons.inj whole
      have short : (require symbol.initialized (.uninitializedVariable name)).length ≤ 1 := by
        cases symbol.initialized <;> simp [require]
      have ended : rest = [] := by
        rw [← tail, List.length_append, List.length_cons] at short
        exact List.length_eq_zero_iff.mp (by omega)
      rw [ended]
      rfl
    | _ => simp at whole

namespace Run

variable {scopes last : ScopeStack} {journal : List Event}

theorem replay (run : Run scopes journal last) : journal.foldl Event.replay scopes = last := by
  induction run with
  | done _ => rfl
  | next action _ ih => rw [List.foldl_append, action.replay, ih]

/-- Up to any point of its journal a run is a run. -/
theorem upTo (run : Run scopes journal last) {front : List Event} (part : front <+: journal) :
    ∃ past, past <+: front ∧ Run scopes past (front.foldl Event.replay scopes) := by
  obtain ⟨after, rfl⟩ := part
  cases after with
  | nil =>
    rw [List.append_nil] at run
    exact ⟨front, List.prefix_rfl, run.replay ▸ run⟩
  | cons event after =>
    obtain ⟨early, inner, outer, rest, here, beyond, rfl, -, ran, action, -⟩ := run.at_event
    refine ⟨early, List.prefix_append early inner, ?_⟩
    rw [List.foldl_append, ran.replay, action.replay_part]
    exact ran

end Run

namespace Passes

variable {before scopes : ScopeStack} {outcome first : Outcome} {next : ScopeStack → Outcome}

theorem of_run {past rest : List Event} (split : outcome.journal = past ++ rest)
    (run : Run before past scopes) : Passes before outcome scopes :=
  ⟨past, split ▸ List.prefix_append past rest, run.replay⟩

theorem early (passes : Passes before first scopes) :
    Passes before (first.andThen next) scopes := by
  obtain ⟨past, part, leads⟩ := passes
  exact ⟨past, part.trans (List.prefix_append _ _), leads⟩

theorem late (ran : Run before first.journal first.scopes)
    (passes : Passes first.scopes (next first.scopes) scopes) :
    Passes before (first.andThen next) scopes := by
  obtain ⟨past, part, leads⟩ := passes
  refine ⟨first.journal ++ past, (List.prefix_append_right_inj _).mpr part, ?_⟩
  rw [List.foldl_append, ran.replay, leads]

end Passes

end Check

/-- The scopes that items leave behind for the next one. -/
def Item.scopesAfter (items : List Item) : ScopeStack :=
  (Check.sequence Item.check items ScopeStack.empty.enter).scopes

theorem Item.scopesAfter_global (items : List Item) : (Item.scopesAfter items).depth = 1 := by
  have lexical := items_contained items (ScopeStack.enter_opened .empty)
  exact lexical.ages.depth_eq

theorem Item.scopesAfter_run (items : List Item) :
    Run ScopeStack.empty.enter (Check.sequence Item.check items ScopeStack.empty.enter).journal
      (Item.scopesAfter items) := by
  have makes : Makes ScopeStack.empty.enter (Check.sequence Item.check items _) _ :=
    makes_visiting.along (fun scopes => scopes.depth = 1) (fun item _ => item.check_global)
      (fun item _ => item.makes) items rfl
  exact makes.run

/-- The states of checking an item are states of checking the program. -/
theorem Program.passes_item {earlier later : List Item} {item : Item} {scopes : ScopeStack}
    (passes : Passes (Item.scopesAfter earlier) (item.check (Item.scopesAfter earlier)) scopes) :
    Passes .empty (Program.check ⟨earlier ++ item :: later⟩) scopes := by
  have inside : Passes ScopeStack.empty.enter
      (Check.sequence Item.check (earlier ++ item :: later) ScopeStack.empty.enter) scopes := by
    rw [sequence_append]
    exact .late (Item.scopesAfter_run earlier) passes.early
  exact .late (.single (.enter .empty)) inside.early

/-! ### What it holds -/

namespace Check.Throughout

variable {good : Nat → String → Symbol → Prop} {frames : List Frame}

/-- All frames but the outermost one are above the first level. -/
theorem of_mem_dropLast (throughout : Throughout good frames) {frame : Frame}
    (member : frame ∈ frames.dropLast) :
    ∃ level, 1 < level ∧ ∀ key symbol, frame.find? key = some symbol → good level key symbol := by
  induction frames with
  | nil => cases member
  | cons first outer ih =>
    obtain ⟨here, further⟩ := throughout
    cases outer with
    | nil => cases member
    | cons second others =>
      rcases List.mem_cons.mp member with rfl | later
      · exact ⟨_, by simp, here⟩
      · exact ih further later

theorem located (throughout : Throughout good frames) {key : String} {level : Nat}
    {symbol : Symbol} (found : locate (·.find? key) frames = some (level, symbol)) :
    good level key symbol := by
  induction frames with
  | nil => cases found
  | cons frame outer ih =>
    obtain ⟨here, further⟩ := throughout
    cases held : frame.find? key with
    | none =>
      simp only [locate, held] at found
      exact ih further found
    | some other =>
      obtain ⟨rfl, rfl⟩ : outer.length + 1 = level ∧ other = symbol := by
        simpa [locate, held] using found
      exact here key other held

end Check.Throughout

/-- A symbol that may stand under a key. -/
structure Symbol.Fits (key : String) (symbol : Symbol) : Prop where
  name : symbol.name = key
  signed : symbol.Signed
  callable : symbol.isFunction = true → symbol.initialized = true
  passed : symbol.kind = .param → symbol.initialized = true

namespace Symbol.Fits

variable {key : String} {symbol : Symbol}

theorem of_arises {level : Nat} (arises : symbol.Arises level) : symbol.Fits symbol.name where
  name := rfl
  signed := arises.signed
  callable function := by
    cases arises with
    | function _ _ _ => rfl
    | _ => cases function
  passed parameter := by
    cases arises with
    | param _ _ _ => rfl
    | _ => cases parameter

theorem valued (fits : symbol.Fits key) : Symbol.Fits key { symbol with initialized := true } where
  name := fits.name
  signed := fits.signed
  callable _ := rfl
  passed _ := rfl

end Symbol.Fits

/-- The invariant of the symbol table: every symbol fits its key, and functions are declared in
the outermost scope alone. -/
structure ScopeStack.Sound (scopes : ScopeStack) : Prop where
  entries : ∀ frame ∈ scopes.frames, ∀ key symbol, frame.find? key = some symbol → symbol.Fits key
  functions : ∀ frame ∈ scopes.frames.dropLast, ∀ key symbol, frame.find? key = some symbol →
    symbol.isFunction = false

/-- What is known of a symbol by its level and its key: it fits there, a function is on the first
level, and the journal tells of its declaration. -/
structure Symbol.Kept (past : List Event) (level : Nat) (key : String) (symbol : Symbol) :
    Prop where
  fits : symbol.Fits key
  global : symbol.isFunction = true → level = 1
  declared : ∃ original replaced, Event.declared original replaced ∈ past ∧ original.Ages symbol

namespace Symbol.Kept

variable {past : List Event} {level : Nat} {key : String} {symbol : Symbol}

theorem later {events : List Event} (kept : symbol.Kept past level key) :
    symbol.Kept (past ++ events) level key where
  fits := kept.fits
  global := kept.global
  declared := by
    obtain ⟨original, replaced, member, ages⟩ := kept.declared
    exact ⟨original, replaced, List.mem_append_left events member, ages⟩

theorem of_arises {replaced : Option Symbol} (arises : symbol.Arises level) :
    symbol.Kept (past ++ [.declared symbol replaced]) level symbol.name where
  fits := .of_arises arises
  global function := by
    cases arises with
    | function _ _ _ => rfl
    | _ => cases function
  declared := ⟨symbol, replaced, by simp, .refl symbol⟩

theorem valued (kept : symbol.Kept past level key) :
    Symbol.Kept past level key { symbol with initialized := true } where
  fits := kept.fits.valued
  global := kept.global
  declared := by
    obtain ⟨original, replaced, member, ages⟩ := kept.declared
    exact ⟨original, replaced, member, ages.trans ⟨rfl, rfl, rfl, fun _ => rfl⟩⟩

end Symbol.Kept

namespace Check

variable {past : List Event} {scopes : ScopeStack}

theorem Run.kept (run : Run .empty past scopes) : Throughout (Symbol.Kept past) scopes.frames :=
  run.throughout Symbol.Kept .later .of_arises .valued

theorem Run.sound (run : Run .empty past scopes) : scopes.Sound where
  entries frame member key symbol found := by
    obtain ⟨level, kept⟩ := run.kept.of_mem member
    exact (kept key symbol found).fits
  functions frame member key symbol found := by
    obtain ⟨level, inner, kept⟩ := run.kept.of_mem_dropLast member
    by_contra function
    have outermost := (kept key symbol found).global (by simpa using function)
    omega

end Check

/-! ### One signature -/

/-- A name goes by one signature, whether it is read, assigned to or called. -/
structure ScopeStack.SignedAs (scopes : ScopeStack) (name : String) (params : List Ty)
    (result : Ty) : Prop where
  read : (Expr.var name).infer scopes = (.function params result, [.read name])
  assigned : ∀ value : Expr, (Assign.check ⟨name, value⟩ scopes).journal =
    (value.infer scopes).2 ++
      require ((Ty.function params result).accepts (value.infer scopes).1)
        (.assignmentMismatch name (.function params result) (value.infer scopes).1) ++
      [.assigned name]
  called : ∀ args : List Expr, (Expr.call name args).infer scopes =
    (result, if args.length = params.length then Expr.checkArgs scopes name 1 params args
      else [.reported (.argumentCount name params.length args.length)])

namespace ScopeStack.Sound

variable {scopes : ScopeStack}

theorem lookup (sound : scopes.Sound) {name : String} {symbol : Symbol}
    (found : scopes.lookup name = some symbol) : symbol.Fits name := by
  obtain ⟨frame, member, held⟩ := List.exists_of_findSome?_eq_some found
  exact sound.entries frame member name symbol held

theorem signedAs (sound : scopes.Sound) {name : String} {symbol : Symbol} {params : List Ty}
    {result : Ty} (found : scopes.lookup name = some symbol)
    (function : symbol.kind = .function params result) : scopes.SignedAs name params result := by
  have fits := sound.lookup found
  have typed : symbol.ty = .function params result := fits.signed params result function
  have valued : symbol.initialized = true := fits.callable (by simp [Symbol.isFunction, function])
  constructor
  · simp [Expr.infer, found, typed, valued, require]
  · intro value
    simp [Assign.check, found, typed]
  · intro args
    rw [Expr.infer, found]
    simp only [function]
    split <;> rfl

end ScopeStack.Sound

/-! ### Where functions come from -/

theorem VarDecl.symbols_variables (decl : VarDecl) :
    ∀ symbol ∈ decl.symbols, symbol.isFunction = false := by
  intro symbol member
  obtain ⟨name, _, rfl⟩ := List.mem_map.mp member
  rfl

theorem Stmt.symbols_variables (stmts : List Stmt) :
    ∀ symbol ∈ stmts.flatMap Stmt.symbols, symbol.isFunction = false := by
  intro symbol member
  obtain ⟨stmt, _, declared⟩ := List.mem_flatMap.mp member
  cases stmt with
  | declare decl => exact decl.symbols_variables symbol declared
  | _ => cases declared

/-- A block that starts with variables goes on with variables. -/
theorem Block.variables {blocks : List Block} {bound : List Symbol} (stmts : List Stmt)
    (inside : ∀ symbol ∈ Block.allSymbols blocks, symbol.isFunction = false)
    (starts : ∀ symbol ∈ bound, symbol.isFunction = false) :
    ∀ symbol ∈ Block.allSymbols (blocks ++ [⟨bound, stmts.flatMap Stmt.symbols⟩]),
      symbol.isFunction = false := by
  rw [Block.allSymbols, List.flatMap_append, List.flatMap_singleton, Block.declarations]
  refine List.forall_mem_append.mpr ⟨inside, ?_⟩
  exact List.forall_mem_append.mpr ⟨starts, Stmt.symbols_variables stmts⟩

mutual

/-- No function is declared inside a statement. -/
theorem Stmt.blocks_variables : ∀ stmt : Stmt,
    ∀ symbol ∈ Block.allSymbols stmt.blocks, symbol.isFunction = false
  | .declare _ => by simp [Stmt.blocks, Block.allSymbols]
  | .assign _ => by simp [Stmt.blocks, Block.allSymbols]
  | .call _ _ => by simp [Stmt.blocks, Block.allSymbols]
  | .ret _ => by simp [Stmt.blocks, Block.allSymbols]
  | .ifElse _ yes none => by
    rw [Stmt.blocks]
    exact Block.variables yes (Stmt.blocksAll_variables yes) (by simp)
  | .ifElse _ yes (some no) => by
    rw [Stmt.blocks, Block.allSymbols, List.flatMap_append]
    refine List.forall_mem_append.mpr ⟨?_, ?_⟩
    · exact Block.variables yes (Stmt.blocksAll_variables yes) (by simp)
    · exact Block.variables no (Stmt.blocksAll_variables no) (by simp)
  | .whileDo _ body => by
    rw [Stmt.blocks]
    exact Block.variables body (Stmt.blocksAll_variables body) (by simp)
  | .forDo _ _ _ body => by
    rw [Stmt.blocks]
    exact Block.variables body (Stmt.blocksAll_variables body) (by simp)
  | .forEach ty name _ body => by
    rw [Stmt.blocks]
    refine Block.variables body (Stmt.blocksAll_variables body) ?_
    exact List.forall_mem_singleton.mpr rfl

theorem Stmt.blocksAll_variables : ∀ stmts : List Stmt,
    ∀ symbol ∈ Block.allSymbols (Stmt.blocksAll stmts), symbol.isFunction = false
  | [] => by simp [Stmt.blocksAll, Block.allSymbols]
  | stmt :: rest => by
    rw [Stmt.blocksAll, Block.allSymbols, List.flatMap_append]
    exact List.forall_mem_append.mpr ⟨Stmt.blocks_variables stmt, Stmt.blocksAll_variables rest⟩

end

theorem Item.blocks_variables (item : Item) :
    ∀ symbol ∈ Block.allSymbols item.blocks, symbol.isFunction = false := by
  cases item with
  | declare decl => simp [Item.blocks, Block.allSymbols]
  | function f =>
    refine Block.variables f.body (Stmt.blocksAll_variables f.body) ?_
    intro symbol member
    obtain ⟨param, _, rfl⟩ := List.mem_map.mp member
    rfl

/-- The functions that a program declares are its items. -/
theorem Program.function_of_symbol {p : Program} {symbol : Symbol} (member : symbol ∈ p.symbols)
    (function : symbol.isFunction = true) : ∃ f, Item.function f ∈ p.items ∧ symbol = f.symbol := by
  have outermost : symbol ∈ p.items.flatMap Item.symbols := by
    rw [Program.symbols, Program.blocks, Block.allSymbols, List.flatMap_append,
      List.flatMap_singleton] at member
    rcases List.mem_append.mp member with inside | declared
    · obtain ⟨block, present, holds⟩ := List.mem_flatMap.mp inside
      obtain ⟨item, _, among⟩ := List.mem_flatMap.mp present
      have data := item.blocks_variables symbol (List.mem_flatMap.mpr ⟨block, among, holds⟩)
      rw [data] at function
      cases function
    · exact declared
  obtain ⟨item, listed, own⟩ := List.mem_flatMap.mp outermost
  cases item with
  | declare decl =>
    rw [decl.symbols_variables symbol own] at function
    cases function
  | function f => exact ⟨f, listed, List.mem_singleton.mp own⟩

/-- A symbol that held a value from the start stays as it was declared. -/
theorem Symbol.Ages.eq_of_valued {original symbol : Symbol} (ages : original.Ages symbol)
    (valued : original.initialized = true) : symbol = original := by
  obtain ⟨name, kind, ty, initialized⟩ := ages
  have still := initialized valued
  cases symbol
  cases original
  simp_all

/-- A call with nothing wrong has found a function, and brings as many arguments as that takes. -/
theorem Expr.call_clean {scopes : ScopeStack} {callee : String} {args : List Expr}
    (clean : diagnostics ((Expr.call callee args).infer scopes).2 = []) :
    ∃ symbol params result, scopes.lookup callee = some symbol ∧
      symbol.kind = .function params result ∧ args.length = params.length := by
  rw [Expr.infer] at clean
  cases found : scopes.lookup callee with
  | none => simp [found, Event.diagnostic?] at clean
  | some symbol =>
    cases kind : symbol.kind with
    | function params result =>
      by_cases arity : args.length = params.length
      · exact ⟨symbol, params, result, rfl, kind, arity⟩
      · simp [found, kind, arity, Event.diagnostic?] at clean
    | _ => simp [found, kind, Event.diagnostic?] at clean

namespace Program

variable {p : Program} {scopes : ScopeStack}

theorem passes_run (passes : Passes .empty p.check scopes) :
    ∃ past, past <+: p.check.journal ∧ Run .empty past scopes := by
  obtain ⟨front, part, rfl⟩ := passes
  obtain ⟨past, early, run⟩ := p.makes.run.upTo part
  exact ⟨past, early.trans part, run⟩

/-- A function that a name stands for is an item, found in the global scope. -/
theorem function_found (passes : Passes .empty p.check scopes) {name : String} {symbol : Symbol}
    (found : scopes.lookup name = some symbol) (function : symbol.isFunction = true) :
    ∃ f, Item.function f ∈ p.items ∧ f.name = name ∧ symbol = f.symbol ∧
      scopes.locate name = some (1, symbol) := by
  obtain ⟨past, part, run⟩ := passes_run passes
  obtain ⟨⟨level, held⟩, located, rfl⟩ : ∃ place, scopes.locate name = some place ∧
      place.2 = symbol := by
    rw [ScopeStack.lookup_eq_locate] at found
    exact Option.map_eq_some_iff.mp found
  have kept : held.Kept past level name := run.kept.located located
  obtain ⟨original, replaced, declared, ages⟩ := kept.declared
  have same : original.isFunction = true := by
    rw [Symbol.isFunction, ← ages.kind]
    exact function
  obtain ⟨f, listed, rfl⟩ := function_of_symbol (p.declares _ _ (part.subset declared)) same
  have unchanged : held = f.symbol := ages.eq_of_valued rfl
  refine ⟨f, listed, ?_, unchanged, ?_⟩
  · rw [← kept.fits.name, unchanged]
    rfl
  · rw [located, kept.global function]

/-- In every state of checking a program the symbol table is sound, so that a function goes by one
signature however it is used. While an item is checked, a call with nothing wrong finds a function
that is this item or an earlier one, in the global scope. -/
theorem symbol_table (p : Program) :
    (∀ scopes, Passes .empty p.check scopes → scopes.Sound ∧
      ∀ name symbol params result, scopes.lookup name = some symbol →
        symbol.kind = .function params result → scopes.SignedAs name params result) ∧
    ∀ earlier item later, p.items = earlier ++ item :: later →
      let opened := Item.scopesAfter earlier
      (∀ visit ∈ item.visits opened, Passes opened (item.check opened) visit.scopes) ∧
      ∀ scopes, Passes opened (item.check opened) scopes →
        Passes .empty p.check scopes ∧
        ∀ callee args, Check.diagnostics ((Expr.call callee args).infer scopes).2 = [] →
          ∃ f, Item.function f ∈ earlier ++ [item] ∧ f.name = callee ∧
            args.length = f.params.length ∧ scopes.locate callee = some (1, f.symbol) := by
  refine ⟨fun scopes passes => ?_, ?_⟩
  · obtain ⟨past, _, run⟩ := passes_run passes
    exact ⟨run.sound, fun name symbol params result => run.sound.signedAs⟩
  · intro earlier item later split opened
    refine ⟨fun visit visited => ?_, fun scopes passes => ⟨?_, fun callee args clean => ?_⟩⟩
    · have global := Item.scopesAfter_global earlier
      obtain ⟨before, after, stretch, run⟩ := (item.makes global).reached visit visited
      rw [List.append_assoc] at stretch
      exact .of_run stretch run
    · obtain ⟨items⟩ := p
      subst split
      exact passes_item passes
    · obtain ⟨symbol, params, result, found, kind, arity⟩ := Expr.call_clean clean
      have function : symbol.isFunction = true := by simp [Symbol.isFunction, kind]
      -- the items that follow do not matter to what has been declared so far
      obtain ⟨f, listed, named, rfl, located⟩ := function_found (passes_item passes) found function
      refine ⟨f, listed, named, ?_, located⟩
      obtain ⟨rfl, rfl⟩ : f.params.map Param.ty = params ∧ f.result = result := by
        simpa [Function.symbol, Symbol.function] using kind
      rwa [List.length_map] at arity

/-- The body of a second function of one name is checked with the first one declared. -/
theorem symbol_table_duplicate :
    let first : Function := ⟨"f", [⟨"x", .number⟩], .number, [.ret (some (.var "x"))]⟩
    let second : Function := ⟨"f", [], .void, [.call "f" [.number 1]]⟩
    let p : Program := ⟨[.function first, .function second]⟩
    let scopes : ScopeStack := ⟨[.empty, ⟨[("f", first.symbol)]⟩]⟩
    p.diagnostics = [.duplicateFunction "f"] ∧
    (⟨second, .call "f" [.number 1], scopes⟩ : Visit) ∈ p.visits ∧
    scopes.Sound ∧ scopes.SignedAs "f" [.number] .number ∧
    ∃ f, Item.function f ∈ p.items ∧ f.name = "f" ∧ f.params.length = 1 ∧
      scopes.locate "f" = some (1, f.symbol) := by
  intro first second p scopes
  let visit : Visit := ⟨second, .call "f" [.number 1], scopes⟩
  have visited : visit ∈ Item.visits (.function second) (Item.scopesAfter [.function first]) :=
    List.mem_singleton_self _
  obtain ⟨invariant, items⟩ := p.symbol_table
  obtain ⟨reached, calls⟩ := items [.function first] (.function second) [] rfl
  obtain ⟨passes, called⟩ := calls scopes (reached visit visited)
  obtain ⟨sound, signed⟩ := invariant scopes passes
  obtain ⟨f, listed, named, arity, located⟩ := called "f" [.number 1] (by decide)
  exact ⟨by decide, List.mem_of_getElem? (i := 1) rfl, sound, signed "f" _ _ _ rfl rfl,
    f, listed, named, arity.symm, located⟩

end Program

end Caju
