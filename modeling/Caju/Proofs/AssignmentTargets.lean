import Caju.C.Program
import Caju.Proofs.Acceptance
import Caju.Proofs.Visits

/-! What a program without diagnostics assigns to. Functions are kept among the variables,
and an assignment is checked by its types alone, so a function passes for a target where the
value is of the very type of that function, or of unknown type. -/

namespace Caju

open Check

/-- The type of a function symbol is its signature. -/
def Symbol.Signed (symbol : Symbol) : Prop :=
  ∀ params result, symbol.kind = .function params result → symbol.ty = .function params result

theorem Symbol.Arises.signed {depth : Nat} {symbol : Symbol} (arises : symbol.Arises depth) :
    symbol.Signed := by
  intro params result function
  cases arises with
  | var _ name ty => cases function
  | bound _ name ty => cases function
  | param _ name ty => cases function
  | function name params result =>
    cases function
    rfl

/-- Only names and calls can be of a function type, or of unknown type. -/
theorem Expr.named_or_called {scopes : ScopeStack} {expr : Expr}
    (ty : (expr.infer scopes).1.isFunction = true ∨ (expr.infer scopes).1 = .unknown) :
    (∃ name, expr = .var name) ∨ ∃ callee args, expr = .call callee args := by
  cases expr with
  | var name => exact .inl ⟨name, rfl⟩
  | call callee args => exact .inr ⟨callee, args, rfl⟩
  | binary op left right =>
    cases op <;> simp [Expr.infer, BinOp.opClass, OpClass.result, Ty.isFunction] at ty
  | _ => simp [Expr.infer, Ty.isFunction] at ty

/-- An assignment has nothing wrong exactly if its target is declared and accepts the value. -/
theorem Assign.clean_iff (assign : Assign) (scopes : ScopeStack) :
    diagnostics (assign.check scopes).journal = [] ↔
      ∃ symbol, scopes.lookup assign.target = some symbol ∧
        diagnostics (assign.value.infer scopes).2 = [] ∧
        symbol.ty.accepts (assign.value.infer scopes).1 = true := by
  unfold Assign.check
  cases scopes.lookup assign.target with
  | none => simp [Outcome.noting, Event.diagnostic?]
  | some symbol => simp [Event.diagnostic?]

/-- In a program without diagnostics every assignment, wherever it stands, goes to a variable
or a parameter, or else to a function. In that case its value is a name or a call of the type
of that function, or of unknown type. -/
theorem Program.assignment_targets (p : Program) (clean : p.diagnostics = []) :
    p.visits.map Visit.part = p.parts ∧
    ∀ visit ∈ p.visits, ∀ assign, visit.stmt = .assign assign →
      ∃ symbol, visit.scopes.lookup assign.target = some symbol ∧
        (symbol.kind = .var ∨ symbol.kind = .param ∨
          ∃ params result, symbol.kind = .function params result ∧
            ((∃ name, assign.value = .var name) ∨
              ∃ callee args, assign.value = .call callee args) ∧
            ((assign.value.infer visit.scopes).1 = .function params result ∨
              (assign.value.infer visit.scopes).1 = .unknown)) := by
  refine ⟨p.visits_parts, fun visit member assign assigns => ?_⟩
  obtain ⟨before, _, _, run⟩ := p.makes.reached visit member
  have nothing := visit_clean clean member
  rw [Visit.journal, assigns, Stmt.check] at nothing
  obtain ⟨symbol, found, _, accepted⟩ := (assign.clean_iff visit.scopes).mp nothing
  refine ⟨symbol, found, ?_⟩
  cases kind : symbol.kind with
  | var => exact .inl rfl
  | param => exact .inr (.inl rfl)
  | function params result =>
    have signed : symbol.Signed := run.symbols Symbol.Arises.signed (fun signed => signed) found
    rw [signed params result kind] at accepted
    have typed : (assign.value.infer visit.scopes).1 = .function params result ∨
        (assign.value.infer visit.scopes).1 = .unknown := by
      rcases (Ty.accepts_iff _ _).mp accepted with never | unknown | same
      · cases never
      · exact .inr unknown
      · exact .inl same.symm
    have form := Expr.named_or_called (typed.imp_left fun same => by rw [same, Ty.isFunction])
    exact .inr (.inr ⟨params, result, rfl, form, typed⟩)

/-- An assignment to a parameter, inside a loop. -/
theorem Program.assignment_targets_parameter :
    let p : Program := ⟨[.function ⟨"f", [⟨"i", .number⟩], .void,
      [.whileDo (.boolean true) [.assign ⟨"i", .number 1⟩]]⟩]⟩
    p.diagnostics = [] ∧
    ∃ visit ∈ p.visits, visit.stmt = .assign ⟨"i", .number 1⟩ ∧
      ∃ symbol, visit.scopes.lookup "i" = some symbol ∧
        (symbol.kind = .var ∨ symbol.kind = .param) := by
  intro p
  have clean : p.diagnostics = [] := by decide
  have second : 1 < p.visits.length := by decide
  obtain ⟨symbol, found, kinds⟩ :=
    (p.assignment_targets clean).2 p.visits[1] (List.getElem_mem second) ⟨"i", .number 1⟩ rfl
  refine ⟨clean, p.visits[1], List.getElem_mem second, rfl, symbol, found, ?_⟩
  rcases kinds with var | param | ⟨_, _, _, ⟨_, never⟩ | ⟨_, _, never⟩, _⟩
  · exact .inl var
  · exact .inr param
  · cases never
  · cases never

/-- A function that is assigned to itself, which C refuses. -/
theorem Program.assignment_targets_itself :
    let p : Program := ⟨[.function ⟨"f", [], .void, [.assign ⟨"f", .var "f"⟩]⟩]⟩
    p.diagnostics = [] ∧ "    f = f;" ∈ (p.emit .fresh).lines.toList ∧
    ∃ visit ∈ p.visits, ∃ assign symbol, visit.stmt = .assign assign ∧
      visit.scopes.lookup assign.target = some symbol ∧ symbol.isFunction = true := by
  intro p
  have first : 0 < p.visits.length := by decide
  exact ⟨by decide, by decide, p.visits[0], List.getElem_mem first, ⟨"f", .var "f"⟩,
    .function "f" [] .void, rfl, rfl, rfl⟩

end Caju
