import Caju.Proofs.CScopes
import Caju.Proofs.StructureOrder

/-! What loops over arrays read. A loop declares its variable before it looks for its container,
and C knows the variable before it reads its value. So a loop whose variable has the name of its
container would read itself; but an array is no element of itself, and the checker refuses it.
Main statement: if a program has no diagnostics, every line that binds an element reads the
container that the checker found (`Program.loops_read_containers`). -/

namespace Caju

open Check C

namespace Ty

theorem array_ne_element (element : Ty) : array element ≠ element := by
  intro same
  have size := congrArg sizeOf same
  simp at size

/-- An array does not fit where its elements do, if these are known. -/
theorem not_accepts_element {element : Ty} (known : ¬unknown.Within (array element)) :
    ¬(array element).accepts element = true := by
  rw [accepts_iff]
  rintro (never | rfl | same)
  · cases never
  · exact known (.element .refl)
  · exact array_ne_element element same

end Ty

namespace Check

/-- Where the container of a loop is looked up, the variable of the loop is in front. -/
theorem locate_bound (name : String) (ty : Ty) (frames : ScopeStack) (key : String) :
    (Check.declare (.bound name ty) frames.enter).scopes.locate key =
      if key = name then some (frames.depth + 1, .bound name ty) else frames.locate key := by
  have innermost : (Frame.empty.insert name (.bound name ty)).find? key =
      if key = name then some (.bound name ty) else none := Frame.find?_insert _ _ _ _
  split
  · rename_i same
    rw [if_pos same] at innermost
    exact locate_here innermost
  · rename_i different
    rw [if_neg different] at innermost
    exact locate_further innermost

/-- What the checker has found for the container of a loop, if it found nothing wrong. -/
theorem checkContainer_clean {ty : Ty} {name container : String} {frames : ScopeStack}
    (clean : diagnostics (checkContainer ty name container frames) = []) :
    ∃ symbol element, frames.lookup container = some symbol ∧ symbol.ty = .array element ∧
      ty.accepts element = true := by
  unfold checkContainer at clean
  cases found : frames.lookup container with
  | none => simp [found, Event.diagnostic?] at clean
  | some symbol =>
    cases shape : symbol.ty with
    | array element =>
      have fits : ty.accepts element = true := by simpa [found, shape, Ty.element?] using clean
      exact ⟨symbol, element, rfl, shape, fits⟩
    | _ => simp [found, shape, Ty.element?, Event.diagnostic?] at clean

/-- A loop whose check finds nothing wrong has had its container looked up. -/
theorem Visit.container_clean {f : Function} {ty : Ty} {name container : String} {body : List Stmt}
    {frames : ScopeStack}
    (clean : diagnostics (Visit.journal ⟨f, .forEach ty name container body, frames⟩) = []) :
    diagnostics (checkContainer ty name container
      (Check.declare (.bound name ty) frames.enter).scopes) = [] := by
  simp only [Visit.journal, Stmt.check, inScope, checkEach, Outcome.andThen, enter,
    Outcome.noting, diagnostics_append, List.append_eq_nil_iff] at clean
  exact clean.2.1.1.2

/-- The line that binds the element of a loop, as C reads it. The variable is in scope already;
but the container is the symbol that the checker found, and that stands outside the loop. -/
inductive ReadsContainer : Visit → Point → Prop where
  | array {f : Function} {frames : ScopeStack} {ty element : Ty} {name container : String}
      {body : List Stmt} {level number place : Nat} {symbol : Symbol} {scopes : List C.Scope}
      (apart : name ≠ container)
      (found : (Check.declare (.bound name ty) frames.enter).scopes.locate container =
        some (place, symbol))
      (outside : frames.locate container = some (place, symbol))
      (shape : symbol.ty = .array element) (fits : ty.accepts element = true)
      (here : denoted (ident name) scopes = some (scopes.length, .typed ty))
      (there : denoted (ident container) scopes = some (place, .typed symbol.ty))
      (further : place < scopes.length) :
      ReadsContainer ⟨f, .forEach ty name container body, frames⟩
        ⟨⟨level, .element number ty name container⟩, scopes⟩

theorem Meets.readsContainer {visit : Visit} {point : Point} (meets : Meets visit point)
    (clean : diagnostics visit.journal = [])
    (apart : ∀ ty name container body, visit.stmt = .forEach ty name container body →
      name ≠ container) : ReadsContainer visit point := by
  cases meets with
  | @loop f frames ty name container body level number scopes shows =>
    have apart := apart ty name container body rfl
    obtain ⟨symbol, element, found, shape, fits⟩ :=
      checkContainer_clean (Visit.container_clean clean)
    rw [ScopeStack.lookup_eq_locate] at found
    obtain ⟨⟨place, _⟩, located, rfl⟩ := Option.map_eq_some_iff.mp found
    have outside := located
    rw [locate_bound, if_neg apart.symm] at outside
    have here := locate_bound name ty frames name
    rw [if_pos rfl] at here
    have levels : frames.depth + 1 = scopes.length := shows.length_eq
    have within : place ≤ frames.depth := locate_le outside
    exact .array apart located outside shape fits (levels ▸ shows.denoted here)
      (shows.denoted located) (by omega)

end Check

namespace Program

variable {p : Program}

/-- The lines of a program, as C comes to them from the top of the file. -/
def points (p : Program) : List Point := C.points [[]] p.placed

theorem declared_of_loop {f : Function} {ty : Ty} {name container : String} {body : List Stmt}
    (part : (f, .forEach ty name container body) ∈ p.parts) : ty ∈ p.declaredTypes := by
  obtain ⟨g, member, inside⟩ := List.mem_flatMap.mp part
  obtain ⟨stmt, own, equal⟩ := List.mem_map.mp inside
  cases equal
  refine Item.declaredTypes_subset (mem_functions member) ty (List.mem_cons_of_mem _ ?_)
  rw [Stmt.declaredTypesAll_eq]
  exact List.mem_filterMap.mpr ⟨_, own, rfl⟩

/-- A loop over its own variable is refused. -/
theorem loop_apart (known : ∀ ty ∈ p.declaredTypes, ¬Ty.unknown.Within ty)
    (clean : p.diagnostics = []) {f : Function} {ty : Ty} {name container : String}
    {body : List Stmt} (part : (f, .forEach ty name container body) ∈ p.parts) :
    name ≠ container := by
  rintro rfl
  have declared := known ty (declared_of_loop part)
  rw [← p.visits_parts] at part
  obtain ⟨⟨g, stmt, frames⟩, member, equal⟩ := List.mem_map.mp part
  cases equal
  obtain ⟨symbol, element, found, shape, fits⟩ :=
    checkContainer_clean (Visit.container_clean (visit_clean clean member))
  -- the name is looked up with the variable declared, so the variable itself is found
  have itself : symbol = .bound name ty := by
    rw [ScopeStack.lookup_eq_locate, locate_bound, if_pos rfl] at found
    exact (Option.some.inj found).symm
  rw [itself] at shape
  have array : ty = .array element := shape
  rw [array] at fits declared
  exact Ty.not_accepts_element declared fits

/-- If a program has no diagnostics and no unknown types, no loop over an array has the variable
that it declares for its container. So where generated C binds the variable to an element, it
reads the container that the checker found, and not the variable. -/
theorem loops_read_containers (p : Program)
    (known : ∀ ty ∈ p.declaredTypes, ¬Ty.unknown.Within ty) (clean : p.diagnostics = []) :
    (∀ f ty name container body, (f, .forEach ty name container body) ∈ p.parts →
      name ≠ container) ∧
    (∀ e, (p.emit e).lines.toList = p.points.map fun point => point.placed.text) ∧
    List.Forall₂ ReadsContainer (p.visits.filter Visit.isEach)
      (p.points.filter Point.isBinding) := by
  refine ⟨fun f ty name container body => loop_apart known clean, fun e => ?_, ?_⟩
  · have lines : p.points.map Point.placed = p.placed := points_placed [[]] p.placed
    rw [p.emit_placed e, ← lines, List.map_map]
    rfl
  · have each : ∀ visit ∈ p.visits.filter Visit.isEach, visit ∈ p.visits := fun visit member =>
      List.mem_of_mem_filter member
    refine ((List.forall₂_and_left _ _).mpr ⟨each, p.meets clean⟩).imp ?_
    rintro visit point ⟨member, meets⟩
    refine meets.readsContainer (visit_clean clean member) fun ty name container body loop => ?_
    have part : (visit.function, .forEach ty name container body) ∈ p.parts := by
      rw [← p.visits_parts, ← loop]
      exact List.mem_map_of_mem member
    exact loop_apart known clean part

-- With elements of unknown type, a loop over its own variable would pass.
example : (⟨[.function ⟨"f", [], .void, [.forEach (.array .unknown) "v" "v" []]⟩]⟩ :
    Program).diagnostics = [] := by decide

/-- Loops that hide the container of a loop around them, or one outside of it. -/
theorem loops_read_containers_hiding :
    let p : Program := ⟨[.declare ⟨.array (.array .number), ["m"]⟩,
      .function ⟨"f", [⟨"v", .array .number⟩], .void,
        [.forEach (.array .number) "l" "m" [.forEach .number "m" "l" []],
          .forEach .number "m" "v" []]⟩]⟩
    (∀ ty ∈ p.declaredTypes, ¬Ty.unknown.Within ty) ∧ p.diagnostics = [] ∧
    (p.points.filter Point.isBinding).map (fun point => point.placed.text) =
      ["        caju_array_int l = m.data[caju_i0];", "            int m = l.data[caju_i1];",
        "        int m = v.data[caju_i2];"] ∧
    List.Forall₂ ReadsContainer (p.visits.filter Visit.isEach)
      (p.points.filter Point.isBinding) := by
  intro p
  have number : ¬Ty.unknown.Within .number := by
    intro within
    cases within
  have row : ¬Ty.unknown.Within (.array .number) := by
    intro within
    cases within with
    | element inner => exact number inner
  have table : ¬Ty.unknown.Within (.array (.array .number)) := by
    intro within
    cases within with
    | element inner => exact row inner
  have signature : ¬Ty.unknown.Within (.function [.array .number] .void) := by
    intro within
    cases within with
    | param member inner => exact row (List.mem_singleton.mp member ▸ inner)
    | result inner => cases inner
  have known : ∀ ty ∈ p.declaredTypes, ¬Ty.unknown.Within ty := by
    have types : p.declaredTypes = [.array (.array .number), .function [.array .number] .void,
      .array .number, .number, .number] := rfl
    simp [types, table, signature, row, number]
  have clean : p.diagnostics = [] := by decide
  exact ⟨known, clean, by decide, (p.loops_read_containers known clean).2.2⟩

end Program

end Caju
