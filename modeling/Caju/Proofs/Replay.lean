import Caju.Proofs.Scoping

/-! The scopes of a check, told again from its journal. Each event has its effect on the
open scopes, so the journal alone shows which scopes there were, what happened in each
while it was the innermost one, and which symbols it held when it was closed. -/

namespace Caju

namespace Check

/-- The open scopes after an event. -/
def Event.replay (scopes : ScopeStack) : Event → ScopeStack
  | .entered _ => scopes.enter
  | .left _ => (leave scopes).scopes
  | .declared symbol _ => (declare symbol scopes).scopes
  | .assigned name => scopes.markInitialized name
  | _ => scopes

/-- A scope that has been closed: its frame at that time, and the events that happened
while it was the innermost scope. -/
structure ScopeLife where
  frame : Frame
  events : List Event

/-- A journal told up to some point: the open scopes with the events of each, innermost
first, and the lives of the scopes closed so far. -/
structure Telling where
  scopes : ScopeStack
  running : List (List Event)
  closed : List ScopeLife

namespace Telling

def next (telling : Telling) (event : Event) : Telling :=
  let scopes := event.replay telling.scopes
  match event, telling.running, telling.scopes.frames with
  | .entered _, running, _ => ⟨scopes, [] :: running, telling.closed⟩
  | .left _, events :: running, frame :: _ => ⟨scopes, running, telling.closed ++ [⟨frame, events⟩]⟩
  | event, events :: running, _ => ⟨scopes, (events ++ [event]) :: running, telling.closed⟩
  | _, [], _ => ⟨scopes, [], telling.closed⟩

theorem next_quiet {event : Event} (quiet : event.isQuiet = true) (scopes : ScopeStack)
    (events : List Event) (running : List (List Event)) (closed : List ScopeLife) :
    next ⟨scopes, events :: running, closed⟩ event =
      ⟨event.replay scopes, (events ++ [event]) :: running, closed⟩ := by
  cases event with
  | entered depth => simp [Event.isQuiet] at quiet
  | left depth => simp [Event.isQuiet] at quiet
  | _ => rfl

theorem foldl_next_quiet {journal : List Event} (quiet : ∀ event ∈ journal, event.isQuiet = true)
    (scopes : ScopeStack) (events : List Event) (running : List (List Event))
    (closed : List ScopeLife) :
    journal.foldl next ⟨scopes, events :: running, closed⟩ =
      ⟨journal.foldl Event.replay scopes, (events ++ journal) :: running, closed⟩ := by
  induction journal generalizing scopes events with
  | nil => simp
  | cons event journal ih =>
    obtain ⟨first, rest⟩ := List.forall_mem_cons.mp quiet
    rw [List.foldl_cons, List.foldl_cons, next_quiet first, ih rest]
    simp

end Telling

/-- The lives of the scopes that a journal tells of, in the order they were closed. -/
def scopeLives (journal : List Event) : List ScopeLife :=
  (journal.foldl Telling.next ⟨.empty, [], []⟩).closed

/-- What the journal of a check that began in the given scopes tells: it leads to the scopes
that the check left, and on the way adds events to the innermost scope and closes others. -/
def Tells (before : ScopeStack) (outcome : Outcome) (own : List Event) (lives : List ScopeLife) :
    Prop :=
  ∀ events running closed,
    outcome.journal.foldl Telling.next ⟨before, events :: running, closed⟩ =
      ⟨outcome.scopes, (events ++ own) :: running, closed ++ lives⟩

namespace Tells

variable {scopes : ScopeStack}

/-- A journal that neither opens nor closes a scope belongs to the innermost one. -/
theorem quiet {outcome : Outcome} (silent : ∀ event ∈ outcome.journal, event.isQuiet = true)
    (replayed : outcome.journal.foldl Event.replay scopes = outcome.scopes) :
    Tells scopes outcome outcome.journal [] := by
  intro events running closed
  rw [Telling.foldl_next_quiet silent, replayed, List.append_nil]

theorem andThen {first : Outcome} {next : ScopeStack → Outcome} {own later : List Event}
    {lives others : List ScopeLife} (before : Tells scopes first own lives)
    (after : Tells first.scopes (next first.scopes) later others) :
    Tells scopes (first.andThen next) (own ++ later) (lives ++ others) := by
  intro events running closed
  have told := after (events ++ own) running (closed ++ lives)
  rw [Outcome.andThen, List.foldl_append, before events running closed, told,
    List.append_assoc, List.append_assoc]

/-- A check in a scope of its own ends the life of that scope. -/
theorem inScope {innermost : Frame → Frame → Prop} {body : ScopeStack → Outcome}
    {own : List Event} {lives : List ScopeLife} {frame : Frame} {frames : List Frame}
    (lexical : Lexical innermost scopes.enter (body scopes.enter))
    (ended : (body scopes.enter).scopes = ⟨frame :: frames⟩)
    (inside : Tells scopes.enter (body scopes.enter) own lives) :
    Tells scopes (inScope body scopes) [] (lives ++ [⟨frame, own⟩]) := by
  obtain ⟨left, outer, same, _, result⟩ := lexical.inScope_eq
  rw [ended] at same
  obtain ⟨rfl, rfl⟩ : frame = left ∧ frames = outer := by simpa using same
  intro events running closed
  have told := inside [] (events :: running) closed
  rw [ended] at told
  rw [result, List.cons_append, List.foldl_cons, List.foldl_append]
  have entered : Telling.next ⟨scopes, events :: running, closed⟩ (.entered (scopes.depth + 1)) =
      ⟨scopes.enter, [] :: events :: running, closed⟩ := rfl
  rw [entered, told]
  simp [Telling.next, Event.replay, leave, ScopeStack.leave]

end Tells

end Check

end Caju
