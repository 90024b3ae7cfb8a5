import Caju.Compile

/-! A checker and a generator that are used again and again. The checker keeps its
scopes and what it found last; the generator keeps the state its last run left it in. -/

namespace Caju

open Check

structure Session where
  scopes : ScopeStack
  diagnostics : List Diagnostic
  emitter : C.Emitter
  deriving DecidableEq, Inhabited

namespace Session

/-- A session in which nothing has been done yet. -/
def fresh : Session := ⟨.empty, [], .fresh⟩

/-- Checks a program. What was found before is forgotten, and so are the scopes. -/
def analyze (p : Program) (session : Session) : Session :=
  let started := { session with scopes := .empty, diagnostics := [] }
  let outcome := inScope (sequence Item.check p.items) started.scopes
  { started with
    scopes := outcome.scopes
    diagnostics := started.diagnostics ++ Check.diagnostics outcome.journal }

/-- Generates C for a program. -/
def generate (p : Program) (session : Session) : String × Session :=
  let written := p.emit session.emitter
  (written.text, { session with emitter := { written with lines := #[] } })

/-- What a session can be asked to do. -/
inductive Call where
  | analyze (p : Program)
  | generate (p : Program)

inductive Answer where
  | found (diagnostics : List Diagnostic)
  | generated (text : String)
  deriving DecidableEq

def perform (session : Session) : Call → Answer × Session
  | .analyze p =>
    let after := session.analyze p
    (.found after.diagnostics, after)
  | .generate p =>
    let (text, after) := session.generate p
    (.generated text, after)

/-- The answers to calls that are made one after another. -/
def answers : Session → List Call → List Answer
  | _, [] => []
  | session, call :: rest =>
    let (answer, after) := session.perform call
    answer :: after.answers rest

end Session

end Caju
