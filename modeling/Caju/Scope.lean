import Caju.Association
import Caju.Ty

/-! Names and what they stand for. Every symbol belongs to the frame it was
declared in and goes with it; a name means the symbol of the innermost frame that
holds it. -/

namespace Caju

inductive SymbolKind where
  | var
  | param
  | function (params : List Ty) (result : Ty)
  deriving DecidableEq, Inhabited

/-- A declared name. The type of a function is its full signature. -/
structure Symbol where
  name : String
  kind : SymbolKind
  ty : Ty
  initialized : Bool
  deriving DecidableEq, Inhabited

namespace Symbol

/-- A variable that holds no value yet. -/
def var (name : String) (ty : Ty) : Symbol := ⟨name, .var, ty, false⟩

/-- A variable that holds a value from the start, as that of a `para cada` does. -/
def bound (name : String) (ty : Ty) : Symbol := ⟨name, .var, ty, true⟩

def param (name : String) (ty : Ty) : Symbol := ⟨name, .param, ty, true⟩

def function (name : String) (params : List Ty) (result : Ty) : Symbol :=
  ⟨name, .function params result, .function params result, true⟩

def isFunction (symbol : Symbol) : Bool :=
  match symbol.kind with
  | .function .. => true
  | _ => false

end Symbol

/-- The symbols declared directly in one scope, each under its key. -/
structure Frame where
  entries : List (String × Symbol)
  deriving DecidableEq, Inhabited

namespace Frame

def empty : Frame := ⟨[]⟩

def find? (frame : Frame) (key : String) : Option Symbol := frame.entries.lookup key

/-- Puts a symbol under a key; one that is there already gives way. -/
def insert (frame : Frame) (key : String) (symbol : Symbol) : Frame :=
  ⟨Association.insert key symbol frame.entries⟩

theorem find?_insert (frame : Frame) (key other : String) (symbol : Symbol) :
    (frame.insert key symbol).find? other = if other = key then some symbol else frame.find? other :=
  Association.lookup_insert key other symbol frame.entries

end Frame

/-- The ways a scope stack can be misused. -/
inductive ScopeFault where
  | nothingToLeave
  | nowhereToDeclare
  deriving DecidableEq, Inhabited

/-- The open scopes, innermost first. -/
structure ScopeStack where
  frames : List Frame
  deriving DecidableEq, Inhabited

namespace ScopeStack

def empty : ScopeStack := ⟨[]⟩

def depth (scopes : ScopeStack) : Nat := scopes.frames.length

def enter (scopes : ScopeStack) : ScopeStack := ⟨.empty :: scopes.frames⟩

/-- Closes the innermost scope, giving back the frame that goes with it. -/
def leave (scopes : ScopeStack) : Except ScopeFault (Frame × ScopeStack) :=
  match scopes.frames with
  | [] => .error .nothingToLeave
  | frame :: frames => .ok (frame, ⟨frames⟩)

/-- Declares a symbol in the innermost scope, giving back the one it replaces. -/
def declare (scopes : ScopeStack) (key : String) (symbol : Symbol) :
    Except ScopeFault (Option Symbol × ScopeStack) :=
  match scopes.frames with
  | [] => .error .nowhereToDeclare
  | frame :: frames => .ok (frame.find? key, ⟨frame.insert key symbol :: frames⟩)

/-- Whether the innermost scope itself holds the name. -/
def holds (scopes : ScopeStack) (key : String) : Bool :=
  match scopes.frames with
  | [] => false
  | frame :: _ => (frame.find? key).isSome

/-- The symbol a name stands for. -/
def lookup (scopes : ScopeStack) (key : String) : Option Symbol :=
  scopes.frames.findSome? (·.find? key)

/-- Marks the symbol a name stands for in a list of frames. -/
def markFrames (key : String) : List Frame → List Frame
  | [] => []
  | frame :: frames =>
    match frame.find? key with
    | some symbol => frame.insert key { symbol with initialized := true } :: frames
    | none => frame :: markFrames key frames

/-- Records that the symbol a name stands for holds a value. -/
def markInitialized (scopes : ScopeStack) (key : String) : ScopeStack :=
  ⟨markFrames key scopes.frames⟩

@[simp] theorem depth_enter (scopes : ScopeStack) : scopes.enter.depth = scopes.depth + 1 := rfl

/-- Opening a scope hides nothing. -/
@[simp] theorem lookup_enter (scopes : ScopeStack) (key : String) :
    scopes.enter.lookup key = scopes.lookup key := rfl

/-- Closing the scope just opened restores the stack. -/
@[simp] theorem leave_enter (scopes : ScopeStack) : scopes.enter.leave = .ok (.empty, scopes) := rfl

private theorem length_markFrames (key : String) (frames : List Frame) :
    (markFrames key frames).length = frames.length := by
  induction frames with
  | nil => rfl
  | cons frame frames ih =>
    unfold markFrames
    cases frame.find? key with
    | none => simp [ih]
    | some symbol => rfl

@[simp] theorem depth_markInitialized (scopes : ScopeStack) (key : String) :
    (scopes.markInitialized key).depth = scopes.depth :=
  length_markFrames key scopes.frames

private theorem findSome?_markFrames (key other : String) (frames : List Frame) :
    (markFrames key frames).findSome? (·.find? other) =
      if other = key then
        (frames.findSome? (·.find? key)).map fun symbol => { symbol with initialized := true }
      else frames.findSome? (·.find? other) := by
  induction frames with
  | nil => simp [markFrames]
  | cons frame frames ih =>
    unfold markFrames
    cases found : frame.find? key with
    | none =>
      by_cases same : other = key
      · subst same
        simp only [if_true] at ih
        simp [found, ih]
      · simp only [same, if_false] at ih
        simp [same, ih, List.findSome?_cons]
    | some symbol =>
      by_cases same : other = key
      · subst same
        simp [Frame.find?_insert, found]
      · simp [Frame.find?_insert, same, List.findSome?_cons]

/-- Marking a name changes the symbol it stands for, and no other. -/
theorem lookup_markInitialized (scopes : ScopeStack) (key other : String) :
    (scopes.markInitialized key).lookup other =
      if other = key then (scopes.lookup key).map fun symbol => { symbol with initialized := true }
      else scopes.lookup other :=
  findSome?_markFrames key other scopes.frames

/-- What a name stands for after a declaration. -/
theorem lookup_declare {scopes after : ScopeStack} {key : String} {symbol : Symbol}
    {replaced : Option Symbol} (declared : scopes.declare key symbol = .ok (replaced, after))
    (other : String) :
    after.lookup other = if other = key then some symbol else scopes.lookup other := by
  obtain ⟨frames⟩ := scopes
  cases frames with
  | nil => simp [declare] at declared
  | cons frame frames =>
    simp only [declare, Except.ok.injEq, Prod.mk.injEq] at declared
    obtain ⟨_, rfl⟩ := declared
    by_cases same : other = key
    · subst same
      simp [lookup, Frame.find?_insert]
    · simp [lookup, Frame.find?_insert, same, List.findSome?_cons]

end ScopeStack

end Caju
