import Caju.Proofs.CLines
import Caju.Proofs.NameClashes
import Mathlib.Data.List.Forall2

/-! Scopes in generated C. A line is read as C reads it: it closes a scope, declares identifiers,
or opens a scope; and an identifier denotes what the innermost scope that declares it says. Suits
the lines of a program without diagnostics, these scopes show what the checker had declared when
it came to the statement. Main statement: the lines that bind the elements of arrays are met in
the scopes in which the loops were checked (`Program.meets`). -/

namespace Caju

open Check

/-- The innermost of some nested places where something is found, counted from the outermost,
and what is found there. -/
def locate {α β : Type} (look : α → Option β) : List α → Option (Nat × β)
  | [] => none
  | place :: outer =>
    match look place with
    | some found => some (outer.length + 1, found)
    | none => locate look outer

section Locate

variable {α β : Type} {look : α → Option β} {place : α} {outer : List α}

theorem locate_here {found : β} (here : look place = some found) :
    locate look (place :: outer) = some (outer.length + 1, found) := by
  simp [locate, here]

theorem locate_further (missing : look place = none) :
    locate look (place :: outer) = locate look outer := by
  simp [locate, missing]

theorem locate_le {places : List α} {level : Nat} {found : β}
    (located : locate look places = some (level, found)) : level ≤ places.length := by
  induction places with
  | nil => cases located
  | cons place outer ih =>
    cases here : look place with
    | some other =>
      rw [locate_here here] at located
      cases located
      exact Nat.le_refl _
    | none =>
      rw [locate_further here] at located
      exact Nat.le_succ_of_le (ih located)

/-- Where something is found does not matter to what is found first. -/
theorem locate_value (look : α → Option β) (places : List α) :
    (locate look places).map Prod.snd = places.findSome? look := by
  induction places with
  | nil => rfl
  | cons place outer ih =>
    cases here : look place with
    | some found => simp [locate_here here, here]
    | none => simp [locate_further here, here, ih]

end Locate

/-- The symbol that a name stands for, and the level of its scope. -/
def ScopeStack.locate (scopes : ScopeStack) (key : String) : Option (Nat × Symbol) :=
  Caju.locate (·.find? key) scopes.frames

theorem ScopeStack.lookup_eq_locate (scopes : ScopeStack) (key : String) :
    scopes.lookup key = (scopes.locate key).map Prod.snd :=
  (locate_value _ _).symm

namespace C

/-- What an identifier denotes: a variable, a parameter or a function, by its type; the index of
a loop; or the structure of an array type. -/
inductive Entity where
  | typed (ty : Ty)
  | index
  | structureName
  deriving DecidableEq

/-- The identifiers that a scope declares, the latest first. -/
abbrev Scope := List (String × Entity)

/-- What an identifier denotes where these scopes are open, the innermost first, and the level of
the scope that declares it. -/
def denoted (identifier : String) (scopes : List Scope) : Option (Nat × Entity) :=
  locate (·.lookup identifier) scopes

namespace Line

/-- What a line declares in the scope it stands in. -/
def entries : Line → Scope
  | shared ty names => (names.map fun name => (ident name, .typed ty)).reverse
  | pointer params result name => [(ident name, .typed (.function params result))]
  | element _ ty name _ => [(ident name, .typed ty)]
  | prototype f => [(ident f.name, .typed f.signature)]
  | header f => [(ident f.name, .typed f.signature)]
  | defined ty => [((Ty.array ty).cType, .structureName)]
  | _ => []

/-- Whether a line closes a scope. The braces of a structure are none. -/
def closes : Line → Bool
  | fixed text _ => text == "\x7d" || text == "\x7d else \x7b"
  | _ => false

/-- The scope that a line opens, with what its head declares there. -/
def opens : Line → Option Scope
  | header f => some (f.params.map fun param => (ident param.name, .typed param.ty)).reverse
  | eachHead number _ => some [(loopIndex number, .index)]
  | ifHead _ => some []
  | whileHead _ => some []
  | forHead .. => some []
  | fixed text _ => if text == "\x7d else \x7b" then some [] else none
  | _ => none

/-- Whether a line binds a variable to the element of an array. -/
def isBinding : Line → Bool
  | element .. => true
  | _ => false

end Line

/-- Adds to the innermost scope. -/
def declareIn (new : Scope) : List Scope → List Scope
  | [] => []
  | scope :: outer => (new ++ scope) :: outer

/-- The scopes that are open once a line has been read. -/
def Line.enact (line : Line) (scopes : List Scope) : List Scope :=
  line.opens.toList ++ declareIn line.entries (if line.closes then scopes.tail else scopes)

/-- The scopes that are open behind some lines. -/
def enactAll (scopes : List Scope) (lines : List Placed) : List Scope :=
  lines.foldl (fun scopes placed => placed.line.enact scopes) scopes

/-- A line, and the scopes that are open once it has declared what it declares: in C a variable
is known from its declarator on, also in the value that it is given. -/
structure Point where
  placed : Placed
  scopes : List Scope

def points : List Scope → List Placed → List Point
  | _, [] => []
  | scopes, placed :: rest =>
    ⟨placed, placed.line.enact scopes⟩ :: points (placed.line.enact scopes) rest

def Point.isBinding (point : Point) : Bool := point.placed.line.isBinding

/-- The lines that bind elements, as they are met. -/
def bindings (scopes : List Scope) (lines : List Placed) : List Point :=
  (points scopes lines).filter Point.isBinding

theorem points_placed (scopes : List Scope) (lines : List Placed) :
    (points scopes lines).map Point.placed = lines := by
  induction lines generalizing scopes with
  | nil => rfl
  | cons placed rest ih => simp [points, ih]

theorem enactAll_append (scopes : List Scope) (front behind : List Placed) :
    enactAll scopes (front ++ behind) = enactAll (enactAll scopes front) behind :=
  List.foldl_append

theorem points_append (scopes : List Scope) (front behind : List Placed) :
    points scopes (front ++ behind) =
      points scopes front ++ points (enactAll scopes front) behind := by
  induction front generalizing scopes with
  | nil => rfl
  | cons placed rest ih => simp [points, ih, enactAll]

theorem bindings_append (scopes : List Scope) (front behind : List Placed) :
    bindings scopes (front ++ behind) =
      bindings scopes front ++ bindings (enactAll scopes front) behind := by
  rw [bindings, points_append, List.filter_append]
  rfl

theorem bindings_eq_nil {lines : List Placed}
    (none : ∀ placed ∈ lines, placed.line.isBinding = false) (scopes : List Scope) :
    bindings scopes lines = [] := by
  refine List.filter_eq_nil_iff.mpr fun point member => ?_
  have within : point.placed ∈ lines := by
    rw [← points_placed scopes lines]
    exact List.mem_map_of_mem member
  simp [Point.isBinding, none _ within]

theorem declareIn_append (new old : Scope) (scopes : List Scope) :
    declareIn (new ++ old) scopes = declareIn new (declareIn old scopes) := by
  cases scopes <;> simp [declareIn]

@[simp] theorem declareIn_nil (scopes : List Scope) : declareIn [] scopes = scopes := by
  cases scopes <;> rfl

/-- A line that opens a scope and does nothing else. -/
theorem Line.enact_opening {line : Line} {scope : Scope} (opens : line.opens = some scope)
    (entries : line.entries = []) (closes : line.closes = false) (scopes : List Scope) :
    line.enact scopes = scope :: scopes := by
  simp [enact, opens, entries, closes]

/-- A line that does nothing. -/
theorem Line.enact_idle {line : Line} (opens : line.opens = none) (entries : line.entries = [])
    (closes : line.closes = false) (scopes : List Scope) : line.enact scopes = scopes := by
  simp [enact, opens, entries, closes]

/-- A block leaves the scopes as its body does, without the one that was opened. -/
theorem enactAll_block (level : Nat) (head : Line) (lines : List Placed) (scopes : List Scope) :
    enactAll scopes (⟨level, head⟩ :: lines ++ [⟨level, .close⟩]) =
      (enactAll (head.enact scopes) lines).tail := by
  rw [enactAll_append]
  exact declareIn_nil _

theorem bindings_block {head : Line} (unbound : head.isBinding = false) (level : Nat)
    (lines : List Placed) (scopes : List Scope) :
    bindings scopes (⟨level, head⟩ :: lines ++ [⟨level, .close⟩]) =
      bindings (head.enact scopes) lines := by
  have closing (scopes : List Scope) : bindings scopes [⟨level, Line.close⟩] = [] := rfl
  rw [bindings_append, closing, List.append_nil]
  exact List.filter_cons_of_neg (by simp [Point.isBinding, unbound])

/-! ### Lines that do the same -/

/-- Lines that lead to the same scopes and meet the same bindings. -/
structure Alike (lines others : List Placed) : Prop where
  enacted : ∀ scopes, enactAll scopes lines = enactAll scopes others
  met : ∀ scopes, bindings scopes lines = bindings scopes others

namespace Alike

variable {lines others : List Placed}

theorem refl (lines : List Placed) : Alike lines lines := ⟨fun _ => rfl, fun _ => rfl⟩

theorem append {front front' behind behind' : List Placed} (first : Alike front front')
    (second : Alike behind behind') : Alike (front ++ behind) (front' ++ behind') where
  enacted scopes := by rw [enactAll_append, enactAll_append, first.enacted, second.enacted]
  met scopes := by rw [bindings_append, bindings_append, first.enacted, first.met, second.met]

theorem of_enacted (unbound : ∀ placed ∈ lines, placed.line.isBinding = false)
    (unbound' : ∀ placed ∈ others, placed.line.isBinding = false)
    (enacted : ∀ scopes, enactAll scopes lines = enactAll scopes others) : Alike lines others :=
  ⟨enacted, fun scopes => by rw [bindings_eq_nil unbound, bindings_eq_nil unbound']⟩

/-- A line that declares nothing and neither opens nor closes a scope might as well be left out. -/
theorem plain {line : Line} (opens : line.opens = none) (entries : line.entries = [])
    (closes : line.closes = false) (unbound : line.isBinding = false) (level : Nat) :
    Alike [⟨level, line⟩] [] :=
  of_enacted (List.forall_mem_singleton.mpr unbound) (List.forall_mem_nil _)
    (Line.enact_idle opens entries closes)

theorem optional (alike : Alike lines []) (wanted : Bool) :
    Alike (if wanted then lines else []) [] := by
  split
  · exact alike
  · exact refl []

/-- Closing a scope and opening another one can be done by one line or by two. -/
theorem otherwise (level : Nat) :
    Alike [⟨level, .otherwise⟩] [⟨level, .close⟩, ⟨level, .forHead [] none []⟩] := by
  refine of_enacted ?_ ?_ fun scopes => ?_
  · exact List.forall_mem_singleton.mpr rfl
  · simp [Line.close, Line.isBinding]
  · simp [enactAll, Line.enact, Line.otherwise, Line.close, Line.closes, Line.opens, Line.entries]

end Alike

/-- Things declared one after another are declared at once, the last one in front. -/
theorem enactAll_single {α : Type} (level : Nat) (ty : α → Ty) (name : α → String) (xs : List α)
    (scopes : List Scope) :
    enactAll scopes (xs.map fun x => ⟨level, .shared (ty x) [name x]⟩) =
      declareIn (xs.map fun x => (ident (name x), .typed (ty x))).reverse scopes := by
  induction xs generalizing scopes with
  | nil => simp [enactAll]
  | cons x rest ih =>
    rw [List.map_cons, List.map_cons, List.reverse_cons, declareIn_append, ← ih]
    rfl

/-- Names that share a line might as well have one each. -/
theorem alike_shared (level : Nat) (ty : Ty) (names : List String) :
    Alike [⟨level, .shared ty names⟩] (names.map fun name => ⟨level, .shared ty [name]⟩) := by
  refine .of_enacted (List.forall_mem_singleton.mpr rfl) (by simp [Line.isBinding]) fun scopes => ?_
  rw [enactAll_single level (fun _ => ty) fun name => name]
  rfl

/-- The head of a function declares its name, opens a scope and declares the parameters there. -/
theorem alike_header (level : Nat) (f : Function) :
    Alike [⟨level, .header f⟩] (⟨level, .prototype f⟩ :: ⟨level, .forHead [] none []⟩ ::
      f.params.map fun param => ⟨level, .shared param.ty [param.name]⟩) := by
  refine .of_enacted (List.forall_mem_singleton.mpr rfl) (by simp [Line.isBinding]) fun scopes => ?_
  have params := enactAll_single level Param.ty Param.name f.params
    ([] :: (Line.prototype f).enact scopes)
  rw [declareIn, List.append_nil] at params
  have opened : (Line.forHead [] none []).enact ((Line.prototype f).enact scopes) =
      [] :: (Line.prototype f).enact scopes := Line.enact_opening rfl rfl rfl _
  rw [← opened] at params
  exact params.symm

/-! ### Frames and scopes -/

/-- The scopes of C show what the checker's frames hold, each the one at its level. At the
outermost level C may know more: the functions that are still to come have prototypes. -/
inductive Shows : List Frame → List Scope → Prop where
  | file {frame : Frame} {scope : Scope}
      (shown : ∀ key symbol, frame.find? key = some symbol →
        scope.lookup (ident key) = some (.typed symbol.ty)) : Shows [frame] [scope]
  | inner {frame : Frame} {frames : List Frame} {scope : Scope} {scopes : List Scope}
      (shown : ∀ key,
        scope.lookup (ident key) = (frame.find? key).map fun symbol => .typed symbol.ty)
      (outer : Shows frames scopes) : Shows (frame :: frames) (scope :: scopes)

namespace Shows

variable {frames : List Frame} {scopes : List Scope}

theorem nonempty (shows : Shows frames scopes) : frames ≠ [] := by
  cases shows <;> exact List.cons_ne_nil _ _

theorem length_eq (shows : Shows frames scopes) : frames.length = scopes.length := by
  induction shows with
  | file _ => rfl
  | inner _ _ ih => simp [ih]

/-- A name of the program denotes in C what it stands for, in the scope of the same level. -/
theorem denoted (shows : Shows frames scopes) {key : String} {level : Nat} {symbol : Symbol}
    (located : locate (·.find? key) frames = some (level, symbol)) :
    denoted (ident key) scopes = some (level, .typed symbol.ty) := by
  unfold C.denoted
  induction shows with
  | @file frame scope shown =>
    cases held : frame.find? key with
    | none => simp [locate, held] at located
    | some found =>
      obtain ⟨rfl, rfl⟩ : 1 = level ∧ found = symbol := by simpa [locate, held] using located
      exact locate_here (shown key found held)
  | @inner frame frames scope scopes shown outer ih =>
    have here := shown key
    cases held : frame.find? key with
    | none =>
      rw [held] at here
      simp only [locate, held] at located
      rw [locate_further here]
      exact ih located
    | some found =>
      obtain ⟨rfl, rfl⟩ : frames.length + 1 = level ∧ found = symbol := by
        simpa [locate, held] using located
      rw [held] at here
      rw [locate_here here, outer.length_eq]

theorem enter (shows : Shows frames scopes) {scope : Scope}
    (free : ∀ key, scope.lookup (ident key) = none) : Shows (.empty :: frames) (scope :: scopes) :=
  .inner free shows

theorem leave {frame : Frame} (shows : Shows (frame :: frames) scopes) (nonempty : frames ≠ []) :
    Shows frames scopes.tail := by
  cases shows with
  | file _ => exact absurd rfl nonempty
  | inner _ outer => exact outer

theorem declare {frame : Frame} (shows : Shows (frame :: frames) scopes) (key : String)
    (symbol : Symbol) :
    Shows (frame.insert key symbol :: frames)
      (declareIn [(ident key, .typed symbol.ty)] scopes) := by
  have added (scope : Scope) (other : String) :
      List.lookup (ident other) ((ident key, Entity.typed symbol.ty) :: scope) =
        if other = key then some (.typed symbol.ty) else scope.lookup (ident other) := by
    by_cases same : other = key
    · simp [same]
    · have apart : ident other ≠ ident key := fun equal => same (ident_injective equal)
      simp [List.lookup_cons, beq_false_of_ne apart, same]
  cases shows with
  | file shown =>
    refine .file fun other found held => ?_
    rw [Frame.find?_insert] at held
    rw [List.singleton_append, added]
    split at held
    · rename_i same
      cases held
      rw [if_pos same]
    · rename_i different
      rw [if_neg different]
      exact shown other found held
  | inner shown outer =>
    refine .inner (fun other => ?_) outer
    rw [List.singleton_append, added, Frame.find?_insert, shown]
    split <;> rfl

/-- A symbol that is marked keeps its type. -/
theorem mark (shows : Shows frames scopes) (key : String) :
    Shows (ScopeStack.markFrames key frames) scopes := by
  have marked (frame : Frame) (symbol : Symbol) (held : frame.find? key = some symbol)
      (other : String) :
      ((frame.insert key { symbol with initialized := true }).find? other).map
          (fun symbol => Entity.typed symbol.ty) =
        (frame.find? other).map fun symbol => .typed symbol.ty := by
    rw [Frame.find?_insert]
    split
    · rename_i same
      rw [same, held]
      rfl
    · rfl
  induction shows with
  | @file frame scope shown =>
    unfold ScopeStack.markFrames
    cases held : frame.find? key with
    | none => exact .file shown
    | some symbol =>
      refine .file fun other found stored => ?_
      have same := marked frame symbol held other
      rw [stored] at same
      obtain ⟨before, stood, equal⟩ := Option.map_eq_some_iff.mp same.symm
      rw [shown other before stood, equal]
  | @inner frame frames scope scopes shown outer ih =>
    unfold ScopeStack.markFrames
    cases held : frame.find? key with
    | none => exact .inner shown ih
    | some symbol => exact .inner (fun other => by rw [marked frame symbol held, shown]) outer

end Shows

end C

open C

/-! ### Lines that suit a check -/

namespace Check

def Visit.isEach (visit : Visit) : Bool :=
  match visit.stmt with
  | .forEach .. => true
  | _ => false

/-- A loop over an array as the checker comes to it, and the line that binds its variable: where
the line is met, the scopes of C show the frames in which the container was looked up. -/
inductive Meets : Visit → Point → Prop where
  | loop {f : Function} {frames : ScopeStack} {ty : Ty} {name container : String} {body : List Stmt}
      {level number : Nat} {scopes : List C.Scope}
      (shows : Shows (Check.declare (.bound name ty) frames.enter).scopes.frames scopes) :
      Meets ⟨f, .forEach ty name container body, frames⟩
        ⟨⟨level, .element number ty name container⟩, scopes⟩

/-- What lines have to do with a check that finds nothing wrong. If the scopes of C showed the
frames before, they do so afterwards; and the loops that were visited have met their lines. -/
structure Suited (before : ScopeStack) (scopes : List C.Scope) (outcome : Outcome)
    (visits : List Visit) (lines : List Placed) : Prop where
  depth : outcome.scopes.depth = before.depth
  shows : Shows outcome.scopes.frames (enactAll scopes lines)
  met : List.Forall₂ Meets (visits.filter Visit.isEach) (bindings scopes lines)

/-- Lines that suit a check, whatever the scopes it starts with. -/
def Suits (before : ScopeStack) (outcome : Outcome) (visits : List Visit) (lines : List Placed) :
    Prop :=
  ∀ scopes, Shows before.frames scopes → diagnostics outcome.journal = [] →
    Suited before scopes outcome visits lines

namespace Suits

variable {before : ScopeStack} {outcome first : Outcome} {next body : ScopeStack → Outcome}
  {visits others : List Visit} {lines more : List Placed}

theorem alike (suits : Suits before outcome visits lines) (alike : Alike more lines) :
    Suits before outcome visits more := by
  intro scopes shows clean
  obtain ⟨depth, shown, met⟩ := suits scopes shows clean
  exact ⟨depth, by rwa [alike.enacted], by rwa [alike.met]⟩

theorem andThen (front : Suits before first visits lines)
    (back : Suits first.scopes (next first.scopes) others more) :
    Suits before (first.andThen next) (visits ++ others) (lines ++ more) := by
  intro scopes shows clean
  obtain ⟨cleanFirst, cleanNext⟩ : diagnostics first.journal = [] ∧
      diagnostics (next first.scopes).journal = [] := by
    simpa [Outcome.andThen] using clean
  have one := front scopes shows cleanFirst
  have other := back _ one.shows cleanNext
  refine ⟨other.depth.trans one.depth, ?_, ?_⟩
  · rw [enactAll_append]
    exact other.shows
  · rw [List.filter_append, bindings_append]
    exact List.rel_append one.met other.met

/-- A check that leaves the frames as they are, and comes to no statement. -/
theorem idle (same : outcome.scopes = before) : Suits before outcome [] [] := by
  intro scopes shows _
  exact ⟨by rw [same], by rwa [same], .nil⟩

/-- Notes make no difference. -/
theorem andNote {journal : ScopeStack → List Event} (suits : Suits before first visits lines) :
    Suits before (first.andThen fun scopes => .noting (journal scopes) scopes) visits lines := by
  have noted : Suits before (first.andThen fun scopes => .noting (journal scopes) scopes) _ _ :=
    suits.andThen (.idle rfl)
  rwa [List.append_nil, List.append_nil] at noted

theorem noteThen {journal : List Event} (suits : Suits before (next before) visits lines) :
    Suits before ((Outcome.noting journal before).andThen next) visits lines := by
  have noted : Suits before (Outcome.noting journal before) [] [] := idle rfl
  exact noted.andThen suits

/-- A statement that is no loop over an array. -/
theorem visit {visit : Visit} (other : visit.isEach = false)
    (suits : Suits before outcome visits lines) : Suits before outcome (visit :: visits) lines := by
  intro scopes shows clean
  obtain ⟨depth, shown, met⟩ := suits scopes shows clean
  exact ⟨depth, shown, by rwa [List.filter_cons_of_neg (by simp [other])]⟩

theorem mark (key : String) {journal : List Event} {returned : Bool} :
    Suits before ⟨before.markInitialized key, journal, returned⟩ [] [] := by
  intro scopes shows _
  exact ⟨ScopeStack.depth_markInitialized before key, shows.mark key, .nil⟩

/-- What a declaration does to the frames, if there is one to declare in. -/
theorem declare_scopes (symbol : Symbol) {scopes : List C.Scope}
    (shows : Shows before.frames scopes) :
    (declare symbol before).scopes.depth = before.depth ∧
      Shows (declare symbol before).scopes.frames
        (declareIn [(ident symbol.name, .typed symbol.ty)] scopes) := by
  obtain ⟨_ | ⟨frame, frames⟩⟩ := before
  · cases shows
  · exact ⟨rfl, shows.declare symbol.name symbol⟩

theorem declare {symbol : Symbol} {line : Line}
    (enacts : ∀ scopes,
      line.enact scopes = declareIn [(ident symbol.name, .typed symbol.ty)] scopes)
    (unbound : line.isBinding = false) (level : Nat) :
    Suits before (declare symbol before) [] [⟨level, line⟩] := by
  intro scopes shows _
  obtain ⟨depth, shown⟩ := declare_scopes symbol shows
  refine ⟨depth, ?_, ?_⟩
  · have enacted : enactAll scopes [⟨level, line⟩] = line.enact scopes := rfl
    rwa [enacted, enacts]
  · rw [bindings_eq_nil (List.forall_mem_singleton.mpr unbound)]
    exact .nil

/-- Where nothing is found wrong, a declaration is not refused. -/
theorem declareNew {symbol : Symbol} {line : Line} (duplicate : Diagnostic)
    (enacts : ∀ scopes,
      line.enact scopes = declareIn [(ident symbol.name, .typed symbol.ty)] scopes)
    (unbound : line.isBinding = false) (level : Nat) :
    Suits before (declareNew duplicate symbol before) [] [⟨level, line⟩] := by
  unfold Check.declareNew
  split
  · intro _ _ clean
    simp [Outcome.noting, Event.diagnostic?] at clean
  · exact declare enacts unbound level

/-- A check in a scope of its own drops the innermost of the frames that it ends with. -/
theorem inScope_scopes (depth : (body before.enter).scopes.depth = before.enter.depth) :
    ∃ frame frames, (body before.enter).scopes = ⟨frame :: frames⟩ ∧
      (inScope body before).scopes = ⟨frames⟩ ∧ frames.length = before.depth := by
  cases ended : (body before.enter).scopes with
  | mk after =>
    rw [ended] at depth
    cases after with
    | nil => cases depth
    | cons frame frames =>
      refine ⟨frame, frames, rfl, ?_, Nat.succ.inj depth⟩
      simp [inScope, Outcome.andThen, enter, leave, ended, ScopeStack.leave]

/-- The lines of a block suit a check in a scope of its own. -/
theorem block {head : Line} {scope : C.Scope}
    (opens : ∀ scopes, head.enact scopes = scope :: scopes)
    (free : ∀ key, scope.lookup (ident key) = none) (unbound : head.isBinding = false)
    (inside : Suits before.enter (body before.enter) visits lines) (level : Nat) :
    Suits before (inScope body before) visits (⟨level, head⟩ :: lines ++ [⟨level, .close⟩]) := by
  intro scopes shows clean
  have cleanBody : diagnostics (body before.enter).journal = [] := by
    simp only [inScope, Outcome.andThen, enter, diagnostics_append, List.append_eq_nil_iff] at clean
    exact clean.2.1
  obtain ⟨depth, shown, met⟩ := inside (scope :: scopes) (shows.enter free) cleanBody
  obtain ⟨frame, frames, ended, left, levels⟩ := inScope_scopes depth
  have nonempty : frames ≠ [] := by
    rintro rfl
    exact shows.nonempty (List.length_eq_zero_iff.mp levels.symm)
  rw [ended] at shown
  refine ⟨by rw [left]; exact levels, ?_, ?_⟩
  · rw [left, enactAll_block, opens]
    exact shown.leave nonempty
  · rwa [bindings_block unbound, opens]

/-- The same, if the head declares nothing in the scope that it opens. -/
theorem emptyBlock {head : Line} (opens : head.opens = some []) (entries : head.entries = [])
    (closes : head.closes = false) (unbound : head.isBinding = false)
    (inside : Suits before.enter (body before.enter) visits lines) (level : Nat) :
    Suits before (inScope body before) visits (⟨level, head⟩ :: lines ++ [⟨level, .close⟩]) :=
  block (Line.enact_opening opens entries closes) (fun _ => rfl) unbound inside level

/-- Lines in a row suit checks in a row that come to no statement. -/
theorem sequence {α : Type} {check : α → ScopeStack → Outcome} {lines : α → List Placed}
    (each : ∀ x before, Suits before (check x before) [] (lines x)) (xs : List α) :
    Suits before (sequence check xs before) [] (xs.flatMap lines) := by
  induction xs generalizing before with
  | nil => exact idle rfl
  | cons x rest ih => exact (each x before).andThen ih

/-- Checks that no lines are written for. -/
theorem visiting : Visiting fun before outcome visits => Suits before outcome visits [] where
  idle _ := idle rfl
  andThen front back := front.andThen back

end Suits

end Check

theorem VarDecl.suits (decl : VarDecl) (level : Nat) (before : ScopeStack) :
    Suits before (decl.check before) [] (placeAll level decl.cLines) := by
  obtain ⟨ty, names⟩ := decl
  have single : Suits before (VarDecl.check ⟨ty, names⟩ before) []
      (names.map fun name => ⟨level, .shared ty [name]⟩) := by
    rw [List.map_eq_flatMap]
    exact .sequence (fun name _ => .declareNew _ (fun _ => rfl) rfl level) names
  cases ty with
  | function params result =>
    rw [cLines, placeAll, List.map_map, List.map_eq_flatMap]
    exact .sequence (fun name _ => .declareNew _ (fun _ => rfl) rfl level) names
  | _ => exact single.alike (alike_shared level _ names)

theorem Assign.suits (f : Function) (step : Assign) (before : ScopeStack) :
    Suits before (step.check before) [⟨f, .assign step, before⟩] [] := by
  refine .visit rfl ?_
  unfold Assign.check
  cases before.lookup step.target with
  | none => exact .idle rfl
  | some symbol => exact .mark step.target

/-- The assignments and the condition of a `para` are all in the line that its block begins with. -/
theorem Check.checkLoop_suits (f : Function) (start : List Assign) (condition : Option Expr)
    (step : List Assign) {body : ScopeStack → Outcome} {visits : ScopeStack → List Visit}
    {lines : List Placed} (inside : ∀ before, Suits before (body before) (visits before) lines)
    (before : ScopeStack) :
    let started := (sequence Assign.check start before).scopes
    let stepped := (sequence Assign.check step started).scopes
    let again := (sequence Assign.check step stepped).scopes
    Suits before (checkLoop start condition step body before)
      (assignVisits f start before ++ assignVisits f step started ++ assignVisits f step stepped ++
        visits again) lines := by
  intro started stepped again
  have head := Suits.visiting.loopHead (fun step => step.suits f) start condition step
    (fun _ => .idle rfl) before
  exact head.andThen (inside again)

/-- The line that binds the element suits the head of a `para cada`. -/
theorem Check.checkEach_suits (f : Function) (ty : Ty) (name container : String)
    (stmts : List Stmt) {body : ScopeStack → Outcome} {visits : ScopeStack → List Visit}
    {lines : List Placed} (inside : ∀ before, Suits before (body before) (visits before) lines)
    (level number : Nat) (before : ScopeStack) :
    Suits before.enter (checkEach ty name container body before.enter)
      (⟨f, .forEach ty name container stmts, before⟩ ::
        visits (Check.declare (.bound name ty) before.enter).scopes)
      (⟨level, .element number ty name container⟩ :: lines) := by
  have binding : Suits before.enter (Check.declare (.bound name ty) before.enter)
      [⟨f, .forEach ty name container stmts, before⟩]
      [⟨level, .element number ty name container⟩] := by
    intro scopes shows _
    obtain ⟨depth, shown⟩ := Suits.declare_scopes (.bound name ty) shows
    exact ⟨depth, shown, .cons (.loop shown) .nil⟩
  exact binding.andNote.andThen (inside _)

/-- No name of the program denotes the index of a loop. -/
theorem C.index_free (number : Nat) (key : String) :
    List.lookup (ident key) [(loopIndex number, Entity.index)] = none := by
  have apart := (isInvented_loopIndex number).ne_ident key
  simp [List.lookup_cons, beq_false_of_ne apart]

section Stmt

variable (f : Function) (inEntryPoint : Bool)

mutual

/-- The lines of a statement suit its check. Lines are laid out by statements, so the induction
is on these and not on their plans. -/
theorem Stmt.suits : ∀ (stmt : Stmt) (level loops : Nat) (before : ScopeStack),
    Suits before (stmt.check (some f.context) before) (stmt.visits f before)
      (stmt.placed inEntryPoint level loops)
  | .declare decl, level, _, before => by
    rw [Stmt.check, Stmt.visits, Stmt.placed]
    · exact .visit rfl (decl.suits level before)
    all_goals simp
  | .assign step, level, _, before => by
    rw [Stmt.check, Stmt.visits, Stmt.placed]
    · exact (step.suits f before).alike (.plain rfl rfl rfl rfl level)
    all_goals simp
  | .call callee args, level, _, before => by
    rw [Stmt.check, Stmt.visits, Stmt.placed]
    · exact .visit rfl (.alike (.idle rfl) (.plain rfl rfl rfl rfl level))
    all_goals simp
  | .ret value, level, _, before => by
    rw [Stmt.check, Stmt.visits, Stmt.placed]
    · exact .visit rfl (.alike (.idle rfl) (.plain rfl rfl rfl rfl level))
    all_goals simp
  | .ifElse condition yes none, level, loops, before => by
    rw [Stmt.check, Stmt.visits, Stmt.placed]
    have inside := Stmt.suitsAll yes (level + 1) loops before.enter
    exact .visit rfl (.noteThen (.emptyBlock rfl rfl rfl rfl inside level))
  | .ifElse condition yes (some no), level, loops, before => by
    rw [Stmt.check, Stmt.visits, Stmt.placed]
    have first : Suits before (inScope (Stmt.checkAll (some f.context) yes) before) _
        (⟨level, .ifHead condition⟩ :: Stmt.placedAll inEntryPoint (level + 1) loops yes ++
          [⟨level, .close⟩]) :=
      .emptyBlock rfl rfl rfl rfl (Stmt.suitsAll yes (level + 1) loops before.enter) level
    have second (before : ScopeStack) :
        Suits before (inScope (Stmt.checkAll (some f.context) no) before) _
          (⟨level, .forHead [] none []⟩ :: Stmt.placedAll inEntryPoint (level + 1)
            (loops + Stmt.eachLoopsAll yes) no ++ [⟨level, .close⟩]) :=
      .emptyBlock rfl rfl rfl rfl (Stmt.suitsAll no (level + 1) _ before.enter) level
    refine .visit rfl ((first.noteThen.andThen (second _)).alike ?_)
    rw [List.append_assoc]
    exact (Alike.refl _).append ((Alike.otherwise level).append (.refl _))
  | .whileDo condition body, level, loops, before => by
    rw [Stmt.check, Stmt.visits, Stmt.placed]
    have inside := Stmt.suitsAll body (level + 1) loops before.enter
    exact .visit rfl (.noteThen (.emptyBlock rfl rfl rfl rfl inside level))
  | .forDo start condition step body, level, loops, before => by
    rw [Stmt.check, Stmt.visits, Stmt.placed]
    have inside := checkLoop_suits f start condition step (Stmt.suitsAll body (level + 1) loops)
      before.enter
    exact .visit rfl (.emptyBlock rfl rfl rfl rfl inside level)
  | .forEach ty name container body, level, loops, before => by
    rw [Stmt.check, Stmt.visits, Stmt.placed]
    have inside := checkEach_suits f ty name container body
      (Stmt.suitsAll body (level + 1) (loops + 1)) (level + 1) loops before
    exact .block (Line.enact_opening rfl rfl rfl) (index_free loops) rfl inside level

theorem Stmt.suitsAll : ∀ (stmts : List Stmt) (level loops : Nat) (before : ScopeStack),
    Suits before (Stmt.checkAll (some f.context) stmts before) (Stmt.visitsAll f stmts before)
      (Stmt.placedAll inEntryPoint level loops stmts)
  | [], _, _, before => by
    rw [Stmt.checkAll, Stmt.visitsAll, Stmt.placedAll]
    exact .idle rfl
  | stmt :: rest, level, loops, before => by
    rw [Stmt.checkAll, Stmt.visitsAll, Stmt.placedAll]
    exact (Stmt.suits stmt level loops before).andThen (Stmt.suitsAll rest level _ _)

end

end Stmt

theorem Function.checkBody_suits (f : Function) (level : Nat) (before : ScopeStack) :
    Suits before (f.checkBody before)
      (Stmt.visitsAll f f.body (Check.sequence
        (fun param => Check.declare (.param param.name param.ty)) f.params before).scopes)
      ((f.params.map fun param => ⟨level, .shared param.ty [param.name]⟩) ++
        Stmt.placedAll f.isVoidEntryPoint (level + 1) 0 f.body) := by
  have params : Suits before
      (Check.sequence (fun param => Check.declare (.param param.name param.ty)) f.params before) []
      (f.params.map fun param => ⟨level, .shared param.ty [param.name]⟩) := by
    rw [List.map_eq_flatMap]
    exact .sequence (fun _ _ => .declare (fun _ => rfl) rfl level) f.params
  exact (params.andThen (Stmt.suitsAll f f.isVoidEntryPoint f.body (level + 1) 0 _)).andNote

/-- The lines of a function suit its check. -/
theorem Function.suits (f : Function) (level : Nat) (before : ScopeStack) :
    Suits before (f.check before) (Stmt.visitsAll f f.body (f.bodyScopes before))
      (f.placed level) := by
  have named : Suits before (Check.declareNew (.duplicateFunction f.name)
      (.function f.name (f.params.map Param.ty) f.result) before) [] [⟨level, .prototype f⟩] :=
    .declareNew _ (fun _ => rfl) rfl level
  have inside (before : ScopeStack) : Suits before (inScope f.checkBody before) _
      (⟨level, .forHead [] none []⟩ :: _ ++ [⟨level, .close⟩]) :=
    .emptyBlock rfl rfl rfl rfl (f.checkBody_suits level before.enter) level
  refine Suits.alike (named.andNote.andThen (inside _)) ?_
  have ending : Alike (if f.isVoidEntryPoint then [⟨level + 1, .returnZero⟩] else []) [] :=
    .optional (.plain rfl rfl rfl rfl (level + 1)) _
  have whole := (alike_header level f).append ((Alike.refl (Stmt.placedAll f.isVoidEntryPoint
    (level + 1) 0 f.body)).append (ending.append ((Alike.refl [⟨level, .close⟩]).append
      (.plain rfl rfl rfl rfl level : Alike [⟨level, .blank⟩] []))))
  simpa [Function.placed, Function.bodyPlaced] using whole

theorem Item.suitsAll (afterVariables : Bool) (items : List Item) (before : ScopeStack) :
    Suits before (Check.sequence Item.check items before)
      (along Item.check Item.visits items before) (Item.placedAll afterVariables items) := by
  induction items generalizing afterVariables before with
  | nil => exact .idle rfl
  | cons item rest ih =>
    cases item with
    | declare decl => exact (decl.suits 0 before).andThen (ih true _)
    | function f =>
      refine Suits.alike ((f.suits 0 before).andThen (ih false _)) ?_
      have spaced : Alike (if afterVariables then [⟨0, .blank⟩] else []) [] :=
        .optional (.plain rfl rfl rfl rfl 0) _
      exact (spaced.append (.refl _)).append (.refl _)

/-- The lines above the items neither open nor close a scope, and bind no element. -/
theorem Program.front_level (p : Program) :
    ∀ line ∈ p.front, line.opens = none ∧ line.closes = false ∧ line.isBinding = false := by
  refine List.forall_mem_append.mpr ⟨List.forall_mem_append.mpr ⟨?_, ?_⟩, ?_⟩
  · simp [Program.opening, Line.blank, Line.opens, Line.closes, Line.isBinding]
  · refine List.forall_mem_flatMap.mpr fun ty _ => ?_
    cases ty <;> simp [Ty.definition, Line.blank, Line.opens, Line.closes, Line.isBinding]
  · unfold Program.prototypes
    split
    · exact List.forall_mem_nil _
    · refine List.forall_mem_append.mpr ⟨List.forall_mem_map.mpr fun f _ => ?_, ?_⟩
      · exact ⟨rfl, rfl, rfl⟩
      · exact List.forall_mem_singleton.mpr ⟨rfl, rfl, rfl⟩

theorem C.enactAll_level {lines : List Line}
    (level : ∀ line ∈ lines, line.opens = none ∧ line.closes = false ∧ line.isBinding = false)
    (scope : C.Scope) : ∃ filled, enactAll [scope] (placeAll 0 lines) = [filled] := by
  induction lines generalizing scope with
  | nil => exact ⟨scope, rfl⟩
  | cons line rest ih =>
    obtain ⟨opens, closes, _⟩ := level line List.mem_cons_self
    have here : line.enact [scope] = [line.entries ++ scope] := by
      simp [Line.enact, opens, closes, declareIn]
    obtain ⟨filled, ended⟩ := ih (fun other member => level other (List.mem_cons_of_mem _ member))
      (line.entries ++ scope)
    refine ⟨filled, ?_⟩
    rw [← ended, ← here]
    rfl

/-- In a program without diagnostics, the loops over arrays meet the lines that bind their
elements, one by one. -/
theorem Program.meets (p : Program) (clean : p.diagnostics = []) :
    List.Forall₂ Meets (p.visits.filter Visit.isEach) (bindings [[]] p.placed) := by
  obtain ⟨filled, front⟩ := enactAll_level p.front_level []
  have unbound : ∀ placed ∈ placeAll 0 p.front, placed.line.isBinding = false :=
    List.forall_mem_map.mpr fun line member => (p.front_level line member).2.2
  have shows : Shows [Frame.empty] [filled] := .file fun _ _ held => by cases held
  have cleanItems :
      Check.diagnostics (Check.sequence Item.check p.items ScopeStack.empty.enter).journal = [] := by
    simp only [Program.diagnostics, Program.check, inScope, Outcome.andThen, enter,
      diagnostics_append, List.append_eq_nil_iff] at clean
    exact clean.2.1
  have items := Item.suitsAll false p.items ScopeStack.empty.enter [filled] shows cleanItems
  rw [Program.placed, bindings_append, bindings_eq_nil unbound, front]
  exact items.met

end Caju
