import Caju.Proofs.CLines
import Caju.Proofs.DeclaratorText
import Caju.Proofs.NameClashes

/-! The structures that a line of generated C names. A line is read word by word, as far as
letters, digits and underscores go. The name of a structure is a word only where a type is
spelled, or where the structure is defined: no name of the program, no constant and no keyword
is one. -/

namespace Caju

namespace C

/-- The words of a text: what stands between characters that no word has. -/
def words (text : List Char) : List (List Char) := text.splitOnP fun c => !isWordRest c

theorem words_append {c : Char} (apart : isWordRest c = false) (front behind : List Char) :
    words (front ++ c :: behind) = words front ++ words behind :=
  List.splitOnP_append_cons front behind (by simpa using apart)

theorem words_of_letters {text : List Char} (letters : ∀ c ∈ text, isWordRest c = true) :
    words text = [text] :=
  List.splitOnP_eq_singleton fun c member => by simp [letters c member]

theorem length_of_mem_words {text word : List Char} (member : word ∈ words text) :
    word.length ≤ text.length := by
  induction text generalizing word with
  | nil =>
    obtain rfl : word = [] := by simpa [words] using member
    exact Nat.le_refl 0
  | cons c rest ih =>
    rw [words, List.splitOnP_cons_eq_if_modifyHead] at member
    split at member
    · rcases List.mem_cons.mp member with rfl | later
      · exact Nat.zero_le _
      · exact Nat.le_succ_of_le (ih later)
    · cases found : words rest with
      | nil => simp [words] at found
      | cons first others =>
        rw [words] at found
        rw [found, List.modifyHead_cons] at member
        rcases List.mem_cons.mp member with rfl | later
        · exact Nat.succ_le_succ (ih (by simp [words, found]))
        · exact Nat.le_succ_of_le (ih (by simp [words, found, later]))

/-- A text that names no structures but known ones. -/
def Spells (known : List String) (text : String) : Prop :=
  ∀ element : Ty, (Ty.array element).cType.toList ∈ words text.toList →
    (Ty.array element).cType ∈ known

/-- Whether no word of a text has the mark of the generator. -/
def isPlain (text : String) : Bool := (words text.toList).all fun word => !mark.toList.isPrefixOf word

/-- Whether a text begins with a character that no word has. -/
def opensGap (text : String) : Bool := text.toList.head?.any (!isWordRest ·)

def closesGap (text : String) : Bool := text.toList.getLast?.any (!isWordRest ·)

/-- Whether a text keeps the words before it and behind it apart, and has no mark in it. -/
def isGap (text : String) : Bool := opensGap text && closesGap text && isPlain text

variable {known : List String}

theorem Spells.mono {text : String} (spells : Spells known text) {more : List String}
    (covered : ∀ name ∈ known, name ∈ more) : Spells more text := fun element member =>
  covered _ (spells element member)

theorem spells_plain {text : String} (plain : isPlain text = true) : Spells known text := by
  intro element member
  have unmarked := List.all_eq_true.mp plain _ member
  have marked := List.isPrefixOf_iff_prefix.mpr element.isInvented_cType.marked
  simp [marked] at unmarked

/-- A text too short for the name of a structure. -/
theorem spells_short {text : String} (short : text.toList.length < 11) : Spells known text := by
  intro element member
  have bound := length_of_mem_words member
  have long : (Ty.array element).cType.toList.length = 11 + element.mangle.toList.length := by
    simp [Ty.cType, Ty.mangle, mark]
    omega
  omega

/-- A single word that is no name of a structure. -/
theorem spells_word {text : String} (letters : ∀ c ∈ text.toList, isWordRest c = true)
    (other : ∀ element : Ty, text ≠ (Ty.array element).cType) : Spells known text := by
  intro element member
  rw [words_of_letters letters, List.mem_singleton] at member
  exact absurd (String.toList_injective member.symm) (other element)

theorem spells_ident {name : String} (identifier : isIdentifier name = true) :
    Spells known (ident name) :=
  spells_word (isWordRest_of_isWord (isWord_ident identifier))
    fun element => element.isInvented_cType.ne_ident name

theorem spells_digits (n : Nat) : Spells known (toString n) := by
  have digits := isDigit_of_mem_toString n
  refine spells_word (fun c member => ?_) fun element same => ?_
  · rw [isWordRest, digits c member, Bool.or_true]
  · obtain ⟨tail, marked⟩ := element.isInvented_cType.marked
    have letter : 'c' ∈ (toString n).toList := by
      rw [same, ← marked]
      exact List.mem_cons_self
    exact absurd (digits 'c' letter) (by decide)

theorem Spells.before {front behind : String} (one : Spells known front)
    (opens : opensGap behind = true) (other : Spells known behind) :
    Spells known (front ++ behind) := by
  cases spelled : behind.toList with
  | nil => simp [opensGap, spelled] at opens
  | cons c more =>
    have apart : isWordRest c = false := by simpa [opensGap, spelled] using opens
    intro element member
    rw [String.toList_append, spelled, words_append apart] at member
    rcases List.mem_append.mp member with inFront | inBehind
    · exact one element inFront
    · refine other element ?_
      have own := words_append apart [] more
      rw [spelled, ← List.nil_append (c :: more), own]
      exact List.mem_append_right _ inBehind

theorem Spells.after {front behind : String} (one : Spells known front)
    (closes : closesGap front = true) (other : Spells known behind) :
    Spells known (front ++ behind) := by
  cases last : front.toList.getLast? with
  | none => simp [closesGap, last] at closes
  | some c =>
    have apart : isWordRest c = false := by simpa [closesGap, last] using closes
    obtain ⟨most, spelled⟩ := List.getLast?_eq_some_iff.mp last
    intro element member
    rw [String.toList_append, spelled, List.append_assoc, List.singleton_append,
      words_append apart] at member
    rcases List.mem_append.mp member with inFront | inBehind
    · refine one element ?_
      rw [spelled, words_append apart]
      exact List.mem_append_left _ inFront
    · exact other element inBehind

theorem closesGap_append {behind : String} (closes : closesGap behind = true) (front : String) :
    closesGap (front ++ behind) = true := by
  cases last : behind.toList.getLast? with
  | none => simp [closesGap, last] at closes
  | some c => simpa [closesGap, last] using closes

theorem Spells.gap {front gap : String} (one : Spells known front) (isGap : isGap gap = true) :
    Spells known (front ++ gap) := by
  obtain ⟨both, plain⟩ := Bool.and_eq_true_iff.mp isGap
  exact one.before (Bool.and_eq_true_iff.mp both).1 (spells_plain plain)

/-- Texts with a gap between them. -/
theorem Spells.between {front gap behind : String} (one : Spells known front)
    (isGap : isGap gap = true) (other : Spells known behind) :
    Spells known (front ++ gap ++ behind) := by
  obtain ⟨both, _⟩ := Bool.and_eq_true_iff.mp isGap
  exact (one.gap isGap).after (closesGap_append (Bool.and_eq_true_iff.mp both).2 front) other

/-- A text behind a keyword. -/
theorem Spells.behind {keyword text : String} (spells : Spells known text)
    (apart : (closesGap keyword && isPlain keyword) = true) : Spells known (keyword ++ text) := by
  obtain ⟨closes, plain⟩ := Bool.and_eq_true_iff.mp apart
  exact (spells_plain plain).after closes spells

theorem spells_intercalate {texts : List String} (each : ∀ text ∈ texts, Spells known text) :
    Spells known (", ".intercalate texts) := by
  induction texts with
  | nil => exact spells_plain (by decide)
  | cons first rest ih =>
    obtain ⟨own, others⟩ := List.forall_mem_cons.mp each
    cases rest with
    | nil => simpa using own
    | cons second more =>
      rw [String.intercalate_cons_cons]
      exact own.between (by decide) (ih others)

theorem spells_parenthesized {text : String} (spells : Spells known text) (needed : Bool) :
    Spells known (parenthesized needed text) := by
  cases needed with
  | false => exact spells
  | true => exact (spells.behind (by decide)).gap (by decide)

theorem spells_number (n : Int) : Spells known (numberLiteral n) := by
  rw [numberLiteral_eq]
  split
  · exact spells_parenthesized ((spells_digits _).behind (by decide)) true
  · exact spells_digits _

theorem spells_charLiteral (c : Char) : Spells known (charLiteral c) := by
  unfold charLiteral
  split
  iterate 6 exact spells_plain (by decide)
  split
  · exact spells_short (by simp)
  · split
    · exact spells_short (by simp [hexByte])
    · exact spells_digits c.toNat

theorem spells_call {callee : String} (identifier : isIdentifier callee = true)
    {args : List String} (each : ∀ text ∈ args, Spells known text) :
    Spells known (call callee args) :=
  ((spells_ident identifier).between (by decide) (spells_intercalate each)).gap (by decide)

theorem spells_loopIndex (number : Nat) : Spells known (loopIndex number) := by
  refine spells_word (isWordRest_of_mem_loopIndex number) fun element same => ?_
  have sixth := congrArg (fun text => text.toList[5]?) same
  simp [loopIndex, Ty.cType, Ty.mangle, mark] at sixth

/-- Blanks in front of a text are between no words of it. -/
theorem mem_words_of_blanks {n : Nat} {text word : List Char} (nonempty : word ≠ [])
    (member : word ∈ words (List.replicate n ' ' ++ text)) : word ∈ words text := by
  induction n with
  | zero => exact member
  | succ n ih =>
    have first := @words_append ' ' (by decide) [] (List.replicate n ' ' ++ text)
    rw [List.replicate_succ, List.cons_append, ← List.nil_append (' ' :: _), first] at member
    rcases List.mem_append.mp member with empty | later
    · exact absurd (List.mem_singleton.mp empty) nonempty
    · exact ih later

theorem spells_indented {text : String} (spells : Spells known text) (level : Nat) :
    Spells known (Emitter.indented level text) := by
  intro element member
  rw [Emitter.indented, String.toList_append, String.toList_ofList] at member
  refine spells element (mem_words_of_blanks ?_ member)
  intro empty
  have marked := element.isInvented_cType.marked
  simp [empty, mark] at marked

end C

open C

mutual

theorem Expr.spells {known : List String} : ∀ e : Expr,
    (∀ name ∈ e.names, isIdentifier name = true) → Spells known e.cText
  | .number value, _ => spells_number value.toInt
  | .character value, _ => spells_charLiteral value
  | .boolean value, _ => by cases value <;> exact spells_plain (by decide)
  | .var name, named => spells_ident (named name (by simp [names]))
  | .binary op left right, named => by
    obtain ⟨namedLeft, namedRight⟩ := List.forall_mem_append.mp named
    have first : Spells known _ := spells_parenthesized (spells left namedLeft) left.isBinary
    have second : Spells known _ := spells_parenthesized (spells right namedRight) right.isBinary
    have operator : Spells known op.cText := by cases op <;> exact spells_plain (by decide)
    exact (first.between (by decide) operator).between (by decide) second
  | .not operand, named => (spells_parenthesized (spells operand named) _).behind (by decide)
  | .neg operand, named => (spells_parenthesized (spells operand named) _).behind (by decide)
  | .call callee args, named => by
    obtain ⟨identifier, others⟩ := List.forall_mem_cons.mp named
    exact spells_call identifier (eachSpells args others)

theorem Expr.eachSpells {known : List String} : ∀ args : List Expr,
    (∀ name ∈ namesAll args, isIdentifier name = true) → ∀ text ∈ cTexts args, Spells known text
  | [], _ => by simp [cTexts]
  | expr :: rest, named => by
    obtain ⟨namedFirst, namedRest⟩ := List.forall_mem_append.mp named
    exact List.forall_mem_cons.mpr ⟨spells expr namedFirst, eachSpells rest namedRest⟩

end

theorem Assign.spells {known : List String} (assign : Assign)
    (named : ∀ name ∈ assign.names, isIdentifier name = true) : Spells known assign.cText := by
  obtain ⟨identifier, others⟩ := List.forall_mem_cons.mp named
  exact (spells_ident identifier).between (by decide) (assign.value.spells others)

namespace C

variable {known : List String}

theorem spells_assigns {steps : List Assign}
    (named : ∀ name ∈ steps.flatMap Assign.names, isIdentifier name = true) :
    Spells known (", ".intercalate (steps.map Assign.cText)) := by
  refine spells_intercalate (List.forall_mem_map.mpr fun assign member => assign.spells ?_)
  exact fun name present => named name (List.mem_flatMap.mpr ⟨assign, member, present⟩)

theorem spells_afterBlank {text : String} (spells : Spells known text) :
    Spells known (afterBlank text) := by
  unfold afterBlank
  split
  · exact spells_plain (by decide)
  · exact spells.behind (by decide)

theorem spells_forHead {start : List Assign} {condition : Option Expr} {step : List Assign}
    (named : ∀ name ∈ start.flatMap Assign.names ++ condition.toList.flatMap Expr.names ++
      step.flatMap Assign.names, isIdentifier name = true) :
    Spells known (forHead start condition step) := by
  obtain ⟨namedFront, namedStep⟩ := List.forall_mem_append.mp named
  obtain ⟨namedStart, namedCondition⟩ := List.forall_mem_append.mp namedFront
  have test : Spells known ((condition.map Expr.cText).getD "") := by
    cases condition with
    | none => exact spells_plain (by decide)
    | some condition => exact condition.spells (by simpa using namedCondition)
  have steps : Spells known (", ".intercalate (step.map Assign.cText)) := spells_assigns namedStep
  exact ((((spells_assigns namedStart).behind (by decide)).between (by decide)
    (spells_afterBlank test)).between (by decide) (spells_afterBlank steps)).gap (by decide)

theorem spells_forEachHead (number : Nat) {container : String}
    (identifier : isIdentifier container = true) :
    Spells known (forEachHead (loopIndex number) (ident container)) := by
  have index : Spells known (loopIndex number) := spells_loopIndex number
  exact ((((index.behind (by decide)).between (by decide) index).between (by decide)
    (spells_ident identifier)).between (by decide) index).gap (by decide)

theorem spells_returnLine (inEntryPoint : Bool) (value : Option Expr)
    (named : ∀ name ∈ value.toList.flatMap Expr.names, isIdentifier name = true) :
    Spells known (returnLine inEntryPoint value) := by
  cases value with
  | some value =>
    exact ((value.spells (by simpa using named)).behind (by decide)).gap (by decide)
  | none => cases inEntryPoint <;> exact spells_plain (by decide)

theorem spells_declared (ty : Ty) {name : String} (identifier : isIdentifier name = true) :
    Spells known (declared ty name) := by
  unfold declared
  split
  · exact (spells_ident identifier).gap (by decide)
  · exact spells_ident identifier

theorem spells_paramList {params : List String} (each : ∀ text ∈ params, Spells known text) :
    Spells known (paramList params) := by
  unfold paramList
  split
  · exact spells_plain (by decide)
  · exact spells_intercalate each

end C

namespace Ty

theorem declarator_empty (params : List Ty) (result : Ty) :
    (function params result).declarator "" = (function params result).cType := by
  have joined : " (*" ++ "" ++ ")(" = " (*)(" := by decide
  rw [declarator, cType, ← joined]
  simp only [String.append_assoc]

theorem spells_pointer {params : List Ty} {result : Ty} (one : Spells result.structures result.cType)
    (each : ∀ text ∈ cTypes params, Spells (structuresAll params) text) {name : String}
    (spells : Spells (function params result).structures name) :
    Spells (function params result).structures ((function params result).declarator name) := by
  have front : Spells (function params result).structures result.cType :=
    one.mono fun _ own => List.mem_append_right _ own
  have list : Spells (function params result).structures (paramList (cTypes params)) :=
    spells_paramList fun text member => (each text member).mono fun _ own => List.mem_append_left _ own
  exact ((front.between (by decide) spells).between (by decide) list).gap (by decide)

mutual

/-- A type is spelled with its structures. -/
theorem spells_cType : ∀ ty : Ty, Spells ty.structures ty.cType
  | number => spells_plain (by decide)
  | unknown => spells_plain (by decide)
  | character => spells_plain (by decide)
  | boolean => spells_plain (by decide)
  | void => spells_plain (by decide)
  | array element => by
    intro other member
    rw [words_of_letters (isWordRest_of_isWord element.isWord_cType), List.mem_singleton] at member
    exact List.mem_singleton.mpr (String.toList_injective member)
  | function params result => by
    rw [← declarator_empty]
    exact spells_pointer (spells_cType result) (eachSpells_cTypes params) (spells_plain (by decide))

theorem eachSpells_cTypes : ∀ tys : List Ty, ∀ text ∈ cTypes tys, Spells (structuresAll tys) text
  | [] => by simp [cTypes]
  | ty :: rest => by
    refine List.forall_mem_cons.mpr ⟨?_, fun text member => ?_⟩
    · exact (spells_cType ty).mono fun _ own => List.mem_append_left _ own
    · exact (eachSpells_cTypes rest text member).mono fun _ own => List.mem_append_right _ own

end

theorem spells_declarator (ty : Ty) {name : String} (spells : Spells ty.structures name) :
    Spells ty.structures (ty.declarator name) := by
  have front := ty.spells_cType
  cases ty with
  | function params result =>
    exact spells_pointer result.spells_cType (eachSpells_cTypes params) spells
  | _ => exact front.between (by decide) spells

theorem mem_structuresAll {tys : List Ty} {name : String} :
    name ∈ structuresAll tys ↔ ∃ ty ∈ tys, name ∈ ty.structures := by
  induction tys with
  | nil => simp [structuresAll]
  | cons ty rest ih => simp [structuresAll, ih]

end Ty

namespace C.Line

/-- The types that a line is spelled with. -/
def types : Line → List Ty
  | element _ ty _ _ => [ty]
  | shared ty _ => [ty]
  | pointer params result _ => [.function params result]
  | prototype f => [f.signature]
  | header f => [f.signature]
  | member ty => [ty]
  | _ => []

/-- The structure that a line defines. -/
def definition? : Line → Option String
  | defined ty => some (Ty.array ty).cType
  | _ => none

end C.Line

theorem Function.spells_cSignature (f : Function)
    (named : ∀ name ∈ f.name :: f.params.map Param.name, isIdentifier name = true) :
    Spells f.signature.structures f.cSignature := by
  obtain ⟨identifier, others⟩ := List.forall_mem_cons.mp named
  have result : Spells f.signature.structures f.cResult := by
    unfold cResult
    split
    · exact spells_plain (by decide)
    · exact f.result.spells_cType.mono fun _ own => List.mem_append_right _ own
  have each : ∀ text ∈ f.params.map fun param => param.ty.declarator (ident param.name),
      Spells f.signature.structures text := by
    refine List.forall_mem_map.mpr fun param member => ?_
    have own := others param.name (List.mem_map_of_mem member)
    refine (param.ty.spells_declarator (spells_ident own)).mono fun name spelled => ?_
    refine List.mem_append_left _ (Ty.mem_structuresAll.mpr ⟨param.ty, ?_, spelled⟩)
    exact List.mem_map_of_mem member
  exact ((result.between (by decide) (spells_ident identifier)).between (by decide)
    (spells_paramList each)).gap (by decide)

/-- A line names the structures of its types, and the one that it defines. -/
theorem C.Line.spells (line : Line) (named : ∀ name ∈ line.names, isIdentifier name = true) :
    Spells (line.types.flatMap Ty.structures ++ line.definition?.toList) line.text := by
  have own : ∀ {ty : Ty} {text : String}, Spells ty.structures text →
      Spells ([ty].flatMap Ty.structures ++ []) text := by
    intro ty text spells
    simpa using spells
  cases line with
  | fixed text known =>
    have plain : ∀ text ∈ fixedTexts, isPlain text = true := by decide
    exact spells_plain (plain text known)
  | assign step => exact (step.spells named).gap (by decide)
  | call callee args =>
    obtain ⟨identifier, others⟩ := List.forall_mem_cons.mp named
    exact (spells_call identifier (Expr.eachSpells args others)).gap (by decide)
  | ret inEntryPoint value => exact spells_returnLine inEntryPoint value named
  | ifHead condition =>
    exact (((condition.spells named).behind (by decide)).gap (by decide)).gap (by decide)
  | whileHead condition =>
    exact (((condition.spells named).behind (by decide)).gap (by decide)).gap (by decide)
  | forHead start condition step => exact (spells_forHead named).gap (by decide)
  | eachHead number container =>
    exact (spells_forEachHead number (named container List.mem_cons_self)).gap (by decide)
  | element number ty name container =>
    obtain ⟨identifier, others⟩ := List.forall_mem_cons.mp named
    have front := ty.spells_declarator (spells_ident identifier)
    have array : Spells ty.structures (ident container) :=
      spells_ident (others container List.mem_cons_self)
    exact own (((front.between (by decide) array).between (by decide) (spells_loopIndex number)).gap
      (by decide))
  | shared ty names =>
    have each : ∀ text ∈ names.map (declared ty), Spells ty.structures text :=
      List.forall_mem_map.mpr fun name member => spells_declared ty (named name member)
    have list := spells_intercalate each
    exact own ((ty.spells_cType.between (by decide) list).gap (by decide))
  | pointer params result name =>
    have identifier := named name List.mem_cons_self
    exact own ((Ty.spells_declarator _ (spells_ident identifier)).gap (by decide))
  | prototype f => exact own ((f.spells_cSignature named).gap (by decide))
  | header f => exact own ((f.spells_cSignature named).gap (by decide))
  | member ty =>
    have data := ty.spells_declarator (spells_plain (by decide : isPlain "*data" = true))
    exact own ((data.behind (by decide)).gap (by decide))
  | defined ty =>
    have name := (Ty.array ty).spells_cType
    exact (name.behind (by decide)).gap (by decide)

end Caju
