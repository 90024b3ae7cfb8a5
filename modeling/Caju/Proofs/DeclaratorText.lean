import Caju.C.Type
import Caju.Proofs.CDeclarations
import Caju.Proofs.ExprText
import Caju.Proofs.TypeNames

/-! What C makes of declared types. A declarator is written by putting the result of a function
in front and its parameters behind. C reads that as it was meant, with two exceptions: behind
the result of a function that returns a function there is no place for a name, so such a
declaration has no reading at all; and one parameter without a value is read as none. -/

namespace Caju

namespace C

/-- The tokens of a name that may be left out. -/
def nameTokens : Option String → List Token
  | some name => [.word name]
  | none => []

/-- The tokens that `paramList` writes. -/
def paramTokens (each : List (List Token)) : List Token :=
  if each.isEmpty then [.word "void"] else [.punctuator ","].intercalate each

/-- The tokens of a pointer to a function, around its name. -/
def pointerTokens (name : Option String) (listed : List Token) : List Token :=
  .punctuator "(" :: .punctuator "*" :: nameTokens name ++ .punctuator ")" ::
    .punctuator "(" :: listed ++ [.punctuator ")"]

end C

open C

namespace Ty

/-- The word that a declaration with a type begins with. -/
def specifier : Ty → String
  | function _ result => result.specifier
  | ty => ty.cType

mutual

/-- The structures that a type is spelled with in C, by their names. -/
def structures : Ty → List String
  | array element => [(array element).cType]
  | function params result => structuresAll params ++ structures result
  | _ => []

def structuresAll : List Ty → List String
  | [] => []
  | ty :: rest => structures ty ++ structuresAll rest

end

mutual

/-- The C type that is meant by a type. -/
def meaning : Ty → TypeTree
  | number => .named "int"
  | unknown => .named "int"
  | character => .named "char"
  | boolean => .named "bool"
  | void => .named "void"
  | array element => .named (array element).cType
  | function params result => .pointer (.function (meanings params) (meaning result))

def meanings : List Ty → List TypeTree
  | [] => []
  | ty :: rest => meaning ty :: meanings rest

end

mutual

/-- The C type that a declaration with a type is read as: to C, a list of parameters that
says `void` and no more has none in it. -/
def reading : Ty → TypeTree
  | function params result =>
    .pointer (.function (if params = [void] then [] else readings params) (reading result))
  | ty => ty.meaning

def readings : List Ty → List TypeTree
  | [] => []
  | ty :: rest => reading ty :: readings rest

end

mutual

/-- Whether no function returns another, in what is spelled out of a type. -/
def isDeclarable : Ty → Bool
  | function params result => !result.isFunction && areDeclarable params
  | _ => true

def areDeclarable : List Ty → Bool
  | [] => true
  | ty :: rest => isDeclarable ty && areDeclarable rest

end

mutual

/-- Whether a function has one parameter, without a value, in what is spelled out of a type. -/
def takesVoid : Ty → Bool
  | function params result => params == [void] || takeVoid params || takesVoid result
  | _ => false

def takeVoid : List Ty → Bool
  | [] => false
  | ty :: rest => takesVoid ty || takeVoid rest

end

mutual

/-- The tokens of a declarator behind its first word. -/
def declaratorTokens : Ty → Option String → List Token
  | function params result, name =>
    declaratorTokens result none ++ pointerTokens name (paramTokens (eachTokens params))
  | _, name => nameTokens name

/-- The tokens of parameters. -/
def eachTokens : List Ty → List (List Token)
  | [] => []
  | ty :: rest => (.word ty.specifier :: declaratorTokens ty none) :: eachTokens rest

end

theorem declaratorTokens_of_not_function {ty : Ty} (data : ty.isFunction = false)
    (name : Option String) : ty.declaratorTokens name = nameTokens name := by
  cases ty with
  | function params result => cases data
  | _ => rw [declaratorTokens]; simp

theorem reading_of_not_function {ty : Ty} (data : ty.isFunction = false) :
    ty.reading = .named ty.specifier := by
  cases ty with
  | function params result => cases data
  | _ => simp [reading, meaning, specifier, cType]

theorem isDeclarable_of_not_function {ty : Ty} (data : ty.isFunction = false) :
    ty.isDeclarable = true := by
  cases ty with
  | function params result => cases data
  | _ => simp [isDeclarable]

end Ty

/-! ### What the tokens of a declarator are read as -/

namespace C

variable {typedefs : String → Prop} {tokens rest after : List Token} {base type : TypeTree}
  {name found : Option String}

theorem ends_closing (rest : List Token) : Ends (.punctuator ")" :: rest) := by
  simp [Ends]

theorem Declarator.name_reading (declares : Declarator typedefs tokens base found type)
    (split : tokens ++ after = nameTokens name ++ rest) (ends : Ends after) (ends' : Ends rest) :
    after = rest ∧ found = name ∧ type = base := by
  cases name with
  | none =>
    obtain ⟨rfl, rfl, rfl⟩ := declares.eq_nil split ends'
    exact ⟨split, rfl, rfl⟩
  | some word =>
    cases declares with
    | pointer target => simp [nameTokens] at split
    | @direct front back _ inner _ _ core lists =>
      cases core with
      | parens _ _ => simp [nameTokens] at split
      | omitted =>
        have stops : ¬ BeginsList (nameTokens (some word) ++ rest) := by
          simp [BeginsList, nameTokens]
        obtain ⟨rfl, rfl⟩ := lists.eq_nil split stops
        obtain rfl : after = .word word :: rest := split
        rcases ends _ rfl with other | other <;> cases other
      | @name own _ free =>
        simp only [nameTokens, List.cons_append, List.nil_append, List.cons.injEq,
          Token.word.injEq] at split
        obtain ⟨rfl, split⟩ := split
        obtain ⟨rfl, rfl⟩ := lists.eq_nil split ends'.not_beginsList
        exact ⟨split, rfl, rfl⟩

/-- A pointer to a function is read as such wherever no other list of parameters follows,
provided that its own can only be read in one way. -/
theorem Declarator.pointer_reading {listed : List Token} {params : List TypeTree} {fits : Prop}
    (declares : Declarator typedefs tokens base found type)
    (split : tokens ++ after = pointerTokens name listed ++ rest)
    (ends : Ends after) (stops : ¬ BeginsList rest)
    (list : ∀ {own back types}, ParamList typedefs own types →
      own ++ .punctuator ")" :: back = listed ++ .punctuator ")" :: rest →
      back = rest ∧ types = params ∧ fits) :
    after = rest ∧ found = name ∧ type = .pointer (.function params base) ∧ fits := by
  simp only [pointerTokens, List.cons_append, List.append_assoc, List.nil_append] at split
  have opens : ∀ {more}, after ≠ .punctuator "(" :: more := by
    rintro more rfl
    rcases ends _ rfl with other | other <;> simp at other
  cases declares with
  | pointer target => simp at split
  | @direct front back _ inner _ _ core lists =>
    cases core with
    | name free => simp at split
    | omitted =>
      -- What would be its parameters begins with a star.
      obtain ⟨rfl, rfl⟩ := lists.eq_nil split (by simp [BeginsList])
      exact absurd split opens
    | @parens own _ _ _ some inside =>
      simp only [List.cons_append, List.append_assoc, List.nil_append, List.cons.injEq,
        true_and] at split
      obtain ⟨token, more, rfl⟩ := List.exists_cons_of_ne_nil some
      simp only [List.cons_append, List.cons.injEq] at split
      obtain ⟨rfl, split⟩ := split
      obtain ⟨behind, rfl, rfl⟩ :=
        (inside.target rfl).name_reading split (ends_closing _) (ends_closing _)
      cases lists with
      | none => exact absurd (List.cons.inj behind).2 opens
      | cons first others =>
        simp only [List.cons_append, List.append_assoc, List.cons.injEq, true_and] at behind
        obtain ⟨behindList, rfl, fit⟩ := list first behind
        obtain ⟨rfl, rfl⟩ := others.eq_nil behindList stops
        exact ⟨behindList, rfl, rfl, fit⟩

end C

namespace Ty

section Reading

variable (typedefs : String → Prop)

/-- The declarator of a type has its reading and no other, if it has any, in front of what it
may stand in front of. -/
def Reads (ty : Ty) (stops : List Token → Prop) : Prop :=
  ∀ {tokens after rest : List Token} {name found : Option String} {type : TypeTree},
    Declarator typedefs tokens (.named ty.specifier) found type →
    tokens ++ after = ty.declaratorTokens name ++ rest → Ends after → stops rest →
    after = rest ∧ found = name ∧ type = ty.reading ∧ ty.isDeclarable = true

/-- The same of parameters, at the end of their list. -/
def EachReads (params : List Ty) : Prop :=
  ∀ {tokens after rest : List Token} {types : List TypeTree}, Params typedefs tokens types →
    tokens ++ .punctuator ")" :: after =
      [.punctuator ","].intercalate (eachTokens params) ++ .punctuator ")" :: rest →
    after = rest ∧ types = readings params ∧ areDeclarable params = true

variable {typedefs}

theorem reads_of_function {ty : Ty}
    (pointer : ty.isFunction = true → ty.Reads typedefs fun rest => ¬ BeginsList rest) :
    ty.Reads typedefs Ends := by
  intro tokens after rest name found type declares split ends ends'
  cases data : ty.isFunction with
  | true => exact pointer data declares split ends ends'.not_beginsList
  | false =>
    rw [declaratorTokens_of_not_function data] at split
    obtain ⟨same, own, kept⟩ := declares.name_reading split ends ends'
    exact ⟨same, own, kept.trans (reading_of_not_function data).symm,
      isDeclarable_of_not_function data⟩

theorem parameter_reading {ty : Ty} (reads : ty.Reads typedefs Ends)
    {tokens after rest : List Token} {type : TypeTree} (declares : Parameter typedefs tokens type)
    (split : tokens ++ after = .word ty.specifier :: ty.declaratorTokens none ++ rest)
    (ends : Ends after) (ends' : Ends rest) :
    after = rest ∧ type = ty.reading ∧ ty.isDeclarable = true := by
  cases declares with
  | @mk word own _ _ _ declares _ =>
    simp only [List.cons_append, List.cons.injEq, Token.word.injEq] at split
    obtain ⟨rfl, split⟩ := split
    obtain ⟨same, _, kept, declarable⟩ := reads declares split ends ends'
    exact ⟨same, kept, declarable⟩

theorem ends_comma (rest : List Token) : Ends (.punctuator "," :: rest) := by
  simp [Ends]

theorem eachReads_last {ty : Ty} (reads : ty.Reads typedefs Ends) : EachReads typedefs [ty] := by
  intro tokens after rest types given split
  simp only [eachTokens, List.intercalate_singleton] at split
  cases given with
  | last only =>
    obtain ⟨same, rfl, declarable⟩ :=
      parameter_reading reads only split (ends_closing _) (ends_closing _)
    exact ⟨(List.cons.inj same).2, rfl, by simp [areDeclarable, declarable]⟩
  | cons first others =>
    rw [List.append_assoc] at split
    obtain ⟨same, _⟩ := parameter_reading reads first split (ends_comma _) (ends_closing _)
    simp at same

theorem eachReads_cons {ty next : Ty} {rest : List Ty} (reads : ty.Reads typedefs Ends)
    (others : EachReads typedefs (next :: rest)) : EachReads typedefs (ty :: next :: rest) := by
  intro tokens after behind types given split
  rw [eachTokens, eachTokens, List.intercalate_cons_cons, ← eachTokens] at split
  simp only [List.append_assoc, List.cons_append, List.nil_append] at split
  cases given with
  | last only =>
    obtain ⟨same, _⟩ := parameter_reading reads only split (ends_closing _) (ends_comma _)
    simp at same
  | cons first more =>
    rw [List.append_assoc] at split
    obtain ⟨same, rfl, declarable⟩ :=
      parameter_reading reads first split (ends_comma _) (ends_comma _)
    obtain ⟨rfl, rfl, declarables⟩ := others more (List.cons.inj same).2
    exact ⟨rfl, rfl, by rw [areDeclarable, declarable, declarables]; rfl⟩

theorem eq_void_of_reading {ty : Ty} (same : ty.reading = .named "void") : ty = void := by
  cases ty with
  | array element =>
    simp [reading, meaning, cType, mark, ← String.toList_inj] at same
  | void => rfl
  | _ => simp [reading, meaning] at same

theorem eq_void_of_readings {params : List Ty} (same : readings params = [.named "void"]) :
    params = [void] := by
  cases params with
  | nil => cases same
  | cons ty rest =>
    cases rest with
    | nil => rw [eq_void_of_reading (List.cons.inj same).1]
    | cons next others => cases (List.cons.inj same).2

theorem params_void : Params typedefs [.word "void"] [.named "void"] :=
  .last (.mk (.inl (by decide)) (.direct .omitted .none) (by simp))

theorem eachReads_void : EachReads typedefs [void] := by
  refine eachReads_last (reads_of_function fun pointer => ?_)
  cases pointer

/-- A list of parameters says `void` if there are none, and if there is one without a value. -/
theorem list_reading {params : List Ty} (each : params ≠ [] → EachReads typedefs params)
    {tokens after rest : List Token} {types : List TypeTree}
    (given : ParamList typedefs tokens types)
    (split : tokens ++ .punctuator ")" :: after =
      paramTokens (eachTokens params) ++ .punctuator ")" :: rest) :
    after = rest ∧ types = (if params = [void] then [] else readings params) ∧
      areDeclarable params = true := by
  have alone : [.punctuator ","].intercalate (eachTokens [void]) = [.word "void"] := rfl
  cases params with
  | nil =>
    have listed : paramTokens (eachTokens []) = [.word "void"] := rfl
    rw [listed] at split
    cases given with
    | void =>
      simp only [List.cons_append, List.nil_append, List.cons.injEq, true_and] at split
      exact ⟨split, rfl, rfl⟩
    | some given notVoid =>
      -- It could only be one parameter without a value, which C does not have.
      obtain ⟨rfl, _⟩ := eachReads_void given (alone ▸ split)
      exact absurd (List.append_cancel_right split) notVoid
  | cons ty others =>
    have several : ty :: others ≠ [] := List.cons_ne_nil ty others
    have listed : paramTokens (eachTokens (ty :: others)) =
        [.punctuator ","].intercalate (eachTokens (ty :: others)) := by
      simp [paramTokens, eachTokens]
    rw [listed] at split
    cases given with
    | void =>
      obtain ⟨rfl, same, declarable⟩ := each several params_void split
      rw [eq_void_of_readings same.symm]
      exact ⟨rfl, rfl, rfl⟩
    | some given notVoid =>
      obtain ⟨rfl, rfl, declarable⟩ := each several given split
      have same := List.append_cancel_right split
      have valued : ty :: others ≠ [void] := fun lone => notVoid (by rw [same, lone, alone])
      exact ⟨rfl, (if_neg valued).symm, declarable⟩

theorem reads_pointer {params : List Ty} {result : Ty}
    (ofResult : result.isFunction = true → result.Reads typedefs fun rest => ¬ BeginsList rest)
    (ofParams : params ≠ [] → EachReads typedefs params) :
    (function params result).Reads typedefs fun rest => ¬ BeginsList rest := by
  intro tokens after rest name found type declares split ends stops
  rw [declaratorTokens, List.append_assoc] at split
  cases data : result.isFunction with
  | true =>
    -- A declarator ends behind the parameters of the result, but here something follows.
    have star : ¬ BeginsList (pointerTokens name (paramTokens (eachTokens params)) ++ rest) := by
      simp [BeginsList, pointerTokens]
    obtain ⟨same, _⟩ := ofResult data declares split ends star
    rcases ends (.punctuator "(") (by rw [same]; rfl) with other | other <;> simp at other
  | false =>
    rw [declaratorTokens_of_not_function data] at split
    obtain ⟨same, own, kept, declarable⟩ :=
      declares.pointer_reading split ends stops fun given behind => list_reading ofParams given behind
    refine ⟨same, own, ?_, by simp [isDeclarable, data, declarable]⟩
    rw [kept, reading, reading_of_not_function data, specifier]

end Reading

mutual

theorem readsFunction (typedefs : String → Prop) : ∀ ty : Ty, ty.isFunction = true →
    ty.Reads typedefs fun rest => ¬ BeginsList rest
  | function params result, _ =>
    reads_pointer (readsFunction typedefs result) (eachReads typedefs params)

theorem eachReads (typedefs : String → Prop) : ∀ params : List Ty, params ≠ [] →
    EachReads typedefs params
  | [ty], _ => eachReads_last (reads_of_function (readsFunction typedefs ty))
  | ty :: next :: rest, _ =>
    eachReads_cons (reads_of_function (readsFunction typedefs ty))
      (eachReads typedefs (next :: rest) (List.cons_ne_nil next rest))

end

/-- The tokens of a declarator are read in one way at most. -/
theorem reads (typedefs : String → Prop) (ty : Ty) : ty.Reads typedefs Ends :=
  reads_of_function (readsFunction typedefs ty)

/-! ### The reading that there is -/

theorem specifier_names {typedefs : String → Prop} : ∀ ty : Ty,
    (∀ own ∈ ty.structures, typedefs own) → NamesType typedefs ty.specifier
  | function params result, known =>
    specifier_names result fun own member => known own (List.mem_append_right _ member)
  | array element, known => .inr (known _ (by simp [structures, specifier]))
  | number, _ => .inl (by decide)
  | unknown, _ => .inl (by decide)
  | character, _ => .inl (by decide)
  | boolean, _ => .inl (by decide)
  | void, _ => .inl (by decide)

end Ty

namespace C

variable {typedefs : String → Prop} {name : Option String}

theorem declarator_name (free : ∀ own ∈ name, own ∉ reserved) (base : TypeTree) :
    Declarator typedefs (nameTokens name) base name base := by
  cases name with
  | none => exact .direct .omitted .none
  | some own => exact .direct (.name (free own rfl)) .none

theorem declarator_pointer {listed : List Token} {params : List TypeTree}
    (given : ParamList typedefs listed params) (free : ∀ own ∈ name, own ∉ reserved)
    (base : TypeTree) :
    Declarator typedefs (pointerTokens name listed) base name (.pointer (.function params base)) := by
  have target := @declarator_name typedefs name free (.pointer (.function params base))
  have group := Core.parens (List.cons_ne_nil _ _) (.pointer target)
  have whole := Declarator.direct group (.cons given .none)
  simpa [pointerTokens] using whole

end C

namespace Ty

/-- What parameters are read as, once each of them is read. -/
theorem list_given {typedefs : String → Prop} {params : List Ty}
    (given : params ≠ [] →
      Params typedefs ([.punctuator ","].intercalate (eachTokens params)) (readings params)) :
    ParamList typedefs (paramTokens (eachTokens params))
      (if params = [void] then [] else readings params) := by
  cases params with
  | nil => exact .void
  | cons ty rest =>
    have several := List.cons_ne_nil ty rest
    by_cases lone : ty :: rest = [void]
    · rw [if_pos lone, lone]
      exact .void
    · rw [if_neg lone]
      have listed : paramTokens (eachTokens (ty :: rest)) =
          [.punctuator ","].intercalate (eachTokens (ty :: rest)) := by
        simp [paramTokens, eachTokens]
      rw [listed]
      refine .some (given several) fun alone => lone ?_
      -- The word `void` has a reading as a parameter, and the parameters have no other.
      have split : [.word "void"] ++ [.punctuator ")"] =
          [.punctuator ","].intercalate (eachTokens (ty :: rest)) ++ [.punctuator ")"] := by
        rw [alone]
      obtain ⟨_, same, _⟩ := eachReads typedefs _ several params_void split
      exact eq_void_of_readings same.symm

section Declares

variable {typedefs : String → Prop}

theorem declares_data {ty : Ty} (data : ty.isFunction = false) {name : Option String}
    (free : ∀ own ∈ name, own ∉ reserved) :
    Declarator typedefs (ty.declaratorTokens name) (.named ty.specifier) name ty.reading := by
  rw [declaratorTokens_of_not_function data, reading_of_not_function data]
  exact declarator_name free _

theorem parameter_given {ty : Ty} (known : ∀ own ∈ ty.structures, typedefs own)
    (declares : Declarator typedefs (ty.declaratorTokens none) (.named ty.specifier) none ty.reading) :
    Parameter typedefs (.word ty.specifier :: ty.declaratorTokens none) ty.reading :=
  .mk (ty.specifier_names known) declares (by simp)

mutual

theorem declares : ∀ {ty : Ty}, ty.isDeclarable = true → (∀ own ∈ ty.structures, typedefs own) →
    ∀ {name : Option String}, (∀ own ∈ name, own ∉ reserved) →
    Declarator typedefs (ty.declaratorTokens name) (.named ty.specifier) name ty.reading
  | function params result, declarable, known, name, free => by
    simp only [isDeclarable, Bool.and_eq_true, Bool.not_eq_true'] at declarable
    obtain ⟨data, declarables⟩ := declarable
    have list := list_given fun several => eachDeclares several declarables fun own member =>
      known own (List.mem_append_left _ member)
    rw [declaratorTokens, declaratorTokens_of_not_function data, reading,
      reading_of_not_function data, specifier]
    exact declarator_pointer list free _
  | array _, _, _, _, free => declares_data rfl free
  | number, _, _, _, free => declares_data rfl free
  | unknown, _, _, _, free => declares_data rfl free
  | character, _, _, _, free => declares_data rfl free
  | boolean, _, _, _, free => declares_data rfl free
  | void, _, _, _, free => declares_data rfl free

theorem eachDeclares : ∀ {params : List Ty}, params ≠ [] → areDeclarable params = true →
    (∀ own ∈ structuresAll params, typedefs own) →
    Params typedefs ([.punctuator ","].intercalate (eachTokens params)) (readings params)
  | [ty], _, declarable, known => by
    have own : ∀ own ∈ ty.structures, typedefs own := fun own member =>
      known own (List.mem_append_left _ member)
    have first := parameter_given own (declares (Bool.and_eq_true_iff.mp declarable).1 own (by simp))
    simpa [eachTokens, readings] using Params.last first
  | ty :: next :: rest, _, declarable, known => by
    obtain ⟨declarable, declarables⟩ := Bool.and_eq_true_iff.mp declarable
    obtain ⟨own, others⟩ := List.forall_mem_append.mp known
    have first := parameter_given own (declares declarable own (by simp))
    have more := eachDeclares (List.cons_ne_nil next rest) declarables others
    simpa [eachTokens, readings] using Params.cons first more

end

end Declares

/-- The tokens of a declaration have one reading if no function returns another, and none
otherwise. -/
theorem declaration_iff {typedefs : String → Prop} {ty : Ty} {name : String}
    (free : name ∉ reserved) (known : ∀ own ∈ ty.structures, typedefs own) (declared : String)
    (type : TypeTree) :
    Declaration typedefs (.word ty.specifier :: ty.declaratorTokens (some name)) declared type ↔
      ty.isDeclarable = true ∧ declared = name ∧ type = ty.reading := by
  constructor
  · generalize whole : Token.word ty.specifier :: ty.declaratorTokens (some name) = tokens
    rintro ⟨_, declares⟩
    obtain ⟨first, rfl⟩ := List.cons.inj whole
    cases first
    obtain ⟨_, same, kept, declarable⟩ :=
      ty.reads typedefs declares (congrArg (· ++ []) rfl) (by simp [Ends]) (by simp [Ends])
    exact ⟨declarable, Option.some.inj same, kept⟩
  · rintro ⟨declarable, rfl, rfl⟩
    exact .mk (ty.specifier_names known) (declares declarable known (by simpa using free))

end Ty

/-! ### The text of a declarator -/

namespace C

private theorem punctuators_star :
    ∀ text ∈ punctuators, text.toList.head? = some '*' → text.toList[1]?.all (· == '=') = true := by
  decide

theorem tokens_star {c : Char} (equals : c ≠ '=') {more : List Char} {later : List Token}
    (read : tokens (c :: more) = some later) :
    tokens ("*".toList ++ c :: more) = some (.punctuator "*" :: later) := by
  refine Stands.tokens_eq (punctuator_stands rfl (by decide) (by decide) ?_ ?_) read
  · rintro d next other present ⟨tail, longer⟩
    obtain rfl : c = d := Option.some.inj next
    have second := punctuators_star other present (by rw [← longer]; rfl)
    rw [← longer] at second
    simp [equals] at second
  · exact not_startsComment (by decide) _

/-- A pointer to a function is cut into its tokens. -/
theorem tokens_pointer {name : Option String} (word : ∀ own ∈ name, isWord own.toList = true)
    {list : String} {listed : List Token} (cuts : CutsInto list listed) {rest : List Char}
    {later : List Token} (read : tokens rest = some later) :
    tokens ((" (*" ++ name.getD "" ++ ")(" ++ list ++ ")").toList ++ rest) =
      some (pointerTokens name listed ++ later) := by
  have closing := @tokens_bracket ")" ')' rfl (by decide) _ _ read
  have inside := cuts _ _ (by simp [Closes]) closing
  have opening := @tokens_bracket "(" '(' rfl (by decide) _ _ inside
  have behind := @tokens_bracket ")" ')' rfl (by decide) _ _ opening
  have starred : tokens ("*".toList ++ ((name.getD "").toList ++ (")".toList ++ ("(".toList ++
      (list.toList ++ (")".toList ++ rest)))))) =
      some (.punctuator "*" :: nameTokens name ++ .punctuator ")" :: .punctuator "(" :: listed ++
        .punctuator ")" :: later) := by
    cases name with
    | none => simpa [nameTokens] using @tokens_star ')' (by decide) _ _ behind
    | some own =>
      have known := word own rfl
      have named := cutsInto_word known _ _ (by simp [Closes]) behind
      cases spelled : own.toList with
      | nil => simp [spelled, isWord] at known
      | cons c more =>
        rw [spelled] at known named
        have equals : c ≠ '=' := by
          rintro rfl
          simp [isWord, isNondigit] at known
        simpa [nameTokens, spelled] using tokens_star equals named
  have group := @tokens_bracket "(" '(' rfl (by decide) _ _ starred
  have whole := (tokens_blank _).trans group
  simpa [pointerTokens] using whole

theorem cutsInto_paramList {texts : List String} {cuts : List (List Token)}
    (each : List.Forall₂ CutsInto texts cuts) : CutsInto (paramList texts) (paramTokens cuts) := by
  cases each with
  | nil => exact cutsInto_word (by decide)
  | cons first others =>
    intro rest later closes read
    exact cutsInto_arguments (.cons first others) closes read

end C

theorem NameWord.spell_letters (words : List NameWord) : (spell words).all isWordRest = true := by
  induction words with
  | nil => rfl
  | cons word rest ih =>
    have letters : word.text.toList.all isWordRest = true := by cases word <;> decide
    cases rest with
    | nil => simpa [spell] using letters
    | cons next others =>
      simp only [spell, List.map_cons] at ih ⊢
      rw [List.intercalate_cons_cons, List.all_append, List.all_append, letters, ih]
      rfl

namespace Ty

theorem isWord_cType (element : Ty) : isWord (array element).cType.toList = true := by
  have letters := NameWord.spell_letters (array element).outline
  rw [cType, String.toList_append, toList_mangle]
  have front : mark.toList = 'c' :: ['a', 'j', 'u', '_'] := rfl
  rw [front, List.cons_append, isWord, List.all_append, letters]
  rfl

mutual

/-- The text of a C type is cut into the tokens it was written from. -/
theorem cutsInto_cType : ∀ ty : Ty,
    CutsInto ty.cType (.word ty.specifier :: ty.declaratorTokens none)
  | function params result => by
    intro rest later closes read
    have list := cutsInto_paramList (eachCutsInto_cTypes params)
    have pointer := @tokens_pointer none (by simp) _ _ list _ _ read
    have whole := cutsInto_cType result _ _ (by simp [Closes]) pointer
    simpa [cType, declaratorTokens, specifier] using whole
  | array element => cutsInto_word (isWord_cType element)
  | number => cutsInto_word (by decide)
  | unknown => cutsInto_word (by decide)
  | character => cutsInto_word (by decide)
  | boolean => cutsInto_word (by decide)
  | void => cutsInto_word (by decide)

theorem eachCutsInto_cTypes : ∀ tys : List Ty, List.Forall₂ CutsInto (cTypes tys) (eachTokens tys)
  | [] => .nil
  | ty :: rest => .cons (cutsInto_cType ty) (eachCutsInto_cTypes rest)

end

theorem cutsInto_declarator (ty : Ty) {name : String} (identifier : isIdentifier name = true) :
    CutsInto (ty.declarator name) (.word ty.specifier :: ty.declaratorTokens (some name)) := by
  intro rest later closes read
  have front := ty.cutsInto_cType
  cases ty with
  | function params result =>
    have list := cutsInto_paramList (eachCutsInto_cTypes params)
    have pointer := @tokens_pointer (some name) (by simpa [isIdentifier] using identifier) _ _ list _ _ read
    have whole := cutsInto_cType result _ _ (by simp [Closes]) pointer
    simpa [declarator, declaratorTokens, specifier] using whole
  | _ =>
    have named := (tokens_blank _).trans (cutsInto_word identifier _ _ closes read)
    have whole := front _ _ (by simp [Closes]) named
    simpa [declarator, declaratorTokens, nameTokens, specifier] using whole

theorem tokens_declarator (ty : Ty) {name : String} (identifier : isIdentifier name = true) :
    tokens (ty.declarator name).toList =
      some (.word ty.specifier :: ty.declaratorTokens (some name)) := by
  have whole := ty.cutsInto_declarator identifier [] [] (by simp [Closes]) (by rw [tokens])
  simpa using whole

mutual

/-- Only a parameter without a value makes C read something else than is meant. -/
theorem reading_eq_meaning_iff : ∀ ty : Ty, ty.reading = ty.meaning ↔ ty.takesVoid = false
  | function params result => by
    have ofParams := readings_eq_meanings_iff params
    have ofResult := reading_eq_meaning_iff result
    by_cases lone : params = [void]
    · simp [reading, meaning, takesVoid, lone, meanings]
    · simp [reading, meaning, takesVoid, lone, ofParams, ofResult]
  | number => by simp [reading, takesVoid]
  | unknown => by simp [reading, takesVoid]
  | character => by simp [reading, takesVoid]
  | boolean => by simp [reading, takesVoid]
  | void => by simp [reading, takesVoid]
  | array _ => by simp [reading, takesVoid]

theorem readings_eq_meanings_iff : ∀ tys : List Ty, readings tys = meanings tys ↔ takeVoid tys = false
  | [] => by simp [readings, meanings, takeVoid]
  | ty :: rest => by
    simp [readings, meanings, takeVoid, reading_eq_meaning_iff ty, readings_eq_meanings_iff rest]

end

/-- C reads a declared name with its type: the text is cut into tokens to the end, and they are
a declaration exactly if no function in the type, as far as it is spelled out, returns another.
That declaration has one reading: it declares the name and nothing else, with the C type that is
meant, unless some function in the type has one parameter and that without a value. -/
theorem declarator_reads (typedefs : String → Prop) (ty : Ty) (name : String)
    (identifier : isIdentifier name = true) (free : name ∉ reserved)
    (known : ∀ own ∈ ty.structures, typedefs own) :
    ∃ read, C.tokens (ty.declarator name).toList = some read ∧
      (∀ declared type, Declaration typedefs read declared type ↔
        ty.isDeclarable = true ∧ declared = name ∧ type = ty.reading) ∧
      (ty.reading = ty.meaning ↔ ty.takesVoid = false) :=
  ⟨_, ty.tokens_declarator identifier, declaration_iff free known, ty.reading_eq_meaning_iff⟩

/-- A function that takes another function and an array: its name stands in the middle. -/
theorem declarator_reads_callback :
    let ty : Ty := function [function [] character, array (function [void] void)] boolean
    (∀ own ∈ ty.structures, own = "caju_array_fn_void_void") ∧ isIdentifier "apply" = true ∧
    "apply" ∉ reserved ∧
    ty.declarator "apply" = "bool (*apply)(char (*)(void), caju_array_fn_void_void)" ∧
    ∃ read, C.tokens "bool (*apply)(char (*)(void), caju_array_fn_void_void)".toList = some read ∧
      ∀ declared type, Declaration (· = "caju_array_fn_void_void") read declared type ↔
        declared = "apply" ∧
          type = .pointer (.function [.pointer (.function [] (.named "char")),
            .named "caju_array_fn_void_void"] (.named "bool")) := by
  intro ty
  have known : ∀ own ∈ ty.structures, own = "caju_array_fn_void_void" := by decide
  refine ⟨known, by decide, by decide, by decide, ?_⟩
  obtain ⟨read, cut, readings, _⟩ :=
    ty.declarator_reads (· = "caju_array_fn_void_void") "apply" (by decide) (by decide) known
  refine ⟨read, cut, fun declared type => ?_⟩
  rw [readings]
  exact and_iff_right (by decide)

/-- A function that returns another is no declaration in C, and one parameter without a value
is read as none. -/
theorem declarator_reads_returned :
    let returning : Ty := function [number] (function [] number)
    let taking : Ty := function [void] number
    returning.declarator "f" = "int (*)(void) (*f)(int)" ∧
    taking.declarator "f" = "int (*f)(void)" ∧
    (∃ read, C.tokens "int (*)(void) (*f)(int)".toList = some read ∧
      ∀ typedefs declared type, ¬ Declaration typedefs read declared type) ∧
    (∃ read, C.tokens "int (*f)(void)".toList = some read ∧
      ∀ typedefs declared type, Declaration typedefs read declared type ↔
        declared = "f" ∧ type = .pointer (.function [] (.named "int"))) ∧
    ¬ ∀ (typedefs : String → Prop) (ty : Ty) (name : String), isIdentifier name = true →
      name ∉ reserved → (∀ own ∈ ty.structures, typedefs own) →
      ∃ read, C.tokens (ty.declarator name).toList = some read ∧
        Declaration typedefs read name ty.meaning := by
  intro returning taking
  have free : "f" ∉ reserved := by decide
  have identifier : isIdentifier "f" = true := by decide
  have returningText : returning.declarator "f" = "int (*)(void) (*f)(int)" := by decide
  have takingText : taking.declarator "f" = "int (*f)(void)" := by decide
  have none : ∀ typedefs declared type, ¬ Declaration typedefs
      (.word returning.specifier :: returning.declaratorTokens (some "f")) declared type := by
    intro typedefs declared type declares
    have readable := (declaration_iff free (List.forall_mem_nil _) declared type).mp declares
    exact absurd readable.1 (by decide)
  refine ⟨returningText, takingText, ?_, ?_, fun claimed => ?_⟩
  · rw [← returningText]
    exact ⟨_, returning.tokens_declarator identifier, none⟩
  · rw [← takingText]
    refine ⟨_, taking.tokens_declarator identifier, fun typedefs declared type => ?_⟩
    rw [declaration_iff free (List.forall_mem_nil _)]
    exact and_iff_right (by decide)
  · obtain ⟨read, cut, declares⟩ :=
      claimed (fun _ => True) returning "f" identifier free fun _ _ => trivial
    rw [returning.tokens_declarator identifier] at cut
    rw [← Option.some.inj cut] at declares
    exact none _ _ _ declares

end Ty

end Caju
