import Caju.Proofs.CTokens

/-! The declarations of C, as far as generated code has any: the name of a type, and behind it
stars, parentheses and lists of parameters around the declared name. These are read from the
name outwards, and lists behind a name before the stars in front of it. A parameter need not
have a name. -/

namespace Caju.C

/-- A C type, as a declaration gives it to a name. -/
inductive TypeTree where
  | named (name : String)
  | pointer (target : TypeTree)
  | function (params : List TypeTree) (result : TypeTree)
  deriving Inhabited

/-- The types that C has names for. -/
def basicTypes : List String := ["int", "char", "bool", "void"]

section Grammar

variable (typedefs : String → Prop)

/-- Whether a word names a type. -/
def NamesType (word : String) : Prop := word ∈ basicTypes ∨ typedefs word

mutual

/-- A declarator, which may leave the name out. It gives a type to the name, out of the type
that is written in front of it. -/
inductive Declarator : List Token → TypeTree → Option String → TypeTree → Prop where
  | pointer {tokens : List Token} {base type : TypeTree} {name : Option String}
      (target : Declarator tokens (.pointer base) name type) :
      Declarator (.punctuator "*" :: tokens) base name type
  | direct {front back : List Token} {base inner type : TypeTree} {name : Option String}
      (core : Core front inner name type) (lists : ParamLists back base inner) :
      Declarator (front ++ back) base name type

/-- What a declarator is built around. -/
inductive Core : List Token → TypeTree → Option String → TypeTree → Prop where
  | name {word : String} {type : TypeTree} (free : word ∉ reserved) :
      Core [.word word] type (some word) type
  | omitted {type : TypeTree} : Core [] type none type
  | parens {tokens : List Token} {inner type : TypeTree} {name : Option String}
      (some : tokens ≠ []) (inside : Declarator tokens inner name type) :
      Core (.punctuator "(" :: tokens ++ [.punctuator ")"]) inner name type

/-- The lists of parameters behind a core: those of a function that returns the base type, or
that returns another function. -/
inductive ParamLists : List Token → TypeTree → TypeTree → Prop where
  | none {base : TypeTree} : ParamLists [] base base
  | cons {tokens back : List Token} {params : List TypeTree} {base inner : TypeTree}
      (first : ParamList tokens params) (others : ParamLists back base inner) :
      ParamLists (.punctuator "(" :: tokens ++ .punctuator ")" :: back) base
        (.function params inner)

/-- What stands in the parentheses of a list of parameters: `void` alone says that there are
none. The grammar lets `void` stand among several parameters too; it is a constraint of C beside
its grammar that a parameter is of no such type. -/
inductive ParamList : List Token → List TypeTree → Prop where
  | void : ParamList [.word "void"] []
  | some {tokens : List Token} {params : List TypeTree} (given : Params tokens params)
      (notVoid : tokens ≠ [.word "void"]) : ParamList tokens params

/-- One or more parameters with commas between them. -/
inductive Params : List Token → List TypeTree → Prop where
  | last {tokens : List Token} {type : TypeTree} (only : Parameter tokens type) :
      Params tokens [type]
  | cons {front back : List Token} {type : TypeTree} {types : List TypeTree}
      (first : Parameter front type) (others : Params back types) :
      Params (front ++ .punctuator "," :: back) (type :: types)

/-- A parameter. A word that may name a type is not taken for the name of a parameter. -/
inductive Parameter : List Token → TypeTree → Prop where
  | mk {word : String} {tokens : List Token} {name : Option String} {type : TypeTree}
      (known : NamesType typedefs word) (declares : Declarator tokens (.named word) name type)
      (apart : ∀ own ∈ name, ¬ typedefs own) : Parameter (.word word :: tokens) type

end

/-- A declaration of one name. -/
inductive Declaration : List Token → String → TypeTree → Prop where
  | mk {word name : String} {tokens : List Token} {type : TypeTree}
      (known : NamesType typedefs word)
      (declares : Declarator typedefs tokens (.named word) (some name) type) :
      Declaration (.word word :: tokens) name type

end Grammar

/-- Tokens that end a declarator: none, or a parenthesis or a comma that belongs to what is
around it. -/
def Ends (rest : List Token) : Prop :=
  ∀ token ∈ rest.head?, token = .punctuator ")" ∨ token = .punctuator ","

/-- Whether tokens begin with a list of parameters. -/
def BeginsList (rest : List Token) : Prop :=
  ∃ word more, rest = .punctuator "(" :: .word word :: more

theorem Ends.not_beginsList {rest : List Token} (ends : Ends rest) : ¬ BeginsList rest := by
  rintro ⟨word, more, rfl⟩
  rcases ends _ rfl with other | other <;> simp at other

variable {typedefs : String → Prop} {tokens rest after : List Token} {base inner type : TypeTree}
  {name : Option String}

theorem Params.begins {types : List TypeTree} (given : Params typedefs tokens types) :
    ∃ word more, tokens = .word word :: more := by
  cases given with
  | last only =>
    cases only
    exact ⟨_, _, rfl⟩
  | cons first _ =>
    cases first
    exact ⟨_, _, rfl⟩

theorem ParamList.begins {types : List TypeTree} (given : ParamList typedefs tokens types) :
    ∃ word more, tokens = .word word :: more := by
  cases given with
  | void => exact ⟨_, _, rfl⟩
  | some given _ => exact given.begins

theorem ParamLists.begins (lists : ParamLists typedefs tokens base inner) :
    tokens = [] ∧ inner = base ∨ BeginsList tokens := by
  cases lists with
  | none => exact .inl ⟨rfl, rfl⟩
  | cons first others =>
    obtain ⟨word, more, rfl⟩ := first.begins
    exact .inr ⟨word, _, rfl⟩

/-- There are no lists of parameters where none begins. -/
theorem ParamLists.eq_nil (lists : ParamLists typedefs tokens base inner)
    (split : tokens ++ after = rest) (stops : ¬ BeginsList rest) : tokens = [] ∧ inner = base := by
  refine lists.begins.resolve_right ?_
  rintro ⟨word, more, rfl⟩
  exact stops ⟨word, more ++ after, split.symm⟩

theorem Core.not_star (core : Core typedefs tokens inner name type) :
    ∀ more, tokens ≠ .punctuator "*" :: more := by
  cases core <;> simp

/-- A star in front of a declarator makes it one of a pointer. -/
theorem Declarator.target (declares : Declarator typedefs tokens base name type)
    {more : List Token} (star : tokens = .punctuator "*" :: more) :
    Declarator typedefs more (.pointer base) name type := by
  cases declares with
  | pointer target =>
    cases star
    exact target
  | @direct front back _ inner _ _ core lists =>
    cases front with
    | nil =>
      rcases lists.begins with ⟨rfl, _⟩ | ⟨word, others, rfl⟩ <;> simp at star
    | cons token others =>
      refine absurd ?_ (core.not_star others)
      rw [(List.cons.inj star).1]

/-- No declarator begins with what ends one. -/
theorem Declarator.eq_nil (declares : Declarator typedefs tokens base name type)
    (split : tokens ++ after = rest) (ends : Ends rest) : tokens = [] ∧ name = none ∧ type = base := by
  have bound : ∀ token ∈ tokens.head?, token = .punctuator ")" ∨ token = .punctuator "," := by
    intro token first
    refine ends token ?_
    rw [← split, List.head?_append, Option.mem_def.mp first]
    rfl
  cases declares with
  | pointer target =>
    rcases bound _ rfl with other | other <;> simp at other
  | @direct front back _ _ _ _ core lists =>
    cases core with
    | name free => rcases bound _ rfl with other | other <;> simp at other
    | parens _ _ => rcases bound _ rfl with other | other <;> simp at other
    | omitted =>
      have stops : ¬ BeginsList rest := ends.not_beginsList
      obtain ⟨rfl, rfl⟩ := lists.eq_nil split stops
      exact ⟨rfl, rfl, rfl⟩

end Caju.C
