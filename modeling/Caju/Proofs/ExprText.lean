import Caju.Proofs.CGrammar
import Caju.Proofs.DecimalText
import Mathlib.Data.List.Forall2

/-! Expressions keep their trees in C. The text of an expression is cut into the tokens
it was written from, no two of which run together, and the grammar of C has one reading
of them: the expression itself, with its names as they are in C and each negative number
as the negation of a literal. -/

namespace Caju

namespace C

/-- Whether a name is an identifier of C. -/
def isIdentifier (name : String) : Bool := isWord name.toList

/-- The tokens that `parenthesized` writes. -/
def parenthesizedTokens (needed : Bool) (inside : List Token) : List Token :=
  if needed then .punctuator "(" :: inside ++ [.punctuator ")"] else inside

/-- The token of a natural number. -/
def digitsToken (n : Nat) : Token := .number (toString n)

def numberTokens (n : Int) : List Token :=
  if n < 0 then parenthesizedTokens true [.punctuator "-", digitsToken n.natAbs]
  else [digitsToken n.natAbs]

/-- The expression that a number reads as: C has no negative literals. -/
def numberTree (n : Int) : Expression :=
  if n < 0 then .neg (.number n.natAbs) else .number n.natAbs

def callTokens (callee : String) (args : List (List Token)) : List Token :=
  .word (ident callee) :: .punctuator "(" :: [.punctuator ","].intercalate args ++
    [.punctuator ")"]

end C

namespace Expr

mutual

/-- The names in an expression. -/
def names : Expr → List String
  | .var name => [name]
  | .binary _ left right => left.names ++ right.names
  | .not operand => operand.names
  | .neg operand => operand.names
  | .call callee args => callee :: namesAll args
  | _ => []

def namesAll : List Expr → List String
  | [] => []
  | expr :: rest => expr.names ++ namesAll rest

end

mutual

/-- The character constants in an expression. -/
def characters : Expr → List Char
  | .character value => [value]
  | .binary _ left right => left.characters ++ right.characters
  | .not operand => operand.characters
  | .neg operand => operand.characters
  | .call _ args => charactersAll args
  | _ => []

def charactersAll : List Expr → List Char
  | [] => []
  | expr :: rest => expr.characters ++ charactersAll rest

end

mutual

/-- The tree that an expression is to have in C. -/
def cTree : Expr → C.Expression
  | .number value => C.numberTree value.toInt
  | .character value => .character value
  | .boolean value => .boolean value
  | .var name => .name (C.ident name)
  | .binary op left right => .binary op left.cTree right.cTree
  | .not operand => .not operand.cTree
  | .neg operand => .neg operand.cTree
  | .call callee args => .call (.name (C.ident callee)) (cTrees args)

def cTrees : List Expr → List C.Expression
  | [] => []
  | expr :: rest => expr.cTree :: cTrees rest

end

mutual

/-- The tokens that an expression is written from. -/
def cTokens : Expr → List C.Token
  | .number value => C.numberTokens value.toInt
  | .character value => [.character value]
  | .boolean value => [.word (if value then "true" else "false")]
  | .var name => [.word (C.ident name)]
  | .binary op left right =>
    C.parenthesizedTokens left.isBinary left.cTokens ++ .punctuator op.cText ::
      C.parenthesizedTokens right.isBinary right.cTokens
  | .not operand => .punctuator "!" :: C.parenthesizedTokens operand.isOperation operand.cTokens
  | .neg operand => .punctuator "-" :: C.parenthesizedTokens operand.isOperation operand.cTokens
  | .call callee args => C.callTokens callee (eachCTokens args)

def eachCTokens : List Expr → List (List C.Token)
  | [] => []
  | expr :: rest => expr.cTokens :: eachCTokens rest

end

end Expr

namespace C

private theorem reserved_ends : ∀ word ∈ reserved, word.toList.getLast? ≠ some '_' := by
  decide

/-- No name is written as a word that C keeps for itself. -/
theorem ident_notMem_reserved (name : String) : ident name ∉ reserved := by
  unfold ident
  split
  · intro member
    exact reserved_ends _ member (by simp)
  · rename_i unmarked
    simp only [needsMark, Bool.or_eq_true, not_or] at unmarked
    simpa using unmarked.1.1

theorem isWord_ident {name : String} (identifier : isIdentifier name = true) :
    isWord (ident name).toList = true := by
  unfold isIdentifier at identifier
  unfold ident
  split
  · cases spelled : name.toList with
    | nil => simp [spelled, isWord] at identifier
    | cons first more =>
      rw [spelled] at identifier
      have underscore : isNondigit '_' = true := rfl
      simp only [isWord, Bool.and_eq_true] at identifier
      simp [spelled, isWord, identifier.1, identifier.2, isWordRest, underscore]
  · exact identifier

theorem atom?_ident (name : String) : atom? (.word (ident name)) = some (.name (ident name)) := by
  have free := ident_notMem_reserved name
  have notTrue : ident name ≠ "true" := by
    intro same
    exact free (same ▸ by decide)
  have notFalse : ident name ≠ "false" := by
    intro same
    exact free (same ▸ by decide)
  simp [atom?, notTrue, notFalse, free]

/-- A number is written in decimal. -/
theorem decimal?_toString (n : Nat) : decimal? (toString n).toList = some n := by
  rcases Nat.eq_zero_or_pos n with rfl | positive
  · rfl
  · have first := head?_toDigits positive
    rw [← toList_toString] at first
    have notZero : (toString n).toList ≠ ['0'] := by
      intro same
      exact first (by rw [same]; rfl)
    have digits : (toString n).toList.all Char.isDigit = true :=
      List.all_eq_true.mpr (isDigit_of_mem_toString n)
    have nonempty : (toString n).toList.isEmpty = false :=
      List.isEmpty_eq_false_iff.mpr (toString_ne_nil n)
    have value : Nat.ofDigitChars 10 (toString n).toList 0 = n := by
      rw [toList_toString, Nat.ofDigitChars_ten_toDigits]
    simp only [decimal?, notZero, digits, nonempty, value, if_false]
    simpa using first

private theorem hexDigit?_digitChar :
    ∀ digit < 16, Json.hexDigit? (Nat.digitChar digit) = some digit := by
  decide

private theorem numberedCharacter?_hexByte {c : Char} (small : c ≤ maxCharacter) :
    numberedCharacter? 16 (hexByte c.toNat) = some c := by
  have bound : c.toNat ≤ maxCharacter.toNat := small
  have limit : maxCharacter.toNat = 255 := rfl
  have high := hexDigit?_digitChar (c.toNat / 16) (by omega)
  have low := hexDigit?_digitChar (c.toNat % 16) (by omega)
  have highDigit : c.toNat / 16 < 16 := by omega
  have lowDigit : c.toNat % 16 < 16 := by omega
  have value : digitsValue? 16 (hexByte c.toNat) 0 = some c.toNat := by
    simp only [hexByte, digitsValue?, high, low, highDigit, lowDigit, if_true]
    congr 1
    omega
  simp [numberedCharacter?, value, bound]

/-- A character constant has the value of the character it was written for. -/
theorem characterConstant?_charLiteral {c : Char} (small : c ≤ maxCharacter) :
    characterConstant? (charLiteral c).toList = some c := by
  unfold charLiteral
  split
  iterate 6 rfl
  rename_i quote backslash newline _ _ _
  split
  · have plain : characterConstant? ['\'', c, '\''] =
        if c = '\'' || c = '\n' then none else some c := by
      unfold characterConstant?
      split <;> simp_all
    rw [String.toList_ofList, plain, if_neg]
    simpa using ⟨quote, newline⟩
  · have value := numberedCharacter?_hexByte small
    rw [String.toList_ofList]
    simpa [characterConstant?, hexByte, escape?] using value

/-- What may come behind an expression, a callee included. -/
def Closes (rest : List Char) : Prop := ∀ c ∈ rest.head?, c ∈ [' ', '(', ')', ',']

/-- A text that is cut into the given tokens wherever an expression may stand. -/
def CutsInto (text : String) (cut : List Token) : Prop :=
  ∀ rest later, Closes rest → tokens rest = some later →
    tokens (text.toList ++ rest) = some (cut ++ later)

/-- Whether a character may begin an operand, parentheses included. -/
def beginsOperand (c : Char) : Bool := isWordRest c || c == '(' || c == '\''

/-- A text that an operator can be put in front of. -/
def Begins (text : String) : Prop := ∃ c more, text.toList = c :: more ∧ beginsOperand c = true

private theorem separates_of_closes {rest : List Char} (closes : Closes rest) :
    ∀ c ∈ rest.head?, isWordRest c = false ∧ c ≠ '\'' ∧ c ≠ '"' ∧ c ≠ '.' := by
  have separate : ∀ c ∈ [' ', '(', ')', ','],
      isWordRest c = false ∧ c ≠ '\'' ∧ c ≠ '"' ∧ c ≠ '.' := by
    intro c member
    simp only [List.mem_cons, List.not_mem_nil, or_false] at member
    rcases member with rfl | rfl | rfl | rfl <;> decide
  exact fun c first => separate c (closes c first)

private theorem punctuators_no_blank : ∀ text ∈ punctuators, ' ' ∉ text.toList := by
  decide

private theorem punctuators_seconds :
    ∀ text ∈ punctuators, text.toList[1]?.any beginsOperand = false := by
  decide

/-- No punctuator goes on with a parenthesis or a comma. -/
private theorem punctuators_brackets :
    ∀ text ∈ punctuators, text.toList.head?.any ['(', ')', ','].contains = true →
      text.toList[1]? = none := by
  decide

/-- A punctuator of one character stands where no other one has it and the next character
in front. -/
private theorem tokens_symbol {text : String} {first : Char} {rest : List Char}
    {later : List Token} (spelled : text.toList = [first])
    (known : first ∈ ['(', ')', ',', '!', '-'])
    (ends : ∀ c ∈ rest.head?, ∀ other ∈ punctuators, other.toList.head? = some first →
      other.toList[1]? ≠ some c)
    (read : tokens rest = some later) :
    tokens (text.toList ++ rest) = some (.punctuator text :: later) := by
  have symbols : ∀ c ∈ ['(', ')', ',', '!', '-'],
      isSymbol c = true ∧ String.ofList [c] ∈ punctuators ∧ c ≠ '/' := by
    intro c member
    simp only [List.mem_cons, List.not_mem_nil, or_false] at member
    rcases member with rfl | rfl | rfl | rfl | rfl <;> decide
  obtain ⟨symbol, member, slash⟩ := symbols first known
  rw [← spelled, String.ofList_toList] at member
  refine Stands.tokens_eq (punctuator_stands spelled symbol member ?_ ?_) read
  · rintro c next other present ⟨tail, longer⟩
    rw [spelled] at longer
    exact ends c next other present (by rw [← longer]; rfl) (by rw [← longer]; rfl)
  · rw [spelled]
    exact not_startsComment slash rest

/-- Parentheses and commas stand in front of anything. -/
theorem tokens_bracket {text : String} {first : Char} (spelled : text.toList = [first])
    (bracket : first ∈ ['(', ')', ',']) {rest : List Char} {later : List Token}
    (read : tokens rest = some later) :
    tokens (text.toList ++ rest) = some (.punctuator text :: later) := by
  refine tokens_symbol spelled (List.mem_append_left ['!', '-'] bracket) ?_ read
  intro c _ other present begins second
  have alone := punctuators_brackets other present (by simpa [begins] using bracket)
  simp [alone] at second

/-- An operator in front of an operand does not run into it. -/
theorem tokens_sign {text : String} {sign : Char} (spelled : text.toList = [sign])
    (known : sign ∈ ['!', '-']) {c : Char} {more : List Char} (begins : beginsOperand c = true)
    {later : List Token} (read : tokens (c :: more) = some later) :
    tokens (text.toList ++ c :: more) = some (.punctuator text :: later) := by
  refine tokens_symbol spelled (List.mem_append_right ['(', ')', ','] known) ?_ read
  intro d next other present _ second
  obtain rfl : c = d := Option.some.inj next
  have apart := punctuators_seconds other present
  simp [second, begins] at apart

/-- A binary operator with blanks around it is one token. -/
theorem tokens_operator (op : BinOp) {rest : List Char} {later : List Token}
    (read : tokens rest = some later) :
    tokens (' ' :: op.cText.toList ++ ' ' :: rest) = some (.punctuator op.cText :: later) := by
  rw [List.cons_append, tokens_blank]
  refine Stands.tokens_eq ?_ ((tokens_blank rest).trans read)
  have ends : ∀ c ∈ (' ' :: rest).head?, ∀ other ∈ punctuators,
      ¬ op.cText.toList ++ [c] <+: other.toList := by
    intro c first other member front
    obtain rfl : ' ' = c := Option.some.inj first
    exact punctuators_no_blank other member (front.subset (by simp))
  cases op
  all_goals exact punctuator_stands rfl (by decide) (by decide) ends rfl

theorem CutsInto.parenthesized {text : String} {cut : List Token} (cuts : CutsInto text cut)
    (needed : Bool) : CutsInto (parenthesized needed text) (parenthesizedTokens needed cut) := by
  cases needed with
  | false => exact cuts
  | true =>
    intro rest later closes read
    have closing := @tokens_bracket ")" ')' rfl (by decide) _ _ read
    have inside := cuts _ _ (by simp [Closes]) closing
    have opening := @tokens_bracket "(" '(' rfl (by decide) _ _ inside
    simpa [C.parenthesized, parenthesizedTokens] using opening

theorem cutsInto_word {text : String} (word : isWord text.toList = true) :
    CutsInto text [.word text] := by
  intro rest later closes read
  have stands := word_stands word fun c first =>
    ⟨(separates_of_closes closes c first).1, (separates_of_closes closes c first).2.1,
      (separates_of_closes closes c first).2.2.1⟩
  rw [String.ofList_toList] at stands
  exact stands.tokens_eq read

theorem cutsInto_digits (n : Nat) : CutsInto (toString n) [digitsToken n] := by
  intro rest later closes read
  have stands := number_stands (toString_ne_nil n) (isDigit_of_mem_toString n) fun c first =>
    ⟨(separates_of_closes closes c first).1, (separates_of_closes closes c first).2.2.2⟩
  rw [String.ofList_toList] at stands
  exact stands.tokens_eq read

theorem cutsInto_charLiteral {c : Char} (small : c ≤ maxCharacter) :
    CutsInto (charLiteral c) [.character c] := fun rest _ _ read =>
  (constant_stands (characterConstant?_charLiteral small) rest).tokens_eq read

theorem CutsInto.sign {symbol text : String} {sign : Char} {cut : List Token}
    (cuts : CutsInto text cut) (spelled : symbol.toList = [sign]) (known : sign ∈ ['!', '-'])
    (begins : Begins text) : CutsInto (symbol ++ text) (.punctuator symbol :: cut) := by
  intro rest later closes read
  have behind := cuts rest later closes read
  obtain ⟨c, more, same, begins⟩ := begins
  rw [same, List.cons_append] at behind
  rw [String.toList_append, List.append_assoc, same, List.cons_append]
  exact tokens_sign spelled known begins behind

theorem CutsInto.operator {left right : String} {front back : List Token}
    (first : CutsInto left front) (second : CutsInto right back) (op : BinOp) :
    CutsInto (left ++ " " ++ op.cText ++ " " ++ right) (front ++ .punctuator op.cText :: back) := by
  intro rest later closes read
  have behind := tokens_operator op (second rest later closes read)
  have whole := first _ _ (by simp [Closes]) behind
  simpa using whole

/-- Arguments are cut one by one. -/
theorem cutsInto_arguments {texts : List String} {cuts : List (List Token)}
    (each : List.Forall₂ CutsInto texts cuts) {rest : List Char} {later : List Token}
    (closes : Closes rest) (read : tokens rest = some later) :
    tokens ((", ".intercalate texts).toList ++ rest) =
      some ([.punctuator ","].intercalate cuts ++ later) := by
  induction each with
  | nil => simpa using read
  | @cons text cut texts cuts first others ih =>
    cases others with
    | nil => simpa using first rest later closes read
    | cons second more =>
      have comma := @tokens_bracket "," ',' rfl (by decide) _ _ ((tokens_blank _).trans ih)
      have whole := first _ _ (by simp [Closes]) comma
      simpa using whole

theorem cutsInto_call {callee : String} {texts : List String} {cuts : List (List Token)}
    (identifier : isIdentifier callee = true) (each : List.Forall₂ CutsInto texts cuts) :
    CutsInto (call callee texts) (callTokens callee cuts) := by
  intro rest later closes read
  have closing := @tokens_bracket ")" ')' rfl (by decide) _ _ read
  have inside := cutsInto_arguments each (by simp [Closes]) closing
  have opening := @tokens_bracket "(" '(' rfl (by decide) _ _ inside
  have whole := cutsInto_word (isWord_ident identifier) _ _ (by simp [Closes]) opening
  simpa [call, callTokens] using whole

theorem begins_word {text : String} (word : isWord text.toList = true) : Begins text := by
  cases spelled : text.toList with
  | nil => simp [spelled, isWord] at word
  | cons first more =>
    rw [spelled] at word
    simp only [isWord, Bool.and_eq_true] at word
    exact ⟨first, more, spelled, by simp [beginsOperand, isWordRest, word.1]⟩

theorem begins_digits (n : Nat) : Begins (toString n) := by
  obtain ⟨first, more, spelled⟩ := List.exists_cons_of_ne_nil (toString_ne_nil n)
  have digit := isDigit_of_mem_toString n first (spelled ▸ List.mem_cons_self)
  exact ⟨first, more, spelled, by simp [beginsOperand, isWordRest, digit]⟩

theorem begins_charLiteral {c : Char} (small : c ≤ maxCharacter) : Begins (charLiteral c) := by
  obtain ⟨more, spelled⟩ := characterConstant?_quote (characterConstant?_charLiteral small)
  exact ⟨'\'', more, spelled, by decide⟩

theorem begins_parenthesized (text : String) : Begins (parenthesized true text) :=
  ⟨'(', text.toList ++ [')'], by simp [parenthesized], by decide⟩

theorem Begins.append {text : String} (begins : Begins text) (more : String) :
    Begins (text ++ more) := by
  obtain ⟨c, rest, spelled, first⟩ := begins
  exact ⟨c, rest ++ more.toList, by simp [spelled], first⟩

theorem begins_call {callee : String} (identifier : isIdentifier callee = true)
    (args : List String) : Begins (call callee args) :=
  (((begins_word (isWord_ident identifier)).append "(").append _).append ")"

/-- A negative number is written as what its magnitude is with a sign and in parentheses. -/
theorem numberLiteral_eq (n : Int) :
    numberLiteral n =
      if n < 0 then parenthesized true ("-" ++ toString n.natAbs) else toString n.natAbs := by
  unfold numberLiteral
  split
  · rename_i negative
    have magnitude : (-n).toNat = n.natAbs := by omega
    rw [Int.toString_eq_repr, Int.repr_eq_if, if_neg (by omega), magnitude]
    rfl
  · rename_i positive
    have magnitude : n.toNat = n.natAbs := by omega
    rw [Int.toString_eq_repr, Int.repr_eq_if, if_pos (by omega), magnitude]
    rfl

theorem cutsInto_number (n : Int) : CutsInto (numberLiteral n) (numberTokens n) := by
  have digits := cutsInto_digits n.natAbs
  rw [numberLiteral_eq]
  unfold numberTokens
  split
  · exact (digits.sign rfl (by decide) (begins_digits n.natAbs)).parenthesized true
  · exact digits

theorem begins_number (n : Int) : Begins (numberLiteral n) := by
  rw [numberLiteral_eq]
  split
  · exact begins_parenthesized _
  · exact begins_digits n.natAbs

end C

namespace Expr

open C

/-- An operand begins with nothing that an operator in front of it could run into. -/
theorem begins_operand (e : Expr) (named : ∀ name ∈ e.names, isIdentifier name = true)
    (small : ∀ c ∈ e.characters, c ≤ maxCharacter) :
    Begins (parenthesized e.isOperation e.cText) := by
  cases e with
  | number value => exact begins_number value.toInt
  | character value => exact begins_charLiteral (small value (by simp [characters]))
  | boolean value => cases value <;> exact begins_word (by decide)
  | var name => exact begins_word (isWord_ident (named name (by simp [names])))
  | binary op left right => exact begins_parenthesized _
  | not operand => exact begins_parenthesized _
  | neg operand => exact begins_parenthesized _
  | call callee args => exact begins_call (named callee (by simp [names])) _

mutual

/-- The text of an expression is cut into the tokens it was written from. -/
theorem cutsInto : ∀ e : Expr, (∀ name ∈ e.names, isIdentifier name = true) →
    (∀ c ∈ e.characters, c ≤ maxCharacter) → CutsInto e.cText e.cTokens
  | .number value, _, _ => cutsInto_number value.toInt
  | .character value, _, small => cutsInto_charLiteral (small value (by simp [characters]))
  | .boolean value, _, _ => by cases value <;> exact cutsInto_word (by decide)
  | .var name, named, _ => cutsInto_word (isWord_ident (named name (by simp [names])))
  | .binary op left right, named, small => by
    obtain ⟨namedLeft, namedRight⟩ := List.forall_mem_append.mp named
    obtain ⟨smallLeft, smallRight⟩ := List.forall_mem_append.mp small
    -- Blanks stand around the operator, so only an operator in front needs a look at its operand.
    have first := (cutsInto left namedLeft smallLeft).parenthesized left.isBinary
    have second := (cutsInto right namedRight smallRight).parenthesized right.isBinary
    exact first.operator second op
  | .not operand, named, small =>
    ((cutsInto operand named small).parenthesized operand.isOperation).sign rfl (by decide)
      (begins_operand operand named small)
  | .neg operand, named, small =>
    ((cutsInto operand named small).parenthesized operand.isOperation).sign rfl (by decide)
      (begins_operand operand named small)
  | .call callee args, named, small => by
    obtain ⟨identifier, others⟩ := List.forall_mem_cons.mp named
    exact cutsInto_call identifier (eachCutsInto args others small)

theorem eachCutsInto : ∀ args : List Expr, (∀ name ∈ namesAll args, isIdentifier name = true) →
    (∀ c ∈ charactersAll args, c ≤ maxCharacter) →
    List.Forall₂ CutsInto (cTexts args) (eachCTokens args)
  | [], _, _ => .nil
  | expr :: rest, named, small => by
    obtain ⟨namedFirst, namedRest⟩ := List.forall_mem_append.mp named
    obtain ⟨smallFirst, smallRest⟩ := List.forall_mem_append.mp small
    exact .cons (cutsInto expr namedFirst smallFirst) (eachCutsInto rest namedRest smallRest)

end

end Expr

namespace C

theorem binaryOperator?_cText (op : BinOp) : binaryOperator? op.cText = some op := by
  cases op <;> rfl

private theorem Parses.operand {tokens : List Token} {tree : Expression}
    (parsed : Parses primaryLevel tokens tree) : Parses unaryLevel tokens tree :=
  parsed.looser (by decide)

theorem parses_number (n : Int) : Parses unaryLevel (numberTokens n) (numberTree n) := by
  have digits : Parses primaryLevel [digitsToken n.natAbs] (.number n.natAbs) :=
    .atom (by simp only [digitsToken, atom?, decimal?_toString, Option.map_some])
  unfold numberTokens numberTree
  split
  · have negated := (Parses.neg digits.operand).looser (Nat.zero_le _)
    exact (Parses.parens negated).operand
  · exact digits.operand

private theorem parsesList_of_each {cut : List Token} {tree : Expression}
    {cuts : List (List Token)} {trees : List Expression} (first : Parses 0 cut tree)
    (others : List.Forall₂ (Parses 0) cuts trees) :
    ParsesList ([.punctuator ","].intercalate (cut :: cuts)) (tree :: trees) := by
  induction others generalizing cut tree with
  | nil => simpa using ParsesList.last first
  | cons second _ ih => simpa using ParsesList.cons first (ih second)

theorem parsesArguments_of_each {cuts : List (List Token)} {trees : List Expression}
    (each : List.Forall₂ (Parses 0) cuts trees) :
    ParsesArguments ([.punctuator ","].intercalate cuts) trees := by
  cases each with
  | nil => exact .none
  | cons first others => exact .some (parsesList_of_each first others)

end C

namespace Expr

open C

/-- The level of C's grammar that an expression is written at. -/
def cLevel : Expr → Nat
  | .binary op _ _ => precedence op
  | _ => unaryLevel

/-- An operand binds tighter than any binary operator once it has the parentheses that a
binary expression needs. -/
theorem parses_operand {e : Expr} (parsed : Parses e.cLevel e.cTokens e.cTree) {needed : Bool}
    (enough : e.isBinary = true → needed = true) :
    Parses unaryLevel (parenthesizedTokens needed e.cTokens) e.cTree := by
  cases needed with
  | true => exact (Parses.parens (parsed.looser (Nat.zero_le _))).operand
  | false =>
    -- Without parentheses it is not binary, and all else is written at the unary level.
    have level : e.cLevel = unaryLevel := by
      cases e with
      | binary op left right => exact absurd (enough rfl) (by decide)
      | _ => rfl
    exact level ▸ parsed

theorem isOperation_of_isBinary {e : Expr} (binary : e.isBinary = true) : e.isOperation = true := by
  cases e with
  | binary op left right => rfl
  | _ => cases binary

mutual

/-- The tokens of an expression read as its tree. -/
theorem parses : ∀ e : Expr, Parses e.cLevel e.cTokens e.cTree
  | .number value => parses_number value.toInt
  | .character _ => (Parses.atom rfl).operand
  | .boolean value => (Parses.atom (by cases value <;> rfl)).operand
  | .var name => (Parses.atom (atom?_ident name)).operand
  | .binary op left right => by
    have tight := precedence_lt_unaryLevel op
    have first := parses_operand (parses left) id
    have second := parses_operand (parses right) id
    exact .binary (binaryOperator?_cText op) (first.looser (Nat.le_of_lt tight))
      (second.looser tight)
  | .not operand => .not (parses_operand (parses operand) isOperation_of_isBinary)
  | .neg operand => .neg (parses_operand (parses operand) isOperation_of_isBinary)
  | .call callee args => by
    have called := Parses.tighter (Parses.atom (atom?_ident callee))
    exact .tighter (.call called (parsesArguments_of_each (eachParses args)))

theorem eachParses : ∀ args : List Expr,
    List.Forall₂ (Parses 0) (eachCTokens args) (cTrees args)
  | [] => .nil
  | expr :: rest => .cons ((parses expr).looser (Nat.zero_le _)) (eachParses rest)

end

/-- C reads an expression as it was meant: its text is cut into tokens to the end, and the
tokens have one reading, which is the expression's own tree. -/
theorem cText_reads_as_cTree (e : Expr) (named : ∀ name ∈ e.names, isIdentifier name = true)
    (small : ∀ c ∈ e.characters, c ≤ maxCharacter) :
    ∃ read, C.tokens e.cText.toList = some read ∧
      ∀ tree, Parses 0 read tree ↔ tree = e.cTree := by
  have whole := cutsInto e named small [] [] (by simp [Closes]) (by rw [tokens])
  have parsed := (parses e).looser (Nat.zero_le _)
  refine ⟨e.cTokens, by simpa using whole, fun tree => ⟨fun other => other.unique parsed, ?_⟩⟩
  rintro rfl
  exact parsed

/-- Signs before signs and before negative numbers stay apart, the operand of `!` keeps its
group, a quote stays a constant, and a name that C keeps for itself is changed. -/
theorem cText_reads_as_cTree_signs :
    let e : Expr := .binary .sub (.neg (.neg (.number (-2))))
      (.call "int" [.character '\'', .not (.binary .or (.var "a") (.boolean true)), .call "f" []])
    (∀ name ∈ e.names, isIdentifier name = true) ∧ (∀ c ∈ e.characters, c ≤ maxCharacter) ∧
    e.cText = "-(-(-2)) - int_('\\'', !(a || true), f())" ∧
    ∃ read, C.tokens "-(-(-2)) - int_('\\'', !(a || true), f())".toList = some read ∧
      ∀ tree, Parses 0 read tree ↔
        tree = .binary .sub (.neg (.neg (.neg (.number 2))))
          (.call (.name "int_") [.character '\'', .not (.binary .or (.name "a") (.boolean true)),
            .call (.name "f") []]) := by
  refine ⟨by decide, List.forall_mem_singleton.mpr (by decide), by decide +kernel, ?_⟩
  exact cText_reads_as_cTree (.binary .sub (.neg (.neg (.number (-2))))
    (.call "int" [.character '\'', .not (.binary .or (.var "a") (.boolean true)), .call "f" []]))
    (by decide) (List.forall_mem_singleton.mpr (by decide))

end Expr

end Caju
