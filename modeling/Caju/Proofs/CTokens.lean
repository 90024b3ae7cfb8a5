import Caju.C.Expr
import Caju.Json.Lexeme
import Mathlib.Data.List.Infix

/-! The tokens of C. A text is cut at the longest piece that is a token, over and over;
so two pieces written next to each other are two tokens only if nothing longer than the
first one is a token. -/

namespace Caju.C

inductive Token where
  /-- An identifier or a keyword. -/
  | word (text : String)
  /-- A number, as far as tokens go: it need not be one that C gives a value. -/
  | number (text : String)
  | character (value : Char)
  | punctuator (text : String)
  deriving DecidableEq, Inhabited

/-- Whether a character may start a word. -/
def isNondigit (c : Char) : Bool := c.isAlpha || c == '_'

/-- Whether a character may go on with a word. -/
def isWordRest (c : Char) : Bool := isNondigit c || c.isDigit

def isWord : List Char → Bool
  | [] => false
  | c :: rest => isNondigit c && rest.all isWordRest

theorem isWordRest_of_isWord {text : List Char} (word : isWord text = true) :
    ∀ c ∈ text, isWordRest c = true := by
  cases text with
  | nil => simp
  | cons first more =>
    obtain ⟨nondigit, others⟩ := Bool.and_eq_true_iff.mp word
    refine List.forall_mem_cons.mpr ⟨?_, List.all_eq_true.mp others⟩
    rw [isWordRest, nondigit, Bool.true_or]

/-- How a number goes on: with letters, digits and points, and with a sign right after the
letter of an exponent. -/
def isNumberRest : List Char → Bool
  | [] => true
  | c :: rest =>
    match rest with
    | sign :: more =>
      if (c == 'e' || c == 'E' || c == 'p' || c == 'P') && (sign == '+' || sign == '-') then
        isNumberRest more
      else (isWordRest c || c == '.') && isNumberRest (sign :: more)
    | [] => isWordRest c || c == '.'

def isNumber : List Char → Bool
  | '.' :: c :: rest => c.isDigit && isNumberRest rest
  | c :: rest => c.isDigit && isNumberRest rest
  | [] => false

/-- The character that a backslash and one more character stand for. -/
def simpleEscape? : Char → Option Char
  | '\'' => some '\''
  | '"' => some '"'
  | '?' => some '?'
  | '\\' => some '\\'
  | 'a' => some '\x07'
  | 'b' => some '\x08'
  | 'f' => some '\x0c'
  | 'n' => some '\n'
  | 'r' => some '\r'
  | 't' => some '\t'
  | 'v' => some '\x0b'
  | _ => none

/-- The value of digits to the given base, the first being the highest. -/
def digitsValue? (base : Nat) : List Char → Nat → Option Nat
  | [], value => some value
  | c :: rest, value =>
    match Json.hexDigit? c with
    | none => none
    | some digit => if digit < base then digitsValue? base rest (base * value + digit) else none

/-- The character whose number digits give, if a `char` has room for it. -/
def numberedCharacter? (base : Nat) (digits : List Char) : Option Char :=
  match digitsValue? base digits 0 with
  | none => none
  | some value => if value ≤ maxCharacter.toNat then some (Char.ofNat value) else none

/-- The character that an escape stands for, given without its backslash: any number of
hexadecimal digits, up to three octal ones, or one character by itself. -/
def escape? : List Char → Option Char
  | 'x' :: digit :: rest => numberedCharacter? 16 (digit :: rest)
  | c :: rest =>
    if c.isDigit then
      if rest.length < 3 then numberedCharacter? 8 (c :: rest) else none
    else if rest.isEmpty then simpleEscape? c
    else none
  | [] => none

/-- The value of a character constant. -/
def characterConstant? : List Char → Option Char
  | '\'' :: '\\' :: rest => if rest.getLast? = some '\'' then escape? rest.dropLast else none
  | ['\'', c, '\''] => if c = '\'' || c = '\n' then none else some c
  | _ => none

/-- The punctuators of C. -/
def punctuators : List String :=
  ["[", "]", "(", ")", "\x7b", "\x7d", ".", "->", "++", "--", "&", "*", "+", "-", "~", "!",
   "/", "%", "<<", ">>", "<", ">", "<=", ">=", "==", "!=", "^", "|", "&&", "||", "?", ":", ";",
   "...", "=", "*=", "/=", "%=", "+=", "-=", "<<=", ">>=", "&=", "^=", "|=", ",", "#", "##",
   "<:", ":>", "<%", "%>", "%:", "%:%:"]

/-- The token that a piece of text is, all of it. -/
def lexeme? (text : List Char) : Option Token :=
  if isWord text then some (.word (String.ofList text))
  else if isNumber text then some (.number (String.ofList text))
  else
    match characterConstant? text with
    | some value => some (.character value)
    | none =>
      if punctuators.contains (String.ofList text) then some (.punctuator (String.ofList text))
      else none

/-- The longest token of at most so many characters that a text begins with, and the text
behind it. -/
def munch (input : List Char) : Nat → Option (Token × List Char)
  | 0 => none
  | size + 1 =>
    match lexeme? (input.take (size + 1)) with
    | some token => some (token, input.drop (size + 1))
    | none => munch input size

def isBlank (c : Char) : Bool :=
  c == ' ' || c == '\t' || c == '\n' || c == '\x0b' || c == '\x0c'

/-- Whether a text begins with a comment. -/
def startsComment : List Char → Bool
  | '/' :: '*' :: _ => true
  | '/' :: '/' :: _ => true
  | _ => false

/-- Whether a token runs into a quote: a word there says how a constant is encoded. -/
def prefixesQuote : Token → List Char → Bool
  | .word _, '\'' :: _ => true
  | .word _, '"' :: _ => true
  | _, _ => false

theorem length_of_munch {input rest : List Char} {token : Token} {size : Nat}
    (found : munch input size = some (token, rest)) (nonempty : input ≠ []) :
    rest.length < input.length := by
  have positive : 0 < input.length := List.length_pos_iff.mpr nonempty
  induction size with
  | zero => simp [munch] at found
  | succ size ih =>
    rw [munch] at found
    cases here : lexeme? (input.take (size + 1)) with
    | none => exact ih (by simpa [here] using found)
    | some other =>
      have same : input.drop (size + 1) = rest := by
        simp only [here, Option.some.injEq, Prod.mk.injEq] at found
        exact found.2
      rw [← same, List.length_drop]
      omega

/-- The tokens of a text. A text with a comment or with an encoded constant is refused. -/
def tokens (input : List Char) : Option (List Token) :=
  match input with
  | [] => some []
  | c :: rest =>
    if isBlank c then tokens rest
    else if startsComment (c :: rest) then none
    else
      match _found : munch (c :: rest) (rest.length + 1) with
      | none => none
      | some (token, after) =>
        if prefixesQuote token after then none else (tokens after).map (token :: ·)
termination_by input.length
decreasing_by
  · simp
  · exact length_of_munch _found (List.cons_ne_nil c rest)

/-- A piece of text that stands as a token of its own in front of the rest: it is one,
nothing longer is, and it neither begins a comment nor runs into a quote. -/
structure Stands (text : List Char) (token : Token) (rest : List Char) : Prop where
  whole : lexeme? text = some token
  longest : ∀ c more, c :: more <+: rest → lexeme? (text ++ c :: more) = none
  visible : ∃ c more, text = c :: more ∧ isBlank c = false
  code : startsComment (text ++ rest) = false
  apart : prefixesQuote token rest = false

private theorem munch_eq {text rest : List Char} {token : Token} (stands : Stands text token rest)
    {extra : Nat} (within : extra ≤ rest.length) :
    munch (text ++ rest) (text.length + extra) = some (token, rest) := by
  -- Every size beyond the text's own is tried in vain.
  induction extra with
  | zero =>
    obtain ⟨c, more, rfl, _⟩ := stands.visible
    have whole := stands.whole
    simp only [List.length_cons, Nat.add_zero, munch]
    rw [← List.length_cons (a := c), List.take_left, List.drop_left, whole]
  | succ extra ih =>
    obtain ⟨c, more, rfl⟩ := List.exists_cons_of_length_pos (Nat.zero_lt_of_lt within)
    have longer := stands.longest c (more.take extra) (List.take_prefix (extra + 1) (c :: more))
    rw [← Nat.add_assoc, munch, Nat.add_assoc, List.take_length_add_append, List.take_succ_cons,
      longer]
    exact ih (by omega)

theorem tokens_blank (rest : List Char) : tokens (' ' :: rest) = tokens rest := by
  rw [tokens]
  rfl

/-- What stands in front of a text is its first token. -/
theorem Stands.tokens_eq {text rest : List Char} {token : Token} {later : List Token}
    (stands : Stands text token rest) (read : tokens rest = some later) :
    tokens (text ++ rest) = some (token :: later) := by
  have eaten := munch_eq stands (Nat.le_refl rest.length)
  obtain ⟨c, more, rfl, visible⟩ := stands.visible
  have code := stands.code
  rw [← List.length_append] at eaten
  rw [List.cons_append] at eaten code ⊢
  rw [tokens]
  simp only [visible, code, Bool.false_eq_true, if_false]
  split
  · rename_i failed
    rw [List.length_cons, failed] at eaten
    cases eaten
  · rename_i other after found
    rw [List.length_cons, found] at eaten
    cases eaten
    simp [stands.apart, read]

private theorem toNat_of_isAlpha {c : Char} (letter : c.isAlpha = true) :
    (65 ≤ c.toNat ∧ c.toNat ≤ 90) ∨ (97 ≤ c.toNat ∧ c.toNat ≤ 122) := by
  rcases Bool.or_eq_true_iff.mp letter with upper | lower
  · exact .inl (of_decide_eq_true upper)
  · obtain ⟨low, high⟩ := Bool.and_eq_true_iff.mp lower
    exact .inr ⟨of_decide_eq_true low, of_decide_eq_true high⟩

private theorem isDigit_of_isNondigit {c : Char} (nondigit : isNondigit c = true) :
    c.isDigit = false := by
  by_contra digit
  obtain ⟨low, high⟩ := Char.isDigit_iff_toNat.mp (Bool.not_eq_false _ ▸ digit)
  have zero : '0'.toNat = 48 := rfl
  have nine : '9'.toNat = 57 := rfl
  simp only [isNondigit, Bool.or_eq_true, beq_iff_eq] at nondigit
  rcases nondigit with letter | rfl
  · rcases toNat_of_isAlpha letter with upper | lower <;> omega
  · exact absurd high (by decide)

private theorem punctuators_heads :
    ∀ text ∈ punctuators, ∀ c ∈ text.toList.head?,
      isNondigit c = false ∧ c.isDigit = false ∧ c ≠ '\'' ∧ isBlank c = false := by
  have checked : ∀ text ∈ punctuators, text.toList.head?.all
      (fun c => !isNondigit c && !c.isDigit && c != '\'' && !isBlank c) = true := by
    decide
  intro text member c first
  have known := checked text member
  rw [Option.mem_def.mp first] at known
  simpa [and_assoc] using known

private theorem not_punctuator {c : Char} {rest : List Char}
    (word : isNondigit c = true ∨ c.isDigit = true ∨ c = '\'') :
    punctuators.contains (String.ofList (c :: rest)) = false := by
  by_contra present
  have member : String.ofList (c :: rest) ∈ punctuators := by simpa using present
  obtain ⟨nondigit, digit, quote, _⟩ := punctuators_heads _ member c (by simp)
  rcases word with isWord | isNumber | isQuote
  · simp [isWord] at nondigit
  · simp [isNumber] at digit
  · exact quote isQuote

private theorem isNumber_eq {c : Char} (point : c ≠ '.') (rest : List Char) :
    isNumber (c :: rest) = (c.isDigit && isNumberRest rest) := by
  unfold isNumber
  split <;> simp_all

private theorem not_characterConstant {c : Char} (quote : c ≠ '\'') (rest : List Char) :
    characterConstant? (c :: rest) = none := by
  unfold characterConstant?
  split <;> simp_all

/-- What begins like a word is a word or nothing. -/
theorem lexeme?_nondigit {c : Char} (nondigit : isNondigit c = true) (rest : List Char) :
    lexeme? (c :: rest) =
      if rest.all isWordRest then some (.word (String.ofList (c :: rest))) else none := by
  have point : c ≠ '.' := by
    rintro rfl
    simp [isNondigit] at nondigit
  have quote : c ≠ '\'' := by
    rintro rfl
    simp [isNondigit] at nondigit
  simp only [lexeme?, isWord, nondigit, Bool.true_and, isNumber_eq point,
    isDigit_of_isNondigit nondigit, Bool.false_and, not_characterConstant quote,
    not_punctuator (.inl nondigit), Bool.false_eq_true, if_false]

/-- What begins like a number is a number or nothing. -/
theorem lexeme?_digit {c : Char} (digit : c.isDigit = true) (rest : List Char) :
    lexeme? (c :: rest) =
      if isNumberRest rest then some (.number (String.ofList (c :: rest))) else none := by
  have nondigit : isNondigit c = false := by
    by_contra word
    simp [isDigit_of_isNondigit (Bool.not_eq_false _ ▸ word)] at digit
  have point : c ≠ '.' := by
    rintro rfl
    simp at digit
  have quote : c ≠ '\'' := by
    rintro rfl
    simp at digit
  simp only [lexeme?, isWord, nondigit, Bool.false_and, isNumber_eq point, digit, Bool.true_and,
    not_characterConstant quote, not_punctuator (.inr (.inl digit)), Bool.false_eq_true, if_false]

/-- What begins with a quote is a character constant or nothing. -/
theorem lexeme?_quote (rest : List Char) :
    lexeme? ('\'' :: rest) = (characterConstant? ('\'' :: rest)).map .character := by
  have nondigit : isNondigit '\'' = false := by decide
  have punctuator := @not_punctuator '\'' rest (.inr (.inr rfl))
  simp only [lexeme?, isWord, isNumber, nondigit, punctuator, Bool.false_and,
    Bool.false_eq_true, if_false]
  cases characterConstant? ('\'' :: rest) <;> rfl

/-- Whether a character begins nothing but punctuators. -/
def isSymbol (c : Char) : Bool := !(isNondigit c || c.isDigit || c == '.' || c == '\'')

/-- What begins with a symbol is a punctuator or nothing. -/
theorem lexeme?_symbol {c : Char} (symbol : isSymbol c = true) (rest : List Char) :
    lexeme? (c :: rest) =
      if punctuators.contains (String.ofList (c :: rest)) then
        some (.punctuator (String.ofList (c :: rest)))
      else none := by
  simp only [isSymbol, Bool.not_eq_true', Bool.or_eq_false_iff, beq_eq_false_iff_ne] at symbol
  obtain ⟨⟨⟨nondigit, digit⟩, point⟩, quote⟩ := symbol
  simp only [lexeme?, isWord, nondigit, Bool.false_and, isNumber_eq point, digit,
    not_characterConstant quote, Bool.false_eq_true, if_false]

private theorem visible_of_isWordRest {c : Char} (word : isWordRest c = true) :
    isBlank c = false ∧ c ≠ '/' := by
  constructor
  · by_contra blank
    simp only [isBlank, Bool.not_eq_false, Bool.or_eq_true, beq_iff_eq] at blank
    rcases blank with (((rfl | rfl) | rfl) | rfl) | rfl <;>
      simp [isWordRest, isNondigit] at word
  · rintro rfl
    simp [isWordRest, isNondigit] at word

theorem not_startsComment {c : Char} (slash : c ≠ '/') (rest : List Char) :
    startsComment (c :: rest) = false := by
  unfold startsComment
  split <;> simp_all

private theorem head?_of_front {c : Char} {more rest : List Char} (front : c :: more <+: rest) :
    c ∈ rest.head? := by
  obtain ⟨tail, rfl⟩ := front
  rfl

/-- A word stands where no letter, digit or quote follows. -/
theorem word_stands {text rest : List Char} (word : isWord text = true)
    (ends : ∀ c ∈ rest.head?, isWordRest c = false ∧ c ≠ '\'' ∧ c ≠ '"') :
    Stands text (.word (String.ofList text)) rest := by
  cases text with
  | nil => simp [isWord] at word
  | cons first more =>
    simp only [isWord, Bool.and_eq_true] at word
    obtain ⟨nondigit, letters⟩ := word
    obtain ⟨visible, slash⟩ := @visible_of_isWordRest first (by simp [isWordRest, nondigit])
    refine ⟨?_, ?_, ⟨first, more, rfl, visible⟩, not_startsComment slash _, ?_⟩
    · rw [lexeme?_nondigit nondigit, if_pos letters]
    · intro c others front
      have stop := (ends c (head?_of_front front)).1
      rw [List.cons_append, lexeme?_nondigit nondigit, if_neg]
      simp [stop]
    · cases rest with
      | nil => rfl
      | cons c others =>
        have quotes := (ends c rfl).2
        unfold prefixesQuote
        split <;> simp_all

private theorem isNumberRest_cons {c : Char} (noLetter : c.isAlpha = false) (rest : List Char) :
    isNumberRest (c :: rest) = ((isWordRest c || c == '.') && isNumberRest rest) := by
  have exponent : (c == 'e' || c == 'E' || c == 'p' || c == 'P') = false := by
    by_contra letter
    simp only [Bool.not_eq_false, Bool.or_eq_true, beq_iff_eq] at letter
    rcases letter with ((rfl | rfl) | rfl) | rfl <;> simp at noLetter
  cases rest with
  | nil => simp [isNumberRest]
  | cons sign more =>
    rw [isNumberRest]
    simp [exponent]

private theorem isNumberRest_digits {digits : List Char} (all : ∀ c ∈ digits, c.isDigit = true)
    (rest : List Char) : isNumberRest (digits ++ rest) = isNumberRest rest := by
  induction digits with
  | nil => rfl
  | cons c digits ih =>
    have digit := all c List.mem_cons_self
    have noLetter : c.isAlpha = false := by
      by_contra letter
      have nondigit : isNondigit c = true := by simp [isNondigit, Bool.not_eq_false _ ▸ letter]
      simp [isDigit_of_isNondigit nondigit] at digit
    rw [List.cons_append, isNumberRest_cons noLetter,
      ih fun other member => all other (List.mem_cons_of_mem c member)]
    simp [isWordRest, digit]

/-- The digits of a number stand where nothing follows that could belong to a number. -/
theorem number_stands {text rest : List Char} (nonempty : text ≠ [])
    (digits : ∀ c ∈ text, c.isDigit = true)
    (ends : ∀ c ∈ rest.head?, isWordRest c = false ∧ c ≠ '.') :
    Stands text (.number (String.ofList text)) rest := by
  cases text with
  | nil => exact absurd rfl nonempty
  | cons first more =>
    have digit := digits first List.mem_cons_self
    have others : ∀ c ∈ more, c.isDigit = true := fun c member =>
      digits c (List.mem_cons_of_mem first member)
    obtain ⟨visible, slash⟩ := @visible_of_isWordRest first (by simp [isWordRest, digit])
    refine ⟨?_, ?_, ⟨first, more, rfl, visible⟩, not_startsComment slash _, rfl⟩
    · have all := isNumberRest_digits others []
      rw [List.append_nil] at all
      rw [lexeme?_digit digit, all]
      rfl
    · intro c after front
      obtain ⟨stop, point⟩ := ends c (head?_of_front front)
      have noLetter : c.isAlpha = false := by
        by_contra letter
        simp [isWordRest, isNondigit, Bool.not_eq_false _ ▸ letter] at stop
      rw [List.cons_append, lexeme?_digit digit, isNumberRest_digits others,
        isNumberRest_cons noLetter]
      simp [stop, point]

/-- A punctuator stands where no other punctuator would go on with what follows. -/
theorem punctuator_stands {text : String} {first : Char} {more rest : List Char}
    (spelled : text.toList = first :: more) (symbol : isSymbol first = true)
    (member : text ∈ punctuators)
    (ends : ∀ c ∈ rest.head?, ∀ other ∈ punctuators, ¬ text.toList ++ [c] <+: other.toList)
    (code : startsComment (text.toList ++ rest) = false) :
    Stands text.toList (.punctuator text) rest := by
  have same : String.ofList (first :: more) = text := by rw [← spelled, String.ofList_toList]
  have visible : isBlank first = false := (punctuators_heads text member first (by simp [spelled])).2.2.2
  refine ⟨?_, ?_, ⟨first, more, spelled, visible⟩, code, rfl⟩
  · rw [spelled, lexeme?_symbol symbol, same]
    simp [member]
  · intro c others front
    rw [spelled, List.cons_append, lexeme?_symbol symbol, if_neg]
    intro present
    have longer : String.ofList (first :: (more ++ c :: others)) ∈ punctuators := by
      simpa using present
    refine ends c (head?_of_front front) _ longer ?_
    rw [String.toList_ofList, spelled]
    exact ⟨others, by simp⟩

private theorem digitsValue?_quote (base : Nat) (digits rest : List Char) (value : Nat) :
    digitsValue? base (digits ++ '\'' :: rest) value = none := by
  induction digits generalizing value with
  | nil => rfl
  | cons c digits ih =>
    rw [List.cons_append, digitsValue?]
    cases Json.hexDigit? c with
    | none => rfl
    | some digit =>
      dsimp only
      split
      · exact ih _
      · rfl

private theorem escape?_cons {c : Char} (noHex : c ≠ 'x') (rest : List Char) :
    escape? (c :: rest) =
      if c.isDigit then
        if rest.length < 3 then numberedCharacter? 8 (c :: rest) else none
      else if rest.isEmpty then simpleEscape? c
      else none := by
  unfold escape?
  split <;> simp_all

/-- An escape ends before a quote. -/
private theorem escape?_quote {text : List Char} {value : Char} (escaped : escape? text = some value)
    (rest : List Char) : escape? (text ++ '\'' :: rest) = none := by
  unfold escape? at escaped
  split at escaped
  · rename_i digit digits
    have failed := digitsValue?_quote 16 (digit :: digits) rest 0
    simp only [List.cons_append] at failed ⊢
    simp [escape?, numberedCharacter?, failed]
  · rename_i c digits _
    have noHex : c ≠ 'x' := by
      rintro rfl
      cases digits <;> simp [simpleEscape?] at escaped
    have failed := digitsValue?_quote 8 (c :: digits) rest 0
    rw [List.cons_append] at failed ⊢
    rw [escape?_cons noHex]
    simp [numberedCharacter?, failed]
  · cases escaped

/-- Nothing longer than a character constant is one. -/
private theorem characterConstant?_longer {text : List Char} {value : Char}
    (constant : characterConstant? text = some value) (c : Char) (more : List Char) :
    characterConstant? (text ++ c :: more) = none := by
  unfold characterConstant? at constant
  split at constant
  · rename_i rest
    split at constant
    · rename_i closed
      -- The quote that closed the constant would be one of the escape's own characters.
      have longer : (rest ++ c :: more).dropLast =
          rest.dropLast ++ '\'' :: (c :: more).dropLast := by
        rw [List.dropLast_append_cons, ← List.dropLast_append_getLast? _ closed]
        simp
      simp only [List.cons_append, characterConstant?, longer, escape?_quote constant, ite_self]
    · cases constant
  · rename_i inner noEscape
    unfold characterConstant?
    split
    · rename_i same
      cases same
      simp at noEscape
    · rename_i same
      cases same
    · rfl
  · cases constant

theorem characterConstant?_quote {text : List Char} {value : Char}
    (constant : characterConstant? text = some value) : ∃ more, text = '\'' :: more := by
  unfold characterConstant? at constant
  split at constant
  · exact ⟨_, rfl⟩
  · exact ⟨_, rfl⟩
  · cases constant

/-- A character constant stands wherever it is. -/
theorem constant_stands {text : List Char} {value : Char}
    (constant : characterConstant? text = some value) (rest : List Char) :
    Stands text (.character value) rest := by
  obtain ⟨more, rfl⟩ := characterConstant?_quote constant
  refine ⟨?_, ?_, ⟨'\'', more, rfl, by decide⟩, not_startsComment (by decide) _, rfl⟩
  · rw [lexeme?_quote, constant]
    rfl
  · intro c others _
    rw [List.cons_append, lexeme?_quote, ← List.cons_append, characterConstant?_longer constant]
    rfl

end Caju.C
