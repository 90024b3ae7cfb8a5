import Caju.Proofs.CTokens

/-! The expressions of C, as far as generated code has any: constants, names, calls,
parentheses, the operators `!` and `-` in front of an operand, and the binary operators at
their levels, all of which group to the left. The grammar is unambiguous: tokens that
have a reading have one only. This is shown by a reader that looks at each token once and
finds every reading that the grammar allows. -/

namespace Caju.C

inductive Expression where
  | number (value : Nat)
  | character (value : Char)
  | boolean (value : Bool)
  | name (text : String)
  | binary (op : BinOp) (left right : Expression)
  | not (operand : Expression)
  | neg (operand : Expression)
  | call (callee : Expression) (args : List Expression)
  deriving Inhabited

/-- The binary operator that C spells so. -/
def binaryOperator? : String → Option BinOp
  | "||" => some .or
  | "&&" => some .and
  | "==" => some .eq
  | "!=" => some .ne
  | "<" => some .lt
  | "<=" => some .le
  | ">" => some .gt
  | ">=" => some .ge
  | "+" => some .add
  | "-" => some .sub
  | "*" => some .mul
  | "/" => some .div
  | "%" => some .mod
  | _ => none

/-- How tightly C binds the operands of a binary operator. -/
def precedence : BinOp → Nat
  | .or => 0
  | .and => 1
  | .eq | .ne => 2
  | .lt | .le | .gt | .ge => 3
  | .add | .sub => 4
  | .mul | .div | .mod => 5

/-- The level of operands with an operator in front. -/
def unaryLevel : Nat := 6

/-- The level of calls. -/
def postfixLevel : Nat := 7

/-- The level of constants, names and parentheses. -/
def primaryLevel : Nat := 8

theorem precedence_lt_unaryLevel (op : BinOp) : precedence op < unaryLevel := by
  cases op <;> decide

/-- The value of a decimal constant; what begins with a zero is not decimal in C. -/
def decimal? (digits : List Char) : Option Nat :=
  if digits = ['0'] then some 0
  else if !digits.isEmpty && digits.all Char.isDigit && digits.head? != some '0' then
    some (Nat.ofDigitChars 10 digits 0)
  else none

/-- The expression that a single token is. -/
def atom? : Token → Option Expression
  | .number text => (decimal? text.toList).map .number
  | .character value => some (.character value)
  | .word text =>
    if text = "true" then some (.boolean true)
    else if text = "false" then some (.boolean false)
    else if reserved.contains text then none
    else some (.name text)
  | .punctuator _ => none

mutual

/-- The productions of C, by level. -/
inductive Parses : Nat → List Token → Expression → Prop where
  | atom {token : Token} {tree : Expression} (known : atom? token = some tree) :
      Parses primaryLevel [token] tree
  | parens {tokens : List Token} {tree : Expression} (inside : Parses 0 tokens tree) :
      Parses primaryLevel (.punctuator "(" :: tokens ++ [.punctuator ")"]) tree
  | call {front arguments : List Token} {callee : Expression} {args : List Expression}
      (called : Parses postfixLevel front callee) (given : ParsesArguments arguments args) :
      Parses postfixLevel (front ++ .punctuator "(" :: arguments ++ [.punctuator ")"])
        (.call callee args)
  | not {tokens : List Token} {tree : Expression} (operand : Parses unaryLevel tokens tree) :
      Parses unaryLevel (.punctuator "!" :: tokens) (.not tree)
  | neg {tokens : List Token} {tree : Expression} (operand : Parses unaryLevel tokens tree) :
      Parses unaryLevel (.punctuator "-" :: tokens) (.neg tree)
  | binary {text : String} {op : BinOp} {front back : List Token} {left right : Expression}
      (spelled : binaryOperator? text = some op) (first : Parses (precedence op) front left)
      (second : Parses (precedence op + 1) back right) :
      Parses (precedence op) (front ++ .punctuator text :: back) (.binary op left right)
  | tighter {level : Nat} {tokens : List Token} {tree : Expression}
      (inner : Parses (level + 1) tokens tree) : Parses level tokens tree

/-- The arguments of a call, if there are any. -/
inductive ParsesArguments : List Token → List Expression → Prop where
  | none : ParsesArguments [] []
  | some {tokens : List Token} {trees : List Expression} (listed : ParsesList tokens trees) :
      ParsesArguments tokens trees

/-- One or more expressions with commas between them. -/
inductive ParsesList : List Token → List Expression → Prop where
  | last {tokens : List Token} {tree : Expression} (only : Parses 0 tokens tree) :
      ParsesList tokens [tree]
  | cons {front back : List Token} {tree : Expression} {trees : List Expression}
      (first : Parses 0 front tree) (others : ParsesList back trees) :
      ParsesList (front ++ .punctuator "," :: back) (tree :: trees)

end

theorem Parses.looser {low high : Nat} {tokens : List Token} {tree : Expression}
    (parsed : Parses high tokens tree) (lower : low ≤ high) : Parses low tokens tree := by
  induction high with
  | zero =>
    obtain rfl : low = 0 := Nat.le_zero.mp lower
    exact parsed
  | succ high ih =>
    rcases Nat.le_succ_iff.mp lower with below | rfl
    · exact ih (.tighter parsed) below
    · exact parsed

/-- What has been begun and waits for an operand. -/
inductive Pending where
  | right (op : BinOp) (left : Expression)
  | not
  | neg
  | parens
  | argument (callee : Expression) (before : List Expression)

/-- The lowest level of an operand that is waited for. -/
def Pending.level : Pending → Nat
  | .right op _ => precedence op + 1
  | .not | .neg => unaryLevel
  | .parens | .argument .. => 0

/-- Where a reader is: before an operand or behind one. -/
inductive Reading where
  | before (pending : List Pending)
  | behind (tree : Expression) (pending : List Pending)

/-- Completes all that waits and binds its operand at least as tightly as the level. -/
def settle (level : Nat) (tree : Expression) : List Pending → Expression × List Pending
  | .right op left :: rest =>
    if level ≤ precedence op then settle level (.binary op left tree) rest
    else (tree, .right op left :: rest)
  | .not :: rest => settle level (.not tree) rest
  | .neg :: rest => settle level (.neg tree) rest
  | pending => (tree, pending)

/-- Reads a token where an operand is wanted. -/
def stepBefore (pending : List Pending) (token : Token) : Option Reading :=
  if token = .punctuator "(" then some (.before (.parens :: pending))
  else if token = .punctuator "!" then some (.before (.not :: pending))
  else if token = .punctuator "-" then some (.before (.neg :: pending))
  else if token = .punctuator ")" then
    match pending with
    | .argument callee [] :: rest => some (.behind (.call callee []) rest)
    | _ => none
  else (atom? token).map (.behind · pending)

/-- Reads a punctuator that follows an operand. -/
def stepBehind (tree : Expression) (pending : List Pending) (text : String) : Option Reading :=
  if text = "(" then some (.before (.argument tree [] :: pending))
  else if text = ")" then
    match settle 0 tree pending with
    | (tree, .parens :: rest) => some (.behind tree rest)
    | (tree, .argument callee before :: rest) => some (.behind (.call callee (before ++ [tree])) rest)
    | _ => none
  else if text = "," then
    match settle 0 tree pending with
    | (tree, .argument callee before :: rest) =>
      some (.before (.argument callee (before ++ [tree]) :: rest))
    | _ => none
  else
    match binaryOperator? text with
    | some op =>
      let (left, rest) := settle (precedence op) tree pending
      some (.before (.right op left :: rest))
    | none => none

def step : Reading → Token → Option Reading
  | .before pending, token => stepBefore pending token
  | .behind tree pending, .punctuator text => stepBehind tree pending text
  | .behind .., _ => none

def run (reading : Reading) : List Token → Option Reading
  | [] => some reading
  | token :: rest =>
    match step reading token with
    | some next => run next rest
    | none => none

/-- Reads an expression. -/
def parse (tokens : List Token) : Option Expression :=
  match run (.before []) tokens with
  | some (.behind tree pending) =>
    match settle 0 tree pending with
    | (tree, []) => some tree
    | _ => none
  | _ => none

private theorem run_cons {reading next : Reading} {token : Token}
    (stepped : step reading token = some next) (rest : List Token) :
    run reading (token :: rest) = run next rest := by
  simp [run, stepped]

private theorem run_append {reading next : Reading} {tokens : List Token}
    (ran : run reading tokens = some next) (rest : List Token) :
    run reading (tokens ++ rest) = run next rest := by
  induction tokens generalizing reading with
  | nil =>
    cases ran
    rfl
  | cons token tokens ih =>
    cases stepped : step reading token with
    | none => simp [run, stepped] at ran
    | some middle =>
      rw [run_cons stepped] at ran
      rw [List.cons_append, run_cons stepped, ih ran]

/-- Whether an operand of a level may come where so much is pending. -/
def Fits (level : Nat) (pending : List Pending) : Prop := ∀ latest ∈ pending.head?, latest.level ≤ level

/-- Below the unary level, an operand that fits completes nothing at its own level. -/
private theorem settle_of_fits {level : Nat} {pending : List Pending} (fits : Fits level pending)
    (binary : level < unaryLevel) (tree : Expression) :
    settle level tree pending = (tree, pending) := by
  cases pending with
  | nil => rfl
  | cons latest rest =>
    have lowest := fits latest rfl
    cases latest with
    | right op left =>
      have below : ¬ level ≤ precedence op := by
        simp only [Pending.level] at lowest
        omega
      simp [settle, below]
    | not =>
      simp only [Pending.level] at lowest
      omega
    | neg =>
      simp only [Pending.level] at lowest
      omega
    | parens => rfl
    | argument callee before => rfl

/-- Tokens that the reader takes for an operand of a level, whatever is pending: once all
that is begun in them is completed, only the tree is left. -/
def Reads (level : Nat) (tokens : List Token) (tree : Expression) : Prop :=
  ∀ pending, Fits level pending → ∃ latest inner,
    run (.before pending) tokens = some (.behind latest (inner ++ pending)) ∧
    (∀ low ≤ level, settle low latest (inner ++ pending) = settle low tree pending) ∧
    (postfixLevel ≤ level → latest = tree ∧ inner = [])

/-- Tokens that the reader takes for arguments, once some of a call have been read. -/
def ReadsArguments (tokens : List Token) (args before : List Expression) : Prop :=
  ∀ callee pending,
    run (.before (.argument callee before :: pending)) (tokens ++ [.punctuator ")"]) =
      some (.behind (.call callee (before ++ args)) pending)

private theorem reads_atom {token : Token} {tree : Expression} (known : atom? token = some tree) :
    Reads primaryLevel [token] tree := by
  intro pending _
  refine ⟨tree, [], ?_, fun _ _ => rfl, fun _ => ⟨rfl, rfl⟩⟩
  cases token with
  | punctuator text => simp [atom?] at known
  | _ => simp [run, step, stepBefore, known]

private theorem reads_parens {tokens : List Token} {tree : Expression} (inside : Reads 0 tokens tree) :
    Reads primaryLevel (.punctuator "(" :: tokens ++ [.punctuator ")"]) tree := by
  intro pending _
  obtain ⟨latest, inner, read, settled, _⟩ := inside (.parens :: pending) (by simp [Fits, Pending.level])
  have closed : step (.behind latest (inner ++ .parens :: pending)) (.punctuator ")") =
      some (.behind tree pending) := by
    simp [step, stepBehind, settled 0 (Nat.le_refl 0), settle]
  have opened : step (.before pending) (.punctuator "(") = some (.before (.parens :: pending)) := rfl
  refine ⟨tree, [], ?_, fun _ _ => rfl, fun _ => ⟨rfl, rfl⟩⟩
  rw [List.cons_append, run_cons opened, run_append read, run_cons closed]
  rfl

private theorem reads_call {front arguments : List Token} {callee : Expression}
    {args : List Expression} (called : Reads postfixLevel front callee)
    (given : ReadsArguments arguments args []) :
    Reads postfixLevel (front ++ .punctuator "(" :: arguments ++ [.punctuator ")"])
      (.call callee args) := by
  intro pending fits
  obtain ⟨latest, inner, read, _, exact⟩ := called pending fits
  obtain ⟨rfl, rfl⟩ := exact (Nat.le_refl _)
  have opened : step (.behind latest pending) (.punctuator "(") =
      some (.before (.argument latest [] :: pending)) := rfl
  refine ⟨.call latest args, [], ?_, fun _ _ => rfl, fun _ => ⟨rfl, rfl⟩⟩
  rw [List.append_assoc, run_append read, List.cons_append, List.nil_append, run_cons opened]
  exact given latest pending

private theorem reads_unary {symbol : String} {item : Pending} {tokens : List Token}
    {tree built : Expression} (operand : Reads unaryLevel tokens tree)
    (stepped : ∀ pending, step (.before pending) (.punctuator symbol) =
      some (.before (item :: pending)))
    (level : item.level = unaryLevel)
    (builds : ∀ low pending, settle low tree (item :: pending) = settle low built pending) :
    Reads unaryLevel (.punctuator symbol :: tokens) built := by
  intro pending _
  obtain ⟨latest, inner, read, settled, _⟩ := operand (item :: pending) (by simp [Fits, level])
  refine ⟨latest, inner ++ [item], ?_, fun low lower => ?_,
    fun high => absurd high (by decide)⟩
  · rw [run_cons (stepped pending), read, List.append_assoc]
    rfl
  · rw [List.append_assoc, List.singleton_append, settled low lower, builds]

private theorem reads_binary {text : String} {op : BinOp} {front back : List Token}
    {left right : Expression} (spelled : binaryOperator? text = some op)
    (first : Reads (precedence op) front left) (second : Reads (precedence op + 1) back right) :
    Reads (precedence op) (front ++ .punctuator text :: back) (.binary op left right) := by
  intro pending fits
  have binary := precedence_lt_unaryLevel op
  obtain ⟨latest, inner, read, settled, _⟩ := first pending fits
  -- What was pending before the left operand waits for more than the operator gives it.
  have completed : settle (precedence op) latest (inner ++ pending) = (left, pending) := by
    rw [settled _ (Nat.le_refl _), settle_of_fits fits binary]
  have stepped : step (.behind latest (inner ++ pending)) (.punctuator text) =
      some (.before (.right op left :: pending)) := by
    have opening : text ≠ "(" := by
      rintro rfl
      cases spelled
    have closing : text ≠ ")" := by
      rintro rfl
      cases spelled
    have comma : text ≠ "," := by
      rintro rfl
      cases spelled
    simp [step, stepBehind, opening, closing, comma, spelled, completed]
  obtain ⟨last, others, readBack, settledBack, _⟩ :=
    second (.right op left :: pending) (by simp [Fits, Pending.level])
  refine ⟨last, others ++ [.right op left], ?_, fun low lower => ?_, fun high => ?_⟩
  · rw [run_append read, run_cons stepped, readBack, List.append_assoc]
    rfl
  · rw [List.append_assoc, List.singleton_append, settledBack low (Nat.le_succ_of_le lower)]
    simp [settle, lower]
  · simp only [postfixLevel, unaryLevel] at high binary
    omega

private theorem reads_tighter {level : Nat} {tokens : List Token} {tree : Expression}
    (inner : Reads (level + 1) tokens tree) : Reads level tokens tree := by
  intro pending fits
  obtain ⟨latest, begun, read, settled, exact⟩ :=
    inner pending fun item present => Nat.le_succ_of_le (fits item present)
  exact ⟨latest, begun, read, fun low lower => settled low (Nat.le_succ_of_le lower),
    fun high => exact (Nat.le_succ_of_le high)⟩

private theorem readsArguments_last {tokens : List Token} {tree : Expression}
    (only : Reads 0 tokens tree) (before : List Expression) :
    ReadsArguments tokens [tree] before := by
  intro callee pending
  obtain ⟨latest, inner, read, settled, _⟩ :=
    only (.argument callee before :: pending) (by simp [Fits, Pending.level])
  have closed : step (.behind latest (inner ++ .argument callee before :: pending))
      (.punctuator ")") = some (.behind (.call callee (before ++ [tree])) pending) := by
    simp [step, stepBehind, settled 0 (Nat.le_refl 0), settle]
  rw [run_append read, run_cons closed]
  rfl

private theorem readsArguments_cons {front back : List Token} {tree : Expression}
    {trees before : List Expression} (first : Reads 0 front tree)
    (others : ReadsArguments back trees (before ++ [tree])) :
    ReadsArguments (front ++ .punctuator "," :: back) (tree :: trees) before := by
  intro callee pending
  obtain ⟨latest, inner, read, settled, _⟩ :=
    first (.argument callee before :: pending) (by simp [Fits, Pending.level])
  have comma : step (.behind latest (inner ++ .argument callee before :: pending))
      (.punctuator ",") = some (.before (.argument callee (before ++ [tree]) :: pending)) := by
    simp [step, stepBehind, settled 0 (Nat.le_refl 0), settle]
  rw [List.append_assoc, run_append read, List.cons_append, run_cons comma, others callee pending]
  simp

mutual

/-- The reader finds what the grammar allows. -/
theorem Parses.reads : ∀ {level : Nat} {tokens : List Token} {tree : Expression},
    Parses level tokens tree → Reads level tokens tree
  | _, _, _, .atom known => reads_atom known
  | _, _, _, .parens inside => reads_parens inside.reads
  | _, _, _, .call called given => reads_call called.reads given.reads
  | _, _, _, .not operand =>
    reads_unary operand.reads (fun _ => rfl) rfl fun _ _ => rfl
  | _, _, _, .neg operand =>
    reads_unary operand.reads (fun _ => rfl) rfl fun _ _ => rfl
  | _, _, _, .binary spelled first second => reads_binary spelled first.reads second.reads
  | _, _, _, .tighter inner => reads_tighter inner.reads

theorem ParsesArguments.reads : ∀ {tokens : List Token} {args : List Expression},
    ParsesArguments tokens args → ReadsArguments tokens args []
  | _, _, .none => fun _ _ => rfl
  | _, _, .some listed => listed.reads []

theorem ParsesList.reads : ∀ {tokens : List Token} {trees : List Expression},
    ParsesList tokens trees → ∀ before, ReadsArguments tokens trees before
  | _, _, .last only, before => readsArguments_last only.reads before
  | _, _, .cons first others, _ => readsArguments_cons first.reads (others.reads _)

end

theorem Parses.parse_eq {tokens : List Token} {tree : Expression} (parsed : Parses 0 tokens tree) :
    parse tokens = some tree := by
  obtain ⟨latest, inner, read, settled, _⟩ := parsed.reads [] (by simp [Fits])
  have completed := settled 0 (Nat.le_refl 0)
  simp only [parse, read, completed]
  rfl

/-- The grammar is unambiguous. -/
theorem Parses.unique {tokens : List Token} {first second : Expression}
    (one : Parses 0 tokens first) (other : Parses 0 tokens second) : first = second :=
  Option.some.inj (one.parse_eq.symm.trans other.parse_eq)

end Caju.C
