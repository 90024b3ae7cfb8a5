import Caju.CommandLine.Args
import Caju.Proofs.JsonNesting

/-! What command lines say. A grammar tells how options, their values and files are spelled, and
where a command stands among them. Reading a command line gives what it spells
(`parseArgs_of_line`), and every command line that can be read is spelled in that way
(`line_of_parseArgs`). In particular, an output path counts exactly if it is given behind the
command, or if there is no command (`Line.build`). -/

namespace Caju.CommandLine

variable {scope : Scope} {args rest : List OsText} {given final : Given}

/-- Something that a command line gives. -/
inductive Choice where
  | file (path : OsText)
  | output (path : OsText)
  | flag (opt : Opt)

/-- An argument that is no option. -/
def IsPlain (arg : OsText) : Prop := arg.head? ≠ some dash ∨ arg = [dash]

/-- Options that take no value and can be given by letters. -/
def AreFlags (opts : List Opt) : Prop := ∀ opt ∈ opts, opt ≠ .output ∧ opt ≠ .json

def letters (opts : List Opt) : OsText := opts.filterMap Opt.letter?

def outputLetter : UInt8 := 'o'.toUInt8

/-- Arguments that spell options. Letters can be given together; that of the output comes last, as
its value stands behind it or is the next argument. -/
inductive Spells : List OsText → List Choice → Prop where
  | word {opt : Opt} (flag : opt ≠ .output) : Spells [dash :: dash :: opt.word] [.flag opt]
  | outputWord {value : OsText} (plain : IsPlain value) :
      Spells [dash :: dash :: Opt.output.word, value] [.output value]
  | outputWordEquals (value : OsText) :
      Spells [dash :: dash :: (Opt.output.word ++ equals :: value)] [.output value]
  | letters {opts : List Opt} (flags : AreFlags opts) (filled : opts ≠ []) :
      Spells [dash :: letters opts] (opts.map .flag)
  | outputLetter {opts : List Opt} {value : OsText} (flags : AreFlags opts) (plain : IsPlain value) :
      Spells [dash :: (letters opts ++ [outputLetter]), value] (opts.map .flag ++ [.output value])
  | outputLetterEquals {opts : List Opt} (flags : AreFlags opts) (value : OsText) :
      Spells [dash :: (letters opts ++ outputLetter :: equals :: value)]
        (opts.map .flag ++ [.output value])
  | outputLetterAttached {opts : List Opt} {value : OsText} (flags : AreFlags opts)
      (filled : value ≠ []) (bare : value.head? ≠ some equals) :
      Spells [dash :: (letters opts ++ outputLetter :: value)] (opts.map .flag ++ [.output value])

/-- Arguments that give options and files, up to some that are left. The name of a command is no
file where there can be one. -/
inductive Reads (scope : Scope) : List OsText → List Choice → List OsText → Prop where
  | done (rest : List OsText) : Reads scope rest [] rest
  | file {arg : OsText} {more rest : List OsText} {choices : List Choice} (plain : IsPlain arg)
      (own : scope = .program → Scope.ofName? arg = none ∧ arg ≠ helpName)
      (onward : Reads scope more choices rest) :
      Reads scope (arg :: more) (.file arg :: choices) rest
  | options {args more rest : List OsText} {spelled choices : List Choice}
      (spells : Spells args spelled) (onward : Reads scope more choices rest) :
      Reads scope (args ++ more) (spelled ++ choices) rest

/-- All arguments of a scope. Behind two dashes there are only files. -/
inductive Whole (scope : Scope) (args : List OsText) : List Choice → Prop where
  | ended {choices : List Choice} (reads : Reads scope args choices []) : Whole scope args choices
  | escaped {choices : List Choice} {files : List OsText}
      (reads : Reads scope args choices ([dash, dash] :: files)) :
      Whole scope args (choices ++ files.map .file)

/-- A command line: what is given before a command, the command, and what is given behind it. If
there is no command the program's own choices take its place. -/
inductive Line (args : List OsText) : List Choice → Scope → List Choice → Prop where
  | program {choices : List Choice} (whole : Whole .program args choices) :
      Line args [] .program choices
  | command {early choices : List Choice} {name : OsText} {rest : List OsText} {scope : Scope}
      (reads : Reads .program args early (name :: rest)) (named : scope.name? = some name)
      (whole : Whole scope rest choices) : Line args early scope choices

/-! ### What is given -/

/-- Takes one choice more. -/
def Choice.take (scope : Scope) : Choice → Given → Except Stop Given
  | .file path, given => given.setFile scope path
  | .output path, given =>
    if scope.options.contains .output then given.setOutput path else .error .misused
  | .flag opt, given => given.setFlag scope opt

def takeAll (scope : Scope) : List Choice → Given → Except Stop Given
  | [], given => .ok given
  | choice :: rest, given => (choice.take scope given).bind (takeAll scope rest)

theorem takeAll_append (scope : Scope) (front back : List Choice) (given : Given) :
    takeAll scope (front ++ back) given =
      (takeAll scope front given).bind (takeAll scope back) := by
  induction front generalizing given with
  | nil => rfl
  | cons choice rest ih =>
    rw [List.cons_append, takeAll, takeAll]
    cases choice.take scope given with
    | error stop => rfl
    | ok next => exact ih next

theorem Given.setFile_eq_ok {path : OsText} (taken : given.setFile scope path = .ok final) :
    given.file = none ∧ final = { given with file := some path } := by
  unfold Given.setFile at taken
  split at taken
  · rename_i allowed
    obtain ⟨⟨-, free⟩, -⟩ : (_ ∧ given.file = none) ∧ path ≠ [] := by simpa using allowed
    exact ⟨free, (Except.ok.inj taken).symm⟩
  · cases taken

theorem Given.setOutput_eq_ok {path : OsText} (taken : given.setOutput path = .ok final) :
    given.output = none ∧ final = { given with output := some path } := by
  unfold Given.setOutput at taken
  split at taken
  · rename_i allowed
    obtain ⟨free, -⟩ : given.output = none ∧ path ≠ [] := by simpa using allowed
    exact ⟨free, (Except.ok.inj taken).symm⟩
  · cases taken

/-- Options without a value leave paths as they are. -/
theorem Given.setFlag_eq_ok {opt : Opt} (taken : given.setFlag scope opt = .ok final) :
    final.file = given.file ∧ final.output = given.output := by
  unfold Given.setFlag at taken
  split at taken
  · cases opt with
    | quiet =>
      dsimp only at taken
      split at taken
      · cases taken
      · obtain rfl := Except.ok.inj taken
        exact ⟨rfl, rfl⟩
    | json =>
      dsimp only at taken
      split at taken
      · cases taken
      · obtain rfl := Except.ok.inj taken
        exact ⟨rfl, rfl⟩
    | _ => cases taken
  · cases taken

/-- What one choice more gives. -/
theorem Choice.take_iff {choice : Choice} (taken : choice.take scope given = .ok final)
    (path : OsText) :
    (final.output = some path ↔ given.output = some path ∨ choice = .output path) ∧
      (final.file = some path ↔ given.file = some path ∨ choice = .file path) := by
  cases choice with
  | file found =>
    obtain ⟨free, rfl⟩ := Given.setFile_eq_ok taken
    simp [free]
  | output found =>
    rw [Choice.take] at taken
    split at taken
    · obtain ⟨free, rfl⟩ := Given.setOutput_eq_ok taken
      simp [free]
    · cases taken
  | flag opt =>
    obtain ⟨file, output⟩ := Given.setFlag_eq_ok taken
    simp [file, output]

/-- What all choices give. -/
theorem takeAll_iff {choices : List Choice} (taken : takeAll scope choices given = .ok final)
    (path : OsText) :
    (final.output = some path ↔ given.output = some path ∨ .output path ∈ choices) ∧
      (final.file = some path ↔ given.file = some path ∨ .file path ∈ choices) := by
  induction choices generalizing given with
  | nil =>
    obtain rfl := Except.ok.inj taken
    simp
  | cons choice rest ih =>
    obtain ⟨next, first, later⟩ := bind_eq_ok_iff.mp taken
    obtain ⟨outputs, files⟩ := Choice.take_iff first path
    obtain ⟨furtherOutputs, furtherFiles⟩ := ih later
    rw [furtherOutputs, furtherFiles, outputs, files]
    simp [or_assoc, eq_comm]

/-! ### Reading what is spelled -/

theorem form_eq_plain_iff {arg : OsText} : form arg = .plain ↔ IsPlain arg := by
  have apart (text : OsText) : longForm text ≠ .plain := by
    unfold longForm
    split <;> exact nofun
  unfold form IsPlain
  match arg with
  | [] => simp
  | [first] => simp [Decidable.not_or_of_imp]
  | first :: second :: rest =>
    by_cases leads : first = dash
    · by_cases again : second = dash
      · by_cases ended : rest = []
        · simp [leads, again, ended]
        · simp [leads, again, ended, apart]
      · simp [leads, again]
    · simp [leads]

theorem form_word (opt : Opt) : form (dash :: dash :: opt.word) = .long opt.word none := by
  cases opt <;> decide

theorem form_outputWordEquals (value : OsText) :
    form (dash :: dash :: (Opt.output.word ++ equals :: value)) =
      .long Opt.output.word (some value) := by
  rfl

theorem ofWord?_word (opt : Opt) : Opt.ofWord? opt.word = some opt := by
  cases opt <;> decide

theorem Given.setLetters_flag {letter : UInt8} {opt : Opt} (found : Opt.ofLetter? letter = some opt)
    (valueless : opt ≠ .output) (more : OsText) (given : Given) :
    given.setLetters scope (letter :: more) =
      (given.setFlag scope opt).bind (·.setLetters scope more) := by
  rw [Given.setLetters, found]
  cases opt with
  | output => exact absurd rfl valueless
  | _ => dsimp only; cases given.setFlag scope _ <;> rfl

theorem Given.setLetters_output (more : OsText) (given : Given) :
    given.setLetters scope (outputLetter :: more) =
      if scope.options.contains .output then
        if more = [] then .ok (.needsOutput given)
        else (given.setOutput (attachedValue more)).map .done
      else .error .misused := by
  have found : Opt.ofLetter? outputLetter = some .output := by decide
  rw [Given.setLetters, found]

theorem letters_cons {opt : Opt} (valueless : opt ≠ .output) (lettered : opt ≠ .json)
    (rest : List Opt) :
    ∃ letter, letters (opt :: rest) = letter :: letters rest ∧ Opt.ofLetter? letter = some opt := by
  cases opt with
  | json => exact absurd rfl lettered
  | _ => exact ⟨_, rfl, by decide⟩

/-- Letters are taken one after the other. -/
theorem setLetters_letters {opts : List Opt} (flags : AreFlags opts) (more : OsText) (given : Given) :
    given.setLetters scope (letters opts ++ more) =
      (takeAll scope (opts.map .flag) given).bind (·.setLetters scope more) := by
  induction opts generalizing given with
  | nil => rfl
  | cons opt rest ih =>
    obtain ⟨⟨valueless, lettered⟩, others⟩ := List.forall_mem_cons.mp flags
    obtain ⟨letter, spelled, found⟩ := letters_cons valueless lettered rest
    rw [spelled, List.cons_append, Given.setLetters_flag found valueless, List.map_cons, takeAll,
      Choice.take]
    cases given.setFlag scope opt with
    | error stop => rfl
    | ok next => exact ih others next

/-- Letters behind a dash are read as such. -/
theorem form_letters {opts : List Opt} {more : OsText} (flags : AreFlags opts)
    (filled : letters opts ++ more ≠ []) (bare : more.head? ≠ some dash) :
    form (dash :: (letters opts ++ more)) = .short (letters opts ++ more) := by
  have apart : (letters opts ++ more).head? ≠ some dash := by
    cases opts with
    | nil => exact bare
    | cons opt rest =>
      obtain ⟨⟨valueless, lettered⟩, -⟩ := List.forall_mem_cons.mp flags
      obtain ⟨letter, spelled, found⟩ := letters_cons valueless lettered rest
      rw [spelled]
      rintro ⟨⟩
      cases found
  obtain ⟨first, others, shape⟩ := List.exists_cons_of_ne_nil filled
  rw [shape] at apart ⊢
  have second : first ≠ dash := by simpa using apart
  simp [form, second]

/-- What is read behind an argument of options. -/
def After.parse (scope : Scope) (rest : List OsText) : After → Except Stop Parsed
  | .done given => CommandLine.parse scope rest given
  | .needsOutput given =>
    match rest with
    | [] => .error .misused
    | value :: rest =>
      if form value = .plain then (given.setOutput value).bind (CommandLine.parse scope rest)
      else .error .misused

theorem parse_options {arg : OsText} (option : form arg ≠ .escape) (dashed : form arg ≠ .plain)
    (rest : List OsText) (given : Given) :
    parse scope (arg :: rest) given =
      (given.setOptions scope (form arg)).bind (After.parse scope rest) := by
  rw [parse.eq_def]
  dsimp only
  split
  · exact absurd ‹_› option
  · exact absurd ‹_› dashed
  · cases given.setOptions scope (form arg) with
    | error stop => rfl
    | ok after =>
      cases after with
      | done next => rfl
      | needsOutput next =>
        cases rest with
        | nil => rfl
        | cons value more =>
          dsimp only [Except.bind, After.parse]
          cases next.setOutput value <;> rfl

theorem parse_letters {opts : List Opt} {more : OsText} (flags : AreFlags opts)
    (filled : letters opts ++ more ≠ []) (bare : more.head? ≠ some dash) (rest : List OsText)
    (given : Given) :
    parse scope ((dash :: (letters opts ++ more)) :: rest) given =
      (takeAll scope (opts.map .flag) given).bind fun next =>
        (next.setLetters scope more).bind (After.parse scope rest) := by
  have formed := form_letters flags filled bare
  rw [parse_options (by simp [formed]) (by simp [formed]), formed, Given.setOptions,
    setLetters_letters flags]
  cases takeAll scope (opts.map .flag) given <;> rfl

/-- An output path that is the next argument. -/
theorem parse_outputNext {value : OsText} (plain : IsPlain value) (rest : List OsText)
    (given : Given) :
    Except.bind (if scope.options.contains .output then .ok (.needsOutput given)
        else .error .misused) (After.parse scope (value :: rest)) =
      (takeAll scope [.output value] given).bind (parse scope rest) := by
  simp only [takeAll, Choice.take]
  split
  · have spelled := form_eq_plain_iff.mpr plain
    simp only [Except.bind, After.parse, if_pos spelled]
    cases given.setOutput value <;> rfl
  · rfl

/-- An output path that stands in the argument itself. -/
theorem parse_outputAttached (value : OsText) (rest : List OsText) (given : Given) :
    Except.bind (if scope.options.contains .output then (given.setOutput value).map .done
        else .error .misused) (After.parse scope rest) =
      (takeAll scope [.output value] given).bind (parse scope rest) := by
  simp only [takeAll, Choice.take]
  split
  · cases given.setOutput value <;> rfl
  · rfl

/-- The letter of the output stands behind others. -/
theorem parse_outputLetter {opts : List Opt} {more value : OsText} (flags : AreFlags opts)
    (output : ∀ next : Given,
      (next.setLetters scope (outputLetter :: more)).bind (After.parse scope args) =
        (takeAll scope [.output value] next).bind (parse scope rest)) (given : Given) :
    parse scope ((dash :: (letters opts ++ outputLetter :: more)) :: args) given =
      (takeAll scope (opts.map .flag ++ [.output value]) given).bind (parse scope rest) := by
  have other : (outputLetter :: more).head? ≠ some dash := by simp; decide
  rw [parse_letters flags (by simp) other, takeAll_append]
  cases takeAll scope (opts.map .flag) given with
  | error stop => rfl
  | ok next => exact output next

/-- Options give what they spell. -/
theorem parse_of_spells {choices : List Choice} (spells : Spells args choices) (rest : List OsText)
    (given : Given) :
    parse scope (args ++ rest) given = (takeAll scope choices given).bind (parse scope rest) := by
  cases spells with
  | @word opt flag =>
    have formed := form_word opt
    rw [List.singleton_append, parse_options (by simp [formed]) (by simp [formed]), formed,
      Given.setOptions, Given.setWord, ofWord?_word]
    cases opt with
    | output => exact absurd rfl flag
    | _ =>
      simp only [takeAll, Choice.take]
      cases given.setFlag scope _ <;> rfl
  | outputWord plain =>
    have formed := form_word .output
    rw [List.cons_append, parse_options (by simp [formed]) (by simp [formed]), formed,
      Given.setOptions, Given.setWord, ofWord?_word]
    exact parse_outputNext plain rest given
  | outputWordEquals value =>
    have formed := form_outputWordEquals value
    rw [List.singleton_append, parse_options (by simp [formed]) (by simp [formed]), formed,
      Given.setOptions, Given.setWord, ofWord?_word]
    exact parse_outputAttached value rest given
  | @letters opts flags filled =>
    obtain ⟨opt, others, rfl⟩ := List.exists_cons_of_ne_nil filled
    obtain ⟨⟨valueless, lettered⟩, -⟩ := List.forall_mem_cons.mp flags
    obtain ⟨letter, spelled, -⟩ := letters_cons valueless lettered others
    have nothing : letters (opt :: others) ++ [] ≠ [] := by simp [spelled]
    rw [List.singleton_append, ← List.append_nil (letters _),
      parse_letters flags nothing (by simp)]
    rfl
  | outputLetter flags plain =>
    refine parse_outputLetter flags (fun next => ?_) given
    rw [Given.setLetters_output, if_pos rfl]
    exact parse_outputNext plain rest next
  | outputLetterEquals flags value =>
    refine parse_outputLetter flags (fun next => ?_) given
    rw [Given.setLetters_output, if_neg (List.cons_ne_nil _ _)]
    exact parse_outputAttached value rest next
  | outputLetterAttached flags filled bare =>
    refine parse_outputLetter flags (fun next => ?_) given
    rw [Given.setLetters_output, if_neg filled, attachedValue, if_neg bare]
    exact parse_outputAttached _ rest next

/-- What is read up to some arguments that are left. -/
theorem parse_of_reads {choices : List Choice} (reads : Reads scope args choices rest)
    (given : Given) :
    parse scope args given = (takeAll scope choices given).bind (parse scope rest) := by
  induction reads generalizing given with
  | done rest => rfl
  | @file arg more rest choices plain own onward ih =>
    have unnamed : (if scope = .program then Scope.ofName? arg else none) = none := by
      split
      · rename_i outer
        exact (own outer).1
      · rfl
    have noHelp : ¬(scope = .program ∧ arg = helpName) := fun both => (own both.1).2 both.2
    rw [parse.eq_def, takeAll, Choice.take]
    simp only [form_eq_plain_iff.mpr plain, unnamed, if_neg noHelp]
    cases given.setFile scope arg with
    | error stop => rfl
    | ok next => exact ih next
  | options spells onward ih =>
    rw [parse_of_spells spells, takeAll_append]
    cases takeAll scope _ given with
    | error stop => rfl
    | ok next => exact ih next

theorem takeFiles_eq (files : List OsText) (given : Given) :
    takeFiles scope files given = takeAll scope (files.map .file) given := by
  induction files generalizing given with
  | nil => rfl
  | cons file rest ih =>
    rw [takeFiles, List.map_cons, takeAll, Choice.take]
    cases given.setFile scope file with
    | error stop => rfl
    | ok next => exact ih next

/-- What is read up to the end. -/
theorem parse_of_whole {choices : List Choice} (whole : Whole scope args choices) (given : Given) :
    parse scope args given = (takeAll scope choices given).map .all := by
  cases whole with
  | ended reads =>
    rw [parse_of_reads reads]
    cases takeAll scope choices given <;> rfl
  | escaped reads =>
    rw [parse_of_reads reads, takeAll_append]
    cases takeAll scope _ given with
    | error stop => rfl
    | ok next =>
      have formed : form [dash, dash] = .escape := by decide
      simp only [Except.bind, parse.eq_def, formed, takeFiles_eq]

/-! ### How everything that is read was spelled -/

/-- The argument of a form that starts with a dash. -/
def Form.spelling : Form → OsText
  | .escape => [dash, dash]
  | .long word none => dash :: dash :: word
  | .long word (some value) => dash :: dash :: (word ++ equals :: value)
  | .short letters => dash :: letters
  | .plain => []

theorem spelling_form {arg : OsText} (dashed : form arg ≠ .plain) : (form arg).spelling = arg := by
  have long (text : OsText) : (longForm text).spelling = dash :: dash :: text := by
    unfold longForm
    have parts := List.takeWhile_append_dropWhile (p := (· != equals)) (l := text)
    split
    · rfl
    · rename_i first attached found
      have : first = equals := by
        have := List.head?_dropWhile_not (· != equals) text
        simpa [found] using this
      rw [Form.spelling]
      rw [found, this] at parts
      rw [parts]
  match arg with
  | [] => exact absurd rfl dashed
  | [_] => exact absurd rfl dashed
  | first :: second :: rest =>
    unfold form at dashed ⊢
    dsimp only at dashed ⊢
    split_ifs at dashed ⊢ with leads again ended
    · rw [leads, again, ended]
      rfl
    · rw [long, leads, again]
    · rw [Form.spelling, leads]
    · exact absurd rfl dashed

theorem letter?_of_ofLetter? {letter : UInt8} {opt : Opt} (found : Opt.ofLetter? letter = some opt) :
    opt.letter? = some letter := by
  simpa using List.find?_some found

theorem eq_word_of_ofWord? {word : OsText} {opt : Opt} (found : Opt.ofWord? word = some opt) :
    word = opt.word := by
  have same := List.find?_some found
  exact (eq_of_beq same).symm

/-- Letters that could be taken are those of some options, and perhaps of the output. -/
theorem letters_of_setLetters {text : OsText} {after : After}
    (taken : given.setLetters scope text = .ok after) :
    ∃ opts, AreFlags opts ∧ ((text = letters opts ∧ ∃ next, after = .done next) ∨
      (text = letters opts ++ [outputLetter] ∧ ∃ next, after = .needsOutput next) ∨
      ∃ value, value ≠ [] ∧ text = letters opts ++ outputLetter :: value ∧
        ∃ next, after = .done next) := by
  induction text generalizing given with
  | nil => exact ⟨[], by simp [AreFlags], .inl ⟨rfl, given, (Except.ok.inj taken).symm⟩⟩
  | cons letter rest ih =>
    cases found : Opt.ofLetter? letter with
    | none =>
      rw [Given.setLetters, found] at taken
      cases taken
    | some opt =>
      have spelled := letter?_of_ofLetter? found
      by_cases output : opt = .output
      · subst output
        obtain rfl : outputLetter = letter := Option.some.inj spelled
        rw [Given.setLetters_output] at taken
        refine ⟨[], by simp [AreFlags], .inr ?_⟩
        split at taken
        · split at taken
          · rename_i ended
            exact .inl ⟨by rw [ended]; rfl, given, (Except.ok.inj taken).symm⟩
          · rename_i filled
            obtain ⟨next, -, same⟩ := map_eq_ok_iff.mp taken
            exact .inr ⟨rest, filled, rfl, next, same.symm⟩
        · cases taken
      · rw [Given.setLetters_flag found output] at taken
        obtain ⟨next, -, later⟩ := bind_eq_ok_iff.mp taken
        obtain ⟨opts, flags, shape⟩ := ih later
        have flag : opt ≠ .output ∧ opt ≠ .json := ⟨output, by rintro rfl; cases spelled⟩
        have first : letters (opt :: opts) = letter :: letters opts :=
          List.filterMap_cons_some spelled
        refine ⟨opt :: opts, List.forall_mem_cons.mpr ⟨flag, flags⟩, ?_⟩
        simp only [first, List.cons_append, List.cons.injEq, true_and]
        exact shape

/-- Whether an argument spells options, by itself or with a value behind it. -/
def After.Spelled (arg : OsText) : After → Prop
  | .done _ => ∃ choices, Spells [arg] choices
  | .needsOutput _ => ∀ value, IsPlain value → ∃ choices, Spells [arg, value] choices

theorem spelled_of_setLetters {text : OsText} {after : After} (filled : text ≠ [])
    (taken : given.setLetters scope text = .ok after) : after.Spelled (dash :: text) := by
  obtain ⟨opts, flags, shape⟩ := letters_of_setLetters taken
  obtain ⟨rfl, next, rfl⟩ | ⟨rfl, next, rfl⟩ | ⟨value, given, rfl, next, rfl⟩ := shape
  · have some : opts ≠ [] := by
      rintro rfl
      exact filled rfl
    exact ⟨_, .letters flags some⟩
  · exact fun value plain => ⟨_, .outputLetter flags plain⟩
  · by_cases sign : value.head? = some equals
    · obtain ⟨rest, rfl⟩ := List.head?_eq_some_iff.mp sign
      exact ⟨_, .outputLetterEquals flags rest⟩
    · exact ⟨_, .outputLetterAttached flags given sign⟩

theorem spelled_of_setWord {word : OsText} {attached : Option OsText} {after : After}
    (taken : given.setWord scope word attached = .ok after) :
    after.Spelled (Form.long word attached).spelling := by
  unfold Given.setWord at taken
  split at taken
  · cases taken
  · rename_i found
    obtain rfl := eq_word_of_ofWord? found
    split at taken
    · cases attached with
      | none =>
        obtain rfl := Except.ok.inj taken
        exact fun value plain => ⟨_, .outputWord plain⟩
      | some value =>
        obtain ⟨next, -, rfl⟩ := map_eq_ok_iff.mp taken
        exact ⟨_, .outputWordEquals value⟩
    · cases taken
  · rename_i opt output found
    obtain rfl := eq_word_of_ofWord? found
    cases attached with
    | none =>
      obtain ⟨next, -, rfl⟩ := map_eq_ok_iff.mp taken
      exact ⟨_, .word output⟩
    | some value => cases taken

theorem spelled_of_setOptions {arg : OsText} {after : After} (option : form arg ≠ .escape)
    (dashed : form arg ≠ .plain) (taken : given.setOptions scope (form arg) = .ok after) :
    after.Spelled arg := by
  have spelling := spelling_form dashed
  cases formed : form arg with
  | escape => exact absurd formed option
  | plain => exact absurd formed dashed
  | long word attached =>
    rw [formed] at taken spelling
    rw [← spelling]
    exact spelled_of_setWord taken
  | short text =>
    rw [formed] at taken spelling
    rw [← spelling]
    refine spelled_of_setLetters ?_ taken
    rintro rfl
    exact dashed (by rw [← spelling]; rfl)

/-- Whether arguments spell what was read from them. -/
def Parsed.Spelled (scope : Scope) (args : List OsText) : Parsed → Prop
  | .all _ => ∃ choices, Whole scope args choices
  | .command inner rest =>
    ∃ early name, Reads scope args early (name :: rest) ∧ inner.name? = some name
  | .help _ => True

theorem Parsed.Spelled.extend {parsed : Parsed} (front : List OsText) (first : List Choice)
    (reads : ∀ {choices rest}, Reads scope args choices rest →
      Reads scope (front ++ args) (first ++ choices) rest)
    (spelled : parsed.Spelled scope args) : parsed.Spelled scope (front ++ args) := by
  cases parsed with
  | all final =>
    obtain ⟨choices, whole⟩ := spelled
    cases whole with
    | ended behind => exact ⟨_, .ended (reads behind)⟩
    | escaped behind => exact ⟨_, .escaped (reads behind)⟩
  | command command rest =>
    obtain ⟨early, name, behind, named⟩ := spelled
    exact ⟨_, name, reads behind, named⟩
  | help topics => trivial

/-- Everything that is read is spelled by the arguments. -/
theorem spelled_of_parse {parsed : Parsed} (read : parse scope args given = .ok parsed) :
    parsed.Spelled scope args := by
  fun_induction parse scope args given with
  | case1 given =>
    obtain rfl := Except.ok.inj read
    exact ⟨[], .ended (.done [])⟩
  | case2 arg rest given formed =>
    obtain ⟨final, -, rfl⟩ := map_eq_ok_iff.mp read
    have spelling : (form arg).spelling = arg := spelling_form (by simp [formed])
    rw [formed] at spelling
    rw [← spelling]
    exact ⟨_, .escaped (.done _)⟩
  | case3 arg rest given formed inner found =>
    obtain rfl := Except.ok.inj read
    split at found
    · have same := List.find?_some found
      exact ⟨[], arg, .done _, eq_of_beq same⟩
    · cases found
  | case4 arg rest given formed unnamed asks =>
    obtain rfl := Except.ok.inj read
    trivial
  | case6 arg rest given formed unnamed noHelp next taken ih =>
    have own (outer : scope = .program) : Scope.ofName? arg = none ∧ arg ≠ helpName :=
      ⟨by simpa [outer] using unnamed, fun same => noHelp ⟨outer, same⟩⟩
    exact (ih read).extend [arg] [.file arg] (.file (form_eq_plain_iff.mp formed) own)
  | case8 arg rest given next option dashed taken ih =>
    obtain ⟨choices, spells⟩ := spelled_of_setOptions option dashed taken
    exact (ih read).extend _ _ (.options spells)
  | case11 arg given next value rest plain last set option dashed taken ih =>
    obtain ⟨choices, spells⟩ :=
      spelled_of_setOptions option dashed taken value (form_eq_plain_iff.mp plain)
    exact (ih read).extend _ _ (.options spells)
  | _ => cases read

/-! ### Whole command lines -/

theorem parse_name {name : OsText} {inner : Scope} (named : inner.name? = some name)
    (rest : List OsText) (given : Given) :
    parse .program (name :: rest) given = .ok (.command inner rest) := by
  cases inner with
  | program => cases named
  | _ => obtain rfl := Option.some.inj named; rfl

/-- What the reading of a command line gives: the choices before a command must be possible, but
only those behind it count. -/
theorem parseArgs_of_line {early choices : List Choice} (line : Line args early scope choices) :
    parseArgs args = (takeAll .program early .nothing).bind fun _ =>
      (takeAll scope choices .nothing).bind (command scope) := by
  rw [parseArgs]
  cases line with
  | program whole =>
    rw [parse_of_whole whole]
    cases takeAll .program choices .nothing <;> rfl
  | command reads named whole =>
    rw [parse_of_reads reads]
    cases takeAll .program early .nothing with
    | error stop => rfl
    | ok next =>
      simp only [Except.bind, parse_name named, bind, parse_of_whole whole]
      cases takeAll scope choices .nothing <;> rfl

/-- Every command line that can be read is spelled by some choices. -/
theorem line_of_parseArgs {asked : Command} (read : parseArgs args = .ok asked) :
    ∃ early scope choices, Line args early scope choices := by
  obtain ⟨parsed, outer, read⟩ := bind_eq_ok_iff.mp read
  have spelled := spelled_of_parse outer
  cases parsed with
  | all given =>
    obtain ⟨choices, whole⟩ := spelled
    exact ⟨[], .program, choices, .program whole⟩
  | help topics => cases read
  | command inner rest =>
    obtain ⟨early, name, reads, named⟩ := spelled
    obtain ⟨parsed, behind, read⟩ := bind_eq_ok_iff.mp read
    cases parsed with
    | all given =>
      obtain ⟨choices, whole⟩ := spelled_of_parse behind
      exact ⟨early, inner, choices, .command reads named whole⟩
    | _ => cases read

/-- The paths of a build are those that are given behind the command. -/
theorem Line.build {early choices : List Choice} {input : OsText} {output : Option OsText}
    {quiet : Bool} (line : Line args early scope choices)
    (read : parseArgs args = .ok (.build input output quiet)) :
    .file input ∈ choices ∧ ∀ path, output = some path ↔ .output path ∈ choices := by
  rw [parseArgs_of_line line] at read
  obtain ⟨-, -, read⟩ := bind_eq_ok_iff.mp read
  obtain ⟨final, taken, made⟩ := bind_eq_ok_iff.mp read
  obtain ⟨file, rfl⟩ : final.file = some input ∧ final.output = output := by
    revert made
    fun_cases CommandLine.command scope final <;> rintro ⟨⟩ <;> exact ⟨‹_›, rfl⟩
  refine ⟨?_, fun path => ?_⟩
  · simpa [Given.nothing] using (takeAll_iff taken input).2.mp file
  · simpa [Given.nothing] using (takeAll_iff taken path).1

/-- A command line gives something that counts: behind its command, or without a command. -/
def Counts (args : List OsText) (choice : Choice) : Prop :=
  ∃ early scope choices, Line args early scope choices ∧ choice ∈ choices

/-- A command line gives something before its command, where it counts for nothing. -/
def Drops (args : List OsText) (choice : Choice) : Prop :=
  ∃ early scope choices, Line args early scope choices ∧ choice ∈ early

/-- A build takes the file and the output path that count. So it takes the output path that is given
anywhere, if none is given before the command. -/
theorem parseArgs_build {input : OsText} {output : Option OsText} {quiet : Bool}
    (read : parseArgs args = .ok (.build input output quiet)) :
    Counts args (.file input) ∧ (∀ path, output = some path ↔ Counts args (.output path)) ∧
    ((∀ path, ¬Drops args (.output path)) →
      ∀ path, output = some path ↔ Counts args (.output path) ∨ Drops args (.output path)) := by
  obtain ⟨early, scope, choices, line⟩ := line_of_parseArgs read
  have outputs (path : OsText) : output = some path ↔ Counts args (.output path) := by
    constructor
    · intro some
      exact ⟨early, scope, choices, line, ((line.build read).2 path).mp some⟩
    · rintro ⟨_, _, _, line, member⟩
      exact ((line.build read).2 path).mpr member
  refine ⟨⟨early, scope, choices, line, (line.build read).1⟩, outputs, fun kept path => ?_⟩
  rw [outputs, or_iff_left (kept path)]

end Caju.CommandLine
