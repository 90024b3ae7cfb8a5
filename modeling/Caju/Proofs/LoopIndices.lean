import Caju.Proofs.CLines
import Caju.Proofs.DeclaratorText
import Caju.Proofs.NameClashes
import Mathlib.Data.List.Chain
import Mathlib.Data.List.DropRight
import Mathlib.Data.List.Nodup

/-! The indices of loops over arrays. The loops of a function are numbered in the order of their
heads, and the line below a head takes its element with the index of that head. So no two loops
of a function share an index, whether one is inside the other or behind it. -/

namespace Caju

namespace C

/-- The index that a line declares, if it opens a loop over an array. -/
def declaredIndex? (line : String) : Option String :=
  ((unindented line).dropPrefix? "for (int ".toList).map fun rest =>
    String.ofList (rest.takeWhile isWordRest)

/-- The index that a line takes an element with, if it ends in an access. -/
def accessedIndex? (line : String) : Option String :=
  ((unindented line).dropSuffix? "];".toList).map fun front =>
    String.ofList (front.rtakeWhile isWordRest)

/-- Lines whose loops are numbered from zero. Every access is on the line below the head of
its loop, and there is one below every head. -/
structure Indexed {α : Type} (declares accesses : α → Option String) (lines : List α)
    (count : Nat) : Prop where
  declared : lines.filterMap declares = (List.range count).map loopIndex
  distinct : (lines.filterMap declares).Nodup
  first : lines.head?.bind accesses = none
  next : ∀ i : Nat, lines[i]?.bind declares = lines[i + 1]?.bind accesses

namespace Line

/-- The number of the loop that a line opens. -/
def number? : Line → Option Nat
  | eachHead number _ => some number
  | _ => none

/-- The number of the loop that a line takes the element of. -/
def accessed? : Line → Option Nat
  | element number _ _ _ => some number
  | _ => none

end Line

namespace Placed

/-- The index that the head of a loop declares, as its text has it. -/
def headIndex? (placed : Placed) : Option String :=
  placed.line.number?.bind fun _ => declaredIndex? placed.text

/-- The index in the line that takes the element of a loop, as its text has it. -/
def elementIndex? (placed : Placed) : Option String :=
  placed.line.accessed?.bind fun _ => accessedIndex? placed.text

end Placed

theorem loopIndex_injective : Function.Injective loopIndex := by
  intro one other same
  have spelled := congrArg String.toList same
  simp only [loopIndex, String.toList_append] at spelled
  have value := congrArg decimal? (List.append_cancel_left spelled)
  rw [decimal?_toString, decimal?_toString] at value
  exact Option.some.inj value

theorem unindented_indented_eq (level : Nat) (text : String) :
    unindented (Emitter.indented level text) = unindented text := by
  rw [unindented, Emitter.indented, String.toList_append, List.dropWhile_append_of_pos (by simp)]
  rfl

theorem unindented_of_visible {text : String} {c : Char} {more : List Char}
    (spelled : text.toList = c :: more) (visible : c ≠ ' ') : unindented text = text.toList := by
  rw [unindented, spelled, List.dropWhile_cons_of_neg (by simpa using visible)]

/-- The head of a loop declares its index, whatever it loops over. -/
theorem declaredIndex?_forEachHead {index : String}
    (letters : ∀ c ∈ index.toList, isWordRest c = true) (level : Nat) (container : String) :
    declaredIndex? (Emitter.indented level (forEachHead index container ++ " \x7b")) =
      some index := by
  obtain ⟨more, spelled⟩ : ∃ more, (forEachHead index container ++ " \x7b").toList =
      "for (int ".toList ++ (index.toList ++ ' ' :: more) := by
    delta forEachHead
    simp only [String.toList_append, List.append_assoc]
    exact ⟨_, rfl⟩
  rw [declaredIndex?, unindented_indented_eq, unindented_of_visible spelled (by decide), spelled,
    List.dropPrefix?_append_of_beq _ (beq_self_eq_true _), Option.map_some,
    List.takeWhile_append_of_pos letters, List.takeWhile_cons_of_neg (by decide), List.append_nil,
    String.ofList_toList]

/-- An access is read from its end, whatever array it takes the element of. -/
theorem accessedIndex?_access {index : String}
    (letters : ∀ c ∈ index.toList, isWordRest c = true) {text : String} {c : Char}
    {more : List Char} (spelled : text.toList = c :: more) (visible : c ≠ ' ') (level : Nat) :
    accessedIndex? (Emitter.indented level (text ++ ".data[" ++ index ++ "];")) = some index := by
  have whole : (text ++ ".data[" ++ index ++ "];").toList =
      c :: (more ++ ".data[".toList ++ index.toList ++ "];".toList) := by
    simp [spelled]
  have dropped : (unindented (text ++ ".data[" ++ index ++ "];")).dropSuffix? "];".toList =
      some (text.toList ++ ".data".toList ++ '[' :: index.toList) := by
    rw [unindented_of_visible whole visible, List.dropSuffix?_eq_some_iff]
    exact ⟨"];".toList, by simp, beq_self_eq_true _⟩
  have backwards : ∀ x ∈ index.toList.reverse, isWordRest x = true := by
    simpa using letters
  rw [accessedIndex?, unindented_indented_eq, dropped, Option.map_some, List.rtakeWhile,
    List.reverse_append, List.reverse_cons, List.append_assoc,
    List.takeWhile_append_of_pos backwards, List.singleton_append,
    List.takeWhile_cons_of_neg (by decide), List.append_nil, List.reverse_reverse,
    String.ofList_toList]

end C

open C

/-! ### The numbers of loops -/

namespace Stmt

theorem numbers_block {level : Nat} {head : Line} {body : List Placed}
    (noHead : head.number? = none) :
    (⟨level, head⟩ :: body ++ [⟨level, .close⟩] : List Placed).filterMap (·.line.number?) =
      body.filterMap (·.line.number?) := by
  have closing : Line.close.number? = none := rfl
  simp [noHead, closing]

variable (inEntryPoint : Bool)

mutual

/-- The loops of a statement are numbered in the order of their heads. -/
theorem placed_numbers : ∀ (stmt : Stmt) (level loops : Nat),
    (stmt.placed inEntryPoint level loops).filterMap (·.line.number?) =
      List.range' loops stmt.eachLoops
  | .declare decl, level, loops => by
    have none : (placeAll level decl.cLines).filterMap (·.line.number?) = [] := by
      refine List.filterMap_eq_nil_iff.mpr (List.forall_mem_map.mpr ?_)
      exact decl.each_line rfl fun _ _ _ _ _ => rfl
    exact none
  | .assign _, _, _ => rfl
  | .call _ _, _, _ => rfl
  | .ret _, _, _ => rfl
  | .ifElse _ yes none, level, loops =>
    (numbers_block rfl).trans (placedAll_numbers yes (level + 1) loops)
  | .ifElse _ yes (some no), level, loops => by
    have first := placedAll_numbers yes (level + 1) loops
    have second := placedAll_numbers no (level + 1) (loops + eachLoopsAll yes)
    rw [placed, List.filterMap_append, List.filterMap_cons_none rfl, numbers_block rfl, first,
      second, eachLoops, List.range'_append_1]
  | .whileDo _ body, level, loops =>
    (numbers_block rfl).trans (placedAll_numbers body (level + 1) loops)
  | .forDo _ _ _ body, level, loops =>
    (numbers_block rfl).trans (placedAll_numbers body (level + 1) loops)
  | .forEach ty name container body, level, loops => by
    have inside := placedAll_numbers body (level + 1) (loops + 1)
    have pass := @numbers_block level (.element loops ty name container)
      (placedAll inEntryPoint (level + 1) (loops + 1) body) rfl
    rw [eachLoops, Nat.add_comm, List.range'_succ, ← inside, ← pass]
    rfl

theorem placedAll_numbers : ∀ (stmts : List Stmt) (level loops : Nat),
    (placedAll inEntryPoint level loops stmts).filterMap (·.line.number?) =
      List.range' loops (eachLoopsAll stmts)
  | [], _, _ => rfl
  | stmt :: rest, level, loops => by
    rw [placedAll, List.filterMap_append, placed_numbers stmt, placedAll_numbers rest, eachLoopsAll,
      List.range'_append_1]

end

end Stmt

/-! ### Heads above their accesses -/

namespace C

/-- Lines where each head of a loop is above the access to its element, and each access is
below the head of its loop. -/
structure Paired (lines : List Placed) : Prop where
  chain : lines.IsChain fun above below => above.line.number? = below.line.accessed?
  starts : ∀ first ∈ lines.head?, first.line.accessed? = none
  ends : ∀ last ∈ lines.getLast?, last.line.number? = none

namespace Paired

theorem nil : Paired [] := by
  constructor <;> simp

theorem append {before behind : List Placed} (one : Paired before) (other : Paired behind) :
    Paired (before ++ behind) := by
  constructor
  · refine List.isChain_append.mpr ⟨one.chain, other.chain, fun last isLast first isFirst => ?_⟩
    exact (one.ends last isLast).trans (other.starts first isFirst).symm
  · intro first isFirst
    rw [List.head?_append] at isFirst
    cases before with
    | nil => exact other.starts first (by simpa using isFirst)
    | cons line rest => exact one.starts first (by simpa using isFirst)
  · intro last isLast
    rw [List.getLast?_append] at isLast
    cases behind with
    | nil => exact one.ends last (by simpa using isLast)
    | cons line rest => exact other.ends last (by simpa [List.getLast?_cons] using isLast)

/-- A line that has nothing to do with loops over arrays. -/
theorem single {placed : Placed} (noHead : placed.line.number? = none)
    (noAccess : placed.line.accessed? = none) : Paired [placed] := by
  constructor
  · exact List.isChain_singleton placed
  · simpa using noAccess
  · simpa using noHead

theorem each {lines : List Placed}
    (plain : ∀ placed ∈ lines, placed.line.number? = none ∧ placed.line.accessed? = none) :
    Paired lines := by
  induction lines with
  | nil => exact nil
  | cons line rest ih =>
    obtain ⟨own, others⟩ := List.forall_mem_cons.mp plain
    exact (single own.1 own.2).append (ih others)

theorem block {level : Nat} {head : Line} {body : List Placed} (noHead : head.number? = none)
    (noAccess : head.accessed? = none) (inside : Paired body) :
    Paired (⟨level, head⟩ :: body ++ [⟨level, .close⟩]) :=
  ((@single ⟨level, head⟩ noHead noAccess).append inside).append (single rfl rfl)

/-- The head of a loop, with its access below it. -/
theorem head (level number : Nat) (ty : Ty) (name container : String) :
    Paired [⟨level, .eachHead number container⟩, ⟨level + 1, .element number ty name container⟩] := by
  constructor
  · exact List.isChain_pair.mpr rfl
  · simp [Line.accessed?]
  · simp [Line.number?]

/-- The line below any line has the access for it. -/
theorem next {lines : List Placed} (paired : Paired lines) (i : Nat) :
    lines[i]?.bind (·.line.number?) = lines[i + 1]?.bind (·.line.accessed?) := by
  by_cases inside : i + 1 < lines.length
  · have adjacent := paired.chain.getElem i inside
    rw [List.getElem?_eq_getElem inside, List.getElem?_eq_getElem (Nat.lt_of_succ_lt inside)]
    exact adjacent
  · rw [List.getElem?_eq_none (Nat.le_of_not_lt inside), Option.bind_none]
    cases found : lines[i]? with
    | none => rfl
    | some last =>
      have bound := (List.getElem?_eq_some_iff.mp found).1
      refine paired.ends last ?_
      rw [List.getLast?_eq_getElem?, show lines.length - 1 = i by omega, found]
      rfl

end Paired

end C

namespace Stmt

variable (inEntryPoint : Bool)

mutual

theorem paired : ∀ (stmt : Stmt) (level loops : Nat), Paired (stmt.placed inEntryPoint level loops)
  | .declare decl, level, _ => by
    refine .each (List.forall_mem_map.mpr ?_)
    exact decl.each_line ⟨rfl, rfl⟩ fun _ _ _ _ _ => ⟨rfl, rfl⟩
  | .assign _, _, _ => .single rfl rfl
  | .call _ _, _, _ => .single rfl rfl
  | .ret _, _, _ => .single rfl rfl
  | .ifElse _ yes none, level, loops => .block rfl rfl (pairedAll yes (level + 1) loops)
  | .ifElse condition yes (some no), level, loops =>
    ((@Paired.single ⟨level, .ifHead condition⟩ rfl rfl).append
      (pairedAll yes (level + 1) loops)).append
        (.block rfl rfl (pairedAll no (level + 1) (loops + eachLoopsAll yes)))
  | .whileDo _ body, level, loops => .block rfl rfl (pairedAll body (level + 1) loops)
  | .forDo _ _ _ body, level, loops => .block rfl rfl (pairedAll body (level + 1) loops)
  | .forEach ty name container body, level, loops =>
    ((Paired.head level loops ty name container).append
      (pairedAll body (level + 1) (loops + 1))).append (.single rfl rfl)

theorem pairedAll : ∀ (stmts : List Stmt) (level loops : Nat),
    Paired (placedAll inEntryPoint level loops stmts)
  | [], _, _ => .nil
  | stmt :: rest, level, loops =>
    (paired stmt level loops).append (pairedAll rest level (loops + stmt.eachLoops))

end

end Stmt

namespace Function

theorem placed_numbers (f : Function) (level : Nat) :
    (f.placed level).filterMap (·.line.number?) = List.range (Stmt.eachLoopsAll f.body) := by
  have body := Stmt.placedAll_numbers f.isVoidEntryPoint f.body (level + 1) 0
  rw [List.range_eq_range', ← body, placed, bodyPlaced]
  cases f.isVoidEntryPoint <;>
    simp [Line.number?, Line.close, Line.blank, Line.returnZero]

theorem paired (f : Function) (level : Nat) : Paired (f.placed level) := by
  have body := Stmt.pairedAll f.isVoidEntryPoint f.body (level + 1) 0
  have ending : Paired (if f.isVoidEntryPoint then [⟨level + 1, .returnZero⟩] else []) := by
    cases f.isVoidEntryPoint with
    | false => exact .nil
    | true => exact .single rfl rfl
  have closing : Paired [⟨level, .close⟩, ⟨level, .blank⟩] :=
    .append (.single rfl rfl) (.single rfl rfl)
  exact ((@Paired.single ⟨level, .header f⟩ rfl rfl).append (body.append ending)).append closing

theorem bind_read {lines : List Placed} {α : Type} {form : Placed → α} {read : α → Option String}
    {number? : Line → Option Nat}
    (reads : ∀ placed ∈ lines, read (form placed) = (number? placed.line).map loopIndex) (i : Nat) :
    (lines[i]?.map form).bind read = (lines[i]?.bind fun placed => number? placed.line).map loopIndex := by
  cases found : lines[i]? with
  | none => rfl
  | some placed => exact reads placed (List.mem_of_getElem? found)

/-- The loops of a function are numbered in whatever form its lines are read, if the numbers
are read from them. -/
theorem indexed (f : Function) (level : Nat) {α : Type} (form : Placed → α)
    {declares accesses : α → Option String}
    (heads : ∀ placed ∈ f.placed level,
      declares (form placed) = placed.line.number?.map loopIndex)
    (elements : ∀ placed ∈ f.placed level,
      accesses (form placed) = placed.line.accessed?.map loopIndex) :
    Indexed declares accesses ((f.placed level).map form) (Stmt.eachLoopsAll f.body) := by
  have declared : ((f.placed level).map form).filterMap declares =
      (List.range (Stmt.eachLoopsAll f.body)).map loopIndex := by
    rw [← f.placed_numbers level, List.filterMap_map, List.map_filterMap]
    exact List.filterMap_congr heads
  refine ⟨declared, ?_, ?_, ?_⟩
  · rw [declared]
    exact List.Nodup.map loopIndex_injective List.nodup_range
  · have starts := (f.paired level).starts
    rw [List.head?_map]
    cases found : (f.placed level).head? with
    | none => rfl
    | some first =>
      have read := elements first (List.mem_of_head? found)
      rw [starts first found] at read
      exact read
  · intro i
    have next := (f.paired level).next i
    rw [List.getElem?_map, List.getElem?_map, bind_read heads, bind_read elements, next]

end Function

/-! ### The lines that have no index -/

namespace C

theorem declaredIndex?_eq_none {text : String} (other : ¬ "for (int ".toList <+: unindented text)
    (level : Nat) : declaredIndex? (Emitter.indented level text) = none := by
  rw [declaredIndex?, unindented_indented_eq, Option.map_eq_none_iff, Option.eq_none_iff_forall_ne_some]
  intro rest found
  obtain ⟨front, whole, same⟩ := List.dropPrefix?_eq_some_iff.mp found
  exact other ⟨rest, by rw [whole, eq_of_beq same]⟩

theorem accessedIndex?_eq_none {text : String} (other : ¬ "];".toList <:+ text.toList)
    (level : Nat) : accessedIndex? (Emitter.indented level text) = none := by
  rw [accessedIndex?, unindented_indented_eq, Option.map_eq_none_iff, Option.eq_none_iff_forall_ne_some]
  intro front found
  obtain ⟨ending, whole, same⟩ := List.dropSuffix?_eq_some_iff.mp found
  have suffix : "];".toList <:+ unindented text := ⟨front, by rw [whole, eq_of_beq same]⟩
  exact other (suffix.trans (List.dropWhile_suffix _))

/-- A text whose first character shows that it does not begin with `for`. -/
def OpensOtherwise (text : String) : Prop :=
  ∃ c more, text.toList = c :: more ∧ c ≠ ' ' ∧ c ≠ 'f'

theorem OpensOtherwise.append {text : String} (opens : OpensOtherwise text) (more : String) :
    OpensOtherwise (text ++ more) := by
  obtain ⟨c, rest, spelled, apart⟩ := opens
  exact ⟨c, rest ++ more.toList, by rw [String.toList_append, spelled]; rfl, apart⟩

theorem opensOtherwise_spelled {text : String}
    (known : text.toList.head?.any (fun c => c != ' ' && c != 'f') = true) :
    OpensOtherwise text := by
  cases spelled : text.toList with
  | nil => simp [spelled] at known
  | cons c more => exact ⟨c, more, spelled, by simpa [spelled] using known⟩

theorem OpensOtherwise.not_for {text : String} (opens : OpensOtherwise text) :
    ¬ "for (int ".toList <+: unindented text := by
  obtain ⟨c, more, spelled, visible, other⟩ := opens
  rw [unindented_of_visible spelled visible, spelled]
  intro front
  exact other (List.cons_prefix_cons.mp front).1.symm

theorem OpensOtherwise.declaredIndex? {text : String} (opens : OpensOtherwise text) (level : Nat) :
    declaredIndex? (Emitter.indented level text) = none :=
  declaredIndex?_eq_none opens.not_for level

/-- Words that texts begin with are the same if the texts are. -/
theorem leading_word_unique {one other rest more : List Char} {c d : Char}
    (letters : ∀ x ∈ one, isWordRest x = true) (others : ∀ x ∈ other, isWordRest x = true)
    (ends : isWordRest c = false) (stops : isWordRest d = false)
    (same : one ++ c :: rest = other ++ d :: more) : one = other := by
  have taken := congrArg (List.takeWhile isWordRest) same
  rw [List.takeWhile_append_of_pos letters, List.takeWhile_append_of_pos others,
    List.takeWhile_cons_of_neg (by simpa using ends),
    List.takeWhile_cons_of_neg (by simpa using stops)] at taken
  simpa using taken

/-- A text that begins with a name of the program. -/
theorem declaredIndex?_named {name text : String} {c : Char} {more : List Char}
    (identifier : isIdentifier name = true) (spelled : text.toList = (ident name).toList ++ c :: more)
    (ends : isWordRest c = false) (level : Nat) :
    declaredIndex? (Emitter.indented level text) = none := by
  have word := isWord_ident identifier
  obtain ⟨first, others, leads⟩ : ∃ first others, (ident name).toList = first :: others := by
    apply List.exists_cons_of_ne_nil
    intro empty
    simp [empty, isWord] at word
  have letters := isWordRest_of_isWord word
  have visible : first ≠ ' ' := by
    rintro rfl
    exact absurd (letters ' ' (by simp [leads])) (by decide)
  refine declaredIndex?_eq_none ?_ level
  rw [unindented_of_visible (by rw [spelled, leads]; rfl) visible, spelled]
  rintro ⟨tail, same⟩
  have keyword := @leading_word_unique "for".toList _ _ _ ' ' c
    (List.all_eq_true.mp (by decide)) letters (by decide) ends same
  exact ident_notMem_reserved name (String.toList_injective keyword ▸ by decide)

theorem assigns_lead (first : Assign) (others : List Assign) :
    ∃ more, (", ".intercalate ((first :: others).map Assign.cText)).toList =
      (ident first.target).toList ++ ' ' :: more := by
  cases others with
  | nil => exact ⟨_, by simp [Assign.cText]; rfl⟩
  | cons second rest =>
    rw [List.map_cons, List.map_cons, String.intercalate_cons_cons]
    exact ⟨_, by simp [Assign.cText]; rfl⟩

/-- A counting loop declares nothing. -/
theorem declaredIndex?_forHead {start : List Assign} (condition : Option Expr) (step : List Assign)
    (named : ∀ name ∈ start.flatMap Assign.names, isIdentifier name = true) (level : Nat) :
    declaredIndex? (Emitter.indented level (forHead start condition step ++ " \x7b")) = none := by
  obtain ⟨behind, whole⟩ : ∃ behind, (forHead start condition step ++ " \x7b").toList =
      "for (".toList ++ ((", ".intercalate (start.map Assign.cText)).toList ++ ';' :: behind) :=
    ⟨_, by simp [forHead]; rfl⟩
  obtain ⟨word, c, more, spelled, letters, ends, free⟩ : ∃ word c more,
      (forHead start condition step ++ " \x7b").toList = "for (".toList ++ (word ++ c :: more) ∧
        (∀ x ∈ word, isWordRest x = true) ∧ isWordRest c = false ∧ word ≠ "int".toList := by
    cases start with
    | nil => exact ⟨[], ';', behind, whole, by simp, by decide, by decide⟩
    | cons first others =>
      have identifier := named first.target (by simp [Assign.names])
      obtain ⟨more, leads⟩ := assigns_lead first others
      refine ⟨(ident first.target).toList, ' ', more ++ ';' :: behind, ?_,
        isWordRest_of_isWord (isWord_ident identifier), by decide, fun same => ?_⟩
      · rw [whole, leads, List.append_assoc, List.cons_append]
      · exact ident_notMem_reserved first.target (String.toList_injective same ▸ by decide)
  refine declaredIndex?_eq_none ?_ level
  rw [unindented_of_visible spelled (by decide), spelled]
  rintro ⟨tail, same⟩
  have inside : "int".toList ++ ' ' :: tail = word ++ c :: more :=
    @List.append_cancel_left _ "for (".toList _ _ same
  exact free (leading_word_unique (List.all_eq_true.mp (by decide)) letters (by decide) ends
    inside).symm

/-- A text that does not end in a bracket. -/
def EndsOtherwise (text : String) : Prop := ∃ front c, text.toList = front ++ [c] ∧ c ≠ ']'

theorem EndsOtherwise.after {text : String} (ends : EndsOtherwise text) (before : String) :
    EndsOtherwise (before ++ text) := by
  obtain ⟨front, c, spelled, other⟩ := ends
  exact ⟨before.toList ++ front, c, by rw [String.toList_append, spelled, List.append_assoc], other⟩

theorem endsOtherwise_spelled {text : String}
    (known : text.toList.getLast?.any (fun c => c != ']') = true) : EndsOtherwise text := by
  cases last : text.toList.getLast? with
  | none => simp [last] at known
  | some c =>
    obtain ⟨front, spelled⟩ := List.getLast?_eq_some_iff.mp last
    exact ⟨front, c, spelled, by simpa [last] using known⟩

theorem endsOtherwise_word {text : String} (nonempty : text.toList ≠ [])
    (letters : ∀ c ∈ text.toList, isWordRest c = true) : EndsOtherwise text := by
  obtain ⟨front, c, spelled⟩ := (List.eq_nil_or_concat' text.toList).resolve_left nonempty
  refine ⟨front, c, spelled, ?_⟩
  rintro rfl
  exact absurd (letters ']' (by simp [spelled])) (by decide)

theorem endsOtherwise_isWord {text : String} (word : isWord text.toList = true) :
    EndsOtherwise text := by
  refine endsOtherwise_word ?_ (isWordRest_of_isWord word)
  intro empty
  simp [empty, isWord] at word

theorem endsOtherwise_digits (n : Nat) : EndsOtherwise (toString n) := by
  refine endsOtherwise_word (toString_ne_nil n) fun c member => ?_
  rw [isWordRest, isDigit_of_mem_toString n c member, Bool.or_true]

theorem endsOtherwise_parenthesized {text : String} (ends : EndsOtherwise text) (needed : Bool) :
    EndsOtherwise (parenthesized needed text) := by
  cases needed with
  | false => exact ends
  | true => exact (endsOtherwise_spelled (by decide)).after ("(" ++ text)

theorem endsOtherwise_charLiteral (c : Char) : EndsOtherwise (charLiteral c) := by
  unfold charLiteral
  split
  iterate 6 exact endsOtherwise_spelled (by decide)
  split
  · exact ⟨['\'', c], '\'', by simp, by decide⟩
  · split
    · exact ⟨_, '\'', String.toList_ofList, by decide⟩
    · exact endsOtherwise_digits c.toNat

theorem endsOtherwise_intercalate {texts : List String} (nonempty : texts ≠ [])
    (each : ∀ text ∈ texts, EndsOtherwise text) : EndsOtherwise (", ".intercalate texts) := by
  induction texts with
  | nil => exact absurd rfl nonempty
  | cons first rest ih =>
    obtain ⟨own, others⟩ := List.forall_mem_cons.mp each
    cases rest with
    | nil => simpa using own
    | cons second more =>
      rw [String.intercalate_cons_cons]
      exact (ih (List.cons_ne_nil second more) others).after (first ++ ", ")

theorem endsOtherwise_declared (ty : Ty) {name : String} (identifier : isIdentifier name = true) :
    EndsOtherwise (declared ty name) := by
  unfold declared
  split
  · exact (endsOtherwise_spelled (by decide)).after _
  · exact endsOtherwise_isWord (isWord_ident identifier)

/-- A line that ends in a semicolon is no access unless there is a bracket in front of it. -/
theorem EndsOtherwise.accessedIndex? {text : String} (ends : EndsOtherwise text) (level : Nat) :
    accessedIndex? (Emitter.indented level (text ++ ";")) = none := by
  obtain ⟨front, c, spelled, other⟩ := ends
  refine accessedIndex?_eq_none ?_ level
  rintro ⟨before, same⟩
  rw [String.toList_append, spelled] at same
  have backwards : ']' = c ∧ before = front := by simpa using congrArg List.reverse same
  exact other backwards.1.symm

theorem accessedIndex?_opening (text : String) (level : Nat) :
    accessedIndex? (Emitter.indented level (text ++ " \x7b")) = none := by
  refine accessedIndex?_eq_none ?_ level
  rintro ⟨before, same⟩
  simpa using congrArg List.getLast? same

end C

/-- The text of an expression ends in a word, a quote or a parenthesis. -/
theorem Expr.endsOtherwise : ∀ e : Expr, (∀ name ∈ e.names, isIdentifier name = true) →
    EndsOtherwise e.cText
  | .call _ _, _ => (endsOtherwise_spelled (by decide)).after _
  | .binary _ left right, named =>
    (endsOtherwise_parenthesized (right.endsOtherwise (List.forall_mem_append.mp named).2) _).after _
  | .not operand, named => (endsOtherwise_parenthesized (operand.endsOtherwise named) _).after "!"
  | .neg operand, named => (endsOtherwise_parenthesized (operand.endsOtherwise named) _).after "-"
  | .var name, named => endsOtherwise_isWord (isWord_ident (named name (by simp [names])))
  | .number value, _ => by
    rw [cText, numberLiteral_eq]
    split
    · exact endsOtherwise_parenthesized ((endsOtherwise_digits _).after "-") true
    · exact endsOtherwise_digits _
  | .character value, _ => endsOtherwise_charLiteral value
  | .boolean value, _ => by cases value <;> exact endsOtherwise_spelled (by decide)

namespace Ty

/-- The text of a C type begins with the name of a type. -/
theorem opensOtherwise_cType : ∀ ty : Ty, OpensOtherwise ty.cType
  | array element => OpensOtherwise.append (opensOtherwise_spelled (by decide)) _
  | function _ result => (((opensOtherwise_cType result).append _).append _).append _
  | unknown => opensOtherwise_spelled (by decide)
  | void => opensOtherwise_spelled (by decide)
  | boolean => opensOtherwise_spelled (by decide)
  | character => opensOtherwise_spelled (by decide)
  | number => opensOtherwise_spelled (by decide)

theorem opensOtherwise_declarator (ty : Ty) (name : String) : OpensOtherwise (ty.declarator name) := by
  unfold declarator
  split
  · rename_i params result
    exact ((((opensOtherwise_cType result).append _).append _).append _).append _ |>.append _
  · exact ((opensOtherwise_cType ty).append _).append _

theorem endsOtherwise_declarator (ty : Ty) {name : String} (ends : EndsOtherwise name) :
    EndsOtherwise (ty.declarator name) := by
  unfold declarator
  split
  · exact (endsOtherwise_spelled (by decide)).after _
  · exact ends.after _

end Ty

theorem Function.opensOtherwise_cSignature (f : Function) : OpensOtherwise f.cSignature := by
  have result : OpensOtherwise f.cResult := by
    unfold cResult
    split
    · exact opensOtherwise_spelled (by decide)
    · exact f.result.opensOtherwise_cType
  exact ((((result.append _).append _).append _).append _).append _

/-! ### The text alone -/

namespace C.Line

theorem text_member (ty : Ty) :
    (member ty).text = Emitter.indented 1 (ty.declarator "*data" ++ ";") := by
  have blanks : String.ofList (List.replicate (4 * 1) ' ') = "    " := by decide
  rw [Emitter.indented, blanks, text, String.append_assoc]

theorem declaredIndex?_eachHead (level number : Nat) (container : String) :
    declaredIndex? (Placed.text ⟨level, .eachHead number container⟩) = some (loopIndex number) :=
  declaredIndex?_forEachHead (isWordRest_of_mem_loopIndex number) level (ident container)

theorem accessedIndex?_element (level number : Nat) (ty : Ty) (name container : String) :
    accessedIndex? (Placed.text ⟨level, .element number ty name container⟩) =
      some (loopIndex number) := by
  obtain ⟨c, more, spelled, visible, _⟩ :=
    ((ty.opensOtherwise_declarator (ident name)).append " = ").append (ident container)
  exact accessedIndex?_access (isWordRest_of_mem_loopIndex number) spelled visible level

/-- A line declares an index if it is the head of a loop over an array, and not otherwise. -/
theorem declaredIndex?_text (line : Line) (named : ∀ name ∈ line.names, isIdentifier name = true)
    (level : Nat) :
    declaredIndex? (Placed.text ⟨level, line⟩) = line.number?.map loopIndex := by
  cases line with
  | fixed text known =>
    have others : ∀ text ∈ fixedTexts, ¬ "for (int ".toList <+: unindented text := by decide
    exact declaredIndex?_eq_none (others text known) level
  | assign step =>
    exact declaredIndex?_named (named step.target List.mem_cons_self)
      (by simp [text, Assign.cText]; rfl) (by decide : isWordRest ' ' = false) level
  | call callee args =>
    exact declaredIndex?_named (named callee List.mem_cons_self)
      (by simp [text, C.call]; rfl) (by decide : isWordRest '(' = false) level
  | ret inEntryPoint value =>
    have opens : OpensOtherwise (returnLine inEntryPoint value) := by
      cases value with
      | none => cases inEntryPoint <;> exact opensOtherwise_spelled (by decide)
      | some value => exact ((opensOtherwise_spelled (by decide)).append _).append _
    exact opens.declaredIndex? level
  | ifHead condition =>
    exact OpensOtherwise.declaredIndex?
      ((((opensOtherwise_spelled (by decide)).append _).append _).append _) level
  | whileHead condition =>
    exact OpensOtherwise.declaredIndex?
      ((((opensOtherwise_spelled (by decide)).append _).append _).append _) level
  | forHead start condition step =>
    obtain ⟨front, _⟩ := List.forall_mem_append.mp named
    exact declaredIndex?_forHead condition step (List.forall_mem_append.mp front).1 level
  | eachHead number container => exact declaredIndex?_eachHead level number container
  | element number ty name container =>
    exact OpensOtherwise.declaredIndex? (((((Ty.opensOtherwise_declarator ty _).append _).append
      _).append _).append _ |>.append _) level
  | shared ty names =>
    exact OpensOtherwise.declaredIndex? (((ty.opensOtherwise_cType.append _).append _).append _) level
  | pointer params result name =>
    exact OpensOtherwise.declaredIndex? ((Ty.opensOtherwise_declarator _ _).append _) level
  | prototype f => exact OpensOtherwise.declaredIndex? (f.opensOtherwise_cSignature.append _) level
  | header f => exact OpensOtherwise.declaredIndex? (f.opensOtherwise_cSignature.append _) level
  | member ty =>
    have opens := (ty.opensOtherwise_declarator "*data").append ";"
    refine declaredIndex?_eq_none ?_ level
    rw [text_member, unindented_indented_eq]
    exact opens.not_for
  | defined ty =>
    exact OpensOtherwise.declaredIndex?
      (((opensOtherwise_spelled (by decide)).append _).append _) level

/-- A line takes an element with an index if it is the first one inside a loop over an array,
and not otherwise. -/
theorem accessedIndex?_text (line : Line) (named : ∀ name ∈ line.names, isIdentifier name = true)
    (level : Nat) :
    accessedIndex? (Placed.text ⟨level, line⟩) = line.accessed?.map loopIndex := by
  cases line with
  | fixed text known =>
    have others : ∀ text ∈ fixedTexts, ¬ "];".toList <:+ text.toList := by decide
    exact accessedIndex?_eq_none (others text known) level
  | assign step =>
    have value := step.value.endsOtherwise (List.forall_mem_cons.mp named).2
    exact (value.after _).accessedIndex? level
  | call callee args =>
    have closing : EndsOtherwise ")" := endsOtherwise_spelled (by decide)
    exact (closing.after _).accessedIndex? level
  | ret inEntryPoint value =>
    cases value with
    | none =>
      have others : ¬ "];".toList <:+ (returnLine inEntryPoint none).toList := by
        cases inEntryPoint <;> decide
      exact accessedIndex?_eq_none others level
    | some value =>
      have returned := value.endsOtherwise (by simpa [names] using named)
      exact (returned.after "return ").accessedIndex? level
  | ifHead condition => exact accessedIndex?_opening _ level
  | whileHead condition => exact accessedIndex?_opening _ level
  | forHead start condition step => exact accessedIndex?_opening _ level
  | eachHead number container => exact accessedIndex?_opening _ level
  | element number ty name container => exact accessedIndex?_element level number ty name container
  | shared ty names =>
    have listed : EndsOtherwise (ty.cType ++ " " ++ ", ".intercalate (names.map (declared ty))) := by
      cases names with
      | nil => exact ⟨ty.cType.toList, ' ', by simp, by decide⟩
      | cons first others =>
        have each : ∀ text ∈ (first :: others).map (declared ty), EndsOtherwise text :=
          List.forall_mem_map.mpr fun name member => endsOtherwise_declared ty (named name member)
        exact (endsOtherwise_intercalate (by simp) each).after _
    exact listed.accessedIndex? level
  | pointer params result name =>
    have closing : EndsOtherwise ")" := endsOtherwise_spelled (by decide)
    exact (closing.after _).accessedIndex? level
  | prototype f =>
    have closing : EndsOtherwise ")" := endsOtherwise_spelled (by decide)
    exact (closing.after _).accessedIndex? level
  | header f => exact accessedIndex?_opening _ level
  | member ty =>
    have data : EndsOtherwise "*data" := endsOtherwise_spelled (by decide)
    exact ((ty.endsOtherwise_declarator data).after "    ").accessedIndex? level
  | defined ty =>
    exact ((endsOtherwise_isWord ty.isWord_cType).after _).accessedIndex? level

end C.Line

namespace C.Placed

theorem headIndex?_eq (placed : Placed) : placed.headIndex? = placed.line.number?.map loopIndex := by
  obtain ⟨level, line⟩ := placed
  cases line with
  | eachHead number container => exact Line.declaredIndex?_eachHead level number container
  | _ => rfl

theorem elementIndex?_eq (placed : Placed) :
    placed.elementIndex? = placed.line.accessed?.map loopIndex := by
  obtain ⟨level, line⟩ := placed
  cases line with
  | element number ty name container =>
    exact Line.accessedIndex?_element level number ty name container
  | _ => rfl

end C.Placed

/-- A line whose text alone says whether it opens a loop over an array, and whether it takes
an element. -/
structure C.Placed.Tells (placed : Placed) : Prop where
  head : declaredIndex? placed.text = placed.line.number?.map loopIndex
  element : accessedIndex? placed.text = placed.line.accessed?.map loopIndex

theorem C.Line.tells (line : Line) (named : ∀ name ∈ line.names, isIdentifier name = true)
    (level : Nat) : Placed.Tells ⟨level, line⟩ :=
  ⟨line.declaredIndex?_text named level, line.accessedIndex?_text named level⟩

namespace Function

/-- The lines of a function tell loops apart, if the names in its body are C identifiers. -/
theorem tells (f : Function) (named : ∀ name ∈ Stmt.namesAll f.body, isIdentifier name = true)
    (level : Nat) : ∀ placed ∈ f.placed level, placed.Tells := by
  have fixed : ∀ line : Line, line.names = [] → ∀ depth, Placed.Tells ⟨depth, line⟩ := by
    intro line bare
    exact line.tells (by simp [bare])
  -- Whatever the function is called, its header is not taken for a loop.
  have header : ∀ depth, Placed.Tells ⟨depth, .header f⟩ := fun depth =>
    ⟨(f.opensOtherwise_cSignature.append " \x7b").declaredIndex? depth,
      accessedIndex?_opening f.cSignature depth⟩
  have body : ∀ stmt ∈ Stmt.partsAll f.body, ∀ line, stmt.Own line →
      ∀ depth, Placed.Tells ⟨depth, line⟩ := by
    intro stmt part line own
    refine line.tells fun name member => named name ?_
    exact Stmt.names_partsAll f.body stmt part name (own.names name member)
  have each := f.each_placed header (fixed .close rfl) (fixed .blank rfl) (fixed .returnZero rfl)
    body level
  exact fun placed member => each placed member placed.level

/-- The loops over arrays in a function declare the indices from zero on, in the order of
their heads and each its own, and take their elements with these. If its names are C identifiers,
the text alone shows so. -/
theorem loop_indices (f : Function) (e : Emitter) :
    (f.emit e).lines.toList = e.lines.toList ++ (f.placed e.indent).map Placed.text ∧
    Indexed Placed.headIndex? Placed.elementIndex? (f.placed e.indent) (Stmt.eachLoopsAll f.body) ∧
    ((∀ name ∈ Stmt.namesAll f.body, isIdentifier name = true) →
      Indexed declaredIndex? accessedIndex? ((f.placed e.indent).map Placed.text)
        (Stmt.eachLoopsAll f.body)) := by
  refine ⟨f.emit_placed e, ?_, fun named => ?_⟩
  · have known := f.indexed e.indent id (fun placed _ => placed.headIndex?_eq)
      (fun placed _ => placed.elementIndex?_eq)
    rwa [List.map_id] at known
  · have tells := f.tells named e.indent
    exact f.indexed e.indent Placed.text (fun placed member => (tells placed member).head)
      (fun placed member => (tells placed member).element)

/-- A loop inside a loop, and one behind both. -/
theorem loop_indices_nested :
    let inner := Stmt.forEach .number "x" "row" [.assign ⟨"x", .number 1⟩]
    let f : Function := ⟨"sum", [⟨"rows", .array (.array .number)⟩], .void,
      [.forEach (.array .number) "row" "rows" [inner], .forEach (.array .number) "row" "rows" []]⟩
    (∀ name ∈ Stmt.namesAll f.body, isIdentifier name = true) ∧
      (f.emit .fresh).lines.toList.filterMap declaredIndex? = ["caju_i0", "caju_i1", "caju_i2"] := by
  intro inner f
  have named : ∀ name ∈ Stmt.namesAll f.body, isIdentifier name = true := by decide
  obtain ⟨written, _, read⟩ := Function.loop_indices f .fresh
  refine ⟨named, ?_⟩
  rw [written]
  exact (read named).declared.trans (by decide)

end Function

end Caju
