import Caju.Path
import Mathlib.Data.List.DropRight
import Mathlib.Data.List.Basic

/-! The files that paths name. What a path leads to depends on its route alone: where it starts,
and the components that lead somewhere. The last of these is the name of a file, and the parent is
the shortest beginning of the path that leads where the others do. Main statements: this is how
paths are taken apart (`splitFile?_eq_some_iff`), and a name put below the parent is found there
again (`Names.sibling`). -/

namespace Caju.Path

/-- Where a path starts: at the root, at a dot, or nowhere in particular. -/
def start (path : OsText) : OsText :=
  if path.head? = some slash then [slash]
  else if (components path).head? = some [dot] then [dot]
  else []

/-- Where a path starts, and the components that lead somewhere from there. -/
def route (path : OsText) : List OsText :=
  start path :: (components path).filter (!isIdle ·)

/-- A path names a file in a parent. The route to the file goes through the parent, which is a
beginning of the path and no longer than its route requires. -/
structure Names (path parent name : OsText) : Prop where
  leads : route path = route parent ++ [name]
  file : name ≠ [dot, dot]
  begins : parent <+: path
  shortest : ∀ shorter, shorter <+: parent → route shorter = route parent → shorter = parent

/-! ### Components and roots -/

/-- Components hold no slash. -/
theorem slash_not_mem {text component : OsText} (member : component ∈ components text) :
    slash ∉ component := by
  induction text generalizing component with
  | nil =>
    have empty : component = [] := by simpa [components] using member
    simp [empty]
  | cons c rest ih =>
    unfold components at member
    by_cases divides : c = slash
    · rw [if_pos divides] at member
      rcases List.mem_cons.mp member with empty | later
      · simp [empty]
      · exact ih later
    · rw [if_neg divides] at member
      cases parts : components rest with
      | nil => exact absurd parts (components_ne_nil rest)
      | cons first others =>
        rw [parts] at ih
        simp only [parts] at member
        rcases List.mem_cons.mp member with same | later
        · have clear := ih List.mem_cons_self
          have other : slash ≠ c := fun equal => divides equal.symm
          simp [same, other, clear]
        · exact ih (List.mem_cons_of_mem _ later)

theorem components_of_clear {name : OsText} (clear : slash ∉ name) : components name = [name] := by
  induction name with
  | nil => rfl
  | cons c rest ih =>
    obtain ⟨other, later⟩ := not_or.mp (List.mem_cons.not.mp clear)
    have divides : c ≠ slash := fun equal => other equal.symm
    simp [components, divides, ih later]

/-- A slash divides the components on its two sides. -/
theorem components_slash (front back : OsText) :
    components (front ++ slash :: back) = components front ++ components back := by
  induction front with
  | nil => simp [components]
  | cons c rest ih =>
    by_cases divides : c = slash
    · simp [components, divides, ih]
    · cases parts : components rest with
      | nil => exact absurd parts (components_ne_nil rest)
      | cons first others => simp [components, divides, ih, parts]

theorem join_cons (part : OsText) {rest : List OsText} (more : rest ≠ []) :
    join (part :: rest) = part ++ slash :: join rest := by
  cases rest with
  | nil => exact absurd rfl more
  | cons next rest => rfl

theorem components_join {parts : List OsText} (some : parts ≠ [])
    (clear : ∀ part ∈ parts, slash ∉ part) : components (join parts) = parts := by
  induction parts with
  | nil => exact absurd rfl some
  | cons part rest ih =>
    obtain ⟨first, others⟩ := List.forall_mem_cons.mp clear
    by_cases last : rest = []
    · rw [last]
      exact components_of_clear first
    · rw [join_cons part last, components_slash, components_of_clear first, ih last others]
      rfl

/-- Joined parts are a beginning of more parts joined. -/
theorem join_begins (front back : List OsText) : join front <+: join (front ++ back) := by
  induction front with
  | nil => exact List.nil_prefix
  | cons part rest ih =>
    by_cases last : rest = []
    · subst last
      by_cases ended : back = []
      · subst ended
        exact List.prefix_rfl
      · rw [List.singleton_append, join_cons part ended]
        exact List.prefix_append part _
    · have more : rest ++ back ≠ [] := List.append_ne_nil_of_left_ne_nil last back
      rw [List.cons_append, join_cons part last, join_cons part more]
      exact (List.prefix_append_right_inj part).mpr (List.cons_prefix_cons.mpr ⟨rfl, ih⟩)

/-- Two texts in a row share the component between them. -/
theorem components_append (front : OsText) : ∃ before last, components front = before ++ [last] ∧
    ∀ {back first : OsText} {after : List OsText}, components back = first :: after →
      components (front ++ back) = before ++ (last ++ first) :: after := by
  induction front with
  | nil => exact ⟨[], [], rfl, fun parts => parts⟩
  | cons c rest ih =>
    obtain ⟨before, last, parts, joined⟩ := ih
    by_cases divides : c = slash
    · refine ⟨[] :: before, last, by simp [components, divides, parts], fun split => ?_⟩
      simp [components, divides, joined split]
    · cases before with
      | nil =>
        refine ⟨[], c :: last, by simp [components, divides, parts], fun split => ?_⟩
        simp [components, divides, joined split]
      | cons component before =>
        refine ⟨(c :: component) :: before, last, by simp [components, divides, parts],
          fun split => ?_⟩
        simp [components, divides, joined split]

theorem isIdle_append {front : OsText} (busy : isIdle front = false) (back : OsText) :
    isIdle (front ++ back) = false := by
  obtain ⟨filled, apart⟩ : front ≠ [] ∧ front ≠ [dot] := by simpa [isIdle] using busy
  cases front with
  | nil => exact absurd rfl filled
  | cons c rest =>
    cases rest with
    | nil =>
      have other : c ≠ dot := fun same => apart (by rw [same])
      simp [isIdle, other]
    | cons d rest => simp [isIdle]

/-- The ways a path can start. -/
theorem splitRoot_cases (path : OsText) :
    (∃ rest, path = slash :: rest) ∨ path = [dot] ∨ (∃ rest, path = dot :: slash :: rest) ∨
      splitRoot path = ([], path) := by
  cases path with
  | nil => exact .inr (.inr (.inr rfl))
  | cons first rest =>
    by_cases rooted : first = slash
    · exact .inl ⟨rest, by rw [rooted]⟩
    · by_cases dotted : first = dot ∧ (rest = [] ∨ rest.head? = some slash)
      · obtain ⟨rfl, ended | goes⟩ := dotted
        · exact .inr (.inl (by rw [ended]))
        · obtain ⟨rest, rfl⟩ := List.head?_eq_some_iff.mp goes
          exact .inr (.inr (.inl ⟨rest, rfl⟩))
      · refine .inr (.inr (.inr ?_))
        simp only [splitRoot, if_neg rooted, if_neg dotted]

theorem splitRoot_append (path : OsText) : (splitRoot path).1 ++ (splitRoot path).2 = path := by
  rcases splitRoot_cases path with ⟨rest, rfl⟩ | rfl | ⟨rest, rfl⟩ | rootless
  · simp
  · simp
  · simp
  · simp [rootless]

/-- The part of a path that always stays is where it starts. -/
theorem splitRoot_start (path : OsText) : (splitRoot path).1 = start path := by
  rcases splitRoot_cases path with ⟨rest, rfl⟩ | rfl | ⟨rest, rfl⟩ | rootless
  · simp [start]
  · simp [start, components]
  · simp [start, components]
  · rw [rootless]
    have unrooted : path.head? ≠ some slash := by
      intro rooted
      obtain ⟨rest, rfl⟩ := List.head?_eq_some_iff.mp rooted
      simp at rootless
    have undotted : (components path).head? ≠ some [dot] := by
      intro dotted
      obtain ⟨others, parts⟩ := List.head?_eq_some_iff.mp dotted
      have whole := join_components path
      rw [parts] at whole
      by_cases ended : others = []
      · rw [← whole, ended, join] at rootless
        simp at rootless
      · rw [← whole, join_cons [dot] ended] at rootless
        simp at rootless
    rw [start, if_neg unrooted, if_neg undotted]

/-- Nothing leads anywhere in the part of a path that always stays. -/
theorem filter_components_splitRoot (path : OsText) :
    (components path).filter (!isIdle ·) =
      (components (splitRoot path).2).filter (!isIdle ·) := by
  rcases splitRoot_cases path with ⟨rest, rfl⟩ | rfl | ⟨rest, rfl⟩ | rootless
  · simp [splitRoot, components, isIdle]
  · rfl
  · simp [splitRoot, components, isIdle]
  · rw [rootless]

theorem route_eq (path : OsText) :
    route path = (splitRoot path).1 :: (components (splitRoot path).2).filter (!isIdle ·) := by
  rw [route, filter_components_splitRoot, splitRoot_start]

/-- A beginning of a path that starts nowhere in particular does so too, but for a lone dot. -/
theorem splitRoot_of_begins {path front : OsText} (rootless : (splitRoot path).1 = [])
    (begins : front <+: path) (undotted : front ≠ [dot]) : splitRoot front = ([], front) := by
  obtain ⟨back, rfl⟩ := begins
  rcases splitRoot_cases front with ⟨rest, rfl⟩ | rfl | ⟨rest, rfl⟩ | done
  · simp [splitRoot] at rootless
  · exact absurd rfl undotted
  · simp [splitRoot] at rootless
  · exact done

/-- A component that leads somewhere is not in the leading part of a path. -/
theorem components_splitRoot {path name : OsText} {before after : List OsText}
    (busy : isIdle name = false)
    (parts : components (splitRoot path).2 = before ++ name :: after) :
    ∃ before, components path = before ++ name :: after := by
  rcases splitRoot_cases path with ⟨rest, rfl⟩ | rfl | ⟨rest, rfl⟩ | rootless
  · rw [splitRoot_slash] at parts
    exact ⟨[] :: before, by simp only [components, if_true, parts, List.cons_append]⟩
  · have nameless : name = [] := by
      cases before with
      | nil => exact (List.cons.inj parts).1.symm
      | cons first before => simp [components] at parts
    simp [nameless, isIdle] at busy
  · have divided : components (slash :: rest) = [] :: components rest := by simp [components]
    have led : components (dot :: slash :: rest) = [dot] :: components rest := by simp [components]
    rw [splitRoot_dot_slash, divided] at parts
    cases before with
    | nil =>
      have nameless : name = [] := (List.cons.inj parts).1.symm
      simp [nameless, isIdle] at busy
    | cons first before => exact ⟨[dot] :: before, by rw [led, (List.cons.inj parts).2]; rfl⟩
  · rw [rootless] at parts
    exact ⟨before, parts⟩

/-! ### Taking paths apart -/

/-- How a path is taken apart at its last component that leads somewhere. -/
theorem splitLast?_eq_some {path parent name : OsText}
    (split : splitLast? path = some (parent, name)) :
    ∃ kept gap after, components (splitRoot path).2 = kept ++ gap ++ name :: after ∧
      parent = (splitRoot path).1 ++ join kept ∧
      (∀ part ∈ gap, isIdle part = true) ∧ (∀ part ∈ after, isIdle part = true) ∧
      isIdle name = false ∧ ∀ some : kept ≠ [], isIdle (kept.getLast some) = false := by
  unfold splitLast? at split
  dsimp only at split
  cases rest : (components (splitRoot path).2).reverse.dropWhile isIdle with
  | nil => simp [rest] at split
  | cons found before =>
    obtain ⟨rfl, rfl⟩ : (splitRoot path).1 ++ join (before.dropWhile isIdle).reverse = parent ∧
        found = name := by
      simpa [rest] using split
    have ends : (components (splitRoot path).2).rdropWhile isIdle = before.reverse ++ [found] := by
      rw [List.rdropWhile, rest, List.reverse_cons]
    have kept : before.reverse.rdropWhile isIdle = (before.dropWhile isIdle).reverse := by
      rw [List.rdropWhile, List.reverse_reverse]
    refine ⟨before.reverse.rdropWhile isIdle, before.reverse.rtakeWhile isIdle,
      (components (splitRoot path).2).rtakeWhile isIdle, ?_, by rw [kept], ?_, ?_, ?_, ?_⟩
    · have whole := List.rdropWhile_append_rtakeWhile (p := isIdle)
        (l := components (splitRoot path).2)
      rw [ends, List.append_assoc] at whole
      rw [List.rdropWhile_append_rtakeWhile]
      exact whole.symm
    · exact fun part => List.mem_rtakeWhile_imp
    · exact fun part => List.mem_rtakeWhile_imp
    · have some : (components (splitRoot path).2).rdropWhile isIdle ≠ [] := by simp [ends]
      have stopped := List.rdropWhile_last_not isIdle _ some
      simpa [ends] using stopped
    · intro some
      simpa using List.rdropWhile_last_not isIdle _ some

/-- What is kept of a path starts where the path does. -/
theorem splitRoot_kept {path : OsText} {kept back : List OsText}
    (parts : components (splitRoot path).2 = kept ++ back)
    (ends : ∀ some : kept ≠ [], isIdle (kept.getLast some) = false) :
    splitRoot ((splitRoot path).1 ++ join kept) = ((splitRoot path).1, join kept) := by
  have clear : ∀ part ∈ kept, slash ∉ part := by
    intro part member
    exact slash_not_mem (parts ▸ List.mem_append_left back member)
  by_cases nothing : kept = []
  · subst nothing
    rcases splitRoot_cases path with ⟨rest, rfl⟩ | rfl | ⟨rest, rfl⟩ | rootless
    · rfl
    · rfl
    · rfl
    · rw [rootless]
      rfl
  have busy := ends nothing
  rcases splitRoot_cases path with ⟨rest, rfl⟩ | rfl | ⟨rest, rfl⟩ | rootless
  · rfl
  · -- behind a lone dot there is nothing to keep
    have alone : [[]] = kept ++ back := parts
    obtain ⟨rfl, -⟩ : kept = [[]] ∧ back = [] := by
      simpa [nothing, eq_comm, List.append_eq_singleton_iff] using alone
    simp [isIdle] at busy
  · have divided : [] :: components rest = kept ++ back := by
      simpa [splitRoot, components] using parts
    cases kept with
    | nil => exact absurd rfl nothing
    | cons first others =>
      obtain rfl : [] = first := (List.cons.inj divided).1
      have more : others ≠ [] := by
        rintro rfl
        simp [isIdle] at busy
      rw [join_cons [] more]
      rfl
  · rw [rootless] at parts ⊢
    have begins : join kept <+: path := by
      have front := join_begins kept back
      rwa [← parts, join_components] at front
    have undotted : join kept ≠ [dot] := by
      intro alone
      have dotted : kept = [[dot]] := by
        rw [← components_join nothing clear, alone]
        rfl
      simp [dotted, isIdle] at busy
    rw [List.nil_append]
    exact splitRoot_of_begins (by rw [rootless]) begins undotted

theorem filter_components_join {parts : List OsText} (clear : ∀ part ∈ parts, slash ∉ part) :
    (components (join parts)).filter (!isIdle ·) = parts.filter (!isIdle ·) := by
  by_cases nothing : parts = []
  · subst nothing
    rfl
  · rw [components_join nothing clear]

/-- A path whose last component leads somewhere leads further than any beginning of it. -/
theorem eq_of_filter_components {path front last : OsText} {before : List OsText}
    (parts : components path = before ++ [last]) (busy : isIdle last = false)
    (begins : front <+: path)
    (same : (components front).filter (!isIdle ·) = (components path).filter (!isIdle ·)) :
    front = path := by
  obtain ⟨back, rfl⟩ := begins
  obtain ⟨early, cut, ends, joined⟩ := components_append front
  cases split : components back with
  | nil => exact absurd split (components_ne_nil back)
  | cons first after =>
    have whole := joined split
    have tail : [cut].filter (!isIdle ·) = ((cut ++ first) :: after).filter (!isIdle ·) := by
      rw [ends, whole, List.filter_append, List.filter_append] at same
      exact List.append_cancel_left same
    rw [parts] at whole
    cases after using List.reverseRecOn with
    | nil =>
      obtain rfl : last = cut ++ first := by simpa using (List.append_inj' whole rfl).2
      have kept : cut ++ first ∈ [cut].filter (!isIdle ·) := by simp [tail, busy]
      have nothing : first = [] := by simpa using (List.mem_filter.mp kept).1
      have ended : back = [] := by rw [← join_components back, split, nothing]; rfl
      rw [ended, List.append_nil]
    | append_singleton others final =>
      -- behind the cut there would be a component more
      obtain rfl : last = final := by
        rw [← List.cons_append, ← List.append_assoc] at whole
        simpa using (List.append_inj' whole rfl).2
      cases idle : isIdle cut with
      | true =>
        have present : last ∈ ((cut ++ first) :: (others ++ [last])).filter (!isIdle ·) := by
          simp [busy]
        simp [← tail, idle] at present
      | false =>
        have further := isIdle_append idle first
        have lengths := congrArg List.length tail
        simp [idle, further, busy] at lengths

/-- A path that is taken apart names the file it is taken apart at. -/
theorem names_of_splitLast? {path parent name : OsText}
    (split : splitLast? path = some (parent, name)) (file : name ≠ [dot, dot]) :
    Names path parent name := by
  obtain ⟨kept, gap, after, parts, rfl, gapIdle, afterIdle, busy, ends⟩ := splitLast?_eq_some split
  have clear : ∀ part ∈ kept, slash ∉ part := by
    intro part member
    have present : part ∈ components (splitRoot path).2 := by simp [parts, member]
    exact slash_not_mem present
  have split : splitRoot ((splitRoot path).1 ++ join kept) = ((splitRoot path).1, join kept) := by
    rw [List.append_assoc] at parts
    exact splitRoot_kept parts ends
  have way : route ((splitRoot path).1 ++ join kept) =
      (splitRoot path).1 :: kept.filter (!isIdle ·) := by
    rw [route_eq, split, filter_components_join clear]
  constructor
  · have gapless : gap.filter (!isIdle ·) = [] := by simpa using gapIdle
    have trailless : after.filter (!isIdle ·) = [] := by simpa using afterIdle
    rw [way, route_eq path, parts]
    simp [gapless, trailless, busy]
  · exact file
  · have front := join_begins kept (gap ++ name :: after)
    rw [← List.append_assoc, ← parts, join_components] at front
    have whole := (List.prefix_append_right_inj (splitRoot path).1).mpr front
    rwa [splitRoot_append] at whole
  · intro shorter begins same
    obtain ⟨root, names⟩ := List.cons.inj same
    by_cases nothing : kept = []
    · -- nothing shorter starts at the same place
      subst nothing
      rw [← splitRoot_start, ← splitRoot_start, split] at root
      have stays : (splitRoot path).1 <+: shorter := by
        rw [← root]
        exact ⟨_, splitRoot_append shorter⟩
      rw [join, List.append_nil] at begins ⊢
      exact begins.eq_of_length_le stays.length_le
    · have last : components (join kept) = kept.dropLast ++ [kept.getLast nothing] := by
        rw [components_join nothing clear, List.dropLast_append_getLast]
      obtain ⟨before, ended⟩ : ∃ before, components ((splitRoot path).1 ++ join kept) =
          before ++ [kept.getLast nothing] :=
        components_splitRoot (ends nothing) (by rw [split, last])
      exact eq_of_filter_components ended (ends nothing) begins names

namespace Names

variable {path parent name : OsText}

/-- The name of a file is a component of its path; only idle ones follow it. -/
theorem components (names : Names path parent name) : isIdle name = false ∧
    ∃ before after, components path = before ++ name :: after ∧
      ∀ part ∈ after, isIdle part = true := by
  obtain ⟨-, parts⟩ := List.cons.inj names.leads
  obtain ⟨early, late, whole, -, last⟩ := List.filter_eq_append_iff.mp parts
  obtain ⟨gap, after, ends, -, busy, idle⟩ := List.filter_eq_cons_iff.mp last
  refine ⟨by simpa using busy, early ++ gap, after, ?_, by simpa using idle⟩
  rw [whole, ends, List.append_assoc]

/-- A path names at most one file, in one parent. -/
theorem unique (names : Names path parent name) {parent' name' : OsText}
    (others : Names path parent' name') : parent = parent' ∧ name = name' := by
  obtain ⟨same, last⟩ := List.append_inj' (names.leads.symm.trans others.leads) rfl
  refine ⟨?_, by simpa using last⟩
  rcases List.prefix_or_prefix_of_prefix names.begins others.begins with shorter | longer
  · exact others.shortest parent shorter same
  · exact (names.shortest parent' longer same.symm).symm

end Names

/-- A path that is not taken apart leads nowhere beyond its start. -/
theorem route_of_splitLast?_none {path : OsText} (nothing : splitLast? path = none) :
    route path = [(splitRoot path).1] := by
  have idle : (components (splitRoot path).2).reverse.dropWhile isIdle = [] := by
    unfold splitLast? at nothing
    dsimp only at nothing
    split at nothing
    · assumption
    · cases nothing
  have none : (components (splitRoot path).2).filter (!isIdle ·) = [] := by
    simpa using List.dropWhile_eq_nil_iff.mp idle
  rw [route_eq, none]

theorem route_of_splitLast? {path parent name : OsText}
    (split : splitLast? path = some (parent, name)) : ∃ before, route path = before ++ [name] := by
  obtain ⟨kept, gap, after, parts, -, -, afterIdle, busy, -⟩ := splitLast?_eq_some split
  have trailless : after.filter (!isIdle ·) = [] := by simpa using afterIdle
  refine ⟨(splitRoot path).1 :: (kept ++ gap).filter (!isIdle ·), ?_⟩
  rw [route_eq, parts, List.filter_append]
  simp [busy, trailless]

/-- A path is taken apart where it names a file. -/
theorem splitFile?_eq_some_iff {path parent name : OsText} :
    splitFile? path = some (parent, name) ↔ Names path parent name := by
  constructor
  · intro split
    obtain ⟨last, file⟩ := Option.filter_eq_some_iff.mp split
    exact names_of_splitLast? last (by simpa using file)
  · intro names
    cases last : splitLast? path with
    | none =>
      have start := route_of_splitLast?_none last
      have lengths := congrArg List.length (start.symm.trans names.leads)
      simp [route] at lengths
    | some found =>
      obtain ⟨above, other⟩ := found
      obtain ⟨before, ends⟩ := route_of_splitLast? last
      obtain rfl : other = name := by
        simpa using (List.append_inj' (ends.symm.trans names.leads) rfl).2
      obtain ⟨rfl, -⟩ := names.unique (names_of_splitLast? last names.file)
      exact Option.filter_eq_some_iff.mpr ⟨last, by simpa using names.file⟩

/-! ### Names below a parent -/

/-- What follows does not change where a path starts. -/
theorem splitRoot_of_rootless {front : OsText} (rootless : splitRoot front = ([], front))
    (some : front ≠ []) (back : OsText) : (splitRoot (front ++ back)).1 = [] := by
  obtain ⟨c, rest, rfl⟩ := List.exists_cons_of_ne_nil some
  rcases splitRoot_cases (c :: rest ++ back) with ⟨_, rooted⟩ | alone | ⟨_, dotted⟩ | done
  · obtain ⟨rfl, -⟩ := List.cons.inj rooted
    simp [splitRoot] at rootless
  · obtain ⟨rfl, ended⟩ := List.cons.inj alone
    obtain ⟨rfl, -⟩ := List.append_eq_nil_iff.mp ended
    simp [splitRoot] at rootless
  · obtain ⟨rfl, more⟩ := List.cons.inj dotted
    cases rest with
    | nil => simp [splitRoot] at rootless
    | cons d rest =>
      obtain ⟨rfl, -⟩ := List.cons.inj more
      simp [splitRoot] at rootless
  · rw [done]

theorem splitRoot_of_clear {name : OsText} (clear : slash ∉ name) (busy : isIdle name = false) :
    splitRoot name = ([], name) := by
  rcases splitRoot_cases name with ⟨rest, rfl⟩ | rfl | ⟨rest, rfl⟩ | done
  · simp at clear
  · simp [isIdle] at busy
  · simp at clear
  · exact done

theorem splitRoot_child (parent : OsText) {name : OsText} (clear : slash ∉ name)
    (busy : isIdle name = false) : (splitRoot (child parent name)).1 = (splitRoot parent).1 := by
  rcases splitRoot_cases parent with ⟨rest, rfl⟩ | rfl | ⟨rest, rfl⟩ | rootless
  · unfold child
    split <;> rfl
  · rfl
  · unfold child
    split <;> rfl
  · rw [rootless]
    by_cases nothing : parent = []
    · subst nothing
      have alone : child [] name = name := rfl
      rw [alone, splitRoot_of_clear clear busy]
    · unfold child
      split
      · exact splitRoot_of_rootless rootless nothing name
      · exact splitRoot_of_rootless rootless nothing (slash :: name)

theorem filter_components_child (parent : OsText) {name : OsText} (clear : slash ∉ name)
    (busy : isIdle name = false) :
    (components (child parent name)).filter (!isIdle ·) =
      (components parent).filter (!isIdle ·) ++ [name] := by
  have nothing : (components []).filter (!isIdle ·) = [] := rfl
  unfold child
  by_cases joined : (parent == [] || parent.getLast? == some slash) = true
  · rw [if_pos joined]
    rcases Bool.or_eq_true _ _ |>.mp joined with empty | ends
    · obtain rfl : parent = [] := by simpa using empty
      simp [components_of_clear clear, busy, nothing]
    · obtain ⟨front, rfl⟩ := List.getLast?_eq_some_iff.mp (by simpa using ends)
      rw [List.append_assoc, List.singleton_append, components_slash, components_slash,
        components_of_clear clear]
      simp [busy, nothing]
  · rw [if_neg joined, components_slash, components_of_clear clear]
    simp [busy]

/-- A name below a parent is one step beyond it. -/
theorem route_child (parent : OsText) {name : OsText} (clear : slash ∉ name)
    (busy : isIdle name = false) : route (child parent name) = route parent ++ [name] := by
  rw [route, ← splitRoot_start, splitRoot_child parent clear busy,
    filter_components_child parent clear busy, splitRoot_start]
  rfl

/-- Where a path names a file, another name can stand in its place. -/
theorem Names.sibling {path parent name other : OsText} (names : Names path parent name)
    (clear : slash ∉ other) (busy : isIdle other = false) (file : other ≠ [dot, dot]) :
    Names (child parent other) parent other where
  leads := route_child parent clear busy
  file := file
  begins := by
    unfold child
    split
    · exact List.prefix_append parent other
    · exact List.prefix_append parent _
  shortest := names.shortest

end Caju.Path
