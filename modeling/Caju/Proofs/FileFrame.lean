import Caju.CommandLine.Dialogue
import Caju.Proofs.CommandLines
import Caju.Proofs.FileWays
import Caju.Proofs.SourcePaths

/-! What a run does to the files. Writing changes the one file that its path leads to, under all
names it goes by, or else creates one, and changes no way to any other. Checking writes nothing,
building writes the one file it was asked for or the one beside its source, and a program that does
not load ends either run before anything is written. -/

namespace Caju

namespace FileTree

variable {tree after : FileTree} {path : OsText} {place other : Location} {number : Nat}
  {content held : ByteArray}

/-! ### Changing a tree -/

theorem number_lt (file : tree.node? place = some (.file number)) :
    number < tree.contents.length := by
  unfold node? at file
  split at file
  · cases file
  · obtain ⟨before, behind, entries, -⟩ := List.lookup_eq_some_iff.mp file
    have member : (place, FileNode.file number) ∈ tree.nodes := by simp [entries]
    exact of_decide_eq_true (tree.numbered _ member)

theorem node?_create (free : tree.node? place = none) (content : ByteArray) (other : Location) :
    (tree.create place content).node? other =
      if other = place then some (.file tree.contents.length) else tree.node? other := by
  have below : place ≠ [] := by
    rintro rfl
    cases free
  by_cases same : other = place
  · subst same
    simp [node?, create, below, Association.lookup_insert]
  · simp [node?, create, same, Association.lookup_insert]

theorem content_create (tree : FileTree) (place : Location) (content : ByteArray) (number : Nat) :
    (tree.create place content).content number =
      if number = tree.contents.length then content else tree.content number := by
  have held : (tree.contents ++ [content]).getD number .empty =
      if number = tree.contents.length then content else tree.contents.getD number .empty := by
    rw [List.getD_eq_getElem?_getD, List.getD_eq_getElem?_getD, List.getElem?_append]
    split
    · rename_i early
      rw [if_neg (Nat.ne_of_lt early)]
    · rename_i late
      by_cases new : number = tree.contents.length
      · simp [new]
      · have beyond : tree.contents.length < number := by omega
        have nothing : 1 ≤ number - tree.contents.length := by omega
        rw [if_neg new, List.getElem?_eq_none nothing, List.getElem?_eq_none (Nat.le_of_lt beyond)]
  exact held

theorem content_overwrite (file : tree.node? place = some (.file number)) (content : ByteArray)
    (other : Nat) :
    (tree.overwrite number content).content other =
      if other = number then content else tree.content other := by
  have held : (tree.contents.set number content).getD other .empty =
      if other = number then content else tree.contents.getD other .empty := by
    rw [List.getD_eq_getElem?_getD, List.getD_eq_getElem?_getD, List.getElem?_set]
    by_cases same : number = other
    · rw [if_pos same, if_pos (number_lt file), if_pos same.symm]
      rfl
    · rw [if_neg same, if_neg (Ne.symm same)]
  exact held

theorem sameWays_create (free : tree.node? place = none) (content : ByteArray) :
    SameWays tree (tree.create place content) where
  here := rfl
  directory other := by
    rw [node?_create free]
    split
    · rename_i same
      simp [same, free]
    · rfl
  link other target := by
    rw [node?_create free]
    split
    · rename_i same
      simp [same, free]
    · rfl

theorem sameWays_overwrite (tree : FileTree) (number : Nat) (content : ByteArray) :
    SameWays tree (tree.overwrite number content) :=
  ⟨rfl, fun _ => .rfl, fun _ _ => .rfl⟩

/-! ### Reading and writing -/

/-- A path leads to a file. -/
def Finds (tree : FileTree) (path : OsText) (number : Nat) : Prop :=
  ∃ place, tree.Reaches path place ∧ tree.node? place = some (.file number)

theorem read_eq_ok_iff :
    tree.read path = .ok content ↔ ∃ number, tree.Finds path number ∧ tree.content number = content := by
  unfold read
  constructor
  · intro read
    cases reached : tree.resolve false path with
    | error error => simp [reached] at read
    | ok place =>
      cases here : tree.node? place with
      | none => simp [reached, here] at read
      | some node =>
        cases node with
        | directory => simp [reached, here] at read
        | link target => simp [reached, here] at read
        | file number =>
          have same : tree.content number = content := by simpa [reached, here] using read
          exact ⟨number, ⟨place, resolve_false_iff.mp reached, here⟩, same⟩
  · rintro ⟨number, ⟨place, reaches, file⟩, rfl⟩
    simp [resolve_false_iff.mpr reaches, file]

/-- Whether a file can be written: its path leads to a file, or to a place where there is nothing. -/
def Writable (tree : FileTree) (path : OsText) : Prop :=
  ∃ place, tree.Reaches path place ∧
    (tree.node? place = none ∨ ∃ number, tree.node? place = some (.file number))

/-- What writing does: the file that the path leads to is given the content, or else a new one. -/
theorem write_eq_ok_iff :
    tree.write path content = .ok after ↔
      ∃ place, tree.Reaches path place ∧
        ((∃ number, tree.node? place = some (.file number) ∧ tree.overwrite number content = after) ∨
          tree.node? place = none ∧ tree.create place content = after) := by
  unfold write
  constructor
  · intro written
    cases reached : tree.resolve true path with
    | error error => simp [reached] at written
    | ok place =>
      cases here : tree.node? place with
      | none =>
        have made : tree.create place content = after := by simpa [reached, here] using written
        exact ⟨place, (resolve_true_iff (by simp [here])).mp reached, .inr ⟨here, made⟩⟩
      | some node =>
        cases node with
        | directory => simp [reached, here] at written
        | link target => simp [reached, here] at written
        | file number =>
          have made : tree.overwrite number content = after := by
            simpa [reached, here] using written
          exact ⟨place, (resolve_true_iff (by simp [here])).mp reached, .inl ⟨number, here, made⟩⟩
  · rintro ⟨place, reaches, ⟨number, file, rfl⟩ | ⟨free, rfl⟩⟩
    · simp [(resolve_true_iff (by simp [file])).mpr reaches, file]
    · simp [(resolve_true_iff (by simp [free])).mpr reaches, free]

theorem writable_iff : tree.Writable path ↔ ∃ after, tree.write path content = .ok after := by
  simp only [write_eq_ok_iff]
  constructor
  · rintro ⟨place, reaches, free | ⟨number, file⟩⟩
    · exact ⟨_, place, reaches, .inr ⟨free, rfl⟩⟩
    · exact ⟨_, place, reaches, .inl ⟨number, file, rfl⟩⟩
  · rintro ⟨after, place, reaches, ⟨number, file, -⟩ | ⟨free, -⟩⟩
    · exact ⟨place, reaches, .inr ⟨number, file⟩⟩
    · exact ⟨place, reaches, .inl free⟩

/-- A file has been written, and nothing else. The file lies where the path leads, and is the one
that was there or a new one. -/
structure WroteAt (tree : FileTree) (path : OsText) (content : ByteArray) (after : FileTree)
    (place : Location) (number : Nat) : Prop where
  ways : SameWays tree after
  reaches : tree.Reaches path place
  file : after.node? place = some (.file number)
  content : after.content number = content
  others : ∀ other, other ≠ place → after.node? other = tree.node? other
  contents : ∀ other, other ≠ number → after.content other = tree.content other
  before : tree.node? place = some (.file number) ∨
    tree.node? place = none ∧ ∀ other, tree.node? other ≠ some (.file number)

/-- What writing does: the path holds the content, and only one file has changed. -/
structure Wrote (tree : FileTree) (path : OsText) (content : ByteArray) (after : FileTree) : Prop where
  reads : after.read path = .ok content
  change : ∃ place number, tree.WroteAt path content after place number

theorem write_wroteAt (written : tree.write path content = .ok after) :
    ∃ place number, tree.WroteAt path content after place number := by
  obtain ⟨place, reaches, ⟨number, file, rfl⟩ | ⟨free, rfl⟩⟩ := write_eq_ok_iff.mp written
  · refine ⟨place, number, ⟨sameWays_overwrite .., reaches, file, ?_, fun _ _ => rfl, ?_, .inl file⟩⟩
    · rw [content_overwrite file, if_pos rfl]
    · intro other apart
      rw [content_overwrite file, if_neg apart]
  · have unused (other : Location) : tree.node? other ≠ some (.file tree.contents.length) :=
      fun used => Nat.lt_irrefl _ (number_lt used)
    refine ⟨place, _, ⟨sameWays_create free _, reaches, ?_, ?_, ?_, ?_, .inr ⟨free, unused⟩⟩⟩
    · rw [node?_create free, if_pos rfl]
    · rw [content_create, if_pos rfl]
    · intro other apart
      rw [node?_create free, if_neg apart]
    · intro other apart
      rw [content_create, if_neg apart]

/-- Two paths lead to one place, or to places that go by one file. -/
def Meets (tree : FileTree) (path other : OsText) : Prop :=
  ∃ place another, tree.Reaches path place ∧ tree.Reaches other another ∧
    (place = another ∨
      ∃ number, tree.node? place = some (.file number) ∧ tree.node? another = some (.file number))

/-- What can be read from a path is what could be read before. -/
def Keeps (tree after : FileTree) (path : OsText) : Prop :=
  ∀ content, after.read path = .ok content ↔ tree.read path = .ok content

namespace WroteAt

variable {input : OsText} {there : Location} {another : Nat}

/-- A path that does not meet the one written leads to the files it did. -/
theorem file_iff (wrote : tree.WroteAt path content after place number)
    (apart : ¬tree.Meets input path) (reaches : tree.Reaches input there) :
    after.node? there = some (.file another) ↔ tree.node? there = some (.file another) := by
  have other : there ≠ place := fun same => apart ⟨there, place, reaches, wrote.reaches, .inl same⟩
  rw [wrote.others there other]

theorem content_eq (wrote : tree.WroteAt path content after place number)
    (apart : ¬tree.Meets input path) (reaches : tree.Reaches input there)
    (held : tree.node? there = some (.file another)) :
    after.content another = tree.content another := by
  refine wrote.contents another ?_
  rintro rfl
  rcases wrote.before with file | ⟨-, unused⟩
  · exact apart ⟨there, place, reaches, wrote.reaches, .inr ⟨another, held, file⟩⟩
  · exact unused there held

/-- What does not meet the path that is written reads as before. -/
theorem keeps (wrote : tree.WroteAt path content after place number)
    (apart : ¬tree.Meets input path) : tree.Keeps after input := by
  intro held
  rw [read_eq_ok_iff, read_eq_ok_iff]
  constructor
  · rintro ⟨another, ⟨there, reaches, file⟩, same⟩
    have reached := reaches.transport wrote.ways.symm
    have present := (wrote.file_iff apart reached).mp file
    exact ⟨another, ⟨there, reached, present⟩, wrote.content_eq apart reached present ▸ same⟩
  · rintro ⟨another, ⟨there, reaches, file⟩, same⟩
    have present := (wrote.file_iff apart reaches).mpr file
    exact ⟨another, ⟨there, reaches.transport wrote.ways, present⟩,
      (wrote.content_eq apart reaches file).trans same⟩

/-- What meets the path that is written reads as it does. -/
theorem read_of_meets (wrote : tree.WroteAt path content after place number)
    (meets : tree.Meets input path) : after.read input = .ok content := by
  obtain ⟨there, another, reaches, aimed, one⟩ := meets
  obtain rfl := aimed.unique wrote.reaches
  have file : after.node? there = some (.file number) := by
    rcases one with rfl | ⟨shared, held, same⟩
    · exact wrote.file
    · by_cases here : there = another
      · exact here ▸ wrote.file
      · rw [wrote.others there here, held, ← same]
        rcases wrote.before with file | ⟨free, -⟩
        · exact file
        · rw [free] at same
          cases same
  exact read_eq_ok_iff.mpr ⟨number, ⟨there, reaches.transport wrote.ways, file⟩, wrote.content⟩

theorem wrote (wrote : tree.WroteAt path content after place number) :
    tree.Wrote path content after where
  reads := wrote.read_of_meets ⟨place, place, wrote.reaches, wrote.reaches, .inl rfl⟩
  change := ⟨place, number, wrote⟩

end WroteAt

-- What a link holds is written through the link.
example (content text : ByteArray) :
    let tree := ((bare []).addFile (.ofString "a.cj") content).put [.ofString "a.c"]
      (.link (.ofString "./a.cj")) rfl
    (tree.write (.ofString "a.c") text).map (·.read (.ofString "a.cj")) = .ok (.ok text) := by
  rfl

/-! ### Links -/

/-- The last name of a path stands for a link: for another path, or for a file that goes by another
name as well. -/
def IsLink (tree : FileTree) (path : OsText) : Prop :=
  ∃ directory name, tree.Entry path directory name ∧
    ((∃ target, tree.node? (directory ++ [name]) = some (.link target)) ∨
      ∃ number other, tree.node? (directory ++ [name]) = some (.file number) ∧
        other ≠ directory ++ [name] ∧ tree.node? other = some (.file number))

/-- It takes a link for paths of different names to meet in a file. -/
theorem Meets.isLink {input above parent name base : OsText} (meets : tree.Meets input path)
    (names : Path.Names input above name) (others : Path.Names path parent base)
    (different : name ≠ base) (writable : tree.Writable path) :
    tree.IsLink input ∨ tree.IsLink path := by
  obtain ⟨there, another, reaches, aimed, one⟩ := meets
  have target : tree.node? another ≠ some .directory := by
    obtain ⟨found, reached, free | ⟨number, file⟩⟩ := writable
    · obtain rfl := aimed.unique reached
      simp [free]
    · obtain rfl := aimed.unique reached
      simp [file]
  have source : tree.node? there ≠ some .directory := by
    rcases one with rfl | ⟨number, held, -⟩
    · exact target
    · simp [held]
  obtain ⟨directory, entry, ⟨target, linked⟩ | rfl⟩ := reaches.entry names source
  · exact .inl ⟨directory, name, entry, .inl ⟨target, linked⟩⟩
  · obtain ⟨folder, last, ⟨target, linked⟩ | rfl⟩ := aimed.entry others target
    · exact .inr ⟨folder, base, last, .inl ⟨target, linked⟩⟩
    · have apart : folder ++ [base] ≠ directory ++ [name] := by
        intro same
        exact different (by simpa using (List.append_inj' same rfl).2.symm)
      rcases one with same | ⟨number, held, file⟩
      · exact absurd same.symm apart
      · exact .inl ⟨directory, name, entry, .inr ⟨number, _, held, apart, file⟩⟩

/-- The output for a source file goes by another name than any source file, so that it takes a link
for the two to meet. -/
theorem Meets.isLink_of_source {input source parent : OsText} {stem : List Char}
    (meets : tree.Meets source path) (made : Path.defaultOutput input = .ok path)
    (named : Path.NamesSource source parent stem) (writable : tree.Writable path) :
    tree.IsLink source ∨ tree.IsLink path := by
  obtain ⟨above, front, origin, rfl⟩ := Path.defaultOutput_eq_ok made
  obtain ⟨-, suffix, member, names⟩ := named
  exact meets.isLink names origin.output (Path.outputName_ne member stem).symm writable

theorem meets_iff {input : OsText} (reaches : tree.Reaches input other)
    (aimed : tree.Reaches path place) :
    tree.Meets input path ↔ other = place ∨
      ∃ number, tree.node? other = some (.file number) ∧ tree.node? place = some (.file number) := by
  constructor
  · rintro ⟨there, another, reached, met, one⟩
    obtain rfl := reaches.unique reached
    obtain rfl := aimed.unique met
    exact one
  · exact fun one => ⟨other, place, reaches, aimed, one⟩

end FileTree

/-- Loading a program takes a source file's name, a file, text in it, and a tree in the text. -/
theorem Program.load_eq_ok_iff {path : OsText} {tree : FileTree} {p : Program} :
    Program.load path tree = .ok p ↔
      ∃ parent stem content text, Path.source? path = some (parent, stem) ∧
        tree.read path = .ok content ∧ String.fromUTF8? content = some text ∧
        Program.ofText text = .ok p := by
  unfold load ofContent
  cases source : Path.source? path with
  | none => simp
  | some named =>
    obtain ⟨parent, stem⟩ := named
    cases read : tree.read path with
    | error error => simp
    | ok content => cases decoded : String.fromUTF8? content <;> simp [decoded]

/-- The program that a text describes is loaded from a file with that text. -/
theorem Program.load_text {path : OsText} {tree : FileTree} {named : OsText × List Char}
    {text : String} {p : Program} (source : Path.source? path = some named)
    (read : tree.read path = .ok text.toUTF8) (described : Program.ofText text = .ok p) :
    Program.load path tree = .ok p := by
  have decoded : String.fromUTF8? text.toUTF8 = some text := by
    have valid : text.toUTF8.IsValidUTF8 := text.isValidUTF8
    rw [String.fromUTF8?, dif_pos valid]
    rfl
  exact Program.load_eq_ok_iff.mpr ⟨_, _, _, text, source, read, decoded, described⟩

namespace CommandLine

variable {tree : FileTree}

/-- A run that loads a program ends there if it cannot. -/
theorem loading_runOn (path : OsText) (next : Program → Dialogue) (tree : FileTree) :
    (loading path next).runOn tree =
      match Program.load path tree with
      | .error fault => (failed fault, tree)
      | .ok p => (next p).runOn tree := by
  unfold loading Program.load
  cases Path.source? path with
  | none => rfl
  | some named =>
    simp only [Dialogue.runOn]
    cases Program.ofContent path (tree.read path) <;> rfl

/-- Where a build is to put its output. -/
def outputPath (input : OsText) : Option OsText → Except Fault OsText
  | some path => .ok path
  | none => Path.defaultOutput input

/-- Loading a program needs the name of a source file, so there is a path for its output. -/
theorem outputPath_of_load {input : OsText} {p : Program}
    (loaded : Program.load input tree = .ok p) (output : Option OsText) :
    ∃ path, outputPath input output = .ok path := by
  obtain ⟨parent, stem, -, -, source, -, -, -⟩ := Program.load_eq_ok_iff.mp loaded
  cases output with
  | some path => exact ⟨path, rfl⟩
  | none => exact ⟨_, by simp only [outputPath, Path.defaultOutput, Path.output, source]; rfl⟩

theorem buildFile_of_load {input path : OsText} {output : Option OsText} {p : Program}
    (loaded : Program.load input tree = .ok p) (aimed : outputPath input output = .ok path)
    (quiet : Bool) :
    (buildFile input output quiet).runOn tree =
      match tree.write path p.toC.toUTF8 with
      | .error error => (written path quiet p.compile (.error error), tree)
      | .ok after => (written path quiet p.compile (.ok ()), after) := by
  unfold buildFile
  rw [loading_runOn, loaded]
  cases output with
  | none =>
    simp only [outputPath] at aimed
    simp only [aimed, Dialogue.runOn, Program.compile]
    cases tree.write path p.toC.toUTF8 <;> rfl
  | some given =>
    obtain rfl : given = path := Except.ok.inj aimed
    simp only [Dialogue.runOn, Program.compile]
    cases tree.write given p.toC.toUTF8 <;> rfl

variable {result : Output} {after : FileTree}

/-- Checking a file leaves all files alone. -/
theorem checkFile_frame {input : OsText} {json : Bool}
    (ran : (checkFile input json).runOn tree = (result, after)) :
    after = tree ∧
    (result.code = 0 ↔ ∃ p, Program.load input tree = .ok p ∧ p.diagnostics = []) ∧
    ∀ fault, Program.load input tree = .error fault → result.code = 1 ∧ result.stdout = "" := by
  rw [checkFile, loading_runOn] at ran
  cases loaded : Program.load input tree with
  | error fault =>
    simp only [loaded] at ran
    obtain ⟨rfl, rfl⟩ := Prod.mk.inj ran
    simp [failed]
  | ok p =>
    simp only [loaded] at ran
    cases json with
    | true =>
      obtain ⟨rfl, rfl⟩ := Prod.mk.inj ran
      simp
    | false =>
      obtain ⟨rfl, rfl⟩ := Prod.mk.inj ran
      simp

/-- A build that fails has done nothing; otherwise the program was loaded and its output written. -/
theorem buildFile_cases {input : OsText} {output : Option OsText} {quiet : Bool}
    (ran : (buildFile input output quiet).runOn tree = (result, after)) :
    (result.code = 1 ∧ result.stdout = "" ∧ after = tree ∧
      ∀ p path, Program.load input tree = .ok p → outputPath input output = .ok path →
        ¬tree.Writable path) ∨
    ∃ p path place number, result.code = 0 ∧ Program.load input tree = .ok p ∧
      outputPath input output = .ok path ∧ tree.Writable path ∧
      tree.WroteAt path p.toC.toUTF8 after place number := by
  cases loaded : Program.load input tree with
  | error fault =>
    unfold buildFile at ran
    rw [loading_runOn, loaded] at ran
    obtain ⟨rfl, rfl⟩ := Prod.mk.inj ran
    simp [failed]
  | ok p =>
    obtain ⟨path, aimed⟩ := outputPath_of_load loaded output
    rw [buildFile_of_load loaded aimed] at ran
    cases put : tree.write path p.toC.toUTF8 with
    | error error =>
      have unwritable : ¬tree.Writable path := by
        intro writable
        obtain ⟨after, made⟩ := FileTree.writable_iff.mp writable
        rw [put] at made
        cases made
      rw [put] at ran
      obtain ⟨rfl, rfl⟩ := Prod.mk.inj ran
      simp [written, aimed, unwritable]
    | ok changed =>
      obtain ⟨place, number, wrote⟩ := FileTree.write_wroteAt put
      rw [put] at ran
      obtain ⟨rfl, rfl⟩ := Prod.mk.inj ran
      exact .inr ⟨p, path, place, number, rfl, rfl, aimed,
        FileTree.writable_iff.mpr ⟨changed, put⟩, wrote⟩

/-- Building a file writes its output or nothing. -/
theorem buildFile_frame {input : OsText} {output : Option OsText} {quiet : Bool}
    (ran : (buildFile input output quiet).runOn tree = (result, after)) :
    (result.code = 0 ↔ ∃ p path, Program.load input tree = .ok p ∧
      outputPath input output = .ok path ∧ tree.Writable path) ∧
    (result.code = 0 → ∀ p path, Program.load input tree = .ok p →
      outputPath input output = .ok path → tree.Wrote path p.toC.toUTF8 after) ∧
    (result.code ≠ 0 → after = tree ∧ result.code = 1 ∧ result.stdout = "") := by
  rcases buildFile_cases ran with ⟨code, silent, rfl, fails⟩ |
    ⟨p, path, place, number, code, loaded, aimed, writable, wrote⟩
  · refine ⟨?_, by simp [code], fun _ => ⟨rfl, code, silent⟩⟩
    simp only [code, Nat.one_ne_zero, false_iff]
    rintro ⟨p, path, loaded, aimed, writable⟩
    exact fails p path loaded aimed writable
  · refine ⟨⟨fun _ => ⟨p, path, loaded, aimed, writable⟩, fun _ => code⟩, ?_, absurd code⟩
    intro _ q other same there
    obtain rfl : p = q := Except.ok.inj (loaded.symm.trans same)
    obtain rfl : path = other := Except.ok.inj (aimed.symm.trans there)
    exact wrote.wrote

/-- What a build without an output path does to a source file, its own or another: nothing, unless
the output is the same file by a link. -/
theorem buildFile_source {input source parent out : OsText} {stem : List Char} {quiet : Bool}
    (ran : (buildFile input none quiet).runOn tree = (result, after))
    (made : Path.defaultOutput input = .ok out) (named : Path.NamesSource source parent stem) :
    (¬tree.IsLink source → ¬tree.IsLink out → tree.Keeps after source) ∧
    (¬tree.Meets source out → tree.Keeps after source) ∧
    (tree.Meets source out → result.code = 0 → ∀ p, Program.load input tree = .ok p →
      after.read source = .ok p.toC.toUTF8) := by
  rcases buildFile_cases ran with ⟨code, -, rfl, -⟩ |
    ⟨p, path, place, number, code, loaded, aimed, writable, wrote⟩
  · exact ⟨fun _ _ _ => .rfl, fun _ _ => .rfl, fun _ done => by simp [code] at done⟩
  · obtain rfl : out = path := Except.ok.inj (made.symm.trans aimed)
    refine ⟨fun plain simple => wrote.keeps fun meets => ?_, wrote.keeps, fun meets _ q same => ?_⟩
    · rcases meets.isLink_of_source made named writable with link | link
      · exact plain link
      · exact simple link
    · obtain rfl : p = q := Except.ok.inj (loaded.symm.trans same)
      exact wrote.read_of_meets meets

/-- If the source reads as before at all, it does so in every case, as it could be read. -/
theorem buildFile_input {input : OsText} {output : Option OsText} {quiet : Bool}
    (ran : (buildFile input output quiet).runOn tree = (result, after))
    (keeps : tree.Keeps after input) : after.read input = tree.read input := by
  rcases buildFile_cases ran with ⟨-, -, rfl, -⟩ | ⟨p, path, place, number, -, loaded, -, -, -⟩
  · rfl
  · obtain ⟨-, -, content, -, -, read, -, -⟩ := Program.load_eq_ok_iff.mp loaded
    rw [read, keeps content, read]

theorem run_of_parsed {args : List OsText} {command : Command}
    (parsed : parseArgs args = .ok command) (tree : FileTree) :
    run args tree = command.run.runOn tree := by
  simp [run, start, parsed]

/-- What a run does to the files, on any tree of files. A check changes nothing, and succeeds
exactly if the program loads and has no diagnostics. A build succeeds exactly if the program
loads and the output can be written, whatever the diagnostics; then the output path holds the
generated text and nothing else has changed, and otherwise nothing has. A program that does not
load leaves nothing on the standard output. The output path is the one that counts on the command
line, which is the one that is given, if none is given before the command. Without one, the source
reads as before, unless the output is the same file by a link. -/
theorem run_frame (args : List OsText) (tree : FileTree) :
    let (result, after) := run args tree
    (∀ input json, parseArgs args = .ok (.check input json) →
      after = tree ∧
      (result.code = 0 ↔ ∃ p, Program.load input tree = .ok p ∧ p.diagnostics = []) ∧
      ∀ fault, Program.load input tree = .error fault → result.code = 1 ∧ result.stdout = "") ∧
    (∀ input output quiet, parseArgs args = .ok (.build input output quiet) →
      (Counts args (.file input) ∧ (∀ path, output = some path ↔ Counts args (.output path)) ∧
        ((∀ path, ¬Drops args (.output path)) →
          ∀ path, output = some path ↔ Counts args (.output path) ∨ Drops args (.output path))) ∧
      (result.code = 0 ↔ ∃ p path, Program.load input tree = .ok p ∧
        outputPath input output = .ok path ∧ tree.Writable path) ∧
      (result.code = 0 → ∀ p path, Program.load input tree = .ok p →
        outputPath input output = .ok path → tree.Wrote path p.toC.toUTF8 after) ∧
      (result.code ≠ 0 → after = tree ∧ result.code = 1 ∧ result.stdout = "") ∧
      (output = none → ∀ out, Path.defaultOutput input = .ok out →
        (¬tree.IsLink input → ¬tree.IsLink out → after.read input = tree.read input) ∧
        (¬tree.Meets input out → after.read input = tree.read input) ∧
        (tree.Meets input out → result.code = 0 → ∀ p, Program.load input tree = .ok p →
          after.read input = .ok p.toC.toUTF8))) := by
  refine ⟨fun input json parsed => ?_, fun input output quiet parsed => ?_⟩
  · exact checkFile_frame (run_of_parsed parsed tree).symm
  · have ran : (buildFile input output quiet).runOn tree = ((run args tree).1, (run args tree).2) :=
      (run_of_parsed parsed tree).symm
    obtain ⟨succeeds, wrote, fails⟩ := buildFile_frame ran
    refine ⟨parseArgs_build parsed, succeeds, wrote, fails, ?_⟩
    rintro rfl out made
    obtain ⟨parent, stem, named, -⟩ := Path.defaultOutput_eq_ok made
    obtain ⟨plain, alone, together⟩ := buildFile_source ran made named
    exact ⟨fun source target => buildFile_input ran (plain source target),
      fun apart => buildFile_input ran (alone apart), together⟩

/-- A program with a diagnostic is built all the same, at the path that is given or else beside its
source. -/
theorem run_frame_aimed :
    let text := "\x7b\"items\":[\x7b\"kind\":\"var\",\"ty\":\"number\",\"names\":[\"x\",\"x\"]\x7d]\x7d"
    let p : Program := ⟨[.declare ⟨.number, ["x", "x"]⟩]⟩
    let input := OsText.ofString "d//a.cj"
    let tree := (FileTree.bare []).addFile input text.toUTF8
    let elsewhere := ["build", "-qo", "x.c", "d//a.cj"].map OsText.ofString
    let beside := ["build", "d//a.cj"].map OsText.ofString
    p.diagnostics = [.duplicateVariable "x"] ∧
    (Counts elsewhere (.output (.ofString "x.c")) ∧ (run elsewhere tree).1.code = 0 ∧
      tree.Wrote (.ofString "x.c") p.toC.toUTF8 (run elsewhere tree).2) ∧
    (run beside tree).1.code = 0 ∧ tree.Wrote (.ofString "d/a.c") p.toC.toUTF8 (run beside tree).2 ∧
    (run beside tree).2.read input = .ok text.toUTF8 := by
  intro text p input tree elsewhere beside
  have read : tree.read input = .ok text.toUTF8 := by rfl
  have described : Program.ofText text = .ok p := by
    unfold text p
    rfl
  have loaded : Program.load input tree = .ok p := Program.load_text (by rfl) read described
  have reaches : tree.Reaches input [.ofString "d", .ofString "a.cj"] :=
    FileTree.resolve_false_iff.mp rfl
  have aimed : tree.Reaches (.ofString "d/a.c") [.ofString "d", .ofString "a.c"] :=
    FileTree.resolve_false_iff.mp rfl
  have outside : tree.Reaches (.ofString "x.c") [.ofString "x.c"] :=
    FileTree.resolve_false_iff.mp rfl
  have apart : ¬tree.Meets input (.ofString "d/a.c") := by
    rw [FileTree.meets_iff reaches aimed]
    rintro (same | ⟨number, -, file⟩)
    · exact absurd same (by decide)
    · cases file
  have parsedElsewhere : parseArgs elsewhere = .ok (.build input (some (.ofString "x.c")) true) := by
    decide
  have parsedBeside : parseArgs beside = .ok (.build input none false) := by decide
  obtain ⟨⟨-, counts, -⟩, succeeds, wrote, -⟩ :=
    (run_frame elsewhere tree).2 _ _ _ parsedElsewhere
  have done := succeeds.mpr ⟨p, _, loaded, rfl, _, outside, .inl rfl⟩
  obtain ⟨-, succeedsBeside, wroteBeside, -, kept⟩ :=
    (run_frame beside tree).2 _ _ _ parsedBeside
  have made : outputPath input none = .ok (.ofString "d/a.c") := by rfl
  have doneBeside := succeedsBeside.mpr ⟨p, _, loaded, made, _, aimed, .inl rfl⟩
  refine ⟨by decide, ⟨(counts _).mp rfl, done, wrote done p _ loaded rfl⟩, doneBeside,
    wroteBeside doneBeside p _ loaded made, ?_⟩
  exact ((kept rfl _ made).2.1 apart).trans read

/-- An output path before the command counts for nothing: nothing is written there. -/
theorem run_frame_dropped :
    let text := "\x7b\"items\":[]\x7d"
    let p : Program := ⟨[]⟩
    let tree := (FileTree.bare []).addFile (.ofString "a.cj") text.toUTF8
    let args := ["-o", "x.c", "build", "a.cj"].map OsText.ofString
    let (result, after) := run args tree
    Program.load (.ofString "a.cj") tree = .ok p ∧ Drops args (.output (.ofString "x.c")) ∧
    result.code = 0 ∧ after.read (.ofString "x.c") = .error .notFound ∧
    after.read (.ofString "a.c") = .ok p.toC.toUTF8 := by
  intro text p tree args
  have described : Program.ofText text = .ok p := by
    unfold text p
    rfl
  have loaded : Program.load (.ofString "a.cj") tree = .ok p :=
    Program.load_text (by rfl) (by rfl) described
  have parsed : parseArgs args = .ok (.build (.ofString "a.cj") none false) := by decide
  have aimed : outputPath (.ofString "a.cj") none = .ok (.ofString "a.c") := by rfl
  have option : Spells [.ofString "-o", .ofString "x.c"] [.output (.ofString "x.c")] :=
    @Spells.outputLetter [] _ (by simp [AreFlags]) (.inl (by decide))
  have early : Reads .program args [.output (.ofString "x.c")]
      [.ofString "build", .ofString "a.cj"] := .options option (.done _)
  have late : Reads .build [.ofString "a.cj"] [.file (.ofString "a.cj")] [] :=
    .file (.inl (by decide)) (by decide) (.done _)
  have drops : Drops args (.output (.ofString "x.c")) :=
    ⟨_, _, _, .command early rfl (.ended late), List.mem_singleton_self _⟩
  rw [run_of_parsed parsed, Command.run, buildFile_of_load loaded aimed]
  exact ⟨loaded, drops, rfl, rfl, rfl⟩

end CommandLine

end Caju
