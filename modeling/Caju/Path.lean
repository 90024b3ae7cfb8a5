import Caju.Fault

/-! Paths of source files and of what is generated from them. A path is bytes, like
every text of the operating system. Components are divided by slashes; empty ones and
single dots mean nothing, except for a dot the path starts with. -/

namespace Caju.Path

def slash : UInt8 := '/'.toUInt8

def dot : UInt8 := '.'.toUInt8

@[simp] theorem dot_ne_slash : dot ≠ slash := by decide

/-- The components of a text, divided by slashes. -/
def components : OsText → List OsText
  | [] => [[]]
  | c :: rest =>
    if c = slash then [] :: components rest
    else
      match components rest with
      | [] => [[c]]
      | component :: others => (c :: component) :: others

/-- Components with slashes between them. -/
def join : List OsText → OsText
  | [] => []
  | [component] => component
  | component :: others => component ++ slash :: join others

theorem components_ne_nil (text : OsText) : components text ≠ [] := by
  cases text with
  | nil => simp [components]
  | cons c rest =>
    unfold components
    by_cases divides : c = slash
    · simp [divides]
    · simp only [divides, if_false]
      split <;> simp

/-- Taking a text apart at its slashes loses nothing. -/
theorem join_components (text : OsText) : join (components text) = text := by
  induction text with
  | nil => rfl
  | cons c rest ih =>
    unfold components
    by_cases divides : c = slash
    · simp only [divides, if_true]
      cases parts : components rest with
      | nil => exact absurd parts (components_ne_nil rest)
      | cons component others => rw [join, ← parts, ih]; rfl; simp
    · simp only [divides, if_false]
      cases parts : components rest with
      | nil => exact absurd parts (components_ne_nil rest)
      | cons component others =>
        rw [parts] at ih
        cases others with
        | nil => simpa [join] using ih
        | cons next others => simpa [join] using ih

/-- A component that does not lead anywhere. -/
def isIdle (component : OsText) : Bool := component == [] || component == [dot]

/-- The part of a path that always stays, a leading slash or dot, and the rest. -/
def splitRoot (path : OsText) : OsText × OsText :=
  match path with
  | [] => ([], [])
  | first :: rest =>
    if first = slash then ([slash], rest)
    else if first = dot ∧ (rest = [] ∨ rest.head? = some slash) then ([dot], rest)
    else ([], path)

@[simp] theorem splitRoot_slash (rest : OsText) : splitRoot (slash :: rest) = ([slash], rest) := by
  simp [splitRoot]

@[simp] theorem splitRoot_dot : splitRoot [dot] = ([dot], []) := by
  simp [splitRoot]

@[simp] theorem splitRoot_dot_slash (rest : OsText) :
    splitRoot (dot :: slash :: rest) = ([dot], slash :: rest) := by
  simp [splitRoot]

/-- The last component that leads somewhere, behind the path that leads to it. -/
def splitLast? (path : OsText) : Option (OsText × OsText) :=
  let (root, body) := splitRoot path
  match (components body).reverse.dropWhile isIdle with
  | [] => none
  | name :: before => some (root ++ join (before.dropWhile isIdle).reverse, name)

/-- Parent and file name of a path; one that ends in `..` names no file. -/
def splitFile? (path : OsText) : Option (OsText × OsText) :=
  (splitLast? path).filter fun (_, name) => name != [dot, dot]

/-- A name below a parent. -/
def child (parent name : OsText) : OsText :=
  if parent == [] || parent.getLast? == some slash then parent ++ name else parent ++ slash :: name

/-- The endings of source files; those in `.json` hold the same tree. -/
def sourceSuffixes : List (List Char) :=
  [".caju.json".toList, ".cj.json".toList, ".caju".toList, ".cj".toList]

/-- What comes before an ending. -/
def beforeSuffix? (name suffix : List Char) : Option (List Char) :=
  if suffix.isSuffixOf name then some (name.take (name.length - suffix.length)) else none

/-- A source file's name without its ending; there must be something before it. -/
def stem? (name : List Char) : Option (List Char) :=
  (sourceSuffixes.findSome? (beforeSuffix? name)).filter (!·.isEmpty)

/-- Parent and stem of a path that names a source file. The name must be text. -/
def source? (path : OsText) : Option (OsText × List Char) :=
  (splitFile? path).bind fun (parent, name) =>
    name.text?.bind fun text => (stem? text.toList).map (parent, ·)

/-- Where the output for a source file goes: beside it, with another ending. -/
def output (path : OsText) (extension : String) : Except Fault OsText :=
  match source? path with
  | none => .error (.unsupportedSuffix path)
  | some (parent, stem) => .ok (child parent (.encode (stem ++ '.' :: extension.toList)))

/-- The ending of generated files. -/
def defaultExtension : String := "c"

def defaultOutput (path : OsText) : Except Fault OsText := output path defaultExtension

end Caju.Path
