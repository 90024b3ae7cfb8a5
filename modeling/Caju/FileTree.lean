import Caju.Association
import Caju.Path

/-! The files of a machine. Directories hold names, and a name stands for a directory,
for a file, or for a link to another path. Files are numbered, so that one file can go by
several names. Paths are followed component by component as a Unix system does, from the
root or from the working directory: everything on the way must be a directory that
exists, and links are replaced by the paths they hold. -/

namespace Caju

/-- Why a file cannot be read or written. -/
inductive FileError where
  | notFound
  | notDirectory
  | isDirectory
  | nameTooLong
  | tooManyLinks
  | notText
  | zeroInPath
  | other (reason : String)
  deriving DecidableEq, Inhabited

/-- The wording of the operating system. -/
def FileError.text : FileError → String
  | .notFound => "No such file or directory (os error 2)"
  | .notDirectory => "Not a directory (os error 20)"
  | .isDirectory => "Is a directory (os error 21)"
  | .nameTooLong => "File name too long (os error 36)"
  | .tooManyLinks => "Too many levels of symbolic links (os error 40)"
  | .notText => "stream did not contain valid UTF-8"
  | .zeroInPath => "file name contained an unexpected NUL byte"
  | .other reason => reason

/-- Where something lies: the names that lead to it from the root. -/
abbrev Location := List OsText

/-- What a name stands for. -/
inductive FileNode where
  | directory
  | file (number : Nat)
  | link (target : OsText)
  deriving DecidableEq

/-- Whether there are enough files for a node. -/
def FileNode.isAmong (count : Nat) : FileNode → Bool
  | .file number => number < count
  | _ => true

/-- What lies at each place, the contents of the files, and the working directory. -/
structure FileTree where
  nodes : List (Location × FileNode)
  contents : List ByteArray
  here : Location
  numbered : ∀ entry ∈ nodes, entry.2.isAmong contents.length = true

namespace FileTree

/-- What lies at a place; the root always exists. -/
def node? (tree : FileTree) (place : Location) : Option FileNode :=
  if place = [] then some .directory else tree.nodes.lookup place

def content (tree : FileTree) (number : Nat) : ByteArray := tree.contents.getD number .empty

/-- Puts a node that needs no file of its own. -/
def put (tree : FileTree) (place : Location) (node : FileNode)
    (among : node.isAmong tree.contents.length = true) : FileTree where
  nodes := Association.insert place node tree.nodes
  contents := tree.contents
  here := tree.here
  numbered := Association.forall_insert among tree.numbered

theorem isAmong_mono {node : FileNode} {count more : Nat} (among : node.isAmong count = true)
    (le : count ≤ more) : node.isAmong more = true := by
  cases node with
  | file number => exact decide_eq_true (Nat.lt_of_lt_of_le (of_decide_eq_true among) le)
  | _ => rfl

/-- Puts a new file. -/
def create (tree : FileTree) (place : Location) (content : ByteArray) : FileTree where
  nodes := Association.insert place (.file tree.contents.length) tree.nodes
  contents := tree.contents ++ [content]
  here := tree.here
  numbered := by
    have longer : (tree.contents ++ [content]).length = tree.contents.length + 1 := by simp
    rw [longer]
    refine Association.forall_insert (decide_eq_true (Nat.lt_succ_self _)) fun entry member => ?_
    exact isAmong_mono (tree.numbered entry member) (Nat.le_succ _)

/-- Gives a file other contents. -/
def overwrite (tree : FileTree) (number : Nat) (content : ByteArray) : FileTree where
  nodes := tree.nodes
  contents := tree.contents.set number content
  here := tree.here
  numbered := by
    rw [List.length_set]
    exact tree.numbered

/-- Makes the directories that are missing on the way from a place. -/
def makeDirectories (above : Location) : List OsText → FileTree → FileTree
  | [], tree => tree
  | name :: rest, tree =>
    let place := above ++ [name]
    makeDirectories place rest
      (if (tree.node? place).isNone then tree.put place .directory rfl else tree)

/-- A machine on which there is nothing but the way to the working directory. -/
def bare (here : Location) : FileTree := makeDirectories [] here ⟨[], [], here, nofun⟩

/-- The place of a path without links that does not go up. -/
def below (tree : FileTree) (path : OsText) : Location :=
  tree.here ++ (Path.components path).filter (!Path.isIdle ·)

def addDirectory (tree : FileTree) (path : OsText) : FileTree :=
  makeDirectories [] (tree.below path) tree

/-- Adds a file with all directories above it. -/
def addFile (tree : FileTree) (path : OsText) (content : ByteArray) : FileTree :=
  (makeDirectories [] (tree.below path).dropLast tree).create (tree.below path) content

/-- The most bytes that a name may take. -/
def maxName : Nat := 255

/-- The most bytes that a path may take. -/
def maxPath : Nat := 4095

/-- The most links that are followed for one path. -/
def maxLinks : Nat := 40

/-- The directory that a directory is in; the root is in itself. -/
def parent (place : Location) : Location := place.dropLast

/-- Where a path starts, seen from a directory. -/
def origin (place : Location) (path : OsText) : Location :=
  if path.head? = some Path.slash then [] else place

/-- Whether there is nothing but slashes to come. -/
def endsInSlash (rest : List OsText) : Bool := !rest.isEmpty && rest.all List.isEmpty

/-- Follows components from a place up to a link, which is dealt with by `through`. A name
with a slash behind it cannot be created as a file. -/
def walk (tree : FileTree) (creating : Bool)
    (through : Location → OsText → List OsText → Except FileError Location) (place : Location) :
    List OsText → Except FileError Location
  | [] => .ok place
  | name :: rest =>
    match tree.node? place with
    | none => .error .notFound
    | some .directory =>
      if Path.isIdle name then walk tree creating through place rest
      else if name = [Path.dot, Path.dot] then walk tree creating through (parent place) rest
      else if creating && endsInSlash rest then .error .isDirectory
      else if maxName < name.length then .error .nameTooLong
      else
        match tree.node? (place ++ [name]) with
        | some (.link target) => through place target rest
        | _ => walk tree creating through (place ++ [name]) rest
    | some _ => .error .notDirectory

/-- Follows components from a place, through so many links at most. What a link holds is
followed from the directory it is in. -/
def follow (tree : FileTree) (creating : Bool) :
    Nat → Location → List OsText → Except FileError Location
  | 0 => tree.walk creating fun _ _ _ => .error .tooManyLinks
  | links + 1 => tree.walk creating fun place target rest =>
      follow tree creating links (origin place target) (Path.components target ++ rest)

/-- The place that a path leads to. Where a file is to be created, there may be nothing yet. -/
def resolve (tree : FileTree) (creating : Bool) (path : OsText) : Except FileError Location :=
  if path.contains 0 then .error .zeroInPath
  else if path.isEmpty then .error .notFound
  else if maxPath < path.length then .error .nameTooLong
  else tree.follow creating maxLinks (origin tree.here path) (Path.components path)

/-- The content of a file. -/
def read (tree : FileTree) (path : OsText) : Except FileError ByteArray :=
  match tree.resolve false path with
  | .error error => .error error
  | .ok place =>
    match tree.node? place with
    | some (.file number) => .ok (tree.content number)
    | some .directory => .error .isDirectory
    | _ => .error .notFound

/-- Writes a file. If there is one already it is given the content, under all its names;
otherwise a new one is created. -/
def write (tree : FileTree) (path : OsText) (content : ByteArray) : Except FileError FileTree :=
  match tree.resolve true path with
  | .error error => .error error
  | .ok place =>
    match tree.node? place with
    | some (.file number) => .ok (tree.overwrite number content)
    | none => .ok (tree.create place content)
    | some _ => .error .isDirectory

end FileTree

namespace Program

/-- The program in a file, given what came of reading it. -/
def ofContent (path : OsText) (content : Except FileError ByteArray) : Except Fault Program :=
  match content with
  | .error error => .error (.access path error.text)
  | .ok bytes =>
    match String.fromUTF8? bytes with
    | none => .error (.access path FileError.notText.text)
    | some text => ofText text

/-- The program in a file; none is read whose name is not a source's. -/
def load (path : OsText) (tree : FileTree) : Except Fault Program :=
  match Path.source? path with
  | none => .error (.unsupportedSuffix path)
  | some _ => ofContent path (tree.read path)

end Program

end Caju
