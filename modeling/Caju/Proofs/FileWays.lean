import Caju.FileTree
import Caju.Proofs.FileNames

/-! The ways through a tree of files. Where a path leads is told by a derivation with one step for
each component, in which a link is replaced by the path it holds. Following a path finds that place
and no other (`resolve_false_iff`, `resolve_true_iff`); only directories and links matter to it
(`Leads.transport`). What a path leads to is told apart from what its last name stands for, which
may be a link to something else (`Reaches.entry`). -/

namespace Caju.FileTree

open Caju.Path

variable {tree : FileTree} {links : Nat} {place found : Location} {path name : OsText}
  {rest names : List OsText} {creating : Bool}

/-- A component that stands for something of its own. -/
structure IsName (name : OsText) : Prop where
  busy : isIdle name = false
  file : name ≠ [dot, dot]
  short : name.length ≤ maxName

/-- Components lead from one place to another, through so many links at most. -/
inductive Leads (tree : FileTree) : Nat → Location → List OsText → Location → Prop where
  | done (links : Nat) (place : Location) : Leads tree links place [] place
  | idle {links : Nat} {place found : Location} {name : OsText} {rest : List OsText}
      (here : tree.node? place = some .directory) (nothing : isIdle name = true)
      (onward : Leads tree links place rest found) : Leads tree links place (name :: rest) found
  | up {links : Nat} {place found : Location} {rest : List OsText}
      (here : tree.node? place = some .directory)
      (onward : Leads tree links (parent place) rest found) :
      Leads tree links place ([dot, dot] :: rest) found
  | down {links : Nat} {place found : Location} {name : OsText} {rest : List OsText}
      (here : tree.node? place = some .directory) (named : IsName name)
      (own : ∀ target, tree.node? (place ++ [name]) ≠ some (.link target))
      (onward : Leads tree links (place ++ [name]) rest found) :
      Leads tree links place (name :: rest) found
  | link {links : Nat} {place found : Location} {name target : OsText} {rest : List OsText}
      (here : tree.node? place = some .directory) (named : IsName name)
      (held : tree.node? (place ++ [name]) = some (.link target))
      (onward : Leads tree links (origin place target) (components target ++ rest) found) :
      Leads tree (links + 1) place (name :: rest) found

/-! ### Following -/

/-- What a walk does with one component. -/
theorem walk_cons_iff {through : Location → OsText → List OsText → Except FileError Location} :
    tree.walk creating through place (name :: rest) = .ok found ↔
      tree.node? place = some .directory ∧
      (isIdle name = true ∧ tree.walk creating through place rest = .ok found ∨
        name = [dot, dot] ∧ tree.walk creating through (parent place) rest = .ok found ∨
        IsName name ∧ (creating && endsInSlash rest) = false ∧
          ((∃ target, tree.node? (place ++ [name]) = some (.link target) ∧
              through place target rest = .ok found) ∨
            (∀ target, tree.node? (place ++ [name]) ≠ some (.link target)) ∧
              tree.walk creating through (place ++ [name]) rest = .ok found)) := by
  have dots : isIdle [dot, dot] = false := by decide
  rw [walk]
  cases here : tree.node? place with
  | none => simp
  | some node =>
    cases node with
    | file number => simp
    | link target => simp
    | directory =>
      simp only [true_and]
      by_cases idle : isIdle name = true
      · have unnamed : ¬IsName name := fun named => by simp [named.busy] at idle
        have still : name ≠ [dot, dot] := fun up => by simp [up, dots] at idle
        simp [idle, unnamed, still]
      · by_cases up : name = [dot, dot]
        · have unnamed : ¬IsName name := fun named => named.file up
          simp [up, dots, up ▸ unnamed]
        · by_cases slashes : (creating && endsInSlash rest) = true
          · simp [idle, up, slashes]
          · by_cases long : maxName < name.length
            · have unnamed : ¬IsName name := fun named => Nat.not_lt.mpr named.short long
              simp [idle, up, slashes, long, unnamed]
            · have named : IsName name := ⟨by simpa using idle, up, Nat.not_lt.mp long⟩
              rw [if_neg idle, if_neg up, if_neg slashes, if_neg long]
              cases below : tree.node? (place ++ [name]) with
              | none => simp [idle, up, named, slashes]
              | some node => cases node <;> simp [idle, up, named, slashes]

/-- What is done with a link when so many may be followed. -/
def through (tree : FileTree) (creating : Bool) :
    Nat → Location → OsText → List OsText → Except FileError Location
  | 0, _, _, _ => .error .tooManyLinks
  | links + 1, place, target, rest =>
    tree.follow creating links (origin place target) (components target ++ rest)

theorem follow_eq_walk (tree : FileTree) (creating : Bool) (links : Nat) :
    tree.follow creating links = tree.walk creating (tree.through creating links) := by
  cases links <;> rfl

/-- Where a walk ends, its components lead, if what is done with links does. -/
theorem leads_of_walk {through : Location → OsText → List OsText → Except FileError Location}
    (sound : ∀ {place name target rest}, tree.node? place = some .directory → IsName name →
      tree.node? (place ++ [name]) = some (.link target) →
      through place target rest = .ok found → tree.Leads links place (name :: rest) found)
    (reached : tree.walk creating through place names = .ok found) :
    tree.Leads links place names found := by
  induction names generalizing place with
  | nil => exact Except.ok.inj reached ▸ .done links place
  | cons name rest ih =>
    obtain ⟨here, ⟨idle, onward⟩ | ⟨rfl, onward⟩ | ⟨named, -, ⟨target, held, onward⟩ | ⟨own, onward⟩⟩⟩ :=
      walk_cons_iff.mp reached
    · exact .idle here idle (ih onward)
    · exact .up here (ih onward)
    · exact sound here named held onward
    · exact .down here named own (ih onward)

theorem leads_of_follow (reached : tree.follow creating links place names = .ok found) :
    tree.Leads links place names found := by
  rw [follow_eq_walk] at reached
  induction links generalizing place names with
  | zero =>
    refine leads_of_walk (fun _ _ _ onward => ?_) reached
    cases onward
  | succ links ih =>
    have deeper {place : Location} {names : List OsText}
        (reached : tree.follow creating links place names = .ok found) :
        tree.Leads links place names found := ih (follow_eq_walk tree creating links ▸ reached)
    exact leads_of_walk (fun here named held onward => .link here named held (deeper onward)) reached

namespace Leads

/-- What ends in a component that leads nowhere leads to a directory. -/
theorem directory {last : OsText} (leads : tree.Leads links place names found)
    (ends : names.getLast? = some last) (nowhere : isIdle last = true) :
    tree.node? found = some .directory := by
  have other {name : OsText} (busy : isIdle name = false) : name ≠ last := by
    rintro rfl
    simp [busy] at nowhere
  induction leads with
  | done => cases ends
  | @idle links place found name rest here _ onward ih =>
    cases rest with
    | nil => cases onward; exact here
    | cons next rest => exact ih ends
  | @up links place found rest _ onward ih =>
    cases rest with
    | nil => exact absurd (Option.some.inj ends) (other (by decide))
    | cons next rest => exact ih ends
  | @down links place found name rest _ named _ onward ih =>
    cases rest with
    | nil => exact absurd (Option.some.inj ends) (other named.busy)
    | cons next rest => exact ih ends
  | @link links place found name target rest _ named _ _ ih =>
    cases rest with
    | nil => exact absurd (Option.some.inj ends) (other named.busy)
    | cons next rest =>
      have whole : (next :: rest).getLast? = some last := ends
      refine ih ?_
      rw [List.getLast?_append, whole]
      rfl

/-- What leads to anything but a directory does not end in a slash. -/
theorem not_endsInSlash {front : List OsText} (leads : tree.Leads links place (front ++ rest) found)
    (file : creating = true → tree.node? found ≠ some .directory) :
    (creating && endsInSlash rest) = false := by
  apply Bool.eq_false_iff.mpr
  intro slashes
  obtain ⟨creates, some, empty⟩ : creating = true ∧ rest ≠ [] ∧ ∀ name ∈ rest, name = [] := by
    simpa [endsInSlash] using slashes
  have last : (front ++ rest).getLast? = Option.some [] := by
    rw [List.getLast?_append, List.getLast?_eq_some_getLast some]
    exact congrArg Option.some (empty _ (List.getLast_mem some))
  exact file creates (leads.directory last rfl)

/-- Components are followed to where they lead. Where something is to be created there must not be
a directory. -/
theorem follow (leads : tree.Leads links place names found)
    (file : creating = true → tree.node? found ≠ some .directory) :
    tree.follow creating links place names = .ok found := by
  rw [follow_eq_walk]
  induction leads with
  | done links place => rfl
  | idle here nothing _ ih => exact walk_cons_iff.mpr ⟨here, .inl ⟨nothing, ih file⟩⟩
  | up here _ ih => exact walk_cons_iff.mpr ⟨here, .inr (.inl ⟨rfl, ih file⟩)⟩
  | @down links place found name rest here named own leads ih =>
    have may : (creating && endsInSlash rest) = false := by
      rw [← List.nil_append rest] at leads
      exact leads.not_endsInSlash file
    exact walk_cons_iff.mpr ⟨here, .inr (.inr ⟨named, may, .inr ⟨own, ih file⟩⟩)⟩
  | @link links place found name target rest here named held leads ih =>
    have may : (creating && endsInSlash rest) = false := leads.not_endsInSlash file
    have onward := ih file
    rw [← follow_eq_walk] at onward
    exact walk_cons_iff.mpr ⟨here, .inr (.inr ⟨named, may, .inl ⟨target, held, onward⟩⟩)⟩

theorem unique {other : Location} (leads : tree.Leads links place names found)
    (also : tree.Leads links place names other) : found = other := by
  have one : tree.follow false links place names = .ok found := leads.follow nofun
  have two : tree.follow false links place names = .ok other := also.follow nofun
  exact Except.ok.inj (one.symm.trans two)

/-- Components lead as far as some of them do, and on from there. -/
theorem split {front : List OsText} (leads : tree.Leads links place (front ++ rest) found) :
    ∃ middle left, left ≤ links ∧ tree.Leads links place front middle ∧
      tree.Leads left middle rest found := by
  generalize whole : front ++ rest = names at leads
  induction leads generalizing front with
  | done links place =>
    obtain ⟨rfl, rfl⟩ := List.append_eq_nil_iff.mp whole
    exact ⟨place, links, Nat.le_refl _, .done links place, .done links place⟩
  | @idle links place found name others here nothing onward ih =>
    cases front with
    | nil =>
      subst whole
      exact ⟨place, links, Nat.le_refl _, .done links place, .idle here nothing onward⟩
    | cons first front =>
      obtain ⟨rfl, same⟩ := List.cons.inj whole
      obtain ⟨middle, left, le, before, after⟩ := ih same
      exact ⟨middle, left, le, .idle here nothing before, after⟩
  | @up links place found others here onward ih =>
    cases front with
    | nil =>
      subst whole
      exact ⟨place, links, Nat.le_refl _, .done links place, .up here onward⟩
    | cons first front =>
      obtain ⟨rfl, same⟩ := List.cons.inj whole
      obtain ⟨middle, left, le, before, after⟩ := ih same
      exact ⟨middle, left, le, .up here before, after⟩
  | @down links place found name others here named own onward ih =>
    cases front with
    | nil =>
      subst whole
      exact ⟨place, links, Nat.le_refl _, .done links place, .down here named own onward⟩
    | cons first front =>
      obtain ⟨rfl, same⟩ := List.cons.inj whole
      obtain ⟨middle, left, le, before, after⟩ := ih same
      exact ⟨middle, left, le, .down here named own before, after⟩
  | @link links place found name target others here named held onward ih =>
    cases front with
    | nil =>
      subst whole
      exact ⟨place, links + 1, Nat.le_refl _, .done _ place, .link here named held onward⟩
    | cons first front =>
      obtain ⟨rfl, same⟩ : first = name ∧ front ++ rest = others := List.cons.inj whole
      obtain ⟨middle, left, le, before, after⟩ := ih (by rw [← same, List.append_assoc])
      exact ⟨middle, left, Nat.le_succ_of_le le, .link here named held before, after⟩

end Leads

/-! ### Trees with the same ways -/

/-- Two trees in which the same places are directories and links. -/
structure SameWays (tree after : FileTree) : Prop where
  here : after.here = tree.here
  directory : ∀ place, after.node? place = some .directory ↔ tree.node? place = some .directory
  link : ∀ place target,
    after.node? place = some (.link target) ↔ tree.node? place = some (.link target)

variable {after : FileTree}

theorem SameWays.symm (same : SameWays tree after) : SameWays after tree where
  here := same.here.symm
  directory place := (same.directory place).symm
  link place target := (same.link place target).symm

theorem Leads.transport (same : SameWays tree after) (leads : tree.Leads links place names found) :
    after.Leads links place names found := by
  induction leads with
  | done links place => exact .done links place
  | idle here nothing _ ih => exact .idle ((same.directory _).mpr here) nothing ih
  | up here _ ih => exact .up ((same.directory _).mpr here) ih
  | down here named own _ ih =>
    exact .down ((same.directory _).mpr here) named
      (fun target held => own target ((same.link _ target).mp held)) ih
  | link here named held _ ih =>
    exact .link ((same.directory _).mpr here) named ((same.link _ _).mpr held) ih

/-! ### Paths -/

/-- What can be a path. -/
structure IsPath (path : OsText) : Prop where
  filled : path ≠ []
  short : path.length ≤ maxPath
  clear : 0 ∉ path

/-- A path leads to a place, all links followed. There may be something or nothing. -/
structure Reaches (tree : FileTree) (path : OsText) (place : Location) : Prop where
  isPath : IsPath path
  leads : tree.Leads maxLinks (origin tree.here path) (components path) place

theorem resolve_eq_ok_iff : tree.resolve creating path = .ok place ↔
    IsPath path ∧
      tree.follow creating maxLinks (origin tree.here path) (components path) = .ok place := by
  unfold resolve
  by_cases zero : 0 ∈ path
  · have none : ¬IsPath path := fun isPath => isPath.clear zero
    simp [zero, none]
  · by_cases empty : path = []
    · have none : ¬IsPath path := fun isPath => isPath.filled empty
      simp [empty, empty ▸ none]
    · by_cases long : maxPath < path.length
      · have none : ¬IsPath path := fun isPath => Nat.not_lt.mpr isPath.short long
        simp [zero, empty, long, none]
      · have isPath : IsPath path := ⟨empty, Nat.not_lt.mp long, zero⟩
        simp [zero, empty, long, isPath]

theorem resolve_false_iff : tree.resolve false path = .ok place ↔ tree.Reaches path place := by
  rw [resolve_eq_ok_iff]
  constructor
  · rintro ⟨isPath, reached⟩
    exact ⟨isPath, leads_of_follow reached⟩
  · rintro ⟨isPath, leads⟩
    exact ⟨isPath, leads.follow nofun⟩

/-- Where something can be created, the path leads. -/
theorem resolve_true_iff (file : tree.node? place ≠ some .directory) :
    tree.resolve true path = .ok place ↔ tree.Reaches path place := by
  rw [resolve_eq_ok_iff]
  constructor
  · rintro ⟨isPath, reached⟩
    exact ⟨isPath, leads_of_follow reached⟩
  · rintro ⟨isPath, leads⟩
    exact ⟨isPath, leads.follow fun _ => file⟩

namespace Reaches

theorem unique {other : Location} (reaches : tree.Reaches path place)
    (also : tree.Reaches path other) : place = other :=
  reaches.leads.unique also.leads

theorem transport (same : SameWays tree after) (reaches : tree.Reaches path place) :
    after.Reaches path place := by
  obtain ⟨isPath, leads⟩ := reaches
  rw [← same.here] at leads
  exact ⟨isPath, leads.transport same⟩

end Reaches

/-- The place of the last name of a path, where links on the way are followed but not that name. -/
structure Entry (tree : FileTree) (path : OsText) (directory : Location) (name : OsText) : Prop where
  last : ∃ above, components path = above ++ [name] ∧
    tree.Leads maxLinks (origin tree.here path) above directory
  here : tree.node? directory = some .directory
  named : IsName name

/-- A path that names a file and leads to anything but a directory has an entry of that name, which
lies where the path leads to or is a link. -/
theorem Reaches.entry {above : OsText} (reaches : tree.Reaches path place)
    (names : Names path above name) (file : tree.node? place ≠ some .directory) :
    ∃ directory, tree.Entry path directory name ∧
      ((∃ target, tree.node? (directory ++ [name]) = some (.link target)) ∨
        place = directory ++ [name]) := by
  obtain ⟨busy, before, behind, parts, idle⟩ := names.components
  have ended : behind = [] := by
    by_contra more
    have last : (components path).getLast? = some (behind.getLast more) := by
      rw [parts, List.getLast?_append, List.getLast?_cons, List.getLast?_eq_some_getLast more]
      rfl
    exact file (reaches.leads.directory last (idle _ (List.getLast_mem more)))
  subst ended
  have leads := reaches.leads
  rw [parts] at leads
  obtain ⟨directory, left, -, front, step⟩ := leads.split
  cases step with
  | idle _ nothing => simp [busy] at nothing
  | up => exact absurd rfl names.file
  | down here named own onward =>
    cases onward
    exact ⟨directory, ⟨⟨before, parts, front⟩, here, named⟩, .inr rfl⟩
  | link here named held =>
    exact ⟨directory, ⟨⟨before, parts, front⟩, here, named⟩, .inl ⟨_, held⟩⟩

end Caju.FileTree
