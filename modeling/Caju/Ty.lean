/-! The types of the Caju language. Types are compared by structure alone; the
only leniency is `unknown`, the type of a name that did not resolve, which fits
everywhere so that one unresolved name is not reported twice. -/

namespace Caju

inductive Ty where
  | number
  | character
  | boolean
  | void
  | unknown
  | array (element : Ty)
  | function (params : List Ty) (result : Ty)
  deriving Inhabited

namespace Ty

mutual

/-- Structural equality as a test. -/
def same : Ty → Ty → Bool
  | number, number => true
  | character, character => true
  | boolean, boolean => true
  | void, void => true
  | unknown, unknown => true
  | array element, array other => same element other
  | function params result, function others result' => sameAll params others && same result result'
  | _, _ => false

/-- Structural equality of type lists, position by position. -/
def sameAll : List Ty → List Ty → Bool
  | [], [] => true
  | ty :: rest, other :: others => same ty other && sameAll rest others
  | _, _ => false

end

mutual

theorem same_iff : ∀ a b : Ty, same a b = true ↔ a = b
  | number, b => by cases b <;> simp [same]
  | character, b => by cases b <;> simp [same]
  | boolean, b => by cases b <;> simp [same]
  | void, b => by cases b <;> simp [same]
  | unknown, b => by cases b <;> simp [same]
  | array element, b => by cases b <;> simp [same, same_iff element]
  | function params result, b => by cases b <;> simp [same, sameAll_iff params, same_iff result]

theorem sameAll_iff : ∀ as bs : List Ty, sameAll as bs = true ↔ as = bs
  | [], bs => by cases bs <;> simp [sameAll]
  | a :: as, bs => by cases bs <;> simp [sameAll, same_iff a, sameAll_iff as]

end

instance : DecidableEq Ty := fun a b => decidable_of_iff (same a b = true) (same_iff a b)

/-- The element type of an array; no other type has one. -/
def element? : Ty → Option Ty
  | array element => some element
  | _ => none

def isVoid : Ty → Bool
  | void => true
  | _ => false

def isUnknown : Ty → Bool
  | unknown => true
  | _ => false

def isFunction : Ty → Bool
  | function _ _ => true
  | _ => false

/-- Whether a value of type `found` may stand where `expected` is wanted. -/
def accepts (expected found : Ty) : Bool :=
  expected.isUnknown || found.isUnknown || expected == found

theorem accepts_iff (expected found : Ty) :
    expected.accepts found = true ↔ expected = unknown ∨ found = unknown ∨ expected = found := by
  cases expected <;> cases found <;> simp [accepts, isUnknown]

mutual

/-- A type as Caju spells it. -/
def text : Ty → String
  | number => "numero"
  | character => "caractere"
  | boolean => "booleano"
  | void => "vazio"
  | unknown => "desconhecido"
  | array element => "vetor[" ++ text element ++ "]"
  | function params result => "funcao(" ++ ", ".intercalate (texts params) ++ "): " ++ text result

def texts : List Ty → List String
  | [] => []
  | ty :: rest => text ty :: texts rest

end

end Ty

end Caju
