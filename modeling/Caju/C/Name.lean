/-! The names of generated C. A Caju name stays as it is unless it could be taken
for something else, and then gets an underscore at its end. -/

namespace Caju.C

/-- The words that C and `stdbool.h` keep for themselves. -/
def reserved : List String :=
  ["auto", "break", "case", "char", "const", "continue", "default", "do", "double", "else",
   "enum", "extern", "float", "for", "goto", "if", "inline", "int", "long", "register",
   "restrict", "return", "short", "signed", "sizeof", "static", "struct", "switch", "typedef",
   "union", "unsigned", "void", "volatile", "while", "_Bool", "_Complex", "_Imaginary",
   "bool", "true", "false"]

/-- How every name that does not come from the program starts. -/
def mark : String := "caju_"

/-- Whether a name may not stand in C as it is. One that ends in an underscore may
not either, so that it stays apart from one that was given its underscore. -/
def needsMark (name : String) : Bool :=
  reserved.contains name || mark.toList.isPrefixOf name.toList || name.toList.getLast? == some '_'

/-- The C identifier of a Caju name. -/
def ident (name : String) : String := if needsMark name then name ++ "_" else name

/-- The index variable of the `para cada` loop of that number in its function. -/
def loopIndex (number : Nat) : String := mark ++ "i" ++ toString number

end Caju.C
