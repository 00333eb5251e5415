/-!
# Identifiers of C

A name can be declared in C if it has the form of an identifier and is not reserved. Only ASCII
letters and digits count: an implementation may take more, but need not.
-/

namespace NetlistTables.Code

/-- May an identifier begin with `c`? -/
def isIdentifierHead (c : Char) : Bool := c.isAlpha || c == '_'

/-- May an identifier go on with `c`? -/
def isIdentifierTail (c : Char) : Bool := c.isAlphanum || c == '_'

/-- Does the whole of `s` have the form of an identifier? -/
def isIdentifier (s : String) : Bool :=
  match s.toList with
  | [] => false
  | c :: cs => isIdentifierHead c && cs.all isIdentifierTail

/-- The reserved words of C, up to the standard of 2011. -/
def reservedWords : List String :=
  ["auto", "break", "case", "char", "const", "continue", "default", "do", "double", "else", "enum",
    "extern", "float", "for", "goto", "if", "inline", "int", "long", "register", "restrict",
    "return", "short", "signed", "sizeof", "static", "struct", "switch", "typedef", "union",
    "unsigned", "void", "volatile", "while", "_Alignas", "_Alignof", "_Atomic", "_Bool",
    "_Complex", "_Generic", "_Imaginary", "_Noreturn", "_Static_assert", "_Thread_local"]

/-- Is `s` a reserved word? -/
def isReserved (s : String) : Bool := reservedWords.contains s

end NetlistTables.Code
