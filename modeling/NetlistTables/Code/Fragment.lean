import NetlistTables.Code.Literal

/-!
# Fragments of C

C text is put together from fragments: directives, comments, and the parts of enumerations and of
array initializers. A fragment has a text, and says how it changes the indentation: one that opens
a list is followed by deeper lines, and one that closes a list stands with the line that opened it.
-/

namespace NetlistTables.Code

/-- A piece of C text on lines of its own. -/
inductive Fragment
  | blank
  | text (content : String)
  | comment (content : String)
  /-- The inclusion of a header that comes with the system. -/
  | systemHeader (name : String)
  /-- The inclusion of a header that comes with the program. -/
  | localHeader (name : String)
  | define (name : String) (value : Option String)
  | ifUndefined (name : String)
  | endIf (comment : Option String)
  | enumOpen (tag : Option String)
  | enumerator (name : String) (value : Option Nat)
  /-- The end of an enumeration, or of the initializer of an array. -/
  | blockClose
  /-- The start of the definition of an array: what is declared, and of which type. -/
  | arrayOpen (declared : String)
  | stringElement (value : String)
  | elementOpen
  | elementClose
  /-- The initializer of a field; the last one of an element has no comma. -/
  | field (name value : String) (last : Bool)
  /-- The declaration of what is defined elsewhere. -/
  | external (declared : String)
  deriving DecidableEq, Repr

namespace Fragment

/-- The text of a fragment. -/
def content : Fragment → String
  | blank => ""
  | text s => s
  | comment s => Comment.enclose s
  | systemHeader h => "#include <" ++ h ++ ">"
  | localHeader h => "#include \"" ++ h ++ "\""
  | define n none => "#define " ++ n
  | define n (some v) => "#define " ++ n ++ " " ++ v
  | ifUndefined n => "#ifndef " ++ n
  | endIf none => "#endif"
  | endIf (some s) => "#endif " ++ Comment.enclose s
  | enumOpen none => "enum \x7b"
  | enumOpen (some t) => "enum " ++ t ++ " \x7b"
  | enumerator n none => n ++ ","
  | enumerator n (some v) => n ++ " = " ++ toString v ++ ","
  | blockClose => "\x7d;"
  | arrayOpen d => d ++ "[] = \x7b"
  | stringElement v => "\"" ++ Literal.escape v ++ "\","
  | elementOpen => "\x7b"
  | elementClose => "\x7d,"
  | field n v last => "." ++ n ++ " = " ++ v ++ (if last then "" else ",")
  | external d => "extern " ++ d ++ ";"

/-- Do the lines after the fragment stand deeper? -/
def opens : Fragment → Bool
  | enumOpen _ | arrayOpen _ | elementOpen => true
  | _ => false

/-- Does the fragment stand less deep than the lines before it? -/
def closes : Fragment → Bool
  | blockClose | elementClose => true
  | _ => false

end Fragment

end NetlistTables.Code
