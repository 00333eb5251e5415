/-!
# Literals and comments of C

Two ways to set a text between delimiters, so that it ends where it should. Between the quotes of a
string literal a backslash, a quote, a line feed and a tab are written as escapes, and every other
character stands for itself. A comment ends at the first `*/`; a text is made fit for it by setting
a space between the two characters wherever they meet.
-/

namespace NetlistTables.Code

namespace Literal

/-- The form of one character inside a literal. -/
def escapeChar : Char → List Char
  | '\\' => ['\\', '\\']
  | '"' => ['\\', '"']
  | '\n' => ['\\', 'n']
  | '\t' => ['\\', 't']
  | c => [c]

/-- The form of a text inside a literal. -/
def escape (s : String) : String := String.ofList (s.toList.flatMap escapeChar)

end Literal

namespace Comment

/-- Part `*` and `/` wherever they meet. -/
def part : List Char → List Char
  | [] => []
  | '*' :: '/' :: cs => '*' :: ' ' :: '/' :: part cs
  | c :: cs => c :: part cs

/-- The form of a text inside a comment. -/
def escape (s : String) : String := String.ofList (part s.toList)

/-- The comment that holds a text. -/
def enclose (s : String) : String := "/* " ++ escape s ++ " */"

end Comment

end NetlistTables.Code
