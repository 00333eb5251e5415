/-!
# Lines of a text

A line is ended by a line feed, or by a carriage return and a line feed. The last line of a text
may lack its end; it is then taken as it stands, also when it ends in a carriage return.
-/

namespace NetlistTables.Text

/-- The lines of a text, without their ends. -/
def splitLines : List Char → List (List Char)
  | [] => []
  | '\n' :: cs => [] :: splitLines cs
  | '\r' :: '\n' :: cs => [] :: splitLines cs
  | c :: cs =>
    match splitLines cs with
    | [] => [[c]]
    | l :: ls => (c :: l) :: ls

/-- No line holds a line feed. -/
theorem lineFeed_notMem {s l : List Char} (h : l ∈ splitLines s) : '\n' ∉ l := by
  fun_induction splitLines s generalizing l with
  | case1 => simp at h
  | case2 cs ih =>
    rcases List.mem_cons.1 h with rfl | h
    · simp
    · exact ih h
  | case3 cs ih =>
    rcases List.mem_cons.1 h with rfl | h
    · simp
    · exact ih h
  | case4 c cs hc _ hs ih =>
    simp_all
    grind
  | case5 c cs hc _ l' ls hs ih =>
    rcases List.mem_cons.1 h with rfl | h
    · simp_all
      grind
    · exact ih (by simp_all)

/-- The lines of `s`, without their ends. The empty text has none. -/
def lines (s : String) : List String := (splitLines s.toList).map String.ofList

end NetlistTables.Text
