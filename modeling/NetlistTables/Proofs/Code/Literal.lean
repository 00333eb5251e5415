import Mathlib.Data.List.DropRight
import NetlistTables.Proofs.Code.Layout
import NetlistTables.Proofs.Text.Utf8

/-!
# Reading string literals

`read?` reads a string literal of C from its opening quote on, up to the first quote that is not
escaped. The literal of a text is read back as the text, whatever follows it (`read?_literal`): no
run of backslashes and quotes in the text takes the closing quote for an escaped one, or an escaped
quote for the closing one. The escaped text holds no line feed, so an element of an array is one
line with one literal in it (`text_stringElement`).
-/

namespace NetlistTables.Code

open Output Text

namespace Literal

/-! ## A reader of literals -/

/-- The character that an escape stands for, by what follows its backslash. -/
def escaped? : Char → Option Char
  | '\\' => some '\\'
  | '"' => some '"'
  | 'n' => some '\n'
  | 't' => some '\t'
  | _ => none

/-- The text up to the first quote that is not escaped, and what follows this quote. No line ends
inside of a literal. -/
def readBody? : List Char → Option (List Char × List Char)
  | [] => none
  | '"' :: cs => some ([], cs)
  | '\n' :: _ => none
  | ['\\'] => none
  | '\\' :: c :: cs =>
    (escaped? c).bind fun d => (readBody? cs).map fun (ds, rest) => (d :: ds, rest)
  | c :: cs => (readBody? cs).map fun (ds, rest) => (c :: ds, rest)

/-- The text of a literal, and what follows its closing quote. -/
def read? : List Char → Option (String × List Char)
  | '"' :: cs => (readBody? cs).map fun (ds, rest) => (String.ofList ds, rest)
  | _ => none

/-- The literal of a text, between its quotes. -/
def literal (s : String) : List Char := '"' :: (escape s).toList ++ ['"']

theorem toList_escape (s : String) : (escape s).toList = s.toList.flatMap escapeChar :=
  String.toList_ofList

/-- An escaped character is read back. -/
theorem readBody?_escapeChar (c : Char) {cs ds rest : List Char}
    (h : readBody? cs = some (ds, rest)) :
    readBody? (escapeChar c ++ cs) = some (c :: ds, rest) := by
  unfold escapeChar
  split
  · simp [readBody?, escaped?, h]
  · simp [readBody?, escaped?, h]
  · simp [readBody?, escaped?, h]
  · simp [readBody?, escaped?, h]
  next hslash hquote hfeed htab =>
    rw [List.singleton_append, readBody?.eq_def]
    split
    all_goals simp_all

theorem readBody?_flatMap (cs rest : List Char) :
    readBody? (cs.flatMap escapeChar ++ '"' :: rest) = some (cs, rest) := by
  induction cs with
  | nil => rfl
  | cons c cs ih =>
    rw [List.flatMap_cons, List.append_assoc]
    exact readBody?_escapeChar c ih

/-- **The literal of a text is read back as the text**, up to its closing quote and no further. -/
theorem read?_literal (s : String) (rest : List Char) :
    read? (literal s ++ rest) = some (s, rest) := by
  have hliteral : literal s ++ rest = '"' :: (s.toList.flatMap escapeChar ++ '"' :: rest) := by
    rw [literal, toList_escape, List.append_assoc]
    rfl
  rw [hliteral, read?, readBody?_flatMap, Option.map_some]
  simp only [String.ofList_toList]

/-- Texts that are escaped alike are the same. -/
theorem escape_injective : Function.Injective escape := by
  intro s u h
  have hs := read?_literal s []
  rw [literal, h] at hs
  exact congrArg Prod.fst (Option.some.inj (hs.symm.trans (read?_literal u [])))

/-! ## Characters of escaped texts -/

theorem lineFeed_notMem_escapeChar (c : Char) : '\n' ∉ escapeChar c := by
  unfold escapeChar
  split <;> simp_all [eq_comm]

theorem tab_notMem_escapeChar (c : Char) : '\t' ∉ escapeChar c := by
  unfold escapeChar
  split <;> simp_all [eq_comm]

theorem lineFeed_notMem_escape (s : String) : '\n' ∉ (escape s).toList := by
  rw [toList_escape, List.mem_flatMap]
  rintro ⟨c, -, hc⟩
  exact lineFeed_notMem_escapeChar c hc

theorem tab_notMem_escape (s : String) : '\t' ∉ (escape s).toList := by
  rw [toList_escape, List.mem_flatMap]
  rintro ⟨c, -, hc⟩
  exact tab_notMem_escapeChar c hc

/-! ## Quotes in escaped texts -/

/-- The number of backslashes that a text ends in. -/
def slashes (cs : List Char) : Nat := (cs.rtakeWhile (· = '\\')).length

/-- Every quote in a text is escaped: it stands behind an odd number of backslashes. -/
def QuotesEscaped (cs : List Char) : Prop :=
  ∀ before behind, cs = before ++ '"' :: behind → slashes before % 2 = 1

theorem slashes_concat (cs : List Char) : slashes (cs ++ ['\\']) = slashes cs + 1 := by
  rw [slashes, List.rtakeWhile_concat_pos _ _ _ (by simp), List.length_append]
  rfl

theorem slashes_concat_of_ne (cs : List Char) {c : Char} (hc : c ≠ '\\') :
    slashes (cs ++ [c]) = 0 := by
  rw [slashes, List.rtakeWhile_concat_neg _ _ _ (by simpa using hc)]
  rfl

theorem slashes_append_escapeChar {before : List Char} (h : slashes before % 2 = 0) (c : Char) :
    slashes (before ++ escapeChar c) % 2 = 0 := by
  have hescape (d : Char) (hd : d ≠ '\\') : slashes (before ++ ['\\', d]) = 0 := by
    rw [← List.singleton_append, ← List.append_assoc, slashes_concat_of_ne _ hd]
  unfold escapeChar
  split
  · rw [← List.singleton_append, ← List.append_assoc, slashes_concat, slashes_concat]
    omega
  · rw [hescape '"' (by decide)]
  · rw [hescape 'n' (by decide)]
  · rw [hescape 't' (by decide)]
  next hslash _ _ _ => rw [slashes_concat_of_ne before hslash]

/-- A quote in the escaped form of a character stands behind a single backslash. -/
theorem eq_slash_of_escapeChar {c : Char} {cs ds : List Char}
    (h : escapeChar c = cs ++ '"' :: ds) : cs = ['\\'] := by
  -- the form is two characters long at most
  unfold escapeChar at h
  split at h
  all_goals
    rcases cs with _ | ⟨x, _ | ⟨y, cs⟩⟩ <;> simp_all [eq_comm]

/-- Behind an even number of backslashes, every quote in an escaped text is escaped. -/
theorem odd_slashes_of_flatMap {before : List Char} (h : slashes before % 2 = 0)
    {cs ds behind : List Char} (hcs : cs.flatMap escapeChar = ds ++ '"' :: behind) :
    slashes (before ++ ds) % 2 = 1 := by
  induction cs generalizing before ds with
  | nil => simp at hcs
  | cons c cs ih =>
    rw [List.flatMap_cons] at hcs
    rcases Text.split_append hcs with ⟨es, hes⟩ | ⟨es, rfl, hes⟩
    · rw [eq_slash_of_escapeChar hes, slashes_concat]
      omega
    · -- the quote stands in what comes behind the first character
      rw [← List.append_assoc]
      exact ih (slashes_append_escapeChar h c) hes

theorem quotesEscaped_escape (s : String) : QuotesEscaped (escape s).toList := by
  intro before behind h
  rw [toList_escape] at h
  have hnone : slashes [] % 2 = 0 := rfl
  exact odd_slashes_of_flatMap hnone h

end Literal

/-! ## Elements of string arrays -/

open Literal

/-- The line of an element, without its indentation. -/
theorem toList_content_stringElement (s : String) :
    (Fragment.stringElement s).content.toList = literal s ++ [','] := by
  simp [Fragment.content, literal]

/-- The text that an element is written as: one line. -/
theorem text_stringElement (unit : String) (level : Nat) (s : String) :
    (Layout.text unit (Layout.layout level [.stringElement s])).toList =
      (String.join (List.replicate level unit)).toList ++ (literal s ++ [',', '\n']) := by
  have hline : '\n' ∉ (Fragment.stringElement s).content.toList := by
    simp [toList_content_stringElement, literal, lineFeed_notMem_escape]
  have hne : (Fragment.stringElement s).content ≠ "" := by
    simp [← String.toList_inj, toList_content_stringElement]
  rw [Writer.layout_of_notMem hline, Layout.text_cons, Layout.text_nil, String.append_empty,
    Layout.lineText, if_neg hne, String.toList_append, String.toList_append,
    toList_content_stringElement]
  simp [Fragment.depth, Fragment.closes]

/-- **An element of a string array is one faithful literal.** Whatever a writer without bounds has
written before, and whatever the text, it writes one line: a unit of indentation per level, the
literal of the text, a comma, and the only line feed of the line, if there is none in the unit. The
literal is read back as the text up to its closing quote, whatever follows; so no two texts are
escaped alike. An escaped text holds no line feed, no tab, and no quote that is not escaped. -/
theorem stringElement_faithful (stored : ByteArray) (unit : String) (level : Nat) (s : String) :
    (∃ (w : Writer Device) (written : String),
      Writer.put (.stringElement s) ⟨{ Device.unlimited with stored }, unit, level⟩ = .ok () w ∧
        w.level = level ∧ w.sink.stored = stored ++ written.toUTF8 ∧
        written.toList =
          (String.join (List.replicate level unit)).toList ++ (literal s ++ [',', '\n']) ∧
        ('\n' ∉ unit.toList →
          ∃ bytes, written.toUTF8.data.toList = bytes ++ [10] ∧ 10 ∉ bytes)) ∧
      (∀ rest, read? (literal s ++ rest) = some (s, rest)) ∧
      Function.Injective escape ∧
      '\n' ∉ (escape s).toList ∧ '\t' ∉ (escape s).toList ∧ QuotesEscaped (escape s).toList := by
  refine ⟨?_, read?_literal s, escape_injective, lineFeed_notMem_escape s, tab_notMem_escape s,
    quotesEscaped_escape s⟩
  have hput := Writer.put_of_unbounded
    (w := ⟨{ Device.unlimited with stored }, unit, level⟩) rfl (.stringElement s)
  have htext := text_stringElement unit level s
  refine ⟨_, _, hput, rfl, Device.stored_given_of_unbounded rfl _, htext, fun hunit => ?_⟩
  have hmargin : '\n' ∉ (String.join (List.replicate level unit)).toList :=
    fun h => hunit (Writer.mem_of_mem_units h)
  have hend : literal s ++ [',', '\n'] = literal s ++ [','] ++ ['\n'] := by
    rw [List.append_assoc]
    rfl
  rw [hend, ← List.append_assoc] at htext
  refine Utf8.exists_bytes_of_lineFeed htext ?_
  rw [List.mem_append, not_or]
  exact ⟨hmargin, by simp [literal, lineFeed_notMem_escape]⟩

/-- A text with all that is escaped, and a backslash at its end. -/
theorem stringElement_faithful_of_escapes :
    let s := "\"\n\t\\"
    '\n' ∉ "  ".toList ∧
      (∃ (w : Writer Device) (written : String),
        Writer.put (.stringElement s) ⟨.unlimited, "  ", 2⟩ = .ok () w ∧
          w.sink.stored = written.toUTF8 ∧ written = "    \"\\\"\\n\\t\\\\\",\n" ∧
          ∃ bytes, written.toUTF8.data.toList = bytes ++ [10] ∧ 10 ∉ bytes) ∧
      read? (literal s ++ ['"', ',']) = some (s, ['"', ',']) := by
  intro s
  have hunit : '\n' ∉ "  ".toList := by decide
  obtain ⟨⟨w, written, hput, -, hstored, hwritten, hline⟩, hread, -⟩ :=
    stringElement_faithful .empty "  " 2 s
  refine ⟨hunit, ⟨w, written, hput, ?_, ?_, hline hunit⟩, hread ['"', ',']⟩
  · rw [hstored, ByteArray.empty_append]
  · rw [← String.toList_inj, hwritten]
    decide

/-- A backslash at the end of a text does not escape the closing quote. -/
example : literal "\"\\" = "\"\\\"\\\\\"".toList := by decide

end NetlistTables.Code
