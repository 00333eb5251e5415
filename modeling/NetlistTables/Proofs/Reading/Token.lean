import NetlistTables.Code.Literal
import NetlistTables.Proofs.Code.Identifier

/-!
# Tokens of C

What a generated file says is defined by reading it as a C compiler does, and the first stage of
that is to cut the text into tokens. The scanner is a machine that takes one character at a time;
its state is a token that has begun and is not yet complete. It knows nothing of how the files are
written: any layout will do, and blanks only separate.

Comments and directives are kept as tokens, so that a later stage can look at what stands beside
them. Trigraphs and spliced lines are not resolved.

`Scans b cs ts b'` says that the characters `cs` lead from the state `b` to the state `b'` and
settle the tokens `ts`. Such scans are composed (`Scans.append`), and the section at the end gives
those of names, numbers, literals and comments.
-/

namespace NetlistTables.Reading

open Code

/-- A token of C text. -/
inductive Token
  /-- An identifier or a keyword. -/
  | word (spelling : String)
  | number (value : Nat)
  /-- A string literal, by the text that it stands for. -/
  | text (value : String)
  | mark (c : Char)
  /-- A comment, by what stands between its delimiters. -/
  | comment (content : String)
  /-- A directive to the preprocessor: the rest of the line after its `#`. -/
  | directive (content : String)
  deriving DecidableEq, Repr

/-- A token that has begun. -/
inductive Begun
  | nothing
  | word (cs : List Char)
  | number (n : Nat)
  | text (cs : List Char)
  /-- A string literal, behind a backslash. -/
  | escape (cs : List Char)
  | slash
  | comment (cs : List Char)
  /-- A comment, behind a star that may end it. -/
  | star (cs : List Char)
  | directive (cs : List Char)
  deriving DecidableEq, Repr

/-- Does `c` only separate tokens? -/
def isBlank (c : Char) : Bool := c == ' ' || c == '\t' || c == '\n' || c == '\r'

/-- The characters that are tokens of their own. -/
def marks : List Char := ['\x7b', '\x7d', '[', ']', '(', ')', '<', '>', '=', ',', ';', '.', '*']

/-- The value of a decimal digit. -/
def digitValue (c : Char) : Nat := c.toNat - '0'.toNat

/-- The character that an escape in a string literal stands for, by what follows the backslash. -/
def escaped? : Char → Option Char
  | 'n' => some '\n'
  | 't' => some '\t'
  | 'r' => some '\r'
  | '"' => some '"'
  | '\'' => some '\''
  | '?' => some '?'
  | '\\' => some '\\'
  | _ => none

/-- One character between tokens: the tokens that it settles, and the state after it. -/
def first (c : Char) : Option (List Token × Begun) :=
  if isBlank c then some ([], .nothing)
  else if isIdentifierHead c then some ([], .word [c])
  else if c.isDigit then some ([], .number (digitValue c))
  else if marks.contains c then some ([.mark c], .nothing)
  else if c = '"' then some ([], .text [])
  else if c = '/' then some ([], .slash)
  else if c = '#' then some ([], .directive [])
  else none

/-- One character: the tokens that it settles, and the state after it. A character that cannot go
on with a word or a number ends it, and is then looked at anew. -/
def step : Begun → Char → Option (List Token × Begun)
  | .nothing, c => first c
  | .word cs, c =>
    if isIdentifierTail c then some ([], .word (cs ++ [c]))
    else (first c).map fun (ts, b) => (.word (String.ofList cs) :: ts, b)
  | .number n, c =>
    if c.isDigit then some ([], .number (10 * n + digitValue c))
    else if isIdentifierTail c then none
    else (first c).map fun (ts, b) => (.number n :: ts, b)
  | .text cs, c =>
    if c = '"' then some ([.text (String.ofList cs)], .nothing)
    else if c = '\\' then some ([], .escape cs)
    else if c = '\n' then none
    else some ([], .text (cs ++ [c]))
  | .escape cs, c => (escaped? c).map fun d => ([], .text (cs ++ [d]))
  | .slash, c => if c = '*' then some ([], .comment []) else none
  | .comment cs, c => if c = '*' then some ([], .star cs) else some ([], .comment (cs ++ [c]))
  | .star cs, c =>
    if c = '/' then some ([.comment (String.ofList cs)], .nothing)
    else if c = '*' then some ([], .star (cs ++ ['*']))
    else some ([], .comment (cs ++ ['*', c]))
  | .directive cs, c =>
    if c = '\n' then some ([.directive (String.ofList cs)], .nothing)
    else some ([], .directive (cs ++ [c]))

/-- A run of characters: the tokens that it settles, and the state after it. -/
def scan : Begun → List Char → Option (List Token × Begun)
  | b, [] => some ([], b)
  | b, c :: cs =>
    (step b c).bind fun (ts, b') => (scan b' cs).map fun (us, b'') => (ts ++ us, b'')

/-- The tokens that the end of the text settles. -/
def Begun.finish : Begun → Option (List Token)
  | .nothing => some []
  | .word cs => some [.word (String.ofList cs)]
  | .number n => some [.number n]
  | .directive cs => some [.directive (String.ofList cs)]
  | _ => none

/-- The tokens of a text. -/
def tokens (s : String) : Option (List Token) :=
  (scan .nothing s.toList).bind fun (ts, b) => b.finish.map (ts ++ ·)

/-! ## Composing scans -/

/-- The characters `cs` lead from `b` to `b'` and settle the tokens `ts`. -/
def Scans (b : Begun) (cs : List Char) (ts : List Token) (b' : Begun) : Prop :=
  scan b cs = some (ts, b')

namespace Scans

variable {b b' b'' : Begun} {cs ds : List Char} {ts us : List Token}

theorem nil (b : Begun) : Scans b [] [] b := rfl

theorem cons {c : Char} (h : step b c = some (ts, b')) (h' : Scans b' cs us b'') :
    Scans b (c :: cs) (ts ++ us) b'' := by
  rw [Scans] at h' ⊢
  simp only [scan, h, Option.bind_some, h', Option.map_some]

/-- A character that settles nothing. -/
theorem cons_nil {c : Char} (h : step b c = some ([], b')) (h' : Scans b' cs us b'') :
    Scans b (c :: cs) us b'' :=
  cons h h'

theorem append (h : Scans b cs ts b') (h' : Scans b' ds us b'') :
    Scans b (cs ++ ds) (ts ++ us) b'' := by
  induction cs generalizing b ts with
  | nil =>
    obtain ⟨rfl, rfl⟩ := Prod.mk.inj (Option.some.inj h)
    exact h'
  | cons c cs ih =>
    rw [Scans, scan, Option.bind_eq_some_iff] at h
    obtain ⟨⟨t₁, b₁⟩, hc, h⟩ := h
    rw [Option.map_eq_some_iff] at h
    obtain ⟨⟨t₂, b₂⟩, hcs, h⟩ := h
    obtain ⟨rfl, rfl⟩ := Prod.mk.inj h
    rw [List.cons_append, List.append_assoc]
    exact cons hc (ih hcs)

/-- A scan of a whole text that ends between tokens gives its tokens. -/
theorem tokens_eq {s : String} (h : Scans .nothing s.toList ts .nothing) : tokens s = some ts := by
  rw [Scans] at h
  simp [tokens, h, Begun.finish]

end Scans

/-! ## The scans of names, numbers, literals and comments -/

theorem scans_blanks {cs : List Char} (h : ∀ c ∈ cs, isBlank c) :
    Scans .nothing cs [] .nothing := by
  induction cs with
  | nil => exact .nil _
  | cons c cs ih =>
    have hc : step .nothing c = some ([], .nothing) := by
      rw [step, first, if_pos (h c (by simp))]
    exact .cons_nil hc (ih fun d hd => h d (by simp [hd]))

theorem scans_wordTail (cs : List Char) {ds : List Char} (h : ds.all isIdentifierTail) :
    Scans (.word cs) ds [] (.word (cs ++ ds)) := by
  induction ds generalizing cs with
  | nil => simpa using Scans.nil (.word cs)
  | cons d ds ih =>
    obtain ⟨hd, hds⟩ := Bool.and_eq_true_iff.1 h
    have := ih (cs ++ [d]) hds
    rw [List.append_assoc, List.singleton_append] at this
    exact .cons_nil (by rw [step, if_pos hd]) this

theorem isBlank_of_isIdentifierTail {c : Char} (h : isIdentifierTail c) : isBlank c = false := by
  cases hb : isBlank c with
  | false => rfl
  | true =>
    simp only [isBlank, Bool.or_eq_true, beq_iff_eq] at hb
    rcases hb with ((rfl | rfl) | rfl) | rfl <;> exact absurd h (by decide)

/-- A name is scanned as one word, which then waits for its end. -/
theorem scans_identifier {s : String} (h : isIdentifier s) :
    Scans .nothing s.toList [] (.word s.toList) := by
  rw [isIdentifier] at h
  split at h
  · cases h
  next c cs hs =>
    obtain ⟨hc, hcs⟩ := Bool.and_eq_true_iff.1 h
    have hfirst : step .nothing c = some ([], .word [c]) := by
      have hb := isBlank_of_isIdentifierTail (isIdentifierTail_of_head hc)
      rw [step, first, if_neg (by simp [hb]), if_pos hc]
    rw [hs]
    exact .cons_nil hfirst (scans_wordTail [c] hcs)

/-- A name is a token of its own where its end is told from what follows. -/
theorem scans_word {s : String} (h : isIdentifier s) {cs : List Char} {ts : List Token} {b : Begun}
    (hend : ∀ ds, Scans (.word ds) cs (.word (String.ofList ds) :: ts) b) :
    Scans .nothing (s.toList ++ cs) (.word s :: ts) b := by
  have hword := hend s.toList
  rw [String.ofList_toList] at hword
  exact (scans_identifier h).append hword

theorem scans_digits {cs : List Char} (h : ∀ c ∈ cs, c.isDigit) (n : Nat) :
    Scans (.number n) cs [] (.number (Nat.ofDigitChars 10 cs n)) := by
  induction cs generalizing n with
  | nil => exact .nil _
  | cons c cs ih =>
    have hc : step (.number n) c = some ([], .number (10 * n + digitValue c)) := by
      rw [step, if_pos (h c (by simp))]
    rw [Nat.ofDigitChars_cons]
    exact .cons_nil hc (ih (fun d hd => h d (by simp [hd])) _)

theorem first_of_isDigit {c : Char} (h : c.isDigit) :
    first c = some ([], .number (digitValue c)) := by
  have hb := isBlank_of_isIdentifierTail (isIdentifierTail_of_isDigit h)
  have hc := isIdentifierHead_of_isDigit h
  rw [first, if_neg (by simp [hb]), if_neg (by simp [hc]), if_pos h]

/-- A number in decimal is scanned as its value. -/
theorem scans_decimal (n : Nat) : Scans .nothing (toString n).toList [] (.number n) := by
  have hdigits : ∀ c ∈ Nat.toDigits 10 n, c.isDigit := fun c => isDigit_of_mem_toDigits
  have hvalue := Nat.ofDigitChars_ten_toDigits (n := n)
  rw [Nat.toString_eq_ofList_toDigits, String.toList_ofList]
  cases hs : Nat.toDigits 10 n with
  | nil => exact absurd hs Nat.toDigits_ne_nil
  | cons c cs =>
    rw [hs] at hdigits hvalue
    rw [Nat.ofDigitChars_cons, Nat.mul_zero, Nat.zero_add] at hvalue
    have hcs : ∀ d ∈ cs, d.isDigit := fun d hd => hdigits d (by simp [hd])
    have := scans_digits hcs (digitValue c)
    rw [digitValue, hvalue] at this
    exact .cons_nil (first_of_isDigit (hdigits c (by simp))) this

/-- The escaped form of a text is scanned as the text itself, whatever it holds. -/
theorem scans_escape (ds cs : List Char) :
    Scans (.text ds) (cs.flatMap Literal.escapeChar) [] (.text (ds ++ cs)) := by
  induction cs generalizing ds with
  | nil => simpa using Scans.nil (.text ds)
  | cons c cs ih =>
    have hc : Scans (.text ds) (Literal.escapeChar c) [] (.text (ds ++ [c])) := by
      unfold Literal.escapeChar
      split
      · rfl
      · rfl
      · rfl
      · rfl
      next h₁ h₂ h₃ h₄ =>
        have hc : step (.text ds) c = some ([], .text (ds ++ [c])) := by
          rw [step, if_neg h₂, if_neg h₁, if_neg h₃]
        exact .cons_nil hc (.nil _)
    have := hc.append (ih (ds ++ [c]))
    rwa [List.append_assoc, List.singleton_append] at this

/-- A literal of the escaped form of a text is a token for the text, from its opening quote on. -/
theorem scans_literal (s : String) {cs : List Char} {ts : List Token} {b : Begun}
    (hend : ∀ ds, Scans (.text ds) cs (.text (String.ofList ds) :: ts) b) :
    Scans .nothing ('"' :: (s.toList.flatMap Literal.escapeChar ++ cs)) (.text s :: ts) b := by
  have htext := hend s.toList
  rw [String.ofList_toList] at htext
  exact .cons_nil rfl ((scans_escape [] s.toList).append htext)

/-- A text without stars is scanned as the inside of a comment. -/
theorem scans_commentContent (ds : List Char) {cs : List Char} (h : '*' ∉ cs) :
    Scans (.comment ds) cs [] (.comment (ds ++ cs)) := by
  induction cs generalizing ds with
  | nil => simpa using Scans.nil (.comment ds)
  | cons c cs ih =>
    rw [List.mem_cons, not_or] at h
    have hc : step (.comment ds) c = some ([], .comment (ds ++ [c])) := by
      rw [step, if_neg (Ne.symm h.1)]
    have := ih (ds ++ [c]) h.2
    rw [List.append_assoc, List.singleton_append] at this
    exact .cons_nil hc this

end NetlistTables.Reading
