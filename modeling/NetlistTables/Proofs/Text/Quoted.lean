import NetlistTables.Text.Quoted

/-!
# Reading quoted text

A quoted text holds nothing but characters that are shown as themselves, whatever the text holds
(`isShown_of_mem_quote`); so there is no control character in it, and it stays on one line. And it
can be read back: `read?` is a reader of quoted texts that knows nothing of which characters are
escaped, and it gives every text back from its quoted form (`read?_quote`). A backslash, a quote or
what looks like an escape in the text is not taken for an escape in the quoted form.
-/

namespace NetlistTables.Text

/-- Is `c` a control character: one of ASCII, or one of the 32 next to ASCII? -/
def IsControl (c : Char) : Prop := c.toNat < 0x20 ∨ 0x7F ≤ c.toNat ∧ c.toNat < 0xA0

instance (c : Char) : Decidable (IsControl c) := inferInstanceAs (Decidable (_ ∨ _))

namespace Quoted

/-! ## Characters of quoted texts -/

/-- The first range of the table begins where ASCII ends. -/
theorem isUnprintable_of_le {c : Char} (h : 0x80 ≤ c.toNat) (h' : c.toNat ≤ 0xA0) :
    isUnprintable c := by
  rw [isUnprintable, unprintableRanges, List.any_toArray, List.any_cons]
  exact Bool.or_eq_true_iff.2 (.inl (by simp [h, h']))

theorem not_isControl_of_isShown {c : Char} (h : isShown c) : ¬ IsControl c := by
  unfold isShown at h
  unfold IsControl
  split at h
  next hascii =>
    simp only [Bool.and_eq_true, decide_eq_true_eq] at h
    omega
  next hbeyond =>
    rintro (hlow | ⟨-, hhigh⟩)
    · omega
    · have hunprintable := isUnprintable_of_le (c := c) (by omega) (by omega)
      simp [hunprintable] at h

/-- What stands for bytes that are no text is seen: it is in no range of the three tables. -/
theorem isShown_replacement : isShown '\uFFFD' := by
  have hunprintable : isUnprintable '\uFFFD' = false := by
    rw [isUnprintable, unprintableRanges, List.any_toArray]
    decide +kernel
  have hignorable : isDefaultIgnorable '\uFFFD' = false := by
    rw [isDefaultIgnorable, defaultIgnorableRanges, List.any_toArray]
    decide +kernel
  have hmark : isCombiningMark '\uFFFD' = false := by
    rw [isCombiningMark, combiningMarkRanges, List.any_toArray]
    decide +kernel
  rw [isShown, if_neg (by decide), hunprintable, hignorable, hmark]
  rfl

/-- The digits of a number in hexadecimal. -/
theorem exists_digitChar_of_mem_toDigits {n : Nat} {c : Char} (h : c ∈ Nat.toDigits 16 n) :
    ∃ d < 16, c = Nat.digitChar d := by
  induction n using Nat.strongRecOn with
  | _ n ih =>
    rcases Nat.lt_or_ge n 16 with hn | hn
    · rw [Nat.toDigits_of_lt_base hn, List.mem_singleton] at h
      exact ⟨n, hn, h⟩
    · rw [Nat.toDigits_of_base_le (by decide) hn, List.mem_append, List.mem_singleton] at h
      rcases h with h | h
      · exact ih (n / 16) (by omega) h
      · exact ⟨n % 16, Nat.mod_lt _ (by decide), h⟩

theorem isShown_of_mem_numeric {c d : Char} (h : d ∈ numeric c) : isShown d := by
  have hdigits : ∀ d < 16, isShown (Nat.digitChar d) := by decide
  have hmarks : ∀ d ∈ ['\\', 'u', '\x7b', '\x7d'], isShown d := List.all_eq_true.1 rfl
  rw [numeric, List.mem_append, List.mem_append] at h
  rcases h with (h | h) | h
  · exact hmarks d (List.mem_append_left ['\x7d'] h)
  · obtain ⟨k, hk, rfl⟩ := exists_digitChar_of_mem_toDigits h
    exact hdigits k hk
  · exact hmarks d (List.mem_append_right ['\\', 'u', '\x7b'] h)

/-- The quoted form of a character is shown as it is. -/
theorem isShown_of_mem_escapeChar {c d : Char} (h : d ∈ escapeChar c) : isShown d := by
  have hpair {e : Char} (he : isShown e) (h : d ∈ ['\\', e]) : isShown d := by
    rcases List.mem_cons.1 h with rfl | h
    · decide
    · rwa [List.mem_singleton.1 h]
  unfold escapeChar at h
  split at h
  case h_7 =>
    split at h
    next hc => rwa [List.mem_singleton.1 h]
    next => exact isShown_of_mem_numeric h
  all_goals exact hpair (by decide) h

/-- **A quoted text is shown as it is**, character by character. -/
theorem isShown_of_mem_quote {s : String} {d : Char} (h : d ∈ (quote s).toList) : isShown d := by
  have hmark : isShown '"' := by decide
  rw [quote, String.toList_ofList, List.cons_append, List.mem_cons, List.mem_append,
    List.mem_singleton, List.mem_flatMap] at h
  rcases h with rfl | ⟨c, -, h⟩ | rfl
  · exact hmark
  · exact isShown_of_mem_escapeChar h
  · exact hmark

/-! ## A reader of quoted texts -/

/-- Where a reader stands inside of a quoted text. -/
inductive Inside
  | text
  /-- Behind a backslash. -/
  | escape
  /-- Behind the letter of a numeric escape. -/
  | number
  /-- Behind some digits of a numeric escape, which have a value. -/
  | digits (value : Nat)
  deriving DecidableEq, Repr

/-- The character that an escape stands for, by what follows its backslash. -/
def escaped? : Char → Option Char
  | '0' => some '\x00'
  | 't' => some '\t'
  | 'n' => some '\n'
  | 'r' => some '\r'
  | '"' => some '"'
  | '\\' => some '\\'
  | _ => none

/-- The value of a hexadecimal digit. -/
def hexValue? (c : Char) : Option Nat :=
  if c.isDigit then some (c.toNat - '0'.toNat)
  else if 'a' ≤ c ∧ c ≤ 'f' then some (10 + (c.toNat - 'a'.toNat))
  else none

/-- The text that goes on from a place inside of a quoted text, up to the quote at its end. -/
def readFrom : Inside → List Char → Option (List Char)
  | .text, c :: cs =>
    if c = '"' then if cs.isEmpty then some [] else none
    else if c = '\\' then readFrom .escape cs
    else (readFrom .text cs).map (c :: ·)
  | .escape, c :: cs =>
    if c = 'u' then readFrom .number cs
    else (escaped? c).bind fun d => (readFrom .text cs).map (d :: ·)
  | .number, c :: cs => if c = '\x7b' then readFrom (.digits 0) cs else none
  | .digits n, c :: cs =>
    if c = '\x7d' then (readFrom .text cs).map (Char.ofNat n :: ·)
    else (hexValue? c).bind fun d => readFrom (.digits (16 * n + d)) cs
  | _, [] => none

/-- The text that a quoted text stands for. -/
def read? : List Char → Option String
  | '"' :: cs => (readFrom .text cs).map String.ofList
  | _ => none

theorem readFrom_digitChar {d : Nat} (h : d < 16) (n : Nat) (cs : List Char) :
    readFrom (.digits n) (Nat.digitChar d :: cs) = readFrom (.digits (16 * n + d)) cs := by
  have hvalue : ∀ d < 16, hexValue? (Nat.digitChar d) = some d := by decide
  rw [readFrom, if_neg (Nat.digitChar_ne _ rfl), hvalue d h, Option.bind_some]

/-- The digits of a number have its value. -/
theorem readFrom_toDigits (n : Nat) (cs : List Char) :
    readFrom (.digits 0) (Nat.toDigits 16 n ++ cs) = readFrom (.digits n) cs := by
  induction n using Nat.strongRecOn generalizing cs with
  | _ n ih =>
    rcases Nat.lt_or_ge n 16 with hn | hn
    · rw [Nat.toDigits_of_lt_base hn, List.singleton_append, readFrom_digitChar hn, Nat.mul_zero,
        Nat.zero_add]
    · rw [Nat.toDigits_of_base_le (by decide) hn, List.append_assoc, List.singleton_append,
        ih (n / 16) (by omega), readFrom_digitChar (Nat.mod_lt n (by decide)), Nat.div_add_mod]

theorem readFrom_numeric (c : Char) (cs : List Char) :
    readFrom .text (numeric c ++ cs) = (readFrom .text cs).map (c :: ·) := by
  have hopen (ds : List Char) : readFrom .text (['\\', 'u', '\x7b'] ++ ds) =
      readFrom (.digits 0) ds := rfl
  rw [numeric, List.append_assoc, List.append_assoc, hopen, readFrom_toDigits,
    List.singleton_append, readFrom, if_pos rfl, Char.ofNat_toNat]

/-- A character is read back from its quoted form. -/
theorem readFrom_escapeChar (c : Char) (cs : List Char) :
    readFrom .text (escapeChar c ++ cs) = (readFrom .text cs).map (c :: ·) := by
  unfold escapeChar
  split
  case h_7 hquote hslash =>
    split
    · rw [List.singleton_append, readFrom, if_neg hquote, if_neg hslash]
    · exact readFrom_numeric c cs
  all_goals rfl

/-- A text is read back from its quoted form. -/
theorem read?_quote (s : String) : read? (quote s).toList = some s := by
  have hbody (cs : List Char) : readFrom .text (cs.flatMap escapeChar ++ ['"']) = some cs := by
    induction cs with
    | nil => rfl
    | cons c cs ih =>
      rw [List.flatMap_cons, List.append_assoc, readFrom_escapeChar, ih, Option.map_some]
  rw [quote, String.toList_ofList, List.cons_append, read?, hbody, Option.map_some,
    String.ofList_toList]

end Quoted

end NetlistTables.Text
