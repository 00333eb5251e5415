import NetlistTables.Proofs.Code.Comment
import NetlistTables.Proofs.Code.Literal
import NetlistTables.Proofs.Reading.Item

/-!
# What fragments are read as

The text that a writer makes of some fragments is read back as tokens, whatever the level it starts
from and whatever blanks it is indented with. `Spells fs ts` says that the fragments `fs` are read
as the tokens `ts`, and it is closed under appending; so the tokens of a whole file are found
fragment by fragment, and the indentation never shows. `Reads fs is` says that these tokens make up
the items `is`.
-/

namespace NetlistTables.Code

open Reading

/-! ## Spellings of fragments -/

/-- The fragments `fs` are read as the tokens `ts`, at any level and with any blank indentation. -/
def Spells (fs : List Fragment) (ts : List Token) : Prop :=
  ∀ (unit : String) (level : Nat), (∀ c ∈ unit.toList, isBlank c) →
    Scans .nothing (Layout.text unit (Layout.layout level fs)).toList ts .nothing

namespace Spells

variable {fs gs : List Fragment} {ts us : List Token}

theorem nil : Spells [] [] := by
  intro unit level _
  rw [Layout.layout, Layout.text_nil]
  exact .nil _

theorem append (h : Spells fs ts) (h' : Spells gs us) : Spells (fs ++ gs) (ts ++ us) := by
  intro unit level hunit
  rw [Layout.layout_append, Layout.text_append, String.toList_append]
  exact (h unit level hunit).append (h' unit _ hunit)

theorem cons {f : Fragment} (h : Spells [f] ts) (h' : Spells gs us) :
    Spells (f :: gs) (ts ++ us) :=
  h.append h'

theorem flatMap {α : Type} {xs : List α} {f : α → List Fragment} {g : α → List Token}
    (h : ∀ x ∈ xs, Spells (f x) (g x)) : Spells (xs.flatMap f) (xs.flatMap g) := by
  induction xs with
  | nil => exact nil
  | cons x xs ih =>
    rw [List.flatMap_cons, List.flatMap_cons]
    exact (h x (by simp)).append (ih fun y hy => h y (by simp [hy]))

theorem map {α : Type} {xs : List α} {f : α → Fragment} {g : α → List Token}
    (h : ∀ x ∈ xs, Spells [f x] (g x)) : Spells (xs.map f) (xs.flatMap g) := by
  rw [List.map_eq_flatMap]
  exact flatMap h

/-- A fragment of one line is read as that line, ended by its line feed. -/
theorem line {f : Fragment} (hf : '\n' ∉ f.content.toList)
    (h : Scans .nothing (f.content.toList ++ ['\n']) ts .nothing) : Spells [f] ts := by
  intro unit level hunit
  rw [Writer.layout_of_notMem hf, Layout.text_cons, Layout.text_nil, String.append_empty,
    Layout.lineText]
  simp only [String.toList_append]
  -- the indentation is blank, and all that differs from the line itself
  have hindent : ∀ c ∈ (if f.content = "" then ""
      else String.join (List.replicate (f.depth level) unit)).toList, isBlank c := by
    split
    · simp
    · exact fun c hc => hunit c (Writer.mem_of_mem_units hc)
  rw [List.append_assoc]
  exact (scans_blanks hindent).append h

end Spells

/-! ## The fragments, one by one -/

theorem spells_blank : Spells [.blank] [] := .line (by decide) rfl

theorem spells_blockClose : Spells [.blockClose] [.mark '\x7d', .mark ';'] := .line (by decide) rfl

theorem spells_elementOpen : Spells [.elementOpen] [.mark '\x7b'] := .line (by decide) rfl

theorem spells_elementClose : Spells [.elementClose] [.mark '\x7d', .mark ','] :=
  .line (by decide) rfl

theorem spells_enumOpen : Spells [.enumOpen none] [.word "enum", .mark '\x7b'] :=
  .line (by decide) rfl

/-- A directive is one line, which begins with its `#`. -/
theorem spells_directive {f : Fragment} {s : String} (hf : f.content = "#" ++ s)
    (hs : '\n' ∉ s.toList) : Spells [f] [.directive s] := by
  have hcontent : f.content.toList = '#' :: s.toList := by simp [hf]
  have hscan (ds cs : List Char) (h : '\n' ∉ cs) :
      Scans (.directive ds) (cs ++ ['\n']) [.directive (String.ofList (ds ++ cs))] .nothing := by
    induction cs generalizing ds with
    | nil =>
      rw [List.append_nil]
      rfl
    | cons c cs ih =>
      rw [List.mem_cons, not_or] at h
      have hc : step (.directive ds) c = some ([], .directive (ds ++ [c])) := by
        rw [step, if_neg (Ne.symm h.1)]
      have := ih (ds ++ [c]) h.2
      rw [List.append_assoc, List.singleton_append] at this
      exact .cons_nil hc this
  refine .line (by simpa [hcontent] using hs) ?_
  rw [hcontent, List.cons_append]
  have := hscan [] s.toList hs
  rw [List.nil_append, String.ofList_toList] at this
  exact .cons_nil rfl this

/-- A comment that holds no star is read as it stands, between blanks. -/
theorem spells_comment {s : String} (hstar : '*' ∉ s.toList) (hline : '\n' ∉ s.toList) :
    Spells [.comment s] [.comment (" " ++ s ++ " ")] := by
  have hpart : Comment.part s.toList = s.toList :=
    Comment.part_of_isOpen (Comment.isOpen_of_notMem hstar)
  have hcontent : (Fragment.comment s).content.toList =
      "/*".toList ++ (' ' :: s.toList ++ [' ']) ++ "*/".toList := by
    simp [Fragment.content, Comment.enclose, Comment.escape, hpart]
  refine .line (by simp [hcontent, hline]) ?_
  rw [hcontent, List.append_assoc, List.append_assoc]
  have hbegin : Scans .nothing "/*".toList [] (.comment []) := rfl
  have hstar' : '*' ∉ ' ' :: s.toList ++ [' '] := by simp [hstar]
  have hinside := scans_commentContent [] hstar'
  have hend (ds : List Char) : Scans (.comment ds) ("*/".toList ++ ['\n'])
      [.comment (String.ofList ds)] .nothing := rfl
  have := hbegin.append (hinside.append (hend _))
  have hs : String.ofList ([] ++ (' ' :: s.toList ++ [' '])) = " " ++ s ++ " " := by
    rw [← String.toList_inj]
    simp
  rwa [hs] at this

/-- A declaration of an array is read as its own tokens, of which the last is the name. -/
theorem spells_arrayOpen {d s : String} {ts : List Token} (hline : '\n' ∉ d.toList)
    (h : Scans .nothing d.toList ts (.word s.toList)) :
    Spells [.arrayOpen d] (ts ++ [.word s, .mark '[', .mark ']', .mark '=', .mark '\x7b']) := by
  have hcontent : (Fragment.arrayOpen d).content.toList = d.toList ++ "[] = \x7b".toList := by
    simp [Fragment.content]
  refine .line (by simp [hcontent, hline]) ?_
  rw [hcontent, List.append_assoc]
  have hend : Scans (.word s.toList) ("[] = \x7b".toList ++ ['\n'])
      [.word (String.ofList s.toList), .mark '[', .mark ']', .mark '=', .mark '\x7b'] .nothing := rfl
  rw [String.ofList_toList] at hend
  exact h.append hend

/-- An element is read as the text that it was made of, whatever that holds. -/
theorem spells_stringElement (v : String) : Spells [.stringElement v] [.text v, .mark ','] := by
  have hcontent : (Fragment.stringElement v).content.toList =
      '"' :: (v.toList.flatMap Literal.escapeChar ++ "\",".toList) := by
    simp [Fragment.content, Literal.escape]
  refine .line (by simp [hcontent, Literal.lineFeed_notMem_escapeChar]) ?_
  rw [hcontent, List.cons_append, List.append_assoc]
  exact scans_literal v fun _ => rfl

/-! ## Names and values -/

/-- The text `v` is read as the token `t` where a comma or the end of the line follows. -/
structure IsSpelling (v : String) (t : Token) : Prop where
  oneLine : '\n' ∉ v.toList
  beforeComma : Scans .nothing (v.toList ++ [',', '\n']) [t, .mark ','] .nothing
  beforeEnd : Scans .nothing (v.toList ++ ['\n']) [t] .nothing

theorem isSpelling_word {s : String} (h : isIdentifier s) : IsSpelling s (.word s) where
  oneLine := lineFeed_notMem_of_isIdentifier h
  beforeComma := scans_word h fun _ => rfl
  beforeEnd := scans_word h fun _ => rfl

theorem lineFeed_notMem_toDigits (n : Nat) : '\n' ∉ Nat.toDigits 10 n := by
  intro h
  cases isDigit_of_mem_toDigits h

theorem isSpelling_number (n : Nat) : IsSpelling (toString n) (.number n) where
  oneLine := by simp [lineFeed_notMem_toDigits]
  beforeComma := (scans_decimal n).append (rfl : Scans (.number n) [',', '\n'] _ .nothing)
  beforeEnd := (scans_decimal n).append (rfl : Scans (.number n) ['\n'] _ .nothing)

/-- An identifier needs no escapes inside a literal. -/
theorem isSpelling_text {s : String} (h : isIdentifier s) :
    IsSpelling ("\"" ++ s ++ "\"") (.text s) := by
  have hplain (cs : List Char) (hcs : ∀ c ∈ cs, isIdentifierTail c) :
      cs.flatMap Literal.escapeChar = cs := by
    induction cs with
    | nil => rfl
    | cons c cs ih =>
      have hc : Literal.escapeChar c = [c] := by
        have := hcs c (by simp)
        unfold Literal.escapeChar
        split <;> first | rfl | exact absurd this (by decide)
      rw [List.flatMap_cons, hc, ih fun d hd => hcs d (by simp [hd])]
      rfl
  have hcontent : ("\"" ++ s ++ "\"").toList =
      '"' :: (s.toList.flatMap Literal.escapeChar ++ ['"']) := by
    rw [hplain _ fun c hc => isIdentifierTail_of_mem h hc]
    simp
  refine ⟨by simp [lineFeed_notMem_of_isIdentifier h], ?_, ?_⟩
  · rw [hcontent, List.cons_append, List.append_assoc]
    exact scans_literal s fun _ => rfl
  · rw [hcontent, List.cons_append, List.append_assoc]
    exact scans_literal s fun _ => rfl

/-- The tokens of the initializer of a field, without the comma that may follow it. -/
def fieldTokens (name : String) (t : Token) : List Token :=
  [.mark '.', .word name, .mark '=', t]

theorem spells_field {name v : String} {t : Token} (hname : isIdentifier name)
    (h : IsSpelling v t) (last : Bool) :
    Spells [.field name v last] (fieldTokens name t ++ if last then [] else [.mark ',']) := by
  have hcontent : (Fragment.field name v last).content.toList =
      '.' :: (name.toList ++ (" = ".toList ++ (v.toList ++ if last then [] else [',']))) := by
    cases last <;> simp [Fragment.content]
  have hline := lineFeed_notMem_of_isIdentifier hname
  refine .line (by cases last <;> simp [hcontent, hline, h.oneLine]) ?_
  have hname : Scans .nothing (name.toList ++ " = ".toList) [.word name, .mark '='] .nothing :=
    scans_word hname fun _ => rfl
  have hvalue : Scans .nothing (v.toList ++ (if last then [] else [',']) ++ ['\n'])
      (t :: if last then [] else [.mark ',']) .nothing := by
    cases last with
    | true => simpa using h.beforeEnd
    | false => simpa using h.beforeComma
  have hdot : step .nothing '.' = some ([.mark '.'], .nothing) := rfl
  rw [hcontent]
  simp only [List.cons_append, List.append_assoc] at hvalue ⊢
  rw [← List.append_assoc]
  have hall := Scans.cons hdot (hname.append hvalue)
  exact hall

theorem spells_enumerator {name : String} (h : isIdentifier name) (k : Nat) :
    Spells [.enumerator name (some k)] [.word name, .mark '=', .number k, .mark ','] := by
  have hcontent : (Fragment.enumerator name (some k)).content.toList =
      name.toList ++ (" = ".toList ++ ((toString k).toList ++ [','])) := by
    simp [Fragment.content]
  have hline := lineFeed_notMem_of_isIdentifier h
  refine .line (by simp [hcontent, hline, lineFeed_notMem_toDigits]) ?_
  have hname : Scans .nothing (name.toList ++ " = ".toList) [.word name, .mark '='] .nothing :=
    scans_word h fun _ => rfl
  rw [hcontent]
  simp only [List.append_assoc]
  rw [← List.append_assoc]
  exact hname.append (isSpelling_number k).beforeComma

/-! ## Items -/

/-- The fragments `fs` are read as the items `is`, at any level and with any blank indentation. -/
def Reads (fs : List Fragment) (is : List Item) : Prop := ∃ ts, Spells fs ts ∧ Declares ts is

namespace Reads

variable {fs gs : List Fragment} {is js : List Item}

theorem nil : Reads [] [] := ⟨[], .nil, .nil⟩

theorem append (h : Reads fs is) (h' : Reads gs js) : Reads (fs ++ gs) (is ++ js) := by
  obtain ⟨ts, hs, hd⟩ := h
  obtain ⟨us, hs', hd'⟩ := h'
  exact ⟨ts ++ us, hs.append hs', hd.append hd'⟩

theorem cons {f : Fragment} (h : Reads [f] is) (h' : Reads gs js) : Reads (f :: gs) (is ++ js) :=
  h.append h'

theorem flatMap {α : Type} {xs : List α} {f : α → List Fragment} {g : α → List Item}
    (h : ∀ x ∈ xs, Reads (f x) (g x)) : Reads (xs.flatMap f) (xs.flatMap g) := by
  induction xs with
  | nil => exact nil
  | cons x xs ih =>
    rw [List.flatMap_cons, List.flatMap_cons]
    exact (h x (by simp)).append (ih fun y hy => h y (by simp [hy]))

theorem blank : Reads [.blank] [] := ⟨[], spells_blank, .nil⟩

theorem comment {s : String} (hstar : '*' ∉ s.toList) (hline : '\n' ∉ s.toList) :
    Reads [.comment s] [.comment (" " ++ s ++ " ")] :=
  ⟨_, spells_comment hstar hline, .comment _⟩

theorem directive {f : Fragment} {s : String} (hf : f.content = "#" ++ s) (hs : '\n' ∉ s.toList) :
    Reads [f] [.directive s] :=
  ⟨_, spells_directive hf hs, .directive s⟩

/-- The layout of fragments is read as their items. -/
theorem items_text (h : Reads fs is) {unit : String} (hunit : ∀ c ∈ unit.toList, isBlank c)
    (level : Nat) : items (Layout.text unit (Layout.layout level fs)) = some is := by
  obtain ⟨ts, hs, hd⟩ := h
  exact hd.items_eq (hs unit level hunit).tokens_eq

end Reads

end NetlistTables.Code
