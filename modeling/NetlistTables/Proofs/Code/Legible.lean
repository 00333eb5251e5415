import NetlistTables.Proofs.Code.Indentation
import NetlistTables.Proofs.Code.Spelling

/-!
# Legible fragments

The lines of a text show by their ends which lists they open and close: a line that ends in a brace
opens one, and a line that is a closing brace and a separator closes one. A fragment is legible if
its text is one line that shows in this way what the fragment does to the indentation. Comments are
legible as long as they are one line, and what comes from an identifier is; the elements of string
arrays are, whatever braces and tabs the strings hold.
-/

namespace NetlistTables.Code

/-! ## Lines that open and close lists -/

namespace Nesting

/-- Does a line open a list? -/
def opensList (l : List Char) : Bool := l.getLast? == some '\x7b'

/-- Does a line close a list, whatever its indentation? -/
def closesList (l : List Char) : Bool :=
  ["\x7d;".toList, "\x7d,".toList].contains (l.dropWhile (· == '\t'))

/-- The number of tabs that a line begins with. -/
def tabs (l : List Char) : Nat := (l.takeWhile (· == '\t')).length

end Nesting

open Nesting

namespace Fragment

/-- The text of a fragment is one line, which shows how the fragment changes the indentation, and
no tab before it is taken for a part of the indentation. -/
structure IsLegible (f : Fragment) : Prop where
  oneLine : '\n' ∉ f.content.toList
  untabbed : f.content.toList.head? ≠ some '\t'
  opens_eq : opensList f.content.toList = f.opens
  closes_eq : closesList f.content.toList = f.closes

instance (f : Fragment) : Decidable f.IsLegible :=
  decidable_of_iff (_ ∧ _ ∧ _ ∧ _) ⟨fun ⟨h₁, h₂, h₃, h₄⟩ => ⟨h₁, h₂, h₃, h₄⟩,
    fun ⟨h₁, h₂, h₃, h₄⟩ => ⟨h₁, h₂, h₃, h₄⟩⟩

/-- The first and the last character of a line show that it closes no list, and whether it opens
one. -/
theorem IsLegible.of_ends {f : Fragment} {c d : Char} (hline : '\n' ∉ f.content.toList)
    (hhead : f.content.toList.head? = some c) (hlast : f.content.toList.getLast? = some d)
    (hc : c ≠ '\t' ∧ c ≠ '\x7d') (hopens : f.opens = (d == '\x7b')) (hcloses : f.closes = false) :
    f.IsLegible := by
  obtain ⟨cs, hcs⟩ := List.head?_eq_some_iff.1 hhead
  have hdrop : (c :: cs).dropWhile (· == '\t') = c :: cs :=
    List.dropWhile_cons_of_neg (by simpa using hc.1)
  refine ⟨hline, ?_, ?_, ?_⟩
  · rw [hhead]
    exact fun h => hc.1 (Option.some.inj h)
  · rw [opensList, hlast, hopens]
    rfl
  · rw [hcs, hcloses, closesList, hdrop]
    simp [hc.2]

/-- A legible fragment at a depth is written as a line that shows it. -/
theorem IsLegible.lineChars {f : Fragment} (h : f.IsLegible) (n : Nat) :
    let l := Layout.lineChars "\t" (n, f.content)
    opensList l = f.opens ∧ closesList l = f.closes ∧ (l ≠ [] → tabs l = n) := by
  intro l
  have hl : l = List.replicate (Layout.margin (n, f.content)) '\t' ++ f.content.toList := by
    rw [← Layout.toList_units_tab]
    rfl
  have htab : ∀ c ∈ List.replicate (Layout.margin (n, f.content)) '\t', c == '\t' :=
    fun c hc => beq_of_eq (List.eq_of_mem_replicate hc)
  cases hcs : f.content.toList with
  | nil =>
    have hempty : l = f.content.toList := by
      have hmargin : Layout.margin (n, f.content) = 0 := if_pos (String.toList_eq_nil_iff.1 hcs)
      rw [hl, hmargin]
      rfl
    rw [hempty, h.opens_eq, h.closes_eq]
    exact ⟨rfl, rfl, fun hne => absurd hcs hne⟩
  | cons c cs =>
    have hc : (c == '\t') = false := by
      have huntabbed := h.untabbed
      rw [hcs] at huntabbed
      simpa using huntabbed
    have hne : f.content ≠ "" := fun hf => by simp [hf] at hcs
    have hmargin : Layout.margin (n, f.content) = n := if_neg hne
    refine ⟨?_, ?_, fun _ => ?_⟩
    · rw [← h.opens_eq, opensList, opensList, hl, List.getLast?_append, hcs, List.getLast?_cons]
      rfl
    · rw [← h.closes_eq, closesList, closesList, hl, List.dropWhile_append_of_pos htab]
    · rw [tabs, hl, List.takeWhile_append_of_pos htab, hcs,
        List.takeWhile_cons_of_neg (by simp [hc]), hmargin]
      simp

/-! ## The fragments, one by one -/

theorem isLegible_comment {s : String} (h : '\n' ∉ s.toList) : (comment s).IsLegible := by
  have hcontent : (comment s).content.toList =
      "/* ".toList ++ Comment.part s.toList ++ [' '] ++ ['*', '/'] := Comment.toList_enclose s
  have hpart : '\n' ∉ Comment.part s.toList := by
    rw [← List.count_eq_zero, Comment.count_part _ (by decide), List.count_eq_zero]
    exact h
  have hlast : (comment s).content.toList.getLast? = some '/' := by
    rw [hcontent, List.getLast?_append]
    rfl
  have hline : '\n' ∉ (comment s).content.toList := by simp [hcontent, hpart]
  exact .of_ends (c := '/') hline (by simp [hcontent]) hlast (by decide) rfl rfl

theorem isLegible_arrayOpen {d : String} {c : Char} (hline : '\n' ∉ d.toList)
    (hhead : d.toList.head? = some c) (hc : c ≠ '\t' ∧ c ≠ '\x7d') : (arrayOpen d).IsLegible := by
  have hcontent : (arrayOpen d).content.toList = d.toList ++ "[] = \x7b".toList := by
    simp [content]
  exact .of_ends (d := '\x7b') (by simp [hcontent, hline]) (by simp [hcontent, hhead])
    (by simp [hcontent]) hc rfl rfl

theorem isLegible_stringElement (v : String) : (stringElement v).IsLegible := by
  have hcontent := toList_content_stringElement v
  have hline : '\n' ∉ (stringElement v).content.toList := by
    simp [hcontent, Literal.literal, Literal.lineFeed_notMem_escape]
  have hhead : (stringElement v).content.toList.head? = some '"' := by
    rw [hcontent]
    rfl
  exact .of_ends (d := ',') hline hhead (by simp [hcontent]) (by decide) rfl rfl

theorem isLegible_enumerator {name : String} (h : isIdentifier name) (k : Nat) :
    (enumerator name (some k)).IsLegible := by
  have hcontent : (enumerator name (some k)).content.toList =
      name.toList ++ " = ".toList ++ (toString k).toList ++ [','] := by
    simp [content]
  obtain ⟨c, cs, hcs⟩ := exists_cons_of_isIdentifier h
  have hmem : c ∈ name.toList := by simp [hcs]
  have htab : c ≠ '\t' := ne_of_mem_of_isIdentifier h hmem rfl
  have hbrace : c ≠ '\x7d' := ne_of_mem_of_isIdentifier h hmem rfl
  have hline : '\n' ∉ (enumerator name (some k)).content.toList := by
    simp [hcontent, lineFeed_notMem_of_isIdentifier h, lineFeed_notMem_toDigits]
  have hlast : (enumerator name (some k)).content.toList.getLast? = some ',' := by
    rw [hcontent, List.getLast?_concat]
  exact .of_ends hline (by simp [hcontent, hcs]) hlast ⟨htab, hbrace⟩ rfl rfl

/-- The last field of an element has no comma, so it is legible only if its value does not end in a
brace. -/
theorem isLegible_field {name v : String} (hname : '\n' ∉ name.toList) (hv : '\n' ∉ v.toList)
    {last : Bool} (hlast : last → isIdentifier v) : (field name v last).IsLegible := by
  have hcontent : (field name v last).content.toList =
      '.' :: name.toList ++ " = ".toList ++ v.toList ++ if last then [] else [','] := by
    cases last <;> simp [content]
  have hline : '\n' ∉ (field name v last).content.toList := by
    cases last <;> simp [hcontent, hname, hv]
  have hhead : (field name v last).content.toList.head? = some '.' := by
    rw [hcontent]
    rfl
  cases last with
  | false =>
    have hcomma : (field name v false).content.toList.getLast? = some ',' := by
      rw [hcontent]
      exact List.getLast?_concat
    exact .of_ends hline hhead hcomma (by decide) rfl rfl
  | true =>
    have hidentifier := hlast rfl
    obtain ⟨c, cs, hcs⟩ := exists_cons_of_isIdentifier hidentifier
    obtain ⟨ds, d, hds⟩ := (List.eq_nil_or_concat v.toList).resolve_left (by simp [hcs])
    have hmem : d ∈ v.toList := by simp [hds]
    have hd : (d == '\x7b') = false :=
      beq_false_of_ne (ne_of_mem_of_isIdentifier hidentifier hmem rfl)
    have hend : (field name v true).content.toList.getLast? = some d := by
      rw [hcontent, hds, if_pos rfl, List.append_nil, List.concat_eq_append, ← List.append_assoc,
        List.getLast?_concat]
    exact .of_ends hline hhead hend (by decide) hd.symm rfl

end Fragment

end NetlistTables.Code
