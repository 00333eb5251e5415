import NetlistTables.Text.Lines

/-!
# Where lines begin and end

How the lines of a text come out of its parts: a text without a line feed is one line, a text that
is not empty has a line, what is set before or behind a text without a line feed lengthens its first
or its last line, and texts that are joined by a line feed have the lines of both.
-/

namespace NetlistTables.Text

theorem splitLines_eq_nil_iff {cs : List Char} : splitLines cs = [] ↔ cs = [] := by
  constructor
  · intro h
    unfold splitLines at h
    split at h
    · rfl
    · cases h
    · cases h
    · split at h <;> cases h
  · rintro rfl
    rfl

theorem splitLines_of_notMem {cs : List Char} (h : '\n' ∉ cs) (hne : cs ≠ []) :
    splitLines cs = [cs] := by
  fun_induction splitLines cs with
  | case1 => exact absurd rfl hne
  | case2 cs ih => simp at h
  | case3 cs ih => simp at h
  | case4 c cs _ _ hs ih =>
    rw [splitLines_eq_nil_iff.1 hs]
  | case5 c cs _ _ l ls hs ih =>
    have hcs : cs ≠ [] := by
      rintro rfl
      cases hs
    have hnot : '\n' ∉ cs := fun hmem => h (List.mem_cons_of_mem c hmem)
    rw [ih hnot hcs] at hs
    cases hs
    rfl

/-- Every line feed ends a line, and what follows the last one is a line of its own. -/
theorem length_splitLines {cs : List Char} {d : Char} (h : cs.getLast? = some d) (hd : d ≠ '\n') :
    (splitLines cs).length = cs.count '\n' + 1 := by
  have hrest {c : Char} {cs : List Char} (h : (c :: cs).getLast? = some d) (hc : c ≠ d) :
      cs.getLast? = some d := by
    rw [List.getLast?_cons] at h
    cases hcs : cs.getLast? with
    | none => simp [hcs, hc] at h
    | some e => rwa [hcs] at h
  fun_induction splitLines cs with
  | case1 => cases h
  | case2 cs ih =>
    rw [List.length_cons, ih (hrest h hd.symm), List.count_cons_self]
  | case3 cs ih =>
    rw [List.getLast?_cons_cons] at h
    rw [List.length_cons, ih (hrest h hd.symm), List.count_cons_of_ne (by decide),
      List.count_cons_self]
  | case4 c cs hc _ hs ih =>
    rw [splitLines_eq_nil_iff.1 hs, List.count_cons_of_ne hc]
    rfl
  | case5 c cs hc _ l ls hs ih =>
    have hcs : cs.getLast? = some d := by
      cases cs with
      | nil => cases hs
      | cons e cs => rwa [List.getLast?_cons_cons] at h
    have hlines := ih hcs
    rw [hs] at hlines
    rw [List.count_cons_of_ne hc]
    exact hlines

/-- The first line begins as the text does. -/
theorem prefix_of_splitLines {cs l : List Char} {ls : List (List Char)}
    (h : splitLines cs = l :: ls) : l <+: cs := by
  fun_induction splitLines cs generalizing l ls with
  | case1 => cases h
  | case2 cs ih =>
    cases h
    exact List.nil_prefix
  | case3 cs ih =>
    cases h
    exact List.nil_prefix
  | case4 c cs _ _ _ ih =>
    cases h
    exact List.cons_prefix_cons.2 ⟨rfl, List.nil_prefix⟩
  | case5 c cs _ _ k ks hks ih =>
    cases h
    exact List.cons_prefix_cons.2 ⟨rfl, ih hks⟩

/-- A character that does not end a line begins the first one. -/
theorem splitLines_cons {c : Char} {cs l : List Char} {ls : List (List Char)} (hc : c ≠ '\n')
    (hreturn : c = '\r' → cs.head? ≠ some '\n') (h : splitLines cs = l :: ls) :
    splitLines (c :: cs) = (c :: l) :: ls := by
  rw [splitLines.eq_4 c cs hc fun cs' hcr hcs => hreturn hcr (by rw [hcs]; rfl), h]

/-- What is set before a text that is not empty lengthens its first line. -/
theorem splitLines_append_left {ds cs l : List Char} {ls : List (List Char)}
    (hfeed : '\n' ∉ ds) (hreturn : '\r' ∉ ds) (h : splitLines cs = l :: ls) :
    splitLines (ds ++ cs) = (ds ++ l) :: ls := by
  induction ds with
  | nil => exact h
  | cons d ds ih =>
    rw [List.mem_cons, not_or] at hfeed hreturn
    exact splitLines_cons (Ne.symm hfeed.1) (fun hd => absurd hd.symm hreturn.1)
      (ih hfeed.2 hreturn.2)

/-- What is set behind a text without the end of a line lengthens its last line. -/
theorem splitLines_append_right (cs : List Char) {c : Char} (hc : c ≠ '\n') :
    ∃ ls l, ∀ ds : List Char, '\n' ∉ ds → splitLines (cs ++ c :: ds) = ls ++ [l ++ c :: ds] := by
  -- a character that is set before it all goes to the first line
  have hcons {d : Char} {cs : List Char} (hd : d ≠ '\n')
      (hreturn : ∀ cs', d = '\r' → cs = '\n' :: cs' → False)
      (ih : ∃ ls l, ∀ ds : List Char, '\n' ∉ ds →
        splitLines (cs ++ c :: ds) = ls ++ [l ++ c :: ds]) :
      ∃ ls l, ∀ ds : List Char, '\n' ∉ ds →
        splitLines (d :: cs ++ c :: ds) = ls ++ [l ++ c :: ds] := by
    have hhead (ds : List Char) (hcr : d = '\r') : (cs ++ c :: ds).head? ≠ some '\n' := by
      cases cs with
      | nil => exact fun h => hc (Option.some.inj h)
      | cons e cs => exact fun h => hreturn cs hcr (by rw [Option.some.inj h])
    obtain ⟨ls, l, h⟩ := ih
    cases ls with
    | nil => exact ⟨[], d :: l, fun ds hds => splitLines_cons hd (hhead ds) (h ds hds)⟩
    | cons k ls => exact ⟨(d :: k) :: ls, l, fun ds hds => splitLines_cons hd (hhead ds) (h ds hds)⟩
  fun_induction splitLines cs with
  | case1 =>
    refine ⟨[], [], fun ds hds => splitLines_of_notMem ?_ (List.cons_ne_nil c ds)⟩
    rw [List.nil_append, List.mem_cons, not_or]
    exact ⟨Ne.symm hc, hds⟩
  | case2 cs ih =>
    obtain ⟨ls, l, h⟩ := ih
    exact ⟨[] :: ls, l, fun ds hds => congrArg ([] :: ·) (h ds hds)⟩
  | case3 cs ih =>
    obtain ⟨ls, l, h⟩ := ih
    exact ⟨[] :: ls, l, fun ds hds => congrArg ([] :: ·) (h ds hds)⟩
  | case4 d cs hd hreturn _ ih => exact hcons hd hreturn ih
  | case5 d cs hd hreturn _ _ _ ih => exact hcons hd hreturn ih

/-- A line feed behind a text that ends no line itself is the end of the last line of that text, and
what follows has lines of its own. -/
theorem splitLines_append_lineFeed {cs : List Char} (hne : cs ≠ [])
    (hfeed : cs.getLast? ≠ some '\n') (hreturn : cs.getLast? ≠ some '\r') (ds : List Char) :
    splitLines (cs ++ '\n' :: ds) = splitLines cs ++ splitLines ds := by
  -- what is behind the first character ends as the whole text does
  have hrest {c e : Char} {cs : List Char} (h : (c :: cs).getLast? ≠ some e) :
      cs.getLast? ≠ some e := by
    intro hcs
    rw [List.getLast?_cons, hcs] at h
    exact h rfl
  fun_induction splitLines cs with
  | case1 => exact absurd rfl hne
  | case2 cs ih =>
    have hcs : cs ≠ [] := by
      rintro rfl
      exact hfeed rfl
    exact congrArg ([] :: ·) (ih hcs (hrest hfeed) (hrest hreturn))
  | case3 cs ih =>
    have hcs : cs ≠ [] := by
      rintro rfl
      exact hfeed rfl
    exact congrArg ([] :: ·) (ih hcs (hrest (hrest hfeed)) (hrest (hrest hreturn)))
  | case4 c cs hc _ hs ih =>
    obtain rfl := splitLines_eq_nil_iff.1 hs
    refine splitLines_cons hc (fun hcr => ?_) rfl
    exact absurd (congrArg some hcr) hreturn
  | case5 c cs hc hcr l ls hs ih =>
    have hcs : cs ≠ [] := by
      rintro rfl
      cases hs
    have hlines := ih hcs (hrest hfeed) (hrest hreturn)
    rw [hs] at hlines
    refine splitLines_cons hc (fun hc hhead => ?_) hlines
    obtain ⟨d, cs, rfl⟩ := List.exists_cons_of_ne_nil hcs
    exact hcr cs hc (by rw [Option.some.inj hhead])

end NetlistTables.Text
