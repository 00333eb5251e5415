import NetlistTables.Proofs.Code.Layout

/-!
# Where comments end

A comment ends at the first `*/`. An escaped text holds none (`isOpen_part`), and writing it down
line by line makes none (`isOpen_setLines`): the line feed that ends a line keeps a star from what
follows, and the margin of a line holds no star. So the text that ends in the end of a comment still
does, and ends no comment before, when it is written (`exists_text_eq`). `cut` is how a reader of C
takes the comment off the text that begins with it.
-/

namespace NetlistTables.Code.Comment

/-! ## Texts that end no comment -/

/-- No comment ends in the text. -/
def IsOpen (cs : List Char) : Prop := ¬ ['*', '/'] <:+: cs

theorem isOpen_nil : IsOpen [] := by
  simp [IsOpen]

theorem isOpen_cons {c : Char} {cs : List Char} :
    IsOpen (c :: cs) ↔ (c = '*' → cs.head? ≠ some '/') ∧ IsOpen cs := by
  have hprefix : ['*', '/'] <+: c :: cs ↔ c = '*' ∧ cs.head? = some '/' := by
    cases cs with
    | nil => simp [List.cons_prefix_cons]
    | cons d cs => simp [List.cons_prefix_cons, eq_comm]
  rw [IsOpen, List.infix_cons_iff, not_or, hprefix, not_and, IsOpen]

theorem IsOpen.of_append_left {cs ds : List Char} (h : IsOpen (cs ++ ds)) : IsOpen cs :=
  fun hmem => h (hmem.trans (List.infix_append' [] cs ds))

theorem IsOpen.of_append_right {cs ds : List Char} (h : IsOpen (cs ++ ds)) : IsOpen ds :=
  fun hmem => h (hmem.trans (List.suffix_append cs ds).isInfix)

/-- Two texts end no comment together if the one does not stop where the other goes on. -/
theorem IsOpen.append {cs ds : List Char} (h : IsOpen cs) (h' : IsOpen ds)
    (hseam : cs.getLast? = some '*' → ds.head? ≠ some '/') : IsOpen (cs ++ ds) := by
  induction cs with
  | nil => exact h'
  | cons c cs ih =>
    rw [isOpen_cons] at h
    rw [List.cons_append, isOpen_cons]
    cases cs with
    | nil => exact ⟨fun hc => hseam (by rw [hc]; rfl), h'⟩
    | cons d cs => exact ⟨h.1, ih h.2 (by rwa [List.getLast?_cons_cons] at hseam)⟩

/-- A character that is no part of `*/` parts two texts. -/
theorem IsOpen.append_cons {cs ds : List Char} {c : Char} (h : IsOpen cs) (h' : IsOpen ds)
    (hstar : c ≠ '*') (hslash : c ≠ '/') : IsOpen (cs ++ c :: ds) := by
  refine h.append (isOpen_cons.2 ⟨fun hc => absurd hc hstar, h'⟩) fun _ hhead => ?_
  exact hslash (Option.some.inj hhead)

/-- Text without a star, such as blanks, ends no comment. -/
theorem isOpen_of_notMem {cs : List Char} (h : '*' ∉ cs) : IsOpen cs :=
  fun hmem => h (hmem.subset List.mem_cons_self)

/-! ## Escaped texts -/

theorem head?_part (cs : List Char) : (part cs).head? = cs.head? := by
  fun_cases part cs <;> rfl

theorem isOpen_part (cs : List Char) : IsOpen (part cs) := by
  fun_induction part cs with
  | case1 => exact isOpen_nil
  | case2 cs ih =>
    have hstar : IsOpen ['*'] := isOpen_cons.2 ⟨fun _ => nofun, isOpen_nil⟩
    have hslash : IsOpen ('/' :: part cs) := isOpen_cons.2 ⟨fun h => absurd h (by decide), ih⟩
    exact hstar.append_cons hslash (by decide) (by decide)
  | case3 c cs hcs ih =>
    refine isOpen_cons.2 ⟨fun hc hhead => ?_, ih⟩
    rw [head?_part] at hhead
    obtain ⟨ds, rfl⟩ := List.head?_eq_some_iff.1 hhead
    exact hcs ds hc rfl

/-- A text that ends no comment is its own escaped form. -/
theorem part_of_isOpen {cs : List Char} (h : IsOpen cs) : part cs = cs := by
  fun_induction part cs with
  | case1 => rfl
  | case2 cs ih => exact absurd rfl ((isOpen_cons.1 h).1 rfl)
  | case3 c cs _ ih => rw [ih (isOpen_cons.1 h).2]

theorem toList_escape (s : String) : (escape s).toList = part s.toList := String.toList_ofList

theorem isOpen_escape (s : String) : IsOpen (escape s).toList := by
  rw [toList_escape]
  exact isOpen_part s.toList

theorem escape_of_isOpen {s : String} (h : IsOpen s.toList) : escape s = s := by
  rw [← String.toList_inj, toList_escape, part_of_isOpen h]

/-- Parts of a text are escaped on their own, unless a `*/` goes across. -/
theorem part_append {cs ds : List Char}
    (hseam : cs.getLast? = some '*' → ds.head? ≠ some '/') :
    part (cs ++ ds) = part cs ++ part ds := by
  fun_induction part cs with
  | case1 => rfl
  | case2 cs ih =>
    have hseam' : cs.getLast? = some '*' → ds.head? ≠ some '/' := fun h => hseam (by
      rw [List.getLast?_cons_cons, List.getLast?_cons, h]; rfl)
    rw [List.cons_append, List.cons_append, part, ih hseam']
    rfl
  | case3 c cs hcs ih =>
    have hseam' : cs.getLast? = some '*' → ds.head? ≠ some '/' := fun h => hseam (by
      rw [List.getLast?_cons, h]; rfl)
    have hcs' (es : List Char) (hc : c = '*') : cs ++ ds = '/' :: es → False := by
      cases cs with
      | nil => exact fun h => hseam (by rw [hc]; rfl) (by rw [← List.nil_append ds, h]; rfl)
      | cons d cs => exact fun h => hcs cs hc (by rw [(List.cons.inj h).1])
    rw [List.cons_append, part.eq_3 c (cs ++ ds) hcs', ih hseam']
    rfl

/-- Only blanks are put into a text. -/
theorem count_part (cs : List Char) {c : Char} (hc : c ≠ ' ') : (part cs).count c = cs.count c := by
  fun_induction part cs with
  | case1 => rfl
  | case2 cs ih =>
    have hblank : (' ' == c) = false := by simpa using hc.symm
    simp only [List.count_cons, ih, hblank]
    rfl
  | case3 d cs _ ih => rw [List.count_cons, List.count_cons, ih]

theorem toList_enclose (s : String) :
    (enclose s).toList = "/* ".toList ++ part s.toList ++ [' '] ++ ['*', '/'] := by
  simp [enclose, escape]

/-- The end of an enclosed text is all that ends the comment. -/
theorem isOpen_enclosed (s : String) :
    IsOpen ("/* ".toList ++ part s.toList ++ [' '] ++ ['*']) := by
  have hstart : IsOpen ['/', '*'] := by
    rw [isOpen_cons, isOpen_cons]
    exact ⟨nofun, fun _ => nofun, isOpen_nil⟩
  have hend : IsOpen ['*'] := isOpen_cons.2 ⟨fun _ => nofun, isOpen_nil⟩
  have hinside : IsOpen (part s.toList ++ ' ' :: ['*']) :=
    (isOpen_part s.toList).append_cons hend (by decide) (by decide)
  have hall := hstart.append_cons hinside (c := ' ') (by decide) (by decide)
  simpa using hall

/-! ## Reading a comment -/

/-- A text up to the first end of a comment, with it, and the text behind. -/
def cut : List Char → Option (List Char × List Char)
  | [] => none
  | '*' :: '/' :: cs => some (['*', '/'], cs)
  | c :: cs => (cut cs).map fun (ds, rest) => (c :: ds, rest)

theorem cut_append {cs : List Char} (h : IsOpen (cs ++ ['*'])) (ds : List Char) :
    cut (cs ++ '*' :: '/' :: ds) = some (cs ++ ['*', '/'], ds) := by
  induction cs with
  | nil => rfl
  | cons c cs ih =>
    rw [List.cons_append, isOpen_cons] at h
    have hcut (es : List Char) (hc : c = '*') : cs ++ '*' :: '/' :: ds = '/' :: es → False := by
      cases cs with
      | nil => exact fun hhead => absurd (List.cons.inj hhead).1 (by decide)
      | cons d cs => exact fun hhead => h.1 hc (by rw [(List.cons.inj hhead).1]; rfl)
    rw [List.cons_append, cut.eq_3 c _ hcut, ih h.2]
    rfl

/-! ## Written comments -/

open Layout Text

/-- Writing the lines of a text ends no comment, whatever starless margin is set before them. -/
theorem isOpen_setLines {margin : List Char} (hmargin : '*' ∉ margin) {cs : List Char}
    (h : IsOpen cs) : IsOpen (setLines margin (splitLines cs)) := by
  -- a line feed goes before what comes next, and no star goes before a line
  have hfeed {ds : List Char} (hds : IsOpen ds) : IsOpen ('\n' :: ds) :=
    isOpen_cons.2 ⟨fun hc => absurd hc (by decide), hds⟩
  have hline {ds : List Char} (hds : IsOpen ds) : IsOpen (margin ++ ds) :=
    (isOpen_of_notMem hmargin).append hds fun hlast =>
      absurd (List.mem_of_getLast? hlast) hmargin
  fun_induction splitLines cs with
  | case1 => exact isOpen_nil
  | case2 cs ih =>
    rw [setLines_cons, if_pos rfl]
    exact hfeed (ih (isOpen_cons.1 h).2)
  | case3 cs ih =>
    rw [setLines_cons, if_pos rfl]
    exact hfeed (ih (isOpen_cons.1 (isOpen_cons.1 h).2).2)
  | case4 c cs _ _ hs ih =>
    rw [setLines_cons, if_neg (List.cons_ne_nil c [])]
    have hhead : some '\n' ≠ some '/' := by decide
    exact hline (isOpen_cons.2 ⟨fun _ => hhead, hfeed isOpen_nil⟩)
  | case5 c cs _ _ l ls hs ih =>
    have hrest := ih (isOpen_cons.1 h).2
    rw [setLines_cons, if_neg (List.cons_ne_nil c l)]
    refine hline (isOpen_cons.2 ⟨fun hc hhead => (isOpen_cons.1 h).1 hc ?_, ?_⟩)
    · -- what follows the star in its line also follows it in the text
      cases l with
      | nil => cases hhead
      | cons d l =>
        obtain ⟨ds, rfl⟩ := prefix_of_splitLines hs
        exact hhead
    · rw [hs, setLines_cons] at hrest
      exact hrest.of_append_right

/-- **A comment ends where its text does**: in the written text, the end of the comment is the first
one, and only the line feed of its line follows. -/
theorem exists_text_eq {s : String} {body : List Char} (hs : s.toList = body ++ ['*', '/'])
    (h : IsOpen (body ++ ['*'])) (unit : String) (level : Nat)
    (hmargin : '*' ∉ (String.join (List.replicate level unit)).toList) :
    ∃ cs, (Layout.text unit ((Writer.linesOf s).map (level, ·))).toList = cs ++ ['*', '/', '\n'] ∧
      IsOpen (cs ++ ['*']) := by
  have hne : s ≠ "" := by
    rintro rfl
    simp at hs
  -- the text is written alike with and without the slash at its end
  obtain ⟨cs, hcs⟩ :=
    exists_setLines_append (String.join (List.replicate level unit)).toList body (c := '*')
      (by decide)
  refine ⟨cs, ?_, ?_⟩
  · rw [Writer.toList_text_linesOf unit level hne, hs, hcs ['/'] (by decide), List.append_assoc]
    rfl
  · have hopen := isOpen_setLines hmargin h
    rw [hcs [] List.not_mem_nil] at hopen
    exact hopen.of_append_left

end NetlistTables.Code.Comment
