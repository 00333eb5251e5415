import NetlistTables.Proofs.Code.Calls

/-!
# Indentation

The unit of indentation shows at the left of the lines of a written text and nowhere else. Which
lines some calls write, and at which depths, does not depend on it (`Writer.stored_drive`): neither
the lines of a fragment nor the level of a writer do. So a text with any unit can be cut into its
lines (`Layout.splitOn_text`), and without its indentation it is the text with the empty unit
(`Layout.outdent_text`).
-/

namespace NetlistTables.Code

open Output

namespace Layout

/-- The number of units that stand before a line at a depth. -/
def margin (l : Nat × String) : Nat := if l.2 = "" then 0 else l.1

/-- A line at a depth, as it is written, but for the line feed that ends it. -/
def lineChars (unit : String) (l : Nat × String) : List Char :=
  (String.join (List.replicate (margin l) unit)).toList ++ l.2.toList

theorem toList_lineText (unit : String) (l : Nat × String) :
    (lineText unit l).toList = lineChars unit l ++ ['\n'] := by
  unfold lineText lineChars margin
  split
  · simp
  · simp

theorem length_units (unit : String) (n : Nat) :
    (String.join (List.replicate n unit)).toList.length = n * unit.length := by
  rw [String.toList_join, List.flatMap_replicate, ← String.length_toList]
  simp

theorem toList_units_tab (n : Nat) :
    (String.join (List.replicate n "\t")).toList = List.replicate n '\t' := by
  rw [String.toList_join, List.flatMap_replicate]
  exact List.flatten_replicate_singleton

theorem lineFeed_notMem_lineChars {unit : String} (hunit : '\n' ∉ unit.toList) {l : Nat × String}
    (h : '\n' ∉ l.2.toList) : '\n' ∉ lineChars unit l := by
  rw [lineChars, List.mem_append, not_or]
  exact ⟨fun hmem => hunit (Writer.mem_of_mem_units hmem), h⟩

/-- The lines of a text are what stands between its line feeds. -/
theorem splitOn_text {unit : String} (hunit : '\n' ∉ unit.toList) {ls : List (Nat × String)}
    (h : ∀ l ∈ ls, '\n' ∉ l.2.toList) :
    (text unit ls).toList.splitOn '\n' = ls.map (lineChars unit) ++ [[]] := by
  induction ls with
  | nil => rw [text_nil]; rfl
  | cons l ls ih =>
    have hline := lineFeed_notMem_lineChars hunit (h l List.mem_cons_self)
    rw [text_cons, String.toList_append, toList_lineText, List.append_assoc, List.singleton_append,
      List.splitOn_append_cons_self_of_not_mem hline,
      ih fun k hk => h k (List.mem_cons_of_mem l hk)]
    rfl

/-- A text has as many line feeds as lines. -/
theorem count_text {unit : String} (hunit : '\n' ∉ unit.toList) {ls : List (Nat × String)}
    (h : ∀ l ∈ ls, '\n' ∉ l.2.toList) : (text unit ls).toList.count '\n' = ls.length := by
  induction ls with
  | nil => rw [text_nil]; rfl
  | cons l ls ih =>
    have hline := lineFeed_notMem_lineChars hunit (h l List.mem_cons_self)
    rw [text_cons, String.toList_append, toList_lineText, List.count_append, List.count_append,
      List.count_eq_zero.2 hline, ih fun k hk => h k (List.mem_cons_of_mem l hk), Nat.zero_add,
      List.count_singleton_self, List.length_cons, Nat.add_comm]

/-- The last line of a text is ended as well. -/
theorem exists_text_eq_append (unit : String) {ls : List (Nat × String)} (h : ls ≠ []) :
    ∃ cs, (text unit ls).toList = cs ++ ['\n'] := by
  refine ⟨(text unit ls.dropLast).toList ++ lineChars unit (ls.getLast h), ?_⟩
  have hls := List.dropLast_concat_getLast h
  calc (text unit ls).toList
    _ = (text unit (ls.dropLast ++ [ls.getLast h])).toList := by rw [hls]
    _ = (text unit ls.dropLast).toList ++ (lineChars unit (ls.getLast h) ++ ['\n']) := by
      rw [text_append, text_cons, text_nil, String.append_empty, String.toList_append,
        toList_lineText]
    _ = _ := (List.append_assoc ..).symm

/-! ## Taking the indentation off -/

/-- A text without its indentation: from each line, as many units are taken off as `margins` says.
What is left of the line goes up to the next line feed. -/
def outdent (unit : String) : (margins : List Nat) → List Char → List Char
  | [], _ => []
  | n :: ns, cs =>
    let line := cs.drop (n * unit.length)
    line.takeWhile (· ≠ '\n') ++ '\n' :: outdent unit ns (line.dropWhile (· ≠ '\n')).tail

/-- Without its indentation, a text is what it would be with the empty unit. -/
theorem outdent_text (unit : String) {ls : List (Nat × String)}
    (h : ∀ l ∈ ls, '\n' ∉ l.2.toList) :
    outdent unit (ls.map margin) (text unit ls).toList = (text "" ls).toList := by
  induction ls with
  | nil => rfl
  | cons l ls ih =>
    have hline : ∀ c ∈ l.2.toList, decide (c ≠ '\n') := fun c hc =>
      decide_eq_true fun hfeed => h l List.mem_cons_self (hfeed ▸ hc)
    have hempty : lineChars "" l = l.2.toList := by
      rw [lineChars, List.eq_nil_of_length_eq_zero (length_units "" _), List.nil_append]
    have hdrop : (text unit (l :: ls)).toList.drop (margin l * unit.length) =
        l.2.toList ++ '\n' :: (text unit ls).toList := by
      rw [text_cons, String.toList_append, toList_lineText, lineChars, List.append_assoc,
        List.append_assoc, List.drop_left' (length_units unit (margin l))]
      rfl
    rw [List.map_cons, outdent, hdrop, List.takeWhile_append_of_pos hline,
      List.dropWhile_append_of_pos hline, text_cons "" l, String.toList_append, toList_lineText,
      hempty, ← ih fun k hk => h k (List.mem_cons_of_mem l hk)]
    simp

/-- What is `written` with a unit of indentation is the lines `ls` at their depths, whatever the
unit. So with two units it is the same, but for the indentation. -/
structure IndentsOnly (ls : List (Nat × String)) (written : String → ByteArray) : Prop where
  lineFeed_notMem : ∀ l ∈ ls, '\n' ∉ l.2.toList
  written_eq : ∀ unit, written unit = (text unit ls).toUTF8
  outdent_eq : ∀ (unit s : String), written unit = s.toUTF8 →
    outdent unit (ls.map margin) s.toList = (text "" ls).toList

theorem IndentsOnly.of_written_eq {ls : List (Nat × String)} {written : String → ByteArray}
    (h : ∀ l ∈ ls, '\n' ∉ l.2.toList) (hwritten : ∀ unit, written unit = (text unit ls).toUTF8) :
    IndentsOnly ls written where
  lineFeed_notMem := h
  written_eq := hwritten
  outdent_eq unit s hs := by
    have htext : text unit ls = s := String.toByteArray_inj.1 ((hwritten unit).symm.trans hs)
    rw [← htext, outdent_text unit h]

/-! ## The lines of fragments -/

theorem lineFeed_notMem_of_mem_linesOf {s l : String} (h : l ∈ Writer.linesOf s) :
    '\n' ∉ l.toList := by
  unfold Writer.linesOf at h
  split at h
  · rw [List.mem_singleton.1 h]
    exact List.not_mem_nil
  · obtain ⟨cs, hcs, rfl⟩ := List.mem_map.1 h
    rw [String.toList_ofList]
    exact Text.lineFeed_notMem hcs

/-- A text that does not end in a line feed has one line more than it has line feeds. -/
theorem length_linesOf {s : String} {d : Char} (h : s.toList.getLast? = some d) (hd : d ≠ '\n') :
    (Writer.linesOf s).length = s.toList.count '\n' + 1 := by
  have hne : s ≠ "" := by
    rintro rfl
    cases h
  rw [Writer.linesOf, if_neg hne, Text.lines, List.length_map, Text.length_splitLines h hd]

theorem lineFeed_notMem_of_mem_layout {level : Nat} {fs : List Fragment} {l : Nat × String}
    (h : l ∈ layout level fs) : '\n' ∉ l.2.toList := by
  induction fs generalizing level with
  | nil => cases h
  | cons f fs ih =>
    rcases List.mem_append.1 h with h | h
    · obtain ⟨s, hs, rfl⟩ := List.mem_map.1 h
      exact lineFeed_notMem_of_mem_linesOf hs
    · exact ih h

end Layout

namespace Writer

open Layout

/-! ## The lines of calls -/

/-- The level after a call that succeeds. -/
def Call.levelAfter : Call → Nat → Nat
  | .indent, level => level + 1
  | .dedent, level => level - 1
  | .put f, level => f.levelAfter level
  | .flush, level => level

/-- The lines of a call that is made at a level, each with its depth. -/
def Call.lines : Call → Nat → List (Nat × String)
  | .put f, level => layout level [f]
  | .indent, _ | .dedent, _ | .flush, _ => []

/-- The lines of some calls from a level on, each with its depth. -/
def callLines : Nat → List Call → List (Nat × String)
  | _, [] => []
  | level, c :: cs => c.lines level ++ callLines (c.levelAfter level) cs

theorem lineFeed_notMem_of_mem_callLines {level : Nat} {cs : List Call} {l : Nat × String}
    (h : l ∈ callLines level cs) : '\n' ∉ l.2.toList := by
  induction cs generalizing level with
  | nil => cases h
  | cons c cs ih =>
    rcases List.mem_append.1 h with h | h
    · cases c with
      | put f => exact lineFeed_notMem_of_mem_layout h
      | indent | dedent | flush => cases h
    · exact ih h

/-- Without bounds, a call writes its lines, and leaves the unit of indentation as it is. -/
theorem attempt_of_unbounded {u : Writer Device} (h : u.sink.capacity = none) (c : Call) :
    (attempt c u).2 =
      { u with
        sink := u.sink.given (text u.unit (c.lines u.level)).toUTF8
        level := c.levelAfter u.level } := by
  have hnone : u.sink.given (text u.unit []).toUTF8 = u.sink := by
    rw [text_nil]
    exact Device.given_empty (Device.fits_of_unbounded h .empty)
  cases c with
  | put f =>
    rw [attempt_put_of_unbounded h]
    rfl
  | flush =>
    rw [attempt_flush, Call.lines, hnone]
    rfl
  | indent =>
    rw [Call.lines, hnone]
    rfl
  | dedent =>
    rw [Call.lines, hnone]
    rfl

/-- **Without bounds, calls write their lines**, at depths that do not depend on the unit of
indentation. -/
theorem stored_drive {u : Writer Device} (h : u.sink.capacity = none) (cs : List Call) :
    (drive u cs).sink.stored = u.sink.stored ++ (text u.unit (callLines u.level cs)).toUTF8 := by
  induction cs generalizing u with
  | nil =>
    rw [callLines, text_nil]
    exact ByteArray.append_empty.symm
  | cons c cs ih =>
    have hdrive : drive u (c :: cs) = drive (attempt c u).2 cs := rfl
    have hstored := Device.stored_given_of_unbounded h (text u.unit (c.lines u.level)).toUTF8
    have hrest := ih (u := (attempt c u).2) (by rw [attempt_of_unbounded h]; exact h)
    rw [hdrive, hrest, attempt_of_unbounded h, hstored, callLines, text_append]
    simp only [String.toUTF8_eq_toByteArray, String.toByteArray_append, ByteArray.append_assoc]

end Writer

end NetlistTables.Code
