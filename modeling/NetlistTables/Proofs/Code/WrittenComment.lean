import NetlistTables.Proofs.Code.Comment
import NetlistTables.Proofs.Code.Indentation
import NetlistTables.Proofs.Text.Utf8

/-!
# Comments as they are written

What a writer makes of a comment, byte by byte. However its text is cut into lines, the bytes of
`*/` occur once, at the end (`comment_ends_once`). But it is cut into lines: each line feed of the
text ends a line, so the comment is one line just if the text holds no line feed
(`lineFeeds_comment`).
-/

namespace NetlistTables.Code

open Output Text

namespace Comment

/-! ## The end of a comment -/

/-- A text that holds a single `*/`, before its last line feed, holds it nowhere else. -/
theorem eq_of_isOpen {cs ds es : List Char} (h : IsOpen (cs ++ ['*']))
    (heq : cs ++ ['*', '/', '\n'] = ds ++ '*' :: '/' :: es) : ds = cs ∧ es = ['\n'] := by
  have hsplit : (cs ++ ['*']) ++ ['/', '\n'] = ds ++ '*' :: ('/' :: es) := by
    rw [← heq, List.append_assoc]
    rfl
  rcases split_append hsplit with ⟨rest, hrest⟩ | ⟨rest, -, hrest⟩
  · cases rest with
    | nil =>
      obtain ⟨rfl, -⟩ := List.append_inj' hrest rfl
      exact ⟨rfl, by simpa using heq.symm⟩
    | cons c rest =>
      -- another end of the comment, before the last
      rw [hrest, List.append_assoc] at hsplit
      obtain ⟨rfl, -⟩ := List.cons.inj (List.cons.inj (List.append_cancel_left hsplit)).2
      exact absurd (hrest ▸ ⟨ds, rest, by simp⟩ : ['*', '/'] <:+: cs ++ ['*']) h
  · rcases rest with _ | ⟨c, _ | ⟨d, rest⟩⟩ <;> simp at hrest

/-- The bytes of a comment that has been written: those of `*/` stand before the last line feed, and
nowhere else. -/
def EndsOnce (bytes : List UInt8) : Prop :=
  ∃ start, ∀ before behind,
    bytes = before ++ 0x2A :: 0x2F :: behind ↔ before = start ∧ behind = [0x0A]

theorem endsOnce_toUTF8 {s : String} {cs : List Char} (hs : s.toList = cs ++ ['*', '/', '\n'])
    (h : IsOpen (cs ++ ['*'])) : EndsOnce s.toUTF8.data.toList := by
  have hstar : Utf8.IsAscii '*' := by simp [Utf8.IsAscii]
  have hslash : Utf8.IsAscii '/' := by simp [Utf8.IsAscii]
  refine ⟨cs.flatMap String.utf8EncodeChar, fun before behind => ⟨fun hbytes => ?_, ?_⟩⟩
  · rw [Utf8.data_toUTF8, hs] at hbytes
    obtain ⟨ds, es, hds, rfl, hes⟩ := Utf8.split_of_bytes hstar hbytes
    obtain ⟨es, rfl, rfl⟩ := Utf8.cons_of_bytes hslash hes.symm
    obtain ⟨rfl, rfl⟩ := eq_of_isOpen h hds
    exact ⟨rfl, rfl⟩
  · rintro ⟨rfl, rfl⟩
    rw [Utf8.data_toUTF8, hs, List.flatMap_append]
    rfl

/-! ## Writing a comment -/

open Layout

/-- A fragment that neither opens nor closes a list is written at the level of the writer, which
stays as it is. -/
theorem exists_put_eq {f : Fragment} (hopens : f.opens = false) (hcloses : f.closes = false)
    (stored : ByteArray) (unit : String) (level : Nat) :
    ∃ w : Writer Device, Writer.put f ⟨{ Device.unlimited with stored }, unit, level⟩ = .ok () w ∧
      w.level = level ∧
      w.sink.stored = stored ++ (text unit ((Writer.linesOf f.content).map (level, ·))).toUTF8 := by
  have hdepth : f.depth level = level := by simp [Fragment.depth, hcloses]
  have hlevel : f.levelAfter level = level := by simp [Fragment.levelAfter, hopens, hdepth]
  have hlayout : layout level [f] = (Writer.linesOf f.content).map (level, ·) := by
    rw [layout, layout, List.append_nil, hdepth]
  have hput := Writer.put_of_unbounded
    (w := ⟨{ Device.unlimited with stored }, unit, level⟩) rfl f
  refine ⟨_, hput, hlevel, ?_⟩
  rw [← hlayout]
  exact Device.stored_given_of_unbounded rfl _

theorem exists_put_endsOnce {unit : String} (hunit : '*' ∉ unit.toList) {f : Fragment}
    {body : List Char} (hopens : f.opens = false) (hcloses : f.closes = false)
    (hf : f.content.toList = body ++ ['*', '/']) (hbody : IsOpen (body ++ ['*']))
    (stored : ByteArray) (level : Nat) :
    ∃ (w : Writer Device) (written : String),
      Writer.put f ⟨{ Device.unlimited with stored }, unit, level⟩ = .ok () w ∧
        w.level = level ∧ w.sink.stored = stored ++ written.toUTF8 ∧
        EndsOnce written.toUTF8.data.toList := by
  have hmargin : '*' ∉ (String.join (List.replicate level unit)).toList :=
    fun h => hunit (Writer.mem_of_mem_units h)
  obtain ⟨w, hput, hlevel, hstored⟩ := exists_put_eq hopens hcloses stored unit level
  obtain ⟨cs, hcs, hopen⟩ := exists_text_eq hf hbody unit level hmargin
  exact ⟨w, _, hput, hlevel, hstored, endsOnce_toUTF8 hcs hopen⟩

/-- **No comment ends early.** Whatever the text of a comment, on a line of its own or behind the
end of a conditional part, and whatever the unit of indentation, if it holds no star: of all the
bytes that are written, those of `*/` stand together only before the last line feed. An escaped text
holds no `*/` and is its own escaped form, and so is any other text that holds none. -/
theorem comment_ends_once {unit : String} (hunit : '*' ∉ unit.toList) (stored : ByteArray)
    (level : Nat) (s : String) :
    (∀ f ∈ [Fragment.comment s, .endIf (some s)], ∃ (w : Writer Device) (written : String),
      Writer.put f ⟨{ Device.unlimited with stored }, unit, level⟩ = .ok () w ∧
        w.level = level ∧ w.sink.stored = stored ++ written.toUTF8 ∧
        EndsOnce written.toUTF8.data.toList) ∧
      escape (escape s) = escape s ∧ IsOpen (escape s).toList ∧
      (IsOpen s.toList → escape s = s) := by
  refine ⟨fun f hf => ?_, escape_of_isOpen (isOpen_escape s), isOpen_escape s, escape_of_isOpen⟩
  have hcomment := isOpen_enclosed s
  rcases List.mem_cons.1 hf with rfl | hf
  · have hcontent : (Fragment.comment s).content.toList =
        ("/* ".toList ++ part s.toList ++ [' ']) ++ ['*', '/'] := by
      rw [Fragment.content, toList_enclose]
    exact exists_put_endsOnce hunit rfl rfl hcontent hcomment stored level
  · rw [List.mem_singleton.1 hf]
    have hcontent : (Fragment.endIf (some s)).content.toList =
        ("#endif".toList ++ ' ' :: ("/* ".toList ++ part s.toList ++ [' '])) ++ ['*', '/'] := by
      rw [Fragment.content, String.toList_append, toList_enclose]
      simp
    have hstart : IsOpen "#endif".toList := isOpen_of_notMem (by decide)
    have hbody := hstart.append_cons hcomment (c := ' ') (by decide) (by decide)
    rw [← List.cons_append, ← List.append_assoc] at hbody
    exact exists_put_endsOnce hunit rfl rfl hcontent hbody stored level

theorem comment_ends_once_sample :
    '*' ∉ "\t".toList ∧
      ∀ f ∈ [Fragment.comment "**// *\r\n/ *", .endIf (some "**// *\r\n/ *")],
        ∃ (w : Writer Device) (written : String),
          Writer.put f ⟨Device.unlimited, "\t", 2⟩ = .ok () w ∧ w.level = 2 ∧
            w.sink.stored = .empty ++ written.toUTF8 ∧ EndsOnce written.toUTF8.data.toList := by
  have hunit : '*' ∉ "\t".toList := by decide
  exact ⟨hunit, (comment_ends_once hunit .empty 2 "**// *\r\n/ *").1⟩

/-! ## The lines of a comment -/

/-- The bytes are one line: their only line feed is the last byte. -/
def IsOneLine (bytes : List UInt8) : Prop := bytes.getLast? = some 0x0A ∧ bytes.count 0x0A = 1

instance (bytes : List UInt8) : Decidable (IsOneLine bytes) :=
  inferInstanceAs (Decidable (_ ∧ _))

/-- The bytes of a text end in a line feed, and have one for each line. -/
theorem lineFeeds_toUTF8_text {unit : String} (hunit : '\n' ∉ unit.toList)
    {ls : List (Nat × String)} (h : ∀ l ∈ ls, '\n' ∉ l.2.toList) (hne : ls ≠ []) :
    (text unit ls).toUTF8.data.toList.getLast? = some 0x0A ∧
      (text unit ls).toUTF8.data.toList.count 0x0A = ls.length := by
  have hfeed : Utf8.IsAscii '\n' := by simp [Utf8.IsAscii]
  obtain ⟨cs, hcs⟩ := exists_text_eq_append unit hne
  constructor
  · rw [Utf8.data_toUTF8, hcs, List.flatMap_append, List.getLast?_append]
    rfl
  · rw [← count_text hunit h]
    exact Utf8.count_toUTF8 hfeed (text unit ls)

/-- An enclosed text has one line more than the text has line feeds. -/
theorem length_linesOf_enclose (s : String) :
    (Writer.linesOf (enclose s)).length = s.toList.count '\n' + 1 := by
  have hlast : (enclose s).toList.getLast? = some '/' := by
    rw [toList_enclose, List.getLast?_append]
    rfl
  have hcount : (enclose s).toList.count '\n' = s.toList.count '\n' := by
    rw [toList_enclose]
    simp [List.count_append, count_part]
  rw [length_linesOf hlast (by decide), hcount]

/-- **A comment is as many lines as its text**: each line feed of the text ends a line, and so does
the end of the comment. So the comment is written on one line just if there is no line feed in it.
-/
theorem lineFeeds_comment {unit : String} (hunit : '\n' ∉ unit.toList) (stored : ByteArray)
    (level : Nat) (s : String) :
    ∃ (w : Writer Device) (written : String),
      Writer.put (.comment s) ⟨{ Device.unlimited with stored }, unit, level⟩ = .ok () w ∧
        w.level = level ∧ w.sink.stored = stored ++ written.toUTF8 ∧
        written.toUTF8.data.toList.getLast? = some 0x0A ∧
        written.toUTF8.data.toList.count 0x0A = s.toList.count '\n' + 1 ∧
        (IsOneLine written.toUTF8.data.toList ↔ '\n' ∉ s.toList) := by
  have hcontent : (Fragment.comment s).content = enclose s := rfl
  obtain ⟨w, hput, hlevel, hstored⟩ := exists_put_eq (f := .comment s) rfl rfl stored unit level
  rw [hcontent] at hstored
  have hlines : ∀ l ∈ (Writer.linesOf (enclose s)).map (level, ·), '\n' ∉ l.2.toList := by
    intro l hl
    obtain ⟨line, hline, rfl⟩ := List.mem_map.1 hl
    exact lineFeed_notMem_of_mem_linesOf hline
  have hne : (Writer.linesOf (enclose s)).map (level, ·) ≠ [] :=
    mt List.map_eq_nil_iff.1 (Writer.linesOf_ne_nil (enclose s))
  obtain ⟨hlast, hcount⟩ := lineFeeds_toUTF8_text hunit hlines hne
  rw [List.length_map, length_linesOf_enclose] at hcount
  refine ⟨w, _, hput, hlevel, hstored, hlast, hcount, fun h hmem => ?_, fun h => ⟨hlast, ?_⟩⟩
  · -- a line feed in the text is one more than the line has room for
    have hpos := List.count_pos_iff.2 hmem
    have hone := hcount.symm.trans h.2
    omega
  · rw [List.count_eq_zero.2 h] at hcount
    exact hcount

theorem lineFeeds_comment_sample :
    '\n' ∉ "  ".toList ∧ ∃ (w : Writer Device) (written : String),
      Writer.put (.comment "a\r\nb\n") ⟨Device.unlimited, "  ", 1⟩ = .ok () w ∧
        w.level = 1 ∧ w.sink.stored = .empty ++ written.toUTF8 ∧
        written.toUTF8.data.toList.getLast? = some 0x0A ∧
        written.toUTF8.data.toList.count 0x0A = 3 ∧
        (IsOneLine written.toUTF8.data.toList ↔ '\n' ∉ "a\r\nb\n".toList) := by
  have hunit : '\n' ∉ "  ".toList := by decide
  exact ⟨hunit, lineFeeds_comment hunit .empty 1 "a\r\nb\n"⟩

/-- A comment that holds a line feed is written on two lines. -/
theorem not_isOneLine_of_lineFeed :
    ∃ w : Writer Device, Writer.put (.comment "a\nb") ⟨Device.unlimited, "\t", 0⟩ = .ok () w ∧
      w.sink.stored = "/* a\nb */\n".toUTF8 ∧ ¬ IsOneLine w.sink.stored.data.toList := by
  obtain ⟨w, hput, -, hstored⟩ := exists_put_eq (f := .comment "a\nb") rfl rfl .empty "\t" 0
  have hlines : Writer.linesOf (Fragment.comment "a\nb").content = ["/* a", "b */"] := by decide
  have htext : text "\t" [(0, "/* a"), (0, "b */")] = "/* a\nb */\n" := by decide
  rw [hlines, List.map_cons, List.map_singleton, htext, ByteArray.empty_append] at hstored
  refine ⟨w, hput, hstored, ?_⟩
  rw [hstored]
  decide

end Comment

end NetlistTables.Code
