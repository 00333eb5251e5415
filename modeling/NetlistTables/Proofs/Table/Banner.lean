import NetlistTables.Proofs.Table.Emitted

/-!
# The banner of a file

Every generated file begins with a comment that names the program. The program may bear any name,
one that ends comments or that reads as C not excepted: the name is escaped, so the comment ends
where the banner does, and nothing behind it depends on the name (`program_confined`).
-/

namespace NetlistTables.Table

open Code Output

/-- What a banner says before the name of the program. -/
def bannerStart : List Char := "/* Generated automatically by ".toList

/-- What a banner says behind the name of the program. -/
def bannerEnd : List Char := ". Do not edit manually! */".toList

/-- A text that begins and ends as a banner does. -/
structure IsBanner (cs : List Char) : Prop where
  starts : bannerStart <+: cs
  ends : bannerEnd <:+ cs

/-- The name of the program is escaped on its own: neither end of the banner joins in. -/
theorem toList_content_banner (c : Config) :
    (banner c).content.toList = bannerStart ++ Comment.part c.program.toList ++ bannerEnd := by
  have hbefore : Comment.part "Generated automatically by ".toList =
      "Generated automatically by ".toList :=
    Comment.part_of_isOpen (Comment.isOpen_of_notMem (by decide))
  have hbehind : Comment.part ". Do not edit manually!".toList = ". Do not edit manually!".toList :=
    Comment.part_of_isOpen (Comment.isOpen_of_notMem (by decide))
  have hstart : bannerStart = "/* ".toList ++ "Generated automatically by ".toList := rfl
  have hend : bannerEnd = ". Do not edit manually!".toList ++ ([' '] ++ ['*', '/']) := rfl
  rw [banner, Fragment.content, Comment.toList_enclose, String.toList_append, String.toList_append,
    Comment.part_append fun _ => by decide,
    Comment.part_append fun hlast => absurd hlast (by decide), hbefore, hbehind, hstart, hend]
  simp only [List.append_assoc]

/-- Only the banner of a file depends on the name of the program. -/
theorem exists_fragments_script (kind : FileKind) (c : Config) (t : List Primitive) :
    ∃ fs, ∀ program, fragments (kind.script { c with program } t) =
      banner { c with program } :: fs := by
  refine ⟨(fragments (kind.script c t)).tail, fun program => ?_⟩
  cases kind with
  | source => rfl
  | header => rfl

/-- A banner is written as a text that begins and ends as it does, and ends no comment before. -/
theorem exists_text_banner (unit : String) (c : Config) :
    ∃ cs, (Layout.text unit (Layout.layout 0 [banner c])).toList = cs ++ ['*', '/'] ++ ['\n'] ∧
      Comment.IsOpen (cs ++ ['*']) ∧ IsBanner (cs ++ ['*', '/']) := by
  have hlayout : Layout.layout 0 [banner c] = (Writer.linesOf (banner c).content).map (0, ·) :=
    List.append_nil _
  -- the banner stands at the left end of its lines
  have hmargin : (String.join (List.replicate 0 unit)).toList = [] := rfl
  have hne : (banner c).content ≠ "" := by
    intro hempty
    have hend := (toList_content_banner c).symm
    rw [hempty, String.toList_empty] at hend
    cases List.append_eq_nil_iff.1 hend |>.2
  have htext := Writer.toList_text_linesOf unit 0 hne
  rw [hmargin, toList_content_banner] at htext
  have hnoStar : '*' ∉ (String.join (List.replicate 0 unit)).toList := by
    rw [hmargin]
    exact List.not_mem_nil
  obtain ⟨cs, hcs, hopen⟩ := Comment.exists_text_eq (s := (banner c).content)
    (Comment.toList_enclose _) (Comment.isOpen_enclosed _) unit 0 hnoStar
  have hwritten : Layout.setLines []
      (Text.splitLines (bannerStart ++ Comment.part c.program.toList ++ bannerEnd)) =
        cs ++ ['*', '/'] ++ ['\n'] := by
    rw [← htext, hcs, List.append_assoc]
    rfl
  refine ⟨cs, by rw [hlayout, htext, hwritten], hopen, ?_, ?_⟩
  · have hstarts : bannerStart <+: Layout.setLines []
        (Text.splitLines (bannerStart ++ (Comment.part c.program.toList ++ bannerEnd))) :=
      Layout.prefix_setLines (by decide) (by decide)
        (List.append_ne_nil_of_right_ne_nil _ (List.cons_ne_nil '.' _))
    rw [← List.append_assoc, hwritten, List.prefix_concat_iff] at hstarts
    refine hstarts.resolve_left fun hall => ?_
    have hfeed : '\n' ∈ bannerStart := by simp [hall]
    exact absurd hfeed (by decide)
  · obtain ⟨es, hes⟩ := Layout.exists_setLines_append []
      (bannerStart ++ Comment.part c.program.toList) (c := '.') (by decide)
    have hend : bannerEnd = '.' :: " Do not edit manually! */".toList := rfl
    have hends := hes " Do not edit manually! */".toList (by decide)
    rw [← hend, hwritten] at hends
    exact ⟨es, (List.append_cancel_right hends).symm⟩

/-- The text of a file is cut behind its banner, and what is left is the same for all programs. -/
theorem exists_cut_text (kind : FileKind) (c : Config) (t : List Primitive) :
    ∃ rest, ∀ program, ∃ cs,
      Comment.cut (text kind { c with program } t).toList = some (cs, rest) ∧ IsBanner cs := by
  obtain ⟨fs, hfs⟩ := exists_fragments_script kind c t
  refine ⟨'\n' :: (Layout.text c.indent (Layout.layout 0 fs)).toList, fun program => ?_⟩
  obtain ⟨cs, hcs, hopen, hbanner⟩ := exists_text_banner c.indent { c with program }
  refine ⟨cs ++ ['*', '/'], ?_, hbanner⟩
  have hlayout : lines kind { c with program } t =
      Layout.layout 0 [banner { c with program }] ++ Layout.layout 0 fs := by
    rw [lines, hfs]
    exact Layout.layout_append 0 [_] fs
  rw [text, hlayout, Layout.text_append, String.toList_append, hcs]
  simpa using Comment.cut_append hopen ('\n' :: (Layout.text c.indent (Layout.layout 0 fs)).toList)

/-- **The name of the program stays inside the banner.** The texts that are emitted for two names
differ in no character behind the first end of a comment, and up to there each is a banner. -/
theorem program_confined (kind : FileKind) (c : Config) (t : List Primitive) (p q : String) :
    ∃ written written' : String,
      (emit kind { c with program := p } t Device.unlimited).sink.stored = written.toUTF8 ∧
      (emit kind { c with program := q } t Device.unlimited).sink.stored = written'.toUTF8 ∧
      ∃ cs cs' rest, Comment.cut written.toList = some (cs, rest) ∧
        Comment.cut written'.toList = some (cs', rest) ∧ IsBanner cs ∧ IsBanner cs' := by
  obtain ⟨rest, hcut⟩ := exists_cut_text kind c t
  obtain ⟨cs, hcs, hbanner⟩ := hcut p
  obtain ⟨cs', hcs', hbanner'⟩ := hcut q
  exact ⟨text kind { c with program := p } t, text kind { c with program := q } t,
    (emit_unlimited kind _ t).2, (emit_unlimited kind _ t).2, cs, cs', rest, hcs, hcs', hbanner,
    hbanner'⟩

end NetlistTables.Table
