import NetlistTables.Proofs.Invocation.Outcome
import NetlistTables.Proofs.Text.Quoted

/-!
# The warning about a selector

Where the log filter is not set, the program tells of one thing only: that the argument is neither
of the two selectors. The warning is a line that the argument cannot break up, since the argument
stands quoted in it, and that tells what the argument has been read as (`selector_warned`).
-/

namespace NetlistTables

open Log Output

/-- The two selectors name a kind of file, and nothing else does. -/
theorem Table.FileKind.ofSelector?_eq_none_iff {s : String} :
    ofSelector? s = none ↔ s ≠ "c" ∧ s ≠ "h" := by
  unfold ofSelector?
  split <;> simp_all

namespace Invocation

open Table Text

/-! ## The line of the warning -/

/-- What stands before the selector in the line that warns of it. -/
def warningStart : String :=
  "WARN xilprims::emitter: unrecognized mode selector, emitting header selector="

/-- The selector that a line warns of. -/
def warnedSelector? (line : String) : Option String :=
  (line.toList.dropPrefix? warningStart.toList).bind Quoted.read?

theorem line_selectorRecord (selector : String) :
    (selectorRecord selector).line = warningStart ++ Quoted.quote selector := by
  have hfields : String.join [" " ++ "selector" ++ "=" ++ Quoted.quote selector] =
      " selector=" ++ Quoted.quote selector := by
    rw [String.join_cons, String.join_nil, String.append_empty]
    rfl
  have hstart : warningStart = "WARN" ++ " " ++ "xilprims::emitter" ++ ": " ++
      "unrecognized mode selector, emitting header" ++ " selector=" := rfl
  rw [hstart, String.append_assoc, ← hfields]
  rfl

/-- The selector can be told from the line. -/
theorem warnedSelector?_line (selector : String) :
    warnedSelector? (selectorRecord selector).line = some selector := by
  have hdrop : (selectorRecord selector).line.toList.dropPrefix? warningStart.toList =
      some (Quoted.quote selector).toList := by
    rw [line_selectorRecord, String.toList_append, List.dropPrefix?_eq_some_iff]
    exact ⟨warningStart.toList, rfl, beq_self_eq_true _⟩
  rw [warnedSelector?, hdrop, Option.bind_some, Quoted.read?_quote]

theorem not_isControl_of_mem_line {selector : String} {c : Char}
    (h : c ∈ (selectorRecord selector).line.toList) : ¬ IsControl c := by
  have hstart : warningStart.toList.all fun c => ¬ IsControl c := by decide
  rw [line_selectorRecord, String.toList_append, List.mem_append] at h
  rcases h with h | h
  · exact of_decide_eq_true (List.all_eq_true.1 hstart c h)
  · exact Quoted.not_isControl_of_isShown (Quoted.isShown_of_mem_quote h)

/-! ## Standard error -/

/-- Where the filter is not set, nothing is told of a generation but the warning. -/
theorem log_generationRecords {i : Invocation} (h : i.logSetting = none) (selector : String)
    (t : List Primitive) (noted : List String) :
    i.log (generationRecords selector t noted) =
      if (FileKind.ofSelector? selector).isNone then [(selectorRecord selector).line] else [] := by
  have hfilter : i.filter = .standard := by
    rw [filter, h]
    rfl
  have hwarning : Filter.standard.admits (selectorRecord selector) = true := rfl
  have hgenerating (kind : FileKind) :
      Filter.standard.admits (generatingRecord kind t) = false := rfl
  have hnoted (kind : FileKind) :
      (noted.map (primitiveRecord kind)).filter Filter.standard.admits = [] := by
    rw [List.filter_eq_nil_iff, List.forall_mem_map]
    intro p _
    exact Bool.false_ne_true
  rw [log, hfilter, generationRecords]
  split
  · simp [hwarning, hgenerating, hnoted]
  · simp [hgenerating, hnoted]

/-- What standard error holds after a call by the name `path` with one argument, where the log
filter is not set and standard output takes everything. -/
def stderrOf (path argument : ByteArray) : List String :=
  ((⟨path, [argument], none⟩ : Invocation).run .unlimited).stderr

theorem stderrOf_eq (path argument : ByteArray) :
    stderrOf path argument = if (FileKind.ofSelector? (Utf8.decode argument)).isNone then
      [(selectorRecord (Utf8.decode argument)).line] else [] := by
  rw [stderrOf, run_eq_generate rfl, generate_of_ok validate_builtin
    (result_generation_unlimited ..)]
  exact log_generationRecords rfl ..

/-- An argument is read as no selector just if it is not the byte of one. -/
theorem isNone_ofSelector?_decode {argument : ByteArray} :
    (FileKind.ofSelector? (Utf8.decode argument)).isNone ↔
      argument ≠ "c".toUTF8 ∧ argument ≠ "h".toUTF8 := by
  have hsource : ∀ c ∈ "c".toList, Utf8.IsAscii c := by simp [Utf8.IsAscii]
  have hheader : ∀ c ∈ "h".toList, Utf8.IsAscii c := by simp [Utf8.IsAscii]
  rw [Option.isNone_iff_eq_none, FileKind.ofSelector?_eq_none_iff, ne_eq, ne_eq,
    Utf8.decode_eq_iff hsource, Utf8.decode_eq_iff hheader]

/-- **The warning about a selector**, where the log filter is not set and standard output takes
everything. If the argument is the one byte `c` or the one byte `h`, standard error holds nothing.
If it is anything else, be it text or not, standard error holds one line: the warning, and behind it
the quoted form of what the argument is read as. There is no control character in the line, whatever
the argument holds, and what the argument is read as can be told from the line. So another argument
leaves the same line just if it is read as the same text. -/
theorem selector_warned (path argument : ByteArray) :
    (argument = "c".toUTF8 ∨ argument = "h".toUTF8 → stderrOf path argument = []) ∧
      (argument ≠ "c".toUTF8 → argument ≠ "h".toUTF8 →
        ∃ line, stderrOf path argument = [line] ∧
          line = "WARN xilprims::emitter: unrecognized mode selector, emitting header selector=" ++
            Quoted.quote (Utf8.decode argument) ∧
          (∀ c ∈ line.toList, ¬ IsControl c) ∧
          warnedSelector? line = some (Utf8.decode argument) ∧
          ∀ path' argument', stderrOf path' argument' = [line] ↔
            Utf8.decode argument' = Utf8.decode argument) := by
  refine ⟨fun h => ?_, fun hsource hheader => ?_⟩
  · have hsome : ¬ (FileKind.ofSelector? (Utf8.decode argument)).isNone := by
      rw [isNone_ofSelector?_decode]
      tauto
    rw [stderrOf_eq, if_neg hsome]
  · have hnone := isNone_ofSelector?_decode.2 ⟨hsource, hheader⟩
    refine ⟨_, (stderrOf_eq path argument).trans (if_pos hnone), line_selectorRecord _,
      fun c => not_isControl_of_mem_line, warnedSelector?_line _, fun path' argument' => ?_⟩
    constructor
    · intro h
      rw [stderrOf_eq] at h
      split at h
      next =>
        have hlines := congrArg warnedSelector? (List.cons.inj h).1
        rw [warnedSelector?_line, warnedSelector?_line] at hlines
        exact Option.some.inj hlines
      next => cases h
    · intro h
      rw [stderrOf_eq, h, if_pos hnone]

/-- An argument that is no text, and holds a line feed, an escape character and what would end the
quoted form. -/
theorem selector_warned_of_forged_line :
    let path := "mk_xilprims".toUTF8
    let forged : ByteArray := ⟨#[0x63, 0x0A, 0x1B, 0x22, 0x5C, 0xC3, 0x6E]⟩
    stderrOf path "h".toUTF8 = [] ∧ (forged ≠ "c".toUTF8 ∧ forged ≠ "h".toUTF8) ∧
      stderrOf path forged =
        ["WARN xilprims::emitter: unrecognized mode selector, emitting header " ++
          "selector=\"c\\n\\u\x7b1b\x7d\\\"\\\\\uFFFDn\""] := by
  intro path forged
  have hne : forged ≠ "c".toUTF8 ∧ forged ≠ "h".toUTF8 := by decide
  obtain ⟨line, hstderr, hline, -⟩ := (selector_warned path forged).2 hne.1 hne.2
  have hdecode : Utf8.decode forged =
      String.ofList (['c', '\n', '\x1B', '"', '\\'] ++ ['\uFFFD'] ++ ['n']) := by decide +kernel
  have hreplacement : ['\uFFFD'].flatMap Quoted.escapeChar = ['\uFFFD'] := by
    simp [Quoted.escapeChar, Quoted.isShown_replacement]
  have hquote : Quoted.quote (Utf8.decode forged) =
      "\"c\\n\\u\x7b1b\x7d\\\"\\\\\uFFFDn\"" := by
    rw [hdecode, Quoted.quote, String.toList_ofList, List.flatMap_append, List.flatMap_append,
      hreplacement]
    decide +kernel
  rw [hquote] at hline
  exact ⟨(selector_warned path "h".toUTF8).1 (.inr rfl), hne,
    hstderr.trans (congrArg ([·]) hline)⟩

end Invocation

end NetlistTables
