import NetlistTables.Proofs.Invocation.Outcome
import NetlistTables.Proofs.Table.Banner

/-!
# Failed output

With a standard output that has no room, the fault comes up at some write in the middle of the file,
when the buffer before it is full, or no later than at the final flush. Where it comes up decides
how far the log has got, and nothing else: the program ends with the same code and reports the
failure in the same last line (`run_exhausted`). Where there is no file to be written but the usage
to be shown, the program is aborted (`run_exhausted_of_miscount`).
-/

namespace NetlistTables

open Code Log Output

namespace Table

/-- A file is never empty, since it begins with a banner. -/
theorem size_text_pos (kind : FileKind) (c : Config) (t : List Primitive) :
    0 < (text kind c t).toUTF8.size := by
  obtain ⟨fs, hfs⟩ := exists_fragments_script kind c t
  have hlines : lines kind c t = Layout.layout 0 (banner c :: fs) := by
    rw [lines, ← hfs c.program]
  rw [text, hlines]
  exact Writer.size_text_layout_pos c.indent 0 (banner c) fs

/-- Without room an emission fails, and leaves nothing. -/
theorem emit_exhausted (kind : FileKind) (c : Config) (t : List Primitive) :
    (emit kind c t (Buffered.ofSink Device.exhausted)).result = .error (.output .noSpace) ∧
      (emit kind c t (Buffered.ofSink Device.exhausted)).sink.sink.stored = .empty := by
  obtain ⟨passed, -, h⟩ := emit_eq kind c t (Buffered.ofSink Device.exhausted)
  have hsize : (String.join (pieces kind c t)).toUTF8.size ≠ 0 := by
    rw [join_pieces]
    exact Nat.ne_of_gt (size_text_pos kind c t)
  obtain ⟨pending, hwrite⟩ := Buffered.writeAll_flush_exhausted hsize
  rw [h, hwrite]
  exact ⟨rfl, rfl⟩

end Table

/-- A record is told in capitals, and a failure is not. -/
theorem Log.Record.line_ne_failureLine (r : Record) (doing : String) (failure : Table.Failure) :
    r.line ≠ Invocation.failureLine doing failure := by
  intro h
  have hhead := congrArg (·.toList.head?) h
  simp only [Record.line, Invocation.failureLine] at hhead
  cases hseverity : r.severity with
  | _ => simp [hseverity, Severity.label] at hhead

namespace Invocation

open Table Text

/-- The records of an emission that has been broken off are the first of all its records. -/
theorem prefix_generationRecords (selector : String) (t : List Primitive)
    {noted noted' : List String} (h : noted <+: noted') :
    generationRecords selector t noted <+: generationRecords selector t noted' := by
  rw [generationRecords, generationRecords]
  exact (List.prefix_append_right_inj _).2 (List.cons_prefix_cons.2 ⟨rfl, h.map _⟩)

theorem prefix_log (i : Invocation) {records records' : List Record} (h : records <+: records') :
    i.log records <+: i.log records' :=
  (h.filter _).map _

theorem failureLine_notMem_log (i : Invocation) (records : List Record) (doing : String)
    (failure : Failure) : failureLine doing failure ∉ i.log records := by
  intro h
  obtain ⟨r, -, hr⟩ := List.mem_map.1 h
  exact r.line_ne_failureLine doing failure hr

/-- If standard output takes everything, standard error holds log lines alone. -/
theorem exists_stderr_eq_log (i : Invocation) :
    ∃ records, (i.run .unlimited).stderr = i.log records := by
  by_cases h : i.arguments.length = 1
  · obtain ⟨argument, h⟩ := List.length_eq_one_iff.1 h
    rw [run_eq_generate h, generate_of_ok validate_builtin (result_generation_unlimited ..)]
    exact ⟨_, rfl⟩
  · rw [run_of_miscount h]
    exact ⟨_, rfl⟩

/-- **Failed output.** With a standard output that has no room, a call with one argument ends with
the exit code 1 and leaves nothing there. Standard error then holds a beginning of what it holds
where everything is taken, and one line more that says why the output has failed; the line is always
the same, and stands there whatever the log filter is. Where everything is taken it never does. -/
theorem run_exhausted (path argument : ByteArray) (setting : Option String) :
    let i : Invocation := ⟨path, [argument], setting⟩
    let line := "error: failed to write generated text: IO error: " ++
      "No space left on device (os error 28): No space left on device (os error 28)"
    (i.run .exhausted).exitCode = 1 ∧ (i.run .exhausted).stdout = .empty ∧
      (∃ told, told <+: (i.run .unlimited).stderr ∧
        (i.run .exhausted).stderr = told ++ [line]) ∧
      ∀ arguments, line ∉ ((⟨path, arguments, setting⟩ : Invocation).run .unlimited).stderr := by
  intro i line
  let selector := Utf8.decode argument
  let lines (stdout : Device) : List String :=
    i.log (generationRecords selector Primitive.builtin
      (i.generation Primitive.builtin selector stdout).noted)
  have hfree := result_generation_unlimited i Primitive.builtin selector
  have htold : (i.run .unlimited).stderr = lines .unlimited := by
    rw [run_eq_generate rfl, generate_of_ok validate_builtin hfree]
  obtain ⟨hresult, hstored⟩ := emit_exhausted (.ofSelector selector) (.forProgram i.program)
    Primitive.builtin
  have hfull : i.run .exhausted = ⟨1, .empty, lines .exhausted ++ [line]⟩ := by
    rw [run_eq_generate rfl, generate_of_error validate_builtin hresult, generation, hstored]
    rfl
  -- both runs pass notes of the same script, and the one with room passes all of them
  have hlines : lines .exhausted <+: lines .unlimited := by
    refine prefix_log i (prefix_generationRecords selector Primitive.builtin ?_)
    rw [generation, generation, (noted_emit ..).2 hfree]
    exact (noted_emit ..).1
  refine ⟨by rw [hfull], by rw [hfull], ⟨lines .exhausted, ?_, by rw [hfull]⟩, ?_⟩
  · rw [htold]
    exact hlines
  · intro arguments
    obtain ⟨records, hrecords⟩ := exists_stderr_eq_log ⟨path, arguments, setting⟩
    rw [hrecords]
    exact failureLine_notMem_log _ records "failed to write generated text" (.output .noSpace)

/-- **Usage that cannot be shown.** With a standard output that has no room, a call with another
number of arguments is aborted. Nothing is left there, and standard error gives the reason behind
what it holds where everything is taken. -/
theorem run_exhausted_of_miscount {i : Invocation} (h : i.arguments.length ≠ 1) :
    i.run .exhausted = ⟨101, .empty, (i.run .unlimited).stderr ++
      ["failed printing to stdout: No space left on device (os error 28)"]⟩ := by
  have hsize : i.usage.toUTF8.size ≠ 0 := by
    rw [usage, String.toUTF8_eq_toByteArray, String.toByteArray_append, ByteArray.size_append]
    have hend : " c|h\n".toByteArray.size = 5 := rfl
    omega
  have hwrite := Device.write_exhausted i.usage.toUTF8
  rw [if_neg hsize] at hwrite
  rw [run_of_miscount h, run_eq_showUsage h, showUsage, hwrite]
  rfl

end Invocation

end NetlistTables
