import NetlistTables.Invocation
import NetlistTables.Proofs.Table.Emitted
import NetlistTables.Proofs.Text.Utf8

/-!
# The outcome of an invocation

With a standard output that takes everything, the exit code and the standard output of the program
are fixed by the path that it is called by and by its arguments. The selector of the source is the
one byte `c`: no other bytes, be they text or not, are decoded to it.
-/

namespace NetlistTables

open Output

namespace Table

/-- Only `c` selects the source. -/
theorem FileKind.ofSelector_eq_source_iff {s : String} : ofSelector s = source ↔ s = "c" := by
  unfold ofSelector ofSelector?
  split <;> simp_all

/-- An emission through a buffer before a device without bounds leaves the file on the device. -/
theorem emit_buffered (kind : FileKind) (c : Config) (t : List Primitive) :
    (emit kind c t (Buffered.ofSink Device.unlimited)).result = .ok () ∧
      (emit kind c t (Buffered.ofSink Device.unlimited)).sink.sink.stored =
        (emit kind c t Device.unlimited).sink.stored := by
  obtain ⟨passed, -, h⟩ := emit_eq kind c t (Buffered.ofSink Device.unlimited)
  obtain ⟨b, hwrite, hext⟩ :=
    Buffered.writeAll_eq (b := Buffered.ofSink Device.unlimited) rfl (pieces kind c t)
  have hflush := Buffered.flush_eq hext.capacity hext.flushFault
  rw [h, Action.bind_of_ok hwrite, hflush, (emit_unlimited kind c t).2]
  refine ⟨rfl, ?_⟩
  rw [join_pieces] at hext
  exact hext.taken.trans ByteArray.empty_append

end Table

namespace Invocation

open Table Text

theorem ofSelector_decode {argument : ByteArray} :
    FileKind.ofSelector (Utf8.decode argument) = .source ↔ argument = "c".toUTF8 := by
  have hascii : ∀ c ∈ "c".toList, Utf8.IsAscii c := by
    simp [Utf8.IsAscii]
  rw [FileKind.ofSelector_eq_source_iff, Utf8.decode_eq_iff hascii]

/-- The file of a kind for the built-in table, in which a program is named. -/
def builtinFile (program : String) (kind : FileKind) : ByteArray :=
  (emit kind (.forProgram program) Primitive.builtin Device.unlimited).sink.stored

/-- The emission in which the program generates a file. -/
def generation (i : Invocation) (t : List Primitive) (selector : String) (stdout : Device) :
    Emitted (Buffered Device) :=
  emit (.ofSelector selector) (.forProgram i.program) t (Buffered.ofSink stdout)

section Generate

variable {i : Invocation} {t : List Primitive} {selector : String} {stdout : Device}

theorem generate_of_ok (hvalid : validate t = .ok ())
    (hresult : (i.generation t selector stdout).result = .ok ()) :
    i.generate t selector stdout =
      ⟨0, (i.generation t selector stdout).sink.sink.stored,
        i.log (generationRecords selector t (i.generation t selector stdout).noted)⟩ := by
  rw [generation] at hresult ⊢
  simp only [generate, hvalid, hresult]

theorem generate_of_error {failure : Failure} (hvalid : validate t = .ok ())
    (hresult : (i.generation t selector stdout).result = .error failure) :
    i.generate t selector stdout =
      ⟨1, (i.generation t selector stdout).sink.sink.stored,
        i.log (generationRecords selector t (i.generation t selector stdout).noted) ++
          [failureLine "failed to write generated text" failure]⟩ := by
  rw [generation] at hresult ⊢
  simp only [generate, hvalid, hresult]

end Generate

/-- The built-in table can be written. -/
theorem validate_builtin : validate Primitive.builtin = .ok () := rfl

/-- With one argument, the program generates the file that it selects. -/
theorem run_eq_generate {i : Invocation} {argument : ByteArray} (h : i.arguments = [argument])
    (stdout : Device) :
    i.run stdout = i.generate Primitive.builtin (Utf8.decode argument) stdout := by
  simp only [run, h]

/-- Where everything is taken, generating a file does not fail. -/
theorem result_generation_unlimited (i : Invocation) (t : List Primitive) (selector : String) :
    (i.generation t selector .unlimited).result = .ok () :=
  (emit_buffered ..).1

/-- With one argument, the program writes the file that it selects. -/
theorem run_of_argument {i : Invocation} {argument : ByteArray} (h : i.arguments = [argument]) :
    (i.run .unlimited).exitCode = 0 ∧
      (i.run .unlimited).stdout =
        builtinFile i.program (.ofSelector (Utf8.decode argument)) := by
  rw [run_eq_generate h, generate_of_ok validate_builtin (result_generation_unlimited ..)]
  exact ⟨rfl, (emit_buffered ..).2⟩

/-- With another number of arguments, the program shows its usage. -/
theorem run_eq_showUsage {i : Invocation} (h : i.arguments.length ≠ 1) (stdout : Device) :
    i.run stdout = i.showUsage stdout := by
  unfold run
  split
  next a ha => exact absurd (congrArg List.length ha) h
  next => rfl

theorem run_of_miscount {i : Invocation} (h : i.arguments.length ≠ 1) :
    i.run .unlimited = ⟨1, i.usage.toUTF8, i.log [miscountRecord i.arguments.length]⟩ := by
  have hwrite : Sink.write i.usage.toUTF8 Device.unlimited =
      .ok () { Device.unlimited with stored := i.usage.toUTF8 } := by
    rw [← ByteArray.empty_append (b := i.usage.toUTF8)]
    exact Device.write_of_unlimited rfl _
  rw [run_eq_showUsage h, showUsage, hwrite]

/-- **The outcome of an invocation**, with a standard output that takes everything. With an argument
the program writes a file of the built-in table: the source if the argument is the one byte `c`, and
the header if it is anything else. With another number of arguments it shows its usage. The program
is named by the path that it is called by, and the log filter has no part in any of this. -/
theorem run_unlimited (i : Invocation) :
    let program := programName (Utf8.decode i.path)
    let o := i.run .unlimited
    (i.arguments.length ≠ 1 →
        o.exitCode = 1 ∧ o.stdout = ("Usage: " ++ program ++ " c|h\n").toUTF8) ∧
      (i.arguments = ["c".toUTF8] → o.exitCode = 0 ∧ o.stdout = builtinFile program .source) ∧
      (∀ argument, i.arguments = [argument] → argument ≠ "c".toUTF8 →
        o.exitCode = 0 ∧ o.stdout = builtinFile program .header) ∧
      ∀ setting, let o' := { i with logSetting := setting }.run .unlimited
        o'.exitCode = o.exitCode ∧ o'.stdout = o.stdout := by
  refine ⟨fun h => ?_, ?_, ?_, ?_⟩
  · rw [run_of_miscount h]
    exact ⟨rfl, rfl⟩
  · intro h
    have hrun := run_of_argument h
    rw [ofSelector_decode.2 rfl] at hrun
    exact hrun
  · intro argument h hne
    have hkind : FileKind.ofSelector (Utf8.decode argument) = .header := by
      cases hk : FileKind.ofSelector (Utf8.decode argument) with
      | source => exact absurd (ofSelector_decode.1 hk) hne
      | header => rfl
    have hrun := run_of_argument h
    rw [hkind] at hrun
    exact hrun
  · intro setting
    by_cases h : i.arguments.length = 1
    · obtain ⟨argument, h⟩ := List.length_eq_one_iff.1 h
      obtain ⟨hcode, hstdout⟩ := run_of_argument h
      obtain ⟨hcode', hstdout'⟩ := run_of_argument (i := { i with logSetting := setting }) h
      exact ⟨hcode'.trans hcode.symm, hstdout'.trans hstdout.symm⟩
    · rw [run_of_miscount h, run_of_miscount (i := { i with logSetting := setting }) h]
      exact ⟨rfl, rfl⟩

/-- Bytes that begin with `c` and are no text select the header. -/
theorem run_unlimited_of_not_text :
    let i : Invocation := ⟨"bin/mk_xilprims/.".toUTF8, [⟨#[0x63, 0xFF]⟩], some "off"⟩
    (i.run .unlimited).exitCode = 0 ∧
      (i.run .unlimited).stdout = builtinFile "mk_xilprims" .header := by
  intro i
  have hprogram : programName (Utf8.decode i.path) = "mk_xilprims" := by decide
  have hrun := (run_unlimited i).2.2.1 ⟨#[0x63, 0xFF]⟩ rfl (by decide)
  rw [hprogram] at hrun
  exact hrun

/-! ## The vector of a call -/

/-- Without a path the program goes by its usual name, and otherwise by that of the path. -/
theorem program_ofVector (vector : List ByteArray) (setting : Option String) :
    (ofVector vector setting).program =
      (vector.head?.map fun path => programName (Utf8.decode path)).getD "mk_xilprims" := by
  cases vector with
  | nil =>
    have husual : programName (Utf8.decode usualName.toUTF8) = "mk_xilprims" := by decide
    exact husual
  | cons path arguments => rfl

/-- A call with nothing at all, not even a path, shows the usage of the program by its usual
name. -/
theorem stdout_ofVector_nil (setting : Option String) :
    ((ofVector [] setting).run .unlimited).stdout = "Usage: mk_xilprims c|h\n".toUTF8 := by
  have hcount : (ofVector [] setting).arguments.length ≠ 1 := Nat.zero_ne_one
  rw [run_of_miscount hcount, usage, program_ofVector]
  rfl

end Invocation

end NetlistTables
