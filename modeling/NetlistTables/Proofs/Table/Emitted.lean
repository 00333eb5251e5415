import NetlistTables.Proofs.Code.Spelling
import NetlistTables.Table.Emission

/-!
# The text of an emission

An emission carries out a script, and only the fragments of the script reach the sink: on any sink,
it writes the pieces of their layout and then flushes (`emit_eq`). On a device without bounds it
succeeds, and stores the text of the layout (`emit_unlimited`): the lines at their depths, set down
with the unit of indentation. So a file is read as what the fragments of its script are read as
(`readFile_of_reads`). Of the notes of its script, an emission passes all if it succeeds, and a
beginning if it fails (`noted_emit`).
-/

namespace NetlistTables.Table

open Code Output Reading

/-- The bytes of a file under the usual names: what its emission stores without bounds. -/
def file (kind : FileKind) (t : List Primitive) : ByteArray :=
  (emit kind .standard t Device.unlimited).sink.stored

/-- The fragments of a script. -/
def fragments (script : List Step) : List Fragment :=
  script.filterMap fun
    | .note _ => none
    | .put f => some f

theorem fragments_append (s s' : List Step) :
    fragments (s ++ s') = fragments s ++ fragments s' := by
  simp [fragments]

theorem fragments_map_put (fs : List Fragment) : fragments (fs.map .put) = fs := by
  induction fs with
  | nil => rfl
  | cons f fs ih => exact congrArg (f :: ·) ih

theorem fragments_flatMap {α : Type} (f : α → List Step) (xs : List α) :
    fragments (xs.flatMap f) = xs.flatMap fun x => fragments (f x) := by
  induction xs with
  | nil => rfl
  | cons x xs ih => rw [List.flatMap_cons, fragments_append, ih, List.flatMap_cons]

section OnWriter

variable {σ : Type} {a : Action (Writer σ) Unit} {e : Emission σ} {w : Writer σ}

theorem onWriter_of_ok {x : Unit} (h : a e.writer = .ok x w) :
    Emission.onWriter a e = .ok x { e with writer := w } := by
  simp only [Emission.onWriter, Action.on, h]

theorem onWriter_of_error {fault : Fault} (h : a e.writer = .error fault w) :
    Emission.onWriter a e = .error fault { e with writer := w } := by
  simp only [Emission.onWriter, Action.on, h]

end OnWriter

/-- The notes of a script. -/
def notes (script : List Step) : List String :=
  script.filterMap fun
    | .note primitive => some primitive
    | .put _ => none

/-- A script is carried out by writing its fragments, on any sink. The notes add up: all of them, or
those before the first fault. -/
theorem forM_perform_eq {σ : Type} [Sink σ] (script : List Step) (e : Emission σ) :
    ∃ passed, passed <+: notes script ∧ script.forM Emission.perform e =
      match (fragments script).forM Writer.put e.writer with
      | .ok _ w => .ok () ⟨w, e.noted ++ notes script⟩
      | .error fault w => .error fault ⟨w, e.noted ++ passed⟩ := by
  induction script generalizing e with
  | nil =>
    refine ⟨[], List.prefix_rfl, ?_⟩
    change _ = EStateM.Result.ok () (⟨e.writer, e.noted ++ []⟩ : Emission σ)
    rw [List.append_nil]
    rfl
  | cons s script ih =>
    have hcons : (s :: script).forM Emission.perform =
        (Emission.perform s >>= fun _ => script.forM Emission.perform :
          Action (Emission σ) Unit) := rfl
    cases s with
    | note primitive =>
      obtain ⟨passed, hpassed, h⟩ := ih { e with noted := e.noted ++ [primitive] }
      refine ⟨primitive :: passed, List.cons_prefix_cons.2 ⟨rfl, hpassed⟩, ?_⟩
      simp only [List.append_assoc, List.singleton_append] at h
      exact h
    | put f =>
      have hput : (fragments (.put f :: script)).forM Writer.put =
          (Writer.put f >>= fun _ => (fragments script).forM Writer.put :
            Action (Writer σ) Unit) := rfl
      cases hf : Writer.put f e.writer with
      | ok x w =>
        have hperform : Emission.perform (.put f) e = .ok x { e with writer := w } :=
          onWriter_of_ok hf
        obtain ⟨passed, hpassed, h⟩ := ih { e with writer := w }
        refine ⟨passed, hpassed, ?_⟩
        rw [hcons, hput, Action.bind_of_ok hperform, Action.bind_of_ok hf]
        exact h
      | error fault w =>
        have hperform : Emission.perform (.put f) e = .error fault { e with writer := w } :=
          onWriter_of_error hf
        refine ⟨[], List.nil_prefix, ?_⟩
        rw [hcons, hput, Action.bind_of_error hperform, Action.bind_of_error hf, List.append_nil]

/-- The lines of a file, each with its depth. -/
def lines (kind : FileKind) (c : Config) (t : List Primitive) : List (Nat × String) :=
  Layout.layout 0 (fragments (kind.script c t))

/-- The text of a file. -/
def text (kind : FileKind) (c : Config) (t : List Primitive) : String :=
  Layout.text c.indent (lines kind c t)

/-- The writes of an emission, without the flush that ends it. -/
def pieces (kind : FileKind) (c : Config) (t : List Primitive) : List String :=
  Layout.pieces c.indent (lines kind c t)

theorem join_pieces (kind : FileKind) (c : Config) (t : List Primitive) :
    String.join (pieces kind c t) = text kind c t :=
  Layout.join_pieces c.indent (lines kind c t)

/-- Flushing changes nothing but the sink. -/
theorem onWriter_flush_eq {σ : Type} [Sink σ] (e : Emission σ) :
    Emission.onWriter Writer.flush e =
      match (Sink.flush e.writer.sink : EStateM.Result Fault σ Unit) with
      | .ok _ s => .ok () { e with writer := { e.writer with sink := s } }
      | .error fault s => .error fault { e with writer := { e.writer with sink := s } } := by
  cases hf : (Sink.flush e.writer.sink : EStateM.Result Fault σ Unit) with
  | ok x s => exact onWriter_of_ok (Writer.onSink_of_ok hf)
  | error fault s => exact onWriter_of_error (Writer.onSink_of_error hf)

/-- **An emission writes the pieces of the file and then flushes**, on any sink, and a fault of the
sink is the only way for it to fail. It passes all the notes of its script if it succeeds, and a
beginning of them if it fails. -/
theorem emit_eq {σ : Type} [Sink σ] (kind : FileKind) (c : Config) (t : List Primitive) (s : σ) :
    ∃ passed, passed <+: notes (kind.script c t) ∧ emit kind c t s =
      match (Sink.writeAll (pieces kind c t) >>= fun _ => Sink.flush : Action σ Unit) s with
      | .ok _ s => ⟨s, notes (kind.script c t), .ok ()⟩
      | .error fault s => ⟨s, passed, .error (.output fault)⟩ := by
  obtain ⟨passed, hpassed, h⟩ :=
    forM_perform_eq (kind.script c t) (⟨⟨s, c.indent, 0⟩, []⟩ : Emission σ)
  obtain ⟨level, hall⟩ := Writer.putAll_eq (⟨s, c.indent, 0⟩ : Writer σ)
    (fragments (kind.script c t))
  have hpieces : Layout.pieces c.indent (Layout.layout 0 (fragments (kind.script c t))) =
      pieces kind c t := rfl
  simp only [hpieces] at hall
  rw [hall] at h
  rw [emit, Emission.run]
  cases hs : Sink.writeAll (pieces kind c t) s with
  | ok x s' =>
    -- the fault of a flush comes behind all the notes
    refine ⟨notes (kind.script c t), List.prefix_rfl, ?_⟩
    simp only [hs] at h
    rw [Action.bind_of_ok h, Action.bind_of_ok hs, onWriter_flush_eq]
    cases (Sink.flush s' : EStateM.Result Fault σ Unit) with
    | ok x s'' => rfl
    | error fault s'' => rfl
  | error fault s' =>
    refine ⟨passed, hpassed, ?_⟩
    simp only [hs] at h
    rw [Action.bind_of_error h, Action.bind_of_error hs]
    rfl

theorem noted_emit {σ : Type} [Sink σ] (kind : FileKind) (c : Config) (t : List Primitive) (s : σ) :
    (emit kind c t s).noted <+: notes (kind.script c t) ∧
      ((emit kind c t s).result = .ok () →
        (emit kind c t s).noted = notes (kind.script c t)) := by
  obtain ⟨passed, hpassed, h⟩ := emit_eq kind c t s
  rw [h]
  split
  · exact ⟨List.prefix_rfl, fun _ => rfl⟩
  · exact ⟨hpassed, fun hok => nomatch hok⟩

/-- **On a device without bounds an emission succeeds**, and stores the text of the file. -/
theorem emit_unlimited (kind : FileKind) (c : Config) (t : List Primitive) :
    (emit kind c t Device.unlimited).result = .ok () ∧
      (emit kind c t Device.unlimited).sink.stored = (text kind c t).toUTF8 := by
  obtain ⟨passed, -, h⟩ := emit_eq kind c t Device.unlimited
  have hwrite : Sink.writeAll (pieces kind c t) Device.unlimited =
      .ok () (Device.unlimited.given (text kind c t).toUTF8) := by
    rw [Device.writeAll_eq rfl, join_pieces]
    rfl
  rw [h, Action.bind_of_ok hwrite]
  exact ⟨rfl, ByteArray.empty_append⟩

/-- A file is read as the items of the fragments of its script. -/
theorem readFile_of_reads {kind : FileKind} {t : List Primitive} {is : List Item}
    (h : Reads (fragments (kind.script .standard t)) is) : readFile (file kind t) = some is := by
  have hindent : Config.standard.indent.toList.all isBlank := rfl
  rw [file, (emit_unlimited kind .standard t).2, readFile_toUTF8]
  exact h.items_text (List.all_eq_true.1 hindent) 0

end NetlistTables.Table
