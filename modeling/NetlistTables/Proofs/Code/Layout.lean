import NetlistTables.Code.Writer
import NetlistTables.Proofs.Output.Writes
import NetlistTables.Proofs.Text.Lines

/-!
# The layout of fragments

A writer turns fragments into a row of writes, and which texts it writes does not depend on the
sink. `layout` gives the lines of some fragments with their depths, `text` sets the lines down with
a unit of indentation, and `pieces` gives the single writes that make up this text. `put_eq` and
`putAll_eq` say that a writer writes just these pieces, on any sink, and at which level it stands
afterwards: a fault leaves the level that the fragment in question was written at.
-/

namespace NetlistTables.Code

open Output

namespace Fragment

/-- The depth of the lines of a fragment that follows lines at a level. -/
def depth (f : Fragment) (level : Nat) : Nat := if f.closes then level - 1 else level

/-- The level of the lines that follow a fragment. -/
def levelAfter (f : Fragment) (level : Nat) : Nat :=
  if f.opens then f.depth level + 1 else f.depth level

end Fragment

namespace Layout

/-- The level of the lines that follow some fragments. -/
def levelAfter : Nat → List Fragment → Nat
  | level, [] => level
  | level, f :: fs => levelAfter (f.levelAfter level) fs

/-- The lines of some fragments from a level on, each with its depth. -/
def layout : Nat → List Fragment → List (Nat × String)
  | _, [] => []
  | level, f :: fs =>
    (Writer.linesOf f.content).map (f.depth level, ·) ++ layout (f.levelAfter level) fs

/-- A line at a depth, as it is written: behind as many units, unless it is empty. -/
def lineText (unit : String) (l : Nat × String) : String :=
  (if l.2 = "" then "" else String.join (List.replicate l.1 unit)) ++ l.2 ++ "\n"

/-- Lines at their depths, as they are written. -/
def text (unit : String) (ls : List (Nat × String)) : String := String.join (ls.map (lineText unit))

theorem text_nil (unit : String) : text unit [] = "" := by
  simp [text]

theorem text_cons (unit : String) (l : Nat × String) (ls : List (Nat × String)) :
    text unit (l :: ls) = lineText unit l ++ text unit ls := by
  simp [text]

theorem text_append (unit : String) (ls ls' : List (Nat × String)) :
    text unit (ls ++ ls') = text unit ls ++ text unit ls' := by
  simp [text]

/-- The texts that a line at a depth is written in. -/
def linePieces (unit : String) (l : Nat × String) : List String :=
  (if l.2 = "" then [] else [String.join (List.replicate l.1 unit), l.2]) ++ ["\n"]

/-- The texts that lines at their depths are written in. -/
def pieces (unit : String) (ls : List (Nat × String)) : List String := ls.flatMap (linePieces unit)

theorem pieces_cons (unit : String) (l : Nat × String) (ls : List (Nat × String)) :
    pieces unit (l :: ls) = linePieces unit l ++ pieces unit ls := by
  simp [pieces]

theorem pieces_append (unit : String) (ls ls' : List (Nat × String)) :
    pieces unit (ls ++ ls') = pieces unit ls ++ pieces unit ls' := by
  simp [pieces]

theorem join_linePieces (unit : String) (l : Nat × String) :
    String.join (linePieces unit l) = lineText unit l := by
  unfold linePieces lineText
  split
  next hl => simp [hl]
  next => simp [String.append_assoc]

/-- The pieces make up the text. -/
theorem join_pieces (unit : String) (ls : List (Nat × String)) :
    String.join (pieces unit ls) = text unit ls := by
  induction ls with
  | nil => rw [text_nil, pieces, List.flatMap_nil, String.join_nil]
  | cons l ls ih => rw [pieces_cons, text_cons, String.join_append, join_linePieces, ih]

/-- Lines set down with a margin before all that are not empty, as characters. -/
def setLines (margin : List Char) (ls : List (List Char)) : List Char :=
  ls.flatMap fun l => (if l = [] then [] else margin) ++ l ++ ['\n']

theorem setLines_cons (margin l : List Char) (ls : List (List Char)) :
    setLines margin (l :: ls) =
      (if l = [] then [] else margin) ++ (l ++ '\n' :: setLines margin ls) := by
  simp [setLines]

theorem setLines_append (margin : List Char) (ls ls' : List (List Char)) :
    setLines margin (ls ++ ls') = setLines margin ls ++ setLines margin ls' := by
  simp [setLines]

/-- What stands behind a text in its last line stands so when the lines are set down. -/
theorem exists_setLines_append (margin cs : List Char) {c : Char} (hc : c ≠ '\n') :
    ∃ es, ∀ ds : List Char, '\n' ∉ ds →
      setLines margin (Text.splitLines (cs ++ c :: ds)) = es ++ (c :: ds) ++ ['\n'] := by
  obtain ⟨ls, l, h⟩ := Text.splitLines_append_right cs hc
  refine ⟨setLines margin ls ++ (margin ++ l), fun ds hds => ?_⟩
  have hline : l ++ c :: ds ≠ [] := by simp
  rw [h ds hds, setLines_append, setLines_cons, if_neg hline]
  simp [setLines]

/-- What stands before a text in its first line stands so when the lines are set down. -/
theorem prefix_setLines {ds cs : List Char} (hfeed : '\n' ∉ ds) (hreturn : '\r' ∉ ds)
    (hcs : cs ≠ []) : ds <+: setLines [] (Text.splitLines (ds ++ cs)) := by
  obtain ⟨l, ls, hls⟩ := List.exists_cons_of_ne_nil (mt Text.splitLines_eq_nil_iff.1 hcs)
  rw [Text.splitLines_append_left hfeed hreturn hls, setLines_cons, ite_self, List.nil_append,
    List.append_assoc]
  exact List.prefix_append _ _

theorem levelAfter_append (level : Nat) (fs gs : List Fragment) :
    levelAfter level (fs ++ gs) = levelAfter (levelAfter level fs) gs := by
  induction fs generalizing level with
  | nil => rfl
  | cons f fs ih => exact ih (f.levelAfter level)

theorem layout_append (level : Nat) (fs gs : List Fragment) :
    layout level (fs ++ gs) = layout level fs ++ layout (levelAfter level fs) gs := by
  induction fs generalizing level with
  | nil => rfl
  | cons f fs ih => rw [List.cons_append, layout, layout, levelAfter, ih, List.append_assoc]

/-- Between a fragment that opens a list and what closes it, the level is one more. -/
theorem levelAfter_group {f g : Fragment} {fs : List Fragment} {level : Nat}
    (hf : f.levelAfter level = level + 1) (hfs : levelAfter (level + 1) fs = level + 1) :
    levelAfter level (f :: fs ++ [g]) = g.levelAfter (level + 1) := by
  have hlevel : levelAfter level (f :: fs) = level + 1 := by rw [levelAfter, hf, hfs]
  rw [levelAfter_append, hlevel]
  rfl

section FlatMap

variable {α : Type} {level : Nat} {f : α → List Fragment}

/-- Groups of fragments each of which leaves the level as it was leave it so in a row. -/
theorem levelAfter_flatMap (h : ∀ x, levelAfter level (f x) = level) (xs : List α) :
    levelAfter level (xs.flatMap f) = level := by
  induction xs with
  | nil => rfl
  | cons x xs ih => rw [List.flatMap_cons, levelAfter_append, h, ih]

/-- Their lines are then those of the single groups. -/
theorem layout_flatMap (h : ∀ x, levelAfter level (f x) = level) (xs : List α) :
    layout level (xs.flatMap f) = xs.flatMap fun x => layout level (f x) := by
  induction xs with
  | nil => rfl
  | cons x xs ih => rw [List.flatMap_cons, layout_append, h, ih, List.flatMap_cons]

theorem text_flatMap (unit : String) (ls : α → List (Nat × String)) (xs : List α) :
    text unit (xs.flatMap ls) = String.join (xs.map fun x => text unit (ls x)) := by
  induction xs with
  | nil => rw [List.flatMap_nil, text_nil, List.map_nil, String.join_nil]
  | cons x xs ih => rw [List.flatMap_cons, text_append, ih, List.map_cons, String.join_cons]

end FlatMap

end Layout

namespace Writer

open Layout

/-! ## The lines of a text -/

theorem linesOf_ne_nil (s : String) : linesOf s ≠ [] := by
  unfold linesOf
  split
  · simp
  next hs =>
    rw [Text.lines, ne_eq, List.map_eq_nil_iff, Text.splitLines_eq_nil_iff]
    simpa using hs

theorem linesOf_of_notMem {s : String} (h : '\n' ∉ s.toList) : linesOf s = [s] := by
  unfold linesOf
  split
  · next hs => rw [hs]
  · next hs =>
    have hne : s.toList ≠ [] := by simpa using hs
    rw [Text.lines, Text.splitLines_of_notMem h hne, List.map_singleton, String.ofList_toList]

/-- A fragment has a line, and a line has a byte. -/
theorem size_text_layout_pos (unit : String) (level : Nat) (f : Fragment) (fs : List Fragment) :
    0 < (Layout.text unit (layout level (f :: fs))).toUTF8.size := by
  obtain ⟨l, ls, hls⟩ := List.exists_cons_of_ne_nil (linesOf_ne_nil f.content)
  have hlayout : layout level (f :: fs) =
      (f.depth level, l) :: (ls.map (f.depth level, ·) ++ layout (f.levelAfter level) fs) := by
    rw [layout, hls, List.map_cons, List.cons_append]
  rw [hlayout, text_cons, lineText]
  simp only [String.toUTF8_eq_toByteArray, String.toByteArray_append, ByteArray.size_append]
  have hfeed : "\n".toByteArray.size = 1 := rfl
  omega

/-- A fragment whose text has no line feed is one line. -/
theorem layout_of_notMem {f : Fragment} (h : '\n' ∉ f.content.toList) (level : Nat) :
    layout level [f] = [(f.depth level, f.content)] := by
  rw [layout, linesOf_of_notMem h, layout]
  rfl

/-- Copies of a unit hold nothing but what the unit holds. -/
theorem mem_of_mem_units {unit : String} {level : Nat} {c : Char}
    (h : c ∈ (String.join (List.replicate level unit)).toList) : c ∈ unit.toList := by
  rw [String.toList_join, List.mem_flatMap] at h
  obtain ⟨s, hs, hc⟩ := h
  rwa [List.eq_of_mem_replicate hs] at hc

/-- The lines of a text at a level are set down with as many units as their margin. -/
theorem toList_text_linesOf (unit : String) (level : Nat) {s : String} (hs : s ≠ "") :
    (Layout.text unit ((linesOf s).map (level, ·))).toList =
      setLines (String.join (List.replicate level unit)).toList (Text.splitLines s.toList) := by
  rw [linesOf, if_neg hs, Text.lines]
  induction Text.splitLines s.toList with
  | nil => rfl
  | cons l ls ih =>
    have hempty : String.ofList l = "" ↔ l = [] := by
      rw [← String.toList_inj, String.toList_ofList, String.toList_empty]
    rw [List.map_cons, List.map_cons, text_cons, String.toList_append, ih, setLines_cons, lineText]
    by_cases hl : l = []
    · simp [hl]
    · simp [hl, hempty]

variable {σ : Type}

/-! ## Acting on the sink -/

theorem onSink_of_ok {a : Action σ Unit} {w : Writer σ} {x : Unit} {s : σ}
    (h : a w.sink = .ok x s) : onSink a w = .ok x { w with sink := s } := by
  simp only [onSink, Action.on, h]

theorem onSink_of_error {a : Action σ Unit} {w : Writer σ} {fault : Fault} {s : σ}
    (h : a w.sink = .error fault s) : onSink a w = .error fault { w with sink := s } := by
  simp only [onSink, Action.on, h]

theorem onSink_bind (a b : Action σ Unit) :
    onSink (a >>= fun _ => b) = onSink a >>= fun _ => onSink b := by
  funext w
  cases ha : a w.sink with
  | error fault s =>
    rw [Action.bind_of_error (onSink_of_error ha), onSink_of_error (Action.bind_of_error ha)]
  | ok x s =>
    rw [Action.bind_of_ok (onSink_of_ok ha)]
    have hab : (a >>= fun _ => b) w.sink = b s := Action.bind_of_ok ha
    cases hb : b s with
    | ok y s' =>
      rw [onSink_of_ok (hab.trans hb)]
      exact (onSink_of_ok (w := { w with sink := s }) hb).symm
    | error fault s' =>
      rw [onSink_of_error (hab.trans hb)]
      exact (onSink_of_error (w := { w with sink := s }) hb).symm

/-! ## Writing to any sink -/

variable [Sink σ]

/-- Write some texts in a row. -/
def putPieces (ss : List String) : Action (Writer σ) Unit := onSink (Sink.writeAll ss)

theorem putPieces_nil : (putPieces [] : Action (Writer σ) Unit) = pure () := rfl

theorem putPieces_cons (s : String) (ss : List String) :
    (putPieces (s :: ss) : Action (Writer σ) Unit) = putText s >>= fun _ => putPieces ss := by
  rw [putPieces, Sink.writeAll_cons, onSink_bind]
  rfl

theorem putPieces_append (ss ts : List String) :
    (putPieces (ss ++ ts) : Action (Writer σ) Unit) = putPieces ss >>= fun _ => putPieces ts := by
  rw [putPieces, Sink.writeAll_append, onSink_bind]
  rfl

/-- Writing in a row changes nothing but the sink. -/
theorem putPieces_cases (ss : List String) (w : Writer σ) :
    (∃ s, Sink.writeAll ss w.sink = .ok () s ∧ putPieces ss w = .ok () { w with sink := s }) ∨
      ∃ fault s, Sink.writeAll ss w.sink = .error fault s ∧
        putPieces ss w = .error fault { w with sink := s } := by
  cases h : Sink.writeAll ss w.sink with
  | ok x s => exact .inl ⟨s, rfl, onSink_of_ok h⟩
  | error fault s => exact .inr ⟨fault, s, rfl, onSink_of_error h⟩

theorem putLine_eq (w : Writer σ) (line : String) :
    putLine line w = putPieces (linePieces w.unit (w.level, line)) w := by
  unfold putLine linePieces
  by_cases hl : line = ""
  · simp only [hl, ne_eq, not_true_eq_false, if_false, if_true, List.nil_append, putPieces_cons,
      putPieces_nil, bind_pure_unit]
  · simp only [hl, ne_eq, not_false_eq_true, if_true, if_false, List.cons_append, List.nil_append,
      putPieces_cons, putPieces_nil, bind_pure_unit]
    rfl

/-- Lines are written piece by piece, at the level of the writer. -/
theorem forM_putLine_eq (w : Writer σ) (ls : List String) :
    ls.forM putLine w = putPieces (pieces w.unit (ls.map (w.level, ·))) w := by
  induction ls generalizing w with
  | nil => rfl
  | cons l ls ih =>
    have hcons : (l :: ls).forM putLine = (putLine l >>= fun _ => ls.forM putLine :
      Action (Writer σ) Unit) := rfl
    rw [hcons, List.map_cons, pieces_cons, putPieces_append]
    have hline := putLine_eq w l
    rcases putPieces_cases (linePieces w.unit (w.level, l)) w with ⟨s, -, hok⟩ | ⟨fault, s, -, herr⟩
    · rw [Action.bind_of_ok hok, Action.bind_of_ok (hline.trans hok), ih]
    · rw [Action.bind_of_error herr, Action.bind_of_error (hline.trans herr)]

theorem put_eq_bind (f : Fragment) :
    (put f : Action (Writer σ) Unit) =
      (if f.closes then dedent else pure ()) >>= fun _ => putLines f.content >>=
        fun _ => if f.opens then indent else pure () := by
  unfold put
  cases f.closes <;> rfl

/-- **A fragment is written piece by piece.** If that succeeds, the writer stands at the level after
the fragment, and otherwise at the depth of the fragment. -/
theorem put_eq (w : Writer σ) (f : Fragment) :
    put f w = match Sink.writeAll (pieces w.unit (layout w.level [f])) w.sink with
      | .ok x s => .ok x { w with sink := s, level := f.levelAfter w.level }
      | .error fault s => .error fault { w with sink := s, level := f.depth w.level } := by
  have hclose : (if f.closes then dedent else pure () : Action (Writer σ) Unit) w =
      .ok () { w with level := f.depth w.level } := by
    unfold Fragment.depth
    split <;> rfl
  have hlayout : layout w.level [f] = (linesOf f.content).map (f.depth w.level, ·) := by
    rw [layout, layout, List.append_nil]
  have hlines := forM_putLine_eq { w with level := f.depth w.level } (linesOf f.content)
  rw [put_eq_bind, Action.bind_of_ok hclose, putLines, hlayout]
  rcases putPieces_cases (pieces w.unit ((linesOf f.content).map (f.depth w.level, ·)))
    { w with level := f.depth w.level } with ⟨s, hs, hok⟩ | ⟨fault, s, hs, herr⟩
  · rw [Action.bind_of_ok (hlines.trans hok)]
    simp only at hs
    rw [hs]
    unfold Fragment.levelAfter
    split <;> rfl
  · rw [Action.bind_of_error (hlines.trans herr)]
    simp only at hs
    rw [hs]

/-- On a device without bounds a fragment is written as the text of its layout. -/
theorem put_of_unbounded {w : Writer Device} (h : w.sink.capacity = none) (f : Fragment) :
    put f w = .ok ()
      { w with
        sink := w.sink.given (text w.unit (layout w.level [f])).toUTF8
        level := f.levelAfter w.level } := by
  have hwrite := Device.writeAll_eq (Device.fits_of_unbounded h .empty)
    (pieces w.unit (layout w.level [f]))
  rw [join_pieces] at hwrite
  simp only [Device.fits_of_unbounded h _, if_true] at hwrite
  rw [put_eq, hwrite]

/-- **Fragments are written as their layout**, piece by piece. If that succeeds, the writer stands
at the level after the fragments. -/
theorem putAll_eq (w : Writer σ) (fs : List Fragment) :
    ∃ level, fs.forM put w = match Sink.writeAll (pieces w.unit (layout w.level fs)) w.sink with
      | .ok x s => .ok x { w with sink := s, level := levelAfter w.level fs }
      | .error fault s => .error fault { w with sink := s, level } := by
  induction fs generalizing w with
  | nil => exact ⟨w.level, rfl⟩
  | cons f fs ih =>
    have hcons : (f :: fs).forM put = (put f >>= fun _ => fs.forM put :
      Action (Writer σ) Unit) := rfl
    have hlayout : layout w.level (f :: fs) =
        layout w.level [f] ++ layout (f.levelAfter w.level) fs := layout_append _ [f] fs
    have hput := put_eq w f
    rw [hcons, hlayout, pieces_append, Sink.writeAll_append]
    cases hs : Sink.writeAll (pieces w.unit (layout w.level [f])) w.sink with
    | ok x s =>
      rw [hs] at hput
      obtain ⟨level, h⟩ := ih { w with sink := s, level := f.levelAfter w.level }
      refine ⟨level, ?_⟩
      rw [Action.bind_of_ok hput, Action.bind_of_ok hs, h]
      rfl
    | error fault s =>
      rw [hs] at hput
      refine ⟨f.depth w.level, ?_⟩
      rw [Action.bind_of_error hput, Action.bind_of_error hs]

end Writer

end NetlistTables.Code
