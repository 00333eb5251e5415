import NetlistTables.Proofs.Code.Indentation

/-!
# Texts of several lines

A text of several lines is written as its lines are when they are written one after the other, each
as a text of its own. This holds on any sink: where a write fails in the middle of the text, the
row of lines fails at the same write, and nothing is written behind it. The lines of two texts that
are joined by a line feed are those of the one and then those of the other (`linesOf_append`), so
the two may be written together or apart (`text_line_by_line`).
-/

namespace NetlistTables.Code.Writer

open Output

/-- Joined by a line feed, two texts have the lines of both. The first must not end a line itself,
or end in half of what ends one, and the second must not be empty. -/
theorem linesOf_append {a b : String} (hfeed : a.toList.getLast? ≠ some '\n')
    (hreturn : a.toList.getLast? ≠ some '\r') (hb : b ≠ "") :
    linesOf (a ++ "\n" ++ b) = linesOf a ++ linesOf b := by
  have hjoined : (a ++ "\n" ++ b).toList = a.toList ++ '\n' :: b.toList := by simp
  have hne : a ++ "\n" ++ b ≠ "" := by
    intro h
    rw [h] at hjoined
    simp at hjoined
  rw [linesOf, if_neg hne, Text.lines, hjoined, linesOf, linesOf, if_neg hb, Text.lines]
  by_cases ha : a = ""
  · rw [ha, if_pos rfl]
    rfl
  · have hcs : a.toList ≠ [] := by simpa using ha
    rw [if_neg ha, Text.splitLines_append_lineFeed hcs hfeed hreturn, List.map_append, Text.lines]

variable {σ : Type} [Sink σ]

theorem put_text (s : String) :
    (put (.text s) : Action (Writer σ) Unit) = (linesOf s).forM putLine := by
  have hput : put (.text s) = (pure () >>= fun _ => putLines s >>= fun _ => pure () :
    Action (Writer σ) Unit) := put_eq_bind (.text s)
  rw [hput, pure_bind, bind_pure_unit, putLines]

/-- Lines are written alike as lines and as texts. -/
theorem forM_put_text {ls : List String} (h : ∀ l ∈ ls, '\n' ∉ l.toList) :
    (ls.forM fun l => put (.text l) : Action (Writer σ) Unit) = ls.forM putLine := by
  induction ls with
  | nil => rfl
  | cons l ls ih =>
    have hline : (put (.text l) : Action (Writer σ) Unit) = putLine l := by
      rw [put_text, linesOf_of_notMem (h l List.mem_cons_self)]
      exact bind_pure_unit
    have hcons (f : String → Action (Writer σ) Unit) :
        (l :: ls).forM f = f l >>= fun _ => ls.forM f := rfl
    rw [hcons, hcons, hline, ih fun k hk => h k (List.mem_cons_of_mem l hk)]

/-- A text is written as its lines are, one after the other. -/
theorem put_text_eq_forM (s : String) :
    (put (.text s) : Action (Writer σ) Unit) = (linesOf s).forM fun l => put (.text l) := by
  rw [put_text, forM_put_text fun l => Layout.lineFeed_notMem_of_mem_linesOf]

theorem put_text_append {a b : String} (hfeed : a.toList.getLast? ≠ some '\n')
    (hreturn : a.toList.getLast? ≠ some '\r') (hb : b ≠ "") :
    (put (.text (a ++ "\n" ++ b)) : Action (Writer σ) Unit) =
      put (.text a) >>= fun _ => put (.text b) := by
  rw [put_text, put_text, put_text, linesOf_append hfeed hreturn hb]
  exact List.forM_append

/-- **A text is written line by line**, on any sink, with any unit of indentation, at any level. Two
texts that are joined by a line feed, of which the first does not end in a line feed or a carriage
return and the second is not empty, are written as the first and then, if that has succeeded, the
second. A text that is not empty is written as its lines are one after the other, up to the first
that fails. Either way the same bytes reach the sink, and the result is the same. -/
theorem text_line_by_line (w : Writer σ) (a b content : String) :
    (a.toList.getLast? ≠ some '\n' → a.toList.getLast? ≠ some '\r' → b ≠ "" →
        put (.text (a ++ "\n" ++ b)) w =
          match put (.text a) w with
          | .ok _ w' => put (.text b) w'
          | .error fault w' => .error fault w') ∧
      (content ≠ "" →
        put (.text content) w = ((Text.lines content).forM fun line => put (.text line)) w) := by
  refine ⟨fun hfeed hreturn hb => ?_, fun hcontent => ?_⟩
  · rw [put_text_append hfeed hreturn hb]
    cases ha : put (.text a) w with
    | ok x w' => exact Action.bind_of_ok ha
    | error fault w' => exact Action.bind_of_error ha
  · rw [put_text_eq_forM, linesOf, if_neg hcontent]

/-- On a device that is full in the middle of the last line, both ways of writing end there. -/
theorem text_line_by_line_until_full :
    let w : Writer Device := ⟨.fresh (some 9) false, "  ", 1⟩
    let a := "a\rb"
    let b := "\r\n\nc\r"
    (a.toList.getLast? ≠ some '\n' ∧ a.toList.getLast? ≠ some '\r' ∧ b ≠ "") ∧
      (∃ w₁ w₂, put (.text a) w = .ok () w₁ ∧ put (.text b) w₁ = .error .full w₂ ∧
        put (.text (a ++ "\n" ++ b)) w = .error .full w₂ ∧
        w₂.sink.stored = "  a\rb\n\n\n ".toUTF8) ∧
      put (.text b) w = (["", "", "c\r"].forM fun line => put (.text line)) w := by
  intro w a b
  have hends : a.toList.getLast? ≠ some '\n' ∧ a.toList.getLast? ≠ some '\r' ∧ b ≠ "" := by decide
  obtain ⟨hjoined, hlines⟩ := text_line_by_line w a b b
  have hjoined := hjoined hends.1 hends.2.1 hends.2.2
  let w₁ : Writer Device := { w with sink := w.sink.given "  a\rb\n".toUTF8 }
  have ha : put (.text a) w = .ok () w₁ := by
    have hpieces : String.join (Layout.pieces "  " (Layout.layout 1 [.text a])) = "  a\rb\n" := by
      decide
    have hfits : w.sink.fits "  a\rb\n".toUTF8 := by decide
    rw [put_eq, Device.writeAll_eq (by decide), hpieces]
    simp only [if_pos hfits]
    rfl
  let w₂ : Writer Device := { w₁ with sink := w₁.sink.given "\n\n  c\r\n".toUTF8 }
  have hb : put (.text b) w₁ = .error .full w₂ := by
    have hpieces : String.join (Layout.pieces "  " (Layout.layout 1 [.text b])) = "\n\n  c\r\n" := by
      decide
    have hfits : ¬ w₁.sink.fits "\n\n  c\r\n".toUTF8 := by decide
    rw [put_eq, Device.writeAll_eq (by decide), hpieces]
    simp only [if_neg hfits]
    rfl
  have hall : Text.lines b = ["", "", "c\r"] := by decide
  rw [ha] at hjoined
  exact ⟨hends, ⟨w₁, w₂, ha, hb, hjoined.trans hb, by decide⟩, by rw [hlines hends.2.2, hall]⟩

end NetlistTables.Code.Writer
