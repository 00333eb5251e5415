/-!
# Where a list is split

An element that stands at some place in a list which is put together stands at a place in one of the
parts. So what is to be shown at every place of the list is shown part by part.
-/

namespace NetlistTables.Text

variable {α : Type} {xs ys before behind : List α} {x first last : α}

/-- An element of two lists in a row is one of the first or of the second. -/
theorem split_append (h : xs ++ ys = before ++ x :: behind) :
    (∃ rest, xs = before ++ x :: rest) ∨
      ∃ rest, before = xs ++ rest ∧ ys = rest ++ x :: behind := by
  rcases List.append_eq_append_iff.1 h with ⟨rest, hbefore, hys⟩ | ⟨rest, hxs, hrest⟩
  · exact .inr ⟨rest, hbefore, hys⟩
  · cases rest with
    | nil => exact .inr ⟨[], by simp [hxs], hrest.symm⟩
    | cons y rest =>
      obtain ⟨rfl, -⟩ := List.cons.inj hrest
      exact .inl ⟨rest, hxs⟩

theorem split_singleton (h : [first] = before ++ x :: behind) : before = [] ∧ x = first := by
  cases before with
  | nil => exact ⟨rfl, (List.cons.inj h).1.symm⟩
  | cons y before => simp at h

/-- An element of a list is its first, its last, or one between the two. -/
theorem split_group (h : first :: xs ++ [last] = before ++ x :: behind) :
    (before = [] ∧ x = first) ∨
      (∃ inner rest, before = first :: inner ∧ xs = inner ++ x :: rest) ∨
        before = first :: xs ∧ x = last := by
  rcases split_append h with ⟨rest, hxs⟩ | ⟨rest, rfl, hlast⟩
  · cases before with
    | nil => exact .inl ⟨rfl, (List.cons.inj hxs).1.symm⟩
    | cons y inner =>
      obtain ⟨rfl, hinner⟩ := List.cons.inj hxs
      exact .inr (.inl ⟨inner, rest, rfl, hinner⟩)
  · obtain ⟨rfl, rfl⟩ := split_singleton hlast
    exact .inr (.inr ⟨List.append_nil _, rfl⟩)

/-- A list is split in one way where an element stands for the first time. -/
theorem split_first {us vs : List α} (hxs : x ∉ xs) (hys : x ∉ ys)
    (h : xs ++ x :: us = ys ++ x :: vs) : xs = ys ∧ us = vs := by
  rcases split_append h with ⟨rest, rfl⟩ | ⟨rest, rfl, hrest⟩
  · exact absurd (List.mem_append_right ys List.mem_cons_self) hxs
  · cases rest with
    | nil => exact ⟨(List.append_nil xs).symm, (List.cons.inj hrest).2⟩
    | cons y rest =>
      obtain ⟨rfl, -⟩ := List.cons.inj hrest
      exact absurd (List.mem_append_right xs List.mem_cons_self) hys

/-- A list is split in one way where an element stands for the last time. -/
theorem split_last {us vs : List α} (hus : x ∉ us) (hvs : x ∉ vs)
    (h : xs ++ x :: us = ys ++ x :: vs) : xs = ys ∧ us = vs := by
  have hreverse : us.reverse ++ x :: xs.reverse = vs.reverse ++ x :: ys.reverse := by
    have := congrArg List.reverse h
    simpa using this
  obtain ⟨hbehind, hbefore⟩ :=
    split_first (mt List.mem_reverse.1 hus) (mt List.mem_reverse.1 hvs) hreverse
  exact ⟨List.reverse_inj.1 hbefore, List.reverse_inj.1 hbehind⟩

end NetlistTables.Text
