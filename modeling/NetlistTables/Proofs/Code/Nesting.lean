import NetlistTables.Proofs.Code.Legible
import NetlistTables.Proofs.Code.Level

/-!
# Indentation and nesting

In a text that is `Nested`, every line stands as deep as lists are open around it. The text of
legible fragments that are well nested is so, with tabs for its indentation
(`Writer.nested_of_wellNested`): what a writer does to its level, and what a reader sees, agree.
-/

namespace NetlistTables.Code

open Output Text

/-! ## Nested lines -/

namespace Nesting

/-- The number of lists that some lines open. -/
def openings (ls : List (List Char)) : Nat := ls.countP opensList

/-- The number of lists that some lines close. -/
def closings (ls : List (List Char)) : Nat := ls.countP closesList

theorem openings_append (ls ls' : List (List Char)) :
    openings (ls ++ ls') = openings ls + openings ls' :=
  List.countP_append

theorem closings_append (ls ls' : List (List Char)) :
    closings (ls ++ ls') = closings ls + closings ls' :=
  List.countP_append

theorem openings_singleton (l : List Char) : openings [l] = (opensList l).toNat := by
  rw [openings, List.countP_singleton]
  cases opensList l <;> rfl

theorem closings_singleton (l : List Char) : closings [l] = (closesList l).toNat := by
  rw [closings, List.countP_singleton]
  cases closesList l <;> rfl

/-- From a level on, every line that is not empty has as many tabs as lists are open around it. No
line closes more lists than are open, and in the end all are closed. -/
structure Nested (level : Nat) (ls : List (List Char)) : Prop where
  /-- The lists that are open at a line are those opened before it and not closed up to it. -/
  at_line : ∀ before l behind, ls = before ++ l :: behind →
    closings (before ++ [l]) ≤ openings before ∧
      (l ≠ [] → tabs l = level + (openings before - closings (before ++ [l])))
  closings_eq : closings ls = openings ls

namespace Nested

variable {level : Nat} {xs ys : List (List Char)}

theorem nil (level : Nat) : Nested level [] where
  at_line before l behind h := by simp at h
  closings_eq := rfl

/-- A line that neither opens nor closes a list. -/
theorem flat {l : List Char} (hopens : opensList l = false) (hcloses : closesList l = false)
    (htabs : l ≠ [] → tabs l = level) : Nested level [l] where
  at_line before k behind h := by
    obtain ⟨rfl, rfl⟩ := split_singleton h
    rw [List.nil_append, closings_singleton, hcloses]
    exact ⟨Nat.zero_le _, htabs⟩
  closings_eq := by rw [closings_singleton, openings_singleton, hopens, hcloses]

theorem append (h : Nested level xs) (h' : Nested level ys) : Nested level (xs ++ ys) where
  at_line before l behind heq := by
    rcases split_append heq with ⟨rest, hxs⟩ | ⟨rest, rfl, hys⟩
    · exact h.at_line before l rest hxs
    · -- the lists of the first text are all closed
      rw [List.append_assoc, closings_append, openings_append, h.closings_eq,
        Nat.add_sub_add_left]
      obtain ⟨hle, htabs⟩ := h'.at_line rest l behind hys
      exact ⟨Nat.add_le_add_left hle _, htabs⟩
  closings_eq := by rw [closings_append, openings_append, h.closings_eq, h'.closings_eq]

/-- Between a line that opens a list and the line that closes it, lines stand one tab deeper. -/
theorem group {first last : List Char} (hopens : opensList first)
    (hfirst : closesList first = false) (htabs : first ≠ [] → tabs first = level)
    (h : Nested (level + 1) xs) (hcloses : closesList last) (hlast : opensList last = false)
    (htabs' : last ≠ [] → tabs last = level) : Nested level (first :: xs ++ [last]) := by
  have hopen (ls : List (List Char)) : openings (first :: ls) = openings ls + 1 :=
    List.countP_cons_of_pos hopens
  have hclose (ls : List (List Char)) : closings (first :: ls) = closings ls :=
    List.countP_cons_of_neg (by simp [hfirst])
  have hend : closings (xs ++ [last]) = openings xs + 1 := by
    rw [closings_append, closings_singleton, hcloses, h.closings_eq]
    rfl
  refine ⟨fun before l behind heq => ?_, ?_⟩
  · rcases split_group heq with ⟨rfl, rfl⟩ | ⟨inner, rest, rfl, hxs⟩ | ⟨rfl, rfl⟩
    · rw [List.nil_append, closings_singleton, hfirst]
      exact ⟨Nat.zero_le _, htabs⟩
    · obtain ⟨hle, hinner⟩ := h.at_line inner l rest hxs
      rw [List.cons_append, hclose, hopen]
      refine ⟨Nat.le_succ_of_le hle, fun hne => ?_⟩
      rw [hinner hne]
      omega
    · rw [List.cons_append, hclose, hopen, hend, Nat.sub_self]
      exact ⟨Nat.le_refl _, htabs'⟩
  · rw [List.cons_append, hclose, hopen, hend, openings_append, openings_singleton, hlast]
    rfl

end Nested

end Nesting

namespace Writer

open Layout Nesting

/-! ## Well-nested fragments -/

/-- What a fragment does to the indentation is read off the change that it makes to the height. -/
theorem opens_closes_of_change {f : Fragment} {k : Int} (h : change (.put f) none = k) :
    f.opens = decide (k = 1) ∧ f.closes = decide (k = -1) := by
  subst h
  cases f <;> exact ⟨rfl, rfl⟩

/-- A legible fragment that is written at a level is one line, at the depth of the fragment. -/
theorem map_layout_singleton {f : Fragment} (h : f.IsLegible) (level : Nat) :
    (layout level [f]).map (lineChars "\t") = [lineChars "\t" (f.depth level, f.content)] := by
  rw [layout_of_notMem h.oneLine, List.map_singleton]

/-- The layout of fragments between one that opens a list and one that closes it. -/
theorem layout_group {f g : Fragment} {fs : List Fragment} {level : Nat}
    (hf : f.levelAfter level = level + 1) (hfs : levelAfter (level + 1) fs = level + 1) :
    levelAfter level (f :: fs ++ [g]) = g.levelAfter (level + 1) ∧
      layout level (f :: fs ++ [g]) =
        layout level [f] ++ layout (level + 1) fs ++ layout (level + 1) [g] := by
  have hlevel : levelAfter level (f :: fs) = level + 1 := by rw [levelAfter, hf, hfs]
  have hlines : layout level (f :: fs) = layout level [f] ++ layout (level + 1) fs := by
    rw [← hf]
    exact layout_append level [f] fs
  refine ⟨levelAfter_group hf hfs, ?_⟩
  rw [layout_append, hlevel, hlines]

/-- **The text of well-nested fragments is nested**, and the level behind it is the level before. -/
theorem nested_of_wellNested {fs : List Fragment} (h : WellNested (fs.map .put))
    (hlegible : ∀ f ∈ fs, f.IsLegible) (level : Nat) :
    levelAfter level fs = level ∧ Nested level ((layout level fs).map (lineChars "\t")) := by
  generalize hcs : fs.map Call.put = cs at h
  induction h generalizing fs level with
  | nil =>
    rw [List.map_eq_nil_iff.1 hcs]
    exact ⟨rfl, .nil level⟩
  | flat hflat =>
    obtain ⟨f, rfl, rfl⟩ := List.map_eq_singleton_iff.1 hcs
    obtain ⟨hopens, hcloses⟩ := opens_closes_of_change hflat
    have hf := hlegible f List.mem_cons_self
    have hdepth : f.depth level = level := by rw [Fragment.depth, hcloses]; rfl
    have hlevel : f.levelAfter level = level := by rw [Fragment.levelAfter, hopens, hdepth]; rfl
    obtain ⟨hopener, hcloser, htabs⟩ := hf.lineChars level
    rw [map_layout_singleton hf, hdepth]
    exact ⟨hlevel, .flat (hopener.trans hopens) (hcloser.trans hcloses) htabs⟩
  | group hfirst _ hlast ih =>
    obtain ⟨fs', gs, rfl, hfs', hgs⟩ := List.map_eq_append_iff.1 hcs
    obtain ⟨f, fs, rfl, rfl, hfs⟩ := List.map_eq_cons_iff.1 hfs'
    obtain ⟨g, rfl, rfl⟩ := List.map_eq_singleton_iff.1 hgs
    obtain ⟨hopens, hcloses⟩ := opens_closes_of_change hfirst
    obtain ⟨hopens', hcloses'⟩ := opens_closes_of_change hlast
    have hf := hlegible f (by simp)
    have hg := hlegible g (by simp)
    -- the fragment that opens the list and the one that closes it have the same depth
    have hdepth : f.depth level = level := by rw [Fragment.depth, hcloses]; rfl
    have hdepth' : g.depth (level + 1) = level := by rw [Fragment.depth, hcloses']; rfl
    have hlevel : f.levelAfter level = level + 1 := by rw [Fragment.levelAfter, hopens, hdepth]; rfl
    have hlevel' : g.levelAfter (level + 1) = level := by
      rw [Fragment.levelAfter, hopens', hdepth']
      rfl
    obtain ⟨hinner, hnested⟩ := ih (fun e he => hlegible e (by simp [he])) (level + 1) hfs
    obtain ⟨hall, hlines⟩ := layout_group (g := g) hlevel hinner
    obtain ⟨hopener, hcloser, htabs⟩ := hf.lineChars level
    obtain ⟨hopener', hcloser', htabs'⟩ := hg.lineChars level
    rw [hall, hlevel', hlines, List.map_append, List.map_append, map_layout_singleton hf,
      map_layout_singleton hg, hdepth, hdepth']
    exact ⟨rfl, .group (hopener.trans hopens) (hcloser.trans hcloses) htabs hnested
      (hcloser'.trans hcloses') (hopener'.trans hopens') htabs'⟩
  | append _ _ ih ih' =>
    obtain ⟨xs, ys, rfl, hxs, hys⟩ := List.map_eq_append_iff.1 hcs
    obtain ⟨hlevel, hnested⟩ := ih (fun f hf => hlegible f (List.mem_append_left ys hf)) level hxs
    obtain ⟨hlevel', hnested'⟩ :=
      ih' (fun f hf => hlegible f (List.mem_append_right xs hf)) level hys
    rw [levelAfter_append, layout_append, hlevel, hlevel', List.map_append]
    exact ⟨rfl, hnested.append hnested'⟩

/-- Fragments that are well nested and legible. -/
structure Orderly (fs : List Fragment) : Prop where
  wellNested : WellNested (fs.map .put)
  isLegible : ∀ f ∈ fs, f.IsLegible

namespace Orderly

variable {fs gs : List Fragment}

theorem nil : Orderly [] := ⟨.nil, nofun⟩

theorem flat {f : Fragment} (h : f.IsLegible) (hf : change (.put f) none = 0) : Orderly [f] :=
  ⟨.flat hf, fun _ hg => List.mem_singleton.1 hg ▸ h⟩

theorem append (h : Orderly fs) (h' : Orderly gs) : Orderly (fs ++ gs) where
  wellNested := by
    rw [List.map_append]
    exact h.wellNested.append h'.wellNested
  isLegible := List.forall_mem_append.2 ⟨h.isLegible, h'.isLegible⟩

theorem cons {f : Fragment} (h : f.IsLegible) (hf : change (.put f) none = 0)
    (h' : Orderly fs) : Orderly (f :: fs) :=
  (flat h hf).append h'

theorem flatMap {α : Type} {xs : List α} {f : α → List Fragment} (h : ∀ x ∈ xs, Orderly (f x)) :
    Orderly (xs.flatMap f) := by
  induction xs with
  | nil => exact .nil
  | cons x xs ih =>
    rw [List.flatMap_cons]
    exact (h x List.mem_cons_self).append (ih fun y hy => h y (List.mem_cons_of_mem x hy))

theorem map {α : Type} {xs : List α} {f : α → Fragment} (h : ∀ x ∈ xs, (f x).IsLegible)
    (hf : ∀ x, change (.put (f x)) none = 0) : Orderly (xs.map f) := by
  rw [List.map_eq_flatMap]
  exact flatMap fun x hx => flat (h x hx) (hf x)

theorem group {first last : Fragment} (hfirst : first.IsLegible)
    (hopens : change (.put first) none = 1) (h : Orderly fs) (hlast : last.IsLegible)
    (hcloses : change (.put last) none = -1) : Orderly (first :: fs ++ [last]) where
  wellNested := by
    rw [List.map_append]
    exact .group hopens h.wellNested hcloses
  isLegible := by
    rw [List.forall_mem_append, List.forall_mem_cons, List.forall_mem_singleton]
    exact ⟨⟨hfirst, h.isLegible⟩, hlast⟩

/-- The text of orderly fragments, from the left margin, has nested lines. -/
theorem nested (h : Orderly fs) :
    Nested 0 ((Layout.text "\t" (layout 0 fs)).toList.splitOn '\n') := by
  have hunit : '\n' ∉ "\t".toList := by decide
  have hend : Nested 0 [[]] := .flat rfl rfl fun hne => absurd rfl hne
  rw [splitOn_text hunit fun l => lineFeed_notMem_of_mem_layout]
  exact (nested_of_wellNested h.wellNested h.isLegible 0).2.append hend

end Orderly

end Writer

end NetlistTables.Code
