import NetlistTables.Text.FileName

/-!
# The name of a program

The name that a program goes by is the last component of the path that it is invoked by. What the
components of a path are is said here a second time, by the rules for paths (`Component.ofPath`): a
path may begin at the root or at the current directory, and then goes from directory to directory.
For the last component these rules come to what stands between the separators, without what does
not count (`fileName?_eq_lastName?`). From there it follows how the name depends on the path: what
does not count may stand behind it, it holds no separator unless it is the whole path, and it is
its own name (`programName_laws`).
-/

namespace NetlistTables.Text

/-! ## Components by the rules for paths -/

/-- A component of a path. -/
inductive Component
  | root
  /-- The directory that a path starts from, where it is written out. -/
  | current
  /-- One directory up. -/
  | parent
  | name (s : List Char)
  deriving DecidableEq, Repr

namespace Component

/-- The component that is written between two separators. Where there is nothing, or a `.`, the
path stays where it is. -/
def ofPiece? : List Char → Option Component
  | [] | ['.'] => none
  | ['.', '.'] => some parent
  | s => some (name s)

/-- The components that are written between separators. -/
def between (cs : List Char) : List Component := (cs.splitOn '/').filterMap ofPiece?

/-- The components of a path. A separator at its beginning is the root, and only there a `.` is a
component. -/
def ofPath : List Char → List Component
  | '/' :: cs => root :: between cs
  | ['.'] => [current]
  | '.' :: '/' :: cs => current :: between cs
  | cs => between cs

/-- The last component of a path, if it is a name. -/
def lastName? (path : List Char) : Option (List Char) :=
  match (ofPath path).getLast? with
  | some (name s) => some s
  | _ => none

/-! ## Agreement with what is written -/

/-- What is written between two separators, where it counts. -/
def ofCounting (s : List Char) : Component := if s = ['.', '.'] then parent else name s

theorem ofPiece?_eq (s : List Char) :
    ofPiece? s = if (s != [] && s != ['.']) = true then some (ofCounting s) else none := by
  unfold ofPiece? ofCounting
  split <;> simp_all

theorem between_eq (path : String) : between path.toList = (components path).map ofCounting := by
  rw [between, components, ← List.filterMap_eq_map, List.filterMap_filter, funext ofPiece?_eq]
  rfl

theorem between_skip {s : List Char} (h : IsSkipped s) (cs : List Char) :
    between (s ++ '/' :: cs) = between cs := by
  rcases h with rfl | rfl <;>
    rw [between, List.splitOn_append_cons_self_of_not_mem (by decide),
      List.filterMap_cons_none rfl, between]

/-- Only the beginning of a path has rules of its own, and no name comes from them. -/
theorem exists_ofPath_eq (cs : List Char) :
    ∃ lead, ofPath cs = lead ++ between cs ∧ ∀ c ∈ lead, c = root ∨ c = current := by
  unfold ofPath
  split
  next cs => exact ⟨[root], congrArg (root :: ·) (between_skip (.inl rfl) cs).symm, by simp⟩
  · exact ⟨[current], by decide, by simp⟩
  next cs =>
    exact ⟨[current], congrArg (current :: ·) (between_skip (.inr rfl) cs).symm, by simp⟩
  · exact ⟨[], rfl, by simp⟩

end Component

theorem fileName?_eq_lastName? (path : String) :
    fileName? path = (Component.lastName? path.toList).map String.ofList := by
  obtain ⟨lead, hpath, hlead⟩ := Component.exists_ofPath_eq path.toList
  unfold Component.lastName?
  rw [hpath, Component.between_eq, List.getLast?_append, List.getLast?_map]
  cases hlast : (components path).getLast? with
  | none =>
    rw [fileName?_of_components_eq_nil (List.getLast?_eq_none_iff.1 hlast)]
    cases hfirst : lead.getLast? with
    | none => rfl
    | some c => rcases hlead c (List.mem_of_getLast? hfirst) with rfl | rfl <;> rfl
  | some s =>
    rw [fileName?_of_getLast? hlast]
    simp only [Option.map_some, Option.some_or, Component.ofCounting]
    split <;> rfl

/-! ## The name of a program -/

/-- The name of a program is the path itself, or the name of a file. -/
theorem programName_eq (path : String) :
    programName path = path ∨ ∃ s, IsFileName s ∧ programName path = String.ofList s := by
  unfold programName
  cases h : fileName? path with
  | none => exact .inl rfl
  | some name => exact .inr (exists_isFileName h)

theorem programName_of_isLastPiece {path : String} {s : List Char} (h : IsLastPiece path s) :
    programName path = if s = ['.', '.'] then path else String.ofList s := by
  rw [programName, fileName?_of_getLast? (getLast?_components.2 h)]
  split <;> rfl

theorem programName_of_no_piece {path : String} (h : ∀ s, ¬ IsLastPiece path s) :
    programName path = path := by
  have hlast : (components path).getLast? = none :=
    Option.eq_none_iff_forall_ne_some.2 fun s hs => h s (getLast?_components.1 hs)
  rw [programName, fileName?_of_components_eq_nil (List.getLast?_eq_none_iff.1 hlast),
    Option.getD_none]

theorem programName_programName (path : String) :
    programName (programName path) = programName path := by
  rcases programName_eq path with h | ⟨s, hs, h⟩
  · rw [h, h]
  · rw [h, programName, fileName?_of_isFileName hs, Option.getD_some]

theorem programName_eq_empty_iff {path : String} : programName path = "" ↔ path = "" := by
  constructor
  · intro hempty
    rcases programName_eq path with h | ⟨s, hs, h⟩
    · rw [← h, hempty]
    · exact absurd (.inl (String.ofList_eq_empty_iff.1 (h ▸ hempty))) hs.counts
  · rintro rfl
    decide

theorem programName_append_ends {path : String} {s : List Char} (h : IsLastPiece path s)
    (hup : s ≠ ['.', '.']) {ends : List String} (hends : ∀ e ∈ ends, e = "/" ∨ e = "/.") :
    programName (path ++ String.join ends) = String.ofList s := by
  have hlast : IsLastPiece (path ++ String.join ends) s := by
    rw [← getLast?_components, components_append_ends path hends]
    exact getLast?_components.2 h
  rw [programName_of_isLastPiece hlast, if_neg hup]

theorem slash_notMem_programName {path : String} (h : programName path ≠ path) :
    '/' ∉ (programName path).toList := by
  obtain ⟨s, hs, hname⟩ := (programName_eq path).resolve_left h
  rw [hname, String.toList_ofList]
  exact hs.slash_notMem

/-- **The name of a program.** It is the last component of its path, by the rules for paths and as
what is written between the separators, and the path where that is no name. So the name of a name
is the name, only the empty path has an empty one, what does not count may stand behind a name, and
a name that is not the whole path has no separators. -/
theorem programName_laws (path : String) :
    programName path = ((Component.lastName? path.toList).map String.ofList).getD path ∧
      (∀ s, IsLastPiece path s →
        programName path = if s = ['.', '.'] then path else String.ofList s) ∧
      ((∀ s, ¬ IsLastPiece path s) → programName path = path) ∧
      programName (programName path) = programName path ∧
      (programName path = "" ↔ path = "") ∧
      (∀ s, IsLastPiece path s → s ≠ ['.', '.'] → ∀ ends : List String,
        (∀ e ∈ ends, e = "/" ∨ e = "/.") →
          programName (path ++ String.join ends) = String.ofList s) ∧
      (programName path ≠ path → '/' ∉ (programName path).toList) := by
  refine ⟨?_, fun s => programName_of_isLastPiece, programName_of_no_piece,
    programName_programName path, programName_eq_empty_iff, ?_, slash_notMem_programName⟩
  · rw [programName, fileName?_eq_lastName?]
  · intro s h hup ends hends
    exact programName_append_ends h hup hends

theorem programName_laws_of_upwards :
    programName "../bin//mk_xilprims" = "mk_xilprims" ∧
      programName ("../bin//mk_xilprims" ++ String.join ["/", "/.", "/"]) = "mk_xilprims" := by
  have hlast : IsLastPiece "../bin//mk_xilprims" "mk_xilprims".toList :=
    ⟨by decide, ["..".toList, "bin".toList, []], [], by decide, by decide⟩
  obtain ⟨-, hpiece, -, -, -, hends, -⟩ := programName_laws "../bin//mk_xilprims"
  exact ⟨hpiece _ hlast, hends _ hlast (by decide) _ (by decide)⟩

end NetlistTables.Text
