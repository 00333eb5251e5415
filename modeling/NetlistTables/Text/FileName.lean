/-!
# File names

The name of the file that a path leads to: its last component. Components are separated by `/`;
empty ones and `.` do not count, and `..` names no file.

The laws beside the definitions are those of the components: of two paths in a row, and of the ends
of a path (`components_append`, `components_append_ends`). The last component is the last piece
between the separators that counts (`getLast?_components`).
-/

namespace NetlistTables.Text

/-- The components of a path that count. -/
def components (path : String) : List (List Char) :=
  (path.toList.splitOn '/').filter fun c => c != [] && c != ['.']

/-- The last component of a path, unless there is none or it leads upwards. -/
def fileName? (path : String) : Option String :=
  match (components path).getLast? with
  | none | some ['.', '.'] => none
  | some c => some (String.ofList c)

/-- The name that a program invoked by `path` goes by: its file name, or else the path as it is. -/
def programName (path : String) : String := (fileName? path).getD path

/-! ## What is written between the separators -/

/-- What does not count between two separators. -/
def IsSkipped (s : List Char) : Prop := s = [] ∨ s = ['.']

instance (s : List Char) : Decidable (IsSkipped s) := inferInstanceAs (Decidable (_ ∨ _))

/-- What names a file: a text without separators that counts and does not lead upwards. -/
structure IsFileName (s : List Char) : Prop where
  counts : ¬ IsSkipped s
  notUp : s ≠ ['.', '.']
  slash_notMem : '/' ∉ s

/-- The last piece between the separators of a path that counts. -/
def IsLastPiece (path : String) (s : List Char) : Prop :=
  ¬ IsSkipped s ∧ ∃ before after, path.toList.splitOn '/' = before ++ s :: after ∧
    ∀ t ∈ after, IsSkipped t

theorem counts_iff {s : List Char} : (s != [] && s != ['.']) = true ↔ ¬ IsSkipped s := by
  rw [Bool.and_eq_true, bne_iff_ne, bne_iff_ne, IsSkipped, not_or]

theorem slash_notMem_of_mem_splitOn {cs s : List Char} (h : s ∈ cs.splitOn '/') : '/' ∉ s := by
  induction cs generalizing s with
  | nil =>
    rw [List.mem_singleton.1 h]
    exact List.not_mem_nil
  | cons c cs ih =>
    rw [List.splitOn_cons_eq_if_modifyHead] at h
    split at h
    · rcases List.mem_cons.1 h with rfl | h
      · exact List.not_mem_nil
      · exact ih h
    next hc =>
      obtain ⟨l, ls, hls⟩ := List.exists_cons_of_ne_nil (List.splitOn_ne_nil '/' cs)
      rw [hls, List.modifyHead_cons] at h
      rcases List.mem_cons.1 h with rfl | h
      · have hl : '/' ∉ l := ih (hls ▸ List.mem_cons_self)
        have hne : '/' ≠ c := fun hslash => hc (beq_of_eq hslash.symm)
        exact List.not_mem_cons_of_ne_of_not_mem hne hl
      · exact ih (hls ▸ List.mem_cons_of_mem l h)

theorem mem_components {path : String} {s : List Char} :
    s ∈ components path ↔ s ∈ path.toList.splitOn '/' ∧ ¬ IsSkipped s := by
  rw [components, List.mem_filter, counts_iff]

theorem isFileName_of_mem_components {path : String} {s : List Char} (h : s ∈ components path)
    (hs : s ≠ ['.', '.']) : IsFileName s :=
  ⟨(mem_components.1 h).2, hs, slash_notMem_of_mem_splitOn (mem_components.1 h).1⟩

theorem components_append (a b : String) :
    components (a ++ "/" ++ b) = components a ++ components b := by
  have hlist : (a ++ "/" ++ b).toList = a.toList ++ '/' :: b.toList := by simp
  rw [components, hlist, List.splitOn_append_cons_self, List.filter_append, components, components]

theorem components_of_isFileName {s : List Char} (h : IsFileName s) :
    components (String.ofList s) = [s] := by
  rw [components, String.toList_ofList, List.splitOn_eq_singleton h.slash_notMem]
  exact List.filter_eq_self.2 fun x hx => by
    rw [List.mem_singleton.1 hx]
    exact counts_iff.2 h.counts

/-- Separators at the end of a path, also with a `.` behind them, add no component. -/
theorem components_append_ends (path : String) {ends : List String}
    (h : ∀ e ∈ ends, e = "/" ∨ e = "/.") :
    components (path ++ String.join ends) = components path := by
  induction ends generalizing path with
  | nil => rw [String.join_nil, String.append_empty]
  | cons e ends ih =>
    obtain ⟨rest, rfl, hrest⟩ : ∃ rest, e = "/" ++ rest ∧ components rest = [] := by
      rcases h e List.mem_cons_self with rfl | rfl
      · exact ⟨"", by decide, by decide⟩
      · exact ⟨".", by decide, by decide⟩
    have hends : ∀ e ∈ ends, e = "/" ∨ e = "/." := fun e he => h e (List.mem_cons_of_mem _ he)
    rw [String.join_cons, ← String.append_assoc, ih _ hends, ← String.append_assoc,
      components_append, hrest, List.append_nil]

/-! ## The last component -/

section Last

variable {path : String} {s : List Char}

theorem fileName?_of_getLast? (h : (components path).getLast? = some s) :
    fileName? path = if s = ['.', '.'] then none else some (String.ofList s) := by
  unfold fileName?
  rw [h]
  split <;> simp_all

theorem fileName?_of_components_eq_nil (h : components path = []) : fileName? path = none := by
  unfold fileName?
  rw [h]
  rfl

theorem exists_isFileName {name : String} (h : fileName? path = some name) :
    ∃ s, IsFileName s ∧ name = String.ofList s := by
  cases hlast : (components path).getLast? with
  | none =>
    rw [fileName?_of_components_eq_nil (List.getLast?_eq_none_iff.1 hlast)] at h
    simp at h
  | some s =>
    rw [fileName?_of_getLast? hlast] at h
    split at h
    · simp at h
    next hs =>
      have hname : IsFileName s := isFileName_of_mem_components (List.mem_of_getLast? hlast) hs
      exact ⟨s, hname, (Option.some.inj h).symm⟩

theorem fileName?_of_isFileName (h : IsFileName s) :
    fileName? (String.ofList s) = some (String.ofList s) := by
  have hlast : (components (String.ofList s)).getLast? = some s := by
    rw [components_of_isFileName h, List.getLast?_singleton]
  rw [fileName?_of_getLast? hlast, if_neg h.notUp]

/-- The last component is the last piece that counts. -/
theorem getLast?_components : (components path).getLast? = some s ↔ IsLastPiece path s := by
  rw [components, List.getLast?_eq_some_iff]
  constructor
  · rintro ⟨init, hfilter⟩
    obtain ⟨front, back, hsplit, -, hback⟩ := List.filter_eq_append_iff.1 hfilter
    obtain ⟨middle, after, rfl, -, hs, hafter⟩ := List.filter_eq_cons_iff.1 hback
    refine ⟨counts_iff.1 hs, front ++ middle, after, by rw [hsplit, List.append_assoc], ?_⟩
    exact fun t ht => Decidable.of_not_not fun hcounts =>
      List.filter_eq_nil_iff.1 hafter t ht (counts_iff.2 hcounts)
  · rintro ⟨hs, before, after, hsplit, hafter⟩
    refine ⟨before.filter fun c => c != [] && c != ['.'], ?_⟩
    rw [hsplit, List.filter_append]
    refine congrArg _ (List.filter_eq_cons_iff.2 ⟨[], after, rfl, by simp, counts_iff.2 hs, ?_⟩)
    exact List.filter_eq_nil_iff.2 fun t ht hcounts => counts_iff.1 hcounts (hafter t ht)

end Last

end NetlistTables.Text
