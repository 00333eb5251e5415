import NetlistTables.Proofs.Table.Symbols

/-!
# Lists in braces

C has no enumeration without an enumerator and no initializer without an element. What an emission
writes for a primitive keeps to that, since a part without strings gets no array and a direction
without pins no enumeration (`isFilled_of_mem_sourceBlock`, `isFilled_of_mem_headerBlock`). The two
lists that run over the whole table are written whether or not there is anything to list, and
validation accepts the table without primitives. So a file is filled just if the table is
(`lists_filled_iff`).
-/

namespace NetlistTables

open Reading

/-- Is there something in each pair of braces of an item? -/
def Reading.Item.IsFilled : Item → Prop
  | .strings _ elements => elements ≠ []
  | .records _ _ elements => elements ≠ [] ∧ ∀ r ∈ elements, r ≠ []
  | .enumeration members => members ≠ []
  | .comment _ | .directive _ | .external _ _ => True

instance : (i : Item) → Decidable i.IsFilled
  | .strings _ _ => inferInstanceAs (Decidable (_ ≠ _))
  | .records _ _ _ => inferInstanceAs (Decidable (_ ∧ _))
  | .enumeration _ => inferInstanceAs (Decidable (_ ≠ _))
  | .comment _ | .directive _ | .external _ _ => .isTrue trivial

namespace Table

variable {p : Primitive} {t : List Primitive} {i : Item}

/-! ## What is written for a primitive -/

theorem isFilled_of_mem_partItems {a : Part} (h : i ∈ partItems p a) : i.IsFilled := by
  rw [partItems] at h
  split at h
  next => exact absurd h List.not_mem_nil
  next hstrings =>
    rw [List.mem_singleton.1 h]
    exact hstrings

theorem isFilled_of_mem_directionItems {d : Direction} (h : i ∈ directionItems p d) :
    i.IsFilled := by
  rw [directionItems] at h
  split at h
  next => exact absurd h List.not_mem_nil
  next hnames =>
    rcases List.mem_pair.1 h with rfl | rfl
    · exact trivial
    · rw [Item.IsFilled, Header.pinMembers, ne_eq, List.zipIdx_eq_nil_iff, List.map_eq_nil_iff]
      exact hnames

/-- What stands in the source for a primitive, before the table, is filled. -/
theorem isFilled_of_mem_sourceBlock (h : i ∈ Source.blockItems p) : i.IsFilled := by
  rw [Source.blockItems, arrayItems_eq, List.mem_cons, List.mem_flatMap] at h
  rcases h with rfl | ⟨a, -, h⟩
  · exact trivial
  · exact isFilled_of_mem_partItems h

/-- What stands in the header for a primitive, behind the enumeration of all of them, is filled. -/
theorem isFilled_of_mem_headerBlock (h : i ∈ Header.blockItems p) : i.IsFilled := by
  rw [blockItems_eq, List.mem_append] at h
  exact h.elim isFilled_of_mem_directionItems isFilled_of_mem_directionItems

/-! ## The lists over the table -/

/-- A record has its nine fields, whatever the primitive is. -/
theorem isFilled_records_iff {tag symbol : String} :
    (Item.records tag symbol (t.map Source.recordOf)).IsFilled ↔ t ≠ [] := by
  rw [Item.IsFilled, ne_eq, List.map_eq_nil_iff, List.forall_mem_map]
  exact and_iff_left fun p _ => List.cons_ne_nil _ _

theorem isFilled_primitiveMembers_iff :
    (Item.enumeration (Header.primitiveMembers t)).IsFilled ↔ t ≠ [] := by
  rw [Item.IsFilled, Header.primitiveMembers, ne_eq, List.zipIdx_eq_nil_iff, List.map_eq_nil_iff]

/-! ## The files -/

/-- Where one item is the only one that may lack something, all depends on it. -/
theorem forall_mem_isFilled_iff {is : List Item} {j : Item} (hj : j ∈ is)
    (h : ∀ i ∈ is, i.IsFilled ∨ i = j) : (∀ i ∈ is, i.IsFilled) ↔ j.IsFilled := by
  constructor
  · intro hall
    exact hall j hj
  · intro hfilled i hi
    rcases h i hi with hi | rfl
    · exact hi
    · exact hfilled

/-- In the source, nothing but the table may lack elements. -/
theorem isFilled_or_eq_of_mem_source (h : i ∈ Source.items t) :
    i.IsFilled ∨
      i = .records "netlist_primitive" "netlist_xilprims" (t.map Source.recordOf) := by
  have hopening : ∀ i ∈ Source.openingItems, i.IsFilled := by decide
  rw [Source.items, Source.itemsBefore, List.mem_append, List.mem_append, List.mem_flatMap,
    List.mem_singleton] at h
  rcases h with (h | ⟨p, -, h⟩) | h
  · exact .inl (hopening i h)
  · exact .inl (isFilled_of_mem_sourceBlock h)
  · exact .inr h

/-- In the header, nothing but the enumeration of the primitives may lack enumerators. -/
theorem isFilled_or_eq_of_mem_header (h : i ∈ Header.items t) :
    i.IsFilled ∨ i = .enumeration (Header.primitiveMembers t) := by
  have hclosing : ∀ i ∈ Header.closingItems, i.IsFilled := by decide
  rw [Header.items, Header.openingItems, List.mem_append, List.mem_append, List.mem_flatMap] at h
  rcases h with (h | ⟨p, -, h⟩) | h
  · simp only [List.mem_cons, List.not_mem_nil, or_false] at h
    rcases h with rfl | rfl | rfl | h
    · exact .inl trivial
    · exact .inl trivial
    · exact .inl trivial
    · exact .inr h
  · exact .inl (isFilled_of_mem_headerBlock h)
  · exact .inl (hclosing i h)

theorem forall_mem_source_isFilled_iff : (∀ i ∈ Source.items t, i.IsFilled) ↔ t ≠ [] := by
  have htable : .records "netlist_primitive" "netlist_xilprims" (t.map Source.recordOf) ∈
      Source.items t := by simp [Source.items]
  rw [forall_mem_isFilled_iff htable fun i => isFilled_or_eq_of_mem_source, isFilled_records_iff]

theorem forall_mem_header_isFilled_iff : (∀ i ∈ Header.items t, i.IsFilled) ↔ t ≠ [] := by
  have hprimitives : .enumeration (Header.primitiveMembers t) ∈ Header.items t := by
    simp [Header.items, Header.openingItems]
  rw [forall_mem_isFilled_iff hprimitives fun i => isFilled_or_eq_of_mem_header,
    isFilled_primitiveMembers_iff]

/-- **There is something in all braces just if there are primitives.** If a table is accepted, both
files are read, and in both there is something in all braces if and only if the table has a
primitive. If it has none, the array of records in the source and the enumeration of the primitives
in the header are what is empty, and nothing else is. -/
theorem lists_filled_iff (h : validate t = .ok ()) :
    ∃ source header,
      readFile (file .source t) = some source ∧ readFile (file .header t) = some header ∧
      ((∀ i ∈ source, i.IsFilled) ↔ t ≠ []) ∧ ((∀ i ∈ header, i.IsFilled) ↔ t ≠ []) ∧
      (∀ i ∈ source, ¬ i.IsFilled → i = .records "netlist_primitive" "netlist_xilprims" []) ∧
      ∀ i ∈ header, ¬ i.IsFilled → i = .enumeration [] := by
  have ht := validate_eq_ok_iff_valid.1 h
  refine ⟨Source.items t, Header.items t, readFile_source ht, readFile_header ht,
    forall_mem_source_isFilled_iff, forall_mem_header_isFilled_iff, fun i hi hempty => ?_,
    fun i hi hempty => ?_⟩
  · obtain rfl := (isFilled_or_eq_of_mem_source hi).resolve_left hempty
    rw [isFilled_records_iff, not_not] at hempty
    rw [hempty, List.map_nil]
  · obtain rfl := (isFilled_or_eq_of_mem_header hi).resolve_left hempty
    rw [isFilled_primitiveMembers_iff, not_not] at hempty
    rw [hempty]
    rfl

/-- The sample has a primitive without attributes. -/
theorem lists_filled_iff_sample :
    validate sample = .ok () ∧ ∃ source header,
      readFile (file .source sample) = some source ∧
      readFile (file .header sample) = some header ∧
      (∀ i ∈ source, i.IsFilled) ∧ ∀ i ∈ header, i.IsFilled := by
  have hne : sample ≠ [] := List.cons_ne_nil _ _
  obtain ⟨source, header, hsource, hheader, hsourceIff, hheaderIff, -⟩ :=
    lists_filled_iff (rfl : validate sample = .ok ())
  exact ⟨rfl, source, header, hsource, hheader, hsourceIff.2 hne, hheaderIff.2 hne⟩

/-- The table without primitives is accepted, and an empty list is written for it to both files. -/
theorem lists_not_filled_of_no_primitive :
    validate [] = .ok () ∧ ∃ source header,
      readFile (file .source []) = some source ∧ readFile (file .header []) = some header ∧
      .records "netlist_primitive" "netlist_xilprims" [] ∈ source ∧ .enumeration [] ∈ header ∧
      ¬ (∀ i ∈ source, i.IsFilled) ∧ ¬ ∀ i ∈ header, i.IsFilled := by
  have h : validate [] = .ok () := rfl
  have ht := validate_eq_ok_iff_valid.1 h
  refine ⟨h, Source.items [], Header.items [], readFile_source ht, readFile_header ht, ?_⟩
  decide

end Table

end NetlistTables
