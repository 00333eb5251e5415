import NetlistTables.Proofs.Table.Symbols

/-!
# The symbols in the source

The source defines string arrays and the table, and the records of the table point to the arrays.
This is closed: no symbol is defined twice, what a record points to is defined before the table and
has the length that the record gives, and every array is pointed to just once.
-/

namespace NetlistTables.Table

open Reading

/-- The records of the table `symbol` fit the definitions `before` it. -/
structure Linked (before : List Item) (symbol : String) (rs : List Record) : Prop where
  /-- No array is defined twice, that of the records included. -/
  defined : (definedSymbols before ++ [symbol]).Nodup
  /-- A record points to nothing just if the length that it gives is zero, and else to an array of
  that length. -/
  resolved : ∀ r ∈ rs, ∀ a : Part, ∃ n s,
    r.number? a.lengthField = some n ∧ r.name? a.field = some s ∧ (s = "NULL" ↔ n = 0) ∧
      (n ≠ 0 → ∃ strings, (s, strings) ∈ arrays before ∧ strings.length = n)
  /-- An array is pointed to by a record, -/
  reached : ∀ x ∈ arrays before, ∃ r ∈ rs, ∃ a : Part, r.name? a.field = some x.1
  /-- and nothing else in the records names it. -/
  once : ∀ x ∈ arrays before, (rs.flatMap Record.symbols).count x.1 = 1

variable {t : List Primitive}

theorem symbol_mem_arrays {p : Primitive} (hp : p ∈ t) {a : Part} (ha : p.strings a ≠ []) :
    (p.symbol a, p.strings a) ∈ arrays (Source.itemsBefore t) := by
  rw [arrays_itemsBefore, Listing.mem_all]
  exact ⟨p, hp, a, decide_eq_true ha, rfl⟩

/-- The definitions before the table are of different symbols, none of them that of the table. -/
theorem nodup_definedSymbols (h : Valid t) :
    (definedSymbols (Source.itemsBefore t) ++ ["netlist_xilprims"]).Nodup := by
  rw [definedSymbols_itemsBefore, List.nodup_append]
  refine ⟨stringArrays.nodup_keys h.names, List.nodup_singleton _, ?_⟩
  intro s hs u hu
  obtain ⟨x, hx, rfl⟩ := List.mem_map.1 hs
  obtain ⟨p, -, a, -, rfl⟩ := Listing.mem_all.1 hx
  rw [List.mem_singleton.1 hu]
  exact Primitive.symbol_ne_table a

theorem pointer_eq_null_iff {p : Primitive} {a : Part} :
    pointer p a = "NULL" ↔ p.strings a = [] := by
  rw [pointer]
  split
  next hempty => simp [hempty]
  next hempty => simp [hempty, Primitive.symbol_ne_null]

/-- Is a symbol in a record neither its type nor a null pointer? -/
def isArraySymbol (s : String) : Bool := s != "NETLIST_PRIMITIVE_INTERNAL" && s != "NULL"

theorem isArraySymbol_symbol (p : Primitive) (a : Part) : isArraySymbol (p.symbol a) := by
  simp [isArraySymbol, Primitive.symbol_ne_typeTag, Primitive.symbol_ne_null]

/-- The arrays that are named in a record are those of the primitive. -/
theorem filter_symbols_recordOf (p : Primitive) :
    (Source.recordOf p).symbols.filter isArraySymbol = (stringArrays.of p).map (·.1) := by
  have hnull : isArraySymbol "NULL" = false := by decide
  have hparts (as : List Part) : (as.map (pointer p)).filter isArraySymbol =
      (as.filter fun a => p.strings a ≠ []).map p.symbol := by
    induction as with
    | nil => rfl
    | cons a as ih =>
      rw [List.map_cons, List.filter_cons, List.filter_cons, ih]
      by_cases hempty : p.strings a = []
      · simp [hempty, pointer, hnull]
      · simp [hempty, pointer, isArraySymbol_symbol]
  rw [symbols_recordOf, List.filter_cons_of_neg (by decide), hparts, Listing.of, List.map_map]
  rfl

/-- Every array is named once in the records. -/
theorem count_symbols (h : Valid t) {x : String × List String}
    (hx : x ∈ arrays (Source.itemsBefore t)) :
    ((t.map Source.recordOf).flatMap Record.symbols).count x.1 = 1 := by
  rw [arrays_itemsBefore] at hx
  have hkeys : ((t.map Source.recordOf).flatMap Record.symbols).filter isArraySymbol =
      (stringArrays.all t).map (·.1) := by
    rw [List.flatMap_map, List.filter_flatMap, Listing.all, List.map_flatMap]
    exact List.flatMap_congr fun p _ => filter_symbols_recordOf p
  have hsymbol : isArraySymbol x.1 := by
    obtain ⟨p, -, a, -, rfl⟩ := Listing.mem_all.1 hx
    exact isArraySymbol_symbol p a
  rw [← List.count_filter hsymbol, hkeys]
  exact List.count_eq_one_of_mem (stringArrays.nodup_keys h.names) (List.mem_map_of_mem hx)

theorem linked_items (h : Valid t) (hw : ∀ p ∈ t, p.WidthsFit) :
    Linked (Source.itemsBefore t) "netlist_xilprims" (t.map Source.recordOf) where
  defined := nodup_definedSymbols h
  resolved := by
    intro r hr a
    obtain ⟨p, hp, rfl⟩ := List.mem_map.1 hr
    refine ⟨_, _, number?_recordOf (h.primitives p hp) (hw p hp) a, name?_recordOf a, ?_, ?_⟩
    · rw [pointer_eq_null_iff, List.length_eq_zero_iff]
    · intro hn
      have hempty : p.strings a ≠ [] := fun h => hn (by rw [h, List.length_nil])
      rw [pointer, if_neg hempty]
      exact ⟨_, symbol_mem_arrays hp hempty, rfl⟩
  reached := by
    intro x hx
    rw [arrays_itemsBefore] at hx
    obtain ⟨p, hp, a, ha, rfl⟩ := Listing.mem_all.1 hx
    refine ⟨_, List.mem_map_of_mem hp, a, ?_⟩
    rw [name?_recordOf, pointer, if_neg (of_decide_eq_true ha)]
    rfl
  once _ := count_symbols h

/-- **The symbols in the source are closed and free of collisions.** The source of a valid table
ends in the definition of the table, and its records fit the arrays defined before it. -/
theorem source_linked (h : validate t = .ok ()) (hw : ∀ p ∈ t, p.WidthsFit) :
    ∃ before rs,
      readFile (file .source t) =
        some (before ++ [.records "netlist_primitive" "netlist_xilprims" rs]) ∧
      rs.length = t.length ∧ Linked before "netlist_xilprims" rs := by
  have ht := validate_eq_ok_iff_valid.1 h
  refine ⟨Source.itemsBefore t, t.map Source.recordOf, readFile_source ht, ?_, linked_items ht hw⟩
  exact List.length_map _

/-- The name of a primitive may be a symbol of another. -/
theorem source_linked_of_symbol_as_name :
    let t : List Primitive := [⟨"A", [], [.bit "I"], []⟩, ⟨"A_inputs", [], [⟨2, "I"⟩], []⟩]
    (validate t = .ok () ∧ ∀ p ∈ t, p.WidthsFit) ∧
      ∃ before rs,
        readFile (file .source t) =
          some (before ++ [.records "netlist_primitive" "netlist_xilprims" rs]) ∧
        rs.length = 2 ∧ Linked before "netlist_xilprims" rs := by
  intro t
  have hw : ∀ p ∈ t, p.WidthsFit := by decide
  exact ⟨⟨rfl, hw⟩, source_linked rfl hw⟩

end NetlistTables.Table
