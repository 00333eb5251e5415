import Mathlib.Data.List.Pairwise
import NetlistTables.Proofs.Table.Symbols

/-!
# The enumerators in the header

All enumerators that the header declares share one scope of C, so no two of them may be the same.
Validation does not see to that. What has to hold of the table is `EnumeratorsDistinct`: sub-pins
of one primitive may meet, and so may sub-pins of two primitives if the name of one begins with the
name of the other. A table is accepted either way.
-/

namespace NetlistTables

open Reading

/-- All sub-pins of a primitive, the inputs first. -/
def Primitive.subPins (p : Primitive) : List String := p.inputNames ++ p.outputNames

namespace Table

/-- What keeps the enumerators of a table apart. -/
structure EnumeratorsDistinct (t : List Primitive) : Prop where
  /-- No sub-pin is listed twice for a primitive, be it among its inputs or among its outputs. -/
  subPins : ∀ p ∈ t, p.subPins.Nodup
  /-- If a primitive `q` is named by the name of `p`, an underscore and a rest, then `p` has neither
  the rest as a sub-pin, nor the rest, an underscore and a sub-pin of `q`. -/
  rests : ∀ p ∈ t, ∀ q ∈ t, ∀ r, q.name = p.name ++ "_" ++ r →
    r ∉ p.subPins ∧ ∀ s ∈ q.subPins, r ++ "_" ++ s ∉ p.subPins

/-! ## Names joined by underscores -/

theorem append_underscore_injective {a s s' : String} (h : a ++ "_" ++ s = a ++ "_" ++ s') :
    s = s' := (String.append_right_inj _).1 h

/-- Two joined names that are equal and begin differently are cut at different underscores. -/
theorem append_underscore_eq {a b s u : String} (h : a ++ "_" ++ s = b ++ "_" ++ u) (hab : a ≠ b) :
    (∃ r, b = a ++ "_" ++ r ∧ s = r ++ "_" ++ u) ∨
      ∃ r, a = b ++ "_" ++ r ∧ u = r ++ "_" ++ s := by
  -- the case that the cut of the first comes first
  have hcut {a b s u : String} {cs : List Char} (hab : a ≠ b) (hb : b.toList = a.toList ++ cs)
      (hs : '_' :: s.toList = cs ++ '_' :: u.toList) :
      ∃ r, b = a ++ "_" ++ r ∧ s = r ++ "_" ++ u := by
    cases cs with
    | nil =>
      rw [List.append_nil] at hb
      exact absurd (String.toList_inj.1 hb.symm) hab
    | cons c cs =>
      rw [List.cons_append, List.cons.injEq] at hs
      obtain ⟨rfl, hs⟩ := hs
      refine ⟨String.ofList cs, ?_, ?_⟩
      · rw [← String.toList_inj, hb]
        simp
      · rw [← String.toList_inj, hs]
        simp
  have hlist : a.toList ++ '_' :: s.toList = b.toList ++ '_' :: u.toList := by
    have := congrArg String.toList h
    simpa using this
  rcases List.append_eq_append_iff.1 hlist with ⟨cs, hb, hs⟩ | ⟨cs, ha, hu⟩
  · exact .inl (hcut hab hb hs)
  · exact .inr (hcut (Ne.symm hab) ha hu)

/-! ## The enumerators as names behind the stem -/

/-- The names that the enumerators consist of behind their stem. -/
def enumeratorNames (t : List Primitive) : List String :=
  t.map (·.name) ++ t.flatMap fun p => p.subPins.map (p.name ++ "_" ++ ·)

theorem enumerators_enumeration (names : List String) :
    enumerators [.enumeration names.zipIdx] = names := by
  simp [enumerators, enumerations]

theorem enumerators_directionItems (p : Primitive) (d : Direction) :
    enumerators (directionItems p d) = (p.pinNames d).map (Config.standard.pinEnumerator p) := by
  rw [directionItems]
  split
  next hempty =>
    rw [hempty]
    rfl
  next => exact enumerators_enumeration _

theorem enumerators_blockItems (p : Primitive) :
    enumerators (Header.blockItems p) = p.subPins.map (Config.standard.pinEnumerator p) := by
  rw [blockItems_eq, enumerators_append, enumerators_directionItems, enumerators_directionItems,
    Primitive.subPins, List.map_append]
  rfl

/-- The enumerators of the header are the primitives and their sub-pins, behind the stem. -/
theorem enumerators_items (t : List Primitive) :
    enumerators (Header.items t) = (enumeratorNames t).map ("NETLIST_XIL_" ++ ·) := by
  have hblocks : enumerators (t.flatMap Header.blockItems) =
      t.flatMap fun p => p.subPins.map fun s => "NETLIST_XIL_" ++ (p.name ++ "_" ++ s) := by
    induction t with
    | nil => rfl
    | cons p t ih =>
      rw [List.flatMap_cons, enumerators_append, enumerators_blockItems, ih, List.flatMap_cons]
      rfl
  have hopening : enumerators (Header.openingItems t) = t.map ("NETLIST_XIL_" ++ ·.name) :=
    enumerators_enumeration _
  have hclosing : enumerators Header.closingItems = [] := rfl
  rw [Header.items, enumerators_append, enumerators_append, hopening, hclosing, hblocks,
    List.append_nil, enumeratorNames, List.map_append, List.map_map, List.map_flatMap]
  simp only [List.map_map]
  rfl

/-! ## When they are distinct -/

section Distinct

variable {t : List Primitive}

theorem nodup_enumerators_items_iff :
    (enumerators (Header.items t)).Nodup ↔ (enumeratorNames t).Nodup := by
  rw [enumerators_items]
  exact List.nodup_map_iff fun s s' h => (String.append_right_inj _).1 h

/-- Names of primitives that are kept apart have no joined name in common. -/
theorem EnumeratorsDistinct.joined_ne (h : EnumeratorsDistinct t) {p q : Primitive} (hp : p ∈ t)
    (hq : q ∈ t) (hname : p.name ≠ q.name) {s u : String} (hs : s ∈ p.subPins)
    (hu : u ∈ q.subPins) : p.name ++ "_" ++ s ≠ q.name ++ "_" ++ u := by
  intro heq
  rcases append_underscore_eq heq hname with ⟨r, hr, rfl⟩ | ⟨r, hr, rfl⟩
  · exact (h.rests p hp q hq r hr).2 u hu hs
  · exact (h.rests q hq p hp r hr).2 s hs hu

theorem EnumeratorsDistinct.nodup (h : EnumeratorsDistinct t) (hnames : (t.map (·.name)).Nodup) :
    (enumeratorNames t).Nodup := by
  rw [enumeratorNames, List.nodup_append]
  refine ⟨hnames, ?_, ?_⟩
  · rw [List.nodup_flatMap]
    refine ⟨fun p hp => (h.subPins p hp).map fun s s' => append_underscore_injective, ?_⟩
    refine (List.pairwise_map.1 hnames).imp_of_mem fun {p q} hp hq hname => ?_
    intro x hx hx'
    obtain ⟨s, hs, rfl⟩ := List.mem_map.1 hx
    obtain ⟨u, hu, heq⟩ := List.mem_map.1 hx'
    exact h.joined_ne hp hq hname hs hu heq.symm
  · intro x hx y hy hxy
    obtain ⟨q, hq, rfl⟩ := List.mem_map.1 hx
    obtain ⟨p, hp, hy⟩ := List.mem_flatMap.1 hy
    obtain ⟨s, hs, rfl⟩ := List.mem_map.1 hy
    exact (h.rests p hp q hq s hxy).1 hs

theorem EnumeratorsDistinct.of_nodup (h : (enumeratorNames t).Nodup) : EnumeratorsDistinct t := by
  rw [enumeratorNames, List.nodup_append, List.nodup_flatMap] at h
  obtain ⟨-, ⟨hself, hother⟩, hjoined⟩ := h
  have hmem {p : Primitive} (hp : p ∈ t) {s : String} (hs : s ∈ p.subPins) :
      p.name ++ "_" ++ s ∈ t.flatMap fun p => p.subPins.map (p.name ++ "_" ++ ·) :=
    List.mem_flatMap.2 ⟨p, hp, List.mem_map_of_mem hs⟩
  refine ⟨fun p hp => (hself p hp).of_map, ?_⟩
  intro p hp q hq r hr
  constructor
  · intro hs
    exact hjoined q.name (List.mem_map_of_mem hq) _ (hmem hp hs) hr
  · intro s hs hrs
    -- the rest is not empty, so these are two primitives
    have hpq : p ≠ q := by
      rintro rfl
      have hlength := congrArg String.length hr
      have hunderscore : "_".length = 1 := rfl
      rw [String.length_append, String.length_append] at hlength
      omega
    have : Std.Symm (Function.onFun List.Disjoint fun p : Primitive =>
        p.subPins.map (p.name ++ "_" ++ ·)) := ⟨fun _ _ => List.disjoint_symm⟩
    apply hother.forall hp hq hpq (List.mem_map_of_mem hrs)
    rw [← String.append_assoc, ← String.append_assoc, ← hr]
    exact List.mem_map_of_mem hs

end Distinct

/-- **When the enumerators of the header are distinct.** The header of a valid table declares the
enumerators of the primitives and of their sub-pins, and declares none of them twice just if the
names in the table keep them apart. -/
theorem nodup_enumerators_iff {t : List Primitive} (h : validate t = .ok ()) :
    ∃ is, readFile (file .header t) = some is ∧
      enumerators is = t.map (fun p => "NETLIST_XIL_" ++ p.name) ++
        t.flatMap (fun p => (p.inputNames ++ p.outputNames).map
          fun s => "NETLIST_XIL_" ++ p.name ++ "_" ++ s) ∧
      ((enumerators is).Nodup ↔ EnumeratorsDistinct t) := by
  have ht := validate_eq_ok_iff_valid.1 h
  refine ⟨Header.items t, readFile_header ht, ?_, ?_⟩
  · rw [enumerators_items, enumeratorNames, List.map_append, List.map_map, List.map_flatMap]
    simp only [List.map_map]
    rfl
  · rw [nodup_enumerators_items_iff]
    exact ⟨.of_nodup, fun hd => hd.nodup ht.names⟩

theorem nodup_enumerators_iff_sample :
    validate sample = .ok () ∧ ∃ is, readFile (file .header sample) = some is ∧
      (enumerators is).Nodup ∧ EnumeratorsDistinct sample := by
  obtain ⟨is, hread, hnames, hiff⟩ := nodup_enumerators_iff (rfl : validate sample = .ok ())
  have hnodup : (enumerators is).Nodup := by
    rw [hnames]
    decide
  exact ⟨rfl, is, hread, hnodup, hiff.1 hnodup⟩

/-- A pin that is listed both as an input and as an output is accepted, and its enumerator is
declared twice. -/
theorem enumerators_not_nodup_of_shared_pin :
    let t : List Primitive :=
      [⟨"IOBUF", [], [.bit "I", .bit "T", .bit "IO"], [.bit "O", .bit "IO"]⟩]
    validate t = .ok () ∧
      ∃ is, readFile (file .header t) = some is ∧ ¬ (enumerators is).Nodup := by
  intro t
  have h : validate t = .ok () := rfl
  refine ⟨h, Header.items t, readFile_header (validate_eq_ok_iff_valid.1 h), ?_⟩
  rw [enumerators_items]
  decide

end Table

end NetlistTables
