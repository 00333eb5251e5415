import NetlistTables.Proofs.Code.Identifier
import NetlistTables.Table.Validity

/-!
# What validation accepts

`Valid` says what a table has to satisfy, part by part: every name is an identifier that is not
reserved, every pin has a bit at least, and no two primitives have one name. Validation accepts
just the tables that satisfy it (`validate_eq_ok_iff_valid`).
-/

namespace NetlistTables

open Code

/-- A name that can be declared: an identifier that is not reserved. -/
structure IsName (s : String) : Prop where
  isIdentifier : isIdentifier s
  notReserved : isReserved s = false

/-- A pin that can be emitted. -/
structure Pin.IsValid (p : Pin) : Prop where
  width_ne : p.width ≠ 0
  name : IsName p.name

/-- A primitive that can be emitted, among others of other names. -/
structure Primitive.IsValid (p : Primitive) : Prop where
  name : IsName p.name
  attributes : ∀ a ∈ p.attributes, IsName a.name
  inputs : ∀ pin ∈ p.inputs, pin.IsValid
  outputs : ∀ pin ∈ p.outputs, pin.IsValid

namespace Table

/-- A table that can be emitted. -/
structure Valid (t : List Primitive) : Prop where
  primitives : ∀ p ∈ t, p.IsValid
  names : (t.map (·.name)).Nodup

theorem nameFailures_eq_nil_iff {context s : String} :
    nameFailures context s = [] ↔ IsName s := by
  unfold nameFailures
  constructor
  · intro h
    split at h
    · cases h
    next hs =>
      split at h
      · cases h
      next hr => exact ⟨by simpa using hs, by simpa using hr⟩
  · rintro ⟨hs, hr⟩
    simp [hs, hr]

theorem pinFailures_eq_nil_iff {primitive kind : String} {p : Pin} :
    pinFailures primitive kind p = [] ↔ p.IsValid := by
  rw [pinFailures, List.append_eq_nil_iff, nameFailures_eq_nil_iff]
  constructor
  · rintro ⟨hw, hn⟩
    exact ⟨by simpa using hw, hn⟩
  · rintro ⟨hw, hn⟩
    exact ⟨by simpa using hw, hn⟩

theorem primitiveFailures_eq_nil_iff {earlier : List String} {p : Primitive} :
    primitiveFailures earlier p = [] ↔ p.IsValid ∧ p.name ∉ earlier := by
  simp only [primitiveFailures, List.append_eq_nil_iff, List.flatMap_eq_nil_iff,
    nameFailures_eq_nil_iff, pinFailures_eq_nil_iff]
  constructor
  · rintro ⟨⟨⟨⟨hn, hd⟩, ha⟩, hi⟩, ho⟩
    exact ⟨⟨hn, ha, hi, ho⟩, by simpa using hd⟩
  · rintro ⟨⟨hn, ha, hi, ho⟩, hd⟩
    exact ⟨⟨⟨⟨hn, by simpa using hd⟩, ha⟩, hi⟩, ho⟩

theorem failuresAfter_eq_nil_iff {earlier : List String} {t : List Primitive} :
    failuresAfter earlier t = [] ↔ Valid t ∧ ∀ p ∈ t, p.name ∉ earlier := by
  induction t generalizing earlier with
  | nil =>
    simp only [failuresAfter, true_iff]
    exact ⟨⟨by simp, by simp⟩, by simp⟩
  | cons p t ih =>
    rw [failuresAfter, List.append_eq_nil_iff, primitiveFailures_eq_nil_iff, ih]
    constructor
    · rintro ⟨⟨hp, hpe⟩, ⟨ht, hnames⟩, hte⟩
      refine ⟨⟨by simpa using ⟨hp, ht⟩, ?_⟩, ?_⟩
      · rw [List.map_cons, List.nodup_cons]
        refine ⟨fun hmem => ?_, hnames⟩
        obtain ⟨q, hq, hqp⟩ := List.mem_map.1 hmem
        exact hte q hq (by simp [hqp])
      · rintro q hq
        rcases List.mem_cons.1 hq with rfl | hq
        · exact hpe
        · exact fun hqe => hte q hq (by simp [hqe])
    · rintro ⟨⟨hp, hnames⟩, he⟩
      rw [List.map_cons, List.nodup_cons] at hnames
      refine ⟨⟨hp p (by simp), he p (by simp)⟩, ⟨fun q hq => hp q (by simp [hq]), hnames.2⟩, ?_⟩
      intro q hq hmem
      rcases List.mem_cons.1 hmem with hqp | hqe
      · exact hnames.1 (List.mem_map.2 ⟨q, hq, hqp⟩)
      · exact he q (by simp [hq]) hqe

/-- **Validation accepts just the tables that can be emitted.** -/
theorem validate_eq_ok_iff_valid {t : List Primitive} : validate t = .ok () ↔ Valid t := by
  rw [validate_eq_ok_iff, failures, failuresAfter_eq_nil_iff]
  simp

end Table

end NetlistTables
