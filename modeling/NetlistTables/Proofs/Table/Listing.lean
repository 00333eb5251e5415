import Mathlib.Data.List.Nodup
import NetlistTables.Primitive
import NetlistTables.Proofs.Reading.Entry

/-!
# Lists under keys

What is read in a file for the primitives of a table is listed under keys: the string arrays under
their symbols, the enumerations of sub-pins under the comments above them. In both cases a key is
put together from the name of the primitive and a word for the part, in such a way that it
determines both. A `Listing` is a list of this kind. The main statements are that no key occurs
twice in it (`Listing.nodup_keys`), and that under each of its keys there is what the primitive has
there and nothing else (`Listing.valuesOf_all`).
-/

namespace NetlistTables.Table

open Reading

/-- Values under keys, for each primitive of a table one at each index that it has. -/
structure Listing (ι β : Type) where
  indices : List ι
  has : Primitive → ι → Bool
  key : Primitive → ι → String
  value : Primitive → ι → β
  nodup_indices : indices.Nodup
  mem_indices : ∀ i, i ∈ indices
  key_injective : ∀ {p q i j}, key p i = key q j → p.name = q.name ∧ i = j

namespace Listing

variable {ι β : Type} (l : Listing ι β)

/-- What is listed for a primitive. -/
def of (p : Primitive) : List (String × β) :=
  (l.indices.filter (l.has p)).map fun i => (l.key p i, l.value p i)

/-- What is listed for a table. -/
def all (t : List Primitive) : List (String × β) := t.flatMap l.of

theorem of_eq_flatMap (p : Primitive) :
    l.of p = l.indices.flatMap fun i => if l.has p i then [(l.key p i, l.value p i)] else [] := by
  rw [of]
  induction l.indices with
  | nil => rfl
  | cons i is ih =>
    rw [List.flatMap_cons, ← ih, List.filter_cons]
    split
    · rfl
    · rfl

variable {l}

theorem mem_of {p : Primitive} {x : String × β} :
    x ∈ l.of p ↔ ∃ i, l.has p i ∧ (l.key p i, l.value p i) = x := by
  simp [of, l.mem_indices]

theorem mem_all {t : List Primitive} {x : String × β} :
    x ∈ l.all t ↔ ∃ p ∈ t, ∃ i, l.has p i ∧ (l.key p i, l.value p i) = x := by
  simp only [all, List.mem_flatMap, mem_of]

variable (l)

theorem nodup_keys_of (p : Primitive) : ((l.of p).map (·.1)).Nodup := by
  rw [of, List.map_map]
  exact (l.nodup_indices.filter _).map fun i j (h : l.key p i = l.key p j) => (l.key_injective h).2

/-- No key is listed twice. -/
theorem nodup_keys {t : List Primitive} (h : (t.map (·.name)).Nodup) :
    ((l.all t).map (·.1)).Nodup := by
  rw [all, List.map_flatMap, List.nodup_flatMap]
  refine ⟨fun p _ => l.nodup_keys_of p, ?_⟩
  refine (List.pairwise_map.1 h).imp fun {p q} hpq => ?_
  intro s hs hs'
  obtain ⟨x, hx, rfl⟩ := List.mem_map.1 hs
  obtain ⟨y, hy, hyx⟩ := List.mem_map.1 hs'
  obtain ⟨i, -, rfl⟩ := mem_of.1 hx
  obtain ⟨j, -, rfl⟩ := mem_of.1 hy
  exact hpq (l.key_injective hyx.symm).1

theorem valuesOf_of (p : Primitive) (i : ι) :
    valuesOf (l.key p i) (l.of p) = if l.has p i then [l.value p i] else [] := by
  -- one of the indices is `i`, and those before and behind it have other keys
  obtain ⟨js, ks, hindices⟩ := List.append_of_mem (l.mem_indices i)
  have hnodup := l.nodup_indices
  rw [hindices, List.nodup_middle, List.nodup_cons, List.mem_append, not_or] at hnodup
  have hother {is : List ι} (hi : i ∉ is) :
      valuesOf (l.key p i) ((is.filter (l.has p)).map fun i => (l.key p i, l.value p i)) = [] := by
    refine valuesOf_eq_nil fun x hx hkey => hi ?_
    obtain ⟨j, hj, rfl⟩ := List.mem_map.1 hx
    rw [← (l.key_injective hkey).2]
    exact List.mem_of_mem_filter hj
  have hself : valuesOf (l.key p i) (([i].filter (l.has p)).map fun i => (l.key p i, l.value p i)) =
      if l.has p i then [l.value p i] else [] := by
    split
    next h => simp [h, valuesOf]
    next h => simp [h, valuesOf]
  rw [of, hindices, ← List.singleton_append, List.filter_append, List.filter_append,
    List.map_append, List.map_append, valuesOf_append, valuesOf_append, hother hnodup.1.1,
    hother hnodup.1.2, hself, List.nil_append, List.append_nil]

/-- Under a key there is what the primitive has there, and nothing else. -/
theorem valuesOf_all {t : List Primitive} (h : (t.map (·.name)).Nodup) {p : Primitive} (hp : p ∈ t)
    (i : ι) : valuesOf (l.key p i) (l.all t) = if l.has p i then [l.value p i] else [] := by
  obtain ⟨s, u, rfl⟩ := List.append_of_mem hp
  rw [List.map_append, List.map_cons, List.nodup_middle, List.nodup_cons, List.mem_append,
    not_or] at h
  have hother {q : List Primitive} (hq : p.name ∉ q.map (·.name)) :
      valuesOf (l.key p i) (l.all q) = [] := by
    refine valuesOf_eq_nil fun x hx hkey => hq ?_
    obtain ⟨r, hr, j, -, rfl⟩ := mem_all.1 hx
    exact List.mem_map.2 ⟨r, hr, (l.key_injective hkey).1⟩
  have hall : l.all (s ++ p :: u) = l.all s ++ (l.of p ++ l.all u) := by simp [all]
  rw [hall, valuesOf_append, valuesOf_append, hother h.1.1, hother h.1.2, valuesOf_of,
    List.nil_append, List.append_nil]

end Listing

end NetlistTables.Table
