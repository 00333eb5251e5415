import Mathlib.Computability.Language
import NetlistTables.Proofs.Table.Valid

/-!
# The first violation

What validation checks, said without the list of failures that it works on: a check is made at some
spot of a table, of one aspect of what stands there, and `Violates` says when it fails and what is
then to be reported. Checks are made in the order `Check.Before`: primitive by primitive, in each
first the name, then the attributes, the inputs and the outputs. Validation reports the first check
that is violated (`validate_eq_error_iff_first`), and so does not look at what follows it.

Each list of failures reports the first violation among some of the checks (`Reports`), and the
lists are joined in the order of their checks (`Reports.append`, `Reports.flatMap`).
-/

namespace NetlistTables

open Computability

namespace Code

/-! ## The pattern of identifiers -/

/-- The texts of a single character of a class. -/
def singletons (s : Set Char) : Language Char := Set.image (fun c => [c]) s

/-- The letters and the underscore. -/
def headClass : Set Char := {c | ('A' ≤ c ∧ c ≤ 'Z') ∨ ('a' ≤ c ∧ c ≤ 'z') ∨ c = '_'}

/-- The letters, the digits and the underscore. -/
def tailClass : Set Char := headClass ∪ {c | '0' ≤ c ∧ c ≤ '9'}

/-- The texts that the pattern `[A-Za-z_][A-Za-z0-9_]*` matches from end to end. -/
def identifiers : Language Char := singletons headClass * (singletons tailClass)∗

theorem mem_singletons {s : Set Char} {cs : List Char} :
    cs ∈ singletons s ↔ ∃ c ∈ s, [c] = cs := Iff.rfl

theorem mem_kstar_singletons {s : Set Char} {cs : List Char} :
    cs ∈ (singletons s)∗ ↔ ∀ c ∈ cs, c ∈ s := by
  rw [Language.mem_kstar]
  constructor
  · rintro ⟨ls, rfl, hls⟩ c hc
    obtain ⟨l, hl, hcl⟩ := List.mem_flatten.1 hc
    obtain ⟨d, hd, rfl⟩ := mem_singletons.1 (hls l hl)
    rwa [List.mem_singleton.1 hcl]
  · intro h
    refine ⟨cs.map fun c => [c], ?_, fun l hl => ?_⟩
    · rw [← List.flatMap_def]
      exact (List.flatMap_singleton' cs).symm
    · obtain ⟨c, hc, rfl⟩ := List.mem_map.1 hl
      exact mem_singletons.2 ⟨c, h c hc, rfl⟩

theorem isIdentifierHead_iff {c : Char} : isIdentifierHead c ↔ c ∈ headClass := by
  have hupper : c.isUpper ↔ 'A' ≤ c ∧ c ≤ 'Z' := decide_eq_true_iff
  have hlower : c.isLower ↔ 'a' ≤ c ∧ c ≤ 'z' := by
    rw [← decide_eq_true_iff (p := 'a' ≤ c ∧ c ≤ 'z'), Bool.decide_and]
    rfl
  have halpha : c.isAlpha ↔ c.isUpper ∨ c.isLower := Bool.or_eq_true_iff
  rw [isIdentifierHead, Bool.or_eq_true, halpha, hupper, hlower, beq_iff_eq, or_assoc]
  rfl

theorem isIdentifierTail_iff {c : Char} : isIdentifierTail c ↔ c ∈ tailClass := by
  have hdigit : c.isDigit ↔ '0' ≤ c ∧ c ≤ '9' := by simp [Char.isDigit, Char.le_def]
  rw [tailClass, Set.mem_union, ← isIdentifierHead_iff, Set.mem_ofPred_eq, ← hdigit]
  simp only [isIdentifierTail, isIdentifierHead, Char.isAlphanum, Bool.or_eq_true]
  exact or_right_comm

/-- A text has the form of an identifier just if the pattern matches it. -/
theorem isIdentifier_iff {s : String} : isIdentifier s ↔ s.toList ∈ identifiers := by
  rw [isIdentifier, identifiers, Language.mem_mul]
  constructor
  · intro h
    split at h
    · cases h
    next c cs hs =>
      obtain ⟨hc, hcs⟩ := Bool.and_eq_true_iff.1 h
      refine ⟨[c], mem_singletons.2 ⟨c, isIdentifierHead_iff.1 hc, rfl⟩, cs, ?_, by rw [hs]; rfl⟩
      exact mem_kstar_singletons.2 fun d hd => isIdentifierTail_iff.1 (List.all_eq_true.1 hcs d hd)
  · rintro ⟨l, hl, cs, hcs, hs⟩
    obtain ⟨c, hc, rfl⟩ := mem_singletons.1 hl
    rw [← hs]
    refine Bool.and_eq_true_iff.2 ⟨isIdentifierHead_iff.2 hc, List.all_eq_true.2 fun d hd => ?_⟩
    exact isIdentifierTail_iff.2 (mem_kstar_singletons.1 hcs d hd)

/-! ## The keywords of C -/

/-- The words that C reserves: those of its first standard, and what the standards of 1999 and 2011
have added. -/
def keywords : List String :=
  ["auto", "break", "case", "char", "const", "continue", "default", "do", "double", "else", "enum",
    "extern", "float", "for", "goto", "if", "int", "long", "register", "return", "short", "signed",
    "sizeof", "static", "struct", "switch", "typedef", "union", "unsigned", "void", "volatile",
    "while"] ++
  ["inline", "restrict", "_Bool", "_Complex", "_Imaginary"] ++
  ["_Alignas", "_Alignof", "_Atomic", "_Generic", "_Noreturn", "_Static_assert", "_Thread_local"]

/-- The reserved words are the keywords. -/
theorem isReserved_iff_mem_keywords {s : String} : isReserved s ↔ s ∈ keywords := by
  have hperm : reservedWords.Perm keywords := by decide +kernel
  rw [isReserved_iff, hperm.mem_iff]

/-- Keywords have the form of identifiers, so no name fails for both reasons. -/
theorem isIdentifier_of_mem_keywords : ∀ w ∈ keywords, isIdentifier w := by decide

end Code

namespace Table

open Code

/-! ## Checks and their order -/

namespace Check

/-- The parts of a primitive, in the order in which they are checked. -/
inductive Part
  | name
  | attributes
  | inputs
  | outputs

/-- The position of a part in the order of checks. -/
def Part.rank : Part → Nat
  | name => 0
  | attributes => 1
  | inputs => 2
  | outputs => 3

/-- What is checked of an item, in this order. -/
inductive Aspect
  /-- A pin has a bit at least. -/
  | width
  /-- A name has the form of an identifier. -/
  | form
  /-- A name is no keyword. -/
  | reservation
  /-- No earlier primitive has the name. -/
  | repetition

/-- The position of an aspect in the order of checks. -/
def Aspect.rank : Aspect → Nat
  | width => 0
  | form => 1
  | reservation => 2
  | repetition => 3

/-- An item of a table: the primitive, the part of it, and the position in that part. -/
structure Spot where
  primitive : Nat
  part : Part
  item : Nat

theorem Part.eq_of_rank : ∀ {a b : Part}, a.rank = b.rank → a = b := by
  rintro ⟨⟩ ⟨⟩ ⟨⟩ <;> rfl

theorem Aspect.eq_of_rank : ∀ {x y : Aspect}, x.rank = y.rank → x = y := by
  rintro ⟨⟩ ⟨⟩ ⟨⟩ <;> rfl

end Check

open Check

/-- A check of one aspect of an item. -/
structure Check where
  spot : Spot
  aspect : Aspect

/-- The check `c` is made before the check `d`: of an earlier primitive, or else of an earlier part
of the same primitive, or else of an earlier item of the same part, or else of an earlier aspect of
the same item. -/
def Check.Before (c d : Check) : Prop :=
  c.spot.primitive < d.spot.primitive ∨ c.spot.primitive = d.spot.primitive ∧
    (c.spot.part.rank < d.spot.part.rank ∨ c.spot.part.rank = d.spot.part.rank ∧
      (c.spot.item < d.spot.item ∨ c.spot.item = d.spot.item ∧ c.aspect.rank < d.aspect.rank))

/-- In the table `t`, a name stands at a spot, and this text says what it names. -/
inductive NameAt (t : List Primitive) : Spot → String → String → Prop
  | ofPrimitive {i : Nat} {p : Primitive} (hp : t[i]? = some p) :
    NameAt t ⟨i, .name, 0⟩ "primitive name" p.name
  | ofAttribute {i k : Nat} {p : Primitive} {a : Attribute} (hp : t[i]? = some p)
    (ha : p.attributes[k]? = some a) :
    NameAt t ⟨i, .attributes, k⟩ (p.name ++ " attribute") a.name
  | ofInput {i k : Nat} {p : Primitive} {pin : Pin} (hp : t[i]? = some p)
    (hpin : p.inputs[k]? = some pin) : NameAt t ⟨i, .inputs, k⟩ (p.name ++ " input") pin.name
  | ofOutput {i k : Nat} {p : Primitive} {pin : Pin} (hp : t[i]? = some p)
    (hpin : p.outputs[k]? = some pin) : NameAt t ⟨i, .outputs, k⟩ (p.name ++ " output") pin.name

/-- In the table `t`, a pin of a primitive stands at a spot. -/
inductive PinAt (t : List Primitive) : Spot → Primitive → Pin → Prop
  | input {i k : Nat} {p : Primitive} {pin : Pin} (hp : t[i]? = some p)
    (hpin : p.inputs[k]? = some pin) : PinAt t ⟨i, .inputs, k⟩ p pin
  | output {i k : Nat} {p : Primitive} {pin : Pin} (hp : t[i]? = some p)
    (hpin : p.outputs[k]? = some pin) : PinAt t ⟨i, .outputs, k⟩ p pin

/-- The table `t` violates a check, and this is the failure to be reported for it. -/
inductive Violates (t : List Primitive) : Check → Failure → Prop
  | width {s : Spot} {p : Primitive} {pin : Pin} (hpin : PinAt t s p pin) (hwidth : pin.width < 1) :
    Violates t ⟨s, .width⟩ (.zeroWidthPin p.name pin.name)
  | form {s : Spot} {context name : String} (hname : NameAt t s context name)
    (hform : name.toList ∉ identifiers) : Violates t ⟨s, .form⟩ (.invalidIdentifier context name)
  | reservation {s : Spot} {context name : String} (hname : NameAt t s context name)
    (hreserved : name ∈ keywords) : Violates t ⟨s, .reservation⟩ (.reservedWord context name)
  | repetition {i j : Nat} {p q : Primitive} (hp : t[i]? = some p) (hq : t[j]? = some q)
    (hj : j < i) (hname : q.name = p.name) :
    Violates t ⟨⟨i, .name, 0⟩, .repetition⟩ (.duplicatePrimitive p.name)

/-- All names in a table. -/
def names (t : List Primitive) : List String :=
  t.flatMap fun p => p.name :: p.attributes.map (·.name) ++ p.inputs.map (·.name) ++
    p.outputs.map (·.name)

namespace Check

variable {c d : Check}

theorem Before.asymm (h : c.Before d) : ¬ d.Before c := by
  unfold Before at h ⊢
  omega

/-- Of two checks, one is made before the other. -/
theorem eq_of_not_before (h : ¬ c.Before d) (h' : ¬ d.Before c) : c = d := by
  obtain ⟨⟨i, a, k⟩, x⟩ := c
  obtain ⟨⟨j, b, l⟩, y⟩ := d
  unfold Before at h h'
  simp only at h h'
  obtain rfl : i = j := by omega
  obtain rfl : a = b := Part.eq_of_rank (by omega)
  obtain rfl : k = l := by omega
  obtain rfl : x = y := Aspect.eq_of_rank (by omega)
  rfl

end Check

/-! ## What stands at a spot -/

section Functional

variable {t : List Primitive} {s : Spot}

theorem NameAt.functional {context context' name name' : String} (h : NameAt t s context name)
    (h' : NameAt t s context' name') : context = context' ∧ name = name' := by
  cases h <;> cases h' <;> simp_all

theorem PinAt.functional {p p' : Primitive} {pin pin' : Pin} (h : PinAt t s p pin)
    (h' : PinAt t s p' pin') : p = p' ∧ pin = pin' := by
  cases h <;> cases h' <;> simp_all

/-- For each check there is one failure at most. -/
theorem Violates.functional {c : Check} {f f' : Failure} (h : Violates t c f)
    (h' : Violates t c f') : f = f' := by
  cases h with
  | width hpin =>
    cases h' with
    | width hpin' =>
      obtain ⟨rfl, rfl⟩ := hpin.functional hpin'
      rfl
  | form hname =>
    cases h' with
    | form hname' =>
      obtain ⟨rfl, rfl⟩ := hname.functional hname'
      rfl
  | reservation hname =>
    cases h' with
    | reservation hname' =>
      obtain ⟨rfl, rfl⟩ := hname.functional hname'
      rfl
  | repetition hp =>
    cases h' with
    | repetition hp' =>
      cases hp.symm.trans hp'
      rfl

/-- The number of items of a part. -/
def itemCount (p : Primitive) : Part → Nat
  | .name => 1
  | .attributes => p.attributes.length
  | .inputs => p.inputs.length
  | .outputs => p.outputs.length

theorem NameAt.exists_item {context name : String} (h : NameAt t s context name) :
    ∃ p, t[s.primitive]? = some p ∧ s.item < itemCount p s.part := by
  cases h with
  | ofPrimitive hp => exact ⟨_, hp, Nat.one_pos⟩
  | ofAttribute hp ha => exact ⟨_, hp, (List.getElem?_eq_some_iff.1 ha).1⟩
  | ofInput hp hpin => exact ⟨_, hp, (List.getElem?_eq_some_iff.1 hpin).1⟩
  | ofOutput hp hpin => exact ⟨_, hp, (List.getElem?_eq_some_iff.1 hpin).1⟩

theorem PinAt.exists_name {p : Primitive} {pin : Pin} (h : PinAt t s p pin) :
    ∃ context, NameAt t s context pin.name := by
  cases h with
  | input hp hpin => exact ⟨_, .ofInput hp hpin⟩
  | output hp hpin => exact ⟨_, .ofOutput hp hpin⟩

/-- Only what stands in the table is found to be wrong. -/
theorem Violates.exists_item {c : Check} {f : Failure} (h : Violates t c f) :
    ∃ p, t[c.spot.primitive]? = some p ∧ c.spot.item < itemCount p c.spot.part := by
  cases h with
  | width hpin =>
    obtain ⟨context, hname⟩ := hpin.exists_name
    exact hname.exists_item
  | form hname => exact hname.exists_item
  | reservation hname => exact hname.exists_item
  | repetition hp => exact ⟨_, hp, Nat.one_pos⟩

end Functional

/-! ## Reports -/

/-- Among the checks `C` of the table `t`, the failures `fs` begin with that of the first check
which is violated, and there are none if no check is. -/
structure Reports (t : List Primitive) (C : Set Check) (fs : List Failure) : Prop where
  none : fs = [] → ∀ c ∈ C, ∀ f, ¬ Violates t c f
  first : ∀ f, fs.head? = some f →
    ∃ c ∈ C, Violates t c f ∧ ∀ d ∈ C, d.Before c → ∀ g, ¬ Violates t d g

namespace Reports

variable {t : List Primitive} {C D : Set Check} {fs gs : List Failure}

/-- Checks that cannot be violated may be added. -/
theorem extend (h : Reports t C fs) (hCD : C ⊆ D)
    (hD : ∀ d ∈ D, ∀ f, Violates t d f → d ∈ C) : Reports t D fs where
  none hnil d hd f hf := h.none hnil d (hD d hd f hf) f hf
  first f hf := by
    obtain ⟨c, hc, hviolates, hfirst⟩ := h.first f hf
    exact ⟨c, hCD hc, hviolates, fun d hd hdc g hg => hfirst d (hD d hd g hg) hdc g hg⟩

theorem append (h : Reports t C fs) (h' : Reports t D gs) (hCD : ∀ c ∈ C, ∀ d ∈ D, c.Before d) :
    Reports t (C ∪ D) (fs ++ gs) where
  none hnil := by
    obtain ⟨hfs, hgs⟩ := List.append_eq_nil_iff.1 hnil
    rintro c (hc | hc)
    · exact h.none hfs c hc
    · exact h'.none hgs c hc
  first f hf := by
    cases fs with
    | nil =>
      obtain ⟨c, hc, hviolates, hfirst⟩ := h'.first f hf
      refine ⟨c, .inr hc, hviolates, ?_⟩
      rintro d (hd | hd) hdc
      · exact h.none rfl d hd
      · exact hfirst d hd hdc
    | cons e fs =>
      obtain ⟨c, hc, hviolates, hfirst⟩ := h.first f hf
      refine ⟨c, .inl hc, hviolates, ?_⟩
      rintro d (hd | hd) hdc
      · exact hfirst d hd hdc
      · exact absurd hdc (hCD c hc d hd).asymm

/-- A single check. -/
theorem single {c : Check} {f : Failure} {P : Prop} [Decidable P] (h : P → Violates t c f)
    (h' : ∀ g, Violates t c g → P) : Reports t {c} (if P then [f] else []) where
  none hnil := by
    rintro d rfl g hg
    rw [if_pos (h' g hg)] at hnil
    cases hnil
  first g hg := by
    by_cases hP : P
    · rw [if_pos hP] at hg
      cases hg
      refine ⟨c, rfl, h hP, ?_⟩
      rintro d rfl hdd
      exact absurd hdd hdd.asymm
    · rw [if_neg hP] at hg
      cases hg

theorem flatMap {α : Type} {xs : List α} {C : Nat → Set Check} {g : α → List Failure}
    (h : ∀ k x, xs[k]? = some x → Reports t (C k) (g x))
    (hC : ∀ k l, k < l → ∀ c ∈ C k, ∀ d ∈ C l, c.Before d) :
    Reports t {c | ∃ k < xs.length, c ∈ C k} (xs.flatMap g) := by
  induction xs generalizing C with
  | nil => exact ⟨fun _ c ⟨k, hk, _⟩ => absurd hk (Nat.not_lt_zero k), nofun⟩
  | cons x xs ih =>
    have hxs := ih (C := fun k => C (k + 1)) (fun k y hy => h (k + 1) y hy)
      fun k l hkl => hC (k + 1) (l + 1) (Nat.succ_lt_succ hkl)
    have hbefore : ∀ c ∈ C 0, ∀ d ∈ {c | ∃ k < xs.length, c ∈ C (k + 1)}, c.Before d :=
      fun c hc d ⟨k, _, hd⟩ => hC 0 (k + 1) (Nat.succ_pos k) c hc d hd
    have hsets : C 0 ∪ {c | ∃ k < xs.length, c ∈ C (k + 1)} =
        {c | ∃ k < (x :: xs).length, c ∈ C k} := by
      ext c
      constructor
      · rintro (hc | ⟨k, hk, hc⟩)
        · exact ⟨0, Nat.succ_pos _, hc⟩
        · exact ⟨k + 1, Nat.succ_lt_succ hk, hc⟩
      · rintro ⟨k, hk, hc⟩
        cases k with
        | zero => exact .inl hc
        | succ k => exact .inr ⟨k, Nat.lt_of_succ_lt_succ hk, hc⟩
    rw [← hsets, List.flatMap_cons]
    exact (h 0 x rfl).append hxs hbefore

end Reports

/-! ## The failures of names and pins -/

section Items

variable {t : List Primitive} {s : Spot} {i : Nat} {p : Primitive}

theorem nameFailures_eq (context name : String) :
    nameFailures context name =
      (if ¬ isIdentifier name then [.invalidIdentifier context name] else []) ++
        (if name ∈ keywords then [.reservedWord context name] else []) := by
  rw [nameFailures]
  by_cases hform : isIdentifier name
  · simp [hform, isReserved_iff_mem_keywords]
  · have hnot : name ∉ keywords := fun h => hform (isIdentifier_of_mem_keywords name h)
    simp [hform, hnot]

theorem reports_name {context name : String} (h : NameAt t s context name) :
    Reports t ({⟨s, .form⟩} ∪ {⟨s, .reservation⟩}) (nameFailures context name) := by
  have hform : Reports t {⟨s, .form⟩}
      (if ¬ isIdentifier name then [.invalidIdentifier context name] else []) := by
    refine .single (fun hn => .form h (mt isIdentifier_iff.2 hn)) fun g hg hn => ?_
    cases hg with
    | form hname' hform' =>
      obtain ⟨-, rfl⟩ := h.functional hname'
      exact hform' (isIdentifier_iff.1 hn)
  have hreserved : Reports t {⟨s, .reservation⟩}
      (if name ∈ keywords then [.reservedWord context name] else []) := by
    refine .single (fun hn => .reservation h hn) fun g hg => ?_
    cases hg with
    | reservation hname' hreserved' =>
      obtain ⟨-, rfl⟩ := h.functional hname'
      exact hreserved'
  rw [nameFailures_eq]
  refine hform.append hreserved ?_
  rintro c rfl d rfl
  simp [Check.Before, Aspect.rank]

theorem reports_pin {pin : Pin} {kind : String} (h : PinAt t s p pin)
    (hname : NameAt t s (p.name ++ " " ++ kind) pin.name) :
    Reports t {c | c.spot = s} (pinFailures p.name kind pin) := by
  have hwidth : Reports t {⟨s, .width⟩}
      (if pin.width = 0 then [.zeroWidthPin p.name pin.name] else []) := by
    refine .single (fun hw => .width h (by rw [hw]; decide)) fun g hg => ?_
    cases hg with
    | width h' hwidth' =>
      obtain ⟨-, rfl⟩ := h.functional h'
      exact UInt32.lt_one_iff.1 hwidth'
  have hall := hwidth.append (reports_name hname) (by
    rintro c rfl d (rfl | rfl) <;> simp [Check.Before, Aspect.rank])
  refine hall.extend ?_ ?_
  · rintro c (rfl | rfl | rfl) <;> rfl
  · rintro ⟨s', x⟩ rfl f hf
    cases hf with
    | width => exact .inl rfl
    | form => exact .inr (.inl rfl)
    | reservation => exact .inr (.inr rfl)
    | repetition => cases h

end Items

/-! ## The failures of a table -/

section Tables

variable {t : List Primitive} {i : Nat} {p : Primitive}

/-- The checks of a part of a primitive. -/
def checksOf (i : Nat) (a : Part) : Set Check := {c | c.spot.primitive = i ∧ c.spot.part = a}

/-- The checks of an item. -/
def checksAt (s : Spot) : Set Check := {c | c.spot = s}

theorem before_of_item_lt (i : Nat) (a : Part) {k l : Nat} (h : k < l) :
    ∀ c ∈ checksAt ⟨i, a, k⟩, ∀ d ∈ checksAt ⟨i, a, l⟩, c.Before d := by
  rintro ⟨_, x⟩ rfl ⟨_, y⟩ rfl
  exact .inr ⟨rfl, .inr ⟨rfl, .inl h⟩⟩

theorem before_of_rank_lt (i : Nat) {a b : Part} (h : a.rank < b.rank) :
    ∀ c ∈ checksOf i a, ∀ d ∈ checksOf i b, c.Before d := by
  rintro c ⟨hc, rfl⟩ d ⟨hd, rfl⟩
  exact .inr ⟨hc.trans hd.symm, .inl h⟩

/-- The failures of the items of a part are those of the part. -/
theorem reports_items {α : Type} {a : Part} {xs : List α} {g : α → List Failure}
    (hp : t[i]? = some p) (hsize : itemCount p a = xs.length)
    (h : ∀ k x, xs[k]? = some x → Reports t (checksAt ⟨i, a, k⟩) (g x)) :
    Reports t (checksOf i a) (xs.flatMap g) := by
  refine (Reports.flatMap h fun k l => before_of_item_lt i a).extend ?_ ?_
  · rintro ⟨s, x⟩ ⟨k, -, rfl⟩
    exact ⟨rfl, rfl⟩
  · rintro ⟨⟨_, _, k⟩, x⟩ ⟨rfl, rfl⟩ f hf
    obtain ⟨q, hq, hk⟩ := hf.exists_item
    cases hp.symm.trans hq
    exact ⟨k, hsize ▸ hk, rfl⟩

theorem reports_attributes (hp : t[i]? = some p) :
    Reports t (checksOf i .attributes)
      (p.attributes.flatMap fun a => nameFailures (p.name ++ " attribute") a.name) := by
  refine reports_items hp rfl fun k a ha => (reports_name (.ofAttribute hp ha)).extend ?_ ?_
  · rintro c (rfl | rfl) <;> rfl
  · rintro ⟨s, x⟩ hs f hf
    obtain rfl : s = _ := hs
    cases hf with
    | width hpin => cases hpin
    | form => exact .inl rfl
    | reservation => exact .inr rfl

theorem reports_inputs (hp : t[i]? = some p) :
    Reports t (checksOf i .inputs) (p.inputs.flatMap (pinFailures p.name "input")) := by
  have hcontext : p.name ++ " input" = p.name ++ " " ++ "input" := by
    rw [String.append_assoc]
    rfl
  exact reports_items hp rfl fun _ _ hpin =>
    reports_pin (.input hp hpin) (hcontext ▸ .ofInput hp hpin)

theorem reports_outputs (hp : t[i]? = some p) :
    Reports t (checksOf i .outputs) (p.outputs.flatMap (pinFailures p.name "output")) := by
  have hcontext : p.name ++ " output" = p.name ++ " " ++ "output" := by
    rw [String.append_assoc]
    rfl
  exact reports_items hp rfl fun _ _ hpin =>
    reports_pin (.output hp hpin) (hcontext ▸ .ofOutput hp hpin)

/-- The failures of the name of a primitive, of which `earlier` lists the names before it. -/
theorem reports_primitiveName {earlier : List String} (hp : t[i]? = some p)
    (hearlier : ∀ s, s ∈ earlier ↔ ∃ j < i, ∃ q, t[j]? = some q ∧ q.name = s) :
    Reports t (checksOf i .name) (nameFailures "primitive name" p.name ++
      if p.name ∈ earlier then [.duplicatePrimitive p.name] else []) := by
  have hrepetition : Reports t {⟨⟨i, .name, 0⟩, .repetition⟩}
      (if p.name ∈ earlier then [.duplicatePrimitive p.name] else []) := by
    refine .single (fun hmem => ?_) fun g hg => ?_
    · obtain ⟨j, hj, q, hq, hname⟩ := (hearlier p.name).1 hmem
      exact .repetition hp hq hj hname
    · cases hg with
      | repetition hp' hq hj hname =>
        cases hp.symm.trans hp'
        exact (hearlier p.name).2 ⟨_, hj, _, hq, hname⟩
  have hall := (reports_name (.ofPrimitive hp)).append hrepetition (by
    rintro c (rfl | rfl) d rfl <;> simp [Check.Before, Aspect.rank])
  refine hall.extend ?_ ?_
  · rintro c ((rfl | rfl) | rfl) <;> exact ⟨rfl, rfl⟩
  · rintro ⟨⟨_, _, k⟩, x⟩ ⟨rfl, rfl⟩ f hf
    cases hf with
    | width hpin => cases hpin
    | form hname =>
      cases hname
      exact .inl (.inl rfl)
    | reservation hname =>
      cases hname
      exact .inl (.inr rfl)
    | repetition => exact .inr rfl

theorem reports_primitive {earlier : List String} (hp : t[i]? = some p)
    (hearlier : ∀ s, s ∈ earlier ↔ ∃ j < i, ∃ q, t[j]? = some q ∧ q.name = s) :
    Reports t {c | c.spot.primitive = i} (primitiveFailures earlier p) := by
  have hattributes := (reports_primitiveName hp hearlier).append (reports_attributes hp)
    (before_of_rank_lt i (by decide))
  have hinputs := hattributes.append (reports_inputs hp) (by
    rintro c (hc | hc)
    · exact before_of_rank_lt i (by decide) c hc
    · exact before_of_rank_lt i (by decide) c hc)
  have houtputs := hinputs.append (reports_outputs hp) (by
    rintro c ((hc | hc) | hc)
    · exact before_of_rank_lt i (by decide) c hc
    · exact before_of_rank_lt i (by decide) c hc
    · exact before_of_rank_lt i (by decide) c hc)
  refine houtputs.extend ?_ ?_
  · rintro c (((hc | hc) | hc) | hc) <;> exact hc.1
  · rintro ⟨⟨_, a, k⟩, x⟩ rfl f -
    cases a with
    | name => exact .inl (.inl (.inl ⟨rfl, rfl⟩))
    | attributes => exact .inl (.inl (.inr ⟨rfl, rfl⟩))
    | inputs => exact .inl (.inr ⟨rfl, rfl⟩)
    | outputs => exact .inr ⟨rfl, rfl⟩

/-- The failures of the rest of a table are the first among the checks of that rest. -/
theorem reports_failuresAfter (t u : List Primitive) :
    Reports (t ++ u) {c | t.length ≤ c.spot.primitive}
      (failuresAfter (t.map (·.name)).reverse u) := by
  induction u generalizing t with
  | nil =>
    refine ⟨fun _ c hc f hf => ?_, nofun⟩
    obtain ⟨q, hq, -⟩ := hf.exists_item
    rw [List.append_nil] at hq
    exact absurd (List.getElem?_eq_some_iff.1 hq).1 (Nat.not_lt.2 hc)
  | cons p u ih =>
    have hp : (t ++ p :: u)[t.length]? = some p := by simp
    have hearlier (s : String) : s ∈ (t.map (·.name)).reverse ↔
        ∃ j < t.length, ∃ q, (t ++ p :: u)[j]? = some q ∧ q.name = s := by
      rw [List.mem_reverse, List.mem_map]
      constructor
      · rintro ⟨q, hq, hname⟩
        obtain ⟨j, hj, hget⟩ := List.mem_iff_getElem.1 hq
        refine ⟨j, hj, q, ?_, hname⟩
        rw [List.getElem?_append_left hj, List.getElem?_eq_getElem hj, hget]
      · rintro ⟨j, hj, q, hget, hname⟩
        rw [List.getElem?_append_left hj] at hget
        exact ⟨q, List.mem_of_getElem? hget, hname⟩
    have hrest := ih (t ++ [p])
    rw [List.append_assoc, List.singleton_append, List.map_append, List.reverse_append,
      List.length_append] at hrest
    have hall := (reports_primitive hp hearlier).append hrest fun c hc d hd =>
      .inl (Nat.lt_of_lt_of_le (Nat.lt_succ_of_le (Nat.le_of_eq hc)) hd)
    refine hall.extend ?_ ?_
    · rintro c (hc | hc)
      · exact Nat.le_of_eq hc.symm
      · exact Nat.le_of_succ_le hc
    · intro c hc f _
      exact (Nat.eq_or_lt_of_le hc).imp Eq.symm id

theorem reports_failures (t : List Primitive) : Reports t Set.univ (failures t) :=
  (reports_failuresAfter [] t).extend (Set.subset_univ _) fun _ _ _ _ => Nat.zero_le _

/-- **Validation reports the first violation**: the failure of a violated check before which no
check is violated. -/
theorem validate_eq_error_iff_first {f : Failure} :
    validate t = .error f ↔
      ∃ c, Violates t c f ∧ ∀ d, d.Before c → ∀ g, ¬ Violates t d g := by
  rw [validate_eq_error_iff]
  constructor
  · intro hf
    obtain ⟨c, -, hviolates, hfirst⟩ := (reports_failures t).first f hf
    exact ⟨c, hviolates, fun d => hfirst d trivial⟩
  · rintro ⟨c, hviolates, hfirst⟩
    cases hfailures : failures t with
    | nil => exact absurd hviolates ((reports_failures t).none hfailures c trivial f)
    | cons g fs =>
      obtain ⟨d, -, hviolates', hfirst'⟩ := (reports_failures t).first g (by rw [hfailures]; rfl)
      obtain rfl : c = d := Check.eq_of_not_before (fun h => hfirst' c trivial h f hviolates)
        fun h => hfirst d h g hviolates'
      rw [hviolates.functional hviolates']
      rfl

/-- What follows a rejected table does not change the report. -/
theorem validate_append_of_error {u : List Primitive} {f : Failure} (h : validate t = .error f) :
    validate (t ++ u) = .error f := by
  rw [validate_eq_error_iff] at h ⊢
  rw [failures, failuresAfter_append, List.head?_append, ← failures, h]
  rfl

theorem isName_iff {s : String} : IsName s ↔ s.toList ∈ identifiers ∧ s ∉ keywords := by
  rw [← isIdentifier_iff, ← isReserved_iff_mem_keywords, Bool.not_eq_true]
  exact ⟨fun ⟨hform, hreserved⟩ => ⟨hform, hreserved⟩, fun ⟨hform, hreserved⟩ => ⟨hform, hreserved⟩⟩

theorem valid_iff : Valid t ↔
    (∀ s ∈ names t, s.toList ∈ identifiers ∧ s ∉ keywords) ∧ (t.map (·.name)).Nodup ∧
      ∀ p ∈ t, ∀ pin ∈ p.inputs ++ p.outputs, 1 ≤ pin.width := by
  have hwidth {w : UInt32} : 1 ≤ w ↔ w ≠ 0 := by
    rw [← UInt32.not_lt, UInt32.lt_one_iff]
  simp only [← isName_iff, hwidth, names, List.mem_flatMap, List.mem_cons, List.mem_append,
    List.mem_map]
  constructor
  · rintro ⟨hprimitives, hnodup⟩
    refine ⟨?_, hnodup, ?_⟩
    · rintro s ⟨p, hp, ((rfl | ⟨a, ha, rfl⟩) | ⟨pin, hpin, rfl⟩) | ⟨pin, hpin, rfl⟩⟩
      · exact (hprimitives p hp).name
      · exact (hprimitives p hp).attributes a ha
      · exact ((hprimitives p hp).inputs pin hpin).name
      · exact ((hprimitives p hp).outputs pin hpin).name
    · rintro p hp pin (hpin | hpin)
      · exact ((hprimitives p hp).inputs pin hpin).width_ne
      · exact ((hprimitives p hp).outputs pin hpin).width_ne
  · rintro ⟨hnames, hnodup, hwidths⟩
    refine ⟨fun p hp => ⟨?_, fun a ha => ?_, fun pin hpin => ⟨?_, ?_⟩, fun pin hpin => ⟨?_, ?_⟩⟩,
      hnodup⟩
    · exact hnames _ ⟨p, hp, .inl (.inl (.inl rfl))⟩
    · exact hnames _ ⟨p, hp, .inl (.inl (.inr ⟨a, ha, rfl⟩))⟩
    · exact hwidths p hp pin (.inl hpin)
    · exact hnames _ ⟨p, hp, .inl (.inr ⟨pin, hpin, rfl⟩)⟩
    · exact hwidths p hp pin (.inr hpin)
    · exact hnames _ ⟨p, hp, .inr ⟨pin, hpin, rfl⟩⟩

/-- **Validation is exact, and reports the first violation.** It accepts just the tables in which
every name is matched by the pattern of identifiers and is no keyword, no two primitives have one
name, and every pin has a bit. Of any other table it reports the violated check that is made first,
with the names that are concerned and, for a name that cannot be declared, the text that says what
it names. It goes on to do so when the table is continued. -/
theorem validate_exact (t : List Primitive) :
    (validate t = .ok () ↔
      (∀ s ∈ names t, s.toList ∈ identifiers ∧ s ∉ keywords) ∧ (t.map (·.name)).Nodup ∧
        ∀ p ∈ t, ∀ pin ∈ p.inputs ++ p.outputs, 1 ≤ pin.width) ∧
      (∀ f, validate t = .error f ↔
        ∃ c, Violates t c f ∧ ∀ d, d.Before c → ∀ g, ¬ Violates t d g) ∧
      ∀ f u, validate t = .error f → validate (t ++ u) = .error f :=
  ⟨validate_eq_ok_iff_valid.trans valid_iff, fun _ => validate_eq_error_iff_first,
    fun _ _ => validate_append_of_error⟩

/-- An attribute, a pin and a repeated primitive are wrong, and the attribute comes first. What
follows the table changes nothing. -/
theorem validate_exact_of_several :
    let t : List Primitive :=
      [⟨"A", [⟨"INIT", "0"⟩, ⟨"int", "0"⟩], [⟨0, "1"⟩], []⟩, ⟨"A", [], [], [.bit "b c"]⟩]
    let f : Failure := .reservedWord "A attribute" "int"
    validate t = .error f ∧
      (∃ c, Violates t c f ∧ ∀ d, d.Before c → ∀ g, ¬ Violates t d g) ∧
      ∀ u, validate (t ++ u) = .error f := by
  intro t f
  have h : validate t = .error f := rfl
  obtain ⟨-, hfirst, hcontinued⟩ := validate_exact t
  exact ⟨h, (hfirst f).1 h, fun u => hcontinued f u h⟩

/-- The width of a pin is looked at before its name, and a repeated name before any pin. -/
example :
    validate [⟨"A", [], [⟨0, "1"⟩], []⟩, ⟨"A", [], [], []⟩] = .error (.zeroWidthPin "A" "1") ∧
      validate [⟨"A", [], [], []⟩, ⟨"A", [], [⟨0, "1"⟩], []⟩] =
        .error (.duplicatePrimitive "A") :=
  ⟨rfl, rfl⟩

end Tables

end Table

end NetlistTables
