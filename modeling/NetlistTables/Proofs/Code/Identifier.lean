import NetlistTables.Code.Identifier

/-!
# The characters of identifiers

Which characters an identifier holds, and that it may be lengthened: what follows the first
character of an identifier may also follow an identifier. A name that begins or ends as no reserved
word does is not reserved, whatever else it consists of.
-/

namespace NetlistTables.Code

theorem isIdentifierTail_of_head {c : Char} (h : isIdentifierHead c) : isIdentifierTail c := by
  simp only [isIdentifierHead, isIdentifierTail, Char.isAlphanum, Bool.or_eq_true] at h ⊢
  exact h.imp_left .inl

theorem isIdentifierTail_of_isDigit {c : Char} (h : c.isDigit) : isIdentifierTail c := by
  simp [isIdentifierTail, Char.isAlphanum, h]

theorem isIdentifierHead_of_isDigit {c : Char} (h : c.isDigit) : isIdentifierHead c = false := by
  have hdigit := (Char.isDigit_iff_toNat.1 h).2
  cases hc : isIdentifierHead c with
  | false => rfl
  | true =>
    -- letters and the underscore come behind the digits
    have hbehind : '9'.toNat < c.toNat := by
      rcases Bool.or_eq_true_iff.1 hc with hletter | hunderscore
      · rcases Bool.or_eq_true_iff.1 hletter with hupper | hlower
        · have hA : 'A'.val ≤ c.val := (of_decide_eq_true hupper).1
          exact Nat.lt_of_lt_of_le (by decide) (UInt32.le_iff_toNat_le.1 hA)
        · have ha : 'a'.val ≤ c.val := of_decide_eq_true (Bool.and_eq_true_iff.1 hlower).1
          exact Nat.lt_of_lt_of_le (by decide) (UInt32.le_iff_toNat_le.1 ha)
      · rw [eq_of_beq hunderscore]
        decide
    omega

/-- The digits of a number are digits. -/
theorem isDigit_of_mem_toDigits {n : Nat} {c : Char} (h : c ∈ Nat.toDigits 10 n) : c.isDigit :=
  Nat.isDigit_of_mem_toDigits (by decide) (by decide) h

theorem isIdentifierTail_of_mem {s : String} (h : isIdentifier s) {c : Char} (hc : c ∈ s.toList) :
    isIdentifierTail c := by
  rw [isIdentifier] at h
  split at h
  · cases h
  next d ds hs =>
    obtain ⟨hd, hds⟩ := Bool.and_eq_true_iff.1 h
    rw [hs, List.mem_cons] at hc
    rcases hc with rfl | hc
    · exact isIdentifierTail_of_head hd
    · exact List.all_eq_true.1 hds c hc

theorem exists_cons_of_isIdentifier {s : String} (h : isIdentifier s) :
    ∃ c cs, s.toList = c :: cs := by
  rw [isIdentifier] at h
  split at h
  · cases h
  next c cs hs => exact ⟨c, cs, hs⟩

/-- What cannot stand in an identifier does not. -/
theorem notMem_of_isIdentifier {s : String} (h : isIdentifier s) {c : Char}
    (hc : isIdentifierTail c = false) : c ∉ s.toList := by
  intro hmem
  rw [isIdentifierTail_of_mem h hmem] at hc
  cases hc

theorem ne_of_mem_of_isIdentifier {s : String} (h : isIdentifier s) {c d : Char}
    (hc : c ∈ s.toList) (hd : isIdentifierTail d = false) : c ≠ d := by
  rintro rfl
  exact notMem_of_isIdentifier h hd hc

theorem lineFeed_notMem_of_isIdentifier {s : String} (h : isIdentifier s) : '\n' ∉ s.toList :=
  notMem_of_isIdentifier h rfl

theorem isIdentifier_append {s u : String} (h : isIdentifier s)
    (hu : ∀ c ∈ u.toList, isIdentifierTail c) : isIdentifier (s ++ u) := by
  rw [isIdentifier] at h ⊢
  split at h
  · cases h
  next c cs hs =>
    obtain ⟨hc, hcs⟩ := Bool.and_eq_true_iff.1 h
    have hcs := List.all_eq_true.1 hcs
    simpa [hs, hc, List.all_eq_true.2 hu] using hcs

theorem isReserved_iff {s : String} : isReserved s ↔ s ∈ reservedWords := List.contains_iff_mem

theorem isReserved_append_of_starts {b : String} (h : ∀ w ∈ reservedWords, ¬ b.toList <+: w.toList)
    (s : String) : isReserved (b ++ s) = false := by
  rw [Bool.eq_false_iff, ne_eq, isReserved_iff]
  intro hmem
  apply h (b ++ s) hmem
  rw [String.toList_append]
  exact List.prefix_append _ _

theorem isReserved_append_of_ends {e : String} (h : ∀ w ∈ reservedWords, ¬ e.toList <:+ w.toList)
    (s : String) : isReserved (s ++ e) = false := by
  rw [Bool.eq_false_iff, ne_eq, isReserved_iff]
  intro hmem
  apply h (s ++ e) hmem
  rw [String.toList_append]
  exact List.suffix_append _ _

end NetlistTables.Code
