import Mathlib.Algebra.Group.Nat.Defs
import NetlistTables.Proofs.Text.Split
import NetlistTables.Text.Utf8

/-!
# ASCII in UTF-8

An ASCII character is encoded as the byte of its number, and this byte occurs in the encoding of no
other character (`toUInt8_mem_utf8EncodeChar_iff`). So it occurs in the bytes of a text where the
character does in the text (`split_of_bytes`), and as often (`count_toUTF8`).

Every ASCII character of a decoded text stands for the byte of its number: no character of several
bytes is ASCII, and neither is the replacement of bytes that are no text. So bytes are decoded to a
text of ASCII characters only if they are the bytes of that text (`decode_eq_iff`).
-/

namespace NetlistTables.Text.Utf8

/-- Is a character ASCII? -/
def IsAscii (c : Char) : Prop := c.toNat < 0x80

/-! ## Encoding -/

theorem toNat_toUInt8 {c : Char} (h : IsAscii c) : c.toUInt8.toNat = c.toNat := by
  have hlt : c.toNat < 2 ^ 8 := Nat.lt_trans h (by decide)
  exact Nat.mod_eq_of_lt hlt

/-- An ASCII character is encoded as the byte of its number. -/
theorem utf8EncodeChar_eq {c : Char} (h : IsAscii c) : String.utf8EncodeChar c = [c.toUInt8] := by
  have hsize : c.utf8Size = 1 := by
    rw [Char.utf8Size_eq_one_iff, UInt32.le_iff_toNat_le]
    exact Nat.le_of_lt_succ h
  exact String.utf8EncodeChar_eq_singleton hsize

/-- The bytes of a text are those of its characters. -/
theorem data_toUTF8 (s : String) :
    s.toUTF8.data.toList = s.toList.flatMap String.utf8EncodeChar := by
  rw [String.toUTF8_eq_toByteArray, ← String.utf8Encode_toList, List.utf8Encode,
    List.data_toByteArray]

/-- A text of ASCII characters is encoded as the bytes of their numbers. -/
theorem toList_toUTF8 {s : String} (h : ∀ c ∈ s.toList, IsAscii c) :
    s.toUTF8.data.toList = s.toList.map Char.toUInt8 := by
  have hflat (cs : List Char) (hcs : ∀ c ∈ cs, IsAscii c) :
      cs.flatMap String.utf8EncodeChar = cs.map Char.toUInt8 := by
    induction cs with
    | nil => rfl
    | cons c cs ih =>
      rw [List.flatMap_cons, utf8EncodeChar_eq (hcs c List.mem_cons_self),
        ih fun d hd => hcs d (List.mem_cons_of_mem c hd)]
      rfl
  rw [data_toUTF8, hflat _ h]

/-- Every byte of a character beyond ASCII lies beyond ASCII. -/
theorem le_toNat_of_mem_utf8EncodeChar {c : Char} (h : ¬ IsAscii c) {b : UInt8}
    (hb : b ∈ String.utf8EncodeChar c) : 0x80 ≤ b.toNat := by
  have hc : 0x80 ≤ c.val.toNat := Nat.not_lt.1 h
  have hbyte {n : Nat} (hn : 0x80 ≤ n % 256) (hb : b = UInt8.ofNat n) : 0x80 ≤ b.toNat := by
    rwa [hb, UInt8.toNat_ofNat']
  rw [String.utf8EncodeChar, if_neg (by omega)] at hb
  -- one character is two, three or four bytes long
  split at hb
  · simp only [List.mem_cons, List.not_mem_nil, or_false] at hb
    rcases hb with hb | hb
    all_goals exact hbyte (by omega) hb
  split at hb
  · simp only [List.mem_cons, List.not_mem_nil, or_false] at hb
    rcases hb with hb | hb | hb
    all_goals exact hbyte (by omega) hb
  · simp only [List.mem_cons, List.not_mem_nil, or_false] at hb
    rcases hb with hb | hb | hb | hb
    all_goals exact hbyte (by omega) hb

/-- The byte of an ASCII character occurs in the encoding of no other character. -/
theorem toUInt8_mem_utf8EncodeChar_iff {c : Char} (h : IsAscii c) (d : Char) :
    c.toUInt8 ∈ String.utf8EncodeChar d ↔ d = c := by
  constructor
  · intro hmem
    by_cases hascii : IsAscii d
    · rw [utf8EncodeChar_eq hascii, List.mem_singleton, ← UInt8.toNat_inj, toNat_toUInt8 h,
        toNat_toUInt8 hascii, Char.toNat_inj] at hmem
      exact hmem.symm
    · have hle := le_toNat_of_mem_utf8EncodeChar hascii hmem
      rw [toNat_toUInt8 h] at hle
      exact absurd h (Nat.not_lt.2 hle)
  · rintro rfl
    rw [utf8EncodeChar_eq h]
    exact List.mem_singleton_self _

/-- An ASCII byte occurs in the bytes of a text as often as its character in the text. -/
theorem count_toUTF8 {c : Char} (h : IsAscii c) (s : String) :
    s.toUTF8.data.toList.count c.toUInt8 = s.toList.count c := by
  have hchar (d : Char) :
      (String.utf8EncodeChar d).count c.toUInt8 = if d = c then 1 else 0 := by
    split
    next hd =>
      rw [hd, utf8EncodeChar_eq h]
      exact List.count_singleton_self
    next hd => exact List.count_eq_zero.2 (mt (toUInt8_mem_utf8EncodeChar_iff h d).1 hd)
  rw [data_toUTF8]
  induction s.toList with
  | nil => rfl
  | cons d cs ih =>
    rw [List.flatMap_cons, List.count_append, hchar, ih, List.count_cons, Nat.add_comm]
    simp only [beq_iff_eq]

/-- Where an ASCII byte stands in the bytes of a text, its character stands in the text. -/
theorem split_of_bytes {c : Char} (h : IsAscii c) {cs : List Char} {before behind : List UInt8}
    (hcs : cs.flatMap String.utf8EncodeChar = before ++ c.toUInt8 :: behind) :
    ∃ ds es, cs = ds ++ c :: es ∧ before = ds.flatMap String.utf8EncodeChar ∧
      behind = es.flatMap String.utf8EncodeChar := by
  induction cs generalizing before with
  | nil => simp at hcs
  | cons d cs ih =>
    rw [List.flatMap_cons] at hcs
    rcases split_append hcs with ⟨rest, hd⟩ | ⟨rest, rfl, hrest⟩
    · -- the byte is that of the first character, which has no other
      have hdc : d = c := (toUInt8_mem_utf8EncodeChar_iff h d).1 (by simp [hd])
      rw [hdc, utf8EncodeChar_eq h] at hd hcs
      obtain ⟨rfl, -⟩ := split_singleton hd
      exact ⟨[], cs, by rw [hdc]; rfl, rfl, (List.cons.inj hcs).2.symm⟩
    · obtain ⟨ds, es, rfl, rfl, rfl⟩ := ih hrest
      exact ⟨d :: ds, es, rfl, rfl, rfl⟩

/-- If the first byte of a text is an ASCII byte, its character is the first of the text. -/
theorem cons_of_bytes {c : Char} (h : IsAscii c) {cs : List Char} {behind : List UInt8}
    (hcs : cs.flatMap String.utf8EncodeChar = c.toUInt8 :: behind) :
    ∃ es, cs = c :: es ∧ behind = es.flatMap String.utf8EncodeChar := by
  obtain ⟨ds, es, rfl, hds, hes⟩ := split_of_bytes h (hcs.trans (List.nil_append _).symm)
  cases ds with
  | nil => exact ⟨es, rfl, hes⟩
  | cons d ds => exact absurd (List.append_eq_nil_iff.1 hds.symm).1 String.utf8EncodeChar_ne_nil

/-- A text whose only line feed is its end is written as bytes whose only line feed is their end. -/
theorem exists_bytes_of_lineFeed {s : String} {cs : List Char} (h : s.toList = cs ++ ['\n'])
    (hcs : '\n' ∉ cs) : ∃ bytes, s.toUTF8.data.toList = bytes ++ [10] ∧ 10 ∉ bytes := by
  have hascii : IsAscii '\n' := by simp [IsAscii]
  refine ⟨cs.flatMap String.utf8EncodeChar, ?_, fun hfeed => hcs ?_⟩
  · rw [data_toUTF8, h, List.flatMap_append]
    rfl
  · obtain ⟨c, hc, hmem⟩ := List.mem_flatMap.1 hfeed
    rwa [← (toUInt8_mem_utf8EncodeChar_iff hascii c).1 hmem]

/-! ## Characters of several bytes -/

theorem toNat_ofNat {n : Nat} (h : n < 0xD800 ∨ 0xE000 ≤ n ∧ n < 0x110000) :
    (Char.ofNat n).toNat = n := by
  have hvalid : n.isValidChar := by
    unfold Nat.isValidChar
    omega
  rw [Char.ofNat, dif_pos hvalid]
  rfl

namespace Begun

/-- The least number that a begun character may come to spell. -/
def least (p : Begun) : Nat := (p.value * 64 + (p.low.toNat - 0x80)) * 64 ^ p.more

/-- The numbers that a begun character may come to spell lie below this one. -/
def bound (p : Begun) : Nat := (p.value * 64 + (p.high.toNat - 0x80) + 1) * 64 ^ p.more

/-- The numbers that a begun character may come to spell are those of characters, and not of ASCII
characters. -/
structure IsSound (p : Begun) : Prop where
  low : 0x80 ≤ p.low.toNat
  high : p.high.toNat ≤ 0xBF
  beyond : 0x80 ≤ p.least
  scalar : p.bound ≤ 0xD800 ∨ 0xE000 ≤ p.least ∧ p.bound ≤ 0x110000

variable {p : Begun} {b : UInt8}

theorem isSound_of_begin? (h : begin? b = some p) : p.IsSound := by
  unfold begin? at h
  simp only [UInt8.le_iff_toNat_le, ← UInt8.toNat_inj, UInt8.reduceToNat] at h
  -- the first byte leaves a range of numbers, and the rows of the table are checked one by one
  repeat' split at h
  all_goals cases h
  all_goals
    constructor <;> simp only [least, bound, UInt8.reduceToNat] <;> omega

/-- The number that a begun character spells together with its next byte. -/
def spelled (p : Begun) (b : UInt8) : Nat := p.value * 64 + (b.toNat - 0x80)

/-- A further byte narrows the numbers that may be spelled. -/
theorem IsSound.of_more {n : Nat} (h : p.IsSound) (hmore : p.more = n + 1) (hlow : p.low ≤ b)
    (hhigh : b ≤ p.high) : (⟨n, 0x80, 0xBF, p.spelled b⟩ : Begun).IsSound := by
  have hlow := UInt8.le_iff_toNat_le.1 hlow
  have hhigh := UInt8.le_iff_toNat_le.1 hhigh
  have hpow (k : Nat) : k * 64 ^ (n + 1) = k * 64 * 64 ^ n := by
    rw [Nat.pow_succ', Nat.mul_assoc]
  have hleast : p.least ≤ (⟨n, 0x80, 0xBF, p.spelled b⟩ : Begun).least := by
    have hle : p.value * 64 + (p.low.toNat - 0x80) ≤ p.spelled b := by
      unfold spelled
      omega
    simp only [least, hmore, hpow, UInt8.reduceToNat, Nat.sub_self, Nat.add_zero]
    exact Nat.mul_le_mul_right _ (Nat.mul_le_mul_right _ hle)
  have hbound : (⟨n, 0x80, 0xBF, p.spelled b⟩ : Begun).bound ≤ p.bound := by
    have hle : p.spelled b * 64 + 63 + 1 ≤ (p.value * 64 + (p.high.toNat - 0x80) + 1) * 64 := by
      unfold spelled
      omega
    simp only [bound, hmore, hpow, UInt8.reduceToNat]
    exact Nat.mul_le_mul_right _ hle
  have hbeyond := h.beyond
  have hscalar := h.scalar
  refine ⟨?_, ?_, by omega, by omega⟩
  · simp only [UInt8.reduceToNat, Nat.le_refl]
  · simp only [UInt8.reduceToNat, Nat.le_refl]

/-- With the last byte, a begun character becomes a character beyond ASCII. -/
theorem IsSound.not_isAscii (h : p.IsSound) (hmore : p.more = 0) (hlow : p.low ≤ b)
    (hhigh : b ≤ p.high) : ¬ IsAscii (Char.ofNat (p.spelled b)) := by
  have hlow := UInt8.le_iff_toNat_le.1 hlow
  have hhigh := UInt8.le_iff_toNat_le.1 hhigh
  have hleast : p.least ≤ p.spelled b := by
    unfold least spelled
    rw [hmore]
    omega
  have hbound : p.spelled b < p.bound := by
    unfold bound spelled
    rw [hmore]
    omega
  have hbeyond := h.beyond
  have hscalar := h.scalar
  rw [IsAscii, toNat_ofNat (by omega)]
  omega

end Begun

/-! ## Steps of the decoder -/

section Step

variable {p : Begun} {b : UInt8}

theorem step_of_last (hb : p.low ≤ b ∧ b ≤ p.high) (hmore : p.more = 0) :
    step (some p) b = ([Char.ofNat (p.spelled b)], none) := by
  have hspelled : p.value * 64 + (b.toNat - 0x80) = p.spelled b := rfl
  rw [step, if_pos hb]
  simp only [hmore, hspelled]

theorem step_of_more {n : Nat} (hb : p.low ≤ b ∧ b ≤ p.high) (hmore : p.more = n + 1) :
    step (some p) b = ([], some ⟨n, 0x80, 0xBF, p.spelled b⟩) := by
  have hspelled : p.value * 64 + (b.toNat - 0x80) = p.spelled b := rfl
  rw [step, if_pos hb]
  simp only [hmore, hspelled]

theorem step_of_refused (hb : ¬ (p.low ≤ b ∧ b ≤ p.high)) :
    step (some p) b = (replacement :: (first b).1, (first b).2) := by
  simp only [step, if_neg hb]

end Step

/-! ## Decoding -/

theorem not_isAscii_replacement : ¬ IsAscii replacement := by
  have hreplacement : replacement.toNat = 0xFFFD := rfl
  rw [IsAscii, hreplacement]
  decide

/-- A character that has begun settles as a character beyond ASCII, or is replaced by one. -/
theorem exists_not_isAscii_of_begun {p : Begun} (h : p.IsSound) (bs : List UInt8) :
    ∃ c ∈ decodeFrom (some p) bs, ¬ IsAscii c := by
  induction bs generalizing p with
  | nil => exact ⟨replacement, by simp [decodeFrom], not_isAscii_replacement⟩
  | cons b bs ih =>
    rw [decodeFrom]
    by_cases hb : p.low ≤ b ∧ b ≤ p.high
    · cases hmore : p.more with
      | zero =>
        rw [step_of_last hb hmore]
        exact ⟨_, List.mem_cons_self, h.not_isAscii hmore hb.1 hb.2⟩
      | succ n =>
        rw [step_of_more hb hmore]
        exact ih (h.of_more hmore hb.1 hb.2)
    · rw [step_of_refused hb]
      exact ⟨replacement, List.mem_cons_self, not_isAscii_replacement⟩

/-- A byte beyond ASCII leaves a character beyond ASCII. -/
theorem exists_not_isAscii_of_le {b : UInt8} (h : 0x80 ≤ b) (bs : List UInt8) :
    ∃ c ∈ decodeFrom none (b :: bs), ¬ IsAscii c := by
  rw [decodeFrom, step, first, if_neg (UInt8.not_lt.2 h)]
  cases hb : begin? b with
  | none => exact ⟨replacement, List.mem_cons_self, not_isAscii_replacement⟩
  | some p => exact exists_not_isAscii_of_begun (Begun.isSound_of_begin? hb) bs

theorem decodeFrom_cons_of_lt {b : UInt8} (h : b < 0x80) (bs : List UInt8) :
    decodeFrom none (b :: bs) = Char.ofNat b.toNat :: decodeFrom none bs := by
  rw [decodeFrom, step, first, if_pos h]
  rfl

/-- Bytes are decoded to ASCII characters just if they are the numbers of these. -/
theorem decodeFrom_eq_iff {cs : List Char} (h : ∀ c ∈ cs, IsAscii c) (bs : List UInt8) :
    decodeFrom none bs = cs ↔ bs = cs.map Char.toUInt8 := by
  induction bs generalizing cs with
  | nil => cases cs <;> simp [decodeFrom]
  | cons b bs ih =>
    by_cases hb : b < 0x80
    · rw [decodeFrom_cons_of_lt hb]
      cases cs with
      | nil => simp
      | cons c cs =>
        have hc := h c List.mem_cons_self
        have hcb : Char.ofNat b.toNat = c ↔ b = c.toUInt8 := by
          have hb := UInt8.lt_iff_toNat_lt.1 hb
          simp only [UInt8.reduceToNat] at hb
          rw [← Char.toNat_inj, toNat_ofNat (by omega), ← UInt8.toNat_inj, toNat_toUInt8 hc]
        rw [List.map_cons, List.cons.injEq, List.cons.injEq, hcb,
          ih fun d hd => h d (List.mem_cons_of_mem c hd)]
    · -- neither side has room for a byte beyond ASCII
      obtain ⟨c, hc, hbeyond⟩ := exists_not_isAscii_of_le (UInt8.not_lt.1 hb) bs
      constructor
      · rintro rfl
        exact absurd (h c hc) hbeyond
      · intro hmap
        have hmem : b ∈ cs.map Char.toUInt8 := hmap ▸ List.mem_cons_self
        obtain ⟨d, hd, rfl⟩ := List.mem_map.1 hmem
        refine absurd ?_ hb
        rw [UInt8.lt_iff_toNat_lt, toNat_toUInt8 (h d hd)]
        exact h d hd

/-- **Bytes are decoded to a text of ASCII characters just if they are its bytes.** -/
theorem decode_eq_iff {s : String} (h : ∀ c ∈ s.toList, IsAscii c) (bytes : ByteArray) :
    decode bytes = s ↔ bytes = s.toUTF8 := by
  rw [decode, ← String.toList_inj, String.toList_ofList, decodeFrom_eq_iff h, ← toList_toUTF8 h,
    Array.toList_inj, ByteArray.ext_iff]

end NetlistTables.Text.Utf8
