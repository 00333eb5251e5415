/-!
# UTF-8 with replacement

Any sequence of bytes is decoded to text. Where the bytes are not UTF-8, each longest run that
could still have begun a character, or else each single byte, becomes one replacement character
U+FFFD, and decoding goes on behind it.

The decoder is a machine that takes one byte at a time. Its state is a character that has begun
and is not yet complete.
-/

namespace NetlistTables.Text.Utf8

/-- A character that has begun: how many bytes it still needs after the next one, the range that
the next one has to lie in, and the number that the bytes so far spell. -/
structure Begun where
  more : Nat
  low : UInt8
  high : UInt8
  value : Nat
  deriving DecidableEq, Repr

/-- The character that stands for bytes that are no text. -/
def replacement : Char := '\uFFFD'

/-- The character that a first byte begins, if it begins one of several bytes. The narrower ranges
of the second byte leave out overlong forms, surrogates and numbers above U+10FFFF. -/
def begin? (b : UInt8) : Option Begun :=
  if 0xC2 ≤ b ∧ b ≤ 0xDF then some ⟨0, 0x80, 0xBF, b.toNat - 0xC0⟩
  else if b = 0xE0 then some ⟨1, 0xA0, 0xBF, 0⟩
  else if b = 0xED then some ⟨1, 0x80, 0x9F, 0xD⟩
  else if 0xE1 ≤ b ∧ b ≤ 0xEF then some ⟨1, 0x80, 0xBF, b.toNat - 0xE0⟩
  else if b = 0xF0 then some ⟨2, 0x90, 0xBF, 0⟩
  else if 0xF1 ≤ b ∧ b ≤ 0xF3 then some ⟨2, 0x80, 0xBF, b.toNat - 0xF0⟩
  else if b = 0xF4 then some ⟨2, 0x80, 0x8F, 4⟩
  else none

/-- One byte between characters: the text that it settles, and the state after it. -/
def first (b : UInt8) : List Char × Option Begun :=
  if b < 0x80 then ([Char.ofNat b.toNat], none)
  else
    match begin? b with
    | some p => ([], some p)
    | none => ([replacement], none)

/-- One byte: the text that it settles, and the state after it. A byte that cannot go on with a
begun character ends it as a replacement, and is then looked at anew. -/
def step : Option Begun → UInt8 → List Char × Option Begun
  | none, b => first b
  | some p, b =>
    if p.low ≤ b ∧ b ≤ p.high then
      let value := p.value * 64 + (b.toNat - 0x80)
      match p.more with
      | 0 => ([Char.ofNat value], none)
      | n + 1 => ([], some ⟨n, 0x80, 0xBF, value⟩)
    else
      let (cs, next) := first b
      (replacement :: cs, next)

/-- The text of the bytes that follow a state. -/
def decodeFrom : Option Begun → List UInt8 → List Char
  | none, [] => []
  | some _, [] => [replacement]
  | st, b :: bs => (step st b).1 ++ decodeFrom (step st b).2 bs

/-- The text of any sequence of bytes. -/
def decode (bytes : ByteArray) : String := String.ofList (decodeFrom none bytes.data.toList)

end NetlistTables.Text.Utf8
