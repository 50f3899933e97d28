/-!
# Reading UTF-8

A file's bytes become a text, or the first fault in them is named with the bytes it covers: a byte
that starts no character, a byte that does not continue one, or a character cut off by the end. A
character's second byte is confined further than the later ones, which keeps out overlong forms,
surrogates and code points past U+10FFFF.
-/

namespace CallScript.Text.Utf8

inductive Reason where
  | invalidStart
  | invalidContinuation
  | unexpectedEnd
  deriving DecidableEq, Repr

/-- A fault, the first byte it covers, and the bytes from there to its last one. -/
structure Fault where
  reason : Reason
  start : Nat
  first : UInt8
  width : Nat
  deriving DecidableEq, Repr

def Reason.message : Reason → String
  | .invalidStart => "invalid start byte"
  | .invalidContinuation => "invalid continuation byte"
  | .unexpectedEnd => "unexpected end of data"

/-- The bytes that may follow each other to make up the rest of a character: how many are owed,
and the bounds of the next one. -/
structure Owed where
  count : Nat
  low : UInt8
  high : UInt8

/-- What a character's first byte leaves to be read, with the bits it contributes itself. -/
def lead (b : UInt8) : Option (Nat × Owed) :=
  if b < 0x80 then some (b.toNat, ⟨0, 0x80, 0xBF⟩)
  else if b < 0xC2 then none
  else if b < 0xE0 then some (b.toNat - 0xC0, ⟨1, 0x80, 0xBF⟩)
  else if b < 0xF0 then
    some (b.toNat - 0xE0,
      ⟨2, if b == 0xE0 then 0xA0 else 0x80, if b == 0xED then 0x9F else 0xBF⟩)
  else if b < 0xF5 then
    some (b.toNat - 0xF0,
      ⟨3, if b == 0xF0 then 0x90 else 0x80, if b == 0xF4 then 0x8F else 0xBF⟩)
  else none

/-- Decodes from inside a character or, when nothing is owed, from between two. The character
under way began at byte `start` with `first`, its bytes so far are `width` many, and `code` is what
they contribute. -/
def decodeFrom : (bytes : List UInt8) → (start : Nat) → (first : UInt8) → (width code : Nat) →
    Owed → Except Fault (List Char)
  | [], start, first, width, _, owed =>
    if owed.count = 0 then .ok [] else .error ⟨.unexpectedEnd, start, first, width⟩
  | b :: rest, start, first, width, code, owed =>
    match owed.count with
    | 0 =>
      let start := start + width
      match lead b with
      | none => .error ⟨.invalidStart, start, b, 1⟩
      | some (bits, next) =>
        if next.count = 0 then
          (decodeFrom rest start b 1 0 next).map (Char.ofNat bits :: ·)
        else decodeFrom rest start b 1 bits next
    | owing + 1 =>
      if owed.low ≤ b && b ≤ owed.high then
        let code := code * 64 + (b.toNat - 0x80)
        let next : Owed := ⟨owing, 0x80, 0xBF⟩
        if owing = 0 then
          (decodeFrom rest start first (width + 1) 0 next).map (Char.ofNat code :: ·)
        else decodeFrom rest start first (width + 1) code next
      else .error ⟨.invalidContinuation, start, first, width⟩

/-- The text that the bytes spell, or their first fault. -/
def decode (bytes : List UInt8) : Except Fault (List Char) :=
  decodeFrom bytes 0 0 0 0 ⟨0, 0x80, 0xBF⟩

end CallScript.Text.Utf8
