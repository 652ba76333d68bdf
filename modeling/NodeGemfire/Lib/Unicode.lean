import Mathlib.Algebra.Group.Nat.Defs
import Mathlib.Data.List.Basic

/-!
# UTF-16 and UTF-8

Transcoding between sequences of 16-bit code units and byte sequences. A lone
surrogate encodes as the replacement character; an ill-formed byte sequence
decodes to one replacement character for each maximal ill-formed part.

## Main definitions

- `Unicode.utf8OfUtf16` — encode code units as UTF-8
- `Unicode.utf16OfUtf8` — decode UTF-8 to code units
- `cString` — the part of a buffer that a NUL-terminated reader sees
-/

/-- What a reader of a NUL-terminated buffer sees of `buffer`. -/
def cString {α : Type*} [DecidableEq α] [OfNat α 0] (buffer : List α) : List α :=
  buffer.takeWhile (· ≠ 0)

namespace Unicode

/-- U+FFFD, the replacement character. -/
def replacement : Nat := 0xFFFD

def isHighSurrogate (u : UInt16) : Bool := 0xD800 ≤ u && u ≤ 0xDBFF

def isLowSurrogate (u : UInt16) : Bool := 0xDC00 ≤ u && u ≤ 0xDFFF

/-- The code point of a surrogate pair. -/
def ofSurrogates (high low : UInt16) : Nat :=
  0x10000 + (high.toNat - 0xD800) * 0x400 + (low.toNat - 0xDC00)

/-- The code point of a code unit that is not the first half of a pair. -/
def ofUnit (u : UInt16) : Nat :=
  if isHighSurrogate u || isLowSurrogate u then replacement else u.toNat

/-- The code points of a sequence of code units. -/
def codePoints : List UInt16 → List Nat
  | [] => []
  | [u] => [ofUnit u]
  | u :: v :: rest =>
    if isHighSurrogate u && isLowSurrogate v then ofSurrogates u v :: codePoints rest
    else ofUnit u :: codePoints (v :: rest)

/-- The bytes of one code point. -/
def utf8Bytes (c : Nat) : List UInt8 :=
  let tail (k : Nat) : UInt8 := UInt8.ofNat (0x80 + c / 64 ^ k % 64)
  if c < 0x80 then [UInt8.ofNat c]
  else if c < 0x800 then [UInt8.ofNat (0xC0 + c / 64), tail 0]
  else if c < 0x10000 then [UInt8.ofNat (0xE0 + c / 64 ^ 2), tail 1, tail 0]
  else [UInt8.ofNat (0xF0 + c / 64 ^ 3), tail 2, tail 1, tail 0]

def utf8OfUtf16 (s : List UInt16) : List UInt8 := (codePoints s).flatMap utf8Bytes

/-- Inside a multi-byte character: the continuation bytes still owed, the range
    the next of them must lie in, and the bits read so far. -/
structure Partial where
  owed : Nat
  lower : UInt8
  upper : UInt8
  bits : Nat

/-- The character that starts with byte `b`, complete or still partial. -/
def firstByte (b : UInt8) : List Nat × Option Partial :=
  if b < 0x80 then ([b.toNat], none)
  else if 0xC2 ≤ b && b ≤ 0xDF then ([], some ⟨1, 0x80, 0xBF, b.toNat - 0xC0⟩)
  else if b = 0xE0 then ([], some ⟨2, 0xA0, 0xBF, 0⟩)
  else if b = 0xED then ([], some ⟨2, 0x80, 0x9F, 0xD⟩)
  else if 0xE1 ≤ b && b ≤ 0xEF then ([], some ⟨2, 0x80, 0xBF, b.toNat - 0xE0⟩)
  else if b = 0xF0 then ([], some ⟨3, 0x90, 0xBF, 0⟩)
  else if 0xF1 ≤ b && b ≤ 0xF3 then ([], some ⟨3, 0x80, 0xBF, b.toNat - 0xF0⟩)
  else if b = 0xF4 then ([], some ⟨3, 0x80, 0x8F, 4⟩)
  else ([replacement], none)

/-- One byte: the code points it completes, and the character it leaves open. -/
def nextByte : Option Partial → UInt8 → List Nat × Option Partial
  | none, b => firstByte b
  | some p, b =>
    if p.lower ≤ b && b ≤ p.upper then
      let bits := p.bits * 64 + (b.toNat - 0x80)
      if p.owed = 1 then ([bits], none) else ([], some ⟨p.owed - 1, 0x80, 0xBF, bits⟩)
    else
      -- the open character is ill-formed; the byte starts a new one
      let (points, rest) := firstByte b
      (replacement :: points, rest)

/-- The code points of a byte sequence, from the open character `state`. -/
def decodeFrom (state : Option Partial) : List UInt8 → List Nat
  | [] => if state.isSome then [replacement] else []
  | b :: rest =>
    let (points, state') := nextByte state b
    points ++ decodeFrom state' rest

/-- The code units of one code point. -/
def utf16Units (c : Nat) : List UInt16 :=
  if c < 0x10000 then [UInt16.ofNat c]
  else
    [UInt16.ofNat (0xD800 + (c - 0x10000) / 0x400), UInt16.ofNat (0xDC00 + (c - 0x10000) % 0x400)]

def utf16OfUtf8 (bytes : List UInt8) : List UInt16 := (decodeFrom none bytes).flatMap utf16Units

-- an astral character survives, a lone surrogate does not
example : utf16OfUtf8 (utf8OfUtf16 [0x61, 0xD83D, 0xDE00]) = [0x61, 0xD83D, 0xDE00] := by decide
example : utf16OfUtf8 (utf8OfUtf16 [0xD83D, 0x61]) = [0xFFFD, 0x61] := by decide

end Unicode
