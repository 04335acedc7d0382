import Dcpu16.Text

/-!
# Text from bytes

Reads bytes as UTF-8. Where they are none, a replacement character stands for the longest part that starts a
character, or for a single byte.
-/

namespace Dcpu16.Utf8

/-- A character of which bytes are missing. -/
structure Partial where
  /-- The bits read. -/
  bits : Nat
  /-- The number of bytes that are missing; at least one. -/
  missing : Nat
  /-- The least and the greatest next byte. -/
  low : Nat := 0x80
  high : Nat := 0xbf
  deriving DecidableEq, Repr

/-- The character that stands for bytes that are none. -/
def replacement : Char := '\ufffd'

/-- What the first byte of a character starts. A character has its shortest form, is no surrogate and is at most
0x10ffff; so some second bytes are excluded. -/
def lead? (n : Nat) : Option Partial :=
  if n < 0xc2 then none
  else if n < 0xe0 then some { bits := n % 0x20, missing := 1 }
  else if n < 0xf0 then
    some { bits := n % 0x10, missing := 2, low := if n = 0xe0 then 0xa0 else 0x80, high := if n = 0xed then 0x9f else 0xbf }
  else if n < 0xf5 then
    some { bits := n % 8, missing := 3, low := if n = 0xf0 then 0x90 else 0x80, high := if n = 0xf4 then 0x8f else 0xbf }
  else none

/-- Text read, backwards, and the character that is being read. -/
structure Reader where
  read : Text := []
  rest : Option Partial := none
  deriving Repr, Inhabited

/-- Reads the first byte of a character. -/
def Reader.first (r : Reader) (n : Nat) : Reader :=
  if n < 0x80 then { r with read := Char.ofNat n :: r.read, rest := none }
  else
    match lead? n with
    | some p => { r with rest := some p }
    | none => { r with read := replacement :: r.read, rest := none }

/-- Reads a byte. -/
def Reader.next (r : Reader) (b : UInt8) : Reader :=
  let n := b.toNat
  match r.rest with
  | none => r.first n
  | some p =>
    if p.low ≤ n && n ≤ p.high then
      let bits := p.bits * 0x40 + n % 0x40
      if p.missing ≤ 1 then { r with read := Char.ofNat bits :: r.read, rest := none }
      else { r with rest := some { bits, missing := p.missing - 1 } }
    else ({ r with read := replacement :: r.read } : Reader).first n

/-- The text of bytes, with replacements where they are none. -/
def decode (bytes : ByteArray) : Text :=
  match String.fromUTF8? bytes with
  | some s => s.toList
  | none =>
    let r : Reader := bytes.foldl Reader.next {}
    (if r.rest.isSome then replacement :: r.read else r.read).reverse

end Dcpu16.Utf8
