/-! # Decoding bytes as text

* `leadingChar` — the character that a byte and its followers spell, with the number of followers
  it takes.
* `decodeUtf8` — reads bytes as UTF-8; a byte that starts no well-formed sequence becomes the
  replacement character on its own, and reading goes on with the next byte. -/

namespace KestrelLang.Text

/-- The character that stands for a byte that is not part of well-formed text. -/
def replacement : Char := '\ufffd'

def isContinuation (b : UInt8) : Bool := 0x80 ≤ b && b ≤ 0xbf

def payload (b : UInt8) : Nat := b.toNat % 0x40

/-- A code point from two bytes, if they are one well-formed sequence. -/
def pairChar? (a b : UInt8) : Option Char :=
  if 0xc2 ≤ a && a ≤ 0xdf && isContinuation b then
    some (Char.ofNat ((a.toNat % 0x20) * 0x40 + payload b))
  else none

/-- A code point from three bytes; needlessly long forms and surrogates are refused. -/
def tripleChar? (a b c : UInt8) : Option Char :=
  let n := (a.toNat % 0x10) * 0x1000 + payload b * 0x40 + payload c
  if 0xe0 ≤ a && a ≤ 0xef && isContinuation b && isContinuation c
      && 0x800 ≤ n && !(0xd800 ≤ n && n ≤ 0xdfff) then
    some (Char.ofNat n)
  else none

/-- A code point from four bytes; needlessly long forms and values past the last code point are
    refused. -/
def quadChar? (a b c d : UInt8) : Option Char :=
  let n := (a.toNat % 0x08) * 0x40000 + payload b * 0x1000 + payload c * 0x40 + payload d
  if 0xf0 ≤ a && a ≤ 0xf4 && isContinuation b && isContinuation c && isContinuation d
      && 0x10000 ≤ n && n ≤ 0x10ffff then
    some (Char.ofNat n)
  else none

/-- The character that starts with byte `a`, and how many of the following bytes belong to it. -/
def leadingChar (a : UInt8) (rest : List UInt8) : Char × Nat :=
  if a < 0x80 then (Char.ofNat a.toNat, 0)
  else
    let pair := match rest with
      | b :: _ => (pairChar? a b).map (·, 1)
      | _ => none
    let triple := match rest with
      | b :: c :: _ => (tripleChar? a b c).map (·, 2)
      | _ => none
    let quad := match rest with
      | b :: c :: d :: _ => (quadChar? a b c d).map (·, 3)
      | _ => none
    (pair <|> triple <|> quad).getD (replacement, 0)

/-- Decodes after passing over `skip` bytes that the previous character already used. -/
def decodeFrom : Nat → List UInt8 → List Char
  | _, [] => []
  | skip + 1, _ :: rest => decodeFrom skip rest
  | 0, b :: rest =>
    let (c, used) := leadingChar b rest
    c :: decodeFrom used rest

/-- Reads bytes as text, one replacement character for each byte that fits no sequence. -/
def decodeUtf8 (bytes : List UInt8) : List Char :=
  decodeFrom 0 bytes

end KestrelLang.Text
