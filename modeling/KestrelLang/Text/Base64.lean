import KestrelLang.Text.Utf8

/-! # Bytes written with 64 characters

* `base64Digit?` — the value of a character.
* `decodeBase64?` — the bytes of a text in groups of four characters; the last group may be filled up
  with equals signs. Line breaks are passed over. -/

namespace KestrelLang.Text

def base64Digit? (c : Char) : Option Nat :=
  if 'A' ≤ c ∧ c ≤ 'Z' then some (c.toNat - 'A'.toNat)
  else if 'a' ≤ c ∧ c ≤ 'z' then some (c.toNat - 'a'.toNat + 26)
  else if '0' ≤ c ∧ c ≤ '9' then some (c.toNat - '0'.toNat + 52)
  else if c = '+' then some 62
  else if c = '/' then some 63
  else none

def base64Groups? : List Char → Option (List UInt8)
  | [] => some []
  | [a, b, '=', '='] => do
    let n := (← base64Digit? a) * 0x40 + (← base64Digit? b)
    return [UInt8.ofNat (n / 0x10)]
  | [a, b, c, '='] => do
    let n := ((← base64Digit? a) * 0x40 + (← base64Digit? b)) * 0x40 + (← base64Digit? c)
    return [UInt8.ofNat (n / 0x400), UInt8.ofNat (n / 4 % 0x100)]
  | a :: b :: c :: d :: rest => do
    let high := (← base64Digit? a) * 0x40 + (← base64Digit? b)
    let low := (← base64Digit? c) * 0x40 + (← base64Digit? d)
    let n := high * 0x1000 + low
    let tail ← base64Groups? rest
    return UInt8.ofNat (n / 0x10000) :: UInt8.ofNat (n / 0x100 % 0x100)
      :: UInt8.ofNat (n % 0x100) :: tail
  | _ => none

def decodeBase64? (s : String) : Option (List UInt8) :=
  base64Groups? (s.toList.filter fun c => c ≠ '\r' && c ≠ '\n')

end KestrelLang.Text
