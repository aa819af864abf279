/-!
Bytes read as UTF-8. A symbol is a character, or nothing for a byte that belongs to no character.
-/
namespace EventJournal.Text

abbrev Symbol := Option Char

/-- The number of bytes that a symbol stands for. -/
def Symbol.width : Symbol → Nat
  | some c => c.utf8Size
  | none => 1

def symbols (s : String) : List Symbol :=
  s.toList.map some

/-- The payload of a continuation byte. -/
def continuation? (b : UInt8) : Option Nat :=
  if 0x80 ≤ b && b < 0xC0 then some (b.toNat - 0x80) else none

/-- The character that stands at the front of the bytes, with the number of bytes it takes. Forms
longer than needed, surrogates and numbers past the last code point stand for no character. -/
def leadingChar? : List UInt8 → Option (Char × Nat)
  | [] => none
  | b :: rest =>
    if b < 0x80 then some (Char.ofNat b.toNat, 1)
    else if b < 0xE0 then
      match rest with
      | c :: _ => do
        let x ← continuation? c
        let n := (b.toNat - 0xC0) * 64 + x
        if 0xC2 ≤ b then some (Char.ofNat n, 2) else none
      | [] => none
    else if b < 0xF0 then
      match rest with
      | c :: d :: _ => do
        let x ← continuation? c
        let y ← continuation? d
        let n := ((b.toNat - 0xE0) * 64 + x) * 64 + y
        if 0x800 ≤ n && !(0xD800 ≤ n && n ≤ 0xDFFF) then some (Char.ofNat n, 3) else none
      | _ => none
    else
      match rest with
      | c :: d :: e :: _ => do
        let x ← continuation? c
        let y ← continuation? d
        let z ← continuation? e
        let n := (((b.toNat - 0xF0) * 64 + x) * 64 + y) * 64 + z
        if b < 0xF8 && 0x10000 ≤ n && n ≤ 0x10FFFF then some (Char.ofNat n, 4) else none
      | _ => none

/-- Reads bytes from left to right; `skip` bytes of a character already read are passed over. -/
def symbolsFrom (skip : Nat) : List UInt8 → List Symbol
  | [] => []
  | b :: rest =>
    match skip with
    | k + 1 => symbolsFrom k rest
    | 0 =>
      match leadingChar? (b :: rest) with
      | some (c, n) => some c :: symbolsFrom (n - 1) rest
      | none => none :: symbolsFrom 0 rest

def symbolsOfBytes (bytes : List UInt8) : List Symbol :=
  symbolsFrom 0 bytes

end EventJournal.Text
