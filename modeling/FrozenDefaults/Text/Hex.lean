/-!
# Hexadecimal text

A byte is written as two lower-case digits, the high one first, and read from
digits of either case.
-/

namespace FrozenDefaults

namespace Hex

inductive Fault where
  | oddLength
  | badDigit (byte : UInt8) (position : Nat)
  deriving DecidableEq

def digit (n : Nat) : Char :=
  if n < 10 then Char.ofNat ('0'.toNat + n) else Char.ofNat ('a'.toNat + (n - 10))

def value? (c : Char) : Option Nat :=
  if '0' ≤ c ∧ c ≤ '9' then some (c.toNat - '0'.toNat)
  else if 'a' ≤ c ∧ c ≤ 'f' then some (c.toNat - 'a'.toNat + 10)
  else if 'A' ≤ c ∧ c ≤ 'F' then some (c.toNat - 'A'.toNat + 10)
  else none

def encodeByte (b : UInt8) : List Char := [digit (b.toNat / 16), digit (b.toNat % 16)]

def encode (bs : List UInt8) : List Char := bs.flatMap encodeByte

def byteOf (high low : Nat) : UInt8 := UInt8.ofNat (16 * high + low)

/-- A byte of the text, taken as the character with its number. -/
def digitAt (position : Nat) (b : UInt8) : Except Fault Nat :=
  match value? (Char.ofNat b.toNat) with
  | some n => .ok n
  | none => .error (.badDigit b position)

def decodePairs (position : Nat) : List UInt8 → Except Fault (List UInt8)
  | high :: low :: rest => do
    let h ← digitAt position high
    let l ← digitAt (position + 1) low
    return byteOf h l :: (← decodePairs (position + 2) rest)
  | _ => .ok []

/-- Reads the bytes of a text as digits. An odd number of them is the first thing refused. -/
def decode (text : List UInt8) : Except Fault (List UInt8) :=
  if text.length % 2 = 1 then .error .oddLength else decodePairs 0 text

/-- A number in lower-case digits without leading zeros. -/
def number (n : Nat) : String := String.ofList (Nat.toDigits 16 n)

/-- A byte as a quoted character: Latin-1, with escapes for what cannot be seen. -/
def quote (b : UInt8) : String :=
  match b.toNat with
  | 0x00 => "'\\0'"
  | 0x09 => "'\\t'"
  | 0x0a => "'\\n'"
  | 0x0d => "'\\r'"
  | 0x27 => "'\\''"
  | 0x5c => "'\\\\'"
  | n =>
    if n < 0x20 ∨ 0x7f ≤ n ∧ n ≤ 0xa0 ∨ n = 0xad then
      "'\\u\x7b" ++ number n ++ "\x7d'"
    else "'" ++ String.singleton (Char.ofNat n) ++ "'"

def Fault.message : Fault → String
  | oddLength => "Odd number of digits"
  | badDigit b position => "Invalid character " ++ quote b ++ s!" at position {position}"

theorem value?_digit {n : Nat} (h : n < 16) : value? (digit n) = some n := by
  have : ∀ m : Fin 16, value? (digit m) = some m.val := by decide
  exact this ⟨n, h⟩

theorem byteOf_halves (b : UInt8) : byteOf (b.toNat / 16) (b.toNat % 16) = b := by
  rw [byteOf, Nat.div_add_mod, UInt8.ofNat_toNat]

end Hex

end FrozenDefaults
