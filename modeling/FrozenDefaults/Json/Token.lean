import FrozenDefaults.Decimal
import FrozenDefaults.Text.Hex

/-!
# Tokens of JSON text

The text is read as a list of tokens with blanks between them. Numbers keep
their digits, so that nothing is rounded. A string may name one half of a
surrogate pair without the other; it then has no text.
-/

namespace FrozenDefaults

namespace Json

/-- A decimal number with a sign. It is plain if it was written without point and exponent. -/
structure Number extends Decimal where
  negative : Bool
  plain : Bool
  deriving DecidableEq

inductive Token where
  | openArray
  | closeArray
  | openObject
  | closeObject
  | comma
  | colon
  | null
  | bool (b : Bool)
  | number (n : Number)
  | string (s : Option String)
  deriving DecidableEq

namespace Number

def ofNat (n : Nat) : Number := ⟨⟨n, 0⟩, false, true⟩

/-- The value of a number that is written as nothing but digits. -/
def natural? (n : Number) : Option Nat := if n.plain && !n.negative then some n.digits else none

end Number

namespace Token

def isBlank (c : Char) : Bool := c == ' ' || c == '\t' || c == '\n' || c == '\r'

def numberOf (digits : List Char) : Nat :=
  digits.foldl (fun n c => 10 * n + (c.toNat - '0'.toNat)) 0

/-- A point with digits behind it, or nothing. -/
def fraction? : List Char → Option (List Char × List Char)
  | '.' :: cs =>
    match cs.span Char.isDigit with
    | ([], _) => none
    | (digits, rest) => some (digits, rest)
  | cs => some ([], cs)

def exponentDigits? (negative : Bool) (cs : List Char) : Option (Option Int × List Char) :=
  match cs.span Char.isDigit with
  | ([], _) => none
  | (digits, rest) =>
    some (some (if negative then -(numberOf digits : Int) else numberOf digits), rest)

/-- A power of ten, or nothing. -/
def exponent? : List Char → Option (Option Int × List Char)
  | c :: cs =>
    if c == 'e' || c == 'E' then
      match cs with
      | '-' :: cs => exponentDigits? true cs
      | '+' :: cs => exponentDigits? false cs
      | cs => exponentDigits? false cs
    else some (none, c :: cs)
  | [] => some (none, [])

def magnitude? (negative : Bool) (cs : List Char) : Option (Number × List Char) :=
  match cs.span Char.isDigit with
  | ([], _) => none
  | (whole, rest) =>
    if whole.head? = some '0' ∧ whole.length ≠ 1 then none
    else do
      let (part, rest) ← fraction? rest
      let (power, rest) ← exponent? rest
      let plain := part.isEmpty && power.isNone
      return (⟨⟨numberOf (whole ++ part), power.getD 0 - part.length⟩, negative, plain⟩, rest)

def number? : List Char → Option (Number × List Char)
  | '-' :: cs => magnitude? true cs
  | cs => magnitude? false cs

def escaped? : Char → Option Char
  | '"' => some '"'
  | '\\' => some '\\'
  | '/' => some '/'
  | 'b' => some '\x08'
  | 'f' => some '\x0c'
  | 'n' => some '\n'
  | 'r' => some '\r'
  | 't' => some '\t'
  | _ => none

def unit? (a b c d : Char) : Option Nat := do
  return 4096 * (← Hex.value? a) + 256 * (← Hex.value? b) + 16 * (← Hex.value? c) + (← Hex.value? d)

/-- The characters and surrogate halves of a string up to its closing quote. -/
def units? (seen : List Nat) : List Char → Option (List Nat × List Char)
  | [] => none
  | '"' :: rest => some (seen.reverse, rest)
  | '\\' :: 'u' :: a :: b :: c :: d :: rest =>
    match unit? a b c d with
    | some n => units? (n :: seen) rest
    | none => none
  | '\\' :: e :: rest =>
    match escaped? e with
    | some c => units? (c.toNat :: seen) rest
    | none => none
  | c :: rest => if c.toNat < 0x20 then none else units? (c.toNat :: seen) rest

def isHigh (n : Nat) : Bool := 0xd800 ≤ n && n < 0xdc00

def isLow (n : Nat) : Bool := 0xdc00 ≤ n && n < 0xe000

/-- The text of a string, unless it has half of a surrogate pair alone. -/
def joined? (seen : List Char) : List Nat → Option (List Char)
  | [] => some seen.reverse
  | [n] => if isHigh n || isLow n then none else some (Char.ofNat n :: seen).reverse
  | n :: m :: rest =>
    if isHigh n && isLow m then
      joined? (Char.ofNat (0x10000 + 0x400 * (n - 0xd800) + (m - 0xdc00)) :: seen) rest
    else if isHigh n || isLow n then none
    else joined? (Char.ofNat n :: seen) (m :: rest)

def string? (cs : List Char) : Option (Option String × List Char) := do
  let (units, rest) ← units? [] cs
  return ((joined? [] units).map String.ofList, rest)

/-- The token at the front of a text that does not begin with a blank. -/
def first? : List Char → Option (Token × List Char)
  | '[' :: cs => some (openArray, cs)
  | ']' :: cs => some (closeArray, cs)
  | '\x7b' :: cs => some (openObject, cs)
  | '\x7d' :: cs => some (closeObject, cs)
  | ',' :: cs => some (comma, cs)
  | ':' :: cs => some (colon, cs)
  | '"' :: cs => (string? cs).map fun (s, rest) => (string s, rest)
  | 'n' :: 'u' :: 'l' :: 'l' :: cs => some (null, cs)
  | 't' :: 'r' :: 'u' :: 'e' :: cs => some (bool true, cs)
  | 'f' :: 'a' :: 'l' :: 's' :: 'e' :: cs => some (bool false, cs)
  | cs => (number? cs).map fun (n, rest) => (number n, rest)

/-- The tokens of a text with at most `room` characters. -/
def scan? (seen : List Token) : (room : Nat) → List Char → Option (List Token)
  | _, [] => some seen.reverse
  | 0, _ :: _ => none
  | room + 1, c :: cs =>
    if isBlank c then scan? seen room cs
    else
      match first? (c :: cs) with
      | some (t, rest) => scan? (t :: seen) room rest
      | none => none

def ofText? (cs : List Char) : Option (List Token) := scan? [] cs.length cs

def escapeChar (c : Char) : List Char :=
  match c with
  | '"' => ['\\', '"']
  | '\\' => ['\\', '\\']
  | '\x08' => ['\\', 'b']
  | '\x0c' => ['\\', 'f']
  | '\n' => ['\\', 'n']
  | '\r' => ['\\', 'r']
  | '\t' => ['\\', 't']
  | c =>
    if c.toNat < 0x20 then '\\' :: 'u' :: '0' :: '0' :: Hex.encodeByte (UInt8.ofNat c.toNat)
    else [c]

def stringText : Option String → List Char
  | some s => '"' :: s.toList.flatMap escapeChar ++ ['"']
  | none => "\"\\ud800\"".toList

def numberText (n : Number) : List Char :=
  (if n.negative then ['-'] else []) ++ (Nat.repr n.digits).toList ++
    if n.plain then [] else 'e' :: (toString n.scale).toList

def text : Token → List Char
  | openArray => ['[']
  | closeArray => [']']
  | openObject => ['\x7b']
  | closeObject => ['\x7d']
  | comma => [',']
  | colon => [':']
  | null => "null".toList
  | bool true => "true".toList
  | bool false => "false".toList
  | number n => numberText n
  | string s => stringText s

end Token

end Json

end FrozenDefaults
