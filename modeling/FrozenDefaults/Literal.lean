import FrozenDefaults.Fault
import FrozenDefaults.Text.Blank
import FrozenDefaults.Text.Hex

/-!
# Byte string literals

Every byte is written as an escape of four characters, `\xHH`. A literal is
broken into lines of whole escapes; a backslash at the end of a line continues
it on the next, whose leading blanks do not count.
-/

namespace FrozenDefaults

namespace Literal

def escapeLength : Nat := 4

def escape (b : UInt8) : List Char := '\\' :: 'x' :: Hex.encodeByte b

def encode (bs : List UInt8) : List Char := bs.flatMap escape

def decode? : List Char → Option (List UInt8)
  | [] => some []
  | '\\' :: 'x' :: high :: low :: rest => do
    let h ← Hex.value? high
    let l ← Hex.value? low
    return Hex.byteOf h l :: (← decode? rest)
  | _ => none

/-- The escapes in a full line: as many as reach the width. -/
def perLine (width : Nat) : Nat := (width + (escapeLength - 1)) / escapeLength

/-- Parts of `n` bytes each and a last one that may be shorter. -/
def parts (n : Nat) (bs : List UInt8) : List (List UInt8) :=
  if n = 0 ∨ bs.drop n = [] then [bs] else bs.take n :: parts n (bs.drop n)
termination_by bs.length
decreasing_by
  have : bs.drop n ≠ [] := by simp_all
  have : n < bs.length := by simpa using this
  simp only [List.length_drop]; omega

def opening : List Char := ['b', '"']

def closing : List Char := ['"', ',']

def continuation : List Char := ['\\']

def continued : List (List UInt8) → List (List Char)
  | [] => []
  | [part] => [encode part ++ closing]
  | part :: rest => (encode part ++ continuation) :: continued rest

/-- The lines of a literal: the first opens it, the last closes it. -/
def lines (width : Nat) (bs : List UInt8) : List (List Char) :=
  match continued (parts (perLine width) bs) with
  | [] => []
  | first :: rest => (opening ++ first) :: rest

def wrap (width : Nat) (bs : List UInt8) : Except Fault (List (List Char)) :=
  if width = 0 then .error (.breach .zeroWrap) else .ok (lines width bs)

def stripFront (mark cs : List Char) : List Char :=
  if mark.isPrefixOf cs then cs.drop mark.length else cs

def stripBack (mark cs : List Char) : List Char :=
  if mark.isSuffixOf cs then cs.take (cs.length - mark.length) else cs

def joined : List (List Char) → List Char
  | [] => []
  | [line] => stripBack closing line
  | line :: rest => stripBack continuation line ++ joined rest

/-- The escapes between the marks of a literal's lines, whatever the indentation. -/
def content (lines : List (List Char)) : List Char :=
  match lines.map Text.trimStart with
  | [] => []
  | first :: rest => joined (stripFront opening first :: rest)

end Literal

end FrozenDefaults
