import FrozenDefaults.Text.Hex
import FrozenDefaults.Yaml.Letter

/-!
# Tags of YAML text

A tag is a run of octets that need not be text: a URI may write any octets, as
long as they look like characters. A zero octet ends what it is written in.
-/

namespace FrozenDefaults

namespace Yaml

structure Tag where
  octets : List UInt8
  deriving DecidableEq

namespace Tag

def ofText (s : String) : Tag := ⟨s.toList.flatMap String.utf8EncodeChar⟩

/-- The octets in front of a zero. -/
def ofOctets (octets : List UInt8) : Tag := ⟨octets.takeWhile (· != 0)⟩

/-- What a handle stands for, with a suffix behind it. -/
def extend (expansion suffix : Tag) : Tag := ⟨expansion.octets ++ suffix.octets⟩

def core (name : String) : Tag := ofText ("tag:yaml.org,2002:" ++ name)

/-- Whether the tag begins with an exclamation mark. -/
def isMarked (t : Tag) : Bool := t.octets.head? == some '!'.toUInt8

/-- Whether the tag is one of an application, which has text behind its mark. -/
def isLocal (t : Tag) : Bool :=
  t.isMarked && (String.fromUTF8? (t.octets.drop 1).toByteArray).isSome

end Tag

def isUriChar (verbatim : Bool) (c : Char) : Bool :=
  isWordChar c ||
    [';', '/', '?', ':', '@', '&', '=', '+', '$', '.', '!', '~', '*', '\'', '(', ')'].contains c ||
    (verbatim && [',', '[', ']'].contains c)

/-- What the next character of a URI is. Of an escaped character some octets are still to come. -/
inductive UriMode where
  | text
  | percent (octets : Nat)
  | high (octets : Nat)
  | low (octets high : Nat)

/-- How many octets follow the first octet of a character. -/
def octetsBehind? (octet : Nat) : Option Nat :=
  if octet < 0x80 then some 0
  else if octet / 0x20 == 6 then some 1
  else if octet / 0x10 == 14 then some 2
  else if octet / 0x08 == 30 then some 3
  else none

/-- Reads the octets of a URI. Zero octets to come stand for the first octet of a character. -/
def uri? (verbatim : Bool) (mode : UriMode) (seen : List UInt8) :
    List Letter → Option (List UInt8 × List Letter)
  | [] =>
    match mode with
    | .text => some (seen.reverse, [])
    | _ => none
  | l :: rest =>
    match mode with
    | .text =>
      if l.char == '%' then uri? verbatim (.high 0) seen rest
      else if isUriChar verbatim l.char then uri? verbatim .text (l.char.toUInt8 :: seen) rest
      else some (seen.reverse, l :: rest)
    | .percent octets => if l.char == '%' then uri? verbatim (.high octets) seen rest else none
    | .high octets =>
      match Hex.value? l.char with
      | some h => uri? verbatim (.low octets h) seen rest
      | none => none
    | .low octets high =>
      match Hex.value? l.char with
      | none => none
      | some low =>
        let octet := 16 * high + low
        let seen := UInt8.ofNat octet :: seen
        if octets == 0 then
          match octetsBehind? octet with
          | none => none
          | some 0 => uri? verbatim .text seen rest
          | some n => uri? verbatim (.percent n) seen rest
        else if octet / 0x40 != 2 then none
        else if octets == 1 then uri? verbatim .text seen rest
        else uri? verbatim (.percent (octets - 1)) seen rest

end Yaml

end FrozenDefaults
