/-!
# Letters of YAML text

The text is a list of characters that know their place. Line breaks other than
the two Unicode separators are written as a line feed.
-/

namespace FrozenDefaults

namespace Yaml

/-- A place in a text. The index counts octets, the column characters. -/
structure Mark where
  index : Nat
  line : Nat
  column : Nat
  deriving DecidableEq

structure Letter where
  char : Char
  mark : Mark
  deriving DecidableEq

def isBreak (c : Char) : Bool := c == '\n' || c == '\u2028' || c == '\u2029'

def isBlank (c : Char) : Bool := c == ' ' || c == '\t'

def isWordChar (c : Char) : Bool := c.isAlphanum || c == '_' || c == '-'

/-- Whether a character may stand in a text at all. -/
def isAllowed (c : Char) : Bool :=
  c == '\t' || c == '\n' || c == '\r' || (0x20 ≤ c.toNat && c.toNat ≤ 0x7e) || c.toNat == 0x85 ||
    (0xa0 ≤ c.toNat && c.toNat ≤ 0xd7ff) || (0xe000 ≤ c.toNat && c.toNat ≤ 0xfffd) ||
    0x10000 ≤ c.toNat

def Mark.next (m : Mark) (c : Char) : Mark := ⟨m.index + c.utf8Size, m.line, m.column + 1⟩

def Mark.nextLine (m : Mark) (c : Char) : Mark := ⟨m.index + c.utf8Size, m.line + 1, 0⟩

/-- The letters of a text, newest first, and the place behind them. -/
def locate (seen : List Letter) (m : Mark) : List Char → List Letter × Mark
  | [] => (seen, m)
  | '\r' :: '\n' :: cs => locate (⟨'\n', m⟩ :: seen) ((m.next '\r').nextLine '\n') cs
  | c :: cs =>
    if c == '\r' || c == '\u0085' then locate (⟨'\n', m⟩ :: seen) (m.nextLine c) cs
    else if isBreak c then locate (⟨c, m⟩ :: seen) (m.nextLine c) cs
    else locate (⟨c, m⟩ :: seen) (m.next c) cs

/-- The letters of a text, unless it holds a character that may not stand in it. -/
def letters? (s : String) : Option (List Letter × Mark) :=
  if s.toList.all isAllowed then
    let (seen, stop) := locate [] ⟨0, 0, 0⟩ s.toList
    some (seen.reverse, stop)
  else none

/-- Whether the text ends here or goes on with a blank or a break. -/
def atSpace : List Letter → Bool
  | [] => true
  | l :: _ => isBlank l.char || isBreak l.char

def atChar (c : Char) : List Letter → Bool
  | [] => false
  | l :: _ => l.char == c

def atAny (cs : List Char) : List Letter → Bool
  | [] => false
  | l :: _ => cs.contains l.char

/-- Whether a line begins here with three hyphens or three dots that stand alone. -/
def atDocumentMark : List Letter → Bool
  | a :: b :: c :: rest =>
    a.mark.column == 0 && a.char == b.char && b.char == c.char && (a.char == '-' || a.char == '.') &&
      atSpace rest
  | _ => false

def skipBlanks (ls : List Letter) : List Letter := ls.dropWhile (isBlank ·.char)

def skipToBreak (ls : List Letter) : List Letter := ls.dropWhile (!isBreak ·.char)

/-- The text behind the rest of a line, which may hold blanks and a comment only. -/
def endLine? (ls : List Letter) : Option (List Letter) :=
  let ls := skipBlanks ls
  let ls := if atChar '#' ls then skipToBreak ls else ls
  match ls with
  | [] => some []
  | l :: rest => if isBreak l.char then some rest else none

end Yaml

end FrozenDefaults
