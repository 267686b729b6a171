import FrozenDefaults.Yaml.Scalar
import FrozenDefaults.Yaml.Tag

/-!
# Tokens of YAML text

The tokens, and how anchors, tags and directives are read.
-/

namespace FrozenDefaults

namespace Yaml

inductive Token where
  | version (major minor : Nat)
  | tagHandle (handle : String) (expansion : Tag)
  | documentStart
  | documentEnd
  | blockSequence
  | blockMapping
  | blockEnd
  | openSequence
  | closeSequence
  | openMapping
  | closeMapping
  | blockEntry
  | flowEntry
  | key
  | value
  | alias (name : String)
  | anchor (name : String)
  | tag (handle : String) (suffix : Tag)
  | scalar (text : String) (style : Style)
  deriving DecidableEq

def chars (ls : List Letter) : List Char := ls.map (·.char)

def spanWord (ls : List Letter) : List Char × List Letter :=
  let (word, rest) := ls.span (isWordChar ·.char)
  (chars word, rest)

/-- A name behind the mark of an anchor or an alias. -/
def anchorName? (ls : List Letter) : Option (String × List Letter) :=
  match spanWord ls with
  | ([], _) => none
  | (name, rest) =>
    if atSpace rest || atAny ['?', ':', ',', ']', '\x7d', '%', '@', '\x60'] rest then
      some (String.ofList name, rest)
    else none

/-- An exclamation mark, a word and, if it is there, a second exclamation mark. -/
def handle? : List Letter → Option (List Char × Bool × List Letter)
  | [] => none
  | l :: rest =>
    if l.char == '!' then
      let (word, rest) := spanWord rest
      if atChar '!' rest then some (word, true, rest.drop 1) else some (word, false, rest)
    else none

/-- A handle with a suffix. An exclamation mark alone is a tag without a handle. -/
def shorthand? (ls : List Letter) : Option (Token × List Letter) := do
  let (word, closed, rest) ← handle? ls
  let (suffix, rest) ← uri? false .text [] rest
  if closed then
    if suffix.isEmpty then none
    else some (.tag (String.ofList ('!' :: word ++ ['!'])) (.ofOctets suffix), rest)
  else
    let suffix := Tag.ofOctets (word.map Char.toUInt8 ++ suffix)
    if suffix.octets.isEmpty then some (.tag "" (.ofText "!"), rest)
    else some (.tag "!" suffix, rest)

def verbatim? (ls : List Letter) : Option (Token × List Letter) := do
  let (uri, rest) ← uri? true .text [] ls
  if uri.isEmpty || !atChar '>' rest then none
  else some (.tag "" (.ofOctets uri), rest.drop 1)

/-- A tag: verbatim between angle brackets, or a handle with a suffix. -/
def tag? (inFlow : Bool) (ls : List Letter) : Option (Token × List Letter) := do
  let (tag, rest) ← if atChar '<' (ls.drop 1) then verbatim? (ls.drop 2) else shorthand? ls
  if atSpace rest || (inFlow && atChar ',' rest) then some (tag, rest) else none

def versionNumber? (ls : List Letter) : Option (Nat × List Letter) :=
  let (digits, rest) := ls.span (·.char.isDigit)
  if digits.isEmpty || 9 < digits.length then none
  else some ((chars digits).foldl (fun n c => 10 * n + (c.toNat - '0'.toNat)) 0, rest)

def version? (ls : List Letter) : Option (Token × List Letter) := do
  let (major, rest) ← versionNumber? (skipBlanks ls)
  if atChar '.' rest then
    let (minor, rest) ← versionNumber? (rest.drop 1)
    some (.version major minor, rest)
  else none

def tagHandle? (ls : List Letter) : Option (Token × List Letter) := do
  let (word, closed, rest) ← handle? (skipBlanks ls)
  if !closed && !word.isEmpty then none
  else
    let handle := '!' :: word ++ if closed then ['!'] else []
    if !rest.isEmpty && atSpace rest && !(rest.head?.any (isBreak ·.char)) then
      let (expansion, rest) ← uri? true .text [] (skipBlanks rest)
      if expansion.isEmpty || !atSpace rest then none
      else some (.tagHandle (String.ofList handle) (.ofOctets expansion), rest)
    else none

/-- A directive behind its percent sign, with the rest of its line. -/
def directive? (ls : List Letter) : Option (Token × List Letter) := do
  let (name, rest) := spanWord ls
  if !atSpace rest then none
  else
    let (token, rest) ← match String.ofList name with
      | "YAML" => version? rest
      | "TAG" => tagHandle? rest
      | _ => none
    return (token, ← endLine? rest)

end Yaml

end FrozenDefaults
