import FrozenDefaults.Yaml.Token

/-!
# Indentation

Turns a text into tokens. Indentation opens and closes block collections, and a
key that is not marked as one is known by the colon behind it: its tokens are put
in where it began.
-/

namespace FrozenDefaults

namespace Yaml

/-- A place at which a key may have begun. A required key has to turn out to be one. -/
structure KeyStart where
  position : Nat
  required : Bool
  mark : Mark
  deriving DecidableEq

/-- The tokens so far stand newest first, and the levels innermost first. -/
structure Scan where
  text : List Letter
  stop : Mark
  tokens : List Token
  count : Nat
  flow : Nat
  indent : Int
  outer : List Int
  keys : List (Option KeyStart)
  keyAllowed : Bool

namespace Scan

def start (text : List Letter) (stop : Mark) : Scan :=
  ⟨text, stop, [], 0, 0, -1, [], [none], true⟩

variable (s : Scan)

def mark : Mark :=
  match s.text with
  | [] => s.stop
  | l :: _ => l.mark

def inFlow : Bool := s.flow != 0

def push (t : Token) : Scan := { s with tokens := t :: s.tokens, count := s.count + 1 }

/-- Puts a token in at an earlier position. -/
def insert (position : Nat) (t : Token) : Scan :=
  let behind := s.count - position
  { s with
    tokens := s.tokens.take behind ++ t :: s.tokens.drop behind
    count := s.count + 1 }

def skip (n : Nat) : Scan := { s with text := s.text.drop n }

def allowKey (allowed : Bool) : Scan := { s with keyAllowed := allowed }

def isStale (k : KeyStart) : Bool :=
  k.mark.line < s.mark.line || k.mark.index + 1024 < s.mark.index

/-- Gives up the keys that cannot be keys any more: a key lies on one line and is short. -/
def dropStaleKeys? : Option Scan := do
  let keys ← s.keys.mapM fun
    | some k => if s.isStale k then (if k.required then none else some none) else some (some k)
    | none => some none
  return { s with keys }

/-- Gives up the possible key of the innermost level. -/
def dropKey? : Option Scan :=
  match s.keys with
  | some k :: keys => if k.required then none else some { s with keys := none :: keys }
  | _ => some s

/-- Remembers that a key may begin here. -/
def saveKey? : Option Scan :=
  if s.keyAllowed then do
    let required := !s.inFlow && s.indent == s.mark.column
    let k : KeyStart := ⟨s.count, required, s.mark⟩
    let s ← s.dropKey?
    return { s with keys := some k :: s.keys.drop 1 }
  else some s

/-- Opens a block collection at a column that lies deeper than the ones that are open. -/
def openBlock (column : Nat) (position : Option Nat) (t : Token) : Scan :=
  if !s.inFlow && s.indent < column then
    let s := { s with indent := column, outer := s.indent :: s.outer }
    match position with
    | some p => s.insert p t
    | none => s.push t
  else s

def closeBlocksFrom (column : Int) (s : Scan) : List Int → Scan
  | [] => s
  | i :: rest =>
    if column < s.indent then
      closeBlocksFrom column { s.push .blockEnd with indent := i, outer := rest } rest
    else s

/-- Closes the block collections that lie deeper than a column. -/
def closeBlocks (column : Int) : Scan :=
  if s.inFlow then s else closeBlocksFrom column s s.outer

/-- Skips blanks, comments and breaks in front of the next token. A tab is no indentation. A byte
order mark at the beginning of a line is skipped too, but takes a column. -/
def skipFiller (inFlow inComment keyAllowed : Bool) : List Letter → List Letter × Bool
  | [] => ([], keyAllowed)
  | l :: rest =>
    if isBreak l.char then skipFiller inFlow false (keyAllowed || !inFlow) rest
    else if inComment || l.char == '#' then skipFiller inFlow true keyAllowed rest
    else if l.char == ' ' || (l.char == '\t' && (inFlow || !keyAllowed)) ||
        (l.char == '\ufeff' && l.mark.column == 0) then
      skipFiller inFlow false keyAllowed rest
    else (l :: rest, keyAllowed)

def toNextToken : Scan :=
  let (text, keyAllowed) := skipFiller s.inFlow false s.keyAllowed s.text
  { s with text, keyAllowed }

def finish? : Option Scan := do
  let s ← (s.closeBlocks (-1)).dropKey?
  return s.allowKey false

def directive? : Option Scan := do
  let s ← s.finish?
  let (t, text) ← Yaml.directive? (s.text.drop 1)
  return { s.push t with text }

def documentMark? (t : Token) : Option Scan := do
  let s ← s.finish?
  return (s.push t).skip 3

def openFlow? (t : Token) : Option Scan := do
  let s ← s.saveKey?
  return (({ s with keys := none :: s.keys, flow := s.flow + 1 }.allowKey true).push t).skip 1

def closeFlow? (t : Token) : Option Scan := do
  let s ← s.dropKey?
  let s := if s.inFlow then { s with keys := s.keys.drop 1, flow := s.flow - 1 } else s
  return ((s.allowKey false).push t).skip 1

def flowEntry? : Option Scan := do
  let s ← s.dropKey?
  return ((s.allowKey true).push .flowEntry).skip 1

/-- Opens a block collection for an indicator, where one may stand. -/
def openAt? (t : Token) : Option Scan :=
  if s.inFlow then some s
  else if s.keyAllowed then some (s.openBlock s.mark.column none t)
  else none

def blockEntry? : Option Scan := do
  let s ← (← s.openAt? .blockSequence).dropKey?
  return ((s.allowKey true).push .blockEntry).skip 1

def key? : Option Scan := do
  let s ← (← s.openAt? .blockMapping).dropKey?
  return ((s.allowKey (!s.inFlow)).push .key).skip 1

def value? : Option Scan := do
  match s.keys with
  | some k :: keys =>
    let s := (s.insert k.position .key).openBlock k.mark.column (some k.position) .blockMapping
    return (({ s with keys := none :: keys }.allowKey false).push .value).skip 1
  | _ =>
    let s ← s.openAt? .blockMapping
    return ((s.allowKey (!s.inFlow)).push .value).skip 1

def anchor? (token : String → Token) : Option Scan := do
  let s ← s.saveKey?
  let (name, text) ← anchorName? (s.text.drop 1)
  return { (s.allowKey false).push (token name) with text }

def tag? : Option Scan := do
  let s ← s.saveKey?
  let (t, text) ← Yaml.tag? s.inFlow s.text
  return { (s.allowKey false).push t with text }

def blockScalar? (style : Style) : Option Scan := do
  let s ← s.dropKey?
  let (value, text) ← Yaml.blockScalar? (style == .folded) s.indent (s.text.drop 1)
  return { (s.allowKey true).push (.scalar value style) with text }

def quoted? (style : Style) : Option Scan := do
  let s ← s.saveKey?
  let (value, text) ← Yaml.quoted? (style == .doubleQuoted) .text .empty (s.text.drop 1)
  return { (s.allowKey false).push (.scalar value style) with text }

def plain? : Option Scan := do
  let s ← s.saveKey?
  let (f, text) ← Yaml.plain? s.inFlow (s.indent + 1) false .empty s.text
  return { (s.allowKey f.firstBreak.isSome).push (.scalar f.result .plain) with text }

def indicators : List Char :=
  ['-', '?', ':', ',', '[', ']', '\x7b', '\x7d', '#', '&', '*', '!', '|', '>', '\'', '"', '%', '@',
    '\x60']

/-- Whether a plain scalar may begin here. It never begins with a tab. -/
def beginsPlain (c : Char) (rest : List Letter) : Bool :=
  (!isBlank c && !indicators.contains c) ||
    (c == '-' && !(rest.head?.any (isBlank ·.char))) ||
    (!s.inFlow && (c == '?' || c == ':') && !atSpace rest)

/-- Reads the token that begins with `c`. -/
def token? (c : Char) (rest : List Letter) : Option Scan :=
  if s.mark.column == 0 && c == '%' then s.directive?
  else if atDocumentMark s.text then
    s.documentMark? (if c == '-' then .documentStart else .documentEnd)
  else if c == '[' then s.openFlow? .openSequence
  else if c == '\x7b' then s.openFlow? .openMapping
  else if c == ']' then s.closeFlow? .closeSequence
  else if c == '\x7d' then s.closeFlow? .closeMapping
  else if c == ',' then s.flowEntry?
  else if c == '-' && atSpace rest then s.blockEntry?
  else if c == '?' && (s.inFlow || atSpace rest) then s.key?
  else if c == ':' && (s.inFlow || atSpace rest) then s.value?
  else if c == '*' then s.anchor? .alias
  else if c == '&' then s.anchor? .anchor
  else if c == '!' then s.tag?
  else if c == '|' && !s.inFlow then s.blockScalar? .literal
  else if c == '>' && !s.inFlow then s.blockScalar? .folded
  else if c == '\'' then s.quoted? .singleQuoted
  else if c == '"' then s.quoted? .doubleQuoted
  else if s.beginsPlain c rest then s.plain?
  else none

/-- Reads tokens to the end of a text of fewer than `room` letters. -/
def run? : (room : Nat) → Scan → Option (List Token)
  | 0, _ => none
  | room + 1, s => do
    let s ← s.toNextToken.dropStaleKeys?
    let s := s.closeBlocks s.mark.column
    match s.text with
    | [] => return (← s.finish?).tokens.reverse
    | l :: rest => run? room (← s.token? l.char rest)

end Scan

def Token.ofText? (s : String) : Option (List Token) := do
  let (text, stop) ← letters? s
  Scan.run? (text.length + 1) (.start text stop)

end Yaml

end FrozenDefaults
