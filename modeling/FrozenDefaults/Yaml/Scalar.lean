import FrozenDefaults.Text.Hex
import FrozenDefaults.Yaml.Letter

/-!
# Scalars of YAML text

The text of plain, quoted and block scalars, with their line breaks folded.
-/

namespace FrozenDefaults

namespace Yaml

inductive Style where
  | plain
  | singleQuoted
  | doubleQuoted
  | literal
  | folded
  deriving DecidableEq

/-- A scalar in the making, newest characters first: its text, and what stands between that and
the next character of text. The first break may have been escaped. -/
structure Folding where
  text : List Char
  blanks : List Char
  firstBreak : Option (Option Char)
  moreBreaks : List Char

namespace Folding

def empty : Folding := ⟨[], [], none, []⟩

variable (f : Folding)

/-- Blanks count only on the line of the text before them. -/
def addBlank (c : Char) : Folding :=
  if f.firstBreak.isSome then f else { f with blanks := c :: f.blanks }

def addBreak (c : Char) : Folding :=
  match f.firstBreak with
  | none => { f with blanks := [], firstBreak := some (some c) }
  | some _ => { f with moreBreaks := c :: f.moreBreaks }

def addEscapedBreak : Folding := { f with firstBreak := some none }

/-- What is between two characters: blanks as they are, one line feed as a space, and of several
breaks all but a leading line feed. -/
def between : List Char :=
  match f.firstBreak with
  | none => f.blanks
  | some none => f.moreBreaks
  | some (some '\n') => if f.moreBreaks.isEmpty then [' '] else f.moreBreaks
  | some (some c) => f.moreBreaks ++ [c]

def join : Folding := { empty with text := f.between ++ f.text }

def addChar (c : Char) : Folding := { f.join with text := c :: f.join.text }

def result : String := String.ofList f.text.reverse

end Folding

/-- Reads a plain scalar. It ends where an indicator, a comment or a line of lesser indentation
begins. -/
def plain? (inFlow : Bool) (indent : Int) (fresh : Bool) (f : Folding) :
    List Letter → Option (Folding × List Letter)
  | [] => some (f, [])
  | l :: rest =>
    if isBlank l.char then
      if f.firstBreak.isSome && l.mark.column < indent && l.char == '\t' then none
      else plain? inFlow indent true (f.addBlank l.char) rest
    else if isBreak l.char then plain? inFlow indent true (f.addBreak l.char) rest
    else if fresh && ((!inFlow && l.mark.column < indent) || atDocumentMark (l :: rest) ||
        l.char == '#') then
      some (f, l :: rest)
    else if inFlow && l.char == ':' && atAny [',', '?', '[', ']', '\x7b', '\x7d'] rest then none
    else if (l.char == ':' && atSpace rest) ||
        (inFlow && [',', '[', ']', '\x7b', '\x7d'].contains l.char) then
      some (f, l :: rest)
    else plain? inFlow indent false (f.addChar l.char) rest

inductive Escape where
  | char (c : Char)
  | code (digits : Nat)

def escape? : Char → Option Escape
  | '0' => some (.char '\x00')
  | 'a' => some (.char '\x07')
  | 'b' => some (.char '\x08')
  | 't' => some (.char '\t')
  | '\t' => some (.char '\t')
  | 'n' => some (.char '\n')
  | 'v' => some (.char '\x0b')
  | 'f' => some (.char '\x0c')
  | 'r' => some (.char '\r')
  | 'e' => some (.char '\x1b')
  | ' ' => some (.char ' ')
  | '"' => some (.char '"')
  | '/' => some (.char '/')
  | '\\' => some (.char '\\')
  | 'N' => some (.char '\u0085')
  | '_' => some (.char '\u00a0')
  | 'L' => some (.char '\u2028')
  | 'P' => some (.char '\u2029')
  | 'x' => some (.code 2)
  | 'u' => some (.code 4)
  | 'U' => some (.code 8)
  | _ => none

/-- What the next character of a quoted scalar is. -/
inductive Quoting where
  | text
  | secondQuote
  | escape
  | code (left value : Nat)

def quoted? (double : Bool) (mode : Quoting) (f : Folding) :
    List Letter → Option (String × List Letter)
  | [] => none
  | l :: rest =>
    match mode with
    | .secondQuote => quoted? double .text (f.addChar l.char) rest
    | .escape =>
      if isBreak l.char then quoted? double .text f.addEscapedBreak rest
      else
        match escape? l.char with
        | some (.char c) => quoted? double .text (f.addChar c) rest
        | some (.code n) => quoted? double (.code n 0) f rest
        | none => none
    | .code left value =>
      match Hex.value? l.char with
      | none => none
      | some d =>
        let value := 16 * value + d
        if 1 < left then quoted? double (.code (left - 1) value) f rest
        else if value.isValidChar then quoted? double .text (f.addChar (Char.ofNat value)) rest
        else none
    | .text =>
      if isBlank l.char then quoted? double .text (f.addBlank l.char) rest
      else if isBreak l.char then quoted? double .text (f.addBreak l.char) rest
      else if atDocumentMark (l :: rest) then none
      else if double && l.char == '\\' then quoted? double .escape f.join rest
      else if !double && l.char == '\'' && atChar '\'' rest then quoted? double .secondQuote f rest
      else if l.char == (if double then '"' else '\'') then some (f.join.result, rest)
      else quoted? double .text (f.addChar l.char) rest

/-- What becomes of the line breaks at the end of a block scalar. -/
inductive Chomping where
  | strip
  | clip
  | keep
  deriving DecidableEq

def chomping? : List Letter → Option (Chomping × List Letter)
  | [] => none
  | l :: rest =>
    if l.char == '+' then some (.keep, rest)
    else if l.char == '-' then some (.strip, rest)
    else none

/-- An indentation indicator; zero is none. -/
def increment? : List Letter → Option (Option Nat × List Letter)
  | [] => some (none, [])
  | l :: rest =>
    if l.char == '0' then none
    else if l.char.isDigit then some (some (l.char.toNat - '0'.toNat), rest)
    else some (none, l :: rest)

/-- The indicators behind the mark of a block scalar, in either order. -/
def blockHeader? (ls : List Letter) : Option (Chomping × Option Nat × List Letter) :=
  match chomping? ls with
  | some (chomping, rest) => do
    let (increment, rest) ← increment? rest
    return (chomping, increment, ← endLine? rest)
  | none => do
    let (increment, rest) ← increment? ls
    match if increment.isSome then chomping? rest else none with
    | some (chomping, rest) => return (chomping, increment, ← endLine? rest)
    | none => return (.clip, increment, ← endLine? rest)

/-- A block scalar in the making, newest characters first. -/
structure Block where
  text : List Char
  lineBreak : Option Char
  emptyLines : List Char
  afterBlank : Bool

namespace Block

def empty : Block := ⟨[], none, [], false⟩

variable (b : Block)

/-- Begins a line. A folded line feed between two lines that do not begin with a blank is a space,
or nothing if empty lines follow it. -/
def beginLine (fold blank : Bool) : Block :=
  let brk :=
    if fold && b.lineBreak == some '\n' && !b.afterBlank && !blank then
      if b.emptyLines.isEmpty then [' '] else []
    else b.lineBreak.toList
  ⟨b.emptyLines ++ brk ++ b.text, none, [], blank⟩

def result (chomping : Chomping) : String :=
  let kept := match chomping with
    | .strip => b.text
    | .clip => b.lineBreak.toList ++ b.text
    | .keep => b.emptyLines ++ b.lineBreak.toList ++ b.text
  String.ofList kept.reverse

end Block

/-- Reads the lines of a block scalar. Their indentation is `width`, or for zero that of the first
line that is not empty, but at least `least`. -/
def block? (fold : Bool) (least : Nat) (inLine : Bool) (width widest : Nat) (b : Block) :
    List Letter → Option (Block × List Letter)
  | [] => some (b, [])
  | l :: rest =>
    let column := l.mark.column
    let short := width == 0 || column < width
    if inLine then
      if isBreak l.char then block? fold least false width 0 { b with lineBreak := some l.char } rest
      else block? fold least true width 0 { b with text := l.char :: b.text } rest
    else if short && l.char == ' ' then block? fold least false width widest b rest
    else if short && l.char == '\t' then none
    else if isBreak l.char then
      block? fold least false width (max widest column)
        { b with emptyLines := l.char :: b.emptyLines } rest
    else
      let width := if width == 0 then max (max widest column) least else width
      if column == width then
        let b := b.beginLine fold (isBlank l.char)
        block? fold least true width 0 { b with text := l.char :: b.text } rest
      else some (b, l :: rest)

def blockScalar? (fold : Bool) (indent : Int) (ls : List Letter) :
    Option (String × List Letter) := do
  let (chomping, increment, rest) ← blockHeader? ls
  let width := match increment with
    | some n => (max indent 0).toNat + n
    | none => 0
  let (b, rest) ← block? fold (max (indent + 1) 1).toNat false width 0 .empty rest
  return (b.result chomping, rest)

end Yaml

end FrozenDefaults
