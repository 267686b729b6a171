import FrozenDefaults.Settings

/-!
# Arguments

What the words of a command line ask for. A word that is not understood, a repeated
option and a value of the wrong form end the reading at once.
-/

namespace FrozenDefaults.Command

inductive Verb where
  | generate
  | check
  deriving DecidableEq

/-- What may be chosen on the command line. -/
inductive Choice where
  | file
  | output
  | wrapWidth
  | runtimePath
  | initialCapacity
  | verbose
  | help
  deriving DecidableEq

inductive Request where
  | generate (file : String) (output : Option String) (overrides : Preferences) (verbose : Bool)
  | check (file : String) (verbose : Bool)
  deriving DecidableEq

/-- Why there is nothing to run. Help is about one command or about all. -/
inductive Halt where
  | help (verb : Option Verb)
  | misuse
  deriving DecidableEq

namespace Verb

def name : Verb → String
  | generate => "generate"
  | check => "check"

def all : List Verb := [generate, check]

def ofName? (s : String) : Option Verb := all.find? (·.name == s)

def choices : Verb → List Choice
  | generate => [.file, .output, .wrapWidth, .runtimePath, .initialCapacity, .verbose, .help]
  | check => [.file, .verbose, .help]

end Verb

/-- Reads a number of at most 64 bits in decimal digits, which a plus sign may lead. -/
def quantity? (text : List Char) : Option Nat :=
  let digits := match text with
    | '+' :: cs => cs
    | cs => cs
  if digits.isEmpty || !digits.all Char.isDigit then none
  else
    let n := digits.foldl (fun n c => 10 * n + (c.toNat - '0'.toNat)) 0
    if n < UInt64.size then some n else none

namespace Choice

def name : Choice → String
  | file => "file"
  | output => "output"
  | wrapWidth => "wrap-width"
  | runtimePath => "runtime-path"
  | initialCapacity => "initial-capacity"
  | verbose => "verbose"
  | help => "help"

def letter? : Choice → Option Char
  | file => some 'f'
  | output => some 'o'
  | verbose => some 'v'
  | help => some 'h'
  | _ => none

/-- What stands for the value in a usage text; nothing for a choice without a value. -/
def valueName? : Choice → Option String
  | file | output => some "FILE"
  | wrapWidth => some "CHARS"
  | runtimePath => some "PATH"
  | initialCapacity => some "BYTES"
  | verbose | help => none

def takesValue (c : Choice) : Bool := c.valueName?.isSome

def accepts (c : Choice) (value : List Char) : Bool :=
  match c with
  | file | output => !value.isEmpty
  | wrapWidth | initialCapacity => (quantity? value).isSome
  | runtimePath => true
  | verbose | help => value.isEmpty

end Choice

/-- The choices made so far, with their values. No choice is made twice. -/
abbrev Choices := List (Choice × List Char)

namespace Choices

variable (v : Verb)

def add (cs : Choices) (c : Choice) (value : List Char) : Except Halt Choices :=
  if c == .help then .error (.help v)
  else if (cs.lookup c).isNone && c.accepts value then .ok ((c, value) :: cs)
  else .error .misuse

/-- Reads letters that follow one dash. A value may close them, with or without an equals
sign; a letter that still lacks its value is given back. -/
def addLetters (cs : Choices) : List Char → Except Halt (Choices × Option Choice)
  | [] => .ok (cs, none)
  | l :: ls =>
    match v.choices.find? (·.letter? == some l) with
    | none => .error .misuse
    | some c =>
      if !c.takesValue then do addLetters (← cs.add v c []) ls
      else
        match ls with
        | [] => .ok (cs, some c)
        | '=' :: value => do return (← cs.add v c value, none)
        | value => do return (← cs.add v c value, none)

/-- Reads a name that follows two dashes, and the value behind an equals sign. -/
def addName (cs : Choices) (word : List Char) : Except Halt (Choices × Option Choice) :=
  let (name, rest) := word.span (· != '=')
  match v.choices.find? (·.name.toList == name), rest with
  | none, _ => .error .misuse
  | some c, [] =>
    if c.takesValue then .ok (cs, some c)
    else do return (← cs.add v c [], none)
  | some c, _ :: value =>
    if c.takesValue then do return (← cs.add v c value, none)
    else .error .misuse

/-- Whether a word can be the value of the word before it. -/
def isValue : List Char → Bool
  | ['-'] => true
  | '-' :: _ => false
  | _ => true

def addWord (cs : Choices) : List Char → Except Halt (Choices × Option Choice)
  | '-' :: '-' :: name => cs.addName v name
  | '-' :: l :: ls => cs.addLetters v (l :: ls)
  | _ => .error .misuse

/-- Reads the words behind the command, where a choice may be open that lacks its value.
Two dashes alone may only come last. -/
def read (cs : Choices) : Option Choice → List (List Char) → Except Halt Choices
  | none, [] => .ok cs
  | none, [['-', '-']] => .ok cs
  | none, word :: words => do
    let (cs, open?) ← cs.addWord v word
    read cs open? words
  | some _, [] => .error .misuse
  | some c, value :: words =>
    if isValue value then do read (← cs.add v c value) none words else .error .misuse

def text? (cs : Choices) (c : Choice) : Option String := (cs.lookup c).map String.ofList

def quantity? (cs : Choices) (c : Choice) : Option Nat := cs.lookup c >>= Command.quantity?

def overrides (cs : Choices) : Preferences where
  wrapWidth := cs.quantity? .wrapWidth
  runtimePath := cs.text? .runtimePath
  initialCapacity := cs.quantity? .initialCapacity
  nestingLimit := none

def request (cs : Choices) : Except Halt Request :=
  let verbose := (cs.lookup .verbose).isSome
  match cs.text? .file, v with
  | none, _ => .error .misuse
  | some file, .generate => .ok (.generate file (cs.text? .output) cs.overrides verbose)
  | some file, .check => .ok (.check file verbose)

end Choices

namespace Request

/-- Reads what follows the word that asks for help. -/
def helpOn : List String → Halt
  | [] | ["help"] => .help none
  | [name] =>
    match Verb.ofName? name with
    | some v => .help v
    | none => .misuse
  | _ => .misuse

def ofArguments : List String → Except Halt Request
  | [] => .error .misuse
  | word :: words =>
    match Verb.ofName? word with
    | some v => do
      let cs ← Choices.read v [] none (words.map String.toList)
      cs.request v
    | none =>
      if word == "help" then .error (helpOn words)
      else if word == "--help" || "-h".isPrefixOf word then .error (.help none)
      else .error .misuse

end Request

end FrozenDefaults.Command
