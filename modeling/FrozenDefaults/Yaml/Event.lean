import FrozenDefaults.Yaml.Indentation

/-!
# Events of YAML text

The one document of a text as a list of events: scalars, aliases, and the
beginnings and ends of collections. Tags are written out in full.
-/

namespace FrozenDefaults

namespace Yaml

/-- What may stand in front of a node. -/
structure Properties where
  anchor : Option String
  tag : Option Tag
  deriving DecidableEq

inductive Event where
  | alias (name : String)
  | scalar (props : Properties) (text : String) (style : Style)
  | openSequence (props : Properties)
  | closeSequence
  | openMapping (props : Properties)
  | closeMapping
  deriving DecidableEq

/-- What is expected next inside a collection that is open, or at the end of the document. -/
inductive Expect where
  | documentEnd
  | blockEntry
  | plainEntry
  | blockKey
  | blockValue
  | flowEntry (first : Bool)
  | pairKey
  | pairValue
  | pairEnd
  | flowKey (first : Bool)
  | flowValue
  | flowNoValue
  deriving DecidableEq

structure Reader where
  tokens : List Token
  expected : List Expect
  events : List Event
  handles : List (String × Tag)

namespace Reader

variable (r : Reader)

def emit (e : Event) : Reader := { r with events := e :: r.events }

def expect (e : Expect) : Reader := { r with expected := e :: r.expected }

def skip : Reader := { r with tokens := r.tokens.drop 1 }

def empty : Reader := r.emit (.scalar ⟨none, none⟩ "" .plain)

/-- A tag in full. A handle has to be known. -/
def fullTag? (handle : String) (suffix : Tag) : Option Tag :=
  if handle.isEmpty then some suffix
  else (r.handles.lookup handle).map (·.extend suffix)

def takeAnchor : Reader × Option String :=
  match r.tokens with
  | .anchor name :: rest => ({ r with tokens := rest }, some name)
  | _ => (r, none)

def takeTag? : Option (Reader × Option Tag) :=
  match r.tokens with
  | .tag handle suffix :: rest => do
    return ({ r with tokens := rest }, some (← r.fullTag? handle suffix))
  | _ => some (r, none)

/-- The properties of a node, in either order. -/
def takeProperties? : Option (Reader × Properties) := do
  match r.tokens with
  | .tag _ _ :: _ =>
    let (r, tag) ← r.takeTag?
    let (r, anchor) := r.takeAnchor
    return (r, ⟨anchor, tag⟩)
  | _ =>
    let (r, anchor) := r.takeAnchor
    let (r, tag) ← r.takeTag?
    return (r, ⟨anchor, tag⟩)

/-- Reads a node, or its beginning. In a block mapping the entries of a sequence may stand at the
column of the key. -/
def node? (inBlock entries : Bool) : Option Reader :=
  match r.tokens with
  | .alias name :: _ => some (r.skip.emit (.alias name))
  | _ => do
    let (r, props) ← r.takeProperties?
    match r.tokens with
    | .scalar text style :: _ => return r.skip.emit (.scalar props text style)
    | .openSequence :: _ => return (r.skip.emit (.openSequence props)).expect (.flowEntry true)
    | .openMapping :: _ => return (r.skip.emit (.openMapping props)).expect (.flowKey true)
    | t :: _ =>
      if entries && t == .blockEntry then
        return (r.emit (.openSequence props)).expect .plainEntry
      else if inBlock && t == .blockSequence then
        return (r.skip.emit (.openSequence props)).expect .blockEntry
      else if inBlock && t == .blockMapping then
        return (r.skip.emit (.openMapping props)).expect .blockKey
      else if props == ⟨none, none⟩ then none
      else return r.emit (.scalar props "" .plain)
    | [] => if props == ⟨none, none⟩ then none else return r.emit (.scalar props "" .plain)

/-- Reads a node, or an empty one if one of the given tokens comes next. The text ends only at the
end of the document, so that it ends no collection. -/
def nodeUnless? (inBlock entries : Bool) (ends : List Token) : Option Reader :=
  match r.tokens with
  | t :: _ => if ends.contains t then some r.empty else r.node? inBlock entries
  | [] => r.node? inBlock entries

/-- The next entry of a block sequence. -/
def blockEntry? : Option Reader :=
  match r.tokens with
  | .blockEntry :: _ => (r.skip.expect .blockEntry).nodeUnless? true false [.blockEntry, .blockEnd]
  | .blockEnd :: _ => some (r.skip.emit .closeSequence)
  | _ => none

/-- The next entry of a sequence that is not indented. -/
def plainEntry? : Option Reader :=
  match r.tokens with
  | .blockEntry :: _ =>
    (r.skip.expect .plainEntry).nodeUnless? true false [.blockEntry, .key, .value, .blockEnd]
  | _ => some (r.emit .closeSequence)

def blockKey? : Option Reader :=
  match r.tokens with
  | .key :: _ => (r.skip.expect .blockValue).nodeUnless? true true [.key, .value, .blockEnd]
  | .blockEnd :: _ => some (r.skip.emit .closeMapping)
  | _ => none

def blockValue? : Option Reader :=
  match r.tokens with
  | .value :: _ => (r.skip.expect .blockKey).nodeUnless? true true [.key, .value, .blockEnd]
  | _ => some (r.expect .blockKey).empty

/-- Goes past the comma in front of all entries but the first. -/
def pastComma? (first : Bool) : Option Reader :=
  if first then some r
  else
    match r.tokens with
    | .flowEntry :: _ => some r.skip
    | _ => none

/-- The next entry of a flow sequence. A key begins a mapping of one pair. -/
def flowEntry? (first : Bool) : Option Reader :=
  match r.tokens with
  | .closeSequence :: _ => some (r.skip.emit .closeSequence)
  | _ => do
    let r ← r.pastComma? first
    match r.tokens with
    | .closeSequence :: _ => return r.skip.emit .closeSequence
    | .key :: _ =>
      return ((r.skip.emit (.openMapping ⟨none, none⟩)).expect (.flowEntry false)).expect .pairKey
    | _ => (r.expect (.flowEntry false)).node? false false

/-- The key of a single pair. Where there is none, the next token goes with it. -/
def pairKey? : Option Reader :=
  match r.tokens with
  | .value :: _ | .flowEntry :: _ | .closeSequence :: _ => some (r.skip.expect .pairValue).empty
  | _ => (r.expect .pairValue).node? false false

def pairValue? : Option Reader :=
  match r.tokens with
  | .value :: _ => (r.skip.expect .pairEnd).nodeUnless? false false [.flowEntry, .closeSequence]
  | _ => some (r.expect .pairEnd).empty

/-- The next key of a flow mapping. A node that is not marked as a key has no value. -/
def flowKey? (first : Bool) : Option Reader :=
  match r.tokens with
  | .closeMapping :: _ => some (r.skip.emit .closeMapping)
  | _ => do
    let r ← r.pastComma? first
    match r.tokens with
    | .closeMapping :: _ => return r.skip.emit .closeMapping
    | .key :: _ =>
      (r.skip.expect .flowValue).nodeUnless? false false [.value, .flowEntry, .closeMapping]
    | _ => (r.expect .flowNoValue).node? false false

def flowValue? : Option Reader :=
  match r.tokens with
  | .value :: _ =>
    (r.skip.expect (.flowKey false)).nodeUnless? false false [.flowEntry, .closeMapping]
  | _ => some (r.expect (.flowKey false)).empty

/-- Meets the innermost expectation. -/
def step? (e : Expect) : Option Reader :=
  match e with
  | .documentEnd => some r
  | .blockEntry => r.blockEntry?
  | .plainEntry => r.plainEntry?
  | .blockKey => r.blockKey?
  | .blockValue => r.blockValue?
  | .flowEntry first => r.flowEntry? first
  | .pairKey => r.pairKey?
  | .pairValue => r.pairValue?
  | .pairEnd => some (r.emit .closeMapping)
  | .flowKey first => r.flowKey? first
  | .flowValue => r.flowValue?
  | .flowNoValue => some (r.expect (.flowKey false)).empty

/-- Reads to the end of the document in fewer than `room` steps. -/
def run? : (room : Nat) → Reader → Option Reader
  | 0, _ => none
  | room + 1, r =>
    match r.expected with
    | [] => none
    | .documentEnd :: _ => some r
    | e :: expected => do run? room (← { r with expected }.step? e)

end Reader

def defaultHandles : List (String × Tag) := [("!", .ofText "!"), ("!!", .core "")]

/-- The directives in front of a document: at most one version, and handles that differ. -/
def directives? (versioned : Bool) (handles : List (String × Tag)) :
    List Token → Option (List (String × Tag) × List Token)
  | .version major minor :: rest =>
    if versioned || major != 1 || (minor != 1 && minor != 2) then none
    else directives? true handles rest
  | .tagHandle handle expansion :: rest =>
    if (handles.lookup handle).isSome then none
    else directives? versioned ((handle, expansion) :: handles) rest
  | ts => some (handles ++ defaultHandles, ts)

/-- The events of a node up to the end of its document. -/
def documentEvents? (handles : List (String × Tag)) (explicit : Bool) (ts : List Token) :
    Option (List Event × List Token) := do
  let r : Reader := ⟨ts, [.documentEnd], [], handles⟩
  let absent := match ts with
    | [] | .documentStart :: _ | .documentEnd :: _ | .version _ _ :: _ | .tagHandle _ _ :: _ => true
    | _ => false
  let r ← if explicit && absent then pure r.empty else r.node? true false
  let r ← r.run? (4 * ts.length + 4)
  return (r.events.reverse, r.tokens)

/-- The events of a text with at most one document. An empty text is an empty node. -/
def Event.ofTokens? (ts : List Token) : Option (List Event) := do
  let (events, rest) ← match ts with
    | [] => pure ([.scalar ⟨none, none⟩ "" .plain], [])
    | .version _ _ :: _ | .tagHandle _ _ :: _ | .documentStart :: _ =>
      let (handles, rest) ← directives? false [] ts
      match rest with
      | .documentStart :: rest => documentEvents? handles true rest
      | _ => none
    | _ => documentEvents? defaultHandles false ts
  if rest.all (· == .documentEnd) then return events else none

end Yaml

end FrozenDefaults
