import FrozenDefaults.Manifest.Dialect
import FrozenDefaults.Yaml.Plain

/-!
# Manifests in YAML

A value may be an alias; how many aliases are followed is bounded by the size of
the document, so that small texts cannot grow without bound. What is skipped is
not looked into.
-/

namespace FrozenDefaults

namespace Yaml

/-- Reading with a number of aliases that may still be followed. -/
abbrev Reading := StateT Nat Option

def followsPerEvent : Nat := 100

/-- The depth that a value inside a payload may have, four levels below the top. -/
def payloadDepth : Nat := 124

variable (d : Document)

/-- The node itself, or the one that it is an alias of. -/
def resolve : Node → Reading Node
  | .alias number => fun left =>
    match left, d.anchoredNode? number with
    | left + 1, some n => some (n, left)
    | _, _ => none
  | n => pure n

def text (n : Node) : Reading String := do
  match ← resolve d n with
  | .scalar _ s _ => return s
  | _ => failure

/-- An empty plain scalar may stand for an empty collection. -/
def isAbsent : Node → Bool
  | .scalar _ s style => s.isEmpty && style == .plain
  | _ => false

/-- A record is written with keys. -/
def record (n : Node) : Reading (Record Node) := do
  let n ← resolve d n
  if isAbsent n then return .keyed []
  else
    match n with
    | .mapping _ pairs => return .keyed (← pairs.mapM fun (k, v) => do return (← text d k, v))
    | _ => failure

def items (n : Node) : Reading (List Node) := do
  let n ← resolve d n
  if isAbsent n then return []
  else
    match n with
    | .sequence _ items => return items
    | _ => failure

/-- Whether a scalar may be read as an integer. -/
def mayBeInteger (tag : Option Tag) (style : Style) : Bool :=
  style == .plain || (style == .literal && tag == some (.core "int"))

def natural (n : Node) : Reading Nat := do
  match ← resolve d n with
  | .scalar tag s style =>
    if mayBeInteger tag style then StateT.lift (natural? wordBound s.toList) else failure
  | _ => failure

/-- A plain scalar that is empty or null says that there is no value. -/
def optional (n : Node) : Reading (Option Node) := do
  let n ← resolve d n
  match n with
  | .scalar none s .plain => return if s.isEmpty || isNull s then none else some n
  | .scalar (some t) s .plain =>
    if t == .core "null" then
      if isNull s then return none else failure
    else return some n
  | n => return some n

/-- A value as plain data. Tags of an application are refused. -/
def datum : (depth : Nat) → Node → Reading Datum
  | 0, n => do
    match ← resolve d n with
    | .scalar tag s style => StateT.lift (value? tag s style)
    | _ => failure
  | depth + 1, n => do
    match ← resolve d n with
    | .scalar tag s style => StateT.lift (value? tag s style)
    | .sequence tag items =>
      if isLocal tag then failure else return .list (← items.mapM (datum depth))
    | .mapping tag pairs =>
      if isLocal tag then failure
      else return .map (← pairs.mapM fun (k, v) => do return (← datum depth k, ← datum depth v))
    | .alias _ => failure

def payloadMember (k v : Node) : Reading (Datum × Datum) := do
  let k ← datum d payloadDepth k
  if k.isKindKey then return (k, .text (← text d v)) else return (k, ← datum d payloadDepth v)

/-- A payload as plain data. Its kind is read as text, whatever it looks like. -/
def payload (n : Node) : Reading Datum := do
  match ← resolve d n with
  | .sequence tag (kind :: rest) =>
    if isLocal tag then failure
    else return .list (.text (← text d kind) :: (← rest.mapM (datum d payloadDepth)))
  | .mapping tag pairs =>
    if isLocal tag then failure
    else return .map (← pairs.mapM fun (k, v) => payloadMember d k v)
  | _ => failure

def dialect : Dialect Reading Node where
  lift := StateT.lift
  record := record d
  items := items d
  text := text d
  natural := natural d
  optional := optional d
  payload := payload d

end Yaml

namespace Manifest

def ofYaml? (s : String) : Option Manifest := do
  let d ← Yaml.Document.ofText? s
  let (m, _) ← (Yaml.dialect d).manifest d.root (Yaml.followsPerEvent * d.eventCount)
  return m

end Manifest

end FrozenDefaults
