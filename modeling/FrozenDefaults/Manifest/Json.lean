import FrozenDefaults.Json
import FrozenDefaults.Manifest.Dialect

/-!
# Manifests in JSON

What is skipped need only be well formed; what is read into a payload has a bound
on its depth, and its numbers and strings have to be proper ones.
-/

namespace FrozenDefaults

namespace Json

/-- The depth that a payload may have of its own, three levels below the top. -/
def payloadDepth : Nat := 124

/-- A number as plain data. Only a number that fits a word is natural; any other has to be finite. -/
def numberDatum? (n : Number) : Option Datum :=
  match n.natural?.filter (· < UInt64.size) with
  | some k => some (.natural k)
  | none => if n.isFiniteByParts then some .other else none

def datum? : (depth : Nat) → Json → Option Datum
  | _, null => some .other
  | _, bool _ => some .other
  | _, number n => numberDatum? n
  | _, string s => s.map .text
  | 0, _ => none
  | depth + 1, array items => .list <$> items.mapM (datum? depth)
  | depth + 1, object members =>
    .map <$> members.mapM fun (k, v) => do return (.text (← k), ← datum? depth v)

def record? : Json → Option (Record Json)
  | array items => some (.positional items)
  | object members => .keyed <$> members.mapM fun (k, v) => do return (← k, v)
  | _ => none

def items? : Json → Option (List Json)
  | array items => some items
  | _ => none

def text? : Json → Option String
  | string s => s
  | _ => none

def natural? : Json → Option Nat
  | number n => n.natural?
  | _ => none

def optional : Json → Option Json
  | null => none
  | j => some j

def dialect : Dialect Option Json where
  lift := id
  record := record?
  items := items?
  text := text?
  natural := natural?
  optional j := some j.optional
  payload := datum? payloadDepth

def ofNat (n : Nat) : Json := number (.ofNat n)

def ofText (s : String) : Json := string (some s)

def ofMembers (members : List (String × Json)) : Json :=
  object (members.map fun (k, v) => (some k, v))

end Json

namespace Manifest

open Json (ofNat ofText ofMembers)

def ofJson? (s : String) : Option Manifest := do Json.dialect.manifest (← Json.ofText? s)

def spanMembers (s : Span) : List (String × Json) :=
  [("segment_id", ofNat s.segment), ("start", ofNat s.start), ("len", ofNat s.length)]

def structMembers (v : StructView) : List (String × Json) :=
  [("data", ofMembers (spanMembers v.data)), ("pointers", ofMembers (spanMembers v.pointers))]

def layoutMembers : ElementLayout → List (String × Json)
  | .empty => [("kind", ofText "empty")]
  | .bit => [("kind", ofText "bit")]
  | .bytes1 => [("kind", ofText "bytes1")]
  | .bytes2 => [("kind", ofText "bytes2")]
  | .bytes4 => [("kind", ofText "bytes4")]
  | .bytes8 => [("kind", ofText "bytes8")]
  | .pointer => [("kind", ofText "pointer")]
  | .composite d p =>
    [("kind", ofText "composite"), ("data_words", ofNat d.toNat), ("pointer_words", ofNat p.toNat)]

def listMembers (v : ListView) : List (String × Json) :=
  [("storage", ofMembers (spanMembers v.elements)),
    ("storage_type", ofMembers (layoutMembers v.layout)), ("num_elements", ofNat v.count.toNat)]

def descriptorMembers : Descriptor → List (String × Json)
  | .struct v => ("kind", ofText "struct") :: structMembers v
  | .list v => ("kind", ofText "list") :: listMembers v
  | .pointer s => ("kind", ofText "pointer") :: spanMembers s

def settingMember {α : Type} (name : String) (write : α → Json) : Option α → List (String × Json)
  | some a => [(name, write a)]
  | none => []

/-- The options that are set. -/
def optionMembers (p : Preferences) : List (String × Json) :=
  settingMember "wrap_width" ofNat p.wrapWidth ++
    settingMember "runtime_path" ofText p.runtimePath ++
    settingMember "initial_capacity" ofNat p.initialCapacity ++
    settingMember "nesting_limit" ofNat p.nestingLimit

def entryMembers (e : Entry) : List (String × Json) :=
  [("node_id", ofNat e.node), ("field", ofText e.field),
    ("payload", ofMembers (descriptorMembers e.payload))]

def toJson (m : Manifest) : Json :=
  ofMembers [("options", ofMembers (optionMembers m.options)),
    ("segments", .array (m.segments.map ofText)),
    ("defaults", .array (m.entries.map fun e => ofMembers (entryMembers e)))]

end Manifest

end FrozenDefaults
