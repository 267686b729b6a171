import FrozenDefaults.Manifest
import FrozenDefaults.Manifest.Payload

/-!
# Reading manifests

The records of a manifest are the same in every notation; a dialect says how the
values of one notation are looked at. A record is written with keys or, where the
notation has it, as a list of its fields in order, of which the last may be left
out if they are optional.
-/

namespace FrozenDefaults

inductive Record (Node : Type) where
  | positional (values : List Node)
  | keyed (members : List (String × Node))

structure Dialect (m : Type → Type) (Node : Type) where
  lift : {α : Type} → Option α → m α
  record : Node → m (Record Node)
  items : Node → m (List Node)
  text : Node → m String
  natural : Node → m Nat
  /-- The value, unless it says that there is none. -/
  optional : Node → m (Option Node)
  payload : Node → m Datum

namespace Record

variable {Node : Type}

/-- Whether there are no more values than fields. -/
def fits (names : List String) : Record Node → Bool
  | positional values => values.length ≤ names.length
  | keyed _ => true

def isClosed (names : List String) : Record Node → Bool
  | positional values => values.length ≤ names.length
  | keyed members => members.all fun (k, _) => names.contains k

/-- The value of a field, if there is one. A field given twice is refused. -/
def find? (names : List String) (name : String) : Record Node → Option (Option Node)
  | positional values => some (values[names.idxOf name]?)
  | keyed members =>
    match members.filter (·.1 == name) with
    | [] => some none
    | [(_, v)] => some (some v)
    | _ => none

end Record

namespace Dialect

variable {m : Type → Type} [Monad m] {Node : Type} (d : Dialect m Node)

def check (b : Bool) : m Unit := d.lift (if b then some () else none)

def bounded (bound : Nat) (n : Node) : m Nat := do
  let k ← d.natural n
  d.check (k < bound)
  return k

def size (n : Node) : m Nat := d.bounded UInt64.size n

/-- The value of a field that may be left out, or given as nothing. -/
def setting {α : Type} (read : Node → m α) (names : List String) (name : String)
    (r : Record Node) : m (Option α) := do
  match ← d.lift (r.find? names name) with
  | none => return none
  | some n =>
    match ← d.optional n with
    | none => return none
    | some n => some <$> read n

/-- The value of a field that may be left out. -/
def given {α : Type} (absent : α) (read : Node → m α) (names : List String) (name : String)
    (r : Record Node) : m α := do
  match ← d.lift (r.find? names name) with
  | none => return absent
  | some n => read n

def required {α : Type} (read : Node → m α) (names : List String) (name : String)
    (r : Record Node) : m α := do
  read (← d.lift ((r.find? names name).bind id))

def optionFields : List String := ["wrap_width", "runtime_path", "initial_capacity", "nesting_limit"]

/-- Options that are not known are refused. -/
def preferences (n : Node) : m Preferences := do
  let r ← d.record n
  d.check (r.isClosed optionFields)
  return {
    wrapWidth := ← d.setting d.size optionFields "wrap_width" r
    runtimePath := ← d.setting d.text optionFields "runtime_path" r
    initialCapacity := ← d.setting d.size optionFields "initial_capacity" r
    nestingLimit := ← d.setting d.size optionFields "nesting_limit" r }

def descriptor (n : Node) : m Descriptor := do
  d.lift (← d.payload n).descriptor?

def entryFields : List String := ["node_id", "field", "payload"]

def entry (n : Node) : m Manifest.Entry := do
  let r ← d.record n
  d.check (r.fits entryFields)
  return {
    node := ← d.required d.size entryFields "node_id" r
    field := ← d.required d.text entryFields "field" r
    payload := ← d.required d.descriptor entryFields "payload" r }

def each {α : Type} (read : Node → m α) (n : Node) : m (List α) := do
  (← d.items n).mapM read

def manifestFields : List String := ["options", "segments", "defaults"]

def manifest (n : Node) : m Manifest := do
  let r ← d.record n
  d.check (r.fits manifestFields)
  return {
    options := ← d.given .none d.preferences manifestFields "options" r
    segments := ← d.given [] (d.each d.text) manifestFields "segments" r
    entries := ← d.given [] (d.each d.entry) manifestFields "defaults" r }

end Dialect

end FrozenDefaults
