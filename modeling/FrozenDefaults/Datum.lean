/-!
# Plain data

What a value in a manifest is before it is known what it stands for, whatever
notation it was written in.
-/

namespace FrozenDefaults

inductive Datum where
  | natural (n : Nat)
  | text (s : String)
  | list (items : List Datum)
  | map (members : List (Datum × Datum))
  /-- Zero with a minus sign: a number, but not the number of a field or a kind. -/
  | minusZero
  /-- A truth value, any other number, or nothing. -/
  | other

namespace Datum

def natural? (bound : Nat) : Datum → Option Nat
  | natural n => if n < bound then some n else none
  | minusZero => some 0
  | _ => none

/-- The number of the field that a key names. A field is named by its name or by its number; other
names and numbers name none, and other keys are refused. -/
def fieldOf? (names : List String) : Datum → Option (Option Nat)
  | text s => some (names.idxOf? s)
  | natural n => some (if n < names.length then some n else none)
  | _ => none

def single? {α : Type} : List α → Option α
  | [a] => some a
  | _ => none

/-- The values of the named fields, each given once. -/
def fields? (names : List String) : Datum → Option (List Datum)
  | list items => if items.length = names.length then some items else none
  | map members => do
    let keyed ← members.mapM fun (k, v) => do return (← fieldOf? names k, v)
    (List.range names.length).mapM fun i =>
      single? ((keyed.filter (·.1 == some i)).map (·.2))
  | _ => none

def isKindKey : Datum → Bool
  | text s => s == "kind"
  | _ => false

/-- The kind of a value that comes in several, and the rest of it. -/
def kinded? : Datum → Option (Datum × Datum)
  | list (kind :: rest) => some (kind, list rest)
  | map members => do
    let kind ← single? ((members.filter (isKindKey ·.1)).map (·.2))
    return (kind, map (members.filter (!isKindKey ·.1)))
  | _ => none

/-- The number of the kind: it is named, or given by number. -/
def kindOf? (names : List String) : Datum → Option Nat
  | text s => names.idxOf? s
  | natural n => if n < names.length then some n else none
  | _ => none

/-- Whether the rest of a value of a kind without fields may stand: members are ignored. -/
def isBare : Datum → Bool
  | list items => items.isEmpty
  | map _ => true
  | _ => false

end Datum

end FrozenDefaults
