import FrozenDefaults.Datum
import FrozenDefaults.Span

/-!
# Payloads

The descriptor that plain data stands for. Numbers have to be natural and within
the range of their field.
-/

namespace FrozenDefaults

namespace Datum

def wordCount? (d : Datum) : Option UInt16 := (d.natural? UInt16.size).map UInt16.ofNat

def size? (d : Datum) : Option Nat := d.natural? UInt64.size

def span? (d : Datum) : Option Span := do
  match ← d.fields? ["segment_id", "start", "len"] with
  | [segment, start, length] => return ⟨← segment.natural? UInt32.size, ← start.size?, ← length.size?⟩
  | _ => none

def structView? (d : Datum) : Option StructView := do
  match ← d.fields? ["data", "pointers"] with
  | [data, pointers] => return ⟨← data.span?, ← pointers.span?⟩
  | _ => none

def bareLayouts : List (String × ElementLayout) :=
  [("empty", .empty), ("bit", .bit), ("bytes1", .bytes1), ("bytes2", .bytes2), ("bytes4", .bytes4),
    ("bytes8", .bytes8), ("pointer", .pointer)]

def layoutKinds : List String := bareLayouts.map (·.1) ++ ["composite"]

def composite? (d : Datum) : Option ElementLayout := do
  match ← d.fields? ["data_words", "pointer_words"] with
  | [data, pointers] => return .composite (← data.wordCount?) (← pointers.wordCount?)
  | _ => none

def layout? (d : Datum) : Option ElementLayout := do
  let (kind, rest) ← d.kinded?
  let i ← kindOf? layoutKinds kind
  match bareLayouts[i]? with
  | some (_, layout) => if rest.isBare then some layout else none
  | none => rest.composite?

def listView? (d : Datum) : Option ListView := do
  match ← d.fields? ["storage", "storage_type", "num_elements"] with
  | [elements, layout, count] =>
    return ⟨← elements.span?, ← layout.layout?, UInt32.ofNat (← count.natural? UInt32.size)⟩
  | _ => none

/-- The kind of a payload is always named. -/
def descriptor? (d : Datum) : Option Descriptor := do
  match ← d.kinded? with
  | (.text "struct", rest) => .struct <$> rest.structView?
  | (.text "list", rest) => .list <$> rest.listView?
  | (.text "pointer", rest) => .pointer <$> rest.span?
  | _ => none

end Datum

end FrozenDefaults
