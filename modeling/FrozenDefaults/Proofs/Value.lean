import FrozenDefaults.DeepCopy

/-!
# Logical values

The value of a pointer word is null or an object: a shape and the parts that
fill it. A struct is one part, its data words and the values of its pointers. A
list of bare elements is one part without pointers, which holds the payload; a
list of pointers one part without data; a composite list has a part for each
element. Words between the last element of a composite list and its end are no
part of the value.

`Arena.valueAt` reads the value of a slot in the order in which a copy reads it,
and fails where the copy fails.
-/

namespace FrozenDefaults

/-- Bytes and, behind them, slots for pointers. -/
structure Part (α : Type) where
  data : List UInt8
  slots : List α

inductive Shape where
  | struct (dataWords pointerWords : Nat)
  | list (layout : ElementLayout) (count : UInt32)
  deriving DecidableEq

inductive Value where
  | null
  | object (shape : Shape) (parts : List (Part Value))

/-- The part filled up with zeros and nulls to the given numbers of words. -/
def Part.padded (part : Part Value) (dataWords pointerWords : Nat) : Part Value :=
  ⟨part.data.rightpad (dataWords * bytesPerWord) 0, part.slots.rightpad pointerWords .null⟩

/-- What a descriptor describes. A struct or a list is kept in place, any other value behind a
pointer. -/
inductive Content where
  | object (shape : Shape) (parts : List (Part Value))
  | pointer (value : Value)

/-- The results of a step for `count` indices from `first` on. -/
def collect {α : Type} (step : Nat → Except Fault α) : (first count : Nat) → Except Fault (List α)
  | _, 0 => .ok []
  | first, count + 1 => do
    let x ← step first
    return x :: (← collect step (first + 1) count)

namespace Arena

section Reading

variable (a : Arena) (value : Span → Except Fault Value)

def dataOf (s : Span) (n : Nat) : Except Fault (List UInt8) := do
  if 0 < n then a.read (← s.part 0 n) else return []

def slotsOf (s : Span) (count : Nat) : Except Fault (List Value) :=
  collect (fun i => do value (← s.word i)) 0 count

/-- As much of a struct as the given numbers of words can hold. -/
def partOf (v : StructView) (dataWords pointerWords : Nat) : Except Fault (Part Value) := do
  let data ← a.dataOf v.data (min v.data.length (dataWords * bytesPerWord))
  let there ← v.pointers.wordCount
  return ⟨data, ← slotsOf value v.pointers (min there pointerWords)⟩

def elementOf (s : Span) (d p : UInt16) (i : Nat) : Except Fault (Part Value) := do
  let stride := ElementLayout.stride d p * bytesPerWord
  a.partOf value (.ofRegion (← s.part (i * stride) stride) d.toNat p.toNat) d.toNat p.toNat

def listParts (v : ListView) : Except Fault (List (Part Value)) :=
  match v.layout with
  | .pointer => do return [⟨[], ← slotsOf value v.elements v.count.toNat⟩]
  | .composite d p => collect (a.elementOf value v.elements d p) 0 v.count.toNat
  | l => do return [⟨← a.dataOf v.elements (l.payloadBytes v.count), []⟩]

def targetOf : Target → Except Fault Value
  | .struct v => do
    let d := v.data.length / bytesPerWord
    let p := v.pointers.length / bytesPerWord
    return .object (.struct d p) [← a.partOf value v d p]
  | .list v => do return .object (.list v.layout v.count) (← a.listParts value v)

/-- The value of a pointer word: null, or what `beyond` makes of any other word. -/
def wordValue (beyond : Word → Except Fault Value) (slot : Span) : Except Fault Value := do
  DeepCopy.checkSlot slot
  let pointer ← a.readWord slot.segment slot.startWord
  if Pointer.isNull pointer then return .null else beyond pointer

end Reading

variable (a : Arena) (limit : Nat)

/-- The value of a slot, read through at most `room` further levels of the `limit` allowed. -/
def valueAt : (room : Nat) → Span → Except Fault Value
  | 0, slot => a.wordValue (fun _ => throw (.tooDeep limit)) slot
  | room + 1, slot =>
    a.wordValue (fun pointer => do
      a.targetOf (valueAt room) (← a.follow slot.segment slot.startWord pointer)) slot

/-- A struct as it is seen by one who expects the given numbers of words: cut, or filled up with
zeros and nulls. -/
def structValue (v : StructView) (dataWords pointerWords : Nat) : Except Fault Value := do
  let part ← a.partOf (a.valueAt limit limit) v dataWords pointerWords
  return .object (.struct dataWords pointerWords) [part.padded dataWords pointerWords]

def listValue (v : ListView) : Except Fault Value := do
  v.validate
  return .object (.list v.layout v.count) (← a.listParts (a.valueAt limit limit) v)

def describe : Descriptor → Except Fault Content
  | .struct v => do
    let d ← v.data.wordCount
    let p ← v.pointers.wordCount
    checkBlock ((d + p) * bytesPerWord)
    return .object (.struct d p) [← a.partOf (a.valueAt limit limit) v d p]
  | .list v => do
    v.validate
    return .object (.list v.layout v.count) (← a.listParts (a.valueAt limit limit) v)
  | .pointer slot => .pointer <$> a.valueAt limit limit slot

end Arena

end FrozenDefaults
