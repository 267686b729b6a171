import FrozenDefaults.Wire.Pointer

/-!
# Layouts of list elements

How the elements of a list are laid out, and how many bytes a number of them
takes.
-/

namespace FrozenDefaults

inductive ElementLayout where
  | empty
  | bit
  | bytes1
  | bytes2
  | bytes4
  | bytes8
  | pointer
  | composite (dataWords pointerWords : UInt16)
  deriving DecidableEq

namespace ElementLayout

/-- A composite list has its layout in a tag word, so its size alone gives none. -/
def ofSize? : ElementSize → Option ElementLayout
  | .void => some empty
  | .bit => some bit
  | .byte => some bytes1
  | .twoBytes => some bytes2
  | .fourBytes => some bytes4
  | .eightBytes => some bytes8
  | .pointer => some pointer
  | .composite => none

def size : ElementLayout → ElementSize
  | empty => .void
  | bit => .bit
  | bytes1 => .byte
  | bytes2 => .twoBytes
  | bytes4 => .fourBytes
  | bytes8 => .eightBytes
  | pointer => .pointer
  | composite _ _ => .composite

def name : ElementLayout → String
  | empty => "Empty"
  | bit => "Bit"
  | bytes1 => "Bytes1"
  | bytes2 => "Bytes2"
  | bytes4 => "Bytes4"
  | bytes8 => "Bytes8"
  | pointer => "Pointer"
  | composite _ _ => "Composite"

/-- The words of one element of a composite list. -/
def stride (dataWords pointerWords : UInt16) : Nat := dataWords.toNat + pointerWords.toNat

/-- The layout as it is named in messages. -/
def text : ElementLayout → String
  | composite d p => s!"composite({d.toNat}, {p.toNat})"
  | l => l.name

def bitsPerElement : ElementLayout → Nat
  | empty => 0
  | bit => 1
  | bytes1 => 8
  | bytes2 => 16
  | bytes4 => 32
  | bytes8 => 64
  | pointer => 64
  | composite d p => stride d p * 64

variable (l : ElementLayout) (count : UInt32)

/-- The bytes that carry element values. -/
def payloadBytes : Nat := (count.toNat * l.bitsPerElement + 7) / 8

/-- The payload in whole words, without the tag of a composite list. -/
def storageBytes : Nat := roundUp (l.payloadBytes count)

theorem payloadBytes_le_storageBytes : l.payloadBytes count ≤ l.storageBytes count :=
  le_roundUp _

theorem ofSize?_size {l : ElementLayout} (h : l.size ≠ .composite) : ofSize? l.size = some l := by
  cases l <;> simp_all [size, ofSize?]

theorem of_ofSize? {s : ElementSize} {l : ElementLayout} (h : ofSize? s = some l) :
    s = l.size ∧ l.size ≠ .composite := by
  cases s <;> cases h <;> exact ⟨rfl, by decide⟩

theorem eq_composite_of_ofSize? {s : ElementSize} (h : ofSize? s = none) : s = .composite := by
  cases s <;> first | rfl | cases h

end ElementLayout

end FrozenDefaults
