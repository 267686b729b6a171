import FrozenDefaults.Wire.Word

/-!
# Pointer words

A pointer is one word. Its two lowest bits give the kind; the other bits, from
high to low, are

* struct: pointer words (16), data words (16), offset (30);
* list: element count (29), element size (3), offset (30);
* far: segment (32), landing pad (29), double (1).

The fourth kind stands for a capability. An offset is a signed number of words,
counted from the word behind the pointer. The tag of a composite list is a word
of the struct kind with the element count in the place of the offset.
-/

namespace FrozenDefaults

inductive PointerKind where
  | struct
  | list
  | far
  | capability
  deriving DecidableEq

inductive ElementSize where
  | void
  | bit
  | byte
  | twoBytes
  | fourBytes
  | eightBytes
  | pointer
  | composite
  deriving DecidableEq

namespace ElementSize

def code : ElementSize → BitVec 3
  | void => 0
  | bit => 1
  | byte => 2
  | twoBytes => 3
  | fourBytes => 4
  | eightBytes => 5
  | pointer => 6
  | composite => 7

def ofCode (c : BitVec 3) : ElementSize :=
  match c.toNat with
  | 0 => void
  | 1 => bit
  | 2 => byte
  | 3 => twoBytes
  | 4 => fourBytes
  | 5 => eightBytes
  | 6 => pointer
  | _ => composite

@[simp] theorem ofCode_code (s : ElementSize) : ofCode s.code = s := by
  cases s <;> rfl

@[simp] theorem code_ofCode (c : BitVec 3) : (ofCode c).code = c := by
  revert c; decide

end ElementSize

namespace Pointer

variable (w : Word)

def null : Word := 0

def isNull : Bool := w == null

def kind : PointerKind :=
  match (w.extractLsb' 0 2).toNat with
  | 0 => .struct
  | 1 => .list
  | 2 => .far
  | _ => .capability

def offset : Int := (w.extractLsb' 2 30).toInt

/-- The word that the pointer at word `home` leads to, unless that lies before its segment. Places
are signed numbers of 64 bits. -/
def target? (home : Nat) : Option Nat :=
  let t := Int.bmod (home + 1 + offset w) UInt64.size
  if 0 ≤ t then some t.toNat else none

def dataWords : UInt16 := ⟨w.extractLsb' 32 16⟩

def pointerWords : UInt16 := ⟨w.extractLsb' 48 16⟩

def elementSize : ElementSize := .ofCode (w.extractLsb' 32 3)

/-- The number of elements, or of words behind the tag when the list is composite. -/
def elementCount : UInt32 := ⟨(w.extractLsb' 35 29).setWidth 32⟩

def tagCount : UInt32 := ⟨(w.extractLsb' 2 30).setWidth 32⟩

def isDouble : Bool := w.getLsbD 2

def padWord : Nat := (w.extractLsb' 3 29).toNat

def segment : Nat := (w.extractLsb' 32 32).toNat

/-- An offset keeps its low thirty bits. -/
def ofStruct (offset : Int) (dataWords pointerWords : UInt16) : Word :=
  pointerWords.toBitVec ++ dataWords.toBitVec ++ BitVec.ofInt 30 offset ++ 0b00#2

/-- A count keeps its low twenty-nine bits. -/
def ofList (offset : Int) (size : ElementSize) (count : UInt32) : Word :=
  count.toBitVec.setWidth 29 ++ size.code ++ BitVec.ofInt 30 offset ++ 0b01#2

/-- A landing pad keeps its low twenty-nine bits. -/
def ofFar (double : Bool) (pad : Nat) (segment : UInt32) : Word :=
  segment.toBitVec ++ BitVec.ofNat 29 pad ++ BitVec.ofBool double ++ 0b10#2

/-- A count of `2 ^ 30` or more runs over into the data words. -/
def ofTag (count : UInt32) (dataWords pointerWords : UInt16) : Word :=
  count.toBitVec.setWidth 64 <<< 2 ||| dataWords.toBitVec.setWidth 64 <<< 32 |||
    pointerWords.toBitVec.setWidth 64 <<< 48

/-- A struct without words. The offset sets it apart from null. -/
def emptyStruct : Word := ofStruct (-1) 0 0

def withOffset (offset : Int) : Word :=
  w.extractLsb' 32 32 ++ BitVec.ofInt 30 offset ++ w.extractLsb' 0 2

end Pointer

end FrozenDefaults
