import FrozenDefaults.Proofs.Allocation
import FrozenDefaults.Proofs.Value

/-!
# Storing values

`Value.store` puts a value behind a slot of an arena as a copy does, but from the
value alone and without a way to fail: the object is placed, its parts are
filled from left to right, and the slot is linked to it last. `Value.size` is
what the objects of a value take without landing pads.
-/

namespace FrozenDefaults

open DeepCopy (Placement)

/-- The elements are plain bytes: neither pointers nor structs. -/
def ElementLayout.Bare : ElementLayout → Prop
  | .pointer => False
  | .composite _ _ => False
  | _ => True

theorem ElementLayout.trichotomy (l : ElementLayout) :
    l = .pointer ∨ (∃ d p, l = .composite d p) ∨ l.Bare := by
  cases l with
  | pointer => exact .inl rfl
  | composite d p => exact .inr (.inl ⟨d, p, rfl⟩)
  | _ => exact .inr (.inr trivial)

theorem ElementLayout.payloadBytes_composite (d p : UInt16) (count : UInt32) :
    (ElementLayout.composite d p).payloadBytes count =
      count.toNat * (ElementLayout.stride d p * bytesPerWord) := by
  rw [ElementLayout.payloadBytes, ElementLayout.bitsPerElement, ← Nat.mul_assoc, ← Nat.mul_assoc,
    bytesPerWord]
  omega

theorem ElementLayout.payloadBytes_pointer (count : UInt32) :
    ElementLayout.pointer.payloadBytes count = count.toNat * bytesPerWord := by
  rw [ElementLayout.payloadBytes, ElementLayout.bitsPerElement, bytesPerWord]
  omega

theorem ElementLayout.storageBytes_le (l : ElementLayout) (count : UInt32) :
    l.storageBytes count ≤ 2 ^ 52 := by
  have hbits : l.bitsPerElement ≤ 2 ^ 23 - 2 ^ 7 := by
    cases l with
    | composite d p =>
      have hd := d.toNat_lt
      have hp := p.toNat_lt
      simp only [bitsPerElement, stride]
      omega
    | _ => decide
  have h := Nat.mul_le_mul (Nat.le_of_lt count.toNat_lt) hbits
  simp only [storageBytes, payloadBytes, roundUp, bytesPerWord]
  omega

namespace Shape

/-- The tag word of a composite list. -/
def headerBytes : Shape → Nat
  | .list (.composite _ _) _ => bytesPerWord
  | _ => 0

def partCount : Shape → Nat
  | .list (.composite _ _) count => count.toNat
  | _ => 1

/-- The bytes of a part in front of its slots. -/
def dataBytes : Shape → Nat
  | .struct d _ => d * bytesPerWord
  | .list (.composite d _) _ => d.toNat * bytesPerWord
  | .list .pointer _ => 0
  | .list l count => l.storageBytes count

def pointerWords : Shape → Nat
  | .struct _ p => p
  | .list (.composite _ p) _ => p.toNat
  | .list .pointer count => count.toNat
  | .list _ _ => 0

def partBytes (shape : Shape) : Nat := shape.dataBytes + shape.pointerWords * bytesPerWord

def footprint (shape : Shape) : Nat := shape.headerBytes + shape.partCount * shape.partBytes

/-- The bytes of a part that carry its value. -/
def payloadBytes : Shape → Nat
  | .list .pointer _ => 0
  | .list (.composite d _) _ => d.toNat * bytesPerWord
  | .list l count => l.payloadBytes count
  | .struct d _ => d * bytesPerWord

section Bare

variable {l : ElementLayout} (h : l.Bare) (count : UInt32)
include h

theorem partCount_bare : partCount (.list l count) = 1 := by cases l <;> first | rfl | cases h

theorem dataBytes_bare : dataBytes (.list l count) = l.storageBytes count := by
  cases l <;> first | rfl | cases h

theorem pointerWords_bare : pointerWords (.list l count) = 0 := by
  cases l <;> first | rfl | cases h

theorem payloadBytes_bare : payloadBytes (.list l count) = l.payloadBytes count := by
  cases l <;> first | rfl | cases h

end Bare

theorem partBytes_composite (d p : UInt16) (count : UInt32) :
    partBytes (.list (.composite d p) count) = ElementLayout.stride d p * bytesPerWord :=
  (Nat.add_mul _ _ _).symm

theorem storageBytes_composite (d p : UInt16) (count : UInt32) :
    (ElementLayout.composite d p).storageBytes count =
      count.toNat * (ElementLayout.stride d p * bytesPerWord) := by
  rw [ElementLayout.storageBytes, ElementLayout.payloadBytes_composite, roundUp_eq_self]
  rw [← Nat.mul_assoc]
  exact Nat.mul_mod_left _ _

theorem storageBytes_pointer (count : UInt32) :
    ElementLayout.pointer.storageBytes count = count.toNat * bytesPerWord := by
  rw [ElementLayout.storageBytes, ElementLayout.payloadBytes_pointer, roundUp_eq_self]
  exact Nat.mul_mod_left _ _

theorem partCount_mul_partBytes (l : ElementLayout) (count : UInt32) :
    (list l count).partCount * (list l count).partBytes = l.storageBytes count := by
  rcases l.trichotomy with rfl | ⟨d, p, rfl⟩ | hl
  · rw [storageBytes_pointer]
    exact (Nat.one_mul _).trans (Nat.zero_add _)
  · rw [storageBytes_composite, ElementLayout.stride, Nat.add_mul]
    rfl
  · rw [partCount_bare hl, partBytes, dataBytes_bare hl, pointerWords_bare hl, Nat.zero_mul,
      Nat.one_mul, Nat.add_zero]

/-- The pointer to an object of this shape right behind it. -/
def pointer : Shape → Word
  | .struct d p => Pointer.ofStruct 0 (UInt16.ofNat d) (UInt16.ofNat p)
  | .list l count => Pointer.ofList 0 l.size <|
    match l with
    | .composite _ _ => UInt32.ofNat (l.storageBytes count / bytesPerWord)
    | _ => count

/-- A region without the header at its start. -/
def body (shape : Shape) (region : Span) : Span :=
  ⟨region.segment, region.start + shape.headerBytes, region.length - shape.headerBytes⟩

/-- The view of an object in a region of its footprint. -/
def target (shape : Shape) (region : Span) : Target :=
  match shape with
  | .struct d p => .struct (.ofRegion region d p)
  | .list l count => .list ⟨shape.body region, l, count⟩

end Shape

theorem footprint_struct (d p : Nat) : (Shape.struct d p).footprint = (d + p) * bytesPerWord := by
  rw [Nat.add_mul]
  exact (Nat.zero_add _).trans (Nat.one_mul _)

def Target.descriptor : Target → Descriptor
  | .struct v => .struct v
  | .list v => .list v

namespace Arena

/-- Room for an object of `n` bytes: in the segment of the slot or behind a landing pad. -/
def makeRoom (slot : Span) (n : Nat) (a : Arena) : Placement × Arena :=
  match a.allocIn slot.segment n with
  | (some content, a) => (⟨content, none⟩, a)
  | (none, a) =>
    let (region, a) := a.alloc (n + bytesPerWord)
    (⟨⟨region.segment, region.start + bytesPerWord, region.length - bytesPerWord⟩,
      some ⟨region.segment, region.start, bytesPerWord⟩⟩, a)

def putWord (a : Arena) (slot : Span) (w : Word) : Arena := a.patch slot (Word.toBytes w)

def putTag (shape : Shape) (region : Span) (a : Arena) : Arena :=
  match shape with
  | .list (.composite d p) count =>
    a.putWord ⟨region.segment, region.start, bytesPerWord⟩ (Pointer.ofTag count d p)
  | _ => a

def putLink (slot : Span) (p : Placement) (pointer : Word) (a : Arena) : Arena :=
  match p.pad with
  | none => a.putWord slot (Pointer.withOffset pointer (p.content.startWord - slot.startWord - 1))
  | some pad =>
    (a.putWord pad (Pointer.withOffset pointer 0)).putWord slot
      (Pointer.ofFar false pad.startWord (UInt32.ofNat pad.segment))

end Arena

namespace Value

mutual

def size : Value → Nat
  | .null => 0
  | .object shape parts => shape.footprint + partsSize parts

def partsSize : List (Part Value) → Nat
  | [] => 0
  | ⟨_, slots⟩ :: parts => slotsSize slots + partsSize parts

def slotsSize : List Value → Nat
  | [] => 0
  | v :: vs => size v + slotsSize vs

end

mutual

def store : Value → Span → Arena → Arena
  | .null, slot, a => a.putWord slot Pointer.null
  | .object shape parts, slot, a =>
    if shape = .struct 0 0 then a.putWord slot Pointer.emptyStruct
    else
      let placed := a.makeRoom slot shape.footprint
      let content := placed.1.content
      Arena.putLink slot placed.1 shape.pointer <|
        storeParts shape parts content.segment (content.start + shape.headerBytes) <|
          Arena.putTag shape content placed.2

/-- Stores parts one behind the other from `start` on. -/
def storeParts (shape : Shape) : List (Part Value) → (segment start : Nat) → Arena → Arena
  | [], _, _, a => a
  | ⟨data, slots⟩ :: parts, segment, start, a =>
    storeParts shape parts segment (start + shape.partBytes) <|
      storeSlots slots segment (start + shape.dataBytes) <|
        a.patch ⟨segment, start, data.length⟩ data

def storeSlots : List Value → (segment start : Nat) → Arena → Arena
  | [], _, _, a => a
  | v :: vs, segment, start, a =>
    storeSlots vs segment (start + bytesPerWord) (store v ⟨segment, start, bytesPerWord⟩ a)

end

end Value

/-- Stores an object in a region of its footprint. -/
def Shape.fill (shape : Shape) (parts : List (Part Value)) (region : Span) (a : Arena) : Arena :=
  Value.storeParts shape parts region.segment (region.start + shape.headerBytes) <|
    Arena.putTag shape region a

/-- Stores an object in a new region. -/
def Shape.settle (shape : Shape) (parts : List (Part Value)) (a : Arena) : Arena :=
  shape.fill parts (a.alloc shape.footprint).1 (a.alloc shape.footprint).2

namespace Value

theorem store_emptyStruct (parts : List (Part Value)) (slot : Span) (a : Arena) :
    store (.object (.struct 0 0) parts) slot a = a.putWord slot Pointer.emptyStruct := by
  rw [store, if_pos rfl]

theorem store_object {shape : Shape} (h : shape ≠ .struct 0 0) (parts : List (Part Value))
    (slot : Span) (a : Arena) : store (.object shape parts) slot a =
      Arena.putLink slot (a.makeRoom slot shape.footprint).1 shape.pointer
        (shape.fill parts (a.makeRoom slot shape.footprint).1.content
          (a.makeRoom slot shape.footprint).2) := by
  rw [store, if_neg h]
  rfl

/-- Stores the data of a part and then its slots. -/
def storePart (shape : Shape) (part : Part Value) (segment start : Nat) (a : Arena) : Arena :=
  storeSlots part.slots segment (start + shape.dataBytes) <|
    a.patch ⟨segment, start, part.data.length⟩ part.data

theorem storeParts_cons (shape : Shape) (part : Part Value) (parts : List (Part Value))
    (segment start : Nat) (a : Arena) : storeParts shape (part :: parts) segment start a =
      storeParts shape parts segment (start + shape.partBytes)
        (storePart shape part segment start a) := by
  cases part
  rw [storeParts, storePart]

theorem storeParts_singleton (shape : Shape) (part : Part Value) (segment start : Nat)
    (a : Arena) :
    storeParts shape [part] segment start a = storePart shape part segment start a := by
  rw [storeParts_cons, storeParts]

theorem storePart_nil (shape : Shape) (segment start : Nat) (a : Arena) :
    storePart shape ⟨[], []⟩ segment start a = a := by
  rw [storePart, storeSlots, Arena.patch_nil]

theorem storeParts_replicate_nil (shape : Shape) (n segment start : Nat) (a : Arena) :
    storeParts shape (List.replicate n ⟨[], []⟩) segment start a = a := by
  induction n generalizing start with
  | zero => rw [List.replicate_zero, storeParts]
  | succ n ih => rw [List.replicate_succ, storeParts_cons, storePart_nil, ih]

end Value

namespace Content

def size : Content → Nat
  | .object shape parts => shape.footprint + Value.partsSize parts
  | .pointer v => bytesPerWord + v.size

/-- Stores a content in a region of its own and describes it. -/
def store (content : Content) (a : Arena) : Descriptor × Arena :=
  match content with
  | .object shape parts =>
    ((shape.target (a.alloc shape.footprint).1).descriptor, shape.settle parts a)
  | .pointer v =>
    let (slot, a) := a.alloc bytesPerWord
    (.pointer slot, v.store slot a)

end Content

end FrozenDefaults
