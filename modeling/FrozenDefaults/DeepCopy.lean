import FrozenDefaults.Target

/-!
# Deep copies

A struct, a list or the object behind a pointer is rebuilt in another arena with
everything it leads to, depth first and from left to right. The copy never leads
back to the source. An object is placed in the segment of the pointer that leads
to it; if there is no room, it is placed elsewhere behind a landing pad.
-/

namespace FrozenDefaults

namespace DeepCopy

/-- Where the copy of an object landed, with the landing pad that leads to it, if there is one. -/
structure Placement where
  content : Span
  pad : Option Span
  deriving DecidableEq

/-- Runs a step for `count` indices from `first` on. -/
def forIndices (step : Nat → Building Unit) : (first count : Nat) → Building Unit
  | _, 0 => pure ()
  | first, count + 1 => do
    step first
    forIndices step (first + 1) count

/-- The bytes of a list together with its tag word. -/
def footprint (v : ListView) : Nat :=
  match v.layout with
  | .composite _ _ => bytesPerWord + v.layout.storageBytes v.count
  | l => l.storageBytes v.count

def place (slot : Span) (n : Nat) : Building Placement := fun a =>
  match a.allocIn slot.segment n with
  | (some content, a) => (.ok ⟨content, none⟩, a)
  | (none, a) =>
    let (region, a) := a.alloc (n + bytesPerWord)
    match region.part bytesPerWord (region.length - bytesPerWord), region.word 0 with
    | .ok content, .ok pad => (.ok ⟨content, some pad⟩, a)
    | .error f, _ => (.error f, a)
    | _, .error f => (.error f, a)

/-- Stores a pointer to the placed object in `slot`. The content follows the landing pad, so the
offset in the pad is zero. -/
def link (slot : Span) (p : Placement) (pointer : Word) : Building Unit :=
  match p.pad with
  | none =>
    Building.writeWord slot.segment slot.startWord
      (Pointer.withOffset pointer (p.content.startWord - slot.startWord - 1))
  | some pad => do
    Building.writeWord pad.segment pad.startWord (Pointer.withOffset pointer 0)
    Building.writeWord slot.segment slot.startWord
      (Pointer.ofFar false pad.startWord (UInt32.ofNat pad.segment))

/-- The list `v` laid out in a region of its footprint, with the tag word written. -/
def listInRegion (v : ListView) (region : Span) : Building ListView :=
  match v.layout with
  | .composite d p => do
    Building.writeWord region.segment region.startWord (Pointer.ofTag v.count d p)
    let elements ← liftExcept (region.part bytesPerWord (region.length - bytesPerWord))
    return { v with elements }
  | _ => return { v with elements := region }

section Fill

variable (source : Arena) (copySlot : Span → Span → Building Unit)

def fillBytes (src dst : Span) (n : Nat) : Building Unit := do
  if 0 < n then
    let bs ← liftExcept (source.read (← liftExcept (src.part 0 n)))
    Building.write (← liftExcept (dst.part 0 n)) bs

/-- Copies the pointer words with the given indices. -/
def fillSlots (src dst : Span) (count : Nat) : Building Unit :=
  forIndices (fun i => do copySlot (← liftExcept (src.word i)) (← liftExcept (dst.word i))) 0 count

def fillStruct (src dst : StructView) : Building Unit := do
  fillBytes source src.data dst.data (min src.data.length dst.data.length)
  let there ← liftExcept src.pointers.wordCount
  let here ← liftExcept dst.pointers.wordCount
  fillSlots copySlot src.pointers dst.pointers (min there here)

/-- Elements without words are all the same empty struct, so that one stands for all of them. -/
def elementRounds (stride : Nat) (count : UInt32) : Nat :=
  if stride = 0 then min count.toNat 1 else count.toNat

def fillElement (src dst : Span) (d p : UInt16) (i : Nat) : Building Unit := do
  let stride := ElementLayout.stride d p * bytesPerWord
  let there ← liftExcept (src.part (i * stride) stride)
  let here ← liftExcept (dst.part (i * stride) stride)
  fillStruct source copySlot (.ofRegion there d.toNat p.toNat) (.ofRegion here d.toNat p.toNat)

def fillList (src dst : ListView) : Building Unit :=
  match src.layout with
  | .pointer => fillSlots copySlot src.elements dst.elements src.count.toNat
  | .composite d p =>
    forIndices (fillElement source copySlot src.elements dst.elements d p) 0
      (elementRounds (ElementLayout.stride d p) src.count)
  | l => fillBytes source src.elements dst.elements (l.payloadBytes src.count)

def copyStructTo (src : StructView) (slot : Span) : Building Unit := do
  let d := src.data.length / bytesPerWord
  let p := src.pointers.length / bytesPerWord
  if d = 0 ∧ p = 0 then
    Building.writeWord slot.segment slot.startWord Pointer.emptyStruct
  else
    let spot ← place slot ((d + p) * bytesPerWord)
    fillStruct source copySlot src (.ofRegion spot.content d p)
    link slot spot (Pointer.ofStruct 0 (UInt16.ofNat d) (UInt16.ofNat p))

/-- A pointer to a composite list counts words, and any other list pointer elements. -/
def pointerCount (v : ListView) : UInt32 :=
  match v.layout with
  | .composite _ _ => UInt32.ofNat (v.elements.length / bytesPerWord)
  | _ => v.count

def copyListTo (src : ListView) (slot : Span) : Building Unit := do
  let spot ← place slot (footprint src)
  let dst ← listInRegion src spot.content
  fillList source copySlot src dst
  link slot spot (Pointer.ofList 0 src.layout.size (pointerCount dst))

def copyTarget (src slot : Span) (pointer : Word) : Building Unit := do
  match ← liftExcept (source.follow src.segment src.startWord pointer) with
  | .struct v => copyStructTo source copySlot v slot
  | .list v => copyListTo source copySlot v slot

end Fill

/-- Refuses a span that is not one aligned word. -/
def checkSlot (s : Span) : Except Fault Unit :=
  if s.length ≠ bytesPerWord ∨ s.start % bytesPerWord ≠ 0 then .error (.unalignedSpan s.length)
  else .ok ()

/-- Copies a null pointer and leaves any other one to `descend`. -/
def copyWord (source : Arena) (descend : Span → Span → Word → Building Unit)
    (src slot : Span) : Building Unit := do
  liftExcept (checkSlot src)
  liftExcept (checkSlot slot)
  let pointer ← liftExcept (source.readWord src.segment src.startWord)
  if Pointer.isNull pointer then
    Building.writeWord slot.segment slot.startWord Pointer.null
  else
    descend src slot pointer

/-- Copies a pointer through at most `room` further levels of the `limit` allowed. -/
def copySlot (source : Arena) (limit : Nat) : (room : Nat) → Span → Span → Building Unit
  | 0 => copyWord source fun _ _ _ => throw (.tooDeep limit)
  | room + 1 => copyWord source (copyTarget source (copySlot source limit room))

variable (source : Arena) (limit : Nat)

/-- Copies the object behind the pointer word `src` and stores a pointer to it in `slot`. -/
def copyPointer (src slot : Span) : Building Unit := copySlot source limit limit src slot

/-- Copies a struct, cut or filled with zeros to the given numbers of words. -/
def copyStruct (src : StructView) (dataWords pointerWords : Nat) : Building StructView := do
  let region ← Building.alloc ((dataWords + pointerWords) * bytesPerWord)
  let dst := StructView.ofRegion region dataWords pointerWords
  fillStruct source (copyPointer source limit) src dst
  return dst

def copyList (src : ListView) : Building ListView := do
  liftExcept src.validate
  let region ← Building.alloc (footprint src)
  let dst ← listInRegion src region
  fillList source (copyPointer source limit) src dst
  return dst

/-- Copies what a descriptor describes and describes the copy. A pointer gets a new slot. -/
def copyDescriptor : Descriptor → Building Descriptor
  | .struct v => do
    let d ← liftExcept v.data.wordCount
    let p ← liftExcept v.pointers.wordCount
    return .struct (← copyStruct source limit v d p)
  | .list v => return .list (← copyList source limit v)
  | .pointer src => do
    let slot ← Building.alloc bytesPerWord
    copyPointer source limit src slot
    return .pointer slot

end DeepCopy

end FrozenDefaults
