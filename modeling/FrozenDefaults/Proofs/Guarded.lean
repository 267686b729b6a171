import FrozenDefaults.Proofs.Backing

/-!
# Copies with every guard

The copy once more, step by step on the memory behind arenas, with all that
would stop the machine: a part that escapes its span, a difference below zero, a
number of bytes or a place beyond 64 bits, an index outside of the storage, a
write of more or fewer bytes than there are places for, and a block that is too
large to be had. Each of these is a trap, apart from the faults that a copy may
end with. Elements without words are gone through one by one, as the machine
goes through them.

No guard stands where none can be met. Fields of words have at most 32 bits and
indices of words 61, so that what is reckoned from them alone stays within 64
bits. How much memory the machine has is not modelled: a machine with less may
refuse a smaller block, and that ends the program as well.
-/

namespace FrozenDefaults

open Arena (Backing Block)
open DeepCopy (Placement)

inductive Trap where
  | escape
  | underflow
  | overflow
  | index
  | lengths
  | capacity
  deriving DecidableEq

/-- Why a guarded step ends early. -/
inductive Halt where
  | fault (f : Fault)
  | trap (t : Trap)
  deriving DecidableEq

abbrev Guarded := ExceptT Halt (StateM Backing)

namespace Guarded

section Guards

def ofFault {α : Type} (e : Except Fault α) : Except Halt α := e.mapError .fault

/-- A number of bytes or a place. -/
def size (n : Nat) : Except Halt Nat :=
  if n ≤ Arena.maxSize then .ok n else .error (.trap .overflow)

def sub (m n : Nat) : Except Halt Nat := if n ≤ m then .ok (m - n) else .error (.trap .underflow)

def part (s : Span) (offset length : Nat) : Except Halt Span := do
  let stop ← size (offset + length)
  if stop ≤ s.length then return ⟨s.segment, ← size (s.start + offset), length⟩
  else throw (.trap .escape)

def word (s : Span) (index : Nat) : Except Halt Span := do
  part s (← size (index * bytesPerWord)) bytesPerWord

def wordSpan (segment word : Nat) : Except Halt Span := do
  return ⟨segment, ← size (word * bytesPerWord), bytesPerWord⟩

def ofRegion (region : Span) (dataWords pointerWords : Nat) : Except Halt StructView := do
  let n ← size (dataWords * bytesPerWord)
  let start ← size (region.start + n)
  return ⟨⟨region.segment, region.start, n⟩,
    ⟨region.segment, start, ← size (pointerWords * bytesPerWord)⟩⟩

/-- The bytes of the storage that the span names. -/
def range (storage : Array UInt8) (s : Span) : Except Halt (List UInt8) := do
  let stop ← size s.stop
  if stop ≤ storage.size then return (storage.extract s.start stop).toList
  else throw (.trap .index)

end Guards

section Memory

variable (m : Backing)

def block (segment : Nat) : Except Halt Block :=
  match m.blocks[segment]? with
  | none => .error (.fault (.noSegment segment m.blocks.size))
  | some b => .ok b

def read (s : Span) : Except Halt (List UInt8) := do
  let b ← block m s.segment
  if s.stop ≤ b.used then range b.storage s
  else throw (.fault (.outOfBounds s.segment s.start (min s.stop Arena.maxSize) b.used))

def readWord (segment word : Nat) : Except Halt Word := do
  let bs ← read m (← wordSpan segment word)
  if bs.length = bytesPerWord then return Word.ofBytes bs else throw (.trap .lengths)

/-- A region in the given segment, if the segment exists and has room. -/
def allocIn (segment n : Nat) : Guarded (Option Span) := do
  let n ← liftExcept (size (roundUp n))
  let m ← get
  match m.blocks[segment]? with
  | none => return none
  | some b =>
    let free ← liftExcept (sub b.storage.size b.used)
    if free < n then return none
    else
      let _ ← liftExcept (size (b.used + n))
      set { m with blocks := m.blocks.modify segment (·.advance n) }
      return some ⟨segment, b.used, n⟩

def allocFresh (n : Nat) : Guarded Span := do
  let n ← liftExcept (size (roundUp n))
  let m ← get
  let id := m.blocks.size
  let capacity := max n m.nextSize
  if Arena.maxBlock < capacity then throw (.trap .capacity)
  else
    let opened := m.openBlock capacity
    if id < opened.blocks.size then
      set { opened with blocks := opened.blocks.modify id (·.advance n) }
      return ⟨id, 0, n⟩
    else throw (.trap .index)

/-- A region in the last segment if there is one with room, and else in a new one. -/
def alloc (n : Nat) : Guarded Span := do
  match ← allocIn ((← get).blocks.size - 1) n with
  | some r => return r
  | none => allocFresh n

def write (s : Span) (bs : List UInt8) : Guarded Unit := do
  let m ← get
  let old ← liftExcept (read m s)
  if bs.length = old.length then
    set { m with blocks := m.blocks.modify s.segment (·.write s.start bs) }
  else throw (.trap .lengths)

def writeWord (segment word : Nat) (w : Word) : Guarded Unit := do
  write (← liftExcept (wordSpan segment word)) (Word.toBytes w)

end Memory

section Targets

variable (m : Backing)

def farPlace (p : Word) : Except Halt Tagged := do
  let segment := Pointer.segment p
  let word := Pointer.padWord p
  let pad ← readWord m segment word
  if Pointer.isDouble p then
    if Pointer.kind pad ≠ .far ∨ Pointer.isDouble pad then
      throw (.fault (.malformed segment word .padNotSingle))
    let tag ← readWord m segment (word + 1)
    return ⟨tag, Pointer.segment pad, Pointer.padWord pad⟩
  else
    if Pointer.kind pad = .far then
      throw (.fault (.malformed segment word .padIsFar))
    ofFault (Arena.nearPlace segment word pad)

def locate (segment word : Nat) (p : Word) : Except Halt Tagged :=
  match Pointer.kind p with
  | .capability => .error (.fault (.capability segment word))
  | .far => farPlace m p
  | .struct | .list => ofFault (Arena.nearPlace segment word p)

def structAt (t : Tagged) : Except Halt StructView := do
  let d := (Pointer.dataWords t.tag).toNat
  let p := (Pointer.pointerWords t.tag).toNat
  let start ← size (t.word * bytesPerWord)
  let region : Span := ⟨t.segment, start, (d + p) * bytesPerWord⟩
  let _ ← read m region
  ofRegion region d p

def compositeAt (t : Tagged) : Except Halt ListView := do
  let words := (Pointer.elementCount t.tag).toNat
  let header ← readWord m t.segment t.word
  if Pointer.kind header ≠ .struct then
    throw (.fault (.malformed t.segment t.word .tagNotStruct))
  let count := Pointer.tagCount header
  let d := Pointer.dataWords header
  let p := Pointer.pointerWords header
  if words < ElementLayout.stride d p * count.toNat then
    throw (.fault (.malformed t.segment t.word .tooManyElements))
  let start ← size ((t.word + 1) * bytesPerWord)
  let elements : Span := ⟨t.segment, start, words * bytesPerWord⟩
  let _ ← read m elements
  return ⟨elements, .composite d p, count⟩

def listAt (t : Tagged) : Except Halt ListView :=
  match ElementLayout.ofSize? (Pointer.elementSize t.tag) with
  | none => compositeAt m t
  | some layout => do
    let count := Pointer.elementCount t.tag
    let start ← size (t.word * bytesPerWord)
    let elements : Span := ⟨t.segment, start, layout.storageBytes count⟩
    let _ ← read m elements
    return ⟨elements, layout, count⟩

def objectAt (t : Tagged) : Except Halt Target :=
  match Pointer.kind t.tag with
  | .struct => Target.struct <$> structAt m t
  | .list => Target.list <$> listAt m t
  | .far => .error (.fault (.malformed t.segment t.word .farTag))
  | .capability => .error (.fault (.capability t.segment t.word))

def follow (segment word : Nat) (p : Word) : Except Halt Target := do
  objectAt m (← locate m segment word p)

end Targets

def forIndices (step : Nat → Guarded Unit) : (first count : Nat) → Guarded Unit
  | _, 0 => pure ()
  | first, count + 1 => do
    step first
    forIndices step (first + 1) count

/-- A region without the word at its start. -/
def withoutFirst (region : Span) : Except Halt Span := do
  part region bytesPerWord (← sub region.length bytesPerWord)

def place (slot : Span) (n : Nat) : Guarded Placement := do
  match ← allocIn slot.segment n with
  | some content => return ⟨content, none⟩
  | none =>
    let region ← alloc (← liftExcept (size (n + bytesPerWord)))
    let content ← liftExcept (withoutFirst region)
    let pad ← liftExcept (word region 0)
    return ⟨content, some pad⟩

def link (slot : Span) (p : Placement) (pointer : Word) : Guarded Unit :=
  match p.pad with
  | none =>
    writeWord slot.segment slot.startWord
      (Pointer.withOffset pointer (p.content.startWord - slot.startWord - 1))
  | some pad => do
    writeWord pad.segment pad.startWord (Pointer.withOffset pointer 0)
    writeWord slot.segment slot.startWord
      (Pointer.ofFar false pad.startWord (UInt32.ofNat pad.segment))

def listInRegion (v : ListView) (region : Span) : Guarded ListView :=
  match v.layout with
  | .composite d p => do
    writeWord region.segment region.startWord (Pointer.ofTag v.count d p)
    let elements ← liftExcept (withoutFirst region)
    return { v with elements }
  | _ => return { v with elements := region }

section Fill

variable (source : Backing) (copySlot : Span → Span → Guarded Unit)

def fillBytes (src dst : Span) (n : Nat) : Guarded Unit := do
  if 0 < n then
    let bs ← liftExcept (read source (← liftExcept (part src 0 n)))
    write (← liftExcept (part dst 0 n)) bs

def fillSlots (src dst : Span) (count : Nat) : Guarded Unit :=
  forIndices (fun i => do copySlot (← liftExcept (word src i)) (← liftExcept (word dst i))) 0 count

def fillStruct (src dst : StructView) : Guarded Unit := do
  fillBytes source src.data dst.data (min src.data.length dst.data.length)
  let there ← liftExcept (ofFault src.pointers.wordCount)
  let here ← liftExcept (ofFault dst.pointers.wordCount)
  fillSlots copySlot src.pointers dst.pointers (min there here)

def fillElement (src dst : Span) (d p : UInt16) (i : Nat) : Guarded Unit := do
  let stride := ElementLayout.stride d p * bytesPerWord
  let offset ← liftExcept (size (i * stride))
  let there ← liftExcept (part src offset stride)
  let element ← liftExcept (ofRegion there d.toNat p.toNat)
  let here ← liftExcept (part dst offset stride)
  let copy ← liftExcept (ofRegion here d.toNat p.toNat)
  fillStruct source copySlot element copy

def fillList (src dst : ListView) : Guarded Unit :=
  match src.layout with
  | .pointer => fillSlots copySlot src.elements dst.elements src.count.toNat
  | .composite d p =>
    forIndices (fillElement source copySlot src.elements dst.elements d p) 0 src.count.toNat
  | l => fillBytes source src.elements dst.elements (l.payloadBytes src.count)

def copyStructTo (src : StructView) (slot : Span) : Guarded Unit := do
  let d := src.data.length / bytesPerWord
  let p := src.pointers.length / bytesPerWord
  if d = 0 ∧ p = 0 then
    writeWord slot.segment slot.startWord Pointer.emptyStruct
  else
    let spot ← place slot (← liftExcept (size ((d + p) * bytesPerWord)))
    fillStruct source copySlot src (← liftExcept (ofRegion spot.content d p))
    link slot spot (Pointer.ofStruct 0 (UInt16.ofNat d) (UInt16.ofNat p))

def copyListTo (src : ListView) (slot : Span) : Guarded Unit := do
  let spot ← place slot (DeepCopy.footprint src)
  let dst ← listInRegion src spot.content
  fillList source copySlot src dst
  link slot spot (Pointer.ofList 0 src.layout.size (DeepCopy.pointerCount dst))

def copyTarget (src slot : Span) (pointer : Word) : Guarded Unit := do
  match ← liftExcept (follow source src.segment src.startWord pointer) with
  | .struct v => copyStructTo source copySlot v slot
  | .list v => copyListTo source copySlot v slot

end Fill

def copyWord (source : Backing) (descend : Span → Span → Word → Guarded Unit) (src slot : Span) :
    Guarded Unit := do
  liftExcept (ofFault (DeepCopy.checkSlot src))
  liftExcept (ofFault (DeepCopy.checkSlot slot))
  let pointer ← liftExcept (readWord source src.segment src.startWord)
  if Pointer.isNull pointer then
    writeWord slot.segment slot.startWord Pointer.null
  else
    descend src slot pointer

def copySlot (source : Backing) (limit : Nat) : (room : Nat) → Span → Span → Guarded Unit
  | 0 => copyWord source fun _ _ _ => throw (.fault (.tooDeep limit))
  | room + 1 => copyWord source (copyTarget source (copySlot source limit room))

variable (source : Backing) (limit : Nat)

def copyPointer (src slot : Span) : Guarded Unit := copySlot source limit limit src slot

def copyStruct (src : StructView) (dataWords pointerWords : Nat) : Guarded StructView := do
  let region ← alloc (← liftExcept (size ((dataWords + pointerWords) * bytesPerWord)))
  let dst ← liftExcept (ofRegion region dataWords pointerWords)
  fillStruct source (copyPointer source limit) src dst
  return dst

def copyList (src : ListView) : Guarded ListView := do
  liftExcept (ofFault src.validate)
  let region ← alloc (DeepCopy.footprint src)
  let dst ← listInRegion src region
  fillList source (copyPointer source limit) src dst
  return dst

end Guarded

end FrozenDefaults
