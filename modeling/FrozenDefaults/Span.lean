import FrozenDefaults.Fault

/-!
# Spans and views

A span is a range of bytes in one segment. A view says how the bytes of one or
two spans are to be read: as a struct, as a list, or as a pointer word.
-/

namespace FrozenDefaults

structure Span where
  segment : Nat
  start : Nat
  length : Nat
  deriving DecidableEq

namespace Span

variable (s : Span)

/-- The end of the span. It can be named if it is at most `2 ^ 64 - 1`, as for every span that
lies within a segment; `Arena.check` cuts any other end to that. -/
def stop : Nat := s.start + s.length

/-- The part of `length` bytes that begins `offset` bytes into the span. -/
def part (offset length : Nat) : Except Fault Span :=
  if offset + length ≤ s.length then .ok ⟨s.segment, s.start + offset, length⟩
  else .error (.breach .partOutsideSpan)

def word (index : Nat) : Except Fault Span := s.part (index * bytesPerWord) bytesPerWord

def startWord : Nat := s.start / bytesPerWord

def Aligned : Prop := s.length % bytesPerWord = 0 ∧ s.start % bytesPerWord = 0

instance : Decidable s.Aligned := inferInstanceAs (Decidable (_ ∧ _))

def wordCount : Except Fault Nat :=
  if s.Aligned then .ok (s.length / bytesPerWord) else .error (.unalignedSpan s.length)

theorem part_eq_ok {s : Span} {offset length : Nat} (h : offset + length ≤ s.length) :
    s.part offset length = .ok ⟨s.segment, s.start + offset, length⟩ := if_pos h

end Span

/-- The data section of a struct and the pointer section behind it. -/
structure StructView where
  data : Span
  pointers : Span
  deriving DecidableEq

/-- The elements of a list. The tag word of a composite list lies just before them. -/
structure ListView where
  elements : Span
  layout : ElementLayout
  count : UInt32
  deriving DecidableEq

/-- What is to be kept of a message as one default value. -/
inductive Descriptor where
  | struct (view : StructView)
  | list (view : ListView)
  | pointer (slot : Span)
  deriving DecidableEq

/-- The struct that begins where `region` does. -/
def StructView.ofRegion (region : Span) (dataWords pointerWords : Nat) : StructView where
  data := ⟨region.segment, region.start, dataWords * bytesPerWord⟩
  pointers := ⟨region.segment, region.start + dataWords * bytesPerWord, pointerWords * bytesPerWord⟩

/-- Refuses a list whose elements do not fit its span. -/
def ListView.validate (v : ListView) : Except Fault Unit :=
  let expected := v.layout.payloadBytes v.count
  if v.elements.length < expected then
    .error (.listTooShort v.layout v.count expected v.elements.length)
  else .ok ()

end FrozenDefaults
