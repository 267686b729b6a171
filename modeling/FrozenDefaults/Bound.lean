import FrozenDefaults.Arena

/-!
# Bound descriptors

A descriptor together with the arena it was laid out in.
-/

namespace FrozenDefaults

structure Bound (α : Type) where
  arena : Arena
  descriptor : α

namespace Bound

def data (b : Bound StructView) : Except Fault (List UInt8) := b.arena.read b.descriptor.data

def pointers (b : Bound StructView) : Except Fault (List UInt8) :=
  b.arena.read b.descriptor.pointers

/-- The elements without the tag word of a composite list. -/
def elements (b : Bound ListView) : Except Fault (List UInt8) :=
  b.arena.read b.descriptor.elements

def pointerWord (b : Bound Span) : Except Fault Word :=
  b.arena.readWord b.descriptor.segment b.descriptor.startWord

end Bound

end FrozenDefaults
