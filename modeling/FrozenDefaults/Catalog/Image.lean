import FrozenDefaults.Catalog

/-!
# Images of default values

The image of an entry is what its copy looks like alone in an arena that holds
it in one segment. It depends on the value and not on where the value lies.
-/

namespace FrozenDefaults

namespace Catalog

variable {world : World} (c : Catalog world)

def image (d : Descriptor) : Except Fault (List UInt8) :=
  let scratch := Arena.withCapacity (c.arena.totalSize + bytesPerWord)
  match DeepCopy.copyDescriptor c.arena c.nestingLimit d scratch with
  | (.ok _, a) => .ok a.toSegments.flatten
  | (.error f, _) => .error f

/-- The image of every entry, by kind. -/
def images : Except Fault (List (String × List UInt8)) :=
  c.byKind.mapM fun (i, d) => do return (i, ← c.image d)

end Catalog

end FrozenDefaults
