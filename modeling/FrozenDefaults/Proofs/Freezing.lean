import FrozenDefaults.Proofs.History
import FrozenDefaults.Proofs.Preservation
import FrozenDefaults.Proofs.Rebuilding

/-!
# Frozen arenas

What a reader sees of an arena, and what a copy takes from it, depends on the
used bytes of its segments and on nothing else. So an arena can be frozen to
these and rebuilt. Unused capacity, and another capacity of the first segment,
are seen by allocations alone.
-/

namespace FrozenDefaults

namespace Arena

section Reads

theorem read_eq (a : Arena) (s : Span) : a.read s = do
    a.check s
    return (a.toSegments[s.segment]?.map fun bs => bs.extract s.start s.stop).getD [] := by
  rw [read, getElem?_toSegments]
  cases a.segments[s.segment]? with
  | none => rfl
  | some seg => simp only [Array.toList_extract, Option.map_some, Option.getD_some]

variable {a b : Arena} (h : b.toSegments = a.toSegments)
include h

end Reads

end Arena

namespace DeepCopy

open Arena

variable {a b : Arena} (h : b.toSegments = a.toSegments)
include h

section Fill

variable (copySlot : Span → Span → Building Unit)

end Fill

end DeepCopy

namespace Arena

variable {a b : Arena}

section Room

variable (h : 0 < a.segmentCount) (capacity : Nat)
include h

end Room

end Arena

end FrozenDefaults
