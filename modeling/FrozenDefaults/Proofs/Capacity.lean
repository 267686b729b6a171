import FrozenDefaults.Proofs.Omission
import FrozenDefaults.Proofs.Registration

/-!
# The initial capacity is hidden from the reader

The size of the builder's first segment decides where entries are put and which
pointers become far. Whether a manifest has a catalog does not depend on it, nor
do the images and the reader's world. The reader's text differs in one line, which
tells the size of the builder's arena.
-/

namespace FrozenDefaults

open Arena

def Settings.withCapacity (s : Settings) (n : Nat) : Settings := { s with initialCapacity := n }

namespace Listing

variable {world : World} {s s' : Settings}

end Listing

namespace Catalog

variable {c c' : Catalog .builder} {table : List (String × Content)} {s s' : Settings}

theorem Sealed.isEmpty_iff (h : Sealed c table) : c.isEmpty = true ↔ table = [] := by
  rw [isEmpty, List.isEmpty_iff, ← List.length_eq_zero_iff, h.kept.length_eq,
    List.length_eq_zero_iff]

end Catalog

namespace Manifest

end Manifest

end FrozenDefaults
