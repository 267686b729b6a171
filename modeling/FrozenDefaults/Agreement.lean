import FrozenDefaults.Catalog.Image
import FrozenDefaults.Failure
import FrozenDefaults.Listing

/-!
# Agreement of the two worlds

Whether the reader's catalog holds the builder's default values, entry by entry,
and whether the literals of both arenas read back.
-/

namespace FrozenDefaults

structure Agreement where
  entries : Nat
  builderSegments : Nat
  builderBytes : Nat
  readerBytes : Nat
  listingLines : Nat
  deriving DecidableEq

namespace Agreement

def disagree {α : Type} (d : Disagreement) : Attempt α := .error ⟨[], .disagreement d⟩

def compareImages (reader : List (String × List UInt8)) : List (String × List UInt8) →
    Attempt Unit
  | [] => .ok ()
  | (ident, image) :: rest =>
    match reader.lookup ident with
    | none => disagree (.missing ident)
    | some other => if other = image then compareImages reader rest else disagree (.differs ident)

def checkLiteralsFrom (world : World) (wrapWidth segment : Nat) : List (List UInt8) → Attempt Unit
  | [] => .ok ()
  | bs :: rest =>
    if Literal.decode? (Literal.content (Literal.lines wrapWidth bs)) = some bs then
      checkLiteralsFrom world wrapWidth (segment + 1) rest
    else disagree (.literal world segment)

def checkLiterals (world : World) (wrapWidth : Nat) (a : Arena) : Attempt Unit :=
  checkLiteralsFrom world wrapWidth 0 a.toSegments

/-- Refuses a catalog whose transcription or whose literals differ from it. -/
def verify (s : Settings) (c : Catalog .builder) : Attempt Agreement := do
  let listing ← .ofFault (Listing.ofCatalog s c)
  let reader ← .ofFault c.toReader
  if 1 < reader.arena.segmentCount then
    disagree (.readerSpans reader.arena.segmentCount)
  let images ← .ofFault c.images
  let others ← .ofFault reader.images
  compareImages others images
  if images.length ≠ others.length then
    disagree (.counts images.length others.length)
  checkLiterals .builder s.wrapWidth c.arena
  checkLiterals .reader s.wrapWidth reader.arena
  return ⟨c.size, c.arena.segmentCount, c.arena.totalSize, reader.arena.totalSize,
    listing.lineCount⟩

end Agreement

end FrozenDefaults
