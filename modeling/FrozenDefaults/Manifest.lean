import FrozenDefaults.Failure
import FrozenDefaults.Settings
import FrozenDefaults.Text.Blank

/-!
# Manifests

A manifest gives a source message as hexadecimal text and says what to keep of
it: for each default its node, its field and a descriptor.
-/

namespace FrozenDefaults

structure Manifest.Entry where
  node : Nat
  field : String
  payload : Descriptor
  deriving DecidableEq

structure Manifest where
  options : Preferences
  segments : List String
  entries : List Manifest.Entry
  deriving DecidableEq

namespace Manifest

def empty : Manifest := ⟨.none, [], []⟩

def decodeSegment (index : Nat) (s : String) : Attempt (List UInt8) :=
  match Hex.decode (String.ofList (Text.trim s.toList)).toUTF8.toList with
  | .ok bs => .ok bs
  | .error f => .error ⟨[s!"segment {index} is not valid hex"], .hex f⟩

def decodeSegments (index : Nat) : List String → Attempt (List (List UInt8))
  | [] => .ok []
  | s :: rest => do
    let bs ← decodeSegment index s
    return bs :: (← decodeSegments (index + 1) rest)

/-- The source message. Text that is no hexadecimal is refused before a segment that is no whole
number of words. -/
def source (m : Manifest) : Attempt Arena := do
  .ofFault (Arena.ofSegments (← decodeSegments 0 m.segments))

def addEntry (source : Arena) (c : Catalog .builder) (e : Entry) : Attempt (Catalog .builder) := do
  let ident ← .ofFault (Catalog.ident e.node e.field)
  match c.add ident source e.payload with
  | (.ok _, c) => return c
  | (.error f, _) => .error ⟨[s!"failed to register {ident}"], .fault f⟩

/-- The catalog of all entries, copied in order. -/
def catalog (m : Manifest) (s : Settings) : Attempt (Catalog .builder) := do
  let source ← m.source
  m.entries.foldlM (addEntry source) s.newCatalog

end Manifest

end FrozenDefaults
