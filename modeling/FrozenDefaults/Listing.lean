import FrozenDefaults.Literal
import FrozenDefaults.Settings

/-!
# Listings

The source text that holds the default values of both worlds: for each world a
static with its arena as literals, and a static for every entry. A listing has
four blocks of lines.
-/

namespace FrozenDefaults

namespace Listing

section Names

variable (world : World)

def bindingName (ident : String) : String := s!"_{world.name}_{ident}"

def messageName : String := s!"_{world.upperName}_DEFAULTS_MESSAGE"

def readerSizeName : String := "_READER_DEFAULTS_SIZE"

end Names

def literals (wrapWidth : Nat) (a : Arena) : List (List (List Char)) :=
  a.toSegments.map (Literal.lines wrapWidth)

/-- A literal inside the array of segments: later lines are set in deeper. -/
def indented : List (List Char) → List String
  | [] => []
  | first :: rest =>
    ("    " ++ String.ofList first) :: rest.map fun line => "      " ++ String.ofList line

def constructorCall : Option String → String
  | some capacity => s!"from_segments_with_capacity(segments, {capacity})"
  | none => "from_segments(segments)"

/-- The static that rebuilds an arena from its literals. The first segment is backed by `capacity`
bytes if that is given. -/
def messageLines (world : World) (s : Settings) (capacity : Option String) (a : Arena) :
    List String :=
  let rt := s.runtimePath
  [s!"/* {world.name} default values: {a.segmentCount} segment(s), {a.totalSize} bytes */",
    s!"static {messageName world}: {rt}::StaticMessage<{rt}::{world.storageName}> = " ++
      "::std::sync::LazyLock::new(|| \x7b",
    s!"  let segments: [&[u8]; {a.segmentCount}] = ["] ++
  (literals s.wrapWidth a).flatMap indented ++
  ["  ];",
    s!"  {rt}::Message::{constructorCall capacity}" ++
      ".expect(\"default segments are word aligned\")",
    "\x7d);"]

def spanText (rt : String) (s : Span) : String :=
  s!"{rt}::Slice::new({s.segment}, {s.start}, {s.length})"

def layoutText (rt : String) (l : ElementLayout) : String :=
  s!"{rt}::ListStorageType::{l.name}" ++
    match l with
    | .composite d p => s!" \x7b data_words: {d.toNat}, pointer_words: {p.toNat} \x7d"
    | _ => ""

def descriptorType : Descriptor → String
  | .struct _ => "StructStorage"
  | .list _ => "ListStorage"
  | .pointer _ => "Slice"

/-- The expression for a descriptor, set in as the last argument of a call. -/
def descriptorLines (rt : String) : Descriptor → List String
  | .struct v =>
    [s!"  {rt}::StructStorage \x7b", s!"    data: {spanText rt v.data},",
      s!"    pointers: {spanText rt v.pointers},", "  \x7d,"]
  | .list v =>
    [s!"  {rt}::ListStorage \x7b", s!"    storage: {spanText rt v.elements},",
      s!"    storage_type: {layoutText rt v.layout},", s!"    num_elements: {v.count},", "  \x7d,"]
  | .pointer slot => [s!"  {spanText rt slot},"]

def bindingLines (world : World) (rt : String) (ident : String) (d : Descriptor) : List String :=
  ["#[allow(non_upper_case_globals)]",
    s!"pub(crate) static {bindingName world ident}: {rt}::DefaultValue<" ++
      s!"{rt}::{world.storageName}, {rt}::{descriptorType d}> = {rt}::DefaultValue::new(",
    s!"  &{messageName world},"] ++
  descriptorLines rt d ++
  [");"]

variable {world : World}

def bindings (s : Settings) (c : Catalog world) : List String :=
  c.byKind.flatMap fun (ident, d) => bindingLines world s.runtimePath ident d

/-- The arena of the reader, backed by as many bytes as the builder's arena uses. -/
def readerSetupLines (s : Settings) (builderSize : Nat) (c : Catalog .reader) : List String :=
  ["/* Size of the builder defaults; the first segment of " ++ messageName .reader ++
      " is backed by this many bytes */",
    s!"pub(crate) const {readerSizeName}: usize = {builderSize};"] ++
  messageLines .reader s (some readerSizeName) c.arena

end Listing

structure Listing where
  builderMessage : List String
  builderBindings : List String
  readerSetup : List String
  readerBindings : List String
  deriving DecidableEq

namespace Listing

def empty : Listing := ⟨[], [], [], []⟩

variable (l : Listing)

def blocks : List (List String) :=
  [l.builderMessage, l.builderBindings, l.readerSetup, l.readerBindings]

def isEmpty : Bool := l.blocks.all List.isEmpty

def lineCount : Nat := l.blocks.foldr (fun block n => block.length + n) 0

/-- The blocks that have lines, with a blank line between two of them. -/
def render : String :=
  match l.blocks.filter (! ·.isEmpty) with
  | [] => ""
  | blocks => "\n\n".intercalate (blocks.map "\n".intercalate) ++ "\n"

/-- The listing of a catalog and of its transcription for the reader. -/
def ofCatalog (s : Settings) (c : Catalog .builder) : Except Fault Listing := do
  s.validate
  if c.isEmpty then
    return empty
  else
    let reader ← c.toReader
    return {
      builderMessage := messageLines .builder s none c.arena
      builderBindings := bindings s c
      readerSetup := readerSetupLines s c.arena.totalSize reader
      readerBindings := bindings s reader }

end Listing

end FrozenDefaults
