import FrozenDefaults.Agreement
import FrozenDefaults.FileTree
import FrozenDefaults.Manifest.Json
import FrozenDefaults.Manifest.Yaml

/-!
# Commands

The command `generate` writes the listing of a manifest; the command `check` says
whether its two worlds agree. What they need of their surroundings is given as a
host.
-/

namespace FrozenDefaults

/-- Files and two outputs. What cannot be read or written is answered, not thrown. -/
structure Host (m : Type → Type) where
  read : String → m (Option String)
  makeFolders : String → m Bool
  write : (path text : String) → m Bool
  out : String → m Unit
  err : String → m Unit

namespace Command

/-- Where progress is told. While a listing goes to standard output it is told elsewhere. -/
inductive Progress where
  | quiet
  | out
  | err
  deriving DecidableEq

def Progress.of (verbose listingOnOut : Bool) : Progress :=
  if !verbose then quiet else if listingOnOut then err else out

variable {m : Type → Type} [Monad m] (h : Host m)

def outLine (line : String) : ExceptT Failure m Unit := h.out (line ++ "\n")

def tell (p : Progress) (lines : List String) : ExceptT Failure m Unit :=
  let text := String.join (lines.map (· ++ "\n"))
  match p with
  | .quiet => pure ()
  | .out => h.out text
  | .err => h.err text

def attempt {α : Type} (a : Attempt α) : ExceptT Failure m α := ExceptT.mk (pure a)

def fail {α : Type} (context : String) (cause : Cause) : ExceptT Failure m α :=
  attempt (.error ⟨[context], cause⟩)

def parse? (path text : String) : Option Manifest :=
  if Path.isJson path then Manifest.ofJson? text else Manifest.ofYaml? text

def loadManifest (path : String) : ExceptT Failure m Manifest := do
  match ← (h.read path : m (Option String)) with
  | none => fail s!"failed to read manifest {path}" .inaccessible
  | some text =>
    match parse? path text with
    | some manifest => return manifest
    | none => fail s!"failed to parse manifest {path}" .unreadable

def settingsLines (s : Settings) (manifest : Manifest) : List String :=
  ["[~] Configuration:",
    s!"  Runtime path: {s.runtimePath}",
    s!"  Wrap width: {s.wrapWidth}",
    s!"  Initial capacity: {s.initialCapacity} bytes",
    s!"  Nesting limit: {s.nestingLimit}",
    s!"  Source segments: {manifest.segments.length}",
    s!"  Defaults: {manifest.entries.length}\n"]

def registeredLine (c : Catalog .builder) : String :=
  s!"[✓] Registered {c.size} default(s) in {c.arena.segmentCount} segment(s), " ++
    s!"{c.arena.totalSize} bytes"

def loadCatalog (path : String) (overrides : Preferences) (p : Progress) :
    ExceptT Failure m (Settings × Catalog .builder) := do
  tell h p [s!"[~] Loading manifest {path}"]
  let manifest ← loadManifest h path
  let s := Settings.resolve manifest.options overrides
  attempt (.ofFault s.validate)
  tell h p (settingsLines s manifest)
  let c ← attempt (manifest.catalog s)
  tell h p [registeredLine c]
  return (s, c)

def writeOutput (path text : String) : ExceptT Failure m Unit := do
  match Path.parent? path with
  | none | some "" => pure ()
  | some folder =>
    if !(← (h.makeFolders folder : m Bool)) then
      fail s!"failed to create {folder}" .inaccessible
  if !(← (h.write path text : m Bool)) then
    fail s!"failed to write {path}" .inaccessible

def banner : List String :=
  ["Defaults Generator - Code Generation Tool", "=========================================\n"]

def blockLines (l : Listing) : List String :=
  [s!"[~] Builder message: {l.builderMessage.length} line(s)",
    s!"[~] Builder bindings: {l.builderBindings.length} line(s)",
    s!"[~] Reader setup: {l.readerSetup.length} line(s)",
    s!"[~] Reader bindings: {l.readerBindings.length} line(s)"]

/-- Writes the listing of a manifest to a file, or to standard output. -/
def generate (path : String) (output : Option String) (overrides : Preferences)
    (verbose : Bool) : ExceptT Failure m Unit := do
  let p := Progress.of verbose output.isNone
  tell h p banner
  let (s, c) ← loadCatalog h path overrides p
  tell h p ["\n[*] Emitting builder and reader defaults..."]
  let l ← attempt (.ofFault (Listing.ofCatalog s c))
  match output with
  | some file => writeOutput h file l.render
  | none => h.out l.render
  tell h p (blockLines l)
  if let some file := output then
    tell h p [s!"[✓] Wrote {file}"]
    outLine h "[✓] Code generation complete!"

def agreementLine (a : Agreement) : String :=
  s!"[✓] {a.entries} default(s) agree: builder {a.builderBytes} bytes in " ++
    s!"{a.builderSegments} segment(s), reader {a.readerBytes} bytes, " ++
    s!"{a.listingLines} generated line(s)"

/-- Says that the two worlds of a manifest agree, or fails. -/
def check (path : String) (verbose : Bool) : ExceptT Failure m Unit := do
  let (s, c) ← loadCatalog h path .none (Progress.of verbose false)
  outLine h (agreementLine (← attempt (Agreement.verify s c)))

end Command

end FrozenDefaults
