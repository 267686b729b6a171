import FrozenDefaults.DeepCopy
import FrozenDefaults.World

/-!
# Catalogs

A catalog holds default values of one world under identifiers, all of them
copied into one arena. Entries stay in the order in which they were added. A
failed addition adds no entry, but what it has allocated stays allocated.
-/

namespace FrozenDefaults

structure Catalog (world : World) where
  arena : Arena
  entries : List (String × Descriptor)
  nestingLimit : Nat
  deriving DecidableEq

namespace Catalog

def defaultNestingLimit : Nat := 64

def isIdentChar (c : Char) : Bool := c.isAlphanum || c == '_'

def isFieldName (field : String) : Bool := field ≠ "" && field.toList.all isIdentChar

/-- The identifier of a field's default. A node is a decimal number and holds no underscore, so
the first underscore behind it ends it. -/
def ident (node : Nat) (field : String) : Except Fault String :=
  if isFieldName field then .ok s!"default_value_{node}_{field}"
  else .error (.invalidField node field)

def new (world : World) (capacity limit : Nat) : Catalog world :=
  ⟨Arena.withCapacity capacity, [], limit⟩

variable {world : World} (c : Catalog world)

def withNestingLimit (limit : Nat) : Catalog world := { c with nestingLimit := limit }

def structs : List (String × StructView) :=
  c.entries.filterMap fun
    | (i, .struct v) => some (i, v)
    | _ => none

def lists : List (String × ListView) :=
  c.entries.filterMap fun
    | (i, .list v) => some (i, v)
    | _ => none

def pointers : List (String × Span) :=
  c.entries.filterMap fun
    | (i, .pointer s) => some (i, s)
    | _ => none

/-- All entries by kind: the structs, then the lists, then the pointers. -/
def byKind : List (String × Descriptor) :=
  c.structs.map (fun e => (e.1, .struct e.2)) ++ c.lists.map (fun e => (e.1, .list e.2)) ++
    c.pointers.map (fun e => (e.1, .pointer e.2))

def contains (ident : String) : Bool := c.entries.any (·.1 == ident)

def size : Nat := c.entries.length

def isEmpty : Bool := c.entries.isEmpty

/-- Copies what `d` describes in `source` and enters it as `ident`. -/
def add (ident : String) (source : Arena) (d : Descriptor) : Except Fault Unit × Catalog world :=
  if c.contains ident then (.error (.duplicateIdent ident), c)
  else
    match DeepCopy.copyDescriptor source c.nestingLimit d c.arena with
    | (.ok d, arena) => (.ok (), { c with arena, entries := c.entries ++ [(ident, d)] })
    | (.error f, arena) => (.error f, { c with arena })

/-- Adds the entries one after the other, up to the first that fails. -/
def addAll (source : Arena) : List (String × Descriptor) → Catalog world →
    Except Fault (Catalog world)
  | [], c => .ok c
  | (i, d) :: rest, c =>
    match c.add i source d with
    | (.ok _, c) => addAll source rest c
    | (.error f, _) => .error f

/-- The same default values, copied into a new arena of the given world. -/
def transcribe (target : World) (capacity : Nat) : Except Fault (Catalog target) :=
  addAll c.arena c.byKind (new target capacity c.nestingLimit)

/-- The default values for the reader. The builder's arena is large enough to hold them all, so
that one segment is. -/
def toReader : Except Fault (Catalog .reader) := c.transcribe .reader c.arena.totalSize

end Catalog

end FrozenDefaults
