import FrozenDefaults.FileTree
import FrozenDefaults.Program

/-!
# Sessions

A command run on a file tree: what it leaves there, and what it prints.
-/

namespace FrozenDefaults

/-- A file tree and what has been printed so far. -/
structure Session where
  tree : FileTree
  stdout : String
  stderr : String
  deriving DecidableEq

namespace Session

def ofTree (tree : FileTree) : Session := ⟨tree, "", ""⟩

/-- Takes over a changed tree, if there is one. -/
def change (s : Session) : Option FileTree → Bool × Session
  | some tree => (true, { s with tree })
  | none => (false, s)

def host : Host (StateM Session) where
  read path := fun s => (s.tree.read? path, s)
  makeFolders path := fun s => s.change (s.tree.makeFolders? path)
  write path text := fun s => s.change (s.tree.write? path text)
  out text := fun s => ((), { s with stdout := s.stdout ++ text })
  err text := fun s => ((), { s with stderr := s.stderr ++ text })

def generate (path : String) (output : Option String) (overrides : Preferences)
    (verbose : Bool) (s : Session) : Attempt Unit × Session :=
  Command.generate host path output overrides verbose s

def check (path : String) (verbose : Bool) (s : Session) : Attempt Unit × Session :=
  Command.check host path verbose s

def run (words : List String) (s : Session) : Program.Outcome × Session := Program.run host words s

end Session

end FrozenDefaults
