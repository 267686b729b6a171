import FrozenDefaults.Catalog

/-!
# Settings

How a listing is made. A manifest may pin settings; the command line goes over
the manifest.
-/

namespace FrozenDefaults

structure Settings where
  runtimePath : String
  wrapWidth : Nat
  initialCapacity : Nat
  nestingLimit : Nat
  deriving DecidableEq

/-- Settings of which some are left open. -/
structure Preferences where
  wrapWidth : Option Nat
  runtimePath : Option String
  initialCapacity : Option Nat
  nestingLimit : Option Nat
  deriving DecidableEq

namespace Preferences

def none : Preferences := ⟨.none, .none, .none, .none⟩

def apply (p : Preferences) (s : Settings) : Settings where
  runtimePath := p.runtimePath.getD s.runtimePath
  wrapWidth := p.wrapWidth.getD s.wrapWidth
  initialCapacity := p.initialCapacity.getD s.initialCapacity
  nestingLimit := p.nestingLimit.getD s.nestingLimit

end Preferences

namespace Settings

def default : Settings where
  runtimePath := "defaults_gen::message"
  wrapWidth := 64
  initialCapacity := 8 * 1024
  nestingLimit := Catalog.defaultNestingLimit

def minWrapWidth : Nat := 5

def resolve (manifest commandLine : Preferences) : Settings :=
  commandLine.apply (manifest.apply default)

def validate (s : Settings) : Except Fault Unit :=
  if s.wrapWidth < minWrapWidth then .error (.narrowWrap s.wrapWidth minWrapWidth) else .ok ()

def newCatalog (s : Settings) : Catalog .builder :=
  Catalog.new .builder s.initialCapacity s.nestingLimit

end Settings

end FrozenDefaults
