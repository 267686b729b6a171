import FrozenDefaults.Fault
import FrozenDefaults.Text.Hex
import FrozenDefaults.World

/-!
# Failures

Why a whole run stopped: a cause, and what was being done when it arose.
-/

namespace FrozenDefaults

/-- A way in which the two worlds, or a listing and its arena, can differ. -/
inductive Disagreement where
  | readerSpans (segments : Nat)
  | differs (ident : String)
  | missing (ident : String)
  | counts (builder reader : Nat)
  | literal (world : World) (segment : Nat)
  deriving DecidableEq

inductive Cause where
  | fault (f : Fault)
  | hex (f : Hex.Fault)
  | disagreement (d : Disagreement)
  | unreadable
  | inaccessible
  deriving DecidableEq

structure Failure where
  context : List String
  cause : Cause
  deriving DecidableEq

def Disagreement.message : Disagreement → String
  | readerSpans n => s!"reader defaults span {n} segments instead of one"
  | differs ident => s!"default '{ident}' differs between builder and reader"
  | missing ident => s!"default '{ident}' is missing from the reader"
  | counts builder reader => s!"builder has {builder} defaults but reader has {reader}"
  | literal world segment =>
    s!"{world.name} segment {segment} does not decode back from its literal"

/-- The text of a cause, where it has one of its own. -/
def Cause.message? : Cause → Option String
  | fault f => some f.message
  | hex f => some f.message
  | disagreement d => some d.message
  | unreadable => none
  | inaccessible => none

namespace Failure

def ofFault (f : Fault) : Failure := ⟨[], .fault f⟩

/-- The texts of a failure, from the outermost context to the cause. -/
def chain (f : Failure) : List String := f.context ++ f.cause.message?.toList

/-- The chain as it is shown to a reader, with the causes set in. -/
def report (f : Failure) : String :=
  match f.chain with
  | [] => "Error\n"
  | [outer] => s!"Error: {outer}\n"
  | outer :: causes =>
    s!"Error: {outer}\n\nCaused by:\n" ++ String.join (causes.map fun c => s!"    {c}\n")

end Failure

abbrev Attempt := Except Failure

namespace Attempt

variable {α : Type}

def ofFault : Except Fault α → Attempt α
  | .ok a => .ok a
  | .error f => .error (.ofFault f)

def within (context : String) : Attempt α → Attempt α
  | .ok a => .ok a
  | .error f => .error { f with context := context :: f.context }

end Attempt

end FrozenDefaults
