import FrozenDefaults.Command
import FrozenDefaults.Command.Usage

/-!
# The program

From the words of a command line to what is done and how it ended.
-/

namespace FrozenDefaults

namespace Program

inductive Outcome where
  | done
  | failed
  | misused
  | crashed
  deriving DecidableEq

/-- The number that the caller of the program sees. -/
def Outcome.exitCode : Outcome → UInt32
  | done => 0
  | failed => 1
  | misused => 2
  | crashed => 101

/-- A step that may not be taken stops the program itself, not only the command. The report then
stands for what the machine prints. -/
def Outcome.ofCause : Cause → Outcome
  | .fault (.breach _) => crashed
  | _ => failed

variable {m : Type → Type} [Monad m] (h : Host m)

def perform : Command.Request → ExceptT Failure m Unit
  | .generate file output overrides verbose =>
    Command.generate h file output overrides verbose
  | .check file verbose => Command.check h file verbose

def run (words : List String) : m Outcome := do
  match Command.Request.ofArguments words with
  | .error (.help verb) =>
    h.out (Command.usage verb)
    return .done
  | .error .misuse =>
    h.err Command.misuseText
    return .misused
  | .ok request =>
    match ← (perform h request).run with
    | .ok () => return .done
    | .error f =>
      h.err f.report
      return .ofCause f.cause

end Program

end FrozenDefaults
